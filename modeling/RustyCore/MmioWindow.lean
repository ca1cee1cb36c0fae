import RustyCore.MemoryInit

namespace RustyCore
open PageTables RadixTables List

def MMIO_FLAGS : Flags := PRESENT ||| WRITABLE ||| NO_CACHE ||| NO_EXECUTE

-- `memory::map_mmio_window`. A physical address of more than 52 bits is no `PhysAddr`.
def mapMmioWindow (x86 : Paging Fault) (allocate : α → Except Fault (Option ℕ × α)) (root phys : ℕ) (T : Tables) (s : α) :
    Except Fault (Except String ℕ × Tables × α) :=
  if phys % 4096 ≠ 0 then .ok (.error "mmio phys address is not 4KiB-aligned",T,s)
  else do
    let virt ← x86.virtAddrNew MMIO_WINDOW
    match ← x86.translateAddr T root virt with
    | some _ => .ok (.error "mmio window already occupied — single-window kernel, one MMIO page max",T,s)
    | none =>
      let frame ← PhysFrame.containingAddress phys
      match ← x86.mapTo allocate root virt frame.startAddress MMIO_FLAGS T s with
      | (.error _,T,s) => .ok (.error "mmio window map failed (frames out?)",T,s)
      | (.ok _,T,s) => .ok (.ok virt,T,s)

def mapMmioWindows (x86 : Paging Fault) (allocate : α → Except Fault (Option ℕ × α)) (root : ℕ) :
    List ℕ → Tables → α → Except Fault (List (Except String ℕ) × Tables × α)
  | [],T,s => .ok ([],T,s)
  | phys :: rest,T,s => do
    let (answer,T,s) ← mapMmioWindow x86 allocate root phys T s
    let (answers,T,s) ← mapMmioWindows x86 allocate root rest T s
    .ok (answer :: answers,T,s)

def uncached (entries : List Entry) : Bool := entries.getLast?.any (has · NO_CACHE)

structure DevicePage (T : Tables) (root phys : ℕ) : Prop where
  shows : ∀ off < 4096, translate T root (MMIO_WINDOW+off) = some (phys+off)
  writable : writable (trail view T root (path MMIO_WINDOW)) = true
  guarded : executable (trail view T root (path MMIO_WINDOW)) = false
  supervised : userAccessible (trail view T root (path MMIO_WINDOW)) = false
  uncached : uncached (trail view T root (path MMIO_WINDOW)) = true

theorem window_path (inside : off < 4096) : path (MMIO_WINDOW+off) = path MMIO_WINDOW := by
  have canonical : ∀ off < 4096, Canonical (MMIO_WINDOW+off) := fun off small => Or.inr (by norm_num [MMIO_WINDOW]; omega)
  exact (path_page (canonical off inside) (canonical 0 (by decide))).mpr (by norm_num [MMIO_WINDOW]; omega)

theorem backs_device (backs : Backs (parentFlags MMIO_FLAGS) MMIO_FLAGS T root 3 (path MMIO_WINDOW) phys) (aligned : phys % 4096 = 0)
    (small : phys < 2^52) : DevicePage T root phys where
  shows := by
    intro off inside
    have here := backs
    rw [← window_path inside] at here
    rw [here.translates aligned]
    norm_num [MMIO_WINDOW]
    omega
  writable := backs.writes aligned small (by decide) (by decide)
  guarded := backs.guarded aligned small (by decide)
  supervised := backs.supervised aligned small (by decide)
  uncached := by
    obtain ⟨parents,entries,_,_⟩ := backs.entries
    have flag : has MMIO_FLAGS NO_CACHE = true := by decide
    simp [RustyCore.uncached,entries,has_entry aligned small (show NO_CACHE &&& ADDRESS = 0 by decide),flag]

theorem mmio_flags : PageFlags MMIO_FLAGS := by
  constructor <;> decide

theorem mmio_parents : PageFlags (parentFlags MMIO_FLAGS) := by
  constructor <;> decide

inductive MmioCall (T T' : Tables) (root phys : ℕ) (pending : List ℕ) : Except String ℕ → ℕ → List (List ℕ) → Prop where
  | unaligned : phys % 4096 ≠ 0 → T' = T → MmioCall T T' root phys pending (.error "mmio phys address is not 4KiB-aligned") 0 []
  | occupied : target view T root (path MMIO_WINDOW) ≠ none → T' = T → MmioCall T T' root phys pending
      (.error "mmio window already occupied — single-window kernel, one MMIO page max") 0 []
  | short : target view T root (path MMIO_WINDOW) = none → pending.length < missing T root (path MMIO_WINDOW) →
      MmioCall T T' root phys pending (.error "mmio window map failed (frames out?)") pending.length []
  | mapped : phys % 4096 = 0 → target view T root (path MMIO_WINDOW) = none → missing T root (path MMIO_WINDOW) ≤ pending.length →
      Backs (parentFlags MMIO_FLAGS) MMIO_FLAGS T' root 3 (path MMIO_WINDOW) phys →
      MmioCall T T' root phys pending (.ok MMIO_WINDOW) (missing T root (path MMIO_WINDOW)) [path MMIO_WINDOW]

theorem MmioCall.only (call : MmioCall T T' root phys pending result k changed) (member : page ∈ changed) : page = path MMIO_WINDOW := by
  cases call with
  | mapped => simpa using member
  | unaligned | occupied | short => cases member

theorem MmioCall.cases (call : MmioCall T T' root phys pending result k changed)
    (grown : Grown above T T' root 3 taken changed) :
    result.toOption = none ∧ target view T' root (path MMIO_WINDOW) = target view T root (path MMIO_WINDOW) ∨
    result = .ok MMIO_WINDOW ∧ phys % 4096 = 0 ∧ target view T root (path MMIO_WINDOW) = none ∧
      Backs (parentFlags MMIO_FLAGS) MMIO_FLAGS T' root 3 (path MMIO_WINDOW) phys := by
  cases call with
  | mapped aligned free _ backs => exact Or.inr ⟨rfl,aligned,free,backs⟩
  | unaligned | occupied | short => exact Or.inl ⟨rfl,grown.targets _ rfl not_mem_nil⟩

structure WindowRun (T T' : Tables) (root : ℕ) (calls : List ℕ) (answers : List (Except String ℕ)) : Prop where
  others : ∀ virt, Canonical virt → virt / 4096 ≠ MMIO_WINDOW / 4096 → translate T' root virt = translate T root virt
  window : (∀ answer ∈ answers, answer.toOption = none) ∧ translate T' root MMIO_WINDOW = none ∨
    ∃ before phys after refused refused', calls = before ++ phys :: after ∧ answers = refused ++ .ok MMIO_WINDOW :: refused' ∧
      refused.length = before.length ∧ refused'.length = after.length ∧ (∀ answer ∈ refused ++ refused', answer.toOption = none) ∧
      phys % 4096 = 0 ∧ DevicePage T' root phys

theorem WindowRun.after_refusal (run : WindowRun T₁ T' root calls answers)
    (others : ∀ virt, Canonical virt → virt / 4096 ≠ MMIO_WINDOW / 4096 → translate T₁ root virt = translate T root virt)
    (refused : result.toOption = none) : WindowRun T T' root (phys :: calls) (result :: answers) where
  others := fun virt canonical apart => (run.others virt canonical apart).trans (others virt canonical apart)
  window := by
    rcases run.window with ⟨all,empty⟩ | ⟨before,phys',after,first,last,rfl,rfl,count,count',each,device⟩
    · exact Or.inl ⟨by simpa [refused] using all,empty⟩
    · exact Or.inr ⟨phys :: before,phys',after,result :: first,last,rfl,rfl,by simp [count],count',by simpa [refused] using each,device⟩

-- No level-4 entry on the way to the window has the bit that is reserved there.
def RootSound (T : Tables) (root : ℕ) : Prop := ∀ b n, target view T root (path MMIO_WINDOW) = some (b,n) → n < 3

section window
variable {x86 : Paging Fault} {allocate : α → Except Fault (Option ℕ × α)} {stock : α → List ℕ → Prop} {limit root : ℕ}
  (documented : x86.Documented limit) (supplies : Supplies allocate stock)
include documented supplies

theorem mapMmioWindow_spec (intact : Intact T root 3 limit pending) (stocked : stock s pending) (sound : RootSound T root)
    (small : phys < 2^52) : ∃ result T' s' k changed, mapMmioWindow x86 allocate root phys T s = .ok (result,T',s') ∧
      k ≤ pending.length ∧ stock s' (pending.drop k) ∧ Intact T' root 3 limit (pending.drop k) ∧
      Grown (parentFlags MMIO_FLAGS) T T' root 3 (pending.take k) changed ∧ MmioCall T T' root phys pending result k changed := by
  by_cases aligned : phys % 4096 = 0
  · have virt : x86.virtAddrNew MMIO_WINDOW = .ok MMIO_WINDOW := documented.new _ (Or.inr (by norm_num [MMIO_WINDOW]))
    have walked := documented.translates intact MMIO_WINDOW sound
    cases meaning : target view T root (path MMIO_WINDOW) with
    | some shown =>
        obtain ⟨_,found⟩ : ∃ a, translate T root MMIO_WINDOW = some a := by
          simp [PageTables.translate,meaning,sound _ _ meaning]
        refine ⟨_,T,s,0,[],?_,Nat.zero_le _,stocked,intact,Grown.refl ..,.occupied (by simp [meaning]) rfl⟩
        simp only [mapMmioWindow,aligned,virt,walked,found,ok_bind,ne_eq,not_true,if_false]
    | none =>
        have free : translate T root MMIO_WINDOW = none := by simp [PageTables.translate,meaning]
        have frame : PhysFrame.containingAddress phys = .ok ⟨phys,by simpa [FRAME_SIZE] using aligned,small⟩ :=
          containing_frame (by simpa [FRAME_SIZE] using Nat.dvd_of_mod_eq_zero aligned) small
        obtain ⟨result,T',s',k,ran,mapped⟩ := documented.map supplies mmio_flags mmio_parents aligned small intact stocked
          MMIO_WINDOW
        have outcome := mapped.outcome
        cases outcome with
        | mapped _ _ enough =>
            refine ⟨.ok MMIO_WINDOW,T',s',_,_,?_,mapped.few,mapped.stocked,mapped.intact,mapped.grown,
              .mapped aligned meaning enough (mapped.outcome.done rfl).2.2.1⟩
            simp only [mapMmioWindow,aligned,virt,walked,free,frame,ran,ok_bind,ne_eq,not_true,if_false]
        | short _ few =>
            refine ⟨_,T',s',_,_,?_,mapped.few,mapped.stocked,mapped.intact,mapped.grown,.short meaning few⟩
            simp only [mapMmioWindow,aligned,virt,walked,free,frame,ran,ok_bind,ne_eq,not_true,if_false]
        | huge shown => simp [meaning] at shown
        | taken shown => simp [meaning] at shown
  · exact ⟨_,T,s,0,[],if_pos aligned,Nat.zero_le _,stocked,intact,Grown.refl ..,.unaligned aligned rfl⟩

theorem windows_refused (intact : Intact T root 3 limit pending) (stocked : stock s pending) (sound : RootSound T root)
    (shown : target view T root (path MMIO_WINDOW) ≠ none) (calls : List ℕ) (physical : ∀ phys ∈ calls, phys < 2^52) :
    ∃ answers s', mapMmioWindows x86 allocate root calls T s = .ok (answers,T,s') ∧ answers.length = calls.length ∧
      ∀ answer ∈ answers, answer.toOption = none := by
  induction calls generalizing s with
  | nil => exact ⟨[],s,rfl,rfl,by simp⟩
  | cons phys rest ih =>
      obtain ⟨result,T',s',k,changed,ran,_,stocked',intact',_,call⟩ :=
        mapMmioWindow_spec documented supplies intact stocked sound (physical phys mem_cons_self)
      have kept : T' = T ∧ k = 0 ∧ result.toOption = none := by
        cases call with
        | unaligned _ same => exact ⟨same,rfl,rfl⟩
        | occupied _ same => exact ⟨same,rfl,rfl⟩
        | short free _ => exact absurd free shown
        | mapped _ free _ _ => exact absurd free shown
      obtain ⟨rfl,rfl,refused⟩ := kept
      obtain ⟨answers,s'',finish,count,each⟩ := ih stocked' fun phys member => physical phys (mem_cons_of_mem _ member)
      refine ⟨result :: answers,s'',?_,by simp [count],by simpa [refused] using each⟩
      simp only [mapMmioWindows,ran,finish,ok_bind]

-- Calls of the window change no other address. At most one of them succeeds; from then on the
-- window shows its page, and without it nothing at all.
theorem mmio_window_single (intact : Intact T root 3 limit pending) (stocked : stock s pending)
    (vacant : target view T root (path MMIO_WINDOW) = none) (calls : List ℕ) (physical : ∀ phys ∈ calls, phys < 2^52) :
    ∃ answers T' s', mapMmioWindows x86 allocate root calls T s = .ok (answers,T',s') ∧ WindowRun T T' root calls answers := by
  induction calls generalizing T s pending with
  | nil =>
      refine ⟨[],T,s,rfl,fun _ _ _ => rfl,Or.inl ⟨by simp,?_⟩⟩
      simp [PageTables.translate,vacant]
  | cons phys rest ih =>
      have physical' : ∀ phys ∈ rest, phys < 2^52 := fun phys member => physical phys (mem_cons_of_mem _ member)
      have sound : RootSound T root := by simp [RootSound,vacant]
      obtain ⟨result,T₁,s₁,k,changed,ran,_,stocked',intact',grown,call⟩ :=
        mapMmioWindow_spec documented supplies intact stocked sound (physical phys mem_cons_self)
      have others : ∀ virt, Canonical virt → virt / 4096 ≠ MMIO_WINDOW / 4096 → translate T₁ root virt = translate T root virt := by
        intro virt canonical apart
        refine translate_same (grown.targets _ rfl fun member => apart ?_)
        exact (path_page canonical (Or.inr (by norm_num [MMIO_WINDOW]))).mp (call.only member)
      rcases call.cases grown with ⟨refused,same⟩ | ⟨rfl,aligned,_,backs⟩
      · obtain ⟨answers,T',s',finish,run⟩ := ih intact' stocked' (same.trans vacant) physical'
        refine ⟨result :: answers,T',s',?_,run.after_refusal others refused⟩
        simp only [mapMmioWindows,ran,finish,ok_bind]
      · have shown : target view T₁ root (path MMIO_WINDOW) ≠ none := by simp [backs.shows]
        obtain ⟨answers,s',finish,count,each⟩ := windows_refused documented supplies intact' stocked'
          (by simp [RootSound,backs.shows]) shown rest physical'
        refine ⟨.ok MMIO_WINDOW :: answers,T₁,s',?_,others,
          Or.inr ⟨[],phys,rest,[],answers,rfl,rfl,rfl,count,each,aligned,backs_device backs aligned (physical phys mem_cons_self)⟩⟩
        simp only [mapMmioWindows,ran,finish,ok_bind]

omit documented supplies in
theorem mmio_window_single_sample : ∃ answers T' left,
    mapMmioWindows sampleMapper handOut 0x1000 [0xFEE00123,0xFEE00000] blankTables sampleShelf = .ok (answers,T',left) ∧
    translate T' 0x1000 (MMIO_WINDOW+0xB0) = some 0xFEE000B0 ∧ translate T' 0x1000 HEAP_START = none := by
  obtain ⟨answers,T',left,ran,run⟩ := mmio_window_single sample_documented shelf_supplies shelf_intact rfl
    (blank_vacant MMIO_WINDOW) [0xFEE00123,0xFEE00000] (by simp)
  obtain ⟨answer,same,checked⟩ := ran_any (show (mapMmioWindows sampleMapper handOut 0x1000 [0xFEE00123,0xFEE00000] blankTables
    sampleShelf).toOption.any (fun r => r.1.any (·.toOption.isSome)) = true by decide +kernel)
  cases ran.symm.trans same
  refine ⟨answers,T',left,ran,?_,?_⟩
  · rcases run.window with ⟨all,_⟩ | ⟨before,phys,after,_,_,split,_,_,_,_,aligned,device⟩
    · obtain ⟨answer,member,some_⟩ := any_eq_true.mp checked
      rw [all answer member] at some_
      cases some_
    · have member : phys ∈ [0xFEE00123,0xFEE00000] := split ▸ mem_append_right _ mem_cons_self
      have here : phys = 0xFEE00000 := by
        rcases mem_cons.mp member with rfl | last
        · cases aligned
        · exact mem_singleton.mp last
      rw [device.shows 0xB0 (by decide),here]
  · rw [run.others HEAP_START (Or.inr (by norm_num [HEAP_START])) (by norm_num [HEAP_START,MMIO_WINDOW])]
    decide

end window
end RustyCore
