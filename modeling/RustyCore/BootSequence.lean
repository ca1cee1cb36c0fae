import RustyCore.LapicBringUp
import RustyCore.PromotionGate

namespace RustyCore
open PageTables RadixTables BuddyFrameAllocator List

-- `.expect(message)` on the answer of a step.
def expectOk (message : String) : Except Fault (Except String β × σ) → Except Fault σ
  | .error fault => .error fault
  | .ok (.ok _,st) => .ok st
  | .ok (.error e,_) => .error (.panicked (message ++ ": \"" ++ e ++ "\""))

-- The steps of `kernel_main` with the LAPIC, up to the start of the soak.
def lapicUp (p : Profile) (x86 : Paging Fault) (allocate : α → Except Fault (Option ℕ × α)) (hw : Hardware) (found : Probe)
    (st : Lapic α) : Except Fault (Lapic α) := do
  let st ← expectOk "apic init failed" ((Apic.init p x86 allocate hw found).on st)
  let st ← expectOk "apic calibrate failed" ((Apic.calibrate hw).on st)
  expectOk "apic start_periodic failed" ((Apic.startPeriodic hw).on st)

-- From the probe to the start of the soak, with `alloc-buddy`. The probe comes first, for `memory::init` takes the boot info.
def bringUp (x86 : Paging Fault) (heap : GlobalHeap ω) (p : Profile) (selfTest : Bool) (fuel heapSize : ℕ) (info : BootInfo)
    (found : Probe) (hw : Hardware) (T : Tables) : Except Fault (Lapic (BuddyFrameAllocator × ω)) := do
  assert found.present "no local APIC (CPUID bit 9 clear) — cannot continue"
  let (T,a,h) ← memoryInit x86 heap p selfTest fuel heapSize info hw.cr3 T
  lapicUp p x86 (asSupplier (allocateListed p heap)) hw found ⟨T,(a,h),0,0,0,[],0⟩

namespace ClockPromotion

def OnlyOverflows (p : Profile) (x : Flow α) : Prop :=
  ∀ fault m, x = .error (.panicked fault,m) → p = .dev ∧ fault ∈ [.panicked "attempt to add with overflow",
    .panicked "attempt to subtract with overflow"]

section overflows
variable {p : Profile} {t : TickStreams} {m : Machine} {x : Flow α} {f : α → Flow β}

theorem overflows_ok {value : α} : OnlyOverflows p (.ok value : Flow α) := nofun

theorem overflows_halted : OnlyOverflows p (.error (.halted,m) : Flow α) := nofun

theorem overflows_bind (first : OnlyOverflows p x) (second : ∀ a, OnlyOverflows p (f a)) : OnlyOverflows p (x >>= f) := by
  cases x with
  | error ended =>
      rintro fault m ⟨⟩
      exact first fault m rfl
  | ok a => exact second a

theorem checked_bind {value : Except Fault α} {next : α → Except Fault β} :
    checked m (value >>= next) = checked m value >>= fun a => checked m (next a) := by
  cases value <;> rfl

theorem overflows_word (known : Fault.panicked message ∈
    [.panicked "attempt to add with overflow",.panicked "attempt to subtract with overflow"]) :
    OnlyOverflows p (checked m (p.overflow message wrapped)) := by
  cases p with
  | release => exact overflows_ok
  | dev =>
      rintro fault m' ⟨⟩
      exact ⟨rfl,known⟩

theorem overflows_add : OnlyOverflows p (checked m (p.add a b)) := by
  unfold Profile.add
  split
  · exact overflows_ok
  · exact overflows_word (by simp)

theorem overflows_sub : OnlyOverflows p (checked m (p.sub a b)) := by
  unfold Profile.sub
  split
  · exact overflows_ok
  · exact overflows_word (by simp)

theorem overflows_progress : OnlyOverflows p (checked m (progress p pic apic lastPic lastApic)) := by
  rw [progress,checked_bind]
  refine overflows_bind overflows_add fun picNext => ?_
  split
  · exact overflows_ok
  · rw [checked_bind]
    exact overflows_bind overflows_add fun apicNext => overflows_ok

theorem overflows_soak : OnlyOverflows p (soak p t left lastPic lastApic m) := by
  induction left generalizing lastPic lastApic m with
  | zero =>
      rw [soak.eq_def]
      refine overflows_bind overflows_progress fun moved => ?_
      dsimp only
      split_ifs <;> first | exact overflows_ok | exact overflows_halted
  | succ left ih =>
      rw [soak.eq_def]
      refine overflows_bind overflows_progress fun moved => ?_
      dsimp only
      split_ifs <;> first | exact overflows_ok | exact ih

theorem overflows_gate : OnlyOverflows p (gateCheck t m) := by
  unfold gateCheck
  dsimp only
  split
  · exact overflows_halted
  · exact overflows_ok

theorem overflows_showTick : OnlyOverflows p (showTick p base apic lastApic m) := by
  refine overflows_bind overflows_add fun next => ?_
  split
  · exact overflows_bind overflows_sub fun gained => overflows_ok
  · exact overflows_ok

theorem overflows_watch : OnlyOverflows p (watch p t base left lastApic m) := by
  induction left generalizing lastApic m with
  | zero =>
      rw [watch.eq_def]
      refine overflows_bind overflows_showTick fun shown => overflows_bind overflows_sub fun gained => ?_
      split_ifs <;> exact overflows_ok
  | succ left ih =>
      rw [watch.eq_def]
      refine overflows_bind overflows_showTick fun shown => overflows_bind overflows_sub fun gained => ?_
      split_ifs
      · exact overflows_ok
      · exact ih

theorem promote_accepts (mapped : b.lapicVirt ≠ 0) (rated : b.ticksPer10ms ≠ 0) (m : Machine) : ∃ m', callPromote b m = .ok m' := by
  simp only [callPromote,promote,mapped,rated,if_false]
  exact ⟨_,rfl⟩

theorem overflows_sequence (mapped : b.lapicVirt ≠ 0) (rated : b.ticksPer10ms ≠ 0) :
    OnlyOverflows p (beforeWatch p b t >>= promotionWatch p t) := by
  refine overflows_bind ?_ fun m => overflows_watch
  refine overflows_bind overflows_soak fun m => overflows_bind overflows_gate fun m => ?_
  obtain ⟨m',promoted⟩ := promote_accepts mapped rated m
  rw [promoted]
  exact overflows_ok

end overflows

theorem kernelMain_panics (mapped : b.lapicVirt ≠ 0) (rated : b.ticksPer10ms ≠ 0) (panics : (kernelMain p b t).1 = .panicked fault) :
    p = .dev ∧ fault ∈ [.panicked "attempt to add with overflow",.panicked "attempt to subtract with overflow"] := by
  have only := overflows_sequence (p:=p) (t:=t) mapped rated
  unfold kernelMain at panics
  split at panics
  · cases panics
  · next ended failed =>
      obtain ⟨ending,m⟩ := ended
      cases panics
      exact only fault m failed

end ClockPromotion

structure LapicRuns (hw : Hardware) (base : ℕ) (before : List Access) (st' : Lapic α) : Prop extends Apic.Ready hw base st' where
  rate : 0 < st'.ticksPer10ms
  accesses : ∃ lvt id ver svr c₁ c₂ c₃, st'.accesses = before ++ Apic.enabling base lvt id ver svr ++
    (.write (base+DCR_OFFSET) 0x3#32 :: (Apic.roundAccesses base c₁ ++ Apic.roundAccesses base c₂ ++ Apic.roundAccesses base c₃)) ++
    [.write (base+LVT_TIMER_OFFSET) (0xEF#32 ||| 1#32 <<< 17),.write (base+ICR_OFFSET) (BitVec.ofNat 32 st'.ticksPer10ms)]

section lapic
variable {x86 : Paging Fault} {allocate : α → Except Fault (Option ℕ × α)} {stock : α → List ℕ → Prop} {limit : ℕ} {hw : Hardware}
  {st : Lapic α} {pending : List ℕ} (p : Profile) (documented : x86.Documented limit) (supplies : Supplies allocate stock)
  (intact : Intact st.tables hw.cr3 3 limit pending) (stocked : stock st.frames pending) (sound : RootSound st.tables hw.cr3)
include documented supplies intact stocked sound

theorem lapicUp_spec {found : Probe} (aligned : found.base % 4096 = 0) (small : found.base < 2^52) :
    (¬ Apic.CanMap found st.tables hw.cr3 pending ∧
      ∃ e, lapicUp p x86 allocate hw found st = .error (.panicked ("apic init failed: \"" ++ e ++ "\""))) ∨
    (∃ mid k changed, (Apic.init p x86 allocate hw found).on st = .ok (.ok (),mid) ∧
      Apic.InitRun stock limit hw found pending st mid (.ok ()) k changed ∧ Apic.Stands hw found.base mid.accesses mid.loads ∧
      ∃ e, lapicUp p x86 allocate hw found st = .error (.panicked ("apic calibrate failed: \"" ++ e ++ "\""))) ∨
    ∃ st' mid k changed, lapicUp p x86 allocate hw found st = .ok st' ∧ LapicRuns hw found.base st.accesses st' ∧
      Apic.InitRun stock limit hw found pending st mid (.ok ()) k changed ∧ st'.tables = mid.tables ∧ st'.frames = mid.frames := by
  obtain ⟨result,mid,k,changed,ran,run⟩ := Apic.init_spec p documented supplies intact stocked sound aligned small
  rcases run.ending with ⟨rfl,_,enabled⟩ | ⟨⟨e,rfl⟩,cannot,_⟩
  · have calibration := Apic.calibrate_spec enabled.toReady
    generalize calibrated : (Apic.calibrate hw).on mid = answer at calibration
    cases calibration with
    | failed stands _ _ =>
        exact Or.inr (Or.inl ⟨mid,k,changed,ran,run,stands,_,by simp only [lapicUp,ran,expectOk,ok_bind,calibrated]; rfl⟩)
    | @done after q c₁ c₂ c₃ _ rated =>
        obtain ⟨st',started,kept⟩ := Apic.on_startPeriodic (rated.ready enabled.toReady)
          (by rw [rated.rate]; exact rated.positive) (by rw [rated.rate]; exact rated.small)
        obtain ⟨lvt,id,ver,svr,first⟩ := enabled.accesses
        refine Or.inr (Or.inr ⟨st',mid,k,changed,by simp only [lapicUp,ran,expectOk,ok_bind,calibrated,started],
          ⟨kept.ready (rated.ready enabled.toReady),?_,lvt,id,ver,svr,c₁,c₂,c₃,?_⟩,run,kept.tables.trans rated.kept.tables,
          kept.frames.trans rated.kept.frames⟩)
        · rw [kept.rate,rated.rate]
          exact rated.positive
        · rw [kept.accesses,kept.rate,← first]
          exact congrArg (· ++ _) rated.kept.accesses
  · exact Or.inl ⟨cannot,e,by simp only [lapicUp,ran,expectOk]; rfl⟩

theorem apic_never_refuses (edx : BitVec 32) (msr : BitVec 64) (rsdpAddr : Option ℕ) :
    (¬ Apic.CanMap (probe edx msr rsdpAddr) st.tables hw.cr3 pending ∧
      ∃ e, lapicUp p x86 allocate hw (probe edx msr rsdpAddr) st = .error (.panicked ("apic init failed: \"" ++ e ++ "\""))) ∨
    (∃ mid, (Apic.init p x86 allocate hw (probe edx msr rsdpAddr)).on st = .ok (.ok (),mid) ∧
      Apic.Stands hw (probe edx msr rsdpAddr).base mid.accesses mid.loads ∧
      ∃ e, lapicUp p x86 allocate hw (probe edx msr rsdpAddr) st = .error (.panicked ("apic calibrate failed: \"" ++ e ++ "\""))) ∨
    ∃ st', lapicUp p x86 allocate hw (probe edx msr rsdpAddr) st = .ok st' ∧ LapicRuns hw (probe edx msr rsdpAddr).base st.accesses st' ∧
      ∀ t spuriousHits fault,
        (ClockPromotion.kernelMain p ⟨st'.lapicVirt,st'.ticksPer10ms,spuriousHits⟩ t).1 = .panicked fault →
        p = .dev ∧ fault ∈ [.panicked "attempt to add with overflow",.panicked "attempt to subtract with overflow"] := by
  obtain ⟨aligned,small⟩ := Apic.probe_base edx msr rsdpAddr
  rcases lapicUp_spec p documented supplies intact stocked sound aligned small with
    failed | ⟨mid,_,_,ran,_,failed⟩ | ⟨st',_,_,_,ran,runs,_⟩
  · exact Or.inl failed
  · exact Or.inr (Or.inl ⟨mid,ran,failed⟩)
  · refine Or.inr (Or.inr ⟨st',ran,runs,fun t spuriousHits fault => ClockPromotion.kernelMain_panics ?_ ?_⟩)
    · have window : st'.lapicVirt = MMIO_WINDOW := runs.lapicVirt
      simp only [window,MMIO_WINDOW]
      decide
    · exact Nat.pos_iff_ne_zero.mp runs.rate

omit documented supplies intact stocked sound in
theorem apic_never_refuses_sample : ∃ st',
    lapicUp .release sampleMapper handOut Apic.sampleHardware Apic.sampleProbe Apic.sampleLapic = .ok st' ∧
    0 < st'.ticksPer10ms := by
  rcases apic_never_refuses .release sample_documented shelf_supplies
    (show Intact Apic.sampleLapic.tables Apic.sampleHardware.cr3 3 (2^47) sampleShelf from shelf_intact) rfl
    (by simp [RootSound,blank_vacant,Apic.sampleLapic]) (1#32 <<< 9) 0xFEE00900#64 none with ⟨cannot,_⟩ | ⟨_,_,stands,_⟩ | ⟨st',ran,runs,_⟩
  · exact absurd Apic.sample_can cannot
  · exact absurd stands (Apic.sample_moves _ _)
  · exact ⟨st',ran,runs.rate⟩

end lapic

theorem parents_same : parentFlags MMIO_FLAGS = parentFlags HEAP_FLAGS := by decide

theorem Furnished.grown (furnished : Furnished T T₁ root stock pages frames)
    (grown : Grown (parentFlags MMIO_FLAGS) T₁ T₂ root 3 taken changed) (apart : ∀ f ∈ frames, f ∉ taken) :
    Furnished T T₂ root stock pages frames where
  backs := by
    rw [parents_same] at grown
    exact furnished.backs.imp fun page frame backs => backs.grown heap_held grown
  own := furnished.own
  apart := fun f member => grown.unreached (furnished.apart f member) (apart f member)
  vacant := furnished.vacant

section boot
variable {ω : Type} {x86 : Paging Fault} {heap : GlobalHeap ω} {map : MemoryMap} {T : Tables} {hw : Hardware} {heapSize : ℕ}
  {found : Probe} (p : Profile) (selfTest : Bool) (documented : x86.Documented (2^47))
  {stored : BuddyFrameAllocator → ω → Prop} (serves : heap.Serves map heapSize stored)
  (boot : BootTables T hw.cr3 map) (slice : map.regions.length < 2^59) (positive : 0 < heapSize) (fits : HEAP_START+heapSize < MMIO_WINDOW)
  (vacant : ∀ page ∈ rangePages HEAP_START heapSize, target view T hw.cr3 (path page) = none)
  (free : target view T hw.cr3 (path MMIO_WINDOW) = none)
  (room : (rangePages HEAP_START heapSize).length+(lacking T hw.cr3 ((rangePages HEAP_START heapSize).map path)).card+3 ≤
    (pending map.regions 0).length)

include positive fits in
theorem window_outside (canonical : Canonical virt) (page : virt / 4096 = MMIO_WINDOW / 4096) :
    path virt ∉ (rangePages HEAP_START heapSize).map path := by
  have upper : 2^64-2^47 ≤ HEAP_START := by norm_num [HEAP_START]
  have top : MMIO_WINDOW < 2^64 := by norm_num [MMIO_WINDOW]
  have whole : MMIO_WINDOW % 4096 = 0 := by norm_num [MMIO_WINDOW]
  intro member
  obtain ⟨other,listed,same⟩ := mem_map.mp member
  obtain ⟨word,_,high⟩ := range_pages_path upper positive (fits.trans top) listed
  have := (path_page word canonical).mp same
  omega

theorem missing_three (T : Tables) (root virt : ℕ) : missing T root (path virt) ≤ 3 := by
  have below : (Finset.range (path virt).length).filter (fun n => walk view T root ((path virt).take n) = none) ⊆ {1,2,3} := by
    intro n member
    obtain ⟨bound,none⟩ := Finset.mem_filter.mp member
    have short : n < 4 := Finset.mem_range.mp bound
    have some_ : n ≠ 0 := by
      rintro rfl
      cases none
    simp only [Finset.mem_insert,Finset.mem_singleton]
    omega
  exact (Finset.card_le_card below).trans (by decide)

include documented serves boot slice positive fits vacant free room

-- The whole of memory and LAPIC bring-up: the heap lies in frames of its own, the window shows the LAPIC,
-- every other address means what it meant, and no later caller is handed a frame of the kernel.
theorem boot_keeps_memory_apart (present : found.present = true) (enabled : found.enabled = true) (aligned : found.base % 4096 = 0)
    (small : found.base < 2^52) (moves : ∀ lvt id ver svr, ¬ Apic.Stands hw found.base (Apic.enabling found.base lvt id ver svr) 0) :
    ∃ fuel st' frameOf left,
    bringUp x86 heap p selfTest fuel heapSize ⟨some PHYS_MEM_OFFSET,map.regions⟩ found hw T = .ok st' ∧ LapicRuns hw found.base [] st' ∧
    HeapBacked st'.tables hw.cr3 HEAP_START heapSize (pending map.regions 0) left frameOf ∧
    (∀ virt, Canonical virt → virt / 4096 < HEAP_START / 4096 ∨ (HEAP_START+heapSize-1) / 4096 < virt / 4096 →
      virt / 4096 ≠ MMIO_WINDOW / 4096 → translate st'.tables hw.cr3 virt = translate T hw.cr3 virt) ∧
    ∀ a out, Calls p st'.frames.1 ∅ a out → ∀ g ∈ out, UsableFrame map.regions g.startAddress ∧
      ¬ Reached view st'.tables hw.cr3 3 g.startAddress ∧
      ∀ virt, HEAP_START ≤ virt → virt < HEAP_START+heapSize → frameOf (virt / 4096) ≠ g.startAddress := by
  have upper : 2^64-2^47 ≤ HEAP_START := by norm_num [HEAP_START]
  have word : HEAP_START+heapSize < 2^64 := fits.trans (by norm_num [MMIO_WINDOW])
  have here : Canonical MMIO_WINDOW := Or.inr (by norm_num [MMIO_WINDOW])
  obtain ⟨fuel,T₁,a,h,ran,lists⟩ := init_returns heap p selfTest documented boot slice positive word vacant (by omega) serves
  obtain ⟨k,changed,frames,held,⟨_,grown,within,furnished,need⟩,taken,fresh,settled⟩ :=
    init_settled heap p selfTest documented boot positive word vacant (by omega) ran
  obtain ⟨left,gives⟩ := owned_gives p settled.owned
  obtain ⟨once,unheld⟩ := gives_free settled.owned gives
  have window : target view T₁ hw.cr3 (path MMIO_WINDOW) = none :=
    (grown.targets _ rfl fun member => window_outside positive fits here rfl (within member)).trans free
  -- What bump mode had not reached is still free, and three frames of it do for the window.
  have enough : 3 ≤ left.length := by
    have listed : (pending map.regions 0).drop k ⊆ left := fun f waits =>
      (unheld f).mpr ⟨pending_usable (mem_of_mem_drop waits),fresh f waits⟩
    have count := ((pending_once map.disjoint 0).sublist (drop_sublist k _)).length_le_of_subset listed
    rw [length_drop] at count
    omega
  rcases lapicUp_spec p documented (lends_supplies serves p held left)
    (show Intact (Lapic.mk T₁ (a,h) 0 0 0 [] 0).tables hw.cr3 3 (2^47) left from settled.intact gives)
    ⟨gives,lists,held,settled.owned,subset_rfl,fun f waits => Or.inl waits⟩ (by simp [RootSound,window]) aligned small with
    ⟨cannot,_⟩ | ⟨mid,_,_,_,run,stands,_⟩ | ⟨st',mid,k',changed',up,runs,run,tables,frames'⟩
  · exact absurd ⟨present,enabled,window,(missing_three ..).trans enough⟩ cannot
  · rcases run.ending with ⟨_,_,done⟩ | ⟨⟨_,failed⟩,_⟩
    · obtain ⟨lvt,id,ver,svr,accesses⟩ := done.accesses
      rw [accesses,done.loads] at stands
      exact absurd stands (moves lvt id ver svr)
    · cases failed
  · obtain ⟨held',more,settled'⟩ := settled.grown run.stocked run.intact run.grown once
    have kept : ∀ f ∈ (pending map.regions 0).take k, f ∉ left := by
      intro f member waits
      obtain ⟨g,there,same⟩ := taken f member
      exact ((unheld f).mp waits).2 g there same
    have backed := heap_backed upper positive word (boot_intact boot)
      (furnished.grown run.grown fun f member new => kept f (furnished.own.subset member) (mem_of_mem_take new))
    refine ⟨fuel,st',_,_,?_,runs,tables ▸ backed,?_,?_⟩
    · simp only [bringUp,assert,present,if_true,ok_bind,ran,up]
    · intro virt canonical outside apart
      rw [tables,← outside_same upper positive word grown within canonical outside]
      refine translate_same (run.grown.targets _ rfl fun member => apart ?_)
      exact (path_page canonical here).mp (run.only _ member)
    · intro a' out calls g member
      rw [frames'] at calls
      obtain ⟨usable,unowned,table⟩ := settled'.later calls member
      refine ⟨usable,tables ▸ table,?_⟩
      intro virt low high same
      obtain ⟨stock,gone,_⟩ := backed.own virt low high
      rw [← take_append_drop k (pending map.regions 0),mem_append] at stock
      obtain ⟨h,there,equal⟩ := taken _ (stock.resolve_right gone)
      exact unowned h (more there) (equal.trans same)

omit documented serves boot slice positive fits vacant free room in
theorem boot_keeps_memory_apart_sample : ∃ fuel st',
    bringUp sampleMapper countingHeap .release true fuel 0x2000 ⟨some PHYS_MEM_OFFSET,roomyMap.regions⟩ Apic.sampleProbe
      Apic.sampleHardware blankTables = .ok st' ∧
    translate st'.tables 0x1000 (MMIO_WINDOW+EOI_OFFSET) = some 0xFEE000B0 ∧
    ∃ frame, translate st'.tables 0x1000 (HEAP_START+0x1234) = some (frame+0x234) := by
  obtain ⟨fuel,st',frameOf,left,ran,runs,backed,_⟩ := boot_keeps_memory_apart .release true
    sample_documented (counting_serves roomyMap (by decide)) (show BootTables blankTables Apic.sampleHardware.cr3 roomyMap from roomy_boot)
    (by decide) (show 0 < 0x2000 by decide)
    (by norm_num [HEAP_START,MMIO_WINDOW]) (fun page _ => blank_vacant page) (blank_vacant MMIO_WINDOW) (by decide +kernel)
    (show Apic.sampleProbe.present = true by decide) (by decide) (by decide) (by decide)
    fun _ _ _ _ => Apic.sample_moves _ _
  refine ⟨fuel,st',ran,runs.device.shows EOI_OFFSET (by decide),frameOf ((HEAP_START+0x1234) / 4096),?_⟩
  exact backed.translates (HEAP_START+0x1234) (by omega) (by omega)

end boot
end RustyCore
