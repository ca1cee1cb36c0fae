import RustyCore.MemoryBringUp

namespace RustyCore
open PageTables RadixTables DyadicBlocks BuddyFrameAllocator List

-- What `memory::init` takes from the heap crate and from `alloc`: the start of the heap, the growth of the free lists on the way
-- from one allocator to the next, and the box and the vector of the self-test. Where memory is refused, each panics.
structure GlobalHeap (ω : Type) where
  init : (start size : ℕ) → Except Fault ω
  grow : (before after : BuddyFrameAllocator) → ω → Except Fault ω
  selfTest : ω → Except Fault ω

-- A heap large enough for the map: it goes from the lists it has `stored` to those of any allocator in order, and has room for the
-- self-test beside them.
structure GlobalHeap.Serves (heap : GlobalHeap ω) (map : MemoryMap) (size : ℕ) (stored : BuddyFrameAllocator → ω → Prop) : Prop where
  init : ∃ h, heap.init HEAP_START size = .ok h ∧ ∀ a, a.freeLists = (fun _ => []) → stored a h
  grow : ∀ {before after out h}, stored before h → Owned map after out → ∃ h', heap.grow before after h = .ok h' ∧ stored after h'
  selfTest : ∀ {a h}, stored a h → ∃ h', heap.selfTest h = .ok h' ∧ stored a h'

-- What the bootloader hands over; the level-4 table is the one in CR3.
structure BootInfo where
  physicalMemoryOffset : Option ℕ
  memoryRegions : List MemoryRegion

section init
variable {ω : Type} (x86 : Paging Fault) (heap : GlobalHeap ω)

def heapInit (allocate : α → Except Fault (Option ℕ × α)) (root heapSize : ℕ) (T : Tables) (s : α) :
    Except Fault (Except String ω × Tables × α) := do
  match ← mapHeap x86 allocate root HEAP_START heapSize T s with
  | (.error e,T,s) => .ok (.error e,T,s)
  | (.ok _,T,s) =>
    let h ← heap.init HEAP_START heapSize
    .ok (.ok h,T,s)

-- What both builds of `memory::init` begin with: the offset, the mapper, and the heap.
def heapUp (allocate : α → Except Fault (Option ℕ × α)) (heapSize : ℕ) (info : BootInfo) (cr3 : ℕ) (T : Tables) (s : α) :
    Except Fault (Tables × α × ω) := do
  match info.physicalMemoryOffset with
  | none => .error (.panicked "physical_memory_offset missing — is mappings.physical_memory set?")
  | some offset =>
    let physOffset ← x86.virtAddrNew offset
    assert (physOffset == PHYS_MEM_OFFSET) "assertion `left == right` failed: bootloader phys offset drifted from PHYS_MEM_OFFSET"
    let _ ← x86.virtAddrAdd physOffset cr3
    match ← heapInit x86 heap allocate cr3 heapSize T s with
    | (.error e,_,_) => .error (.panicked ("heap init failed: \"" ++ e ++ "\""))
    | (.ok h,T,s) => .ok (T,s,h)

-- `self_test`, as the config has it.
def memorySelfTest (p : Profile) (enabled : Bool) (regionCount : ℕ) (h : ω) : Except Fault ω :=
  if !enabled then .ok h
  else do
    let h ← heap.selfTest h
    let v := [0xC0FFEE,regionCount] ++ range 64
    assert (v.head? == some 0xC0FFEE) "assertion `left == right` failed: heap readback mismatch"
    assert (v.length == 66) "assertion `left == right` failed: heap vec length mismatch"
    let _ ← v.foldlM p.add 0
    .ok h

-- `memory::init` with `alloc-buddy`, where the free lists and the reclaim test follow.
def memoryInit (p : Profile) (enabled : Bool) (fuel heapSize : ℕ) (info : BootInfo) (cr3 : ℕ) (T : Tables) :
    Except Fault (Tables × BuddyFrameAllocator × ω) := do
  let (T,bumped,h) ← heapUp x86 heap (asSupplier (allocateFrame p)) heapSize info cr3 T (new info.memoryRegions)
  let listed ← activate p fuel bumped
  let h ← heap.grow bumped listed h
  let a ← selfTestReclaim p listed
  let h ← heap.grow listed a h
  let h ← memorySelfTest heap p enabled info.memoryRegions.length h
  .ok (T,a,h)

def memoryInitBump (p : Profile) (enabled : Bool) (heapSize : ℕ) (info : BootInfo) (cr3 : ℕ) (T : Tables) :
    Except Fault (Tables × BootFrameAllocator × ω) := do
  let (T,a,h) ← heapUp x86 heap (asSupplier BootFrameAllocator.allocateFrame) heapSize info cr3 T (.new info.memoryRegions)
  let h ← memorySelfTest heap p enabled info.memoryRegions.length h
  .ok (T,a,h)

end init

theorem sum_checked (p : Profile) (list : List ℕ) (start : ℕ) (fits : start+list.sum < 2^64) :
    list.foldlM p.add start = .ok (start+list.sum) := by
  induction list generalizing start with
  | nil => rfl
  | cons x list ih =>
      rw [sum_cons] at fits
      rw [foldlM_cons,Profile.add_small (by omega),ok_bind,ih _ (by omega),sum_cons,Nat.add_assoc]

-- The asserts and the sum of the self-test hold on every map; it stands or falls with the heap.
theorem memorySelfTest_heap (heap : GlobalHeap ω) (p : Profile) (enabled : Bool) (slice : regionCount < 2^59) (h : ω) :
    memorySelfTest heap p enabled regionCount h = if enabled then heap.selfTest h else .ok h := by
  cases enabled with
  | false => rfl
  | true =>
      have total : ([0xC0FFEE,regionCount] ++ range 64).sum = 0xC0FFEE+regionCount+2016 := by
        rw [sum_append,show (range 64).sum = 2016 by decide]
        simp
      have summed := sum_checked p ([0xC0FFEE,regionCount] ++ range 64) 0 (by omega)
      simp only [memorySelfTest,Bool.not_true,Bool.false_eq_true,if_false,if_true]
      cases heap.selfTest h with
      | error fault => rfl
      | ok h' =>
          have length : (([0xC0FFEE,regionCount] ++ range 64).length == 66) = true := by simp
          have readback : (([0xC0FFEE,regionCount] ++ range 64).head? == some 0xC0FFEE) = true := by simp
          simp only [ok_bind,assert,length,readback,if_true,summed]

theorem self_test_served {heap : GlobalHeap ω} {map : MemoryMap} (serves : heap.Serves map size stored) (p : Profile) (enabled : Bool)
    (slice : regionCount < 2^59) (here : stored a h) : ∃ h', memorySelfTest heap p enabled regionCount h = .ok h' ∧ stored a h' := by
  rw [memorySelfTest_heap heap p enabled slice]
  split
  · exact serves.selfTest here
  · exact ⟨h,rfl,here⟩

inductive BootCalls : BootFrameAllocator → List PhysFrame → BootFrameAllocator → Prop where
  | start : BootCalls a [] a
  | handed : BootCalls a out a' → a'.allocateFrame = .ok (some f,a'') → BootCalls a (out ++ [f]) a''
  | refused : BootCalls a out a' → a'.allocateFrame = .ok (none,a'') → BootCalls a out a''

theorem bootCall_stocked (stocked : BootStocked a left) (ran : a.allocateFrame = .ok (answer,a')) :
    answer.map (·.startAddress) = left.head? ∧ BootStocked a' left.tail := by
  cases left with
  | nil =>
      obtain ⟨_,refused,later⟩ := bump_supplies.ends a stocked
      simp only [asSupplier,ran,ok_bind] at refused
      obtain ⟨none_,rfl⟩ := Prod.mk.inj (Except.ok.inj refused)
      exact ⟨none_,later⟩
  | cons g rest =>
      obtain ⟨_,given,later⟩ := bump_supplies.gives a g rest stocked
      simp only [asSupplier,ran,ok_bind] at given
      obtain ⟨found,rfl⟩ := Prod.mk.inj (Except.ok.inj given)
      exact ⟨found,later⟩

theorem bootCalls_stocked (stocked : BootStocked a left) (calls : BootCalls a out a') :
    out.map (·.startAddress) = left.take out.length ∧ BootStocked a' (left.drop out.length) := by
  induction calls with
  | start => exact ⟨rfl,stocked⟩
  | handed _ ran ih =>
      obtain ⟨handed,rest⟩ := ih
      obtain ⟨head,tail⟩ := bootCall_stocked rest ran
      rw [head?_drop] at head
      rw [tail_drop] at tail
      rw [map_append,handed,length_append,length_singleton,take_add_one,← head]
      exact ⟨rfl,tail⟩
  | refused _ ran ih =>
      obtain ⟨handed,rest⟩ := ih
      obtain ⟨head,tail⟩ := bootCall_stocked rest ran
      rw [head?_drop] at head
      have dry := drop_eq_nil_of_le (List.getElem?_eq_none_iff.mp head.symm)
      rw [dry] at tail ⊢
      exact ⟨handed,tail⟩

-- The active allocator as a supplier: whatever it has given of `stock` is held.
structure Lends (p : Profile) (map : MemoryMap) (stored : BuddyFrameAllocator → ω → Prop) (first : Finset PhysFrame) (stock : List ℕ)
    (s : BuddyFrameAllocator × ω) (left : List ℕ) : Prop where
  gives : Gives p s.1 left
  stored : stored s.1 s.2
  holds : ∃ held, Owned map s.1 held ∧ first ⊆ held ∧ ∀ f ∈ stock, f ∈ left ∨ ∃ g ∈ held, g.startAddress = f

-- `allocate_frame` once the free lists are on the heap.
def allocateListed (p : Profile) (heap : GlobalHeap ω) (s : BuddyFrameAllocator × ω) :
    Except Fault (Option PhysFrame × BuddyFrameAllocator × ω) := do
  let (frame,a) ← allocateFrame p s.1
  let h ← heap.grow s.1 a s.2
  .ok (frame,a,h)

theorem lends_supplies {heap : GlobalHeap ω} {map : MemoryMap} (serves : heap.Serves map size stored) (p : Profile)
    (first : Finset PhysFrame) (stock : List ℕ) : Supplies (asSupplier (allocateListed p heap)) (Lends p map stored first stock) where
  gives := by
    rintro ⟨a,h⟩ f rest ⟨gives,here,held,owned,more,kept⟩
    dsimp only at gives here owned
    cases gives with
    | @next _ f a' _ ran later =>
        rcases owned_allocate p owned with ⟨g,next,equal,_,_,owned'⟩ | ⟨equal,_⟩
        · cases ran.symm.trans equal
          obtain ⟨h',grown,there⟩ := serves.grow here owned'
          refine ⟨(a',h'),by simp only [asSupplier,allocateListed,ran,grown,ok_bind,Option.map_some],later,there,
            _,owned',more.trans (Finset.subset_insert _ _),?_⟩
          intro x member
          rcases kept x member with waits | ⟨g,there,same⟩
          · rcases mem_cons.mp waits with rfl | later
            · exact Or.inr ⟨_,Finset.mem_insert_self _ _,rfl⟩
            · exact Or.inl later
          · exact Or.inr ⟨g,Finset.mem_insert_of_mem there,same⟩
        · cases ran.symm.trans equal
  ends := by
    rintro ⟨a,h⟩ ⟨gives,here,held,owned,kept⟩
    dsimp only at gives here owned
    cases gives with
    | dry ran =>
        obtain ⟨h',grown,there⟩ := serves.grow here owned
        exact ⟨(a,h'),by simp only [asSupplier,allocateListed,ran,grown,ok_bind,Option.map_none],.dry ran,there,held,owned,kept⟩

theorem Settled.intact {map : MemoryMap} (settled : Settled map T cr3 a held) (gives : Gives p a left) :
    Intact T cr3 3 (2^47) left := by
  obtain ⟨once,free⟩ := gives_free settled.owned gives
  refine ⟨settled.tree,settled.clean,settled.near,?_,once,?_⟩
  · intro f member reached
    obtain ⟨usable,unheld⟩ := (free f).mp member
    obtain ⟨g,there,same⟩ := settled.tables f reached usable
    exact unheld g there same
  · intro f member
    have usable := ((free f).mp member).1
    have low := settled.low f usable
    exact ⟨usable_aligned usable,low,by omega⟩

theorem Settled.grown {map : MemoryMap} (settled : Settled map T cr3 a held) (lends : Lends p map stored held left s (left.drop k))
    (intact : Intact T' cr3 3 (2^47) (left.drop k)) (grown : Grown above T T' cr3 3 (left.take k) changed) (once : left.Nodup) :
    ∃ held', held ⊆ held' ∧ Settled map T' cr3 s.1 held' := by
  obtain ⟨_,_,held',owned,more,kept⟩ := lends
  refine ⟨held',more,owned,intact.tree,intact.clean,intact.near,?_,settled.low⟩
  rintro t ⟨q,short,found⟩ usable
  rcases grown.gains q t short found with old | new
  · obtain ⟨g,there,same⟩ := settled.tables t ⟨q,short,old⟩ usable
    exact ⟨g,more there,same⟩
  · refine (kept t (mem_of_mem_take new)).resolve_left fun later => ?_
    exact disjoint_take_drop once (Nat.le_refl k) new later

-- The heap lies in frames of its own, every other address means what it meant, and nobody who comes later is handed a frame
-- of the heap or of the page tables.
structure HeapApart (map : MemoryMap) (T T' : Tables) (cr3 heapSize : ℕ) (later : PhysFrame → Prop) : Prop where
  others : ∀ virt, Canonical virt → virt / 4096 < HEAP_START / 4096 ∨ (HEAP_START+heapSize-1) / 4096 < virt / 4096 →
    translate T' cr3 virt = translate T cr3 virt
  heap : ∃ frameOf left, HeapBacked T' cr3 HEAP_START heapSize (pending map.regions 0) left frameOf ∧
    ∀ g, later g → ∀ virt, HEAP_START ≤ virt → virt < HEAP_START+heapSize → frameOf (virt / 4096) ≠ g.startAddress
  frames : ∀ g, later g → UsableFrame map.regions g.startAddress ∧ ¬ Reached view T' cr3 3 g.startAddress

section init
variable {ω : Type} {x86 : Paging Fault} {map : MemoryMap} {T : Tables} {cr3 heapSize : ℕ} (heap : GlobalHeap ω) (p : Profile)
  (enabled : Bool) (documented : x86.Documented (2^47)) (boot : BootTables T cr3 map) (slice : map.regions.length < 2^59)
  (positive : 0 < heapSize) (fits : HEAP_START+heapSize < 2^64)
  (vacant : ∀ page ∈ rangePages HEAP_START heapSize, target view T cr3 (path page) = none)
  (room : (rangePages HEAP_START heapSize).length+(lacking T cr3 ((rangePages HEAP_START heapSize).map path)).card <
    (pending map.regions 0).length)

structure HeapMapped (map : MemoryMap) (T T' : Tables) (cr3 heapSize k : ℕ) (changed : List (List ℕ)) (frames : List ℕ) : Prop where
  intact : Intact T' cr3 3 (2^47) ((pending map.regions 0).drop k)
  grown : Grown (parentFlags HEAP_FLAGS) T T' cr3 3 ((pending map.regions 0).take k) changed
  within : changed ⊆ (rangePages HEAP_START heapSize).map path
  furnished : Furnished T T' cr3 ((pending map.regions 0).take k) (rangePages HEAP_START heapSize) frames
  count : k = (rangePages HEAP_START heapSize).length+(lacking T cr3 ((rangePages HEAP_START heapSize).map path)).card

include boot positive fits in
theorem HeapMapped.backed (mapped : HeapMapped map T T' cr3 heapSize k changed frames) : ∃ frameOf,
    HeapBacked T' cr3 HEAP_START heapSize (pending map.regions 0) ((pending map.regions 0).drop k) frameOf :=
  ⟨_,heap_backed (by norm_num [HEAP_START]) positive fits (boot_intact boot) mapped.furnished⟩

include documented boot positive fits vacant room

theorem heapUp_spec {allocate : α → Except Fault (Option ℕ × α)} {stock : α → List ℕ → Prop} (supplies : Supplies allocate stock)
    (stocked : stock s (pending map.regions 0)) : ∃ T' s' k changed frames, HeapMapped map T T' cr3 heapSize k changed frames ∧
      stock s' ((pending map.regions 0).drop k) ∧ heapUp x86 heap allocate heapSize ⟨some PHYS_MEM_OFFSET,map.regions⟩ cr3 T s =
        (heap.init HEAP_START heapSize).map fun h => (T',s',h) := by
  obtain ⟨result,T',s',k,changed,ran,few,stocked',intact,grown,served⟩ := mapHeap_served documented supplies
    (by norm_num [HEAP_START]) positive fits (boot_intact boot) stocked
  have within := served_within served
  have root : x86.virtAddrAdd PHYS_MEM_OFFSET cr3 = .ok (PHYS_MEM_OFFSET+cr3) := by
    have low := boot.near cr3 ⟨[],Nat.zero_le _,rfl⟩
    exact documented.add _ _ (Or.inr (by norm_num [PHYS_MEM_OFFSET]; omega))
  have window : x86.virtAddrNew PHYS_MEM_OFFSET = .ok PHYS_MEM_OFFSET := documented.new _ (by decide)
  cases served with
  | done frames enough furnished =>
      refine ⟨T',s',_,_,frames,⟨intact,grown,within,furnished,rfl⟩,stocked',?_⟩
      simp only [heapUp,window,ok_bind,beq_self_eq_true,assert,if_true,root,heapInit,ran]
      cases heap.init HEAP_START heapSize <;> rfl
  | noFrame short _ => omega
  | noTable short _ => omega
  | huge member meaning _ => simp [vacant _ member] at meaning
  | taken member meaning _ => simp [vacant _ member] at meaning

theorem init_bumped : ∃ T' a k changed frames out, HeapMapped map T T' cr3 heapSize k changed frames ∧
    heapUp x86 heap (asSupplier (allocateFrame p)) heapSize ⟨some PHYS_MEM_OFFSET,map.regions⟩ cr3 T (new map.regions) =
      (heap.init HEAP_START heapSize).map (fun h => (T',a,h)) ∧
    Bumping map a out ∧ ¬ AllOut map out ∧ (∀ f ∈ (pending map.regions 0).take k, ∃ g ∈ out, g.startAddress = f) ∧
    ∀ f ∈ (pending map.regions 0).drop k, ∀ g ∈ out, g.startAddress ≠ f := by
  obtain ⟨T',a,k,changed,frames,mapped,stocked,ran⟩ := heapUp_spec heap documented boot positive fits vacant room
    (buddy_supplies p map) (boot_stocked p map)
  obtain ⟨out,run,bumping,kept⟩ := stocked.run
  have once : (pending map.regions 0).Nodup := pending_once map.disjoint 0
  have fresh : ∀ f ∈ (pending map.regions 0).drop k, ∀ g ∈ out, g.startAddress ≠ f := by
    intro f waits
    rw [← stocked.same] at waits
    exact pending_fresh bumping waits
  refine ⟨T',a,k,changed,frames,out,mapped,ran,bumping,?_,?_,fresh⟩
  · intro all
    have count := mapped.count
    obtain ⟨f,waits⟩ := exists_mem_of_length_pos (show 0 < ((pending map.regions 0).drop k).length by rw [length_drop]; omega)
    obtain ⟨g,there,same⟩ := all f (pending_usable (mem_of_mem_drop waits))
    exact fresh f waits g there same
  · intro f member
    refine (kept f (mem_of_mem_take member)).resolve_left fun left => ?_
    exact disjoint_take_drop once (Nat.le_refl k) member left

theorem init_settled (ran : memoryInit x86 heap p enabled fuel heapSize ⟨some PHYS_MEM_OFFSET,map.regions⟩ cr3 T = .ok (T',a,h)) :
    ∃ k changed frames held, HeapMapped map T T' cr3 heapSize k changed frames ∧
    (∀ f ∈ (pending map.regions 0).take k, ∃ g ∈ held, g.startAddress = f) ∧
    (∀ f ∈ (pending map.regions 0).drop k, ∀ g ∈ held, g.startAddress ≠ f) ∧ Settled map T' cr3 a held := by
  obtain ⟨T₁,bumped,k,changed,frames,out,mapped,up,bumping,some_left,held,fresh⟩ :=
    init_bumped heap p documented boot positive fits vacant room
  rw [memoryInit,up] at ran
  cases begun : heap.init HEAP_START heapSize with
  | error fault => rw [begun] at ran; cases ran
  | ok h₀ =>
      simp only [begun,Except.map,ok_bind] at ran
      obtain ⟨listed,activated,ran⟩ := bind_ok ran
      obtain ⟨h₁,_,ran⟩ := bind_ok ran
      obtain ⟨next,tested,ran⟩ := bind_ok ran
      obtain ⟨h₂,_,ran⟩ := bind_ok ran
      obtain ⟨h₃,_,ran⟩ := bind_ok ran
      cases ran
      have owned : Owned map a out := by
        rcases self_test_owned p (activate_owned bumping activated) with ⟨next,again,owned,_⟩ | ⟨_,all⟩
        · cases tested.symm.trans again
          exact owned
        · exact absurd all some_left
      refine ⟨k,changed,frames,out,mapped,held,fresh,owned,mapped.intact.tree,mapped.intact.clean,mapped.intact.near,?_,boot.low⟩
      rintro t ⟨q,short,found⟩ usable
      rcases mapped.grown.gains q t short found with old | new
      · exact absurd ⟨q,short,old⟩ (boot.apart t usable)
      · exact held t new

theorem init_apart (ran : memoryInit x86 heap p enabled fuel heapSize ⟨some PHYS_MEM_OFFSET,map.regions⟩ cr3 T = .ok (T',a,h)) :
    HeapApart map T T' cr3 heapSize fun g => ∃ a' out, Calls p a ∅ a' out ∧ g ∈ out := by
  obtain ⟨k,changed,frames,held,mapped,taken,_,settled⟩ := init_settled heap p enabled documented boot positive fits vacant room ran
  obtain ⟨frameOf,backed⟩ := mapped.backed boot positive fits
  refine ⟨fun virt => outside_same (by norm_num [HEAP_START]) positive fits mapped.grown mapped.within,⟨frameOf,_,backed,?_⟩,?_⟩
  · rintro g ⟨a',out,calls,member⟩ virt low high same
    -- The frame behind an address of the heap was taken in bump mode, and is held from then on.
    obtain ⟨stock,gone,_⟩ := backed.own virt low high
    rw [← take_append_drop k (pending map.regions 0),mem_append] at stock
    obtain ⟨owner,there,equal⟩ := taken _ (stock.resolve_right gone)
    exact (settled.later calls member).2.1 owner there (equal.trans same)
  · rintro g ⟨a',out,calls,member⟩
    obtain ⟨usable,_,table⟩ := settled.later calls member
    exact ⟨usable,table⟩

theorem bump_up : ∃ T' a k changed frames, HeapMapped map T T' cr3 heapSize k changed frames ∧
    BootStocked a ((pending map.regions 0).drop k) ∧
    heapUp x86 heap (asSupplier BootFrameAllocator.allocateFrame) heapSize ⟨some PHYS_MEM_OFFSET,map.regions⟩ cr3 T
      (.new map.regions) = (heap.init HEAP_START heapSize).map fun h => (T',a,h) :=
  heapUp_spec heap documented boot positive fits vacant room bump_supplies (boot_bump boot)

theorem bump_apart (ran : memoryInitBump x86 heap p enabled heapSize ⟨some PHYS_MEM_OFFSET,map.regions⟩ cr3 T = .ok (T',a,h)) :
    HeapApart map T T' cr3 heapSize fun g => ∃ a' out, BootCalls a out a' ∧ g ∈ out := by
  obtain ⟨T₁,a₁,k,changed,frames,mapped,stocked,up⟩ := bump_up heap documented boot positive fits vacant room
  rw [memoryInitBump,up] at ran
  cases begun : heap.init HEAP_START heapSize with
  | error fault => rw [begun] at ran; cases ran
  | ok h₀ =>
      simp only [begun,Except.map,ok_bind] at ran
      obtain ⟨_,_,ran⟩ := bind_ok ran
      cases ran
      -- The cursor never goes back: what it hands out from here on was not handed out for the heap.
      have waits : ∀ g, (∃ a' out, BootCalls a out a' ∧ g ∈ out) → g.startAddress ∈ (pending map.regions 0).drop k := by
        rintro g ⟨a',out,calls,member⟩
        have handed := (bootCalls_stocked stocked calls).1
        exact mem_of_mem_take (handed ▸ mem_map_of_mem (f:=fun g : PhysFrame => g.startAddress) member)
      obtain ⟨frameOf,backed⟩ := mapped.backed boot positive fits
      refine ⟨fun virt => outside_same (by norm_num [HEAP_START]) positive fits mapped.grown mapped.within,⟨frameOf,_,backed,?_⟩,?_⟩
      · intro g later virt low high same
        exact (backed.own virt low high).2.1 (same ▸ waits g later)
      · intro g later
        exact ⟨pending_usable (mem_of_mem_drop (waits g later)),mapped.intact.fresh _ (waits g later)⟩

include slice

theorem init_returns (serves : heap.Serves map heapSize stored) : ∃ fuel T' a h,
    memoryInit x86 heap p enabled fuel heapSize ⟨some PHYS_MEM_OFFSET,map.regions⟩ cr3 T = .ok (T',a,h) ∧ stored a h := by
  obtain ⟨T',bumped,k,changed,frames,out,mapped,up,bumping,some_left,_⟩ :=
    init_bumped heap p documented boot positive fits vacant room
  obtain ⟨h₀,begun,empty⟩ := serves.init
  obtain ⟨fuel,listed,activated⟩ := activate_total p bumping
  have owned := activate_owned bumping activated
  obtain ⟨h₁,grown,here⟩ := serves.grow (empty bumped bumping.unlisted) owned
  obtain ⟨next,tested,owned'⟩ : ∃ next, selfTestReclaim p listed = .ok next ∧ Owned map next out := by
    rcases self_test_owned p owned with ⟨next,tested,owned',_⟩ | ⟨_,all⟩
    · exact ⟨next,tested,owned'⟩
    · exact absurd all some_left
  obtain ⟨h₂,grown',there⟩ := serves.grow here owned'
  obtain ⟨h₃,checked,last⟩ := self_test_served serves p enabled slice there
  refine ⟨fuel,T',next,h₃,?_,last⟩
  rw [memoryInit,up,begun]
  simp only [Except.map,ok_bind,activated,grown,tested,grown',checked]

theorem bump_returns (serves : heap.Serves map heapSize stored) : ∃ T' a h,
    memoryInitBump x86 heap p enabled heapSize ⟨some PHYS_MEM_OFFSET,map.regions⟩ cr3 T = .ok (T',a,h) := by
  obtain ⟨T₁,a₁,_,_,_,_,_,up⟩ := bump_up heap documented boot positive fits vacant room
  obtain ⟨h₀,begun,empty⟩ := serves.init
  obtain ⟨h₁,tested,_⟩ := self_test_served serves p enabled slice (empty (new map.regions) rfl)
  refine ⟨T₁,a₁,h₁,?_⟩
  rw [memoryInitBump,up,begun]
  simp only [Except.map,ok_bind,tested]

theorem memory_init_isolated (stored : BuddyFrameAllocator → ω → Prop) :
    (heap.Serves map heapSize stored → ∃ fuel T' a h,
      memoryInit x86 heap p enabled fuel heapSize ⟨some PHYS_MEM_OFFSET,map.regions⟩ cr3 T = .ok (T',a,h)) ∧
    (∀ fuel T' a h, memoryInit x86 heap p enabled fuel heapSize ⟨some PHYS_MEM_OFFSET,map.regions⟩ cr3 T = .ok (T',a,h) →
      HeapApart map T T' cr3 heapSize fun g => ∃ a' out, Calls p a ∅ a' out ∧ g ∈ out) ∧
    (heap.Serves map heapSize stored → ∃ T' a h,
      memoryInitBump x86 heap p enabled heapSize ⟨some PHYS_MEM_OFFSET,map.regions⟩ cr3 T = .ok (T',a,h)) ∧
    ∀ T' a h, memoryInitBump x86 heap p enabled heapSize ⟨some PHYS_MEM_OFFSET,map.regions⟩ cr3 T = .ok (T',a,h) →
      HeapApart map T T' cr3 heapSize fun g => ∃ a' out, BootCalls a out a' ∧ g ∈ out := by
  refine ⟨?_,?_,bump_returns heap p enabled documented boot slice positive fits vacant room,?_⟩
  · intro serves
    obtain ⟨fuel,T',a,h,ran,_⟩ := init_returns heap p enabled documented boot slice positive fits vacant room serves
    exact ⟨fuel,T',a,h,ran⟩
  · intro fuel T' a h ran
    exact init_apart heap p enabled documented boot positive fits vacant room ran
  · intro T' a h ran
    exact bump_apart heap p enabled documented boot positive fits vacant room ran

end init

def listedBytes (a : BuddyFrameAllocator) : ℕ := 8*∑ order ∈ Finset.range BUDDY_ORDERS, (a.freeLists order).length

-- A heap that knows its size and refuses lists that leave no room for the 1032 bytes of the self-test.
def countingHeap : GlobalHeap ℕ where
  init := fun _ size => .ok size
  grow := fun _ after size =>
    if listedBytes after+1032 ≤ size then .ok size else .error (.panicked s!"memory allocation of {listedBytes after} bytes failed")
  selfTest := fun size => if 1032 ≤ size then .ok size else .error (.panicked "memory allocation of 1024 bytes failed")

-- Eight bytes a block, and a block is a page at least.
theorem listed_bytes {map : MemoryMap} (owned : Owned map a out) : 512*listedBytes a ≤ usableTotal map.regions := by
  have blocks : ∑ order ∈ Finset.range BUDDY_ORDERS, (a.freeLists order).length ≤ (grains 12 BUDDY_MAX_ORDER a.freeLists).card := by
    rw [card_grains owned.tiled]
    exact Finset.sum_le_sum fun order _ => Nat.le_mul_of_pos_right _ (Nat.two_pow_pos order)
  have within : (grains 12 BUDDY_MAX_ORDER a.freeLists : Set ℕ) ⊆ {f | UsableFrame map.regions f} := by
    intro f member
    obtain ⟨multiple,listed⟩ := (mem_grains owned.tiled).mp member
    rw [← frame_size] at multiple
    exact ((owned.free f multiple).mp listed).1
  have frames := Set.ncard_le_ncard within (usable_finite (n:=2^40) fun _ usable => usable_small map usable)
  rw [Set.ncard_coe_finset] at frames
  have bytes := usable_bytes map.regions
  simp only [listedBytes]
  omega

theorem counting_serves (map : MemoryMap) (enough : usableTotal map.regions+512*1032 ≤ 512*size) :
    countingHeap.Serves map size fun _ h => h = size where
  init := ⟨size,rfl,fun _ _ => rfl⟩
  grow := by
    rintro before after out h rfl owned
    have bytes := listed_bytes owned
    exact ⟨h,if_pos (by omega),rfl⟩
  selfTest := by
    rintro a h rfl
    exact ⟨h,if_pos (by omega),rfl⟩

def roomyMap : MemoryMap where
  regions := [.usable 0x10000 0x20000]
  disjoint := pairwise_singleton _ _
  bounded := by
    intro r member _
    rw [mem_singleton] at member
    subst member
    decide

theorem roomy_usable (usable : UsableFrame roomyMap.regions f) : 0x10000 ≤ f ∧ f < 0x20000 := by
  obtain ⟨region,member,inside⟩ := usable
  cases mem_singleton.mp member
  exact ⟨inside.2.2.2.1,(usable_ico inside).2⟩

theorem roomy_boot : BootTables blankTables 0x1000 roomyMap where
  tree := shelf_intact.tree
  clean := fun _ _ _ _ _ used => by cases used
  near := shelf_intact.near
  apart := by
    rintro f usable ⟨p,_,found⟩
    have := roomy_usable usable
    rw [(blank_walk.mp found).2] at this
    omega
  low := fun f usable => by
    have := roomy_usable usable
    omega

theorem memory_init_isolated_sample : ∃ fuel T' a h,
    memoryInit sampleMapper countingHeap .release true fuel 0x2000 ⟨some PHYS_MEM_OFFSET,roomyMap.regions⟩ 0x1000 blankTables =
      .ok (T',a,h) ∧
    translate T' 0x1000 MMIO_WINDOW = none ∧ ∃ frame, translate T' 0x1000 (HEAP_START+0x1234) = some (frame+0x234) := by
  obtain ⟨returns,apart,_⟩ := memory_init_isolated countingHeap .release true sample_documented roomy_boot (by decide)
    (show 0 < 0x2000 by decide) (by norm_num [HEAP_START]) (fun page _ => blank_vacant page) (by decide +kernel) fun _ h => h = 0x2000
  obtain ⟨fuel,T',a,h,ran⟩ := returns (counting_serves roomyMap (by decide))
  have isolated := apart fuel T' a h ran
  obtain ⟨frameOf,_,backed,_⟩ := isolated.heap
  refine ⟨fuel,T',a,h,ran,?_,frameOf ((HEAP_START+0x1234) / 4096),?_⟩
  · rw [isolated.others MMIO_WINDOW (Or.inr (by norm_num [MMIO_WINDOW])) (by norm_num [MMIO_WINDOW,HEAP_START])]
    decide
  · exact backed.translates (HEAP_START+0x1234) (by omega) (by omega)

end RustyCore
