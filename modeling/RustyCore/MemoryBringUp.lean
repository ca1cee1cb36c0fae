import RustyCore.KernelMapping
import RustyCore.FrameExhaustion
import RustyCore.Schedulers

namespace RustyCore
open PageTables RadixTables BuddyFrameAllocator List

-- Frame allocators as a mapper sees them: the address of the frame.
def asSupplier (allocate : α → Except Fault (Option PhysFrame × α)) (s : α) : Except Fault (Option ℕ × α) := do
  let (found,s) ← allocate s
  .ok (found.map (·.startAddress),s)

def addRegion (sums : ℕ × ℕ) (r : MemoryRegion) : ℕ × ℕ :=
  if r.end_ < r.start then sums else (Cfs.saturatingAdd sums.1 (r.end_-r.start),sums.2+1)

def usableSummary (regions : List MemoryRegion) : ℕ × ℕ :=
  (regions.filter fun r => decide (r.kind = .usable)).foldl addRegion (0,0)

def selfTestReclaim (p : Profile) (a : BuddyFrameAllocator) : Except Fault BuddyFrameAllocator := do
  let before ← freeFrames p a
  match ← allocateFrame p a with
  | (none,_) => .error (.panicked "buddy self-test: no frame to take")
  | (some frame,a) =>
    let mid ← freeFrames p a
    let restored ← p.add mid 1
    assert (before == restored) "assertion `left == right` failed: buddy self-test: allocate didn't consume a frame"
    let a ← deallocateFrame frame a
    let after ← freeFrames p a
    assert (before == after) "assertion `left == right` failed: buddy self-test: free didn't return the frame"
    .ok a

-- The buddy allocator in bump mode with `left` of the map's frames to come; the others are out.
structure Stocked (p : Profile) (map : MemoryMap) (a : BuddyFrameAllocator) (left : List ℕ) : Prop where
  run : ∃ out, Run p map a out ∧ Bumping map a out ∧
    ∀ f ∈ pending map.regions 0, f ∈ left ∨ ∃ g ∈ out, g.startAddress = f
  placed : PlacedIn a
  same : pendingOf a = left

theorem buddy_supplies (p : Profile) (map : MemoryMap) : Supplies (asSupplier (allocateFrame p)) (Stocked p map) where
  gives := by
    rintro a f rest ⟨⟨out,run,bumping,kept⟩,placed,same⟩
    rcases bump_allocate p bumping with ⟨g,next,ran,_,_,bumping'⟩ | ⟨next,ran,_⟩
    · obtain ⟨head,tail,placed'⟩ := bumping_call placed bumping.inactive ran
      rw [same,head?_cons,Option.map_some,Option.some.injEq] at head
      rw [same,tail_cons] at tail
      refine ⟨next,by simp only [asSupplier,ran,ok_bind,Option.map_some,head],
        ⟨insert g out,.handed run ran,bumping',?_⟩,placed',tail⟩
      intro x member
      rcases kept x member with waits | ⟨h,held,equal⟩
      · rcases mem_cons.mp waits with rfl | later
        · exact Or.inr ⟨g,Finset.mem_insert_self _ _,head⟩
        · exact Or.inl later
      · exact Or.inr ⟨h,Finset.mem_insert_of_mem held,equal⟩
    · have head := (bumping_call placed bumping.inactive ran).1
      rw [same] at head
      cases head
  ends := by
    rintro a ⟨⟨out,run,bumping,kept⟩,placed,same⟩
    rcases bump_allocate p bumping with ⟨g,next,ran,_⟩ | ⟨next,ran,bumping'⟩
    · have head := (bumping_call placed bumping.inactive ran).1
      rw [same] at head
      cases head
    · obtain ⟨_,tail,placed'⟩ := bumping_call placed bumping.inactive ran
      rw [same] at tail
      exact ⟨next,by simp only [asSupplier,ran,ok_bind,Option.map_none],
        ⟨out,.refused run ran,bumping',kept⟩,placed',tail⟩

structure BootStocked (a : BootFrameAllocator) (left : List ℕ) : Prop where
  placed : Placed (a.regions.drop a.regionIdx) a.nextAddr
  same : pending (a.regions.drop a.regionIdx) a.nextAddr = left
  frames : ∀ f ∈ left, FRAME_SIZE ∣ f ∧ f < 2^52

theorem nextFrame_pending {a : BootFrameAllocator} (stocked : BootStocked a left) :
    a.nextFrame.1 = left.head? ∧ BootStocked a.nextFrame.2 left.tail := by
  obtain ⟨skipped,rest,next,split,ran,tail,kept⟩ := cursor_pending stocked.placed a.regionIdx
  have moved : a.regions.drop (a.regionIdx+skipped.length) = rest := by
    rw [← drop_drop,split]
    exact drop_left
  rw [stocked.same] at ran tail
  simp only [BootFrameAllocator.nextFrame,walk_cursor,ran]
  refine ⟨trivial,?_,?_,fun f member => stocked.frames f (mem_of_mem_tail member)⟩
  · simpa only [moved] using kept
  · simpa only [moved] using tail

theorem containing_frame (multiple : FRAME_SIZE ∣ f) (small : f < 2^52) :
    PhysFrame.containingAddress f = .ok ⟨f,Nat.mod_eq_zero_of_dvd multiple,small⟩ := by
  simp only [PhysFrame.containingAddress,small,dif_pos]
  exact congrArg Except.ok (PhysFrame.same (by simp only [Nat.mod_eq_zero_of_dvd multiple,Nat.sub_zero]))

theorem bump_supplies : Supplies (asSupplier BootFrameAllocator.allocateFrame) BootStocked where
  gives := by
    intro a f rest stocked
    obtain ⟨found,later⟩ := nextFrame_pending stocked
    obtain ⟨multiple,small⟩ := stocked.frames f mem_cons_self
    cases ran : a.nextFrame with
    | mk answer next =>
        rw [ran] at found later
        cases found
        refine ⟨next,?_,later⟩
        simp only [asSupplier,BootFrameAllocator.allocateFrame,ran,containing_frame multiple small,
          ok_bind,Option.map_some]
  ends := by
    intro a stocked
    obtain ⟨found,later⟩ := nextFrame_pending stocked
    cases ran : a.nextFrame with
    | mk answer next =>
        rw [ran] at found later
        cases found
        refine ⟨next,?_,later⟩
        simp only [asSupplier,BootFrameAllocator.allocateFrame,ran,ok_bind,Option.map_none]

section count
variable {regions : List MemoryRegion} (below : ∀ f, UsableFrame regions f → f < n*4096)
include below

theorem usable_multiples : {f | UsableFrame regions f} ⊆ ((Finset.range n).image (·*4096) : Finset ℕ) := by
  intro f usable
  have bound := below f usable
  obtain ⟨region,_,inside⟩ := usable
  obtain ⟨q,rfl⟩ := inside.2.1
  rw [show FRAME_SIZE = 4096 by simp [FRAME_SIZE]] at bound ⊢
  rw [Finset.coe_image,Set.mem_image]
  refine ⟨q,?_,Nat.mul_comm _ _⟩
  rw [Finset.coe_range,Set.mem_Iio]
  omega

theorem usable_finite : {f | UsableFrame regions f}.Finite := (Finset.finite_toSet _).subset (usable_multiples below)

theorem usable_count : {f | UsableFrame regions f}.ncard ≤ n := by
  refine (Set.ncard_le_ncard (usable_multiples below) (Finset.finite_toSet _)).trans ?_
  rw [Set.ncard_coe_finset]
  exact Finset.card_image_le.trans (by rw [Finset.card_range])

end count

theorem usable_few (map : MemoryMap) : {f | UsableFrame map.regions f}.ncard ≤ 2^40 :=
  usable_count fun _ usable => usable_small map usable

theorem self_test_owned {map : MemoryMap} (p : Profile) (owned : Owned map a out) :
    (∃ next, selfTestReclaim p a = .ok next ∧ Owned map next out ∧ Calls p a out next out ∧ freeFrames p next = freeFrames p a ∧
      ¬ AllOut map out) ∨
    selfTestReclaim p a = .error (.panicked "buddy self-test: no frame to take") ∧ AllOut map out := by
  obtain ⟨before,counted,_,total⟩ := (owned_conserved p owned).counted
  rcases owned_allocate p owned with ⟨f,taken,ran,fresh,usable,owned'⟩ | ⟨ran,empty⟩
  · obtain ⟨mid,counted',ledger',total'⟩ := (owned_conserved p owned').counted
    obtain ⟨next,freed,owned''⟩ := owned_deallocate owned' (Finset.mem_insert_self f out)
    rw [Finset.erase_insert fresh] at owned''
    obtain ⟨after,counted'',ledger'',total''⟩ := (owned_conserved p owned'').counted
    have calls := Calls.freed (.handed .start ran) (Finset.mem_insert_self f out) freed
    rw [Finset.erase_insert fresh] at calls
    refine Or.inl ⟨next,?_,owned'',calls,?_,?_⟩
    · have count : (insert f out).card = out.card+1 := Finset.card_insert_of_notMem fresh
      have few := usable_few map
      obtain rfl : before = mid+1 := by omega
      obtain rfl : after = mid+1 := by omega
      simp only [selfTestReclaim,counted,ran,ok_bind,counted',Profile.add_small (show mid+1 < 2^64 by omega),beq_self_eq_true,
        assert,if_true,freed,counted'']
    · rw [counted'',counted]
      exact congrArg Except.ok (by omega)
    · intro all
      obtain ⟨g,held,equal⟩ := all _ usable
      exact fresh (PhysFrame.same equal ▸ held)
  · refine Or.inr ⟨?_,(owned_empty owned).mp empty⟩
    simp only [selfTestReclaim,counted,ran,ok_bind]

theorem calls_trans (first : Calls p a₀ out₀ a out) (second : Calls p a out b out') : Calls p a₀ out₀ b out' := by
  induction second with
  | start => exact first
  | handed _ ran ih => exact .handed ih ran
  | refused _ ran ih => exact .refused ih ran
  | activated _ ran ih => exact .activated ih ran
  | freed _ held ran ih => exact .freed ih held ran

theorem reclaim_self_test {map : MemoryMap} (run : Run p map a out) (active : a.active = true) :
    (∃ next, selfTestReclaim p a = .ok next ∧ Run p map next out ∧ freeFrames p next = freeFrames p a ∧ ¬ AllOut map out) ∨
    selfTestReclaim p a = .error (.panicked "buddy self-test: no frame to take") ∧ AllOut map out := by
  rcases run_phase run with bumping | owned
  · cases active.symm.trans bumping.inactive
  · exact (self_test_owned p owned).imp_left fun ⟨next,tested,_,calls,same,some_left⟩ =>
      ⟨next,tested,calls_trans run calls,same,some_left⟩

theorem reclaim_self_test_sample : ∃ a out next, Run .release sampleMap a out ∧ selfTestReclaim .release a = .ok next ∧
    Run .release sampleMap next out := by
  obtain ⟨s,ran,checked⟩ := ran_any (show (List.foldlM (exec .release) (new sampleMap.regions,∅) sampleCalls).toOption.any
    (fun s => s.1.active && (selfTestReclaim .release s.1).isOk) = true by decide +kernel)
  rw [Bool.and_eq_true] at checked
  have run : Run .release sampleMap s.1 s.2 := calls_run (s:=(new sampleMap.regions,∅)) .start ran
  rcases reclaim_self_test run checked.1 with ⟨next,tested,kept,_⟩ | ⟨failed,_⟩
  · exact ⟨s.1,s.2,next,run,tested,kept⟩
  · rw [failed] at checked
    cases checked.2

def usableTotal (regions : List MemoryRegion) : ℕ := (regions.map fun r => if r.kind = .usable then r.end_-r.start else 0).sum

theorem summary_from (regions : List MemoryRegion) (bytes count : ℕ) (word : bytes ≤ U64_MAX) :
    (regions.filter fun r => decide (r.kind = .usable)).foldl addRegion (bytes,count) =
    (min (bytes+usableTotal regions) U64_MAX,
      count+(regions.filter fun r => decide (r.kind = .usable ∧ r.start ≤ r.end_)).length) := by
  induction regions generalizing bytes count with
  | nil => simp [usableTotal,word]
  | cons r regions ih =>
      have total : usableTotal (r :: regions) = (if r.kind = .usable then r.end_-r.start else 0)+usableTotal regions := rfl
      by_cases usable : r.kind = .usable
      · rw [filter_cons_of_pos (a:=r) (decide_eq_true usable),foldl_cons,total,if_pos usable]
        by_cases inverted : r.end_ < r.start
        · rw [addRegion,if_pos inverted,ih bytes count word,filter_cons_of_neg (a:=r) (by simp [inverted])]
          simp [Nat.sub_eq_zero_of_le inverted.le]
        · have word' : Cfs.saturatingAdd bytes (r.end_-r.start) ≤ U64_MAX := Nat.min_le_right _ _
          rw [addRegion,if_neg inverted,ih _ _ word',
            filter_cons_of_pos (a:=r) (decide_eq_true ⟨usable,Nat.not_lt.mp inverted⟩),length_cons,Cfs.saturatingAdd]
          refine Prod.ext ?_ ?_
          · show min (min _ _+_) _ = min _ _
            omega
          · show _+1+_ = _
            omega
      · rw [filter_cons_of_neg (a:=r) (by simp [usable]),ih bytes count word,total,if_neg usable,filter_cons_of_neg (a:=r) (by simp [usable]),
          Nat.zero_add]

theorem region_bytes (region : MemoryRegion) :
    {f | UsableIn region f}.ncard*4096 ≤ (if region.kind = .usable then region.end_-region.start else 0) := by
  have size : FRAME_SIZE = 4096 := by simp [FRAME_SIZE]
  by_cases usable : region.kind = .usable
  · have within : {f | UsableIn region f} ⊆
        ((Finset.Ico ((region.start+4095) / 4096) (region.end_ / 4096)).image (·*4096) : Finset ℕ) := by
      rintro f ⟨_,⟨q,rfl⟩,_,begins,ends⟩
      rw [size] at begins ends
      rw [Finset.coe_image,Set.mem_image,size]
      refine ⟨q,?_,Nat.mul_comm _ _⟩
      rw [Finset.coe_Ico,Set.mem_Ico]
      omega
    have few := Set.ncard_le_ncard within (Finset.finite_toSet _)
    rw [Set.ncard_coe_finset] at few
    have count := few.trans Finset.card_image_le
    rw [Nat.card_Ico] at count
    rw [if_pos usable]
    omega
  · have none : {f | UsableIn region f} = ∅ := Set.eq_empty_of_forall_notMem fun f inside => usable inside.1
    rw [none,Set.ncard_empty,Nat.zero_mul]
    exact Nat.zero_le _

theorem usable_bytes (regions : List MemoryRegion) : {f | UsableFrame regions f}.ncard*4096 ≤ usableTotal regions := by
  induction regions with
  | nil =>
      have none : {f | UsableFrame [] f} = ∅ := Set.eq_empty_of_forall_notMem fun f ⟨_,member,_⟩ => absurd member not_mem_nil
      rw [none,Set.ncard_empty,Nat.zero_mul]
      exact Nat.zero_le _
  | cons region regions ih =>
      have split : {f | UsableFrame (region :: regions) f} = {f | UsableIn region f} ∪ {f | UsableFrame regions f} := by
        ext f
        simp [UsableFrame]
      rw [split]
      calc ({f | UsableIn region f} ∪ {f | UsableFrame regions f}).ncard*4096
        _ ≤ ({f | UsableIn region f}.ncard+{f | UsableFrame regions f}.ncard)*4096 := Nat.mul_le_mul_right _ (Set.ncard_union_le _ _)
        _ = {f | UsableIn region f}.ncard*4096+{f | UsableFrame regions f}.ncard*4096 := Nat.add_mul ..
        _ ≤ usableTotal (region :: regions) := Nat.add_le_add (region_bytes region) ih

theorem usable_word_frames (regions : List MemoryRegion) : {f | UsableFrame regions f}.ncard*4096 ≤ U64_MAX := by
  have few : {f | UsableFrame regions f}.ncard ≤ 2^52-1 := by
    refine usable_count ?_
    rintro f ⟨region,_,inside⟩
    have word := usable_word inside
    rw [show FRAME_SIZE = 4096 by simp [FRAME_SIZE]] at word
    omega
  simp only [U64_MAX]
  omega

-- The boot summary on any map: the bytes of the usable regions, cut off at the top and never wrapped,
-- and no less than what the frames that can ever be handed out take.
theorem usable_summary_exact (regions : List MemoryRegion) :
    usableSummary regions = (min (usableTotal regions) U64_MAX,
      (regions.filter fun r => decide (r.kind = .usable ∧ r.start ≤ r.end_)).length) ∧
    {f | UsableFrame regions f}.ncard*4096 ≤ (usableSummary regions).1 := by
  have summary := summary_from regions 0 0 (Nat.zero_le _)
  rw [Nat.zero_add,Nat.zero_add] at summary
  refine ⟨summary,?_⟩
  rw [usableSummary,summary]
  exact Nat.le_min.mpr ⟨usable_bytes regions,usable_word_frames regions⟩

theorem usable_once {rest : List MemoryRegion} (disjoint : Disjointed (region :: rest)) (inside : UsableIn region f) :
    ¬ UsableFrame rest f := by
  rintro ⟨other,member,inside'⟩
  have apart := (pairwise_cons.mp disjoint).1 other member inside.1 inside'.1
  exact Set.disjoint_left.mp apart (usable_ico inside) (usable_ico inside')

theorem pending_once {rest : List MemoryRegion} (disjoint : Disjointed rest) (n : ℕ) : (pending rest n).Nodup := by
  induction rest generalizing n with
  | nil => exact nodup_nil
  | cons region rest ih =>
      have later : (if Blocks region then [] else pending rest 0).Nodup := by
        split
        · exact nodup_nil
        · exact ih (pairwise_cons.mp disjoint).2 0
      rw [pending,nodup_append]
      refine ⟨((frames_sorted region).imp Nat.ne_of_lt).filter _,later,?_⟩
      rintro f here g there rfl
      have inside := mem_frames.mp (mem_filter.mp here).1
      split at there
      · cases there
      · exact usable_once disjoint inside (pending_usable there)

theorem pending_position {rest : List MemoryRegion} (waits : f ∈ pending rest n) :
    ∃ j region, rest[j]? = some region ∧ UsableIn region f ∧ (j = 0 → n ≤ f) := by
  induction rest generalizing n with
  | nil => cases waits
  | cons region rest ih =>
      rw [pending,mem_append] at waits
      rcases waits with here | later
      · obtain ⟨listed,ahead⟩ := mem_filter.mp here
        exact ⟨0,region,rfl,mem_frames.mp listed,fun _ => of_decide_eq_true ahead⟩
      · split at later
        · cases later
        · obtain ⟨j,r,there,inside,_⟩ := ih later
          exact ⟨j+1,r,there,inside,fun first => absurd first (Nat.succ_ne_zero j)⟩

theorem pending_fresh {map : MemoryMap} (bumping : Bumping map a out) (waits : f ∈ pendingOf a) : ∀ g ∈ out, g.startAddress ≠ f := by
  rintro g held rfl
  obtain ⟨j,region,there,inside,ahead⟩ := pending_position waits
  rw [getElem?_drop,bumping.regions] at there
  exact cursor_fresh map.disjoint there inside (Nat.le_add_right _ _) (fun first => ahead (by omega)) ((bumping.consumed g).mp held)

-- What the bootloader leaves: page tables that form a tree within the reach of the window, and
-- none of them in memory that it calls usable.
structure BootTables (T : Tables) (cr3 : ℕ) (map : MemoryMap) : Prop where
  tree : Tree view T cr3 3
  clean : ∀ p t i, p.length ≤ 3 → walk view T cr3 p = some t → isUnused (T t i) = false → has (T t i) PRESENT = true
  near : ∀ t, Reached view T cr3 3 t → t < 2^47
  apart : ∀ f, UsableFrame map.regions f → ¬ Reached view T cr3 3 f
  low : ∀ f, UsableFrame map.regions f → f < 2^47

theorem usable_aligned {regions : List MemoryRegion} (usable : UsableFrame regions f) : f % 4096 = 0 := by
  obtain ⟨_,_,inside⟩ := usable
  have multiple := inside.2.1
  rw [show FRAME_SIZE = 4096 by simp [FRAME_SIZE]] at multiple
  exact Nat.mod_eq_zero_of_dvd multiple

theorem boot_intact {map : MemoryMap} (boot : BootTables T cr3 map) : Intact T cr3 3 (2^47) (pending map.regions 0) where
  tree := boot.tree
  clean := boot.clean
  near := boot.near
  fresh := fun f member => boot.apart f (pending_usable member)
  once := pending_once map.disjoint 0
  frames := by
    intro f member
    have usable := pending_usable member
    have low := boot.low f usable
    exact ⟨usable_aligned usable,low,by omega⟩

theorem boot_stocked (p : Profile) (map : MemoryMap) : Stocked p map (new map.regions) (pending map.regions 0) where
  run := ⟨∅,.start,start_bumping map,fun _ member => Or.inl member⟩
  placed := placed_zero _
  same := rfl

theorem boot_bump {map : MemoryMap} (boot : BootTables T cr3 map) : BootStocked (.new map.regions) (pending map.regions 0) where
  placed := placed_zero _
  same := rfl
  frames := by
    intro f member
    obtain ⟨_,_,inside⟩ := pending_usable member
    have low := boot.low f (pending_usable member)
    exact ⟨inside.2.1,by omega⟩

theorem calls_apart {map : MemoryMap} (owned : Owned map a held) (calls : Calls p a ∅ a' out) :
    Owned map a' (held ∪ out) ∧ Disjoint held out := by
  induction calls with
  | start => exact ⟨by rwa [Finset.union_empty],Finset.disjoint_empty_right _⟩
  | handed _ ran ih =>
      obtain ⟨owned',apart⟩ := ih
      rcases owned_allocate p owned' with ⟨g,next,equal,fresh,_,kept⟩ | ⟨equal,_⟩
      · cases ran.symm.trans equal
        rw [Finset.mem_union,not_or] at fresh
        exact ⟨by rwa [Finset.union_insert],Finset.disjoint_insert_right.mpr ⟨fresh.1,apart⟩⟩
      · cases ran.symm.trans equal
  | refused _ ran ih =>
      obtain ⟨owned',apart⟩ := ih
      rcases owned_allocate p owned' with ⟨g,next,equal,_⟩ | ⟨equal,_⟩
      · cases ran.symm.trans equal
      · cases ran.symm.trans equal
        exact ⟨owned',apart⟩
  | activated _ ran ih =>
      simp only [activate,assert,ih.1.active] at ran
      cases ran
  | freed _ member ran ih =>
      obtain ⟨owned',apart⟩ := ih
      obtain ⟨next,equal,kept⟩ := owned_deallocate owned' (Finset.mem_union_right _ member)
      cases ran.symm.trans equal
      rw [Finset.erase_union_distrib,Finset.erase_eq_of_notMem (Finset.disjoint_right.mp apart member)] at kept
      exact ⟨kept,apart.mono_right (Finset.erase_subset _ _)⟩

-- The kernel after memory bring-up: an active allocator, with the frames `held` in the hands of the
-- kernel, and page tables in none of the others.
structure Settled (map : MemoryMap) (T : Tables) (cr3 : ℕ) (a : BuddyFrameAllocator) (held : Finset PhysFrame) : Prop where
  owned : Owned map a held
  tree : Tree view T cr3 3
  clean : ∀ p t i, p.length ≤ 3 → walk view T cr3 p = some t → isUnused (T t i) = false → has (T t i) PRESENT = true
  near : ∀ t, Reached view T cr3 3 t → t < 2^47
  tables : ∀ t, Reached view T cr3 3 t → UsableFrame map.regions t → ∃ g ∈ held, g.startAddress = t
  low : ∀ f, UsableFrame map.regions f → f < 2^47

theorem Settled.later {map : MemoryMap} (settled : Settled map T cr3 a held) (calls : Calls p a ∅ a' out) (member : g ∈ out) :
    UsableFrame map.regions g.startAddress ∧ (∀ h ∈ held, h.startAddress ≠ g.startAddress) ∧
      ¬ Reached view T cr3 3 g.startAddress := by
  obtain ⟨all,apart⟩ := calls_apart settled.owned calls
  have usable := all.usable g (Finset.mem_union_right _ member)
  have fresh : ∀ h ∈ held, h.startAddress ≠ g.startAddress := by
    intro h there same
    exact Finset.disjoint_right.mp apart member (PhysFrame.same same ▸ there)
  refine ⟨usable,fresh,fun reached => ?_⟩
  obtain ⟨h,there,same⟩ := settled.tables _ reached usable
  exact fresh h there same

-- What an active allocator will give, in the order in which it gives it.
inductive Gives (p : Profile) : BuddyFrameAllocator → List ℕ → Prop where
  | dry : allocateFrame p a = .ok (none,a) → Gives p a []
  | next : allocateFrame p a = .ok (some f,a') → Gives p a' rest → Gives p a (f.startAddress :: rest)

theorem owned_gives {map : MemoryMap} (p : Profile) (owned : Owned map a held) : ∃ left, Gives p a left := by
  have few := frames_few held
  induction room : 2^40-held.card generalizing a held with
  | zero =>
      rcases owned_allocate p owned with ⟨f,next,_,fresh,_⟩ | ⟨ran,_⟩
      · have more := frames_few (insert f held)
        rw [Finset.card_insert_of_notMem fresh] at more
        omega
      · exact ⟨[],.dry ran⟩
  | succ n ih =>
      rcases owned_allocate p owned with ⟨f,next,ran,fresh,_,owned'⟩ | ⟨ran,_⟩
      · have count : (insert f held).card = held.card+1 := Finset.card_insert_of_notMem fresh
        obtain ⟨left,gives⟩ := ih owned' (frames_few _) (by omega)
        exact ⟨_,.next ran gives⟩
      · exact ⟨[],.dry ran⟩

theorem gives_free {map : MemoryMap} (owned : Owned map a held) (gives : Gives p a left) :
    left.Nodup ∧ ∀ f, f ∈ left ↔ UsableFrame map.regions f ∧ ∀ g ∈ held, g.startAddress ≠ f := by
  induction gives generalizing held with
  | dry ran =>
      refine ⟨nodup_nil,fun f => ⟨nofun,?_⟩⟩
      rintro ⟨usable,fresh⟩
      rcases owned_allocate p owned with ⟨_,_,equal,_⟩ | ⟨_,empty⟩
      · cases ran.symm.trans equal
      · obtain ⟨g,there,same⟩ := (owned_empty owned).mp empty f usable
        exact absurd same (fresh g there)
  | next ran _ ih =>
      rcases owned_allocate p owned with ⟨f,next,equal,fresh,usable,owned'⟩ | ⟨equal,_⟩
      · cases ran.symm.trans equal
        obtain ⟨once,free⟩ := ih owned'
        refine ⟨nodup_cons.mpr ⟨fun member => ((free _).mp member).2 _ (Finset.mem_insert_self _ _) rfl,once⟩,fun x => ?_⟩
        rw [mem_cons,free]
        constructor
        · rintro (rfl | ⟨usable',unheld⟩)
          · exact ⟨usable,fun g there same => fresh (PhysFrame.same same ▸ there)⟩
          · exact ⟨usable',fun g there => unheld g (Finset.mem_insert_of_mem there)⟩
        · rintro ⟨usable',unheld⟩
          refine or_iff_not_imp_left.mpr fun other => ⟨usable',fun g there => ?_⟩
          rcases Finset.mem_insert.mp there with rfl | old
          · exact fun same => other same.symm
          · exact unheld g old
      · cases ran.symm.trans equal

end RustyCore
