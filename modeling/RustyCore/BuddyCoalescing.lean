import RustyCore.BuddyOwnership

namespace RustyCore.BuddyFrameAllocator
open DyadicBlocks

def heldBytes (out : Finset PhysFrame) : Set ℕ := {x | ∃ g ∈ out, x ∈ block 12 g.startAddress}

-- An active state whose free blocks are aligned, disjoint and without a listed buddy,
-- next to handed-out frames that no free block meets.
structure Healed (a : BuddyFrameAllocator) (out : Finset PhysFrame) : Prop where
  active : a.active = true
  words : Words a.freeLists
  coalesced : CoalescedLists a.freeLists
  apart : Disjoint (covered a.freeLists) (heldBytes out)

-- What the allocator manages: no call after `activate` changes it.
def pool (a : BuddyFrameAllocator) (out : Finset PhysFrame) : Set ℕ := covered a.freeLists ∪ heldBytes out

theorem held_insert (f : PhysFrame) (out : Finset PhysFrame) :
    heldBytes (insert f out) = block 12 f.startAddress ∪ heldBytes out := by
  ext x
  simp [heldBytes]

theorem held_erase (held : f ∈ out) : heldBytes out = block 12 f.startAddress ∪ heldBytes (out.erase f) := by
  rw [← held_insert,Finset.insert_erase held]

theorem erase_apart (f : PhysFrame) (out : Finset PhysFrame) :
    Disjoint (block 12 f.startAddress) (heldBytes (out.erase f)) := by
  rw [Set.disjoint_left]
  rintro x here ⟨g,member,there⟩
  have left := PhysFrame.dvd f
  have right := PhysFrame.dvd g
  rw [frame_size] at left right
  exact Finset.ne_of_mem_erase member (PhysFrame.same (base_unique right left there here))

theorem allocate_taken (active : a.active = true) (tiled : Tiled a.freeLists) (words : Words a.freeLists)
    (ran : allocateFrame p a = .ok (some f,next)) :
    next.active = true ∧ Taken a.freeLists 0 f.startAddress next.freeLists := by
  obtain ⟨⟨found,mid⟩,chosen,ran⟩ := bind_ok ran
  rcases choose_active p active tiled words with ⟨addr,lists,equal,taken⟩ | ⟨equal,_⟩
  · cases chosen.symm.trans equal
    obtain ⟨_,_,ran⟩ := bind_ok ran
    obtain ⟨_,_,ran⟩ := bind_ok ran
    obtain ⟨_,_,ran⟩ := bind_ok ran
    obtain ⟨frame,framed,finish⟩ := bind_ok ran
    cases finish
    have grain : FRAME_SIZE ∣ addr := by rw [frame_size]; exact taken.aligned
    rw [PhysFrame.containing_start framed grain]
    exact ⟨active,taken⟩
  · cases chosen.symm.trans equal
    cases ran

theorem allocate_refused (active : a.active = true) (tiled : Tiled a.freeLists) (words : Words a.freeLists)
    (ran : allocateFrame p a = .ok (none,next)) : next = a := by
  obtain ⟨⟨found,mid⟩,chosen,ran⟩ := bind_ok ran
  rcases choose_active p active tiled words with ⟨addr,lists,equal,taken⟩ | ⟨equal,_⟩
  · cases chosen.symm.trans equal
    obtain ⟨_,_,ran⟩ := bind_ok ran
    obtain ⟨_,_,ran⟩ := bind_ok ran
    obtain ⟨_,_,ran⟩ := bind_ok ran
    obtain ⟨_,_,finish⟩ := bind_ok ran
    cases finish
  · cases chosen.symm.trans equal
    cases ran
    rfl

theorem deallocate_merged (ran : deallocateFrame f a = .ok next) :
    next.active = a.active ∧ next.freeLists = mergeFrom BUDDY_MAX_ORDER 0 f.startAddress a.freeLists := by
  obtain ⟨_,_,ran⟩ := bind_ok ran
  obtain ⟨_,_,ran⟩ := bind_ok ran
  obtain ⟨_,_,finish⟩ := bind_ok ran
  cases finish
  exact ⟨rfl,rfl⟩

theorem healed_allocate (healed : Healed a out) (ran : allocateFrame p a = .ok (some f,next)) :
    Healed next (insert f out) ∧ pool next (insert f out) = pool a out := by
  obtain ⟨active,taken⟩ := allocate_taken healed.active healed.coalesced.toTiling healed.words ran
  have inside := taken.inside
  have rest := taken.rest
  rw [Nat.zero_add] at inside rest
  refine ⟨⟨active,taken.words healed.words,taken.coalesced healed.coalesced,?_⟩,?_⟩
  · rw [rest,held_insert,Set.disjoint_union_right]
    exact ⟨Set.disjoint_sdiff_left,healed.apart.mono_left Set.sdiff_subset⟩
  · rw [pool,pool,rest,held_insert,← Set.union_assoc,Set.sdiff_union_of_subset inside]

theorem healed_deallocate (healed : Healed a out) (held : f ∈ out) (ran : deallocateFrame f a = .ok next) :
    Healed next (out.erase f) ∧ pool next (out.erase f) = pool a out := by
  obtain ⟨active,merged⟩ := deallocate_merged ran
  have grain := PhysFrame.dvd f
  have apart := healed.apart
  rw [held_erase held,Set.disjoint_union_right] at apart
  have returned := mergeFrom_spec healed.coalesced.toTiling (Nat.zero_add BUDDY_MAX_ORDER)
    (show 2^(0+12) ∣ f.startAddress by rw [Nat.zero_add,← frame_size]; exact grain) (by rw [Nat.zero_add]; exact apart.1)
  rw [← merged] at returned
  have covers := returned.covers
  rw [Nat.zero_add] at covers
  refine ⟨⟨active.trans healed.active,returned.words healed.words (by have bound := f.bounded; omega),
    returned.coalesced healed.coalesced,?_⟩,?_⟩
  · rw [covers,Set.disjoint_union_left]
    exact ⟨apart.2,erase_apart f out⟩
  · rw [pool,pool,covers,held_erase held,Set.union_assoc]

theorem calls_healed (healed : Healed a₀ out₀) (run : Calls p a₀ out₀ a out) :
    Healed a out ∧ pool a out = pool a₀ out₀ := by
  induction run with
  | start => exact ⟨healed,rfl⟩
  | handed _ ran ih =>
      obtain ⟨kept,same⟩ := healed_allocate ih.1 ran
      exact ⟨kept,same.trans ih.2⟩
  | refused _ ran ih =>
      obtain rfl := allocate_refused ih.1.active ih.1.coalesced.toTiling ih.1.words ran
      exact ih
  | activated _ ran ih =>
      simp only [activate,assert,ih.1.active] at ran
      cases ran
  | freed _ held ran ih =>
      obtain ⟨kept,same⟩ := healed_deallocate ih.1 held ran
      exact ⟨kept,same.trans ih.2⟩

theorem healed_free (healed : Healed a out) : covered a.freeLists = pool a out \ heldBytes out := by
  rw [pool,Set.union_sdiff_right,healed.apart.sdiff_eq_left]

theorem healed_same (left : Healed a out) (right : Healed b out) (same : pool a out = pool b out)
    (within : order ≤ BUDDY_MAX_ORDER) : addr ∈ a.freeLists order ↔ addr ∈ b.freeLists order := by
  refine coalesced_unique left.coalesced right.coalesced ?_ within
  have freeA := healed_free left
  have freeB := healed_free right
  rw [same,← freeB] at freeA
  exact freeA

-- An aligned block whose frames are all usable and not handed out, but which no single
-- region contains: `activate` lists each region on its own and cannot list it whole.
def Straddles (map : MemoryMap) (out : Finset PhysFrame) (order addr : ℕ) : Prop :=
  order ≤ BUDDY_MAX_ORDER ∧ 2^(order+12) ∣ addr ∧
    (∀ f ∈ block (order+12) addr, FRAME_SIZE ∣ f → UsableFrame map.regions f ∧ ∀ g ∈ out, g.startAddress ≠ f) ∧
    ∀ region ∈ map.regions, region.kind = .usable → ¬ block (order+12) addr ⊆ Set.Ico region.start region.end_

def Touching (map : MemoryMap) : Prop :=
  ∃ r ∈ map.regions, ∃ s ∈ map.regions, r.kind = .usable ∧ s.kind = .usable ∧ r.end_ = s.start

theorem owned_held (owned : Owned map a out) : Disjoint (covered a.freeLists) (heldBytes out) := by
  rw [Set.disjoint_right]
  rintro x ⟨g,held,inside⟩
  exact Set.disjoint_right.mp (grain_disjoint owned.tiled (PhysFrame.dvd g) (owned_apart owned held)) inside

theorem frame_of (x : ℕ) : ∃ f, FRAME_SIZE ∣ f ∧ x ∈ block 12 f ∧
    ∀ order addr, 2^(order+12) ∣ addr → (x ∈ block (order+12) addr ↔ f ∈ block (order+12) addr) := by
  have below := Nat.mod_lt x frame_positive
  have grain : FRAME_SIZE ∣ x-x % FRAME_SIZE := Nat.dvd_sub_mod _
  have member : x ∈ block 12 (x-x % FRAME_SIZE) := ⟨Nat.sub_le _ _,by rw [← frame_size]; omega⟩
  generalize x-x % FRAME_SIZE = f at grain member
  have base : 2^12 ∣ f := by rw [← frame_size]; exact grain
  refine ⟨f,grain,member,?_⟩
  intro order addr aligned
  constructor
  · intro inside
    exact nested (by omega) base aligned member inside (base_mem _ _)
  · intro inside
    exact nested (by omega) base aligned (base_mem _ _) inside member

theorem owned_covers (owned : Owned map a out) (aligned : 2^(order+12) ∣ addr) :
    block (order+12) addr ⊆ covered a.freeLists ↔ ∀ f ∈ block (order+12) addr, FRAME_SIZE ∣ f →
      UsableFrame map.regions f ∧ ∀ g ∈ out, g.startAddress ≠ f := by
  constructor
  · intro covers f inside multiple
    exact (owned.free f multiple).mp (covers inside)
  · intro free x inside
    obtain ⟨f,grain,_,around⟩ := frame_of x
    obtain ⟨o,b,within,here,there⟩ := (owned.free f grain).mpr (free f ((around order addr aligned).mp inside) grain)
    exact ⟨o,b,within,here,(around o b (owned.tiled.aligned o b within here)).mpr there⟩

theorem cut_inside {regionIdx nextAddr : ℕ} (cut : Cut regionIdx nextAddr i region order addr) (inside : x ∈ block (order+12) addr) :
    x ∈ remainder regionIdx nextAddr i region := by
  obtain ⟨usable,later,least,fits,_⟩ := cut
  have low := inside.1
  have high := inside.2
  exact ⟨usable,later,by omega,by omega⟩

section activation
variable {map : MemoryMap} {a next : BuddyFrameAllocator} {out : Finset PhysFrame} {p : Profile} {fuel : ℕ}

theorem straddle_uncoalesced (bumping : Bumping map a out) (ran : activate p fuel a = .ok next)
    (coalesced : CoalescedLists next.freeLists) : ¬ Straddles map out order addr := by
  rintro ⟨within,aligned,free,split⟩
  have covers := (owned_covers (activate_owned bumping ran) aligned).mpr free
  obtain ⟨o,b,_,bound,listed,inside⟩ := covered_within coalesced within aligned covers
  rcases (activate_listed bumping ran).fresh o b listed with old | ⟨k,region,here,cut⟩
  · exact absurd old List.not_mem_nil
  · refine split region (List.mem_of_getElem? here) cut.1 ?_
    intro x member
    exact remainder_ico (cut_inside cut (inside member))

-- Two listed buddies would make a block of the next order, and inside one region the
-- carving would have taken that one.
theorem unstraddled_lone (bumping : Bumping map a out) (ran : activate p fuel a = .ok next)
    (whole : ∀ order addr, ¬ Straddles map out order addr) (below : order < BUDDY_MAX_ORDER)
    (listed : addr ∈ next.freeLists order) : buddy (order+12) addr ∉ next.freeLists order := by
  intro partner
  have owned := activate_owned bumping ran
  have aligned := owned.tiled.aligned order addr below.le listed
  have shape : order+1+12 = order+12+1 := by omega
  have base : 2^(order+1+12) ∣ min addr (buddy (order+12) addr) := shape ▸ merged_aligned aligned
  have halves : block (order+1+12) (min addr (buddy (order+12) addr)) =
      block (order+12) addr ∪ block (order+12) (buddy (order+12) addr) := by rw [shape,merged_block aligned]
  have covers : block (order+1+12) (min addr (buddy (order+12) addr)) ⊆ covered next.freeLists := by
    rw [halves]
    exact Set.union_subset (listed_subset below.le listed) (listed_subset below.le partner)
  have member : addr ∈ block (order+1+12) (min addr (buddy (order+12) addr)) := by
    rw [halves]
    exact Or.inl (base_mem _ _)
  generalize min addr (buddy (order+12) addr) = low at base covers member
  rcases (activate_listed bumping ran).fresh order addr listed with old | ⟨k,region,here,cut⟩
  · exact absurd old List.not_mem_nil
  obtain ⟨region',listed',usable',inside'⟩ : ∃ region ∈ map.regions, region.kind = .usable ∧
      block (order+1+12) low ⊆ Set.Ico region.start region.end_ := by
    by_contra none
    refine whole (order+1) low ⟨below,base,(owned_covers owned base).mp covers,?_⟩
    intro r member usable inside
    exact none ⟨r,member,usable,inside⟩
  obtain ⟨k',here'⟩ := List.getElem?_of_mem listed'
  obtain rfl := region_index map.disjoint here here' cut.1 usable' (remainder_ico (cut_inside cut (base_mem _ _))) (inside' member)
  cases here.symm.trans here'
  have stays : ∀ x ∈ block (order+1+12) low, x ∈ remainder a.regionIdx a.nextAddr (0+k) region := by
    intro x inside
    have remaining := covers inside
    rw [activate_covers bumping ran] at remaining
    obtain ⟨j,r,found,left⟩ := remaining
    obtain rfl := region_index map.disjoint here found cut.1 left.1 (inside' inside) (remainder_ico left)
    cases here.symm.trans found
    exact left
  have positive : 0 < 2^(order+1+12) := Nat.two_pow_pos _
  have least := (stays low (base_mem _ _)).2.2.1
  have most := (stays (low+2^(order+1+12)-1) ⟨by omega,by omega⟩).2.2.2
  have beyond := cut.2.2.2.2 (order+1) low (Nat.lt_succ_self _) below base member least
  omega

theorem activate_healed (bumping : Bumping map a out) (ran : activate p fuel a = .ok next) :
    Healed next out ↔ ∀ order addr, ¬ Straddles map out order addr := by
  have owned := activate_owned bumping ran
  constructor
  · intro healed order addr
    exact straddle_uncoalesced bumping ran healed.coalesced
  · intro whole
    refine ⟨owned.active,owned.words,⟨owned.tiled,?_⟩,owned_held owned⟩
    intro order addr below listed
    exact unstraddled_lone bumping ran whole below listed

end activation

theorem straddle_touching (straddles : Straddles map out order addr) : Touching map := by
  obtain ⟨within,aligned,free,split⟩ := straddles
  have grain : FRAME_SIZE ∣ addr := Nat.dvd_trans (grain_dvd order) aligned
  obtain ⟨⟨r,listed,inside⟩,_⟩ := free addr (base_mem _ _) grain
  have positive := frame_positive
  have begins := inside.2.2.2.1
  have ends := inside.2.2.2.2
  have short : r.end_ ∈ block (order+12) addr := by
    refine ⟨by omega,?_⟩
    by_contra long
    refine split r listed inside.1 ?_
    intro x member
    have low := member.1
    have high := member.2
    exact ⟨by omega,by omega⟩
  obtain ⟨f,multiple,⟨before,close⟩,around⟩ := frame_of r.end_
  rw [← frame_size] at close
  obtain ⟨⟨s,listed',inside'⟩,_⟩ := free f ((around order addr aligned).mp short) multiple
  have begins' := inside'.2.2.2.1
  have ends' := inside'.2.2.2.2
  refine ⟨r,listed,s,listed',inside.1,inside'.1,?_⟩
  by_contra apart
  obtain ⟨i,here⟩ := List.getElem?_of_mem listed
  obtain ⟨j,there⟩ := List.getElem?_of_mem listed'
  obtain rfl := region_index map.disjoint here there inside.1 inside'.1
    (show r.end_-1 ∈ Set.Ico r.start r.end_ from ⟨by omega,by omega⟩) ⟨by omega,by omega⟩
  cases here.symm.trans there
  omega

theorem activate_bumping (run : Run p map a out) (ran : activate p fuel a = .ok next) : Bumping map a out := by
  rcases run_phase run with bumping | owned
  · exact bumping
  · simp only [activate,assert,owned.active] at ran
    cases ran

-- Two usable entries that meet at 0x3000, between the two frames of an aligned pair.
def touchingMap : MemoryMap where
  regions := [.usable 0x2000 0x3000,.usable 0x3000 0x4000]
  disjoint := by
    simp only [List.pairwise_cons,List.mem_cons,List.not_mem_nil,or_false,forall_eq,List.Pairwise.nil,and_true,
      IsEmpty.forall_iff,implies_true,Set.Ico_disjoint_Ico]
    decide
  bounded := by
    simp only [List.mem_cons,List.not_mem_nil,or_false]
    rintro r (rfl | rfl) usable <;> decide

theorem touching_regions_stay_split : ∃ next, activate .release 2 (new touchingMap.regions) = .ok next ∧
    next.freeLists 0 = [0x2000,0x3000] ∧ ¬ CoalescedLists next.freeLists := by
  obtain ⟨next,ran,checked⟩ := ran_any (show (activate .release 2 (new touchingMap.regions)).toOption.any
    (fun next => next.freeLists 0 == [0x2000,0x3000]) = true by decide +kernel)
  rw [beq_iff_eq] at checked
  refine ⟨next,ran,checked,?_⟩
  intro coalesced
  have alone := coalesced.lone 0 0x2000 (by decide) (by simp [checked])
  exact alone (by rw [checked]; decide)

-- Fragmentation heals: from a coalesced state the free lists are, as sets, a function of
-- the frames out, and `activate` reaches such a state unless a block straddles regions.
theorem fragmentation_heals :
    (∀ (p : Profile) (a₀ : BuddyFrameAllocator) (out₀ : Finset PhysFrame) (a : BuddyFrameAllocator)
        (out : Finset PhysFrame), Healed a₀ out₀ → Calls p a₀ out₀ a out →
      Healed a out ∧
      (∀ order addr, order ≤ BUDDY_MAX_ORDER → (addr ∈ a.freeLists order ↔
        Maximal 12 BUDDY_MAX_ORDER (pool a₀ out₀ \ heldBytes out) order addr)) ∧
      (∀ b, Calls p a₀ out₀ b out → ∀ order addr, order ≤ BUDDY_MAX_ORDER →
        (addr ∈ a.freeLists order ↔ addr ∈ b.freeLists order)) ∧
      (out = out₀ → ∀ order addr, order ≤ BUDDY_MAX_ORDER →
        (addr ∈ a.freeLists order ↔ addr ∈ a₀.freeLists order))) ∧
    (∀ (p : Profile) (map : MemoryMap) (a : BuddyFrameAllocator) (out : Finset PhysFrame) (fuel : ℕ)
        (next : BuddyFrameAllocator), Run p map a out → activate p fuel a = .ok next →
      (Healed next out ↔ ∀ order addr, ¬ Straddles map out order addr) ∧ (¬ Touching map → Healed next out)) := by
  constructor
  · intro p a₀ out₀ a out healed run
    obtain ⟨kept,same⟩ := calls_healed healed run
    refine ⟨kept,?_,?_,?_⟩
    · intro order addr within
      rw [canonical kept.coalesced within,← same,← healed_free kept]
    · intro b other order addr within
      obtain ⟨kept',same'⟩ := calls_healed healed other
      exact healed_same kept kept' (same.trans same'.symm) within
    · rintro rfl order addr within
      exact healed_same kept healed same within
  · intro p map a out fuel next run ran
    have exact := activate_healed (activate_bumping run ran) ran
    refine ⟨exact,?_⟩
    intro apart
    refine exact.mpr ?_
    intro order addr straddles
    exact apart (straddle_touching straddles)

theorem fragmentation_heals_sample : ∃ a out b, Run .release sampleMap a out ∧ Calls .release a out b out ∧
    a.freeLists 0 = [0x3000,0x7000,0x8000] ∧ b.freeLists 0 = [0x3000,0x8000,0x7000] ∧
    ∀ order addr, order ≤ BUDDY_MAX_ORDER → (addr ∈ b.freeLists order ↔ addr ∈ a.freeLists order) := by
  obtain ⟨u,ran,checked⟩ := ran_any (show (List.foldlM (exec .release) (new sampleMap.regions,∅)
      [.allocate,.allocate]).toOption.any (fun u => (activate .release 4 u.1).toOption.any (fun a =>
        a.freeLists 0 == [0x3000,0x7000,0x8000] && (List.foldlM (exec .release) (a,u.2) [.allocate,.allocate,
          .free ⟨0x8000,by simp [FRAME_SIZE],by decide⟩,.free ⟨0x7000,by simp [FRAME_SIZE],by decide⟩]).toOption.any
            (fun t => t.1.freeLists 0 == [0x3000,0x8000,0x7000] && decide (t.2 = u.2)))) = true by decide +kernel)
  obtain ⟨a,activated,checked⟩ := ran_any checked
  rw [Bool.and_eq_true,beq_iff_eq] at checked
  obtain ⟨before,checked⟩ := checked
  obtain ⟨t,ran',checked⟩ := ran_any checked
  rw [Bool.and_eq_true,beq_iff_eq,decide_eq_true_eq] at checked
  have run : Run .release sampleMap u.1 u.2 := calls_run (s:=(new sampleMap.regions,∅)) .start ran
  have again : Calls .release a u.2 t.1 t.2 := calls_run (s:=(a,u.2)) .start ran'
  rw [checked.2] at again
  have healed : Healed a u.2 := by
    refine (fragmentation_heals.2 _ _ _ _ _ _ run activated).2 ?_
    rintro ⟨r,listed,s,listed',_,usable,touch⟩
    simp only [sampleMap,List.mem_cons,List.not_mem_nil,or_false] at listed listed'
    rcases listed with rfl | rfl | rfl <;> rcases listed' with rfl | rfl | rfl <;> simp at usable touch
  exact ⟨a,u.2,t.1,.activated run activated,again,before,checked.1,
    (fragmentation_heals.1 _ _ _ _ _ healed again).2.2.2 rfl⟩

end RustyCore.BuddyFrameAllocator
