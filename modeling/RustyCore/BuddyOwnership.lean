import RustyCore.BuddyBringUp

namespace RustyCore.BuddyFrameAllocator
open DyadicBlocks

-- Every sequence of calls that return, from a state and the frames handed out in it.
-- The code's own asserts fix the order: no second `activate`, no free before it.
inductive Calls (p : Profile) (a₀ : BuddyFrameAllocator) (out₀ : Finset PhysFrame) :
    BuddyFrameAllocator → Finset PhysFrame → Prop where
  | start : Calls p a₀ out₀ a₀ out₀
  | handed : Calls p a₀ out₀ a out → allocateFrame p a = .ok (some f,next) → Calls p a₀ out₀ next (insert f out)
  | refused : Calls p a₀ out₀ a out → allocateFrame p a = .ok (none,next) → Calls p a₀ out₀ next out
  | activated : Calls p a₀ out₀ a out → activate p fuel a = .ok next → Calls p a₀ out₀ next out
  | freed : Calls p a₀ out₀ a out → f ∈ out → deallocateFrame f a = .ok next → Calls p a₀ out₀ next (out.erase f)

abbrev Run (p : Profile) (map : MemoryMap) : BuddyFrameAllocator → Finset PhysFrame → Prop :=
  Calls p (new map.regions) ∅

inductive Call where
  | allocate
  | activate (fuel : ℕ)
  | free (f : PhysFrame)

def exec (p : Profile) (s : BuddyFrameAllocator × Finset PhysFrame) : Call →
    Except Fault (BuddyFrameAllocator × Finset PhysFrame)
  | .allocate => do
    match ← allocateFrame p s.1 with
    | (some f,next) => .ok (next,insert f s.2)
    | (none,next) => .ok (next,s.2)
  | .activate fuel => do
    let next ← activate p fuel s.1
    .ok (next,s.2)
  | .free f => do
    assert (decide (f ∈ s.2)) "frame is not handed out"
    let next ← deallocateFrame f s.1
    .ok (next,s.2.erase f)

theorem exec_calls (run : Calls p a₀ out₀ s.1 s.2) (ran : exec p s call = .ok next) : Calls p a₀ out₀ next.1 next.2 := by
  cases call with
  | allocate =>
      obtain ⟨⟨found,after⟩,allocated,finish⟩ := bind_ok ran
      cases found with
      | some f => cases finish; exact .handed run allocated
      | none => cases finish; exact .refused run allocated
  | activate fuel =>
      obtain ⟨after,activated,finish⟩ := bind_ok ran
      cases finish
      exact .activated run activated
  | free f =>
      obtain ⟨_,checked,ran⟩ := bind_ok ran
      obtain ⟨after,freed,finish⟩ := bind_ok ran
      cases finish
      by_cases held : f ∈ s.2
      · exact .freed run held freed
      · simp [assert,held] at checked

theorem calls_run (run : Calls p a₀ out₀ s.1 s.2) (ran : List.foldlM (exec p) s calls = .ok next) :
    Calls p a₀ out₀ next.1 next.2 := by
  induction calls generalizing s with
  | nil => cases ran; exact run
  | cons call calls ih =>
      rw [List.foldlM_cons] at ran
      obtain ⟨after,first,rest⟩ := bind_ok ran
      exact ih (exec_calls run first) rest

structure Bumping (map : MemoryMap) (a : BuddyFrameAllocator) (out : Finset PhysFrame) : Prop where
  regions : a.regions = map.regions
  inactive : a.active = false
  unlisted : a.freeLists = fun _ => []
  grain : FRAME_SIZE ∣ a.nextAddr
  small : a.nextAddr ≤ 2^52
  consumed : ∀ f : PhysFrame, f ∈ out ↔ Consumed map.regions a.regionIdx a.nextAddr f.startAddress
  count : a.allocated = out.card

structure Owned (map : MemoryMap) (a : BuddyFrameAllocator) (out : Finset PhysFrame) : Prop where
  active : a.active = true
  tiled : Tiled a.freeLists
  words : Words a.freeLists
  free : ∀ f, FRAME_SIZE ∣ f →
    (f ∈ covered a.freeLists ↔ UsableFrame map.regions f ∧ ∀ g ∈ out, g.startAddress ≠ f)
  usable : ∀ g ∈ out, UsableFrame map.regions g.startAddress
  count : a.allocated = out.card

theorem PhysFrame.dvd (f : PhysFrame) : FRAME_SIZE ∣ f.startAddress := Nat.dvd_of_mod_eq_zero f.aligned

theorem PhysFrame.same {f g : PhysFrame} (equal : f.startAddress = g.startAddress) : f = g := by
  cases f; cases g; cases equal; rfl

theorem usable_small (map : MemoryMap) (usable : UsableFrame map.regions f) : f < 2^52 := by
  obtain ⟨region,member,inside⟩ := usable
  have limit := map.bounded region member inside.1
  have fits := inside.2.2.2.2
  have positive := frame_positive
  omega

-- Frames are the multiples of 4096 below 2^52, so the ledgers never near overflow.
theorem multiples_few (set : Finset ℕ) (frames : ∀ f ∈ set, FRAME_SIZE ∣ f ∧ f < 2^52) : set.card ≤ 2^40 := by
  have size : FRAME_SIZE = 4096 := by simp [FRAME_SIZE]
  have number : Set.MapsTo (fun f => f / FRAME_SIZE) set (Finset.range (2^40)) := by
    intro f member
    have bound := (frames f member).2
    simp only [Finset.coe_range,Set.mem_Iio,size]
    omega
  have injective : Set.InjOn (fun f => f / FRAME_SIZE) set := by
    intro f left g right equal
    have first := Nat.mul_div_cancel' (frames f left).1
    have second := Nat.mul_div_cancel' (frames g right).1
    rw [← first,← second]
    exact congrArg (FRAME_SIZE*·) equal
  simpa using Finset.card_le_card_of_injOn _ number injective

theorem frames_few (out : Finset PhysFrame) : out.card ≤ 2^40 := by
  have injective : Function.Injective PhysFrame.startAddress := fun f g equal => PhysFrame.same equal
  rw [← Finset.card_image_of_injective out injective]
  refine multiples_few _ ?_
  intro f member
  obtain ⟨frame,_,rfl⟩ := Finset.mem_image.mp member
  exact ⟨PhysFrame.dvd frame,frame.bounded⟩

section allocate
variable {a mid : BuddyFrameAllocator} {addr : ℕ}

theorem allocateFrame_some (p : Profile) (taken : a.chooseAddr p = .ok (some addr,mid))
    (grain : FRAME_SIZE ∣ addr) (low : MIN_ADDR ≤ addr) (high : addr < 2^52) (room : mid.allocated+1 < 2^64) :
    allocateFrame p a = .ok (some ⟨addr,Nat.mod_eq_zero_of_dvd grain,high⟩,{mid with allocated := mid.allocated+1}) := by
  have whole := Nat.mod_eq_zero_of_dvd grain
  have first := Profile.debugAssert_true p "assertion `left == right` failed" (show (addr % FRAME_SIZE == 0) = true by simp [whole])
  have second := Profile.debugAssert_true p "buddy handed out the zero page" (decide_eq_true low)
  have frame : PhysFrame.containingAddress addr = .ok ⟨addr,whole,high⟩ := by
    simp only [PhysFrame.containingAddress,high,dif_pos]
    exact congrArg Except.ok (PhysFrame.same (by simp only [whole]; rfl))
  simp only [allocateFrame,taken,ok_bind,first,second,Profile.add_small room,frame]

theorem allocateFrame_none (p : Profile) (taken : a.chooseAddr p = .ok (none,mid)) :
    allocateFrame p a = .ok (none,mid) := by
  simp only [allocateFrame,taken,ok_bind]

theorem choose_active (p : Profile) (active : a.active = true) (tiled : Tiled a.freeLists) (words : Words a.freeLists) :
    (∃ addr after, a.chooseAddr p = .ok (some addr,{a with freeLists := after}) ∧ Taken a.freeLists 0 addr after) ∨
      a.chooseAddr p = .ok (none,a) ∧ covered a.freeLists = ∅ := by
  have chosen : a.chooseAddr p = a.takeBlock p 0 := by simp only [chooseAddr,active]; rfl
  rcases takeFrom_spec p tiled words (show 0+(BUDDY_ORDERS-0) = BUDDY_ORDERS by omega) with
    ⟨addr,lists,ran,taken⟩ | ⟨ran,empty⟩
  · exact Or.inl ⟨addr,lists,by simp only [chosen,takeBlock,ran,ok_bind],taken⟩
  · refine Or.inr ⟨by simp only [chosen,takeBlock,ran,ok_bind],?_⟩
    exact unlisted_cover fun o within => empty o (Nat.zero_le o) within

end allocate

theorem start_bumping (map : MemoryMap) : Bumping map (new map.regions) ∅ := by
  refine ⟨rfl,rfl,rfl,Nat.dvd_zero _,Nat.zero_le _,?_,rfl⟩
  intro f
  simp only [Finset.notMem_empty,false_iff]
  rintro ⟨i,region,_,_,before | ⟨_,behind⟩⟩
  · exact Nat.not_lt_zero i before
  · exact Nat.not_lt_zero _ behind

theorem bump_allocate (p : Profile) (bumping : Bumping map a out) :
    (∃ f next, allocateFrame p a = .ok (some f,next) ∧ f ∉ out ∧ UsableFrame map.regions f.startAddress ∧
      Bumping map next (insert f out)) ∨
    (∃ next, allocateFrame p a = .ok (none,next) ∧ Bumping map next out) := by
  have few := frames_few out
  have count := bumping.count
  have suffix : map.regions.drop a.regionIdx = a.regions.drop a.regionIdx := by rw [bumping.regions]
  have chosen : a.chooseAddr p = .ok a.bumpOne := by simp only [chooseAddr,bumping.inactive]; rfl
  cases ran : cursor (a.regions.drop a.regionIdx) a.regionIdx a.nextAddr with
  | mk found position =>
      obtain ⟨idx,nextAddr⟩ := position
      simp only [bumpOne,ran] at chosen
      cases found with
      | some addr =>
          obtain ⟨region,here,inside,rfl,order,ahead,exact⟩ := cursor_some suffix bumping.grain ran
          have listed : UsableFrame map.regions addr := ⟨region,List.mem_of_getElem? here,inside⟩
          have fresh := cursor_fresh map.disjoint here inside order ahead
          have room : a.allocated+1 < 2^64 := by omega
          refine Or.inl ⟨_,_,allocateFrame_some p chosen inside.2.1 inside.2.2.1 (usable_small map listed) room,
            fun old => fresh ((bumping.consumed _).mp old),listed,bumping.regions,bumping.inactive,bumping.unlisted,
            Nat.dvd_add inside.2.1 (Nat.dvd_refl _),?_,?_,?_⟩
          · have limit := map.bounded region (List.mem_of_getElem? here) inside.1
            exact Nat.le_trans inside.2.2.2.2 limit
          · intro f
            rw [Finset.mem_insert,exact f.startAddress (PhysFrame.dvd f),bumping.consumed f,or_comm]
            refine or_congr_right ⟨fun equal => by rw [equal],fun equal => PhysFrame.same equal⟩
          · rw [Finset.card_insert_of_notMem fun old => fresh ((bumping.consumed _).mp old),← count]
      | none =>
          obtain ⟨grain,kept,exact⟩ := cursor_none suffix bumping.grain ran
          refine Or.inr ⟨_,allocateFrame_none p chosen,bumping.regions,bumping.inactive,bumping.unlisted,grain,?_,?_,count⟩
          · have small := bumping.small
            show nextAddr ≤ 2^52
            omega
          · intro f
            rw [bumping.consumed f,exact]

theorem map_roomy (map : MemoryMap) (k : ℕ) (r : MemoryRegion) (found : map.regions[k]? = some r) : Roomy idx k r :=
  roomy_bounded _ _ (map.bounded r (List.mem_of_getElem? found))

theorem bumping_small (bumping : Bumping map a out) : a.nextAddr < 2^64-FRAME_SIZE := by
  have small := bumping.small
  simp only [FRAME_SIZE]
  omega

theorem activate_listed (bumping : Bumping map a out) (ran : activate p fuel a = .ok next) :
    Listed (CutFrom a.regionIdx a.nextAddr 0 map.regions) (Remaining a.regionIdx a.nextAddr 0 map.regions)
      (fun _ => []) next.freeLists := by
  rw [← bumping.regions]
  refine activate_lists bumping.unlisted ?_ ?_ bumping.grain (bumping_small bumping) ran
  · rw [bumping.regions]
    exact map.disjoint
  · rw [bumping.regions]
    exact map_roomy map

theorem activate_covers (bumping : Bumping map a out) (ran : activate p fuel a = .ok next) :
    covered next.freeLists = Remaining a.regionIdx a.nextAddr 0 map.regions := by
  rw [(activate_listed bumping ran).covers,show covered (fun _ => []) = ∅ from empty_cover _ _,Set.empty_union]

theorem activate_active (ran : activate p fuel a = .ok next) : next.active = true ∧ next.allocated = a.allocated := by
  obtain ⟨_,_,ran⟩ := bind_ok ran
  obtain ⟨lists,_,finish⟩ := bind_ok ran
  cases finish
  exact ⟨rfl,rfl⟩

-- The switch of representation: what the cursor has not passed becomes the free lists.
theorem activate_owned (bumping : Bumping map a out) (ran : activate p fuel a = .ok next) : Owned map next out := by
  have listed := activate_listed bumping ran
  obtain ⟨active,ledger⟩ := activate_active ran
  refine ⟨active,listed.tiled,listed.words (fun _ _ member => absurd member List.not_mem_nil),?_,?_,ledger.trans bumping.count⟩
  · intro f multiple
    rw [activate_covers bumping ran]
    constructor
    · rintro ⟨k,region,here,member⟩
      rw [Nat.zero_add,remainder_frame multiple] at member
      obtain ⟨inside,order,ahead⟩ := member
      refine ⟨⟨region,List.mem_of_getElem? here,inside⟩,?_⟩
      rintro g old rfl
      exact cursor_fresh map.disjoint here inside order ahead ((bumping.consumed g).mp old)
    · rintro ⟨⟨region,member,inside⟩,unowned⟩
      obtain ⟨k,here⟩ := List.getElem?_of_mem member
      refine ⟨k,region,here,?_⟩
      rw [Nat.zero_add,remainder_frame multiple]
      have high := usable_small map ⟨region,member,inside⟩
      have ahead : ¬ Consumed map.regions a.regionIdx a.nextAddr f := by
        intro passed
        exact unowned ⟨f,Nat.mod_eq_zero_of_dvd multiple,high⟩ ((bumping.consumed _).mpr passed) rfl
      refine ⟨inside,?_,?_⟩
      · by_contra before
        exact ahead ⟨k,region,here,inside,Or.inl (by omega)⟩
      · rintro rfl
        by_contra behind
        exact ahead ⟨_,region,here,inside,Or.inr ⟨rfl,by omega⟩⟩
  · intro g old
    obtain ⟨i,region,here,inside,_⟩ := (bumping.consumed g).mp old
    exact ⟨region,List.mem_of_getElem? here,inside⟩

theorem activate_total (p : Profile) (bumping : Bumping map a out) : ∃ fuel next, activate p fuel a = .ok next := by
  refine activate_returns p bumping.inactive ?_ bumping.grain (bumping_small bumping)
  rw [bumping.regions]
  exact map_roomy map

theorem grain_mem (multiple : FRAME_SIZE ∣ f) (aligned : FRAME_SIZE ∣ addr) : f ∈ block 12 addr ↔ f = addr := by
  rw [frame_size] at multiple aligned
  exact ⟨fun member => base_unique multiple aligned (base_mem _ _) member,fun equal => equal ▸ base_mem _ _⟩

theorem grain_disjoint (tiled : Tiled lists) (multiple : FRAME_SIZE ∣ f) (outside : f ∉ covered lists) :
    Disjoint (covered lists) (block 12 f) := by
  rw [frame_size] at multiple
  rw [Set.disjoint_right]
  rintro x inside ⟨order,addr,within,listed,member⟩
  have contained := nested (by omega) multiple (tiled.aligned order addr within listed) inside member
  exact outside (listed_subset within listed (contained (base_mem _ _)))

theorem owned_allocate (p : Profile) (owned : Owned map a out) :
    (∃ f next, allocateFrame p a = .ok (some f,next) ∧ f ∉ out ∧ UsableFrame map.regions f.startAddress ∧
      Owned map next (insert f out)) ∨ allocateFrame p a = .ok (none,a) ∧ covered a.freeLists = ∅ := by
  have few := frames_few out
  have count := owned.count
  rcases choose_active p owned.active owned.tiled owned.words with ⟨addr,lists,chosen,taken⟩ | ⟨chosen,empty⟩
  · have grain : FRAME_SIZE ∣ addr := by rw [frame_size]; exact taken.aligned
    obtain ⟨usable,unowned⟩ := (owned.free addr grain).mp (taken.inside (base_mem _ _))
    obtain ⟨region,member,inside⟩ := usable
    have usable : UsableFrame map.regions addr := ⟨region,member,inside⟩
    have room : a.allocated+1 < 2^64 := by omega
    refine Or.inl ⟨_,_,allocateFrame_some p chosen grain inside.2.2.1 (usable_small map usable) room,
      fun old => unowned _ old rfl,usable,owned.active,taken.tiled,taken.words owned.words,?_,?_,?_⟩
    · intro f multiple
      show f ∈ covered lists ↔ _
      rw [taken.rest]
      simp only [Set.mem_sdiff,Nat.zero_add,owned.free f multiple,grain_mem multiple grain,Finset.mem_insert,
        forall_eq_or_imp,ne_eq,eq_comm (a:=addr)]
      constructor
      · rintro ⟨⟨one,two⟩,three⟩
        exact ⟨one,three,two⟩
      · rintro ⟨one,three,two⟩
        exact ⟨⟨one,two⟩,three⟩
    · intro g member
      rcases Finset.mem_insert.mp member with rfl | old
      · exact usable
      · exact owned.usable g old
    · rw [Finset.card_insert_of_notMem fun old => unowned _ old rfl,← count]
  · exact Or.inr ⟨allocateFrame_none p chosen,empty⟩

theorem owned_deallocate (owned : Owned map a out) (held : f ∈ out) :
    ∃ next, deallocateFrame f a = .ok next ∧ Owned map next (out.erase f) := by
  have usable := owned.usable f held
  obtain ⟨region,member,inside⟩ := usable
  have multiple := PhysFrame.dvd f
  have outside : f.startAddress ∉ covered a.freeLists := by
    intro listed
    exact ((owned.free _ multiple).mp listed).2 f held rfl
  have returned := mergeFrom_spec owned.tiled (Nat.zero_add BUDDY_MAX_ORDER)
    (show 2^(0+12) ∣ f.startAddress by rw [Nat.zero_add,← frame_size]; exact multiple)
    (by rw [Nat.zero_add]; exact grain_disjoint owned.tiled multiple outside)
  refine ⟨{a with freeLists := mergeFrom BUDDY_MAX_ORDER 0 f.startAddress a.freeLists,allocated := a.allocated-1},?_,
    owned.active,returned.tiled,returned.words owned.words (by have bound := f.bounded; omega),?_,?_,?_⟩
  · have low := inside.2.2.1
    simp only [deallocateFrame,assert,owned.active,f.aligned,low,decide_true,beq_self_eq_true,if_true,ok_bind]
  · intro g multiple'
    show g ∈ covered _ ↔ _
    rw [returned.covers,Nat.zero_add,Set.mem_union,owned.free g multiple',grain_mem multiple' multiple]
    constructor
    · rintro (⟨usable,unowned⟩ | rfl)
      · exact ⟨usable,fun h member => unowned h (Finset.mem_of_mem_erase member)⟩
      · refine ⟨⟨region,‹region ∈ map.regions›,inside⟩,?_⟩
        intro h member equal
        exact Finset.ne_of_mem_erase member (PhysFrame.same equal)
    · rintro ⟨usable,unowned⟩
      by_cases equal : g = f.startAddress
      · exact Or.inr equal
      · refine Or.inl ⟨usable,?_⟩
        intro h member same
        by_cases here : h = f
        · exact equal (here ▸ same.symm)
        · exact unowned h (Finset.mem_erase.mpr ⟨here,member⟩) same
  · intro g member
    exact owned.usable g (Finset.mem_of_mem_erase member)
  · rw [Finset.card_erase_of_mem held,← owned.count]

theorem run_phase (run : Run p map a out) : Bumping map a out ∨ Owned map a out := by
  induction run with
  | start => exact Or.inl (start_bumping map)
  | handed _ ran ih =>
      rcases ih with bumping | owned
      · rcases bump_allocate p bumping with ⟨g,after,equal,_,_,kept⟩ | ⟨after,equal,_⟩
        · cases ran.symm.trans equal
          exact Or.inl kept
        · cases ran.symm.trans equal
      · rcases owned_allocate p owned with ⟨g,after,equal,_,_,kept⟩ | ⟨equal,_⟩
        · cases ran.symm.trans equal
          exact Or.inr kept
        · cases ran.symm.trans equal
  | refused _ ran ih =>
      rcases ih with bumping | owned
      · rcases bump_allocate p bumping with ⟨g,after,equal,_,_,_⟩ | ⟨after,equal,kept⟩
        · cases ran.symm.trans equal
        · cases ran.symm.trans equal
          exact Or.inl kept
      · rcases owned_allocate p owned with ⟨g,after,equal,_,_,_⟩ | ⟨equal,_⟩
        · cases ran.symm.trans equal
        · cases ran.symm.trans equal
          exact Or.inr owned
  | activated _ ran ih =>
      rcases ih with bumping | owned
      · exact Or.inr (activate_owned bumping ran)
      · simp only [activate,assert,owned.active] at ran
        cases ran
  | freed _ held ran ih =>
      rcases ih with bumping | owned
      · simp only [deallocateFrame,assert,bumping.inactive] at ran
        cases ran
      · obtain ⟨after,equal,kept⟩ := owned_deallocate owned held
        cases ran.symm.trans equal
        exact Or.inr kept

theorem freeFrames_orders (p : Profile) (lists : FreeLists) (orders : List ℕ) (n : ℕ)
    (fits : n+(orders.map fun order => (lists order).length*2^order).sum < 2^64) :
    orders.foldlM (fun n order => do p.add n (← p.mul (lists order).length (2^order))) n =
      (.ok (n+(orders.map fun order => (lists order).length*2^order).sum) : Except Fault ℕ) := by
  induction orders generalizing n with
  | nil => rfl
  | cons order orders ih =>
      simp only [List.map_cons,List.sum_cons] at fits ⊢
      have product := Profile.mul_small (p:=p) (a:=(lists order).length) (b:=2^order) (by omega)
      have sum := Profile.add_small (p:=p) (a:=n) (b:=(lists order).length*2^order) (by omega)
      rw [List.foldlM_cons,product,ok_bind,sum,ok_bind,ih _ (by omega),Nat.add_assoc]

structure Conserved (p : Profile) (map : MemoryMap) (a : BuddyFrameAllocator) (out : Finset PhysFrame) : Prop where
  frames : ∀ f, UsableFrame map.regions f ↔
    (∃ g ∈ out, g.startAddress = f) ∨ FRAME_SIZE ∣ f ∧ f ∈ covered a.freeLists
  apart : ∀ g ∈ out, g.startAddress ∉ covered a.freeLists
  aligned : ∀ order addr, order ≤ BUDDY_MAX_ORDER → addr ∈ a.freeLists order → 2^(order+12) ∣ addr
  once : ∀ order, order ≤ BUDDY_MAX_ORDER → (a.freeLists order).Nodup
  single : ∀ order addr order' addr' f, order ≤ BUDDY_MAX_ORDER → order' ≤ BUDDY_MAX_ORDER →
    addr ∈ a.freeLists order → addr' ∈ a.freeLists order' →
    f ∈ block (order+12) addr → f ∈ block (order'+12) addr' → order = order' ∧ addr = addr'
  counted : ∃ free, freeFrames p a = .ok free ∧ a.allocatedFrames = out.card ∧
    free+a.allocatedFrames = {f | UsableFrame map.regions f}.ncard

theorem owned_frames (owned : Owned map a out) : UsableFrame map.regions f ↔
    (∃ g ∈ out, g.startAddress = f) ∨ FRAME_SIZE ∣ f ∧ f ∈ covered a.freeLists := by
  constructor
  · intro usable
    obtain ⟨_,_,inside⟩ := id usable
    by_cases held : ∃ g ∈ out, g.startAddress = f
    · exact Or.inl held
    · refine Or.inr ⟨inside.2.1,(owned.free f inside.2.1).mpr ⟨usable,?_⟩⟩
      intro g member equal
      exact held ⟨g,member,equal⟩
  · rintro (⟨g,member,rfl⟩ | ⟨multiple,listed⟩)
    · exact owned.usable g member
    · exact ((owned.free f multiple).mp listed).1

theorem owned_apart (owned : Owned map a out) (held : g ∈ out) : g.startAddress ∉ covered a.freeLists := by
  intro listed
  exact ((owned.free _ (PhysFrame.dvd g)).mp listed).2 g held rfl

theorem owned_conserved (p : Profile) (owned : Owned map a out) : Conserved p map a out := by
  refine ⟨fun f => owned_frames owned,fun g held => owned_apart owned held,owned.tiled.aligned,owned.tiled.once,
    owned.tiled.apart,?_⟩
  have listed : ∀ f ∈ grains 12 BUDDY_MAX_ORDER a.freeLists, FRAME_SIZE ∣ f ∧ f ∈ covered a.freeLists := by
    intro f member
    rw [frame_size]
    exact (mem_grains owned.tiled).mp member
  have few := multiples_few _ fun f member =>
    ⟨(listed f member).1,usable_small map ((owned.free f (listed f member).1).mp (listed f member).2).1⟩
  have count := card_grains owned.tiled
  have total : ((List.range BUDDY_ORDERS).map fun order => (a.freeLists order).length*2^order).sum =
      (grains 12 BUDDY_MAX_ORDER a.freeLists).card := count.symm
  have summed := freeFrames_orders p a.freeLists (List.range BUDDY_ORDERS) 0 (by rw [total]; omega)
  rw [total,Nat.zero_add] at summed
  refine ⟨_,summed,owned.count,?_⟩
  have injective : Function.Injective PhysFrame.startAddress := fun f g equal => PhysFrame.same equal
  have split : {f | UsableFrame map.regions f} =
      (grains 12 BUDDY_MAX_ORDER a.freeLists ∪ out.image PhysFrame.startAddress : Finset ℕ) := by
    ext f
    simp only [Set.mem_ofPred_eq,Finset.mem_coe,Finset.mem_union,Finset.mem_image,mem_grains owned.tiled,
      owned_frames owned,frame_size]
    exact or_comm
  rw [split,Set.ncard_coe_finset,Finset.card_union_of_disjoint,Finset.card_image_of_injective out injective,
    allocatedFrames,owned.count]
  rw [Finset.disjoint_left]
  intro f free held
  obtain ⟨g,member,rfl⟩ := Finset.mem_image.mp held
  exact owned_apart owned member (listed _ free).2

theorem exclusive_ownership (run : Run p map a out) :
    (a.active = true → Conserved p map a out) ∧
    (∃ result next, allocateFrame p a = .ok (result,next) ∧
      ∀ f, result = some f → f ∉ out ∧ UsableFrame map.regions f.startAddress) ∧
    (a.active = false → ∃ fuel next, activate p fuel a = .ok next) ∧
    (a.active = true → ∀ f ∈ out, ∃ next, deallocateFrame f a = .ok next) := by
  rcases run_phase run with bumping | owned
  · have inactive := bumping.inactive
    refine ⟨fun active => by simp [inactive] at active,?_,fun _ => activate_total p bumping,fun active => by simp [inactive] at active⟩
    rcases bump_allocate p bumping with ⟨g,next,ran,fresh,usable,_⟩ | ⟨next,ran,_⟩
    · exact ⟨_,_,ran,fun f equal => Option.some.inj equal ▸ ⟨fresh,usable⟩⟩
    · exact ⟨_,_,ran,fun f equal => by cases equal⟩
  · have active := owned.active
    refine ⟨fun _ => owned_conserved p owned,?_,fun inactive => by simp [active] at inactive,?_⟩
    · rcases owned_allocate p owned with ⟨g,next,ran,fresh,usable,_⟩ | ⟨ran,_⟩
      · exact ⟨_,_,ran,fun f equal => Option.some.inj equal ▸ ⟨fresh,usable⟩⟩
      · exact ⟨_,_,ran,fun f equal => by cases equal⟩
    · intro _ f held
      obtain ⟨next,ran,_⟩ := owned_deallocate owned held
      exact ⟨next,ran⟩

def sampleMap : MemoryMap where
  regions := [⟨0,0x4000,.usable,by decide,by decide⟩,⟨0x4000,0x6000,.bootloader,by decide,by decide⟩,
    ⟨0x6800,0x9000,.usable,by decide,by decide⟩]
  disjoint := by
    simp only [List.pairwise_cons,List.mem_cons,List.not_mem_nil,or_false,forall_eq_or_imp,forall_eq,
      List.Pairwise.nil,and_true,reduceCtorEq,IsEmpty.forall_iff,implies_true,true_and,Set.Ico_disjoint_Ico]
    decide
  bounded := by
    simp only [List.mem_cons,List.not_mem_nil,or_false]
    rintro r (rfl | rfl | rfl) usable
    · decide
    · cases usable
    · decide

def sampleFrame : PhysFrame := ⟨0x1000,by simp [FRAME_SIZE],by decide⟩

def sampleCalls : List Call := [.allocate,.allocate,.activate 4,.allocate,.free sampleFrame]

theorem exclusive_ownership_sample : ∃ a out, Run .release sampleMap a out ∧ a.active = true ∧ out.card = 2 ∧
    a.freeLists 0 = [0x3000,0x7000,0x1000] ∧ Conserved .release sampleMap a out := by
  obtain ⟨s,ran,checked⟩ := ran_any (show (List.foldlM (exec .release) (new sampleMap.regions,∅) sampleCalls).toOption.any
    (fun s => s.1.active && s.2.card == 2 && s.1.freeLists 0 == [0x3000,0x7000,0x1000]) = true by decide +kernel)
  simp only [Bool.and_eq_true,beq_iff_eq] at checked
  have run : Run .release sampleMap s.1 s.2 := calls_run (s:=(new sampleMap.regions,∅)) .start ran
  exact ⟨s.1,s.2,run,checked.1.1,checked.1.2,checked.2,(exclusive_ownership run).1 checked.1.1⟩

end RustyCore.BuddyFrameAllocator
