import RustyCore.BuddyCarving

namespace RustyCore
open DyadicBlocks

-- The bootloader contract of `new`: the `Usable` entries are RAM the kernel owns, so no
-- two of them share an address, and `PhysAddr::new` accepts what lies in them.
structure MemoryMap where
  regions : List MemoryRegion
  disjoint : regions.Pairwise fun r s => r.kind = .usable → s.kind = .usable →
    Disjoint (Set.Ico r.start r.end_) (Set.Ico s.start s.end_)
  bounded : ∀ r ∈ regions, r.kind = .usable → r.end_ ≤ 2^52

def UsableIn (region : MemoryRegion) (f : ℕ) : Prop :=
  region.kind = .usable ∧ FRAME_SIZE ∣ f ∧ MIN_ADDR ≤ f ∧ region.start ≤ f ∧ f+FRAME_SIZE ≤ region.end_

def UsableFrame (regions : List MemoryRegion) (f : ℕ) : Prop := ∃ region ∈ regions, UsableIn region f

theorem frame_positive : 0 < FRAME_SIZE := by simp [FRAME_SIZE]

theorem max_dvd {n a b : ℕ} (left : n ∣ a) (right : n ∣ b) : n ∣ max a b := by
  rcases Nat.le_total a b with le | le
  · rwa [Nat.max_eq_right le]
  · rwa [Nat.max_eq_left le]

theorem usable_word (inside : UsableIn region f) : f+FRAME_SIZE < 2^64 :=
  Nat.lt_of_le_of_lt inside.2.2.2.2 region.end_lt

theorem usable_ico (inside : UsableIn region f) : f ∈ Set.Ico region.start region.end_ := by
  obtain ⟨_,_,_,least,fits⟩ := inside
  exact ⟨least,by simp only [FRAME_SIZE] at fits; omega⟩

abbrev Disjointed (regions : List MemoryRegion) : Prop := regions.Pairwise fun r s => r.kind = .usable → s.kind = .usable →
  Disjoint (Set.Ico r.start r.end_) (Set.Ico s.start s.end_)

theorem region_index {regions : List MemoryRegion} {i j : ℕ} (disjoint : Disjointed regions) (one : regions[i]? = some r)
    (two : regions[j]? = some s) (usable : r.kind = .usable) (usable' : s.kind = .usable)
    (left : x ∈ Set.Ico r.start r.end_) (right : x ∈ Set.Ico s.start s.end_) : i = j := by
  obtain ⟨boundI,rfl⟩ := List.getElem?_eq_some_iff.mp one
  obtain ⟨boundJ,rfl⟩ := List.getElem?_eq_some_iff.mp two
  have pairs := List.pairwise_iff_getElem.mp disjoint
  rcases Nat.lt_trichotomy i j with less | equal | more
  · exact absurd right (Set.disjoint_left.mp (pairs i j boundI boundJ less usable usable') left)
  · exact equal
  · exact absurd left (Set.disjoint_left.mp (pairs j i boundJ boundI more usable' usable) right)

namespace BuddyFrameAllocator
variable {regions rest : List MemoryRegion} {region : MemoryRegion} {regionIdx nextAddr idx next addr f : ℕ}

-- The frames the cursor `(regionIdx,nextAddr)` has passed.
def Consumed (regions : List MemoryRegion) (regionIdx nextAddr f : ℕ) : Prop :=
  ∃ i region, regions[i]? = some region ∧ UsableIn region f ∧ (i < regionIdx ∨ i = regionIdx ∧ f < nextAddr)

def Spent (region : MemoryRegion) (nextAddr : ℕ) : Prop := ∀ f, UsableIn region f → f < nextAddr

theorem candidate_least (aligned : checkedNextMultipleOf region.start FRAME_SIZE = some start)
    (inside : UsableIn region f) (ahead : nextAddr ≤ f) : max (max start nextAddr) MIN_ADDR ≤ f := by
  obtain ⟨rfl,_⟩ := checkedNext_exact.mp aligned
  have least := alignUp_least inside.2.1 inside.2.2.2.1
  have low := inside.2.2.1
  omega

-- The last overflow guard of the loop fires: no frame starts at the candidate address.
def Stuck (region : MemoryRegion) (nextAddr : ℕ) : Prop :=
  region.kind = .usable ∧ alignUp region.start FRAME_SIZE < 2^64 ∧
    2^64 ≤ max (max (alignUp region.start FRAME_SIZE) nextAddr) MIN_ADDR+FRAME_SIZE

theorem candidate_dvd (aligned : checkedNextMultipleOf region.start FRAME_SIZE = some start) (grain : FRAME_SIZE ∣ nextAddr) :
    FRAME_SIZE ∣ max (max start nextAddr) MIN_ADDR := by
  obtain ⟨rfl,_⟩ := checkedNext_exact.mp aligned
  have low : FRAME_SIZE ∣ MIN_ADDR := ⟨1,by simp [FRAME_SIZE,MIN_ADDR]⟩
  exact max_dvd (max_dvd (alignUp_dvd frame_positive) grain) low

theorem stuck_candidate (usable : region.kind = .usable)
    (aligned : checkedNextMultipleOf region.start FRAME_SIZE = some start) :
    Stuck region nextAddr ↔ 2^64 ≤ max (max start nextAddr) MIN_ADDR+FRAME_SIZE := by
  obtain ⟨rfl,small⟩ := checkedNext_exact.mp aligned
  have word : alignUp region.start FRAME_SIZE < 2^64 :=
    small.elim (fun even => by rw [alignUp_aligned even]; exact region.start_lt) id
  exact ⟨fun stuck => stuck.2.2,fun late => ⟨usable,word,late⟩⟩

theorem unaligned_spent (refused : checkedNextMultipleOf region.start FRAME_SIZE = none) :
    Spent region nextAddr ∧ ¬ Stuck region nextAddr := by
  have large : ¬ alignUp region.start FRAME_SIZE < 2^64 := by
    intro fits
    cases refused.symm.trans (checkedNext_exact.mpr ⟨rfl,Or.inr fits⟩)
  refine ⟨?_,fun stuck => large stuck.2.1⟩
  intro f inside
  have least := alignUp_least inside.2.1 inside.2.2.2.1
  have word := usable_word inside
  omega

-- One region of the cursor loop: left behind with nothing in it, the source of the next
-- frame, or the place where the cursor gets stuck, again with nothing in it.
theorem cursor_region (region : MemoryRegion) (rest : List MemoryRegion) (regionIdx : ℕ) (grain : FRAME_SIZE ∣ nextAddr) :
    (Spent region nextAddr ∧ ¬ Stuck region nextAddr ∧
      cursor (region :: rest) regionIdx nextAddr = cursor rest (regionIdx+1) 0) ∨
    (∃ addr, UsableIn region addr ∧ nextAddr ≤ addr ∧ (∀ f, UsableIn region f → nextAddr ≤ f → addr ≤ f) ∧
      cursor (region :: rest) regionIdx nextAddr = (some addr,regionIdx,addr+FRAME_SIZE)) ∨
    (Spent region nextAddr ∧ Stuck region nextAddr ∧
      cursor (region :: rest) regionIdx nextAddr = (none,regionIdx,nextAddr)) := by
  by_cases usable : region.kind = .usable
  · cases aligned : checkedNextMultipleOf region.start FRAME_SIZE with
    | none =>
        have spent : Spent region nextAddr ∧ ¬ Stuck region nextAddr := unaligned_spent aligned
        exact Or.inl ⟨spent.1,spent.2,by simp [cursor,usable,aligned]⟩
    | some start =>
        have least : ∀ f, UsableIn region f → nextAddr ≤ f → max (max start nextAddr) MIN_ADDR ≤ f :=
          fun f inside ahead => candidate_least aligned inside ahead
        have multiple := candidate_dvd aligned grain
        have begins : region.start ≤ start := by
          obtain ⟨rfl,_⟩ := checkedNext_exact.mp aligned
          exact alignUp_ge _ _
        have stuck : Stuck region nextAddr ↔ _ := stuck_candidate usable aligned
        generalize top : max (max start nextAddr) MIN_ADDR = addr at least multiple stuck
        by_cases fits : addr+FRAME_SIZE < 2^64
        · have added : checkedAdd addr FRAME_SIZE = some (addr+FRAME_SIZE) := by simp only [checkedAdd,fits,if_true]
          by_cases past : addr+FRAME_SIZE > region.end_
          · refine Or.inl ⟨?_,fun late => absurd (stuck.mp late) (Nat.not_le.mpr fits),
              by simp [cursor,usable,aligned,top,added,past]⟩
            intro f inside
            by_contra ahead
            have above := least f inside (by omega)
            have within := inside.2.2.2.2
            omega
          · refine Or.inr (Or.inl ⟨addr,⟨usable,multiple,by omega,by omega,by omega⟩,by omega,least,?_⟩)
            simp [cursor,usable,aligned,top,added,past]
        · have refused : checkedAdd addr FRAME_SIZE = none := by simp only [checkedAdd,fits,if_false]
          refine Or.inr (Or.inr ⟨?_,stuck.mpr (Nat.not_lt.mp fits),by simp [cursor,usable,aligned,top,refused]⟩)
          intro f inside
          by_contra ahead
          have above := least f inside (by omega)
          have word := usable_word inside
          omega
  · exact Or.inl ⟨fun f inside => absurd inside.1 usable,fun stuck => usable stuck.1,by simp [cursor,usable]⟩

theorem skip_consumed (here : regions[regionIdx]? = some region) (spent : Spent region nextAddr) :
    Consumed regions (regionIdx+1) 0 f ↔ Consumed regions regionIdx nextAddr f := by
  constructor
  · rintro ⟨i,r,at_i,inside,below | ⟨_,absurd⟩⟩
    · rcases Nat.lt_or_ge i regionIdx with earlier | same
      · exact ⟨i,r,at_i,inside,Or.inl earlier⟩
      · obtain rfl : i = regionIdx := by omega
        obtain rfl := Option.some.inj (here.symm.trans at_i)
        exact ⟨i,region,at_i,inside,Or.inr ⟨rfl,spent f inside⟩⟩
    · omega
  · rintro ⟨i,r,at_i,inside,below | ⟨rfl,_⟩⟩
    · exact ⟨i,r,at_i,inside,Or.inl (by omega)⟩
    · exact ⟨i,r,at_i,inside,Or.inl (by omega)⟩

theorem drop_cons {regions : List MemoryRegion} (suffix : regions.drop i = region :: rest) :
    regions[i]? = some region ∧ regions.drop (i+1) = rest := by
  constructor
  · rw [← List.head?_drop,suffix]
    rfl
  · rw [← List.tail_drop,suffix]
    rfl

theorem cursor_some (suffix : regions.drop regionIdx = rest) (grain : FRAME_SIZE ∣ nextAddr)
    (ran : cursor rest regionIdx nextAddr = (some addr,idx,next)) :
    ∃ region, regions[idx]? = some region ∧ UsableIn region addr ∧ next = addr+FRAME_SIZE ∧ regionIdx ≤ idx ∧
      (idx = regionIdx → nextAddr ≤ addr) ∧
      ∀ f, FRAME_SIZE ∣ f → (Consumed regions idx next f ↔ Consumed regions regionIdx nextAddr f ∨ f = addr) := by
  induction rest generalizing regionIdx nextAddr with
  | nil => cases ran
  | cons region rest ih =>
      obtain ⟨here,suffix⟩ := drop_cons suffix
      rcases cursor_region region rest regionIdx grain with ⟨spent,_,equal⟩ | ⟨least,inside,ahead,first,equal⟩ | ⟨_,_,equal⟩
      · rw [equal] at ran
        obtain ⟨region',found,inside,end_eq,order,_,exact_set⟩ := ih suffix (Nat.dvd_zero _) ran
        refine ⟨region',found,inside,end_eq,by omega,by omega,?_⟩
        intro f multiple
        rw [exact_set f multiple,skip_consumed here spent]
      · rw [equal] at ran
        cases ran
        refine ⟨region,here,inside,rfl,Nat.le_refl _,fun _ => ahead,?_⟩
        intro f multiple
        constructor
        · rintro ⟨i,r,at_i,inside',below | ⟨rfl,below⟩⟩
          · exact Or.inl ⟨i,r,at_i,inside',Or.inl below⟩
          · obtain rfl := Option.some.inj (here.symm.trans at_i)
            rcases Nat.lt_or_ge f nextAddr with behind | later
            · exact Or.inl ⟨i,region,at_i,inside',Or.inr ⟨rfl,behind⟩⟩
            · have above := first f inside' later
              obtain ⟨q,rfl⟩ := multiple
              obtain ⟨r,rfl⟩ := inside.2.1
              simp only [FRAME_SIZE] at below above ⊢
              exact Or.inr (by omega)
        · rintro (⟨i,r,at_i,inside',below | ⟨rfl,below⟩⟩ | rfl)
          · exact ⟨i,r,at_i,inside',Or.inl below⟩
          · exact ⟨i,r,at_i,inside',Or.inr ⟨rfl,by omega⟩⟩
          · exact ⟨_,region,here,inside,Or.inr ⟨rfl,by simp only [FRAME_SIZE]; omega⟩⟩
      · rw [equal] at ran
        cases ran

theorem cursor_none (suffix : regions.drop regionIdx = rest) (grain : FRAME_SIZE ∣ nextAddr)
    (ran : cursor rest regionIdx nextAddr = (none,idx,next)) :
    FRAME_SIZE ∣ next ∧ (next = nextAddr ∨ next = 0) ∧
      ∀ f, Consumed regions idx next f ↔ Consumed regions regionIdx nextAddr f := by
  induction rest generalizing regionIdx nextAddr with
  | nil =>
      cases ran
      exact ⟨grain,Or.inl rfl,fun _ => Iff.rfl⟩
  | cons region rest ih =>
      obtain ⟨here,suffix⟩ := drop_cons suffix
      rcases cursor_region region rest regionIdx grain with ⟨spent,_,equal⟩ | ⟨addr,_,_,_,equal⟩ | ⟨_,_,equal⟩
      · rw [equal] at ran
        obtain ⟨multiple,zero,exact_set⟩ := ih suffix (Nat.dvd_zero _) ran
        refine ⟨multiple,Or.inr (zero.elim id id),?_⟩
        intro f
        rw [exact_set f,skip_consumed here spent]
      · rw [equal] at ran
        cases ran
      · rw [equal] at ran
        cases ran
        exact ⟨grain,Or.inl rfl,fun _ => Iff.rfl⟩

theorem cursor_fresh (disjoint : Disjointed regions) (found : regions[idx]? = some region) (inside : UsableIn region addr)
    (order : regionIdx ≤ idx) (ahead : idx = regionIdx → nextAddr ≤ addr) :
    ¬ Consumed regions regionIdx nextAddr addr := by
  rintro ⟨i,r,at_i,inside',position⟩
  have same := region_index disjoint at_i found inside'.1 inside.1 (usable_ico inside') (usable_ico inside)
  omega

def first (regionIdx nextAddr i : ℕ) (region : MemoryRegion) : ℕ :=
  max (max (alignUp region.start FRAME_SIZE) MIN_ADDR) (if i = regionIdx then nextAddr else 0)

def last (region : MemoryRegion) : ℕ := region.end_-region.end_ % FRAME_SIZE

def remainder (regionIdx nextAddr i : ℕ) (region : MemoryRegion) : Set ℕ :=
  {x | region.kind = .usable ∧ regionIdx ≤ i ∧ x ∈ Set.Ico (first regionIdx nextAddr i region) (last region)}

theorem last_dvd (region : MemoryRegion) : FRAME_SIZE ∣ last region := Nat.dvd_sub_mod _

theorem first_dvd (grain : FRAME_SIZE ∣ nextAddr) (i : ℕ) : FRAME_SIZE ∣ first regionIdx nextAddr i region := by
  have low : FRAME_SIZE ∣ MIN_ADDR := ⟨1,by simp [FRAME_SIZE,MIN_ADDR]⟩
  refine max_dvd (max_dvd (alignUp_dvd frame_positive) low) ?_
  split
  · exact grain
  · exact Nat.dvd_zero _

theorem remainder_ico (member : x ∈ remainder regionIdx nextAddr i region) :
    x ∈ Set.Ico region.start region.end_ := by
  obtain ⟨_,_,above,below⟩ := member
  have begins := alignUp_ge region.start FRAME_SIZE
  simp only [first,last] at above below
  exact ⟨by omega,by omega⟩

theorem remainder_frame (multiple : FRAME_SIZE ∣ f) : f ∈ remainder regionIdx nextAddr i region ↔
    UsableIn region f ∧ regionIdx ≤ i ∧ (i = regionIdx → nextAddr ≤ f) := by
  constructor
  · rintro ⟨usable,order,above,below⟩
    have begins := alignUp_ge region.start FRAME_SIZE
    have whole : f+FRAME_SIZE ≤ last region := by
      obtain ⟨q,equal⟩ := last_dvd region
      obtain ⟨r,rfl⟩ := multiple
      rw [equal] at below ⊢
      rw [← Nat.mul_add_one]
      exact Nat.mul_le_mul_left _ (Nat.lt_of_mul_lt_mul_left below)
    simp only [last] at whole
    simp only [first] at above
    refine ⟨⟨usable,multiple,by omega,by omega,by omega⟩,order,?_⟩
    intro equal
    rw [if_pos equal] at above
    omega
  · rintro ⟨⟨usable,_,low,begins,ends⟩,order,ahead⟩
    have least := alignUp_least multiple begins
    refine ⟨usable,order,?_,?_⟩
    · simp only [first]
      split
      · have behind := ahead ‹_›
        omega
      · omega
    · obtain ⟨q,rfl⟩ := multiple
      have room : FRAME_SIZE*(q+1) ≤ FRAME_SIZE*(region.end_ / FRAME_SIZE) :=
        Nat.mul_le_mul_left _ ((Nat.le_div_iff_mul_le frame_positive).mpr (by rw [Nat.mul_comm,Nat.mul_add_one]; exact ends))
      have split := Nat.div_add_mod region.end_ FRAME_SIZE
      have positive := frame_positive
      rw [Nat.mul_add_one] at room
      simp only [last]
      omega

structure Listed (origin : ℕ → ℕ → Prop) (remaining : Set ℕ) (lists after : FreeLists) : Prop where
  tiled : Tiled after
  covers : covered after = covered lists ∪ remaining
  words : Words lists → Words after
  fresh : ∀ order addr, addr ∈ after order → addr ∈ lists order ∨ origin order addr

def Cut (regionIdx nextAddr i : ℕ) (region : MemoryRegion) (order addr : ℕ) : Prop :=
  region.kind = .usable ∧ regionIdx ≤ i ∧ Largest (first regionIdx nextAddr i region) (last region) order addr

theorem unlisted (tiled : Tiled lists) (nothing : remaining = ∅) : Listed origin remaining lists lists :=
  ⟨tiled,by rw [nothing,Set.union_empty],id,fun _ _ member => Or.inl member⟩

def Roomy (regionIdx i : ℕ) (region : MemoryRegion) : Prop :=
  region.kind = .usable → region.start < region.end_ → region.start ≤ 2^64-FRAME_SIZE ∧
    (regionIdx ≤ i → region.start ≤ 2^64-2*FRAME_SIZE ∧ region.end_ < 2^64-FRAME_SIZE)

theorem roomy_bounded (regionIdx i : ℕ) (bounded : region.kind = .usable → region.end_ ≤ 2^52) : Roomy regionIdx i region := by
  intro usable ordered
  have limit := bounded usable
  simp only [FRAME_SIZE]
  omega

theorem alignUp_word (fits : start ≤ 2^64-2*FRAME_SIZE) : alignUp start FRAME_SIZE+2*FRAME_SIZE ≤ 2^64 := by
  have whole : FRAME_SIZE ∣ 2^64-2*FRAME_SIZE := ⟨2^52-2,by simp [FRAME_SIZE]⟩
  have least := alignUp_least whole fits
  simp only [FRAME_SIZE] at least ⊢
  omega

theorem alignUp_top (fits : start ≤ 2^64-FRAME_SIZE) : alignUp start FRAME_SIZE < 2^64 := by
  have whole : FRAME_SIZE ∣ 2^64-FRAME_SIZE := ⟨2^52-1,by simp [FRAME_SIZE]⟩
  have least := alignUp_least whole fits
  simp only [FRAME_SIZE] at least ⊢
  omega

theorem listRegion_eq (p : Profile) (usable : region.kind = .usable) (ordered : region.start < region.end_)
    (word : alignUp region.start FRAME_SIZE < 2^64) (grain : FRAME_SIZE ∣ nextAddr) (small : nextAddr < 2^64)
    (order : regionIdx ≤ i) : listRegion p fuel regionIdx nextAddr i region lists =
      carve p (last region) fuel (first regionIdx nextAddr i region) lists := by
  have aligned : p.nextMultipleOf region.start FRAME_SIZE = .ok (alignUp region.start FRAME_SIZE) :=
    nextMultipleOf_small word
  have resumed : p.nextMultipleOf nextAddr FRAME_SIZE = .ok nextAddr := by
    have same := alignUp_aligned grain
    have exact := nextMultipleOf_small (p:=p) (a:=nextAddr) (n:=FRAME_SIZE) (by omega)
    rwa [same] at exact
  simp only [listRegion,usable,ne_eq,not_true_eq_false,if_false,if_neg (Nat.not_le.mpr ordered),aligned,ok_bind]
  by_cases here : i = regionIdx
  · simp only [here,if_true,resumed,ok_bind,last,first]
  · have later : ¬ i < regionIdx := by omega
    simp only [here,if_false,later,last,first,Nat.max_zero]

theorem listRegion_idle (idle : region.kind ≠ .usable ∨ region.end_ ≤ region.start ∨ i < regionIdx)
    (ran : listRegion p fuel regionIdx nextAddr i region lists = .ok after) :
    after = lists ∧ remainder regionIdx nextAddr i region = ∅ := by
  constructor
  · unfold listRegion at ran
    split at ran
    · cases ran; rfl
    · split at ran
      · cases ran; rfl
      · rename_i usable ordered
        obtain ⟨start,_,ran⟩ := bind_ok ran
        have passed : i < regionIdx := (idle.resolve_left usable).resolve_left ordered
        simp only [show ¬ i = regionIdx by omega,if_false,passed,if_true] at ran
        cases ran; rfl
  · ext x
    simp only [Set.mem_empty_iff_false,iff_false]
    intro member
    have inside := remainder_ico member
    have low := inside.1
    have high := inside.2
    rcases idle with other | inverted | passed
    · exact other member.1
    · omega
    · have order := member.2.1
      omega

theorem first_small (usable : region.kind = .usable) (ordered : region.start < region.end_) (roomy : Roomy regionIdx i region)
    (order : regionIdx ≤ i) (small : nextAddr < 2^64-FRAME_SIZE) :
    first regionIdx nextAddr i region+FRAME_SIZE < 2^64 ∧ last region+FRAME_SIZE < 2^64 := by
  obtain ⟨starts,ends⟩ := (roomy usable ordered).2 order
  have top := alignUp_word starts
  have size : FRAME_SIZE = 4096 := by simp [FRAME_SIZE]
  simp only [first,last,MIN_ADDR]
  constructor
  · split <;> omega
  · omega

theorem listRegion_listed (tiled : Tiled lists) (roomy : Roomy regionIdx i region)
    (grain : FRAME_SIZE ∣ nextAddr) (small : nextAddr < 2^64-FRAME_SIZE)
    (free : region.kind = .usable → Disjoint (covered lists) (Set.Ico region.start region.end_))
    (ran : listRegion p fuel regionIdx nextAddr i region lists = .ok after) :
    Listed (Cut regionIdx nextAddr i region) (remainder regionIdx nextAddr i region) lists after := by
  by_cases idle : region.kind ≠ .usable ∨ region.end_ ≤ region.start ∨ i < regionIdx
  · obtain ⟨rfl,nothing⟩ := listRegion_idle idle ran
    exact unlisted tiled nothing
  · simp only [ne_eq,not_or,not_not,Nat.not_le,Nat.not_lt] at idle
    obtain ⟨usable,ordered,order⟩ := idle
    rw [listRegion_eq p usable ordered (alignUp_top (roomy usable ordered).1) grain (by omega) order] at ran
    obtain ⟨starts,ends⟩ := first_small usable ordered roomy order small
    have same : remainder regionIdx nextAddr i region = Set.Ico (first regionIdx nextAddr i region) (last region) := by
      ext x
      simp only [remainder,Set.mem_ofPred_eq,usable,order,true_and]
    have apart : Disjoint (covered lists) (Set.Ico (first regionIdx nextAddr i region) (last region)) := by
      refine (free usable).mono_right ?_
      rw [← same]
      exact fun x member => remainder_ico member
    have carved := carve_carved tiled (first_dvd grain i) (last_dvd region) ends starts (Nat.le_refl _)
      origin_clear apart ran
    refine ⟨carved.tiled,by rw [carved.covers,same],carved.words,?_⟩
    intro o a member
    exact (carved.fresh o a member).imp_right fun largest => ⟨usable,order,largest⟩

theorem listRegion_total (p : Profile) (lists : FreeLists) (roomy : Roomy regionIdx i region) (grain : FRAME_SIZE ∣ nextAddr)
    (small : nextAddr < 2^64-FRAME_SIZE) (enough : 2^64 ≤ FRAME_SIZE*fuel) :
    ∃ after, listRegion p fuel regionIdx nextAddr i region lists = .ok after := by
  by_cases usable : region.kind = .usable
  · rcases Nat.lt_or_ge region.start region.end_ with ordered | inverted
    · rcases Nat.lt_or_ge i regionIdx with passed | order
      · have aligned : p.nextMultipleOf region.start FRAME_SIZE = .ok (alignUp region.start FRAME_SIZE) :=
          nextMultipleOf_small (alignUp_top (roomy usable ordered).1)
        refine ⟨lists,?_⟩
        simp only [listRegion,usable,ne_eq,not_true_eq_false,if_false,if_neg (Nat.not_le.mpr ordered),aligned,ok_bind,
          show ¬ i = regionIdx by omega,passed,if_true]
      · rw [listRegion_eq p usable ordered (alignUp_top (roomy usable ordered).1) grain (by omega) order]
        obtain ⟨starts,ends⟩ := first_small usable ordered roomy order small
        refine carve_total p (first_dvd grain i) (last_dvd region) ends starts ?_ ?_
        · by_contra none
          obtain rfl : fuel = 0 := by omega
          omega
        · omega
    · exact ⟨lists,by simp only [listRegion,usable,ne_eq,not_true_eq_false,if_false,if_pos inverted]⟩
  · exact ⟨lists,by simp only [listRegion,ne_eq,usable,not_false_eq_true,if_true]⟩

def Remaining (regionIdx nextAddr i : ℕ) (rest : List MemoryRegion) : Set ℕ :=
  {x | ∃ k region, rest[k]? = some region ∧ x ∈ remainder regionIdx nextAddr (i+k) region}

def CutFrom (regionIdx nextAddr i : ℕ) (rest : List MemoryRegion) (order addr : ℕ) : Prop :=
  ∃ k region, rest[k]? = some region ∧ Cut regionIdx nextAddr (i+k) region order addr

theorem remaining_cons : Remaining regionIdx nextAddr i (region :: rest) =
    remainder regionIdx nextAddr i region ∪ Remaining regionIdx nextAddr (i+1) rest := by
  ext x
  constructor
  · rintro ⟨k,r,found,member⟩
    cases k with
    | zero =>
        cases found
        exact Or.inl member
    | succ k => exact Or.inr ⟨k,r,found,by rwa [Nat.add_right_comm]⟩
  · rintro (member | ⟨k,r,found,member⟩)
    · exact ⟨0,region,rfl,member⟩
    · exact ⟨k+1,r,found,by rwa [Nat.add_right_comm] at member⟩

theorem roomy_tail (roomy : ∀ k r, (region :: rest)[k]? = some r → Roomy regionIdx (i+k) r) (k : ℕ) (r : MemoryRegion)
    (found : rest[k]? = some r) : Roomy regionIdx (i+1+k) r := by
  rw [Nat.add_right_comm]
  exact roomy (k+1) r found

theorem listRegions_listed (tiled : Tiled lists) (roomy : ∀ k r, rest[k]? = some r → Roomy regionIdx (i+k) r)
    (disjoint : Disjointed rest) (grain : FRAME_SIZE ∣ nextAddr) (small : nextAddr < 2^64-FRAME_SIZE)
    (free : ∀ r ∈ rest, r.kind = .usable → Disjoint (covered lists) (Set.Ico r.start r.end_))
    (ran : listRegions p fuel regionIdx nextAddr i rest lists = .ok after) :
    Listed (CutFrom regionIdx nextAddr i rest) (Remaining regionIdx nextAddr i rest) lists after := by
  induction rest generalizing i lists with
  | nil =>
      cases ran
      refine unlisted tiled ?_
      ext x
      simp [Remaining]
  | cons region rest ih =>
      obtain ⟨middle,head,ran⟩ := bind_ok ran
      obtain ⟨others,disjoint⟩ := List.pairwise_cons.mp disjoint
      have here : Roomy regionIdx i region := roomy 0 region rfl
      have one := listRegion_listed tiled here grain small (free region List.mem_cons_self) head
      have clear : ∀ r ∈ rest, r.kind = .usable → Disjoint (covered middle) (Set.Ico r.start r.end_) := by
        intro r member usable
        rw [one.covers,Set.disjoint_union_left]
        refine ⟨free r (List.mem_cons_of_mem _ member) usable,?_⟩
        rw [Set.disjoint_left]
        intro x left right
        exact Set.disjoint_left.mp (others r member left.1 usable) (remainder_ico left) right
      have tail := ih one.tiled (roomy_tail roomy) disjoint clear ran
      refine ⟨tail.tiled,by rw [tail.covers,one.covers,remaining_cons,Set.union_assoc],fun words => tail.words (one.words words),?_⟩
      intro order addr member
      rcases tail.fresh order addr member with earlier | ⟨k,r,found,cut⟩
      · exact (one.fresh order addr earlier).imp_right fun cut => ⟨0,region,rfl,cut⟩
      · exact Or.inr ⟨k+1,r,found,by rwa [Nat.add_right_comm] at cut⟩

theorem listRegions_total (p : Profile) (roomy : ∀ k r, rest[k]? = some r → Roomy regionIdx (i+k) r)
    (grain : FRAME_SIZE ∣ nextAddr) (small : nextAddr < 2^64-FRAME_SIZE) (enough : 2^64 ≤ FRAME_SIZE*fuel) :
    ∃ after, listRegions p fuel regionIdx nextAddr i rest lists = .ok after := by
  induction rest generalizing i lists with
  | nil => exact ⟨lists,rfl⟩
  | cons region rest ih =>
      have here : Roomy regionIdx i region := roomy 0 region rfl
      obtain ⟨middle,head⟩ := listRegion_total p lists here grain small enough
      obtain ⟨after,tail⟩ := @ih (i+1) middle (roomy_tail roomy)
      exact ⟨after,by simp only [listRegions,head,ok_bind,tail]⟩

theorem activate_lists {a next : BuddyFrameAllocator} (unlisted : a.freeLists = fun _ => []) (disjoint : Disjointed a.regions)
    (roomy : ∀ i r, a.regions[i]? = some r → Roomy a.regionIdx i r) (grain : FRAME_SIZE ∣ a.nextAddr)
    (small : a.nextAddr < 2^64-FRAME_SIZE) (ran : activate p fuel a = .ok next) :
    Listed (CutFrom a.regionIdx a.nextAddr 0 a.regions) (Remaining a.regionIdx a.nextAddr 0 a.regions)
      (fun _ => []) next.freeLists := by
  obtain ⟨_,_,ran⟩ := bind_ok ran
  obtain ⟨lists,listing,finish⟩ := bind_ok ran
  cases finish
  rw [unlisted] at listing
  refine listRegions_listed (empty_tiling _ _) ?_ disjoint grain small ?_ listing
  · intro k r found
    rw [Nat.zero_add]
    exact roomy k r found
  · intro r _ _
    rw [show covered (fun _ => []) = ∅ from empty_cover _ _]
    exact Set.empty_disjoint _

theorem activate_returns {a : BuddyFrameAllocator} (p : Profile) (inactive : a.active = false)
    (roomy : ∀ i r, a.regions[i]? = some r → Roomy a.regionIdx i r) (grain : FRAME_SIZE ∣ a.nextAddr)
    (small : a.nextAddr < 2^64-FRAME_SIZE) : ∃ fuel next, activate p fuel a = .ok next := by
  have enough : 2^64 ≤ FRAME_SIZE*2^52 := by simp [FRAME_SIZE]
  have listing := @listRegions_total a.regions a.regionIdx a.nextAddr 0 (2^52) a.freeLists p
    (fun k r found => by rw [Nat.zero_add]; exact roomy k r found) grain small enough
  obtain ⟨lists,listing⟩ := listing
  refine ⟨2^52,{a with freeLists := lists,regionIdx := a.regions.length,nextAddr := U64_MAX,active := true},?_⟩
  simp only [activate,inactive,listing,assert,Bool.not_false,if_true,ok_bind]

theorem remaining_frame (multiple : FRAME_SIZE ∣ f) : f ∈ Remaining regionIdx nextAddr 0 regions ↔
    ∃ j region, (regions.drop regionIdx)[j]? = some region ∧ UsableIn region f ∧ (j = 0 → nextAddr ≤ f) := by
  constructor
  · rintro ⟨k,region,here,member⟩
    rw [Nat.zero_add,remainder_frame multiple] at member
    obtain ⟨inside,order,ahead⟩ := member
    refine ⟨k-regionIdx,region,?_,inside,fun first => ahead (by omega)⟩
    rw [List.getElem?_drop,Nat.add_sub_cancel' order]
    exact here
  · rintro ⟨j,region,here,inside,ahead⟩
    rw [List.getElem?_drop] at here
    refine ⟨regionIdx+j,region,here,?_⟩
    rw [Nat.zero_add,remainder_frame multiple]
    exact ⟨inside,Nat.le_add_right _ _,fun first => ahead (by omega)⟩

end BuddyFrameAllocator
end RustyCore
