import RustyCore.BuddyFreeLists

namespace RustyCore.BuddyFrameAllocator
open DyadicBlocks Function

theorem frame_size : FRAME_SIZE = 2^12 := by norm_num [FRAME_SIZE]

theorem grain_dvd (order : ℕ) : FRAME_SIZE ∣ 2^(order+12) := by
  rw [frame_size]
  exact Nat.pow_dvd_pow 2 (by omega)

theorem fittingOrder_spec (grain : FRAME_SIZE ∣ start) (room : FRAME_SIZE ≤ remaining) (top : ℕ) :
    fittingOrder remaining start top ≤ top ∧ 2^(fittingOrder remaining start top+12) ≤ remaining ∧
      2^(fittingOrder remaining start top+12) ∣ start ∧
      ∀ k, fittingOrder remaining start top < k → k ≤ top → 2^(k+12) ∣ start → remaining < 2^(k+12) := by
  induction top with
  | zero =>
      rw [frame_size] at grain room
      refine ⟨Nat.le_refl _,room,grain,?_⟩
      intro k larger bound
      simp only [fittingOrder] at larger
      omega
  | succ top ih =>
      obtain ⟨bound,fits,aligned,largest⟩ := ih
      by_cases taken : 2^(top+1+12) ≤ remaining ∧ start % 2^(top+1+12) = 0
      · have chosen : fittingOrder remaining start (top+1) = top+1 := by simp only [fittingOrder,taken,and_self,if_true]
        rw [chosen]
        refine ⟨Nat.le_refl _,taken.1,Nat.dvd_of_mod_eq_zero taken.2,?_⟩
        intro k larger within
        omega
      · have skipped : fittingOrder remaining start (top+1) = fittingOrder remaining start top := by
          simp only [fittingOrder,taken,if_false]
        rw [skipped]
        refine ⟨by omega,fits,aligned,?_⟩
        intro k larger within dvd
        rcases Nat.lt_or_ge k (top+1) with below | equal
        · exact largest k larger (by omega) dvd
        · obtain rfl : k = top+1 := by omega
          by_contra roomy
          exact taken ⟨by omega,Nat.mod_eq_zero_of_dvd dvd⟩

def Clear (origin end_ position : ℕ) : Prop :=
  ∀ k b, k ≤ BUDDY_MAX_ORDER → 2^(k+12) ∣ b → origin ≤ b → b < position → position < b+2^(k+12) →
    end_ < b+2^(k+12)

theorem origin_clear : Clear origin end_ origin := by
  intro k b _ _ least below
  omega

def Largest (origin end_ order addr : ℕ) : Prop :=
  origin ≤ addr ∧ addr+2^(order+12) ≤ end_ ∧
    ∀ k b, order < k → k ≤ BUDDY_MAX_ORDER → 2^(k+12) ∣ b → addr ∈ block (k+12) b → origin ≤ b →
      end_ < b+2^(k+12)

section step
variable {origin end_ start : ℕ}

theorem greedy_largest (grain : FRAME_SIZE ∣ start) (room : start+FRAME_SIZE ≤ end_) (after : origin ≤ start)
    (clear : Clear origin end_ start) :
    Largest origin end_ (fittingOrder (end_-start) start BUDDY_MAX_ORDER) start := by
  obtain ⟨_,fits,_,largest⟩ := fittingOrder_spec grain (show FRAME_SIZE ≤ end_-start by omega) BUDDY_MAX_ORDER
  refine ⟨after,by omega,?_⟩
  intro k b larger within aligned inside least
  rcases Nat.eq_or_lt_of_le inside.1 with equal | below
  · have short := largest k larger within (equal ▸ aligned)
    omega
  · exact clear k b within aligned least below inside.2

theorem greedy_clear (grain : FRAME_SIZE ∣ start) (room : start+FRAME_SIZE ≤ end_) (after : origin ≤ start)
    (clear : Clear origin end_ start) :
    Clear origin end_ (start+2^(fittingOrder (end_-start) start BUDDY_MAX_ORDER+12)) := by
  obtain ⟨_,_,aligned,_⟩ := fittingOrder_spec grain (show FRAME_SIZE ≤ end_-start by omega) BUDDY_MAX_ORDER
  have largest := greedy_largest grain room after clear
  generalize fittingOrder (end_-start) start BUDDY_MAX_ORDER = order at aligned largest ⊢
  intro k b within dvd least below inside
  -- The block around the new position either contains the one just listed, which was
  -- the largest, or lies in it.
  rcases Nat.lt_or_ge order k with larger | small
  · refine largest.2.2 k b larger within dvd ?_ least
    rcases Nat.lt_or_ge start b with past | ahead
    · have contained := nested (Nat.add_le_add_right larger.le 12) aligned dvd
        (show b ∈ block (order+12) start from ⟨past.le,below⟩) (base_mem _ _)
      exact contained (base_mem _ _)
    · exact ⟨ahead,by omega⟩
  · exfalso
    have last : start+2^(order+12)-1 ∈ block (k+12) b := ⟨by omega,by omega⟩
    have member : start+2^(order+12)-1 ∈ block (order+12) start := by
      have positive : 0 < 2^(order+12) := Nat.two_pow_pos _
      exact ⟨by omega,by omega⟩
    have contained := nested (Nat.add_le_add_right small 12) dvd aligned last member
    have beyond := (contained (show start+2^(order+12) ∈ block (k+12) b from ⟨below.le,inside⟩)).2
    omega

end step

theorem carve_step (grain : FRAME_SIZE ∣ start) (fits : end_+FRAME_SIZE < 2^64) (room : start+FRAME_SIZE ≤ end_) :
    carve p end_ (fuel+1) start lists =
      carve p end_ fuel (start+2^(fittingOrder (end_-start) start BUDDY_MAX_ORDER+12))
        (lists.push (fittingOrder (end_-start) start BUDDY_MAX_ORDER) start) := by
  obtain ⟨_,inside,_,_⟩ := fittingOrder_spec grain (show FRAME_SIZE ≤ end_-start by omega) BUDDY_MAX_ORDER
  have test : p.add start FRAME_SIZE = .ok (start+FRAME_SIZE) := Profile.add_small (by omega)
  have remaining : p.sub end_ start = .ok (end_-start) := Profile.sub_small (by omega)
  have moved : p.add start (2^(fittingOrder (end_-start) start BUDDY_MAX_ORDER+12)) =
      .ok (start+2^(fittingOrder (end_-start) start BUDDY_MAX_ORDER+12)) := Profile.add_small (by omega)
  simp only [carve,test,ok_bind,if_pos room,remaining,moved]

theorem carve_done (fits : start+FRAME_SIZE < 2^64) (full : end_ < start+FRAME_SIZE) :
    carve p end_ (fuel+1) start lists = .ok lists := by
  have test : p.add start FRAME_SIZE = .ok (start+FRAME_SIZE) := Profile.add_small fits
  simp only [carve,test,ok_bind,if_neg (Nat.not_le.mpr full)]

structure NextBlock (origin start end_ order : ℕ) : Prop where
  within : order ≤ BUDDY_MAX_ORDER
  inside : start+2^(order+12) ≤ end_
  aligned : 2^(order+12) ∣ start
  grain : FRAME_SIZE ∣ start+2^(order+12)
  wide : FRAME_SIZE ≤ 2^(order+12)
  largest : Largest origin end_ order start
  clear : Clear origin end_ (start+2^(order+12))

theorem carve_lists (grain : FRAME_SIZE ∣ start) (fits : end_+FRAME_SIZE < 2^64) (room : start+FRAME_SIZE ≤ end_)
    (after : origin ≤ start) (clear : Clear origin end_ start) : ∃ order, NextBlock origin start end_ order ∧
      ∀ p fuel lists, carve p end_ (fuel+1) start lists = carve p end_ fuel (start+2^(order+12)) (lists.push order start) := by
  obtain ⟨within,inside,aligned,_⟩ :=
    fittingOrder_spec grain (show FRAME_SIZE ≤ end_-start by omega) BUDDY_MAX_ORDER
  have grown := grain_dvd (fittingOrder (end_-start) start BUDDY_MAX_ORDER)
  refine ⟨_,⟨within,by omega,aligned,Nat.dvd_add grain grown,Nat.le_of_dvd (Nat.two_pow_pos _) grown,
    greedy_largest grain room after clear,greedy_clear grain room after clear⟩,?_⟩
  exact fun p fuel lists => carve_step grain fits room

structure Carved (origin start end_ : ℕ) (lists after : FreeLists) : Prop where
  tiled : Tiled after
  covers : covered after = covered lists ∪ Set.Ico start end_
  words : Words lists → Words after
  fresh : ∀ order addr, addr ∈ after order → addr ∈ lists order ∨ Largest origin end_ order addr

theorem ico_split (inside : start+2^e ≤ end_) :
    Set.Ico start end_ = block e start ∪ Set.Ico (start+2^e) end_ := by
  have positive : 0 < 2^e := Nat.two_pow_pos e
  ext x
  simp only [Set.mem_Ico,Set.mem_union,mem_block]
  omega

theorem carve_carved (tiled : Tiled lists) (grain : FRAME_SIZE ∣ start) (endGrain : FRAME_SIZE ∣ end_)
    (fits : end_+FRAME_SIZE < 2^64) (startFits : start+FRAME_SIZE < 2^64) (after : origin ≤ start)
    (clear : Clear origin end_ start) (free : Disjoint (covered lists) (Set.Ico start end_))
    (ran : carve p end_ fuel start lists = .ok result) : Carved origin start end_ lists result := by
  induction fuel generalizing start lists with
  | zero => cases ran
  | succ fuel ih =>
      rcases Nat.lt_or_ge end_ (start+FRAME_SIZE) with full | room
      · rw [carve_done startFits full] at ran
        cases ran
        have empty : Set.Ico start end_ = ∅ := by
          rw [Set.Ico_eq_empty_iff]
          obtain ⟨q,rfl⟩ := grain
          obtain ⟨r,rfl⟩ := endGrain
          simp only [FRAME_SIZE] at full ⊢
          omega
        exact ⟨tiled,by rw [empty,Set.union_empty],id,fun _ _ member => Or.inl member⟩
      · obtain ⟨order,step,moves⟩ := carve_lists grain fits room after clear
        rw [moves] at ran
        have within := step.within
        have whole := step.inside
        have positive : 0 < 2^(order+12) := Nat.two_pow_pos _
        have apart := free
        rw [ico_split whole,Set.disjoint_union_right] at apart
        have later : Disjoint (block (order+12) start) (Set.Ico (start+2^(order+12)) end_) := by
          rw [Set.disjoint_left]
          intro x low high
          have below := low.2
          have above := high.1
          omega
        have rest := ih (push_tiled tiled within step.aligned apart.1) step.grain (by omega) (by omega)
          step.clear (by rw [push_covered within,Set.disjoint_union_left]; exact ⟨apart.2,later⟩) ran
        refine ⟨rest.tiled,?_,fun words => rest.words (push_words words (by omega)),?_⟩
        · rw [rest.covers,push_covered within,Set.union_assoc,← ico_split whole]
        · intro o a member
          rcases rest.fresh o a member with listed | new
          · by_cases same : o = order
            · subst same
              simp only [FreeLists.push,update_self,push,List.mem_append,List.mem_singleton] at listed
              rcases listed with old | rfl
              · exact Or.inl old
              · exact Or.inr step.largest
            · simp only [FreeLists.push,update_of_ne same] at listed
              exact Or.inl listed
          · exact Or.inr new

-- With overflow checks the loop returns only if its last test fits a word.
theorem carve_checked (grain : FRAME_SIZE ∣ start) (endGrain : FRAME_SIZE ∣ end_)
    (ran : carve .dev end_ fuel start lists = .ok result) : start+FRAME_SIZE < 2^64 ∧ end_+FRAME_SIZE < 2^64 := by
  induction fuel generalizing start lists with
  | zero => cases ran
  | succ fuel ih =>
      obtain ⟨next,tested,ran⟩ := bind_ok ran
      obtain ⟨fits,rfl⟩ := Profile.add_checked tested
      refine ⟨fits,?_⟩
      split at ran
      · obtain ⟨remaining,_,ran⟩ := bind_ok ran
        obtain ⟨moved,added,ran⟩ := bind_ok ran
        obtain ⟨_,rfl⟩ := Profile.add_checked added
        exact (ih (Nat.dvd_add grain (grain_dvd _)) ran).2
      · next full =>
          have size : FRAME_SIZE = 4096 := by simp [FRAME_SIZE]
          rw [size] at grain endGrain fits full ⊢
          omega

def pushAll (lists : FreeLists) (blocks : List (ℕ × ℕ)) : FreeLists := blocks.foldl (fun lists b => lists.push b.1 b.2) lists

def Row : ℕ → List (ℕ × ℕ) → ℕ → Prop
  | start,[],end_ => start = end_
  | start,(order,addr) :: rest,end_ => addr = start ∧ Row (start+2^(order+12)) rest end_

structure CarvesRow (start end_ : ℕ) (blocks : List (ℕ × ℕ)) : Prop where
  empty : end_ ≤ start → blocks = []
  row : start < end_ → Row start blocks end_
  order : ∀ b ∈ blocks, b.1 ≤ BUDDY_MAX_ORDER
  aligned : ∀ b ∈ blocks, 2^(b.1+12) ∣ b.2
  largest : ∀ b ∈ blocks, b.1 < BUDDY_MAX_ORDER → ∀ base, 2^(b.1+1+12) ∣ base →
    block (b.1+12) b.2 ⊆ block (b.1+1+12) base → ¬ (start ≤ base ∧ base+2^(b.1+1+12) ≤ end_)

section row
variable {origin start end_ : ℕ}

theorem carve_past (fits : start+FRAME_SIZE < 2^64) (past : end_ ≤ start) (some : 0 < fuel) :
    carve p end_ fuel start lists = .ok lists := by
  obtain ⟨fuel,rfl⟩ := Nat.exists_eq_add_one.mpr some
  refine carve_done fits ?_
  have size : FRAME_SIZE = 4096 := by simp [FRAME_SIZE]
  omega

theorem carve_row (grain : FRAME_SIZE ∣ start) (endGrain : FRAME_SIZE ∣ end_) (fits : end_+FRAME_SIZE < 2^64)
    (startFits : start+FRAME_SIZE < 2^64) (after : origin ≤ start) (clear : Clear origin end_ start)
    (enough : end_ < start+FRAME_SIZE*n) : ∃ blocks : List (ℕ × ℕ),
      (∀ p fuel lists, n ≤ fuel → 0 < fuel → carve p end_ fuel start lists = .ok (pushAll lists blocks)) ∧
      (end_ ≤ start → blocks = []) ∧ (start < end_ → Row start blocks end_) ∧
      ∀ b ∈ blocks, b.1 ≤ BUDDY_MAX_ORDER ∧ 2^(b.1+12) ∣ b.2 ∧ Largest origin end_ b.1 b.2 := by
  induction n generalizing start with
  | zero =>
      have past : end_ ≤ start := by omega
      exact ⟨[],fun p fuel lists _ some => carve_past startFits past some,fun _ => rfl,fun short => by omega,
        fun _ none => absurd none List.not_mem_nil⟩
  | succ n ih =>
      rcases Nat.lt_or_ge end_ (start+FRAME_SIZE) with full | room
      · have past : end_ ≤ start := by
          have size : FRAME_SIZE = 4096 := by simp [FRAME_SIZE]
          rw [size] at grain endGrain full
          omega
        exact ⟨[],fun p fuel lists _ some => carve_past startFits past some,fun _ => rfl,fun short => by omega,
          fun _ none => absurd none List.not_mem_nil⟩
      · obtain ⟨order,step,moves⟩ := carve_lists grain fits room after clear
        have inside := step.inside
        have wide := step.wide
        have positive : 0 < 2^(order+12) := Nat.two_pow_pos _
        rw [Nat.mul_add_one] at enough
        obtain ⟨blocks,runs,empty,row,each⟩ := @ih (start+2^(order+12)) step.grain (by omega) (by omega) step.clear (by omega)
        refine ⟨(order,start) :: blocks,?_,fun none => by omega,fun _ => ⟨rfl,?_⟩,?_⟩
        · intro p fuel lists most some
          obtain ⟨fuel,rfl⟩ := Nat.exists_eq_add_one.mpr some
          have left : 0 < fuel := by
            rcases Nat.eq_zero_or_pos n with rfl | positive <;> omega
          rw [moves]
          exact runs p fuel _ (by omega) left
        · rcases Nat.lt_or_ge (start+2^(order+12)) end_ with more | done
          · exact row more
          · rw [empty done]
            show start+2^(order+12) = end_
            omega
        · intro b member
          rcases List.mem_cons.mp member with rfl | later
          · exact ⟨step.within,step.aligned,step.largest⟩
          · exact each b later

theorem carve_total (p : Profile) (grain : FRAME_SIZE ∣ start) (endGrain : FRAME_SIZE ∣ end_) (fits : end_+FRAME_SIZE < 2^64)
    (startFits : start+FRAME_SIZE < 2^64) (some_fuel : 0 < fuel) (enough : end_ < start+FRAME_SIZE*fuel) :
    ∃ result, carve p end_ fuel start lists = .ok result := by
  obtain ⟨blocks,runs,_⟩ := carve_row grain endGrain fits startFits (Nat.le_refl _) origin_clear enough
  exact ⟨_,runs p fuel lists (Nat.le_refl _) some_fuel⟩

end row

-- The inner loops of `activate` on one region, in both profiles: they end, and what they
-- push is a row of the largest aligned blocks.
theorem carving_tiles (grain : FRAME_SIZE ∣ start) (endGrain : FRAME_SIZE ∣ end_) (high : end_ ≤ 2^52)
    (word : start < 2^64-FRAME_SIZE) : ∃ blocks, CarvesRow start end_ blocks ∧ ∃ enough, ∀ p fuel lists, enough ≤ fuel →
      carve p end_ fuel start lists = .ok (pushAll lists blocks) := by
  have size : FRAME_SIZE = 4096 := by simp [FRAME_SIZE]
  have fits : end_+FRAME_SIZE < 2^64 := by omega
  have startFits : start+FRAME_SIZE < 2^64 := by omega
  obtain ⟨blocks,runs,empty,row,each⟩ := carve_row (n:=end_+1) grain endGrain fits startFits (Nat.le_refl _) origin_clear
    (by rw [size]; omega)
  refine ⟨blocks,⟨empty,row,fun b member => (each b member).1,fun b member => (each b member).2.1,?_⟩,end_+1,?_⟩
  · intro b member below base aligned contained
    rintro ⟨least,most⟩
    have past := (each b member).2.2.2.2 (b.1+1) base (Nat.lt_succ_self _) below aligned (contained (base_mem _ _)) least
    omega
  · intro p fuel lists enough
    exact runs p fuel lists enough (by omega)

theorem carving_tiles_sample : ∃ blocks, CarvesRow 0x3000 0x8000 blocks ∧ ∃ enough, ∀ p fuel lists, enough ≤ fuel →
    carve p 0x8000 fuel 0x3000 lists = .ok (pushAll lists blocks) :=
  carving_tiles (by rw [frame_size]; decide) (by rw [frame_size]; decide) (by decide) (by rw [frame_size]; decide)

-- The last page of the address space: the loop's test wraps to zero, and the region's end
-- no longer stops it.
theorem carving_wraps : FRAME_SIZE ∣ 2^64-0x1000 ∧ FRAME_SIZE ∣ 0x2000 ∧
    (∀ fuel lists, carve .dev 0x2000 (fuel+1) (2^64-0x1000) lists = .error (.panicked "attempt to add with overflow")) ∧
    ∃ after, carve .release 0x2000 3 (2^64-0x1000) (fun _ => []) = .ok after ∧ after 0 = [2^64-0x1000] ∧ after 1 = [0] := by
  refine ⟨by rw [frame_size]; decide,by rw [frame_size]; decide,?_,?_⟩
  · intro fuel lists
    have test : Profile.add .dev (2^64-0x1000) FRAME_SIZE = .error (.panicked "attempt to add with overflow") :=
      Profile.add_panics (by rw [frame_size]; decide)
    simp only [carve,test]
    rfl
  · obtain ⟨after,ran,listed⟩ := ran_any (show (carve .release 0x2000 3 (2^64-0x1000) (fun _ => [])).toOption.any
      (fun after => after 0 == [2^64-0x1000] && after 1 == [0]) = true by decide +kernel)
    simp only [Bool.and_eq_true,beq_iff_eq] at listed
    exact ⟨after,ran,listed⟩

end RustyCore.BuddyFrameAllocator
