import Mathlib

namespace DyadicBlocks
open Function

def block (e a : ℕ) : Set ℕ := {x | a ≤ x ∧ x < a+2^e}

theorem mem_block : x ∈ block e a ↔ a ≤ x ∧ x < a+2^e := Iff.rfl

theorem base_mem (e a : ℕ) : a ∈ block e a := by
  refine ⟨Nat.le_refl a,?_⟩
  have positive : 0 < 2^e := Nat.two_pow_pos e
  omega

-- For an aligned base, membership is equality of quotients: this is what makes
-- two aligned blocks that share an address nested.
theorem mem_aligned (aligned : 2^e ∣ a) : x ∈ block e a ↔ x / 2^e = a / 2^e := by
  obtain ⟨q,rfl⟩ := aligned
  have positive : 0 < 2^e := Nat.two_pow_pos e
  rw [mem_block,Nat.mul_div_cancel_left q positive,Nat.div_eq_iff positive,Nat.mul_comm q]
  omega

theorem nested (small : e ≤ f) (left : 2^e ∣ a) (right : 2^f ∣ b)
    (here : x ∈ block e a) (there : x ∈ block f b) : block e a ⊆ block f b := by
  obtain ⟨gap,rfl⟩ := Nat.exists_eq_add_of_le small
  intro y member
  rw [mem_aligned left] at here member
  rw [mem_aligned right,Nat.pow_add,← Nat.div_div_eq_div_mul] at there ⊢
  rw [member,← here,there]

theorem base_unique (left : 2^e ∣ a) (right : 2^e ∣ b)
    (here : x ∈ block e a) (there : x ∈ block e b) : a = b := by
  rw [mem_aligned left] at here
  rw [mem_aligned right] at there
  have equal : a / 2^e = b / 2^e := here.symm.trans there
  rw [← Nat.div_mul_cancel left,← Nat.div_mul_cancel right,equal]

theorem block_halves (e a : ℕ) : block (e+1) a = block e a ∪ block e (a+2^e) := by
  ext x
  simp only [Set.mem_union,mem_block,Nat.pow_succ]
  omega

theorem halves_disjoint (e a : ℕ) : Disjoint (block e a) (block e (a+2^e)) := by
  rw [Set.disjoint_left]
  intro x low high
  have below := low.2
  have above := high.1
  omega

theorem aligned_end (aligned : 2^e ∣ a) (small : e ≤ n) (below : a < 2^n) : a+2^e ≤ 2^n := by
  obtain ⟨q,rfl⟩ := aligned
  obtain ⟨gap,rfl⟩ := Nat.exists_eq_add_of_le small
  rw [Nat.pow_add] at below ⊢
  have step : q+1 ≤ 2^gap := Nat.lt_of_mul_lt_mul_left below
  calc 2^e*q+2^e = 2^e*(q+1) := (Nat.mul_add_one _ _).symm
    _ ≤ 2^e*2^gap := Nat.mul_le_mul_left _ step

def buddy (e a : ℕ) : ℕ := a ^^^ 2^e

theorem buddy_cases (aligned : 2^e ∣ a) :
    (2^(e+1) ∣ a ∧ buddy e a = a+2^e) ∨ ∃ low, a = low+2^e ∧ 2^(e+1) ∣ low ∧ buddy e a = low := by
  obtain ⟨q,rfl⟩ := aligned
  have shifted : buddy e (2^e*q) = 2^e*(q ^^^ 1) := by
    have distributed := Nat.shiftLeft_xor_distrib (a:=q) (b:=1) (i:=e)
    simpa [Nat.shiftLeft_eq,Nat.mul_comm,buddy] using distributed.symm
  rcases Nat.even_or_odd q with even | odd
  · refine Or.inl ⟨?_,?_⟩
    · rw [Nat.pow_succ]
      exact Nat.mul_dvd_mul_left _ even.two_dvd
    · rw [shifted,Nat.xor_one_of_even even,Nat.mul_add_one]
  · obtain ⟨h,rfl⟩ := odd
    have flipped : (2*h+1) ^^^ 1 = 2*h := Nat.xor_one_of_odd ⟨h,rfl⟩
    refine Or.inr ⟨2^e*(2*h),Nat.mul_add_one _ _,?_,by rw [shifted,flipped]⟩
    rw [Nat.pow_succ]
    exact Nat.mul_dvd_mul_left _ ⟨h,rfl⟩

theorem buddy_upper (aligned : 2^(e+1) ∣ a) : buddy e a = a+2^e := by
  have half : 2^e ∣ a := Nat.dvd_trans (Nat.pow_dvd_pow 2 (Nat.le_succ e)) aligned
  rcases buddy_cases half with ⟨_,upper⟩ | ⟨low,rfl,lower,_⟩
  · exact upper
  · have twice : 2^(e+1) ∣ 2^e := (Nat.dvd_add_right lower).mp aligned
    have bound := Nat.le_of_dvd (Nat.two_pow_pos e) twice
    have strict : 2^e < 2^(e+1) := Nat.pow_lt_pow_right (by decide) (Nat.lt_succ_self e)
    omega

theorem merged_aligned (aligned : 2^e ∣ a) : 2^(e+1) ∣ min a (buddy e a) := by
  rcases buddy_cases aligned with ⟨whole,upper⟩ | ⟨low,rfl,whole,lower⟩
  · rw [upper,Nat.min_eq_left (Nat.le_add_right _ _)]
    exact whole
  · rw [lower,Nat.min_eq_right (Nat.le_add_right _ _)]
    exact whole

theorem merged_block (aligned : 2^e ∣ a) :
    block (e+1) (min a (buddy e a)) = block e a ∪ block e (buddy e a) := by
  rcases buddy_cases aligned with ⟨_,upper⟩ | ⟨low,rfl,_,lower⟩
  · rw [upper,Nat.min_eq_left (Nat.le_add_right _ _),block_halves]
  · rw [lower,Nat.min_eq_right (Nat.le_add_right _ _),block_halves,Set.union_comm]

theorem buddy_disjoint (aligned : 2^e ∣ a) : Disjoint (block e a) (block e (buddy e a)) := by
  rcases buddy_cases aligned with ⟨_,upper⟩ | ⟨low,rfl,_,lower⟩
  · rw [upper]
    exact halves_disjoint e a
  · rw [lower]
    exact (halves_disjoint e low).symm

theorem restore_half {S A B : Set ℕ} (inside : B ⊆ S) (apart : Disjoint A B) :
    (S \ (A ∪ B)) ∪ B = S \ A := by
  ext x
  constructor
  · rintro (⟨member,outside⟩ | member)
    · exact ⟨member,fun left => outside (Or.inl left)⟩
    · exact ⟨inside member,fun left => Set.disjoint_left.mp apart left member⟩
  · rintro ⟨member,outside⟩
    by_cases right : x ∈ B
    · exact Or.inr right
    · exact Or.inl ⟨member,fun either => either.elim outside right⟩

-- A free-list family of grain `g` keeps, for every order `o ≤ m`, the bases of its
-- blocks of exponent `o+g`. Two entries never share an address, an entry listed
-- twice included.
structure Tiling (g m : ℕ) (lists : ℕ → List ℕ) : Prop where
  aligned : ∀ o a, o ≤ m → a ∈ lists o → 2^(o+g) ∣ a
  once : ∀ o, o ≤ m → (lists o).Nodup
  apart : ∀ o a o' a' x, o ≤ m → o' ≤ m → a ∈ lists o → a' ∈ lists o' →
    x ∈ block (o+g) a → x ∈ block (o'+g) a' → o = o' ∧ a = a'

def cover (g m : ℕ) (lists : ℕ → List ℕ) : Set ℕ :=
  {x | ∃ o a, o ≤ m ∧ a ∈ lists o ∧ x ∈ block (o+g) a}

theorem listed_subset (within : o ≤ m) (listed : a ∈ lists o) :
    block (o+g) a ⊆ cover g m lists := fun _ member => ⟨o,a,within,listed,member⟩

theorem empty_tiling (g m : ℕ) : Tiling g m (fun _ => []) := by
  refine ⟨?_,?_,?_⟩
  · intro o a _ listed; cases listed
  · intro o _; exact List.nodup_nil
  · intro o a o' a' x _ _ listed; cases listed

theorem unlisted_cover (unlisted : ∀ o ≤ m, lists o = []) : cover g m lists = ∅ := by
  rw [Set.eq_empty_iff_forall_notMem]
  rintro x ⟨o,a,within,listed,_⟩
  rw [unlisted o within] at listed
  cases listed

theorem empty_cover (g m : ℕ) : cover g m (fun _ => []) = ∅ := unlisted_cover fun _ _ => rfl

theorem grainless_cover (tiling : Tiling g m lists) (none : ∀ x, 2^g ∣ x → x ∉ cover g m lists) : cover g m lists = ∅ := by
  rw [Set.eq_empty_iff_forall_notMem]
  rintro x ⟨o,a,within,listed,_⟩
  have grain : 2^g ∣ a := (Nat.pow_dvd_pow 2 (Nat.le_add_left g o)).trans (tiling.aligned o a within listed)
  exact none a grain (listed_subset within listed (base_mem _ _))

theorem remove_tiling (tiling : Tiling g m lists)
    (taken : (lists o).Perm (a :: rest)) : Tiling g m (update lists o rest) := by
  have kept : ∀ o' b, b ∈ update lists o rest o' → b ∈ lists o' := by
    intro o' b member
    by_cases same : o' = o
    · subst same
      rw [update_self] at member
      exact taken.mem_iff.mpr (List.mem_cons_of_mem _ member)
    · rwa [update_of_ne same] at member
  refine ⟨?_,?_,?_⟩
  · intro o' b bound member
    exact tiling.aligned o' b bound (kept o' b member)
  · intro o' bound
    by_cases same : o' = o
    · subst same
      rw [update_self]
      exact (List.nodup_cons.mp (taken.nodup_iff.mp (tiling.once o' bound))).2
    · rw [update_of_ne same]
      exact tiling.once o' bound
  · intro o₁ b₁ o₂ b₂ x bound₁ bound₂ member₁ member₂
    exact tiling.apart o₁ b₁ o₂ b₂ x bound₁ bound₂ (kept _ _ member₁) (kept _ _ member₂)

theorem remove_cover (tiling : Tiling g m lists) (within : o ≤ m)
    (taken : (lists o).Perm (a :: rest)) :
    cover g m (update lists o rest) = cover g m lists \ block (o+g) a := by
  have listed : a ∈ lists o := taken.mem_iff.mpr List.mem_cons_self
  have absent : a ∉ rest := (List.nodup_cons.mp (taken.nodup_iff.mp (tiling.once o within))).1
  ext x
  constructor
  · rintro ⟨o',b,bound,member,inside⟩
    by_cases same : o' = o
    · subst same
      rw [update_self] at member
      have old : b ∈ lists o' := taken.mem_iff.mpr (List.mem_cons_of_mem _ member)
      refine ⟨⟨o',b,bound,old,inside⟩,?_⟩
      intro removed
      have equal := (tiling.apart o' b o' a x bound bound old listed inside removed).2
      exact absent (equal ▸ member)
    · rw [update_of_ne same] at member
      refine ⟨⟨o',b,bound,member,inside⟩,?_⟩
      intro removed
      exact same (tiling.apart o' b o a x bound within member listed inside removed).1
  · rintro ⟨⟨o',b,bound,member,inside⟩,outside⟩
    refine ⟨o',b,bound,?_,inside⟩
    by_cases same : o' = o
    · subst same
      rw [update_self]
      rcases List.mem_cons.mp (taken.mem_iff.mp member) with equal | kept
      · subst equal
        exact absurd inside outside
      · exact kept
    · rwa [update_of_ne same]

theorem insert_tiling (tiling : Tiling g m lists) (within : o ≤ m) (aligned : 2^(o+g) ∣ a)
    (free : Disjoint (cover g m lists) (block (o+g) a)) (given : next.Perm (a :: lists o)) :
    Tiling g m (update lists o next) := by
  have source : ∀ o' b, b ∈ update lists o next o' → (o' = o ∧ b = a) ∨ b ∈ lists o' := by
    intro o' b member
    by_cases same : o' = o
    · subst same
      rw [update_self] at member
      rcases List.mem_cons.mp (given.mem_iff.mp member) with equal | old
      · exact Or.inl ⟨rfl,equal⟩
      · exact Or.inr old
    · rw [update_of_ne same] at member
      exact Or.inr member
  have clash : ∀ o' b x, o' ≤ m → b ∈ lists o' → x ∈ block (o'+g) b → x ∉ block (o+g) a := by
    intro o' b x bound member inside
    exact Set.disjoint_left.mp free ⟨o',b,bound,member,inside⟩
  refine ⟨?_,?_,?_⟩
  · intro o' b bound member
    rcases source o' b member with ⟨rfl,rfl⟩ | old
    · exact aligned
    · exact tiling.aligned o' b bound old
  · intro o' bound
    by_cases same : o' = o
    · subst same
      rw [update_self,given.nodup_iff,List.nodup_cons]
      refine ⟨?_,tiling.once o' bound⟩
      intro listed
      exact clash o' a a bound listed (base_mem _ _) (base_mem _ _)
    · rw [update_of_ne same]
      exact tiling.once o' bound
  · intro o₁ b₁ o₂ b₂ x bound₁ bound₂ member₁ member₂ inside₁ inside₂
    rcases source o₁ b₁ member₁ with ⟨rfl,rfl⟩ | old₁ <;>
      rcases source o₂ b₂ member₂ with ⟨rfl,rfl⟩ | old₂
    · exact ⟨rfl,rfl⟩
    · exact absurd inside₁ (clash o₂ b₂ x bound₂ old₂ inside₂)
    · exact absurd inside₂ (clash o₁ b₁ x bound₁ old₁ inside₁)
    · exact tiling.apart o₁ b₁ o₂ b₂ x bound₁ bound₂ old₁ old₂ inside₁ inside₂

theorem insert_cover (within : o ≤ m) (given : next.Perm (a :: lists o)) :
    cover g m (update lists o next) = cover g m lists ∪ block (o+g) a := by
  ext x
  constructor
  · rintro ⟨o',b,bound,member,inside⟩
    by_cases same : o' = o
    · subst same
      rw [update_self] at member
      rcases List.mem_cons.mp (given.mem_iff.mp member) with rfl | old
      · exact Or.inr inside
      · exact Or.inl ⟨o',b,bound,old,inside⟩
    · rw [update_of_ne same] at member
      exact Or.inl ⟨o',b,bound,member,inside⟩
  · rintro (⟨o',b,bound,member,inside⟩ | inside)
    · refine ⟨o',b,bound,?_,inside⟩
      by_cases same : o' = o
      · subst same
        rw [update_self]
        exact given.mem_iff.mpr (List.mem_cons_of_mem _ member)
      · rwa [update_of_ne same]
    · exact ⟨o,a,within,by rw [update_self]; exact given.mem_iff.mpr List.mem_cons_self,inside⟩

def grains (g m : ℕ) (lists : ℕ → List ℕ) : Finset ℕ :=
  (Finset.range (m+1)).biUnion fun o => (lists o).toFinset.biUnion fun a =>
    (Finset.range (2^o)).image fun k => a+2^g*k

theorem mem_grains (tiling : Tiling g m lists) :
    x ∈ grains g m lists ↔ 2^g ∣ x ∧ x ∈ cover g m lists := by
  simp only [grains,Finset.mem_biUnion,Finset.mem_range,List.mem_toFinset,Finset.mem_image]
  constructor
  · rintro ⟨o,within,a,listed,k,below,rfl⟩
    have aligned := tiling.aligned o a (by omega) listed
    have grain : 2^g ∣ a := Nat.dvd_trans (Nat.pow_dvd_pow 2 (Nat.le_add_left g o)) aligned
    refine ⟨Nat.dvd_add grain (Nat.dvd_mul_right _ _),o,a,by omega,listed,Nat.le_add_right _ _,?_⟩
    rw [Nat.pow_add,Nat.mul_comm (2^o)]
    exact Nat.add_lt_add_left (Nat.mul_lt_mul_of_pos_left below (Nat.two_pow_pos g)) a
  · rintro ⟨multiple,o,a,within,listed,above,below⟩
    have aligned := tiling.aligned o a within listed
    have grain : 2^g ∣ a := Nat.dvd_trans (Nat.pow_dvd_pow 2 (Nat.le_add_left g o)) aligned
    obtain ⟨k,equal⟩ := Nat.dvd_sub multiple grain
    refine ⟨o,by omega,a,listed,k,?_,by omega⟩
    rw [Nat.pow_add,Nat.mul_comm (2^o)] at below
    exact Nat.lt_of_mul_lt_mul_left (a:=2^g) (by omega)

theorem card_grains (tiling : Tiling g m lists) :
    (grains g m lists).card = ∑ o ∈ Finset.range (m+1), (lists o).length*2^o := by
  have inside : ∀ o a, o ≤ m → a ∈ lists o → ∀ x, x ∈ (Finset.range (2^o)).image (fun k => a+2^g*k) →
      x ∈ block (o+g) a := by
    intro o a within listed x member
    obtain ⟨k,below,rfl⟩ := Finset.mem_image.mp member
    refine ⟨Nat.le_add_right _ _,?_⟩
    rw [Nat.pow_add,Nat.mul_comm (2^o)]
    exact Nat.add_lt_add_left (Nat.mul_lt_mul_of_pos_left (Finset.mem_range.mp below) (Nat.two_pow_pos g)) a
  rw [grains,Finset.card_biUnion]
  · refine Finset.sum_congr rfl ?_
    intro o member
    have within : o ≤ m := by have bound := Finset.mem_range.mp member; omega
    rw [Finset.card_biUnion]
    · have each : ∀ a ∈ (lists o).toFinset, ((Finset.range (2^o)).image fun k => a+2^g*k).card = 2^o := by
        intro a _
        rw [Finset.card_image_of_injective,Finset.card_range]
        intro k l equal
        exact Nat.eq_of_mul_eq_mul_left (Nat.two_pow_pos g) (Nat.add_left_cancel equal)
      rw [Finset.sum_congr rfl each,Finset.sum_const,smul_eq_mul,List.toFinset_card_of_nodup (tiling.once o within)]
    · intro a first b second different
      rw [Function.onFun,Finset.disjoint_left]
      intro x left right
      have listed := List.mem_toFinset.mp first
      have listed' := List.mem_toFinset.mp second
      exact different (tiling.apart o a o b x within within listed listed' (inside o a within listed x left)
        (inside o b within listed' x right)).2
  · intro o first o' second different
    rw [Function.onFun,Finset.disjoint_left]
    intro x left right
    obtain ⟨a,listed,left⟩ := Finset.mem_biUnion.mp left
    obtain ⟨b,listed',right⟩ := Finset.mem_biUnion.mp right
    have within : o ≤ m := by have bound := Finset.mem_range.mp first; omega
    have within' : o' ≤ m := by have bound := Finset.mem_range.mp second; omega
    rw [List.mem_toFinset] at listed listed'
    exact different (tiling.apart o a o' b x within within' listed listed' (inside o a within listed x left)
      (inside o' b within' listed' x right)).1

structure Coalesced (g m : ℕ) (lists : ℕ → List ℕ) : Prop extends Tiling g m lists where
  lone : ∀ o a, o < m → a ∈ lists o → buddy (o+g) a ∉ lists o

theorem buddy_buddy (e a : ℕ) : buddy e (buddy e a) = a := by
  simp [buddy]

theorem remove_coalesced (coalesced : Coalesced g m lists)
    (taken : (lists o).Perm (a :: rest)) : Coalesced g m (update lists o rest) := by
  refine ⟨remove_tiling coalesced.toTiling taken,?_⟩
  intro o' b below member
  by_cases same : o' = o
  · subst same
    rw [update_self] at member ⊢
    have old : b ∈ lists o' := taken.mem_iff.mpr (List.mem_cons_of_mem _ member)
    exact fun partner => coalesced.lone o' b below old (taken.mem_iff.mpr (List.mem_cons_of_mem _ partner))
  · rw [update_of_ne same] at member ⊢
    exact coalesced.lone o' b below member

theorem insert_coalesced (coalesced : Coalesced g m lists) (within : o ≤ m) (aligned : 2^(o+g) ∣ a)
    (free : Disjoint (cover g m lists) (block (o+g) a)) (given : next.Perm (a :: lists o))
    (alone : o < m → buddy (o+g) a ∉ lists o) : Coalesced g m (update lists o next) := by
  refine ⟨insert_tiling coalesced.toTiling within aligned free given,?_⟩
  intro o' b below member
  by_cases same : o' = o
  · subst same
    rw [update_self,given.mem_iff] at member ⊢
    intro partner
    rcases List.mem_cons.mp member with new | old <;> rcases List.mem_cons.mp partner with closed | listed
    · have apart := Set.disjoint_left.mp (buddy_disjoint aligned) (base_mem _ _)
      rw [← new,closed,new] at apart
      exact apart (base_mem _ _)
    · exact alone below (new ▸ listed)
    · exact alone below (by rw [← closed,buddy_buddy]; exact old)
    · exact coalesced.lone o' b below old listed
  · rw [update_of_ne same] at member ⊢
    exact coalesced.lone o' b below member

theorem order_aligned (aligned : 2^(o+1+g) ∣ a) : 2^(o+g) ∣ a ∧ 2^(o+g) ∣ a+2^(o+g) := by
  have half : 2^(o+g) ∣ a := Nat.dvd_trans (Nat.pow_dvd_pow 2 (by omega)) aligned
  exact ⟨half,Nat.dvd_add half (Nat.dvd_refl _)⟩

-- The induction is on the order of the block: both halves lie in listed blocks, and if
-- neither of these is larger the two halves are listed buddies.
theorem covered_within (coalesced : Coalesced g m lists) (within : o ≤ m) (aligned : 2^(o+g) ∣ a)
    (covered : block (o+g) a ⊆ cover g m lists) :
    ∃ o' b, o ≤ o' ∧ o' ≤ m ∧ b ∈ lists o' ∧ block (o+g) a ⊆ block (o'+g) b := by
  induction o generalizing a with
  | zero =>
      obtain ⟨o',b,bound,listed,inside⟩ := covered (base_mem _ _)
      exact ⟨o',b,Nat.zero_le _,bound,listed,
        nested (by omega) aligned (coalesced.aligned o' b bound listed) (base_mem _ _) inside⟩
  | succ o ih =>
      have shape : o+1+g = o+g+1 := by omega
      obtain ⟨low,high⟩ := order_aligned aligned
      have halves : block (o+1+g) a = block (o+g) a ∪ block (o+g) (a+2^(o+g)) := by
        rw [shape,block_halves]
      rw [halves] at covered
      obtain ⟨o₁,b₁,least₁,bound₁,listed₁,inside₁⟩ :=
        ih (by omega) low (Set.subset_union_left.trans covered)
      obtain ⟨o₂,b₂,least₂,bound₂,listed₂,inside₂⟩ :=
        ih (by omega) high (Set.subset_union_right.trans covered)
      have first : a ∈ block (o+1+g) a := base_mem _ _
      have second : a+2^(o+g) ∈ block (o+1+g) a := by rw [halves]; exact Or.inr (base_mem _ _)
      rcases Nat.lt_or_ge o o₁ with larger | equal₁
      · exact ⟨o₁,b₁,larger,bound₁,listed₁,nested (by omega) aligned
          (coalesced.aligned o₁ b₁ bound₁ listed₁) first (inside₁ (base_mem _ _))⟩
      rcases Nat.lt_or_ge o o₂ with larger | equal₂
      · exact ⟨o₂,b₂,larger,bound₂,listed₂,nested (by omega) aligned
          (coalesced.aligned o₂ b₂ bound₂ listed₂) second (inside₂ (base_mem _ _))⟩
      obtain rfl : o₁ = o := by omega
      obtain rfl : o₂ = o₁ := by omega
      have base₁ : a = b₁ := base_unique low (coalesced.aligned _ _ bound₁ listed₁)
        (base_mem _ _) (inside₁ (base_mem _ _))
      have base₂ : a+2^(o₂+g) = b₂ := base_unique high (coalesced.aligned _ _ bound₂ listed₂)
        (base_mem _ _) (inside₂ (base_mem _ _))
      subst base₁ base₂
      have partner : buddy (o₂+g) a = a+2^(o₂+g) := buddy_upper (shape ▸ aligned)
      exact absurd (partner ▸ listed₂) (coalesced.lone o₂ a (by omega) listed₁)

def Maximal (g m : ℕ) (S : Set ℕ) (o a : ℕ) : Prop :=
  o ≤ m ∧ 2^(o+g) ∣ a ∧ block (o+g) a ⊆ S ∧
    ∀ o' b, o < o' → o' ≤ m → 2^(o'+g) ∣ b → block (o+g) a ⊆ block (o'+g) b → ¬ block (o'+g) b ⊆ S

theorem canonical (coalesced : Coalesced g m lists) (within : o ≤ m) :
    a ∈ lists o ↔ Maximal g m (cover g m lists) o a := by
  constructor
  · intro listed
    refine ⟨within,coalesced.aligned o a within listed,listed_subset within listed,?_⟩
    intro o' b larger bound aligned inside covered
    obtain ⟨o'',c,least,bound',listed',inside'⟩ := covered_within coalesced bound aligned covered
    have shared := coalesced.apart o a o'' c a within bound' listed listed'
      (base_mem _ _) (inside' (inside (base_mem _ _)))
    omega
  · rintro ⟨_,aligned,covered,largest⟩
    obtain ⟨o',b,least,bound,listed,inside⟩ := covered_within coalesced within aligned covered
    rcases Nat.lt_or_ge o o' with larger | equal
    · exact absurd (listed_subset bound listed)
        (largest o' b larger bound (coalesced.aligned o' b bound listed) inside)
    · obtain rfl : o' = o := by omega
      have same : a = b := base_unique aligned (coalesced.aligned _ _ bound listed)
        (base_mem _ _) (inside (base_mem _ _))
      exact same ▸ listed

theorem coalesced_unique (left : Coalesced g m lists) (right : Coalesced g m others)
    (same : cover g m lists = cover g m others) (within : o ≤ m) : a ∈ lists o ↔ a ∈ others o := by
  rw [canonical left within,canonical right within,same]

end DyadicBlocks
