import Mathlib

namespace RadixTables
open List

-- Tables of entries, found by their address. An entry is nothing to a walk, or an address and
-- whether the walk ends there.
abbrev Tables (A I E : Type*) := A → I → E

section walks
variable {A I E : Type*} (view : E → Option (A × Bool))

def walk (T : Tables A I E) : A → List I → Option A
  | a,[] => some a
  | a,i :: path =>
    match view (T a i) with
    | some (b,false) => walk T b path
    | _ => none

def trail (T : Tables A I E) : A → List I → List E
  | _,[] => []
  | a,i :: path =>
    match view (T a i) with
    | some (b,false) => T a i :: trail T b path
    | _ => [T a i]

-- What a path denotes: the address in its last entry, and how many indices lie below it.
def target (T : Tables A I E) : A → List I → Option (A × ℕ)
  | _,[] => none
  | a,i :: path =>
    match view (T a i) with
    | none => none
    | some (b,ends) => if ends || path.isEmpty then some (b,path.length) else target T b path

end walks

variable {A I E : Type*} {view : E → Option (A × Bool)} {T T' : Tables A I E} {a b t : A} {i : I} {path : List I}

theorem walk_cons : walk view T a (i :: path) = some t ↔ ∃ b, view (T a i) = some (b,false) ∧ walk view T b path = some t := by
  rw [walk]
  cases seen : view (T a i) with
  | none => simp
  | some next =>
      obtain ⟨b,ends⟩ := next
      cases ends <;> simp

theorem walk_append {rest : List I} : walk view T a (path ++ rest) = some t ↔
    ∃ b, walk view T a path = some b ∧ walk view T b rest = some t := by
  induction path generalizing a with
  | nil => simp [walk]
  | cons i path ih =>
      simp only [cons_append,walk_cons,ih]
      constructor
      · rintro ⟨b,seen,c,first,second⟩
        exact ⟨c,⟨b,seen,first⟩,second⟩
      · rintro ⟨c,⟨b,seen,first⟩,second⟩
        exact ⟨b,seen,c,first,second⟩

theorem walk_snoc : walk view T a (path ++ [i]) = some t ↔ ∃ b, walk view T a path = some b ∧ view (T b i) = some (t,false) := by
  rw [walk_append]
  refine exists_congr fun b => and_congr_right fun _ => ?_
  rw [walk_cons]
  simp [walk]

section agreement
variable {grows : E → E → Prop} (viewed : ∀ e e', grows e e' → view e = view e')
include viewed

theorem walk_agrees (reads : ∀ q k t, q ++ [k] <+: path → walk view T a q = some t → grows (T t k) (T' t k)) :
    walk view T' a path = walk view T a path := by
  induction path generalizing a with
  | nil => rfl
  | cons i path ih =>
      have here := viewed _ _ (reads [] i a (by simp) rfl)
      rw [walk,walk,← here]
      split
      · next b seen =>
          refine ih fun q k t within reached => reads (i :: q) k t ?_ (walk_cons.mpr ⟨b,seen,reached⟩)
          simpa using within
      · rfl

theorem trail_agrees (reads : ∀ q k t, q ++ [k] <+: path → walk view T a q = some t → grows (T t k) (T' t k)) :
    Forall₂ grows (trail view T a path) (trail view T' a path) := by
  induction path generalizing a with
  | nil => exact .nil
  | cons i path ih =>
      have now := reads [] i a (by simp) rfl
      rw [trail,trail,← viewed _ _ now]
      split
      · next b seen =>
          refine .cons now (ih fun q k t within reached => reads (i :: q) k t ?_ (walk_cons.mpr ⟨b,seen,reached⟩))
          simpa using within
      · exact .cons now .nil

theorem target_agrees (reads : ∀ q k t, q ++ [k] <+: path → walk view T a q = some t → grows (T t k) (T' t k)) :
    target view T' a path = target view T a path := by
  induction path generalizing a with
  | nil => rfl
  | cons i path ih =>
      have here := viewed _ _ (reads [] i a (by simp) rfl)
      rw [target,target,← here]
      split
      · rfl
      · next b ends seen =>
          cases ends with
          | true => rfl
          | false =>
              rw [ih fun q k t within reached => reads (i :: q) k t (by simpa using within) (walk_cons.mpr ⟨b,seen,reached⟩)]

end agreement

theorem target_below {rest : List I} (reached : walk view T a path = some t) (more : rest ≠ []) :
    target view T a (path ++ rest) = target view T t rest := by
  induction path generalizing a with
  | nil =>
      cases reached
      rfl
  | cons i path ih =>
      obtain ⟨b,seen,later⟩ := walk_cons.mp reached
      rw [cons_append,target,seen]
      simpa [more] using ih later

theorem trail_below {rest : List I} (reached : walk view T a path = some t) :
    trail view T a (path ++ rest) = trail view T a path ++ trail view T t rest := by
  induction path generalizing a with
  | nil =>
      cases reached
      rfl
  | cons i path ih =>
      obtain ⟨b,seen,later⟩ := walk_cons.mp reached
      simp only [cons_append,trail,seen,ih later]

theorem trail_length (reached : walk view T a path = some t) : (trail view T a path).length = path.length := by
  induction path generalizing a with
  | nil => rfl
  | cons i path ih =>
      obtain ⟨b,seen,later⟩ := walk_cons.mp reached
      simp only [trail,seen,length_cons,ih later]

theorem walk_stops {p q : List I} (reached : walk view T a p = some t) (empty : view (T t i) = none) (within : p ++ [i] <+: q) :
    walk view T a q = none := by
  obtain ⟨rest,rfl⟩ := within
  cases found : walk view T a (p ++ [i] ++ rest) with
  | none => rfl
  | some b =>
      obtain ⟨c,first,_⟩ := walk_append.mp found
      obtain ⟨t',parent,seen⟩ := walk_snoc.mp first
      cases reached.symm.trans parent
      rw [empty] at seen
      cases seen

theorem trail_snoc {p : List I} (reached : walk view T a p = some t) : trail view T a (p ++ [i]) = trail view T a p ++ [T t i] := by
  rw [trail_below reached,trail]
  split <;> rfl

theorem not_below {p : List I} : ¬ p ++ [i] <+: p := by
  intro within
  have length := within.length_le
  rw [length_append,length_singleton] at length
  omega

def Tree (view : E → Option (A × Bool)) (T : Tables A I E) (root : A) (depth : ℕ) : Prop :=
  ∀ p q a, p.length ≤ depth → q.length ≤ depth → walk view T root p = some a → walk view T root q = some a → p = q

def Reached (view : E → Option (A × Bool)) (T : Tables A I E) (root : A) (depth : ℕ) (a : A) : Prop :=
  ∃ p, p.length ≤ depth ∧ walk view T root p = some a

-- An empty entry of a table in the tree becomes the way to a blank table that was not in it.
structure Link (view : E → Option (A × Bool)) (T T' : Tables A I E) (root : A) (depth : ℕ) (p : List I) (t : A) (i : I) (f : A) :
    Prop where
  reached : walk view T root p = some t
  shallow : p.length < depth
  empty : view (T t i) = none
  linked : view (T' t i) = some (f,false)
  blank : ∀ k, view (T' f k) = none
  others : ∀ a k, a ≠ f → (a,k) ≠ (t,i) → T' a k = T a k
  fresh : ¬ Reached view T root depth f

namespace Link
variable {root f : A} {depth : ℕ} {p q : List I} (link : Link view T T' root depth p t i f) (single : Tree view T root depth)
include link single

theorem reads (beside : ¬ p ++ [i] <+: q) (short : q.length ≤ depth+1) :
    ∀ r k a, r ++ [k] <+: q → walk view T root r = some a → T a k = T' a k := by
  intro r k a within reached
  have length := within.length_le
  rw [length_append,length_singleton] at length
  refine (link.others a k ?_ ?_).symm
  · rintro rfl
    exact link.fresh ⟨r,by omega,reached⟩
  · intro same
    cases same
    have equal := single r p t (by omega) link.shallow.le reached link.reached
    exact beside (equal ▸ within)

theorem walk_beside (beside : ¬ p ++ [i] <+: q) (short : q.length ≤ depth) : walk view T' root q = walk view T root q :=
  walk_agrees (fun _ _ same => congrArg view same) (link.reads single beside (by omega))

theorem walk_parent : walk view T' root p = some t := by
  rw [link.walk_beside single not_below link.shallow.le,link.reached]

theorem walk_child : walk view T' root (p ++ [i]) = some f :=
  walk_snoc.mpr ⟨t,link.walk_parent single,link.linked⟩

theorem walk_within (within : p ++ [i] <+: q) : walk view T' root q = some a ↔ q = p ++ [i] ∧ a = f := by
  obtain ⟨rest,rfl⟩ := within
  rw [walk_append]
  constructor
  · rintro ⟨b,first,second⟩
    cases (link.walk_child single).symm.trans first
    cases rest with
    | nil =>
        cases second
        exact ⟨append_nil _,rfl⟩
    | cons k rest =>
        obtain ⟨c,seen,_⟩ := walk_cons.mp second
        rw [link.blank k] at seen
        cases seen
  · rintro ⟨same,rfl⟩
    have none : rest = [] := append_right_eq_self.mp same
    subst none
    exact ⟨_,link.walk_child single,rfl⟩

omit single in
theorem walk_before (within : p ++ [i] <+: q) : walk view T root q = none := walk_stops link.reached link.empty within

theorem walk_cases (short : q.length ≤ depth) : walk view T' root q = some a ↔
    walk view T root q = some a ∨ q = p ++ [i] ∧ a = f := by
  by_cases within : p ++ [i] <+: q
  · rw [link.walk_within single within,link.walk_before within]
    simp
  · rw [link.walk_beside single within short]
    refine ⟨Or.inl,?_⟩
    rintro (old | ⟨rfl,_⟩)
    · exact old
    · exact absurd (prefix_refl _) within

theorem tree : Tree view T' root depth := by
  intro p' q' a short short' first second
  rcases (link.walk_cases single short).mp first with old | ⟨rfl,rfl⟩ <;>
    rcases (link.walk_cases single short').mp second with old' | ⟨rfl,new⟩
  · exact single p' q' a short short' old old'
  · exact absurd ⟨p',short,new ▸ old⟩ link.fresh
  · exact absurd ⟨q',short',old'⟩ link.fresh
  · rfl

theorem target_same (long : q.length = depth+1) : target view T' root q = target view T root q := by
  by_cases within : p ++ [i] <+: q
  · obtain ⟨rest,rfl⟩ := within
    have shallow := link.shallow
    have more : rest ≠ [] := by
      rintro rfl
      simp only [append_nil,length_append,length_singleton] at long
      omega
    rw [append_assoc,target_below (link.walk_parent single) (by simp),target_below link.reached (by simp),
      cons_append,nil_append,target,target,link.linked,link.empty]
    obtain ⟨k,rest,rfl⟩ := exists_cons_of_ne_nil more
    simp only [isEmpty_cons,Bool.or_self,Bool.false_eq_true,if_false,target,link.blank k]
  · exact target_agrees (fun _ _ same => congrArg view same) (link.reads single within (by omega))

theorem trail_beside (beside : ¬ p ++ [i] <+: q) (long : q.length ≤ depth+1) : trail view T' root q = trail view T root q :=
  (forall₂_eq_eq_eq ▸ trail_agrees (fun _ _ same => congrArg view same) (link.reads single beside long)).symm

theorem trail_same (long : q.length ≤ depth+1) (mapped : target view T root q ≠ none) :
    trail view T' root q = trail view T root q := by
  refine link.trail_beside single ?_ long
  rintro ⟨rest,rfl⟩
  rw [append_assoc,target_below link.reached (by simp),cons_append,nil_append,target,link.empty] at mapped
  exact mapped rfl

theorem trail_parent : trail view T' root p = trail view T root p := by
  exact link.trail_beside single not_below (by have := link.shallow; omega)

end Link

end RadixTables
