import Mathlib

namespace TurnOrder

section ring
variable {α : Type} [DecidableEq α] {awake : α → Prop} {q q' ran : List α} {a b x : α}

-- One turn in a ring: the first that is awake takes it, those before it go to the back, and
-- it goes behind them or leaves.
inductive Turn (awake : α → Prop) (q : List α) (x : α) (q' : List α) : Prop where
  | mk (skipped rest tail : List α) (split : q = skipped ++ x :: rest) (asleep : ∀ y ∈ skipped, ¬ awake y)
      (last : tail = [x] ∨ tail = []) (after : q' = rest ++ skipped ++ tail)

def Ahead (a b : α) (q : List α) : Prop := q.idxOf a < q.idxOf b

theorem ahead_member (ahead : Ahead a b q) : a ∈ q :=
  List.idxOf_lt_length_iff.mp (Nat.lt_of_lt_of_le ahead List.idxOf_le_length)

theorem ahead_total (different : a ≠ b) (member : a ∈ q) : Ahead a b q ∨ Ahead b a q := by
  rcases Nat.lt_trichotomy (q.idxOf a) (q.idxOf b) with less | equal | greater
  · exact Or.inl less
  · exact absurd ((List.idxOf_inj member).mp equal) different
  · exact Or.inr greater

theorem ahead_absent (member : a ∈ q) (absent : b ∉ q) : Ahead a b q := by
  unfold Ahead
  rw [List.idxOf_eq_length absent]
  exact List.idxOf_lt_length_iff.mpr member

theorem ahead_append (ahead : Ahead a b q) (tail : List α) : Ahead a b (q ++ tail) := by
  unfold Ahead at ahead ⊢
  rw [List.idxOf_append_of_mem (ahead_member ahead),List.idxOf_append]
  split
  · exact ahead
  · have bound : q.idxOf a < q.length := List.idxOf_lt_length_iff.mpr (ahead_member ahead)
    omega

theorem turn_shift (turn : Turn awake q x q') :
    ∃ k, q.idxOf x < k ∧ ∀ a ∈ q, awake a → a ≠ x → a ∈ q' ∧ q.idxOf a = k+q'.idxOf a := by
  obtain ⟨skipped,rest,tail,rfl,asleep,_,rfl⟩ := turn
  refine ⟨skipped.length+1,?_,?_⟩
  · rw [List.idxOf_append]
    split
    · next member =>
        have bound := List.idxOf_lt_length_iff.mpr member
        omega
    · rw [List.idxOf_cons_self]
      omega
  · intro a member wakes other
    have unskipped : a ∉ skipped := fun parked => asleep a parked wakes
    have waits : a ∈ rest := by
      rcases List.mem_append.mp member with parked | later
      · exact absurd parked unskipped
      · exact (List.mem_cons.mp later).resolve_left other
    refine ⟨List.mem_append_left _ (List.mem_append_left _ waits),?_⟩
    rw [List.append_assoc,List.idxOf_append_of_mem waits,List.idxOf_append_of_notMem unskipped,List.idxOf_cons_ne _ (Ne.symm other)]
    omega

theorem turn_first (turn : Turn awake q x q') (member : a ∈ q) (wakes : awake a) (other : a ≠ x) : Ahead x a q := by
  obtain ⟨k,bound,shift⟩ := turn_shift turn
  have place := (shift a member wakes other).2
  unfold Ahead
  omega

theorem turn_behind (once : q.Nodup) (turn : Turn awake q x q') (member : a ∈ q) (wakes : awake a) (other : a ≠ x) : Ahead a x q' := by
  obtain ⟨skipped,rest,tail,rfl,asleep,_,rfl⟩ := turn
  have waits : a ∈ rest := by
    rcases List.mem_append.mp member with parked | later
    · exact absurd wakes (asleep a parked)
    · exact (List.mem_cons.mp later).resolve_left other
  have gone : x ∉ rest := (List.nodup_cons.mp (List.nodup_append.mp once).2.1).1
  have bound := List.idxOf_lt_length_iff.mpr waits
  unfold Ahead
  rw [List.append_assoc,List.idxOf_append_of_mem waits,List.idxOf_append_of_notMem gone]
  omega

-- Two that are both awake take turns: who is ahead in the ring is not ahead in turns.
def Alternating (a b : α) (ran q : List α) : Prop :=
  Ahead a b q ∧ (ran.count b = ran.count a ∨ ran.count b = ran.count a+1) ∨
  Ahead b a q ∧ (ran.count a = ran.count b ∨ ran.count a = ran.count b+1)

theorem alternating_symm (alternating : Alternating a b ran q) : Alternating b a ran q := Or.symm alternating

theorem alternating_start (different : a ≠ b) (member : a ∈ q) : Alternating a b [] q := by
  rcases ahead_total different member with first | second
  · exact Or.inl ⟨first,Or.inl rfl⟩
  · exact Or.inr ⟨second,Or.inl rfl⟩

theorem alternating_append (alternating : Alternating a b ran q) (tail : List α) : Alternating a b ran (q ++ tail) := by
  rcases alternating with ⟨ahead,counts⟩ | ⟨ahead,counts⟩
  · exact Or.inl ⟨ahead_append ahead tail,counts⟩
  · exact Or.inr ⟨ahead_append ahead tail,counts⟩

theorem alternating_counts (alternating : Alternating a b ran q) :
    ran.count a ≤ ran.count b+1 ∧ ran.count b ≤ ran.count a+1 := by
  rcases alternating with ⟨_,counts⟩ | ⟨_,counts⟩ <;> omega

theorem alternating_own (once : q.Nodup) (turn : Turn awake q a q') (different : a ≠ b) (member : b ∈ q) (wakes : awake b)
    (alternating : Alternating a b ran q) : Alternating a b (ran ++ [a]) q' := by
  have front := turn_first turn member wakes (Ne.symm different)
  have back := turn_behind once turn member wakes (Ne.symm different)
  rcases alternating with ⟨_,counts⟩ | ⟨behind,_⟩
  · refine Or.inr ⟨back,?_⟩
    rw [List.count_append,List.count_append,List.count_singleton_self,List.count_singleton,beq_eq_false_iff_ne.mpr different]
    simp only [Bool.false_eq_true,if_false]
    omega
  · exact absurd front (Nat.lt_asymm behind)

theorem alternating_turn (once : q.Nodup) (turn : Turn awake q x q') (different : a ≠ b) (left : a ∈ q) (right : b ∈ q)
    (wakes : awake a) (wakes' : awake b) (alternating : Alternating a b ran q) : Alternating a b (ran ++ [x]) q' := by
  by_cases first : x = a
  · subst first
    exact alternating_own once turn different right wakes' alternating
  by_cases second : x = b
  · subst second
    exact alternating_symm (alternating_own once turn (Ne.symm different) left wakes (alternating_symm alternating))
  obtain ⟨k,_,shift⟩ := turn_shift turn
  obtain ⟨_,place⟩ := shift a left wakes (Ne.symm first)
  obtain ⟨_,place'⟩ := shift b right wakes' (Ne.symm second)
  unfold Alternating Ahead at alternating ⊢
  rw [List.count_append,List.count_append,List.count_singleton,List.count_singleton,beq_eq_false_iff_ne.mpr first,
    beq_eq_false_iff_ne.mpr second]
  simp only [Bool.false_eq_true,if_false]
  omega

end ring

section backlog
variable {α : Type} [DecidableEq α] {q tail : List α} {a u x : α} {room room' : α → ℕ}

theorem idxOf_erase (member : x ∈ q) (other : u ≠ x) :
    (q.erase x).idxOf u+(if q.idxOf x < q.idxOf u then 1 else 0) = q.idxOf u := by
  induction q with
  | nil => cases member
  | cons y q ih =>
      by_cases own : y = x
      · subst own
        rw [List.erase_cons_head,List.idxOf_cons_self,List.idxOf_cons_ne _ (Ne.symm other),if_pos (Nat.succ_pos _)]
      have later : x ∈ q := (List.mem_cons.mp member).resolve_left (Ne.symm own)
      rw [List.erase_cons_tail (beq_eq_false_iff_ne.mpr own ▸ Bool.false_ne_true)]
      by_cases first : y = u
      · subst first
        simp
      · rw [List.idxOf_cons_ne _ first,List.idxOf_cons_ne _ first,List.idxOf_cons_ne _ own]
        simp only [Nat.succ_lt_succ_iff]
        have rest := ih later
        omega

theorem ahead_erase (ahead : Ahead a u q) (first : a ≠ x) (second : u ≠ x) : Ahead a u (q.erase x) := by
  by_cases member : x ∈ q
  · have place := idxOf_erase member first
    have place' := idxOf_erase member second
    have apart : q.idxOf a ≠ q.idxOf x := fun equal => first ((List.idxOf_inj (ahead_member ahead)).mp equal)
    unfold Ahead at ahead ⊢
    split at place <;> split at place' <;> omega
  · rw [List.erase_of_not_mem member]
    exact ahead

theorem ahead_back (once : q.Nodup) (member : a ∈ q) (other : a ≠ x) : Ahead a x (q.erase x ++ [x]) := by
  have stays : a ∈ q.erase x := (List.mem_erase_of_ne other).mpr member
  have bound := List.idxOf_lt_length_iff.mpr stays
  unfold Ahead
  rw [List.idxOf_append_of_mem stays,List.idxOf_append_of_notMem once.not_mem_erase]
  omega

-- How many turns the others can take before `u` when each of them gives up one unit of its
-- room for a turn, or its place ahead of `u`.
def backlog (room : α → ℕ) (u : α) (q : List α) : ℕ := (q.map room).sum+q.idxOf u

theorem backlog_turn (once : q.Nodup) (member : x ∈ q) (waits : u ∈ q) (other : u ≠ x)
    (same : ∀ a ∈ q, a ≠ x → room' a = room a)
    (pays : (tail.map room').sum+1 ≤ room x+if q.idxOf x < q.idxOf u then 1 else 0) :
    backlog room' u (q.erase x ++ tail)+1 ≤ backlog room u q := by
  have place := idxOf_erase member other
  have stays : u ∈ q.erase x := (List.mem_erase_of_ne other).mpr waits
  have rest : (q.erase x).map room' = (q.erase x).map room := by
    apply List.map_congr_left
    intro a listed
    exact same a (List.mem_of_mem_erase listed) (List.Nodup.mem_erase_iff once |>.mp listed).1
  have total : (q.map room).sum = room x+((q.erase x).map room).sum := by
    rw [((List.perm_cons_erase member).map room).sum_eq,List.map_cons,List.sum_cons]
  unfold backlog
  rw [List.map_append,List.sum_append,rest,List.idxOf_append_of_mem stays,total]
  omega

theorem backlog_bound (member : u ∈ q) (own : room u = 0) : backlog room u q ≤ ((q.erase u).map fun a => room a+1).sum := by
  have total : (q.map room).sum = ((q.erase u).map room).sum := by
    rw [((List.perm_cons_erase member).map room).sum_eq,List.map_cons,List.sum_cons,own,Nat.zero_add]
  have place : q.idxOf u ≤ (q.erase u).length := by
    have bound := List.idxOf_lt_length_iff.mpr member
    rw [List.length_erase_of_mem member]
    omega
  unfold backlog
  rw [total,List.sum_map_add,List.map_const',List.sum_replicate_nat,Nat.mul_one]
  omega

end backlog
end TurnOrder
