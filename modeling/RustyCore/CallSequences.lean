import Mathlib

namespace CallSequences

variable {σ τ α : Type*} {call : σ → Option α × σ} {s : σ}

def answer (call : σ → Option α × σ) : ℕ → σ → Option α
  | 0,s => (call s).1
  | k+1,s => answer call k (call s).2

def Enumerates (call : σ → Option α × σ) (s : σ) (list : List α) : Prop := ∀ k, answer call k s = list[k]?

-- To enumerate, a call takes the head off what is pending; an empty list stays empty.
theorem enumerates_pending {inv : σ → Prop} {pending : σ → List α}
    (each : ∀ s, inv s → (call s).1 = (pending s).head? ∧ pending (call s).2 = (pending s).tail ∧ inv (call s).2)
    (now : inv s) : Enumerates call s (pending s) := by
  intro k
  induction k generalizing s with
  | zero =>
      rw [answer,(each s now).1]
      exact List.head?_eq_getElem?
  | succ k ih =>
      obtain ⟨_,later,kept⟩ := each s now
      rw [answer,ih kept,later,List.getElem?_tail]

theorem enumerates_unique (one : Enumerates call s list) (two : Enumerates call s list') : list = list' :=
  List.ext_getElem? fun k => (one k).symm.trans (two k)

theorem enumerates_mem (enumerates : Enumerates call s list) : (∃ k, answer call k s = some x) ↔ x ∈ list := by
  rw [List.mem_iff_getElem?]
  exact exists_congr fun k => by rw [enumerates k]

theorem answer_simulates {call' : τ → Option α × τ} {related : σ → τ → Prop} {t : τ}
    (each : ∀ s t, related s t → (call s).1 = (call' t).1 ∧ related (call s).2 (call' t).2) (now : related s t) (k : ℕ) :
    answer call k s = answer call' k t := by
  induction k generalizing s t with
  | zero => exact (each s t now).1
  | succ k ih => exact ih (each s t now).2

end CallSequences
