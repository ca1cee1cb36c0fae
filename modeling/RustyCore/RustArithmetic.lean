import Mathlib

namespace RustyCore

-- What ends a call without a result: a panic with its message, the `hlt` loop after
-- a logged failure, or a loop that outlives its fuel.
inductive Fault where
  | panicked (message : String)
  | halted (message : String)
  | diverged
  deriving DecidableEq, Repr

-- The two profiles of `Cargo.toml`: `dev` keeps debug assertions and overflow checks,
-- `release` sets `overflow-checks = false`.
inductive Profile where
  | dev
  | release
  deriving DecidableEq, Repr

theorem ok_bind (value : α) (next : α → Except ε β) : (Except.ok value >>= next) = next value := rfl

theorem bind_ok {value : Except ε α} {next : α → Except ε β} (ran : value >>= next = .ok result) :
    ∃ produced, value = .ok produced ∧ next produced = .ok result := by
  cases value with
  | error fault => cases ran
  | ok produced => exact ⟨produced,rfl,ran⟩

theorem ran_any {value : Except ε α} {check : α → Bool} (checked : value.toOption.any check = true) :
    ∃ produced, value = .ok produced ∧ check produced = true := by
  cases value with
  | error fault => cases checked
  | ok produced => exact ⟨produced,rfl,checked⟩

def U64_MAX : ℕ := 2^64-1

namespace Profile

def overflow (p : Profile) (message : String) (wrapped : ℕ) : Except Fault ℕ :=
  match p with
  | .dev => .error (.panicked message)
  | .release => .ok wrapped

def add (p : Profile) (a b : ℕ) : Except Fault ℕ :=
  if a+b < 2^64 then .ok (a+b)
  else p.overflow "attempt to add with overflow" ((a+b) % 2^64)

def sub (p : Profile) (a b : ℕ) : Except Fault ℕ :=
  if b ≤ a then .ok (a-b)
  else p.overflow "attempt to subtract with overflow" (a+2^64-b)

def mul (p : Profile) (a b : ℕ) : Except Fault ℕ :=
  if a*b < 2^64 then .ok (a*b)
  else p.overflow "attempt to multiply with overflow" (a*b % 2^64)

def nextMultipleOf (p : Profile) (a n : ℕ) : Except Fault ℕ :=
  if a % n = 0 then .ok a else p.add a (n-a % n)

-- `debug_assert!`: compiled out of the release profile.
def debugAssert (p : Profile) (condition : Bool) (message : String) : Except Fault Unit :=
  match p with
  | .dev => if condition then .ok () else .error (.panicked message)
  | .release => .ok ()

theorem add_small (fits : a+b < 2^64) : add p a b = .ok (a+b) := by
  simp only [add,fits,if_true]

theorem add_wraps (added : add p a b = .ok c) : c = (a+b) % 2^64 := by
  unfold add at added
  split at added
  · next fits =>
      cases added
      exact (Nat.mod_eq_of_lt fits).symm
  · cases p <;> cases added
    rfl

theorem add_checked (added : add .dev a b = .ok c) : a+b < 2^64 ∧ c = a+b := by
  unfold add at added
  split at added
  · next fits =>
      cases added
      exact ⟨fits,rfl⟩
  · cases added

theorem add_overflow (failed : add p a b = .error fault) : p = .dev ∧ 2^64 ≤ a+b := by
  unfold add at failed
  split at failed
  · cases failed
  · next large =>
      cases p with
      | dev => exact ⟨rfl,Nat.not_lt.mp large⟩
      | release => cases failed

theorem add_returns (fits : p = .dev → a+b < 2^64) : add p a b = .ok ((a+b) % 2^64) := by
  unfold add
  split
  · next small => rw [Nat.mod_eq_of_lt small]
  · next large =>
      cases p with
      | dev => exact absurd (fits rfl) large
      | release => rfl

theorem add_panics (large : 2^64 ≤ a+b) : add .dev a b = .error (.panicked "attempt to add with overflow") :=
  if_neg (Nat.not_lt.mpr large)

theorem sub_small (fits : b ≤ a) : sub p a b = .ok (a-b) := by
  simp only [sub,fits,if_true]

theorem sub_cases (ran : sub p a b = .ok c) : b ≤ a ∧ c = a-b ∨ a < b ∧ c = a+2^64-b := by
  unfold sub at ran
  split at ran
  · next fits =>
      cases ran
      exact Or.inl ⟨fits,rfl⟩
  · next small =>
      cases p <;> cases ran
      exact Or.inr ⟨Nat.not_le.mp small,rfl⟩

theorem mul_small (fits : a*b < 2^64) : mul p a b = .ok (a*b) := by
  simp only [mul,fits,if_true]

theorem debugAssert_true (p : Profile) (message : String) (holds : condition = true) : debugAssert p condition message = .ok () := by
  cases p <;> simp [debugAssert,holds]

end Profile

def assert (condition : Bool) (message : String) : Except Fault Unit :=
  if condition then .ok () else .error (.panicked message)

def checkedAdd (a b : ℕ) : Option ℕ := if a+b < 2^64 then some (a+b) else none

def checkedMul (a b : ℕ) : Option ℕ := if a*b < 2^64 then some (a*b) else none

def checkedNextMultipleOf (a n : ℕ) : Option ℕ :=
  if a % n = 0 then some a else checkedAdd a (n-a % n)

theorem checkedMul_iff : checkedMul a b = some c ↔ a*b = c ∧ c < 2^64 := by
  unfold checkedMul
  split
  · next fits =>
      rw [Option.some.injEq]
      exact ⟨fun equal => ⟨equal,equal ▸ fits⟩,And.left⟩
  · next large =>
      constructor
      · exact fun refused => by cases refused
      · rintro ⟨rfl,fits⟩
        exact absurd fits large

def alignUp (a n : ℕ) : ℕ := if a % n = 0 then a else a+(n-a % n)

theorem alignUp_ge (a n : ℕ) : a ≤ alignUp a n := by
  unfold alignUp
  split <;> omega

theorem alignUp_lt (positive : 0 < n) : alignUp a n < a+n := by
  unfold alignUp
  split <;> omega

theorem alignUp_dvd (positive : 0 < n) : n ∣ alignUp a n := by
  unfold alignUp
  split
  · rename_i aligned
    exact Nat.dvd_of_mod_eq_zero aligned
  · have below := Nat.mod_lt a positive
    have split := Nat.div_add_mod a n
    refine ⟨a / n+1,?_⟩
    rw [Nat.mul_add_one]
    omega

theorem alignUp_least (aligned : n ∣ b) (above : a ≤ b) : alignUp a n ≤ b := by
  unfold alignUp
  split
  · exact above
  · rename_i rest
    obtain ⟨q,rfl⟩ := aligned
    rcases Nat.eq_zero_or_pos n with rfl | positive
    · simp_all
    have below := Nat.mod_lt a positive
    have split := Nat.div_add_mod a n
    have step : n*(a / n+1) ≤ n*q := by
      apply Nat.mul_le_mul_left
      by_contra short
      have bound : n*q ≤ n*(a / n) := Nat.mul_le_mul_left _ (by omega)
      omega
    rw [Nat.mul_add_one] at step
    omega

theorem alignUp_aligned (aligned : n ∣ a) : alignUp a n = a := by
  simp [alignUp,Nat.mod_eq_zero_of_dvd aligned]

theorem checkedNext_exact : checkedNextMultipleOf a n = some b ↔
    alignUp a n = b ∧ (n ∣ a ∨ b < 2^64) := by
  unfold checkedNextMultipleOf checkedAdd alignUp
  split
  · rename_i aligned
    simp [Nat.dvd_of_mod_eq_zero aligned]
  · rename_i unaligned
    have irregular : ¬ n ∣ a := fun aligned => unaligned (Nat.mod_eq_zero_of_dvd aligned)
    split
    · rename_i fits
      simp only [Option.some.injEq,irregular,false_or]
      constructor
      · intro equal; exact ⟨equal,equal ▸ fits⟩
      · exact And.left
    · rename_i large
      simp only [irregular,false_or,reduceCtorEq,false_iff]
      rintro ⟨equal,bound⟩
      exact large (equal ▸ bound)

theorem nextMultipleOf_small (fits : alignUp a n < 2^64) :
    Profile.nextMultipleOf p a n = .ok (alignUp a n) := by
  unfold Profile.nextMultipleOf
  unfold alignUp at fits ⊢
  split
  · rfl
  · rename_i unaligned
    rw [if_neg unaligned] at fits
    exact Profile.add_small fits

theorem nextMultipleOf_checked (word : a < 2^64) (ran : Profile.nextMultipleOf .dev a n = .ok b) : alignUp a n < 2^64 := by
  unfold Profile.nextMultipleOf at ran
  unfold alignUp
  split at ran
  · next aligned => rwa [if_pos aligned]
  · next unaligned =>
      rw [if_neg unaligned]
      exact (Profile.add_checked ran).1

end RustyCore
