import Mathlib

namespace ByteMemory

abbrev Word := BitVec 64

abbrev Memory := Word → BitVec 8

-- The bytes from `base` on, `n` of them; addresses wrap.
def Within (a base : Word) (n : ℕ) : Prop := (a-base).toNat < n

instance (a base : Word) (n : ℕ) : Decidable (Within a base n) := inferInstanceAs (Decidable (_ < _))

def Apart (p : Word) (m : ℕ) (q : Word) (n : ℕ) : Prop := ∀ a, Within a p m → ¬ Within a q n

def writeBytes (mem : Memory) (p : Word) (n : ℕ) (bytes : ℕ → BitVec 8) : Memory :=
  fun a => if (a-p).toNat < n then bytes (a-p).toNat else mem a

def write64 (mem : Memory) (p v : Word) : Memory := writeBytes mem p 8 fun i => v.extractLsb' (8*i) 8

def write32 (mem : Memory) (p : Word) (v : BitVec 32) : Memory := writeBytes mem p 4 fun i => v.extractLsb' (8*i) 8

-- Little-endian: bit `i` of the word is bit `i % 8` of byte `i / 8`.
def read64 (mem : Memory) (p : Word) : Word :=
  BitVec.ofFnLE fun i : Fin 64 => (mem (p+BitVec.ofNat 64 (i.val / 8))).getLsbD (i.val % 8)

section bytes
variable {mem mem' : Memory}

theorem writeBytes_outside (outside : ¬ Within a p n) : writeBytes mem p n bytes a = mem a := if_neg outside

theorem write64_outside (outside : ¬ Within a p 8) : write64 mem p v a = mem a := if_neg outside

theorem write32_outside (outside : ¬ Within a p 4) : write32 mem p v a = mem a := if_neg outside

theorem offset_cancel (p : Word) (small : k < 2^64) : (p+BitVec.ofNat 64 k-p).toNat = k := by
  have cancel : p+BitVec.ofNat 64 k-p = BitVec.ofNat 64 k := by bv_omega
  rw [cancel,BitVec.toNat_ofNat,Nat.mod_eq_of_lt small]

theorem within_offset (p : Word) (small : k < n) (fits : n ≤ 2^64) : Within (p+BitVec.ofNat 64 k) p n := by
  unfold Within
  rw [offset_cancel p (by omega)]
  exact small

theorem read64_bit (mem : Memory) (p : Word) (bound : i < 64) :
    (read64 mem p).getLsbD i = (mem (p+BitVec.ofNat 64 (i / 8))).getLsbD (i % 8) := by
  unfold read64
  rw [BitVec.getLsbD_ofFnLE,dif_pos bound]

theorem read64_congr (same : ∀ a, Within a p 8 → mem' a = mem a) : read64 mem' p = read64 mem p := by
  apply BitVec.eq_of_getLsbD_eq
  intro i bound
  rw [read64_bit mem' p bound,read64_bit mem p bound,same _ (within_offset p (by omega) (by decide))]

theorem read64_written (mem : Memory) (p v : Word) : read64 (write64 mem p v) p = v := by
  apply BitVec.eq_of_getLsbD_eq
  intro i bound
  have byte : i / 8 < 8 := by omega
  have there := offset_cancel p (Nat.lt_trans byte (by decide))
  rw [read64_bit _ p bound,write64,writeBytes,there,if_pos byte,BitVec.getLsbD_extractLsb']
  have rejoin : 8*(i / 8)+i % 8 = i := by omega
  have low : i % 8 < 8 := by omega
  simp [rejoin,low]

end bytes

attribute [irreducible] read64

section ranges
variable {a p q : Word} {k m n : ℕ}

theorem within_sub (inside : Within a (p+BitVec.ofNat 64 k) m) (least : k+m ≤ n) (fits : n ≤ 2^64) : Within a p n := by
  unfold Within at inside ⊢
  bv_omega

theorem within_offset_iff (fits : k+n ≤ 2^64) :
    Within a (p+BitVec.ofNat 64 k) n ↔ k ≤ (a-p).toNat ∧ (a-p).toNat < k+n := by
  have shift : a-(p+BitVec.ofNat 64 k) = a-p-BitVec.ofNat 64 k := by bv_omega
  unfold Within
  rw [shift]
  generalize a-p = d
  bv_omega

theorem apart_symm (apart : Apart p m q n) : Apart q n p m := fun a right left => apart a left right

theorem apart_sub (apart : Apart p m q n) (least : k+l ≤ m) (fits : m ≤ 2^64) : Apart (p+BitVec.ofNat 64 k) l q n :=
  fun a left => apart a (within_sub left least fits)

def Separate (x y : Word × ℕ) : Prop :=
  x.1.toNat+x.2 ≤ y.1.toNat ∧ y.1.toNat+y.2 ≤ 2^64 ∨ y.1.toNat+y.2 ≤ x.1.toNat ∧ x.1.toNat+x.2 ≤ 2^64

instance (x y : Word × ℕ) : Decidable (Separate x y) := inferInstanceAs (Decidable (_ ∨ _))

theorem separate_apart (separate : Separate (p,m) (q,n)) : Apart p m q n := by
  intro a left right
  unfold Within at left right
  unfold Separate at separate
  bv_omega

theorem read64_kept (apart : Apart p 8 q 8) (mem : Memory) (v : Word) : read64 (write64 mem q v) p = read64 mem p :=
  read64_congr fun a inside => write64_outside (apart a inside)

end ranges

def Holds (mem : Memory) : Word → List Word → Prop
  | _,[] => True
  | p,v :: vs => read64 mem p = v ∧ Holds mem (p+8) vs

def writeWords (mem : Memory) : Word → List Word → Memory
  | _,[] => mem
  | p,v :: vs => writeWords (write64 mem p v) (p+8) vs

section words
variable {mem mem' : Memory} {p : Word} {vs : List Word}

theorem holds_congr (held : Holds mem p vs) (fits : 8*vs.length ≤ 2^64)
    (same : ∀ a, Within a p (8*vs.length) → mem' a = mem a) : Holds mem' p vs := by
  induction vs generalizing p with
  | nil => trivial
  | cons v vs ih =>
      rw [List.length_cons] at fits same
      refine ⟨?_,ih held.2 (by omega) ?_⟩
      · rw [← held.1]
        apply read64_congr
        intro a inside
        apply same
        unfold Within at inside ⊢
        omega
      · intro a inside
        exact same a (within_sub (k:=8) inside (by omega) fits)

theorem holds_get (held : Holds mem p vs) (found : vs[k]? = some v) : read64 mem (p+BitVec.ofNat 64 (8*k)) = v := by
  induction vs generalizing p k with
  | nil => cases found
  | cons w vs ih =>
      cases k with
      | zero =>
          cases found
          rw [Nat.mul_zero,BitVec.add_zero]
          exact held.1
      | succ k =>
          have there := ih held.2 found
          have address : p+8+BitVec.ofNat 64 (8*k) = p+BitVec.ofNat 64 (8*(k+1)) := by bv_omega
          rwa [address] at there

theorem holds_take (held : Holds mem p (us ++ vs)) : Holds mem p us := by
  induction us generalizing p with
  | nil => trivial
  | cons u us ih => exact ⟨held.1,ih held.2⟩

theorem holds_drop (held : Holds mem p (us ++ vs)) : Holds mem (p+BitVec.ofNat 64 (8*us.length)) vs := by
  induction us generalizing p with
  | nil =>
      rw [List.length_nil,Nat.mul_zero,BitVec.add_zero]
      exact held
  | cons u us ih =>
      have rest := ih held.2
      have address : p+8+BitVec.ofNat 64 (8*us.length) = p+BitVec.ofNat 64 (8*(us.length+1)) := by bv_omega
      rwa [address] at rest

theorem writeWords_outside (fits : 8*vs.length ≤ 2^64) (outside : ¬ Within a p (8*vs.length)) :
    writeWords mem p vs a = mem a := by
  induction vs generalizing mem p with
  | nil => rfl
  | cons v vs ih =>
      rw [List.length_cons] at fits outside
      have tail : ¬ Within a (p+8) (8*vs.length) := fun inside => outside (within_sub (k:=8) inside (by omega) fits)
      rw [writeWords,ih (by omega) tail,write64_outside]
      intro inside
      apply outside
      unfold Within at inside ⊢
      omega

theorem writeWords_holds (mem : Memory) (p : Word) (fits : 8*vs.length ≤ 2^64) : Holds (writeWords mem p vs) p vs := by
  induction vs generalizing mem p with
  | nil => trivial
  | cons v vs ih =>
      rw [List.length_cons] at fits
      refine ⟨?_,ih _ _ (by omega)⟩
      refine (read64_congr ?_).trans (read64_written mem p v)
      intro a inside
      rw [writeWords]
      apply writeWords_outside (by omega)
      intro later
      unfold Within at inside later
      bv_omega

theorem holds_push (held : Holds mem p vs) (fits : 8*(vs.length+1) ≤ 2^64) : Holds (write64 mem (p-8) v) (p-8) (v :: vs) := by
  have back : p-8+8 = p := by bv_omega
  refine ⟨read64_written _ _ _,?_⟩
  rw [back]
  refine holds_congr held (by omega) ?_
  intro a inside
  apply write64_outside
  intro below
  unfold Within at inside below
  bv_omega

end words
end ByteMemory
