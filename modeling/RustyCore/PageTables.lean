import RustyCore.RadixTables

namespace PageTables
open RadixTables List Function

abbrev Entry := BitVec 64
abbrev Flags := BitVec 64

def PRESENT : Flags := 0x1#64
def WRITABLE : Flags := 0x2#64
def USER_ACCESSIBLE : Flags := 0x4#64
def NO_CACHE : Flags := 0x10#64
def HUGE_PAGE : Flags := 0x80#64
def NO_EXECUTE : Flags := 0x8000000000000000#64
def ADDRESS : BitVec 64 := 0x000FFFFFFFFFF000#64

def has (e : Entry) (flags : Flags) : Bool := e &&& flags == flags
def isUnused (e : Entry) : Bool := e == 0#64
def addrOf (e : Entry) : ℕ := (e &&& ADDRESS).toNat
def entry (frame : ℕ) (flags : Flags) : Entry := BitVec.ofNat 64 frame ||| flags

-- What the processor takes an entry for. At the last level every present entry is a page.
def view (e : Entry) : Option (ℕ × Bool) := if has e PRESENT then some (addrOf e,has e HUGE_PAGE) else none

abbrev Tables := RadixTables.Tables ℕ ℕ Entry

def path (virt : ℕ) : List ℕ := [virt / 2^39 % 512,virt / 2^30 % 512,virt / 2^21 % 512,virt / 2^12 % 512]

-- The processor's walk. Bit 7 of an entry of the root is reserved and faults.
def translate (T : Tables) (root virt : ℕ) : Option ℕ :=
  match target view T root (path virt) with
  | some (base,below) => if below < 3 then some (base-base % 2^(12+9*below)+virt % 2^(12+9*below)) else none
  | none => none

theorem translate_same (same : target view T' root (path virt) = target view T root (path virt)) :
    translate T' root virt = translate T root virt := by
  simp only [translate,same]

def writable (entries : List Entry) : Bool := entries.all (has · WRITABLE)
def userAccessible (entries : List Entry) : Bool := entries.all (has · USER_ACCESSIBLE)
def executable (entries : List Entry) : Bool := entries.all (!has · NO_EXECUTE)

def Canonical (virt : ℕ) : Prop := virt < 2^47 ∨ 2^64-2^47 ≤ virt ∧ virt < 2^64

instance : DecidablePred Canonical := fun _ => inferInstanceAs (Decidable (_ ∨ _))

theorem path_page (left : Canonical v) (right : Canonical w) : path v = path w ↔ v / 2^12 = w / 2^12 := by
  unfold Canonical at left right
  unfold path
  simp only [cons.injEq,and_true]
  omega

def pagesFrom (first left : ℕ) : List ℕ := (range left).map fun k => first+4096*k

inductive MapToError where
  | frameAllocationFailed
  | parentEntryHugePage
  | pageAlreadyMapped (frame : ℕ)
  deriving DecidableEq, Repr

-- What a kernel takes from the crate that edits its page tables: addresses, the answers of the iterator over a range of pages,
-- and a mapper, which is handed its caller's allocator of frames. Any call may panic.
structure Paging (ε : Type) : Type 1 where
  virtAddrNew : ℕ → Except ε ℕ
  virtAddrAdd : ℕ → ℕ → Except ε ℕ
  rangeInclusive : ℕ → ℕ → List (Except ε ℕ)
  mapTo : {α : Type} → (α → Except ε (Option ℕ × α)) → (root virt frame : ℕ) → Flags → Tables → α →
    Except ε (Except MapToError Unit × Tables × α)
  translateAddr : Tables → (root virt : ℕ) → Except ε (Option ℕ)

-- The flags a mapping hands on to the tables above it.
def parentFlags (flags : Flags) : Flags := flags &&& (PRESENT ||| WRITABLE ||| USER_ACCESSIBLE)

section entries
variable {e : Entry} {flags g : Flags} {frame : ℕ}

theorem frame_word (aligned : frame % 4096 = 0) (small : frame < 2^52) : BitVec.ofNat 64 frame &&& ADDRESS = BitVec.ofNat 64 frame := by
  apply BitVec.eq_of_toNat_eq
  have mask : ADDRESS.toNat = 2^52-1-(2^12-1) := by decide
  rw [BitVec.toNat_and,BitVec.toNat_ofNat,Nat.mod_eq_of_lt (by omega)]
  apply Nat.eq_of_testBit_eq
  intro k
  rw [Nat.testBit_and]
  by_cases low : k < 12
  · have off : frame.testBit k = false := by
      obtain ⟨q,rfl⟩ := Nat.dvd_of_mod_eq_zero aligned
      rw [show 4096*q = 2^12*q by norm_num,Nat.testBit_two_pow_mul]
      simp [low]
    rw [off,Bool.false_and]
  · by_cases high : 52 ≤ k
    · rw [Nat.testBit_lt_two_pow (lt_of_lt_of_le small (Nat.pow_le_pow_right (by norm_num) high)),Bool.false_and]
    · have bit : ADDRESS.toNat.testBit k = true := by
        have below : k < 52 := by omega
        have above : 12 ≤ k := by omega
        interval_cases k <;> decide
      rw [bit,Bool.and_true]

theorem has_iff : has e g = true ↔ e &&& g = g := by
  simp [has]

theorem has_or (held : has e g = true) : has (e ||| flags) g = true := by
  rw [has_iff] at held ⊢
  rw [BitVec.and_comm,BitVec.and_or_distrib_left,BitVec.and_comm g e,held]
  ext k
  simp +contextual

theorem has_sub (held : has e flags = true) (within : has flags g = true) : has e g = true := by
  rw [has_iff] at held within ⊢
  rw [← within,← BitVec.and_assoc,held]

theorem or_held (held : has e g = true) : e ||| g = e := by
  rw [has_iff] at held
  rw [← held]
  ext k
  simp +contextual

theorem has_inserted : has (e ||| g) g = true := by
  rw [has_iff]
  ext k
  simp +contextual

theorem has_or_apart (apart : flags &&& g = 0) : has (e ||| flags) g = has e g := by
  have same : (e ||| flags) &&& g = e &&& g := by
    rw [BitVec.and_comm,BitVec.and_or_distrib_left,BitVec.and_comm g flags,apart,BitVec.and_comm g e]
    simp
  rw [has,has,same]

theorem addr_aligned : addrOf e % 4096 = 0 := by
  apply Nat.eq_of_testBit_eq
  intro k
  rw [show 4096 = 2^12 by norm_num,Nat.testBit_mod_two_pow,addrOf,BitVec.toNat_and,Nat.testBit_and]
  by_cases low : k < 12
  · have off : ADDRESS.toNat.testBit k = false := by interval_cases k <;> decide
    simp [off]
  · simp [low]

theorem addr_or (apart : flags &&& ADDRESS = 0) : addrOf (e ||| flags) = addrOf e := by
  rw [addrOf,addrOf,BitVec.and_comm,BitVec.and_or_distrib_left,BitVec.and_comm ADDRESS flags,apart,BitVec.and_comm ADDRESS e]
  simp

variable (aligned : frame % 4096 = 0) (small : frame < 2^52)
include aligned small

theorem addr_entry (apart : flags &&& ADDRESS = 0) : addrOf (entry frame flags) = frame := by
  rw [entry,addr_or apart,addrOf,frame_word aligned small,BitVec.toNat_ofNat,Nat.mod_eq_of_lt (by omega)]

theorem has_entry (apart : g &&& ADDRESS = 0) : has (entry frame flags) g = has flags g := by
  have outside : BitVec.ofNat 64 frame &&& g = 0 := by
    rw [← frame_word aligned small,BitVec.and_assoc,BitVec.and_comm ADDRESS g,apart]
    simp
  rw [entry,BitVec.or_comm]
  exact has_or_apart outside

end entries

structure PageFlags (flags : Flags) : Prop where
  apart : flags &&& ADDRESS = 0
  present : has flags PRESENT = true
  small : flags &&& HUGE_PAGE = 0

theorem unused_view (unused : isUnused e = true) : view e = none := by
  rw [isUnused,beq_iff_eq] at unused
  subst unused
  decide

theorem entry_view {flags : Flags} (legal : PageFlags flags) (aligned : frame % 4096 = 0) (small : frame < 2^52) :
    view (entry frame flags) = some (frame,false) := by
  have present : has (entry frame flags) PRESENT = has flags PRESENT := has_entry aligned small (by decide)
  have large : has (entry frame flags) HUGE_PAGE = has flags HUGE_PAGE := has_entry aligned small (by decide)
  have off : has flags HUGE_PAGE = false := by
    rw [has,legal.small]
    decide
  rw [view,present,legal.present,if_pos rfl,addr_entry aligned small legal.apart,large,off]

def Widened (insert : Flags) (e e' : Entry) : Prop := e' = e ∨ has e PRESENT = true ∧ e' = e ||| insert

section widening
variable {insert : Flags} {e e' e'' : Entry}

theorem widened_view (legal : PageFlags insert) (widened : Widened insert e e') : view e = view e' := by
  rcases widened with rfl | ⟨present,rfl⟩
  · rfl
  · rw [view,view,has_or present,present,if_pos rfl,if_pos rfl,addr_or legal.apart,has_or_apart legal.small]

theorem widened_trans (first : Widened insert e e') (second : Widened insert e' e'') : Widened insert e e'' := by
  rcases first with rfl | ⟨present,rfl⟩
  · exact second
  · rcases second with rfl | ⟨_,rfl⟩
    · exact Or.inr ⟨present,rfl⟩
    · exact Or.inr ⟨present,or_held has_inserted⟩

theorem widened_held (widened : Widened insert e e') (held : has e insert = true) : e' = e := by
  rcases widened with same | ⟨_,same⟩
  · exact same
  · rw [same,or_held held]

end widening

end PageTables
