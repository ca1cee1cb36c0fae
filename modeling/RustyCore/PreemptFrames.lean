import RustyCore.RustArithmetic

namespace RustyCore

def PREEMPT_MAGIC : ℕ := 0x50524545_4D505434
def MAX_TASKS : ℕ := 7
def SPILL_WORDS : ℕ := 15
def HW_WORDS : ℕ := 3
def DOWN_WORDS : ℕ := 2
def FRAME_STRIDE : ℕ := (SPILL_WORDS+DOWN_WORDS+HW_WORDS)*8

-- The fields in the order of the struct, spill order first.
structure FullFrame where
  r15 : ℕ
  r14 : ℕ
  r13 : ℕ
  r12 : ℕ
  r11 : ℕ
  r10 : ℕ
  r9 : ℕ
  r8 : ℕ
  rdi : ℕ
  rsi : ℕ
  rbp : ℕ
  rbx : ℕ
  rdx : ℕ
  rcx : ℕ
  rax : ℕ
  rsp : ℕ
  rip : ℕ
  cs : ℕ
  rflags : ℕ
  magic : ℕ
  deriving DecidableEq, Repr

def hex (n : ℕ) : String := "0x" ++ String.ofList (Nat.toDigits 16 n)

namespace FullFrame

def ZERO : FullFrame := ⟨0,0,0,0,0,0,0,0,0,0,0,0,0,0,0,0,0,0,0,0⟩

def fresh (p : Profile) (entry cs stackTop : ℕ) : Except Fault FullFrame := do
  assert (stackTop % 16 == 0) s!"fresh preempt frame needs a 16-aligned stack top (got {hex stackTop})"
  let rsp ← p.sub stackTop 8
  .ok ⟨0,0,0,0,0,0,0,0,0,0,0,0,0,0,0,rsp,entry,cs,0x202,PREEMPT_MAGIC⟩

def validFor (frame : FullFrame) (bottom top : ℕ) : Bool :=
  if frame.magic ≠ PREEMPT_MAGIC then false
  else if frame.rsp < bottom ∨ frame.rsp > top then false
  else
    let sign := (frame.rsp >>> 47) &&& 1
    if sign = 0 ∧ frame.rsp >>> 48 ≠ 0 then false
    else if sign = 1 ∧ frame.rsp >>> 48 ≠ 0xFFFF then false
    else true

end FullFrame

def Canonical (addr : ℕ) : Prop := addr < 2^47 ∨ 2^64-2^47 ≤ addr ∧ addr < 2^64

theorem validFor_iff (frame : FullFrame) (bottom top : ℕ) : frame.validFor bottom top = true ↔
    frame.magic = PREEMPT_MAGIC ∧ bottom ≤ frame.rsp ∧ frame.rsp ≤ top ∧ Canonical frame.rsp := by
  simp only [FullFrame.validFor,Canonical,Nat.shiftRight_eq_div_pow,Nat.and_one_is_mod]
  by_cases magic : frame.magic = PREEMPT_MAGIC
  · by_cases outside : frame.rsp < bottom ∨ frame.rsp > top
    · simp only [magic,ne_eq,not_true_eq_false,if_false,outside,if_true,true_and]
      constructor
      · intro impossible
        cases impossible
      · rintro ⟨least,most,_⟩
        omega
    · simp only [magic,ne_eq,not_true_eq_false,if_false,outside,true_and]
      constructor
      · intro accepted
        split at accepted
        · cases accepted
        · split at accepted
          · cases accepted
          · refine ⟨by omega,by omega,by omega⟩
      · rintro ⟨least,most,canonical⟩
        rw [if_neg (by omega),if_neg (by omega)]
  · simp [magic]

structure Interrupted where
  r15 : ℕ
  r14 : ℕ
  r13 : ℕ
  r12 : ℕ
  r11 : ℕ
  r10 : ℕ
  r9 : ℕ
  r8 : ℕ
  rdi : ℕ
  rsi : ℕ
  rbp : ℕ
  rbx : ℕ
  rdx : ℕ
  rcx : ℕ
  rax : ℕ
  rsp : ℕ
  rip : ℕ
  cs : ℕ
  rflags : ℕ
  rsp_lt : rsp < 2^64

namespace Interrupted

-- RSP inside the stub after delivery (aligned down, five words) and the fifteen pushes.
def spillRsp (regs : Interrupted) : ℕ := (regs.rsp-regs.rsp % 16+2^64-(5*8+SPILL_WORDS*8)) % 2^64

-- The frame the stub stores: `lea rax, [rsp + 0x90]` is the `rsp` field.
def stash (regs : Interrupted) : FullFrame :=
  ⟨regs.r15,regs.r14,regs.r13,regs.r12,regs.r11,regs.r10,regs.r9,regs.r8,regs.rdi,regs.rsi,regs.rbp,regs.rbx,
    regs.rdx,regs.rcx,regs.rax,(regs.spillRsp+0x90) % 2^64,regs.rip,regs.cs,regs.rflags,PREEMPT_MAGIC⟩

theorem stash_rsp (regs : Interrupted) : regs.stash.rsp = (regs.rsp-regs.rsp % 16+2^64-16) % 2^64 := by
  have bound := regs.rsp_lt
  simp only [stash,spillRsp,SPILL_WORDS]
  omega

theorem stash_valid (regs : Interrupted) (least : bottom+16 ≤ regs.rsp) (most : regs.rsp ≤ top)
    (aligned : bottom % 16 = 0) (canonical : ∀ x, bottom ≤ x → x ≤ top → Canonical x) :
    regs.stash.validFor bottom top = true := by
  have bound := regs.rsp_lt
  have exact : regs.stash.rsp = regs.rsp-regs.rsp % 16-16 := by rw [stash_rsp]; omega
  rw [validFor_iff,exact]
  refine ⟨rfl,by omega,by omega,?_⟩
  exact canonical _ (by omega) (by omega)

end Interrupted
end RustyCore
