import RustyCore.ByteMemory

namespace X86Fragment
open ByteMemory Function

inductive Reg where
  | rax | rcx | rdx | rbx | rsp | rbp | rsi | rdi | r8 | r9 | r10 | r11 | r12 | r13 | r14 | r15
  deriving DecidableEq, Repr

-- The user-visible integer state and memory. `undefined` supplies the status flags that
-- the architecture leaves undefined or that no instruction below reads, one word for
-- each instruction that writes flags.
structure Machine where
  reg : Reg → Word
  rip : Word
  rflags : Word
  cs : BitVec 16
  ss : BitVec 16
  mem : Memory
  undefined : ℕ → Word

def CARRY : Word := 0x1
def ZERO : Word := 0x40
def STATUS : Word := 0x8D5
-- IF, TF, NT, RF and VM, which delivery through an interrupt gate clears.
def MASKED : Word := 0x34300

namespace Machine

def set (m : Machine) (r : Reg) (v : Word) : Machine := {m with reg := update m.reg r v}

def cf (m : Machine) : Bool := m.rflags.getLsbD 0

def zf (m : Machine) : Bool := m.rflags.getLsbD 6

def status (m : Machine) (cf zf : Bool) : Machine :=
  {m with rflags := m.rflags &&& ~~~ STATUS ||| m.undefined 0 &&& STATUS &&& ~~~ (CARRY ||| ZERO) |||
            (if cf then CARRY else 0) ||| if zf then ZERO else 0
          undefined := fun n => m.undefined (n+1)}

def push (m : Machine) (v : Word) : Machine :=
  {m with reg := update m.reg .rsp (m.reg .rsp-8), mem := write64 m.mem (m.reg .rsp-8) v}

-- A pop into RSP itself does not occur.
def pop (m : Machine) (r : Reg) : Machine :=
  {m with reg := update (update m.reg .rsp (m.reg .rsp+8)) r (read64 m.mem (m.reg .rsp))}

def ret (m : Machine) : Machine :=
  {m with rip := read64 m.mem (m.reg .rsp), reg := update m.reg .rsp (m.reg .rsp+8)}

def call (m : Machine) (back target : Word) : Machine := {m.push back with rip := target}

-- Delivery in 64-bit mode without a stack switch: RSP is aligned down, and SS, RSP, RFLAGS,
-- CS and RIP are pushed whether or not the privilege changes.
def deliver (m : Machine) (selector : BitVec 16) (entry : Word) : Machine :=
  let pushed := [m.ss.setWidth 64,m.reg .rsp,m.rflags,m.cs.setWidth 64,m.rip].foldl push
    (m.set .rsp (m.reg .rsp &&& ~~~ 0xF))
  {pushed with rip := entry, cs := selector, rflags := m.rflags &&& ~~~ MASKED}

def iretq (m : Machine) : Machine :=
  let sp := m.reg .rsp
  {m with rip := read64 m.mem sp, cs := (read64 m.mem (sp+8)).setWidth 16, rflags := read64 m.mem (sp+16)
          reg := update m.reg .rsp (read64 m.mem (sp+24)), ss := (read64 m.mem (sp+32)).setWidth 16}

end Machine

-- RIP-relative operands are resolved to their address. The jumps are the forward jumps to
-- a local label; `jz` is `je`, and `jnc` is `jae`.
inductive Instr where
  | push (r : Reg)
  | pop (r : Reg)
  | load (dst base : Reg) (disp : Word)
  | store (base : Reg) (disp : Word) (src : Reg)
  | loadAt (dst : Reg) (addr : Word)
  | storeDword (base : Reg) (imm : BitVec 32)
  | mov (dst : Reg) (imm : Word)
  | lea (dst base : Reg) (disp : Word)
  | leaAt (dst : Reg) (addr : Word)
  | movzxByte (dst : Reg) (addr : Word)
  | incQword (addr : Word)
  | cmpByte (addr : Word) (imm : BitVec 8)
  | cmpDword (r : Reg) (imm : BitVec 32)
  | bt (base offset : Reg)
  | imul (dst src : Reg) (imm : Word)
  | add (dst src : Reg)
  | test (r r' : Reg)
  | je (label : ℕ)
  | jae (label : ℕ)
  | label (name : ℕ)
  | ret
  | iretq
  deriving DecidableEq, Repr

abbrev Instr.jz (label : ℕ) : Instr := .je label
abbrev Instr.jnc (label : ℕ) : Instr := .jae label

def Instr.apply (m : Machine) : Instr → Machine
  | .push r => m.push (m.reg r)
  | .pop r => m.pop r
  | .load dst base disp => m.set dst (read64 m.mem (m.reg base+disp))
  | .store base disp src => {m with mem := write64 m.mem (m.reg base+disp) (m.reg src)}
  | .loadAt dst addr => m.set dst (read64 m.mem addr)
  | .storeDword base imm => {m with mem := write32 m.mem (m.reg base) imm}
  | .mov dst imm => m.set dst imm
  | .lea dst base disp => m.set dst (m.reg base+disp)
  | .leaAt dst addr => m.set dst addr
  | .movzxByte dst addr => m.set dst ((m.mem addr).setWidth 64)
  | .incQword addr => Machine.status {m with mem := write64 m.mem addr (read64 m.mem addr+1)} m.cf (read64 m.mem addr+1 == 0)
  | .cmpByte addr imm => m.status (decide (m.mem addr < imm)) (m.mem addr == imm)
  | .cmpDword r imm => m.status (decide ((m.reg r).setWidth 32 < imm)) ((m.reg r).setWidth 32 == imm)
  | .bt base offset => m.status ((m.reg base).getLsbD ((m.reg offset).toNat % 32)) m.zf
  | .imul dst src imm => Machine.status (m.set dst (m.reg src*imm)) ((m.undefined 0).getLsbD 0) ((m.undefined 0).getLsbD 6)
  | .add dst src => Machine.status (m.set dst (m.reg dst+m.reg src))
      (decide (2^64 ≤ (m.reg dst).toNat+(m.reg src).toNat)) (m.reg dst+m.reg src == 0)
  | .test r r' => m.status false (m.reg r &&& m.reg r' == 0)
  | _ => m

def Instr.falls : Instr → Bool
  | .je _ | .jae _ | .ret | .iretq => false
  | _ => true

-- Straight through the code, skipping to a label after a jump, up to the return.
def exec : Option ℕ → List Instr → Machine → Option Machine
  | _,[],_ => none
  | some name,i :: rest,m => if i = .label name then exec none rest m else exec (some name) rest m
  | none,.je name :: rest,m => exec (if m.zf then some name else none) rest m
  | none,.jae name :: rest,m => exec (if m.cf then none else some name) rest m
  | none,.ret :: _,m => some m.ret
  | none,.iretq :: _,m => some m.iretq
  | none,i :: rest,m => exec none rest (i.apply m)

def Instr.reads (m : Machine) : Instr → List (Word × ℕ)
  | .pop _ | .ret => [(m.reg .rsp,8)]
  | .load _ base disp => [(m.reg base+disp,8)]
  | .loadAt _ addr | .incQword addr => [(addr,8)]
  | .movzxByte _ addr | .cmpByte addr _ => [(addr,1)]
  | .iretq => [(m.reg .rsp,40)]
  | _ => []

def loads : Option ℕ → List Instr → Machine → List (Word × ℕ)
  | _,[],_ => []
  | some name,i :: rest,m => if i = .label name then loads none rest m else loads (some name) rest m
  | none,.je name :: rest,m => loads (if m.zf then some name else none) rest m
  | none,.jae name :: rest,m => loads (if m.cf then none else some name) rest m
  | none,.ret :: _,m => Instr.reads m .ret
  | none,.iretq :: _,m => Instr.reads m .iretq
  | none,i :: rest,m => i.reads m ++ loads none rest (i.apply m)

theorem align_shift (x : Word) : x &&& ~~~ (0xF : Word) = (x >>> 4) <<< 4 := by
  apply BitVec.eq_of_getLsbD_eq
  intro i bound
  rw [BitVec.getLsbD_and,BitVec.getLsbD_not,BitVec.getLsbD_shiftLeft,BitVec.getLsbD_ushiftRight]
  by_cases low : i < 4
  · have cases : i = 0 ∨ i = 1 ∨ i = 2 ∨ i = 3 := by omega
    rcases cases with rfl | rfl | rfl | rfl <;> simp
  · have large : 15 < 2^i := Nat.lt_of_lt_of_le (by decide) (Nat.pow_le_pow_right (by decide) (Nat.not_lt.mp low))
    have high : (0xF : Word).getLsbD i = false := by
      show (BitVec.ofNat 64 15).getLsbD i = false
      rw [BitVec.getLsbD_ofNat,Nat.testBit_lt_two_pow large,Bool.and_false]
    have back : 4+(i-4) = i := by omega
    rw [high,back,decide_eq_true bound,decide_eq_false low]
    simp

theorem align_toNat (x : Word) : (x &&& ~~~ (0xF : Word)).toNat = x.toNat-x.toNat % 16 := by
  rw [align_shift,BitVec.toNat_shiftLeft,BitVec.toNat_ushiftRight,Nat.shiftRight_eq_div_pow,Nat.shiftLeft_eq]
  have bound := x.isLt
  omega

theorem exec_step (i : Instr) (falls : i.falls = true) (rest : List Instr) (m : Machine) :
    exec none (i :: rest) m = exec none rest (i.apply m) := by
  cases i <;> first | rfl | cases falls

theorem exec_je (name : ℕ) (rest : List Instr) (m : Machine) :
    exec none (.je name :: rest) m = exec (if m.zf then some name else none) rest m := rfl

theorem exec_jae (name : ℕ) (rest : List Instr) (m : Machine) :
    exec none (.jae name :: rest) m = exec (if m.cf then none else some name) rest m := rfl

theorem status_cf (m : Machine) (cf zf : Bool) : (m.status cf zf).cf = cf := by
  cases cf <;> cases zf <;> simp [Machine.status,Machine.cf,CARRY,ZERO,STATUS]

theorem status_zf (m : Machine) (cf zf : Bool) : (m.status cf zf).zf = zf := by
  cases cf <;> cases zf <;> simp [Machine.status,Machine.zf,CARRY,ZERO,STATUS]

theorem exec_block (block : List Instr) (falls : ∀ i ∈ block, i.falls = true) (rest : List Instr) (m : Machine) :
    exec none (block ++ rest) m = exec none rest (block.foldl Instr.apply m) := by
  induction block generalizing m with
  | nil => rfl
  | cons i block ih =>
      rw [List.cons_append,exec_step i (falls i List.mem_cons_self)]
      exact ih (fun j member => falls j (List.mem_cons_of_mem _ member)) _

theorem exec_skip (block : List Instr) (clear : ∀ i ∈ block, i ≠ .label name) (rest : List Instr) (m : Machine) :
    exec (some name) (block ++ .label name :: rest) m = exec none rest m := by
  induction block with
  | nil => simp [exec]
  | cons i block ih =>
      rw [List.cons_append,exec,if_neg (clear i List.mem_cons_self)]
      exact ih fun j member => clear j (List.mem_cons_of_mem _ member)

structure Pushed (top : Word) (mem : Memory) (vs : List Word) (m : Machine) : Prop where
  rsp : m.reg .rsp = top-BitVec.ofNat 64 (8*vs.length)
  holds : Holds m.mem (m.reg .rsp) vs
  outside : ∀ a, ¬ Within a (m.reg .rsp) (8*vs.length) → m.mem a = mem a

section pushes
variable {m : Machine} {top : Word} {mem : Memory} {vs : List Word}

theorem pushed_start (m : Machine) : Pushed (m.reg .rsp) m.mem [] m := by
  refine ⟨?_,trivial,fun _ _ => rfl⟩
  rw [List.length_nil,Nat.mul_zero,BitVec.sub_zero]

theorem pushed_push (pushed : Pushed top mem vs m) (fits : 8*(vs.length+1) ≤ 2^64) (v : Word) :
    Pushed top mem (v :: vs) (m.push v) := by
  have rsp : (m.push v).reg .rsp = m.reg .rsp-8 := by simp [Machine.push]
  refine ⟨?_,?_,?_⟩
  · rw [rsp,pushed.rsp,List.length_cons]
    bv_omega
  · rw [rsp]
    exact holds_push pushed.holds fits
  · intro a outside
    rw [rsp,List.length_cons] at outside
    have here : ¬ Within a (m.reg .rsp-8) 8 := by
      intro inside
      apply outside
      unfold Within at inside ⊢
      omega
    have above : ¬ Within a (m.reg .rsp) (8*vs.length) := by
      intro inside
      apply outside
      unfold Within at inside ⊢
      bv_omega
    exact (write64_outside here).trans (pushed.outside a above)

theorem pushed_all (pushed : Pushed top mem vs m) (ws : List Word) (fits : 8*(vs.length+ws.length) ≤ 2^64) :
    Pushed top mem (ws.reverse ++ vs) (ws.foldl Machine.push m) := by
  induction ws generalizing m vs with
  | nil => exact pushed
  | cons w ws ih =>
      rw [List.length_cons] at fits
      have next := ih (pushed_push pushed (by omega) w) (by rw [List.length_cons]; omega)
      rw [List.reverse_cons,List.append_assoc]
      exact next

theorem pushed_bytes (pushed : Pushed top mem vs m) (fits : 8*vs.length ≤ 2^64) (apart : Apart (m.reg .rsp) (8*vs.length) p n)
    (bytes : ℕ → BitVec 8) : Pushed top (writeBytes mem p n bytes) vs {m with mem := writeBytes m.mem p n bytes} := by
  refine ⟨pushed.rsp,?_,?_⟩
  · exact holds_congr pushed.holds fits fun a inside => writeBytes_outside (apart a inside)
  · intro a outside
    show writeBytes m.mem p n bytes a = writeBytes mem p n bytes a
    unfold writeBytes
    rw [pushed.outside a outside]

theorem pushed_read (pushed : Pushed top mem vs m) (apart : Apart (m.reg .rsp) (8*vs.length) p 8) :
    read64 m.mem p = read64 mem p :=
  read64_congr fun a inside => pushed.outside a fun stacked => apart a stacked inside

theorem pushed_byte (pushed : Pushed top mem vs m) (apart : Apart (m.reg .rsp) (8*vs.length) p 1) : m.mem p = mem p := by
  refine pushed.outside p fun stacked => apart p stacked ?_
  unfold Within
  simp

theorem pushed_congr (pushed : Pushed top mem vs m) (rsp : m'.reg .rsp = m.reg .rsp) (same : m'.mem = m.mem) :
    Pushed top mem vs m' := by
  refine ⟨rsp.trans pushed.rsp,?_,?_⟩
  · rw [rsp,same]
    exact pushed.holds
  · rw [rsp,same]
    exact pushed.outside

theorem pushes_reg (other : r ≠ .rsp) (ws : List Word) : (ws.foldl Machine.push m).reg r = m.reg r := by
  induction ws generalizing m with
  | nil => rfl
  | cons w ws ih => exact ih.trans (update_of_ne other _ _)

theorem pushes_apply (rs : List Reg) (proper : .rsp ∉ rs) (m : Machine) :
    (rs.map .push).foldl Instr.apply m = (rs.map m.reg).foldl Machine.push m := by
  induction rs generalizing m with
  | nil => rfl
  | cons r rs ih =>
      rw [List.mem_cons,not_or] at proper
      have same : rs.map (m.push (m.reg r)).reg = rs.map m.reg := by
        apply List.map_congr_left
        intro r' member
        have other : r' ≠ .rsp := by
          rintro rfl
          exact proper.2 member
        simp [Machine.push,other]
      have next := ih proper.2 (m.push (m.reg r))
      rw [same] at next
      exact next

theorem exec_pushes (rs : List Reg) (proper : .rsp ∉ rs) (rest : List Instr) (m : Machine) :
    exec none (rs.map .push ++ rest) m = exec none rest ((rs.map m.reg).foldl Machine.push m) := by
  rw [exec_block _ (by simp [Instr.falls]),pushes_apply rs proper]

end pushes

def Machine.restored (m : Machine) (rs : List Reg) (file : Reg → Word) : Machine :=
  {m with reg := fun r => if r = .rsp then m.reg .rsp+BitVec.ofNat 64 (8*rs.length) else if r ∈ rs then file r else m.reg r}

theorem pops_apply {m : Machine} (rs : List Reg) (proper : .rsp ∉ rs) (file : Reg → Word) (tail : List Word)
    (held : Holds m.mem (m.reg .rsp) (rs.map file ++ tail)) : (rs.map .pop).foldl Instr.apply m = m.restored rs file := by
  induction rs generalizing m with
  | nil =>
      have same : m.restored [] file = m := by
        unfold Machine.restored
        congr
        funext r
        by_cases stack : r = .rsp
        · subst stack
          simp
        · simp [stack]
      rw [same]
      rfl
  | cons r rs ih =>
      rw [List.mem_cons,not_or] at proper
      obtain ⟨first,others⟩ := held
      have rsp : (m.pop r).reg .rsp = m.reg .rsp+8 := by simp [Machine.pop,update_of_ne proper.1]
      have next := @ih (m.pop r) proper.2 (by rw [rsp]; exact others)
      have same : (m.pop r).restored rs file = m.restored (r :: rs) file := by
        unfold Machine.restored
        rw [rsp]
        simp only [Machine.pop,Machine.mk.injEq,and_true]
        funext r'
        by_cases stack : r' = .rsp
        · simp only [stack,if_true,List.length_cons]
          bv_omega
        · by_cases again : r' ∈ rs
          · simp [stack,again]
          · by_cases same : r' = r
            · subst same
              simp [stack,first]
            · simp [stack,again,same]
      rw [same] at next
      exact next

theorem exec_pops {m : Machine} (rs : List Reg) (proper : .rsp ∉ rs) (file : Reg → Word) (tail : List Word) (rest : List Instr)
    (held : Holds m.mem (m.reg .rsp) (rs.map file ++ tail)) :
    exec none (rs.map .pop ++ rest) m = exec none rest (m.restored rs file) := by
  rw [exec_block _ (by simp [Instr.falls]),pops_apply rs proper file tail held]

theorem loads_pushes (rs : List Reg) (rest : List Instr) (m : Machine) :
    loads none (rs.map .push ++ rest) m = loads none rest ((rs.map .push).foldl Instr.apply m) := by
  induction rs generalizing m with
  | nil => rfl
  | cons r rs ih => exact ih _

def wordsFrom (p : Word) (n : ℕ) : List (Word × ℕ) := (List.range n).map fun k => (p+BitVec.ofNat 64 (8*k),8)

theorem wordsFrom_succ (p : Word) (n : ℕ) : wordsFrom p (n+1) = (p,8) :: wordsFrom (p+8) n := by
  unfold wordsFrom
  rw [List.range_succ_eq_map,List.map_cons,List.map_map,Nat.mul_zero,BitVec.add_zero]
  congr 1
  apply List.map_congr_left
  intro k _
  rw [comp_apply,Prod.mk.injEq]
  refine ⟨?_,rfl⟩
  bv_omega

theorem loads_pops (rs : List Reg) (proper : .rsp ∉ rs) (rest : List Instr) (m : Machine) :
    loads none (rs.map .pop ++ rest) m =
      wordsFrom (m.reg .rsp) rs.length ++ loads none rest ((rs.map .pop).foldl Instr.apply m) := by
  induction rs generalizing m with
  | nil => rfl
  | cons r rs ih =>
      rw [List.mem_cons,not_or] at proper
      have rsp : (m.pop r).reg .rsp = m.reg .rsp+8 := by simp [Machine.pop,update_of_ne proper.1]
      have next := ih proper.2 (m.pop r)
      rw [rsp] at next
      rw [List.length_cons,wordsFrom_succ]
      exact congrArg ((m.reg .rsp,8) :: ·) next

end X86Fragment
