import RustyCore.X86Fragment
import RustyCore.PreemptFrames

namespace RustyCore
open ByteMemory X86Fragment Function

-- Where the linker put the statics the stub uses. They do not overlap.
structure Statics where
  preemptible : Word
  currentIdx : Word
  slotUsed : Word
  taskFrames : Word
  eoiBase : Word
  apicTicks : Word
  preemptSwitches : Word
  apart : [(preemptible,1),(currentIdx,1),(slotUsed,1),(taskFrames,MAX_TASKS*FRAME_STRIDE),(eoiBase,8),(apicTicks,8),
    (preemptSwitches,8)].Pairwise fun x y => Apart x.1 x.2 y.1 y.2

def Statics.areas (S : Statics) : List (Word × ℕ) :=
  [(S.preemptible,1),(S.currentIdx,1),(S.slotUsed,1),(S.taskFrames,MAX_TASKS*FRAME_STRIDE),(S.eoiBase,8),(S.apicTicks,8),
    (S.preemptSwitches,8)]

def lapicPreemptStub (S : Statics) : List Instr :=
  [.push .r15,.push .r14,.push .r13,.push .r12,
    .push .r11,.push .r10,.push .r9,.push .r8,
    .push .rdi,.push .rsi,.push .rbp,.push .rbx,
    .push .rdx,.push .rcx,.push .rax,
    .incQword S.apicTicks,
    .cmpByte S.preemptible 0,
    .je 2,
    .movzxByte .rax S.currentIdx,
    .cmpDword .rax (BitVec.ofNat 32 MAX_TASKS),
    .jae 2,
    .movzxByte .rcx S.slotUsed,
    .bt .rcx .rax,
    .jnc 2,
    .incQword S.preemptSwitches,
    .imul .rax .rax (BitVec.ofNat 64 FRAME_STRIDE),
    .leaAt .rdi S.taskFrames,
    .add .rdi .rax,
    .load .rax .rsp 0x70,.store .rdi 0x00 .rax,
    .load .rax .rsp 0x68,.store .rdi 0x08 .rax,
    .load .rax .rsp 0x60,.store .rdi 0x10 .rax,
    .load .rax .rsp 0x58,.store .rdi 0x18 .rax,
    .load .rax .rsp 0x50,.store .rdi 0x20 .rax,
    .load .rax .rsp 0x48,.store .rdi 0x28 .rax,
    .load .rax .rsp 0x40,.store .rdi 0x30 .rax,
    .load .rax .rsp 0x38,.store .rdi 0x38 .rax,
    .load .rax .rsp 0x30,.store .rdi 0x40 .rax,
    .load .rax .rsp 0x28,.store .rdi 0x48 .rax,
    .load .rax .rsp 0x20,.store .rdi 0x50 .rax,
    .load .rax .rsp 0x18,.store .rdi 0x58 .rax,
    .load .rax .rsp 0x10,.store .rdi 0x60 .rax,
    .load .rax .rsp 0x08,.store .rdi 0x68 .rax,
    .load .rax .rsp 0x00,.store .rdi 0x70 .rax,
    .lea .rax .rsp 0x90,.store .rdi 0x78 .rax,
    .load .rax .rsp 0x78,.store .rdi 0x80 .rax,
    .load .rax .rsp 0x80,.store .rdi 0x88 .rax,
    .load .rax .rsp 0x88,.store .rdi 0x90 .rax,
    .mov .rax (BitVec.ofNat 64 PREEMPT_MAGIC),.store .rdi 0x98 .rax,
    .label 2,
    .loadAt .rax S.eoiBase,
    .test .rax .rax,
    .jz 3,
    .storeDword .rax 0,
    .label 3,
    .pop .rax,.pop .rcx,.pop .rdx,.pop .rbx,
    .pop .rbp,.pop .rsi,.pop .rdi,.pop .r8,
    .pop .r9,.pop .r10,.pop .r11,.pop .r12,
    .pop .r13,.pop .r14,.pop .r15,
    .iretq]

def spilled : List Reg := [.r15,.r14,.r13,.r12,.r11,.r10,.r9,.r8,.rdi,.rsi,.rbp,.rbx,.rdx,.rcx,.rax]

def guards (S : Statics) : List Instr :=
  [.cmpByte S.preemptible 0,.je 2,.movzxByte .rax S.currentIdx,.cmpDword .rax (BitVec.ofNat 32 MAX_TASKS),.jae 2,
    .movzxByte .rcx S.slotUsed,.bt .rcx .rax,.jnc 2]

def locate (S : Statics) : List Instr :=
  [.incQword S.preemptSwitches,.imul .rax .rax (BitVec.ofNat 64 FRAME_STRIDE),.leaAt .rdi S.taskFrames,.add .rdi .rax]

inductive Source where
  | word (k : ℕ)
  | address (disp : Word)
  | constant (v : Word)

def Source.instr : Source → Instr
  | .word k => .load .rax .rsp (BitVec.ofNat 64 (8*k))
  | .address disp => .lea .rax .rsp disp
  | .constant v => .mov .rax v

def fields : List Source :=
  [.word 14,.word 13,.word 12,.word 11,.word 10,.word 9,.word 8,.word 7,.word 6,.word 5,.word 4,.word 3,.word 2,.word 1,.word 0,
    .address 0x90,.word 15,.word 16,.word 17,.constant (BitVec.ofNat 64 PREEMPT_MAGIC)]

def copies : ℕ → List Source → List Instr
  | _,[] => []
  | k,source :: rest => source.instr :: .store .rdi (BitVec.ofNat 64 (8*k)) .rax :: copies (k+1) rest

def acknowledge (S : Statics) : List Instr := [.loadAt .rax S.eoiBase,.test .rax .rax,.jz 3,.storeDword .rax 0]

def finish : List Instr := spilled.reverse.map .pop ++ [.iretq]

theorem stub_parts (S : Statics) : lapicPreemptStub S = spilled.map .push ++ .incQword S.apicTicks ::
    (guards S ++ (locate S ++ copies 0 fields) ++ .label 2 :: (acknowledge S ++ .label 3 :: finish)) := rfl

def alignedRsp (m : Machine) : Word := m.reg .rsp &&& ~~~ 0xF

def hardware (m : Machine) : List Word := [m.rip,m.cs.setWidth 64,m.rflags,m.reg .rsp,m.ss.setWidth 64]

def saved (m : Machine) : List Word := spilled.reverse.map m.reg ++ hardware m

section delivery
variable (m : Machine) (selector : BitVec 16) (entry : Word)

theorem deliver_pushed : Pushed (alignedRsp m) m.mem (hardware m) (m.deliver selector entry) := by
  have start := pushed_start (m.set .rsp (alignedRsp m))
  have rsp : (m.set .rsp (alignedRsp m)).reg .rsp = alignedRsp m := by simp [Machine.set]
  rw [rsp] at start
  have pushed := pushed_all start [m.ss.setWidth 64,m.reg .rsp,m.rflags,m.cs.setWidth 64,m.rip] (by simp)
  exact pushed_congr pushed rfl rfl

theorem deliver_reg (other : r ≠ .rsp) : (m.deliver selector entry).reg r = m.reg r := by
  have same := pushes_reg (m:=m.set .rsp (alignedRsp m)) other
    [m.ss.setWidth 64,m.reg .rsp,m.rflags,m.cs.setWidth 64,m.rip]
  refine Eq.trans same ?_
  simp [Machine.set,other]

theorem spilled_pushed (rest : List Instr) : ∃ k, exec none (spilled.map .push ++ rest) (m.deliver selector entry) = exec none rest k ∧
    Pushed (alignedRsp m) m.mem (saved m) k := by
  have values : spilled.map (m.deliver selector entry).reg = spilled.map m.reg := by
    apply List.map_congr_left
    intro r member
    apply deliver_reg
    rintro rfl
    simp [spilled] at member
  refine ⟨_,exec_pushes spilled (by decide) rest _,?_⟩
  rw [values]
  have pushed := pushed_all (deliver_pushed m selector entry) (spilled.map m.reg) (by simp [hardware,spilled])
  rw [← List.map_reverse] at pushed
  exact pushed

end delivery

section segments
variable {S : Statics} {k : Machine} {top : Word} {mem : Memory} {vs : List Word}

theorem pushed_inc (pushed : Pushed top mem vs k) (fits : 8*vs.length ≤ 2^64) (apart : Apart (k.reg .rsp) (8*vs.length) p 8) :
    Pushed top (write64 mem p (read64 mem p+1)) vs (Instr.apply k (.incQword p)) := by
  have written := pushed_bytes pushed fits apart fun i => (read64 k.mem p+1).extractLsb' (8*i) 8
  have value := pushed_read pushed apart
  rw [value] at written
  refine pushed_congr written rfl ?_
  simp only [Instr.apply,Machine.status,write64,value]

def taken (S : Statics) (mem : Memory) : Bool :=
  mem S.preemptible != 0 && decide ((mem S.currentIdx).toNat < MAX_TASKS) && (mem S.slotUsed).getLsbD (mem S.currentIdx).toNat

theorem taken_iff : taken S mem = true ↔ mem S.preemptible ≠ 0 ∧ (mem S.currentIdx).toNat < MAX_TASKS ∧
    (mem S.slotUsed).getLsbD (mem S.currentIdx).toNat = true := by
  rw [taken,Bool.and_eq_true,Bool.and_eq_true,bne_iff_ne,decide_eq_true_eq,and_assoc]

theorem fence_exec (pushed : Pushed top mem vs k) (apart : Apart (k.reg .rsp) (8*vs.length) p 1) (tail : List Instr) :
    ∃ k', Pushed top mem vs k' ∧ exec none (.cmpByte p 0 :: .je 2 :: tail) k = exec (if mem p = 0 then some 2 else none) tail k' := by
  refine ⟨Instr.apply k (.cmpByte p 0),pushed_congr pushed rfl rfl,?_⟩
  rw [exec_step _ rfl,exec_je]
  simp only [Instr.apply,status_zf,pushed_byte pushed apart,beq_iff_eq]

theorem index_exec (pushed : Pushed top mem vs k) (apart : Apart (k.reg .rsp) (8*vs.length) p 1) (tail : List Instr) :
    ∃ k', Pushed top mem vs k' ∧ k'.reg .rax = (mem p).setWidth 64 ∧
      exec none (.movzxByte .rax p :: .cmpDword .rax (BitVec.ofNat 32 MAX_TASKS) :: .jae 2 :: tail) k =
        exec (if (mem p).toNat < MAX_TASKS then none else some 2) tail k' := by
  have byte := pushed_byte pushed apart
  have below : (BitVec.setWidth 32 (BitVec.setWidth 64 (mem p)) < BitVec.ofNat 32 MAX_TASKS) = ((mem p).toNat < MAX_TASKS) := by
    simp [BitVec.lt_def,MAX_TASKS]
    omega
  refine ⟨Instr.apply (Instr.apply k (.movzxByte .rax p)) (.cmpDword .rax (BitVec.ofNat 32 MAX_TASKS)),?_,?_,?_⟩
  · exact pushed_congr pushed (by simp [Instr.apply,Machine.set,Machine.status]) rfl
  · simp [Instr.apply,Machine.set,Machine.status,byte]
  · rw [exec_step _ rfl,exec_step _ rfl,exec_jae]
    simp only [Instr.apply,status_cf,Machine.set,update_self,byte,below,decide_eq_true_eq]

theorem slot_exec (pushed : Pushed top mem vs k) (apart : Apart (k.reg .rsp) (8*vs.length) p 1) (tail : List Instr)
    (index : k.reg .rax = BitVec.setWidth 64 idx) (small : BitVec.toNat (w:=8) idx < MAX_TASKS) :
    ∃ k', Pushed top mem vs k' ∧ k'.reg .rax = idx.setWidth 64 ∧
      exec none (.movzxByte .rcx p :: .bt .rcx .rax :: .jnc 2 :: tail) k =
        exec (if (mem p).getLsbD idx.toNat then none else some 2) tail k' := by
  have byte := pushed_byte pushed apart
  have bit : (BitVec.setWidth 64 (mem p)).getLsbD ((BitVec.setWidth 64 idx).toNat % 32) = (mem p).getLsbD idx.toNat := by
    unfold MAX_TASKS at small
    have offset : (BitVec.setWidth 64 idx).toNat % 32 = idx.toNat := by
      simp
      omega
    rw [offset,BitVec.getLsbD_setWidth,decide_eq_true (by omega),Bool.true_and]
  refine ⟨Instr.apply (Instr.apply k (.movzxByte .rcx p)) (.bt .rcx .rax),?_,?_,?_⟩
  · exact pushed_congr pushed (by simp [Instr.apply,Machine.set,Machine.status]) rfl
  · simp [Instr.apply,Machine.set,Machine.status,index]
  · rw [exec_step _ rfl,exec_step _ rfl,exec_jae]
    simp only [Instr.apply,status_cf,Machine.set,update_self,byte]
    rw [update_of_ne (by decide),index,bit]

theorem guards_exec (pushed : Pushed top mem vs k) (fence : Apart (k.reg .rsp) (8*vs.length) S.preemptible 1)
    (index : Apart (k.reg .rsp) (8*vs.length) S.currentIdx 1) (slots : Apart (k.reg .rsp) (8*vs.length) S.slotUsed 1)
    (block rest : List Instr) (clear : ∀ i ∈ block, i ≠ .label 2) : ∃ k', Pushed top mem vs k' ∧
      (taken S mem = true → k'.reg .rax = (mem S.currentIdx).setWidth 64) ∧
      exec none (guards S ++ block ++ .label 2 :: rest) k =
        if taken S mem then exec none (block ++ .label 2 :: rest) k' else exec none rest k' := by
  have skip : ∀ n k', exec (some 2) ((guards S).drop n ++ block ++ .label 2 :: rest) k' = exec none rest k' := by
    intro n k'
    apply exec_skip
    intro i member
    rcases List.mem_append.mp member with guard | inside
    · have listed := List.mem_of_mem_drop guard
      rintro rfl
      simp [guards] at listed
    · exact clear i inside
  obtain ⟨k₁,pushed₁,ran₁⟩ := fence_exec pushed fence ((guards S).drop 2 ++ block ++ .label 2 :: rest)
  have rsp₁ : k₁.reg .rsp = k.reg .rsp := pushed₁.rsp.trans pushed.rsp.symm
  obtain ⟨k₂,pushed₂,rax₂,ran₂⟩ := index_exec pushed₁ (by rw [rsp₁]; exact index) ((guards S).drop 5 ++ block ++ .label 2 :: rest)
  have rsp₂ : k₂.reg .rsp = k.reg .rsp := pushed₂.rsp.trans pushed.rsp.symm
  by_cases down : mem S.preemptible = 0
  · have no : ¬ taken S mem = true := fun yes => (taken_iff.mp yes).1 down
    refine ⟨k₁,pushed₁,fun yes => absurd yes no,ran₁.trans ?_⟩
    rw [if_pos down,if_neg no,skip 2]
  · rw [if_neg down] at ran₁
    by_cases inside : (mem S.currentIdx).toNat < MAX_TASKS
    · obtain ⟨k₃,pushed₃,rax₃,ran₃⟩ := slot_exec pushed₂ (by rw [rsp₂]; exact slots)
        ((guards S).drop 8 ++ block ++ .label 2 :: rest) rax₂ inside
      rw [if_pos inside] at ran₂
      refine ⟨k₃,pushed₃,fun _ => rax₃,ran₁.trans (ran₂.trans (ran₃.trans ?_))⟩
      by_cases used : (mem S.slotUsed).getLsbD (mem S.currentIdx).toNat = true
      · rw [if_pos used,if_pos (taken_iff.mpr ⟨down,inside,used⟩)]
        rfl
      · have no : ¬ taken S mem = true := fun yes => used (taken_iff.mp yes).2.2
        rw [if_neg used,if_neg no,skip 8]
    · have no : ¬ taken S mem = true := fun yes => inside (taken_iff.mp yes).2.1
      refine ⟨k₂,pushed₂,fun yes => absurd yes no,ran₁.trans (ran₂.trans ?_)⟩
      rw [if_neg inside,if_neg no,skip 5]

def frameAt (S : Statics) (idx : Word) : Word := S.taskFrames+idx*BitVec.ofNat 64 FRAME_STRIDE

theorem locate_exec (pushed : Pushed top mem vs k) (fits : 8*vs.length ≤ 2^64)
    (apart : Apart (k.reg .rsp) (8*vs.length) S.preemptSwitches 8) (rest : List Instr) : ∃ k',
      Pushed top (write64 mem S.preemptSwitches (read64 mem S.preemptSwitches+1)) vs k' ∧
      k'.reg .rdi = frameAt S (k.reg .rax) ∧ exec none (locate S ++ rest) k = exec none rest k' := by
  have counted := pushed_inc pushed fits apart
  refine ⟨[.imul .rax .rax (BitVec.ofNat 64 FRAME_STRIDE),.leaAt .rdi S.taskFrames,.add .rdi .rax].foldl Instr.apply
    (Instr.apply k (.incQword S.preemptSwitches)),?_,?_,rfl⟩
  · refine pushed_congr counted ?_ rfl
    simp [Instr.apply,Machine.set,Machine.status]
  · simp [Instr.apply,Machine.set,Machine.status,frameAt]

def Source.value (vs : List Word) (sp : Word) : Source → Word
  | .word j => vs.getD j 0
  | .address disp => sp+disp
  | .constant v => v

theorem source_exec (pushed : Pushed top mem vs k) (source : Source) (inside : ∀ j, source = .word j → j < vs.length) (rest : List Instr) :
    exec none (source.instr :: rest) k = exec none rest (k.set .rax (source.value vs (k.reg .rsp))) := by
  cases source with
  | word j =>
      have found := List.getElem?_eq_getElem (inside j rfl)
      have value := holds_get pushed.holds found
      rw [Source.instr,exec_step _ rfl]
      simp only [Source.value,Instr.apply,value,List.getD_eq_getElem?_getD,found,Option.getD_some]
  | address disp => rfl
  | constant v => rfl

theorem copy_exec (pushed : Pushed top mem vs k) (fits : 8*vs.length ≤ 2^64) (source : Source)
    (inside : ∀ j, source = .word j → j < vs.length) (disp : Word)
    (apart : Apart (k.reg .rsp) (8*vs.length) (k.reg .rdi+disp) 8) (rest : List Instr) : ∃ k',
      Pushed top (write64 mem (k.reg .rdi+disp) (source.value vs (k.reg .rsp))) vs k' ∧ k'.reg .rdi = k.reg .rdi ∧
      k'.reg .rsp = k.reg .rsp ∧ exec none (source.instr :: .store .rdi disp .rax :: rest) k = exec none rest k' := by
  have written := pushed_bytes pushed fits apart fun j => (source.value vs (k.reg .rsp)).extractLsb' (8*j) 8
  refine ⟨Instr.apply (k.set .rax (source.value vs (k.reg .rsp))) (.store .rdi disp .rax),?_,?_,?_,?_⟩
  · refine pushed_congr written ?_ ?_
    · simp [Instr.apply,Machine.set]
    · simp [Instr.apply,Machine.set,write64]
  · simp [Instr.apply,Machine.set]
  · simp [Instr.apply,Machine.set]
  · rw [source_exec pushed source inside,exec_step _ rfl]

-- The fields one after another from RDI on; the stack stays readable because the frame
-- lies elsewhere.
theorem copies_exec (sources : List Source) (i : ℕ) (pushed : Pushed top mem vs k) (fits : 8*vs.length ≤ 2^64)
    (inside : ∀ source ∈ sources, ∀ j, source = .word j → j < vs.length) (room : 8*(i+sources.length) ≤ n) (small : n ≤ 2^64)
    (apart : Apart (k.reg .rsp) (8*vs.length) (k.reg .rdi) n) (rest : List Instr) : ∃ k',
      Pushed top (writeWords mem (k.reg .rdi+BitVec.ofNat 64 (8*i)) (sources.map (Source.value vs (k.reg .rsp)))) vs k' ∧
      exec none (copies i sources ++ rest) k = exec none rest k' := by
  induction sources generalizing k mem i with
  | nil => exact ⟨k,pushed,rfl⟩
  | cons source sources ih =>
      rw [List.length_cons] at room
      have target : Apart (k.reg .rsp) (8*vs.length) (k.reg .rdi+BitVec.ofNat 64 (8*i)) 8 :=
        apart_symm (apart_sub (apart_symm apart) (by omega) small)
      obtain ⟨k₁,pushed₁,rdi,rsp,ran₁⟩ := copy_exec pushed fits source (inside source List.mem_cons_self) _ target
        (copies (i+1) sources ++ rest)
      rw [← rsp,← rdi] at apart
      obtain ⟨k₂,pushed₂,ran₂⟩ := ih (i+1) pushed₁ (fun s member => inside s (List.mem_cons_of_mem _ member)) (by omega) apart
      refine ⟨k₂,?_,ran₁.trans ran₂⟩
      have address : k.reg .rdi+BitVec.ofNat 64 (8*(i+1)) = k.reg .rdi+BitVec.ofNat 64 (8*i)+8 := by bv_omega
      rw [rdi,rsp,address] at pushed₂
      exact pushed₂

def acknowledged (S : Statics) (mem : Memory) : Memory :=
  if read64 mem S.eoiBase = 0 then mem else write32 mem (read64 mem S.eoiBase) 0

theorem acknowledge_exec (pushed : Pushed top mem vs k) (fits : 8*vs.length ≤ 2^64)
    (base : Apart (k.reg .rsp) (8*vs.length) S.eoiBase 8)
    (eoi : read64 mem S.eoiBase ≠ 0 → Apart (k.reg .rsp) (8*vs.length) (read64 mem S.eoiBase) 4) (rest : List Instr) : ∃ k',
      Pushed top (acknowledged S mem) vs k' ∧ exec none (acknowledge S ++ .label 3 :: rest) k = exec none rest k' := by
  have value := pushed_read pushed base
  have tested : exec none (acknowledge S ++ .label 3 :: rest) k =
      exec (if read64 mem S.eoiBase = 0 then some 3 else none) ([.storeDword .rax 0] ++ .label 3 :: rest)
        (Instr.apply (Instr.apply k (.loadAt .rax S.eoiBase)) (.test .rax .rax)) := by
    unfold acknowledge
    simp only [List.cons_append,List.nil_append]
    rw [exec_step _ rfl,exec_step _ rfl,exec_je]
    simp only [Instr.apply,status_zf,Machine.set,update_self,value,BitVec.and_self,beq_iff_eq]
  have kept : Pushed top mem vs (Instr.apply (Instr.apply k (.loadAt .rax S.eoiBase)) (.test .rax .rax)) :=
    pushed_congr pushed (by simp [Instr.apply,Machine.set,Machine.status]) rfl
  by_cases zero : read64 mem S.eoiBase = 0
  · rw [if_pos zero,exec_skip _ (by simp)] at tested
    refine ⟨_,?_,tested⟩
    rw [acknowledged,if_pos zero]
    exact kept
  · rw [if_neg zero] at tested
    have written := pushed_bytes pushed fits (eoi zero) fun j => (0#32).extractLsb' (8*j) 8
    refine ⟨_,?_,tested.trans rfl⟩
    rw [acknowledged,if_neg zero]
    refine pushed_congr written ?_ ?_
    · simp [Instr.apply,Machine.set,Machine.status]
    · simp [Instr.apply,Machine.set,Machine.status,write32,value]

theorem return_exec (m : Machine) (pushed : Pushed (alignedRsp m) mem (saved m) k) : ∃ m',
    exec none finish k = some m' ∧ m'.reg = m.reg ∧ m'.rip = m.rip ∧ m'.rflags = m.rflags ∧
    m'.cs = m.cs ∧ m'.ss = m.ss ∧ m'.mem = k.mem := by
  have popped := exec_pops spilled.reverse (by decide) m.reg (hardware m) [.iretq] pushed.holds
  have rsp : k.reg .rsp+BitVec.ofNat 64 (8*(spilled.reverse.map m.reg).length) = (k.restored spilled.reverse m.reg).reg .rsp := by
    rw [List.length_map]
    simp [Machine.restored]
  have words := holds_drop pushed.holds
  rw [rsp] at words
  obtain ⟨rip,cs,flags,stack,ss,_⟩ := words
  have second : ∀ sp : Word, sp+8+8 = sp+16 := fun sp => by bv_omega
  have third : ∀ sp : Word, sp+8+8+8 = sp+24 := fun sp => by bv_omega
  have fourth : ∀ sp : Word, sp+8+8+8+8 = sp+32 := fun sp => by bv_omega
  rw [second] at flags
  rw [third] at stack
  rw [fourth] at ss
  have memory : (k.restored spilled.reverse m.reg).mem = k.mem := rfl
  refine ⟨(k.restored spilled.reverse m.reg).iretq,popped,?_,?_,?_,?_,?_,rfl⟩
  · funext r
    by_cases top : r = .rsp
    · subst top
      simp only [Machine.iretq,update_self,memory,stack]
    · have member : r ∈ spilled.reverse := by cases r <;> first | exact absurd rfl top | decide
      simp only [Machine.iretq,update_of_ne top,Machine.restored,top,member,if_false,if_true]
  · simp only [Machine.iretq,memory,rip]
  · simp only [Machine.iretq,memory,flags]
  · simp only [Machine.iretq,memory,cs]
    simp
  · simp only [Machine.iretq,memory,ss]
    simp

end segments

theorem statics_apart (S : Statics) {i j : ℕ} (before : i < j) (left : S.areas[i]? = some (p,m)) (right : S.areas[j]? = some (q,n)) :
    Apart p m q n := by
  obtain ⟨bound,first⟩ := List.getElem?_eq_some_iff.mp left
  obtain ⟨bound',second⟩ := List.getElem?_eq_some_iff.mp right
  have apart := List.pairwise_iff_getElem.mp S.apart i j bound bound' before
  change Apart S.areas[i].1 S.areas[i].2 S.areas[j].1 S.areas[j].2 at apart
  rwa [first,second] at apart

def frameWords (m : Machine) : List Word :=
  spilled.map m.reg ++ [alignedRsp m-16,m.rip,m.cs.setWidth 64,m.rflags,BitVec.ofNat 64 PREEMPT_MAGIC]

theorem fields_inside (m : Machine) : ∀ source ∈ fields, ∀ j, source = .word j → j < (saved m).length := by
  intro source member j equal
  subst equal
  simp only [fields,List.mem_cons,Source.word.injEq,reduceCtorEq,List.not_mem_nil,or_false,false_or] at member
  show j < 20
  omega

theorem fields_value (m : Machine) : fields.map (Source.value (saved m) (alignedRsp m-160)) = frameWords m := by
  simp only [fields,Source.value,saved,hardware,spilled,frameWords,List.map_cons,List.map_nil]
  have rsp : alignedRsp m-160+0x90 = alignedRsp m-16 := by bv_omega
  rw [rsp]
  rfl

-- Memory after a tick, apart from the scratch words below the interrupted stack.
def ticked (S : Statics) (mem : Memory) : Memory := write64 mem S.apicTicks (read64 mem S.apicTicks+1)

def stashed (S : Statics) (m : Machine) : Memory :=
  if taken S m.mem then
    writeWords (write64 (ticked S m.mem) S.preemptSwitches (read64 m.mem S.preemptSwitches+1))
      (frameAt S ((m.mem S.currentIdx).setWidth 64)) (frameWords m)
  else ticked S m.mem

def afterStub (S : Statics) (m : Machine) : Memory :=
  if read64 m.mem S.eoiBase = 0 then stashed S m else write32 (stashed S m) (read64 m.mem S.eoiBase) 0

-- The 160 bytes below the aligned stack: five words of the CPU, fifteen of the stub.
def scratch (m : Machine) : Word := alignedRsp m-160

structure Clear (S : Statics) (m : Machine) : Prop where
  statics : ∀ area ∈ S.areas, Apart (scratch m) 160 area.1 area.2
  eoi : read64 m.mem S.eoiBase ≠ 0 → Apart (scratch m) 160 (read64 m.mem S.eoiBase) 4

section effects
variable (S : Statics) (m : Machine)

theorem ticked_byte (mem : Memory) (apart : Apart p 1 S.apicTicks 8) : ticked S mem p = mem p := by
  apply write64_outside
  apply apart
  simp [Within]

theorem ticked_index (mem : Memory) : ticked S mem S.currentIdx = mem S.currentIdx :=
  ticked_byte S mem (statics_apart S (i:=1) (j:=5) (by decide) rfl rfl)

theorem ticked_taken (mem : Memory) : taken S (ticked S mem) = taken S mem := by
  have fence := ticked_byte S mem (statics_apart S (i:=0) (j:=5) (by decide) rfl rfl)
  have slots := ticked_byte S mem (statics_apart S (i:=2) (j:=5) (by decide) rfl rfl)
  rw [taken,taken,fence,ticked_index,slots]

theorem frame_offset (i : ℕ) : frameAt S (BitVec.ofNat 64 i) = S.taskFrames+BitVec.ofNat 64 (i*FRAME_STRIDE) := by
  rw [frameAt,BitVec.ofNat_mul]

theorem index_word (idx : BitVec 8) : idx.setWidth 64 = BitVec.ofNat 64 idx.toNat := by
  apply BitVec.eq_of_toNat_eq
  simp

theorem frame_within (idx : BitVec 8) (inside : idx.toNat < MAX_TASKS) (here : Within a (frameAt S (idx.setWidth 64)) FRAME_STRIDE) :
    Within a S.taskFrames (MAX_TASKS*FRAME_STRIDE) := by
  rw [index_word,frame_offset] at here
  refine within_sub here ?_ (by decide)
  have next : (idx.toNat+1)*FRAME_STRIDE ≤ MAX_TASKS*FRAME_STRIDE := Nat.mul_le_mul_right _ inside
  rwa [Nat.add_mul,Nat.one_mul] at next

theorem stashed_eoi : read64 (stashed S m) S.eoiBase = read64 m.mem S.eoiBase := by
  have first : read64 (ticked S m.mem) S.eoiBase = read64 m.mem S.eoiBase :=
    read64_kept (statics_apart S (i:=4) (j:=5) (by decide) rfl rfl) _ _
  unfold stashed
  split
  · rename_i yes
    have inside := (taken_iff.mp yes).2.1
    have frames : Apart S.taskFrames (MAX_TASKS*FRAME_STRIDE) S.eoiBase 8 := statics_apart S (i:=3) (j:=4) (by decide) rfl rfl
    have counted : read64 (write64 (ticked S m.mem) S.preemptSwitches (read64 m.mem S.preemptSwitches+1)) S.eoiBase =
        read64 (ticked S m.mem) S.eoiBase := read64_kept (statics_apart S (i:=4) (j:=6) (by decide) rfl rfl) _ _
    rw [← first,← counted]
    apply read64_congr
    intro a here
    apply writeWords_outside (by simp [frameWords,spilled])
    intro stored
    exact frames a (frame_within S _ inside stored) here
  · exact first

end effects

section paths
variable {S : Statics} {m k : Machine}

theorem saved_fits (m : Machine) : 8*(saved m).length ≤ 2^64 := by simp [saved,hardware,spilled]

theorem clear_area (clear : Clear S m) (pushed : Pushed (alignedRsp m) mem (saved m) k) (member : (p,n) ∈ S.areas) :
    Apart (k.reg .rsp) (8*(saved m).length) p n := by
  rw [pushed.rsp]
  exact clear.statics (p,n) member

theorem stash_exec (clear : Clear S m) (pushed : Pushed (alignedRsp m) (ticked S m.mem) (saved m) k) (rest : List Instr) : ∃ k',
    Pushed (alignedRsp m) (stashed S m) (saved m) k' ∧
    exec none (guards S ++ (locate S ++ copies 0 fields) ++ .label 2 :: rest) k = exec none rest k' := by
  have block : ∀ i ∈ locate S ++ copies 0 fields, i ≠ .label 2 := by
    simp [locate,fields,copies,Source.instr]
  obtain ⟨k₁,pushed₁,index,ran₁⟩ := guards_exec (S:=S) pushed (clear_area clear pushed (by simp [Statics.areas]))
    (clear_area clear pushed (by simp [Statics.areas])) (clear_area clear pushed (by simp [Statics.areas])) _ rest block
  rw [ticked_taken] at index ran₁
  by_cases yes : taken S m.mem = true
  · rw [if_pos yes,List.append_assoc (locate S)] at ran₁
    obtain ⟨k₂,pushed₂,rdi,ran₂⟩ := locate_exec (S:=S) pushed₁ (saved_fits m) (clear_area clear pushed₁ (by simp [Statics.areas]))
      (copies 0 fields ++ .label 2 :: rest)
    rw [index yes,ticked_index] at rdi
    have table : Apart (k₂.reg .rsp) (8*(saved m).length) S.taskFrames (MAX_TASKS*FRAME_STRIDE) :=
      clear_area clear pushed₂ (by simp [Statics.areas])
    have apart : Apart (k₂.reg .rsp) (8*(saved m).length) (k₂.reg .rdi) FRAME_STRIDE := by
      rw [rdi]
      intro a stacked framed
      exact table a stacked (frame_within S _ (taken_iff.mp yes).2.1 framed)
    obtain ⟨k₃,pushed₃,ran₃⟩ := copies_exec fields 0 pushed₂ (saved_fits m) (fields_inside m) (by decide) (by decide) apart
      (.label 2 :: rest)
    refine ⟨k₃,?_,ran₁.trans (ran₂.trans ran₃)⟩
    have switches : read64 (ticked S m.mem) S.preemptSwitches = read64 m.mem S.preemptSwitches :=
      read64_kept (apart_symm (statics_apart S (i:=5) (j:=6) (by decide) rfl rfl)) _ _
    have bottom : k₂.reg .rsp = alignedRsp m-160 := pushed₂.rsp
    rw [rdi,bottom,switches,fields_value m,Nat.mul_zero,BitVec.add_zero] at pushed₃
    rw [stashed,if_pos yes]
    exact pushed₃
  · rw [if_neg yes] at ran₁
    refine ⟨k₁,?_,ran₁⟩
    rw [stashed,if_neg yes]
    exact pushed₁

theorem stub_exec (clear : Clear S m) (selector : BitVec 16) (entry : Word) : ∃ m',
    exec none (lapicPreemptStub S) (m.deliver selector entry) = some m' ∧ m'.reg = m.reg ∧ m'.rip = m.rip ∧
    m'.rflags = m.rflags ∧ m'.cs = m.cs ∧ m'.ss = m.ss ∧ ∀ a, ¬ Within a (scratch m) 160 → m'.mem a = afterStub S m a := by
  rw [stub_parts]
  obtain ⟨k₁,ran₁,pushed₁⟩ := spilled_pushed m selector entry (.incQword S.apicTicks ::
    (guards S ++ (locate S ++ copies 0 fields) ++ .label 2 :: (acknowledge S ++ .label 3 :: finish)))
  have pushed₂ : Pushed (alignedRsp m) (ticked S m.mem) (saved m) (Instr.apply k₁ (.incQword S.apicTicks)) :=
    pushed_inc pushed₁ (saved_fits m) (clear_area clear pushed₁ (by simp [Statics.areas]))
  obtain ⟨k₃,pushed₃,ran₃⟩ := stash_exec clear pushed₂ (acknowledge S ++ .label 3 :: finish)
  have eoi := stashed_eoi S m
  obtain ⟨k₄,pushed₄,ran₄⟩ := acknowledge_exec (S:=S) pushed₃ (saved_fits m) (clear_area clear pushed₃ (by simp [Statics.areas]))
    (by rw [eoi,pushed₃.rsp]; exact clear.eoi) finish
  obtain ⟨m',ran₅,regs,rip,flags,cs,ss,memory⟩ := return_exec m pushed₄
  refine ⟨m',?_,regs,rip,flags,cs,ss,?_⟩
  · rw [ran₁,exec_step _ rfl,ran₃,ran₄,ran₅]
  · intro a outside
    have after := pushed₄.outside a (by rw [pushed₄.rsp]; exact outside)
    rw [memory,after,acknowledged,eoi]
    rfl

end paths
end RustyCore
