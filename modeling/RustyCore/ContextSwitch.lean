import RustyCore.X86Fragment
import RustyCore.TaskModel

namespace RustyCore.Coroutines
open ByteMemory X86Fragment Function

def contextSwitch : List Instr :=
  [.push .rbp,
    .push .rbx,
    .push .r12,
    .push .r13,
    .push .r14,
    .push .r15,
    .store .rdi 0x00 .rsp,
    .load .rsp .rsi 0x00,
    .pop .r15,
    .pop .r14,
    .pop .r13,
    .pop .r12,
    .pop .rbx,
    .pop .rbp,
    .ret]

-- The context `init_task_context` returns and the memory after its writes: six zeroed slots,
-- the fake return address, the pad. A build with overflow checks also refuses `top` below 64.
def initTaskContext (trampoline top : Word) (mem : Memory) : Option (Word × Memory) :=
  let rsp := top-64
  if top % 16 = 0 ∧ rsp % 16 = 0 ∧ (rsp+56) % 16 = 8 then
    some (rsp,writeWords mem rsp (List.replicate 6 0 ++ [trampoline,0]))
  else none

def calleeSaved : List Reg := [.rbp,.rbx,.r12,.r13,.r14,.r15]

theorem switch_parts : contextSwitch = calleeSaved.map .push ++
    (.store .rdi 0x00 .rsp :: .load .rsp .rsi 0x00 :: (calleeSaved.reverse.map .pop ++ [.ret])) := rfl

structure Saved where
  file : Reg → Word
  rip : Word
  rsp : Word

def Saved.words (c : Saved) : List Word := calleeSaved.reverse.map c.file ++ [c.rip]

def Saved.base (c : Saved) : Word := c.rsp-56

structure Resumed (c : Saved) (m : Machine) : Prop where
  registers : ∀ r ∈ calleeSaved, m.reg r = c.file r
  rip : m.rip = c.rip
  rsp : m.reg .rsp = c.rsp

def caller (m : Machine) (back : Word) : Saved := ⟨m.reg,back,m.reg .rsp⟩

theorem caller_pushed (m : Machine) (back target : Word) :
    Pushed (m.reg .rsp) m.mem (caller m back).words ((calleeSaved.map .push).foldl Instr.apply (m.call back target)) ∧
    ∀ r, r ≠ .rsp → ((calleeSaved.map .push).foldl Instr.apply (m.call back target)).reg r = m.reg r := by
  have other : ∀ r, r ≠ .rsp → (m.call back target).reg r = m.reg r := by
    intro r stack
    simp [Machine.call,Machine.push,stack]
  have start : Pushed (m.reg .rsp) m.mem [back] (m.call back target) :=
    pushed_congr (pushed_push (pushed_start m) (by simp) back) rfl rfl
  have values : calleeSaved.map (m.call back target).reg = calleeSaved.map m.reg := by
    apply List.map_congr_left
    intro r member
    apply other
    rintro rfl
    simp [calleeSaved] at member
  rw [pushes_apply calleeSaved (by decide),values]
  constructor
  · have pushed := pushed_all start (calleeSaved.map m.reg) (by simp [calleeSaved])
    rw [← List.map_reverse] at pushed
    exact pushed
  · intro r stack
    exact (pushes_reg stack _).trans (other r stack)

-- A call that can go through: RSI names a suspended context, and its field and frame, the
-- caller's field and the caller's stack do not overlap.
structure Switchable (m : Machine) (c : Saved) : Prop where
  field : read64 m.mem (m.reg .rsi) = c.base
  words : Holds m.mem c.base c.words
  stack : Apart (m.reg .rsp-56) 56 c.base 56
  target : Apart (m.reg .rsp-56) 56 (m.reg .rsi) 8
  source : Apart (m.reg .rsp-56) 56 (m.reg .rdi) 8
  fields : Apart (m.reg .rdi) 8 (m.reg .rsi) 8
  frame : Apart (m.reg .rdi) 8 c.base 56

structure Switched (m : Machine) (back : Word) (c : Saved) (m' : Machine) : Prop where
  resumed : Resumed c m'
  field : read64 m'.mem (m.reg .rdi) = (caller m back).base
  words : Holds m'.mem (caller m back).base (caller m back).words
  outside : ∀ a, ¬ Within a (m.reg .rsp-56) 56 → ¬ Within a (m.reg .rdi) 8 → m'.mem a = m.mem a

theorem words_length (c : Saved) : 8*c.words.length = 56 := by simp [Saved.words,calleeSaved]

theorem switch_middle (m : Machine) (back target : Word) (ready : Switchable m c) : ∃ k,
    exec none contextSwitch (m.call back target) = exec none (calleeSaved.reverse.map .pop ++ [.ret]) k ∧
    loads none contextSwitch (m.call back target) =
      (m.reg .rsi,8) :: loads none (calleeSaved.reverse.map .pop ++ [.ret]) k ∧
    k.reg .rsp = c.base ∧ Holds k.mem c.base c.words ∧
    read64 k.mem (m.reg .rdi) = (caller m back).base ∧ Holds k.mem (caller m back).base (caller m back).words ∧
    ∀ a, ¬ Within a (m.reg .rsp-56) 56 → ¬ Within a (m.reg .rdi) 8 → k.mem a = m.mem a := by
  obtain ⟨pushed,others⟩ := caller_pushed m back target
  rw [switch_parts,exec_block _ (by decide),loads_pushes]
  generalize (calleeSaved.map .push).foldl Instr.apply (m.call back target) = k at pushed others ⊢
  have rsp : k.reg .rsp = m.reg .rsp-56 := by
    rw [pushed.rsp,words_length]
    rfl
  have rdi := others .rdi (by decide)
  have rsi := others .rsi (by decide)
  have memory : ∀ a, ¬ Within a (m.reg .rsp-56) 56 → ¬ Within a (m.reg .rdi) 8 →
      write64 k.mem (m.reg .rdi) (m.reg .rsp-56) a = m.mem a := by
    intro a outside unsaved
    rw [write64_outside unsaved]
    apply pushed.outside
    rw [rsp,words_length]
    exact outside
  have field : read64 (write64 k.mem (m.reg .rdi) (m.reg .rsp-56)) (m.reg .rsi) = c.base := by
    rw [← ready.field]
    exact read64_congr fun a here => memory a (fun stacked => ready.target a stacked here)
      (fun unsaved => ready.fields a unsaved here)
  let moved := Instr.apply (Instr.apply k (.store .rdi 0x00 .rsp)) (.load .rsp .rsi 0x00)
  have stored : moved.mem = write64 k.mem (m.reg .rdi) (m.reg .rsp-56) := by simp [moved,Instr.apply,Machine.set,rdi,rsp]
  refine ⟨moved,rfl,?_,?_,?_,?_,?_,?_⟩
  · have read : (Instr.apply k (.store .rdi 0x00 .rsp)).reg .rsi+0x00 = m.reg .rsi := by simp [Instr.apply,rsi]
    rw [← read]
    rfl
  · rw [← field]
    simp [moved,Instr.apply,Machine.set,rdi,rsi,rsp]
  · rw [stored]
    refine holds_congr ready.words (by rw [words_length]; decide) ?_
    rw [words_length]
    intro a here
    exact memory a (fun stacked => ready.stack a stacked here) (fun unsaved => ready.frame a unsaved here)
  · rw [stored]
    exact read64_written _ _ _
  · have held := pushed.holds
    rw [rsp] at held
    rw [stored]
    refine holds_congr held (by rw [words_length]; decide) ?_
    rw [words_length]
    exact fun a here => write64_outside (ready.source a here)
  · rw [stored]
    exact memory

theorem switch_exec (m : Machine) (back target : Word) (ready : Switchable m c) :
    ∃ m', exec none contextSwitch (m.call back target) = some m' ∧ Switched m back c m' ∧
      loads none contextSwitch (m.call back target) = (m.reg .rsi,8) :: wordsFrom c.base 7 := by
  obtain ⟨k,ran,read,base,words,field,own,outside⟩ := switch_middle m back target ready
  rw [← base] at words
  have filled := pops_apply calleeSaved.reverse (by decide) c.file [c.rip] words
  have rsp : (k.restored calleeSaved.reverse c.file).reg .rsp = c.base+48 := by
    rw [← base]
    rfl
  have back : read64 k.mem (c.base+48) = c.rip := by
    rw [base] at words
    exact (holds_drop words).1
  refine ⟨(k.restored calleeSaved.reverse c.file).ret,?_,⟨⟨?_,?_,?_⟩,field,own,outside⟩,?_⟩
  · rw [ran,exec_pops calleeSaved.reverse (by decide) c.file [c.rip] [.ret] words]
    rfl
  · intro r member
    have other : r ≠ .rsp := by
      rintro rfl
      simp [calleeSaved] at member
    simp [Machine.ret,Machine.restored,other,member]
  · show read64 k.mem _ = _
    rw [rsp,back]
  · simp only [Machine.ret,update_self,rsp,Saved.base]
    bv_omega
  · rw [read,loads_pops calleeSaved.reverse (by decide),filled,base]
    show _ :: (_ ++ [((k.restored calleeSaved.reverse c.file).reg .rsp,8)]) = _
    rw [rsp]
    rfl

structure Layout (ι : Type) where
  field : ι → Word
  stack : ι → Set Word
  separate : ∀ i j, i ≠ j → Disjoint (stack i) (stack j)
  fields : ∀ i j, i ≠ j → Apart (field i) 8 (field j) 8
  clear : ∀ i j a, Within a (field i) 8 → a ∉ stack j

-- How a context came to be suspended: by its own call of `context_switch`, made in the
-- given state with the given return address, or by `init_task_context` at a stack top.
inductive Suspension where
  | yielded (call : Machine) (back : Word)
  | fresh (top : Word)

def Suspension.saved (trampoline : Word) : Suspension → Saved
  | .yielded call back => caller call back
  | .fresh top => ⟨fun _ => 0,trampoline,top-8⟩

structure System (ι : Type) where
  machine : Machine
  current : ι
  suspended : ι → Option Suspension

structure Calls (layout : Layout ι) (s : System ι) (j : ι) : Prop where
  old : s.machine.reg .rdi = layout.field s.current
  new : s.machine.reg .rsi = layout.field j
  room : ∀ a, Within a (s.machine.reg .rsp-56) 56 → a ∈ layout.stack s.current

-- `work` is anything the running code does, to the registers as well as to memory.
inductive Step [DecidableEq ι] (layout : Layout ι) (trampoline : Word) : System ι → System ι → Prop where
  | work (frames : ∀ i, i ≠ s.current → ∀ a ∈ layout.stack i, m.mem a = s.machine.mem a)
      (fields : ∀ i, i ≠ s.current → ∀ a, Within a (layout.field i) 8 → m.mem a = s.machine.mem a) :
      Step layout trampoline s {s with machine := m}
  | create (i : ι) (top : Word) (other : i ≠ s.current) (room : ∀ a, Within a (top-64) 64 → a ∈ layout.stack i)
      (built : initTaskContext trampoline top s.machine.mem = some (rsp,mem)) :
      Step layout trampoline s
        {s with machine := {s.machine with mem := write64 mem (layout.field i) rsp}
                suspended := update s.suspended i (some (.fresh top))}
  | switch (j : ι) (back target : Word) (calls : Calls layout s j) (known : s.suspended j = some x)
      (ran : exec none contextSwitch (s.machine.call back target) = some m) :
      Step layout trampoline s
        ⟨m,j,update (update s.suspended s.current (some (.yielded s.machine back))) j none⟩

-- Boot runs on one stack, in any state, with no context saved.
inductive Reached [DecidableEq ι] (layout : Layout ι) (trampoline : Word) : System ι → Prop where
  | boot (m : Machine) (i : ι) : Reached layout trampoline ⟨m,i,fun _ => none⟩
  | step (before : Reached layout trampoline s) (step : Step layout trampoline s s') : Reached layout trampoline s'

structure Frame (layout : Layout ι) (i : ι) (c : Saved) (mem : Memory) : Prop where
  field : read64 mem (layout.field i) = c.base
  words : Holds mem c.base c.words
  stack : ∀ a, Within a c.base 56 → a ∈ layout.stack i

structure Kept (layout : Layout ι) (trampoline : Word) (s : System ι) : Prop where
  running : s.suspended s.current = none
  frames : ∀ i x, s.suspended i = some x → Frame layout i (x.saved trampoline) s.machine.mem
  aligned : ∀ i top, s.suspended i = some (.fresh top) → top % 16 = 0

section system
variable {ι : Type} {layout : Layout ι} {trampoline : Word} {s s' : System ι}

theorem frame_congr (frame : Frame layout i c mem) (stack : ∀ a ∈ layout.stack i, mem' a = mem a)
    (field : ∀ a, Within a (layout.field i) 8 → mem' a = mem a) : Frame layout i c mem' := by
  refine ⟨(read64_congr field).trans frame.field,?_,frame.stack⟩
  refine holds_congr frame.words (by rw [words_length]; decide) ?_
  rw [words_length]
  exact fun a inside => stack a (frame.stack a inside)

theorem separate_stacks (other : i ≠ j) (left : ∀ a, Within a p m → a ∈ layout.stack i)
    (right : ∀ a, Within a q n → a ∈ layout.stack j) : Apart p m q n := by
  intro a inside within
  exact Set.disjoint_left.mp (layout.separate i j other) (left a inside) (right a within)

theorem kept_switchable (kept : Kept layout trampoline s) (calls : Calls layout s j) (known : s.suspended j = some x) :
    Switchable s.machine (x.saved trampoline) := by
  have other : s.current ≠ j := by
    rintro rfl
    rw [kept.running] at known
    cases known
  have frame := kept.frames j x known
  refine ⟨?_,frame.words,separate_stacks other calls.room frame.stack,?_,?_,?_,?_⟩
  · rw [calls.new]
    exact frame.field
  · rw [calls.new]
    exact fun a inside within => layout.clear j _ a within (calls.room a inside)
  · rw [calls.old]
    exact fun a inside within => layout.clear _ _ a within (calls.room a inside)
  · rw [calls.old,calls.new]
    exact layout.fields _ _ other
  · rw [calls.old]
    exact fun a within inside => layout.clear _ j a within (frame.stack a inside)

theorem init_parts (built : initTaskContext trampoline top mem = some (rsp,mem')) :
    rsp = top-64 ∧ top % 16 = 0 ∧ mem' = writeWords mem (top-64) (List.replicate 6 0 ++ [trampoline,0]) := by
  dsimp only [initTaskContext] at built
  split at built
  · next checks =>
      cases built
      exact ⟨rfl,checks.1,rfl⟩
  · cases built

theorem aligned_parts {top : Word} (aligned : top.toNat % 16 = 0) : top % 16 = 0 ∧ (top-64) % 16 = 0 ∧ (top-64+56) % 16 = 8 := by
  refine ⟨?_,?_,?_⟩
  all_goals apply BitVec.eq_of_toNat_eq
  · exact aligned
  · show (top-64).toNat % 16 = 0
    bv_omega
  · show (top-64+56).toNat % 16 = 8
    bv_omega

theorem init_agrees (p : Profile) (trampoline : Word) (mem : Memory) (aligned : top % 16 = 0) (low : 64 ≤ top) (high : top < 2^64) :
    ∃ rsp mem', RustyCore.initTaskContext p top = pure rsp.toNat ∧
      initTaskContext trampoline (BitVec.ofNat 64 top) mem = some (rsp,mem') := by
  have word : (BitVec.ofNat 64 top).toNat = top := Nat.mod_eq_of_lt high
  have checks := @aligned_parts (BitVec.ofNat 64 top) (by rw [word]; exact aligned)
  have rsp : (BitVec.ofNat 64 top-64).toNat = top-64 := by bv_omega
  refine ⟨BitVec.ofNat 64 top-64,_,?_,if_pos checks⟩
  rw [rsp]
  have lower : (top-64) % 16 = 0 := by omega
  have parity : (top-64+56) % 16 = 8 := by omega
  have below : p.sub top 64 = .ok (top-64) := if_pos low
  have above : p.add (top-64) 56 = .ok (top-64+56) := if_pos (by omega)
  simp only [RustyCore.initTaskContext,lift,below,above,aligned,pure_bind,lower,parity]
  rfl

theorem fresh_base (trampoline top : Word) : ((Suspension.fresh top).saved trampoline).base = top-64 := by
  simp only [Suspension.saved,Saved.base]
  bv_omega

theorem init_frame (built : initTaskContext trampoline top mem = some (rsp,mem'))
    (room : ∀ a, Within a (top-64) 64 → a ∈ layout.stack i) :
    Frame layout i ((Suspension.fresh top).saved trampoline) (write64 mem' (layout.field i) rsp) := by
  obtain ⟨rfl,-,rfl⟩ := init_parts built
  have stack : ∀ a, Within a (top-64) 56 → a ∈ layout.stack i := by
    intro a inside
    apply room
    unfold Within at inside ⊢
    omega
  have written : Holds (writeWords mem (top-64) (List.replicate 6 0 ++ [trampoline,0])) (top-64)
      (List.replicate 6 0 ++ [trampoline] ++ [0]) := writeWords_holds mem (top-64) (by simp)
  have words : Holds (writeWords mem (top-64) (List.replicate 6 0 ++ [trampoline,0])) (top-64)
      ((Suspension.fresh top).saved trampoline).words := holds_take written
  refine ⟨?_,?_,?_⟩
  · rw [fresh_base]
    exact read64_written _ _ _
  · rw [fresh_base]
    refine holds_congr words (by rw [words_length]; decide) ?_
    rw [words_length]
    exact fun a inside => write64_outside fun within => layout.clear i i a within (stack a inside)
  · rw [fresh_base]
    exact stack

theorem switch_result (kept : Kept layout trampoline s) (calls : Calls layout s j) (known : s.suspended j = some x)
    (ran : exec none contextSwitch (s.machine.call back target) = some m) : Switched s.machine back (x.saved trampoline) m := by
  obtain ⟨m',done,switched,-⟩ := switch_exec s.machine back target (kept_switchable kept calls known)
  rw [ran] at done
  cases done
  exact switched

variable [DecidableEq ι]

theorem step_frames (kept : Kept layout trampoline s) (step : Step layout trampoline s s') :
    ∀ i x, s'.suspended i = some x → Frame layout i (x.saved trampoline) s'.machine.mem := by
  cases step with
  | work frames fields =>
      intro i x known
      have other : i ≠ s.current := by
        rintro rfl
        cases kept.running.symm.trans known
      exact frame_congr (kept.frames i x known) (frames i other) (fields i other)
  | create i top other room built =>
      intro k x known
      by_cases same : k = i
      · subst same
        cases (update_self _ _ _).symm.trans known
        exact init_frame built room
      have before := (update_of_ne same _ _).symm.trans known
      obtain ⟨rfl,-,rfl⟩ := init_parts built
      have memory : ∀ a, a ∉ layout.stack i → ¬ Within a (layout.field i) 8 →
          write64 (writeWords s.machine.mem (top-64) (List.replicate 6 0 ++ [trampoline,0])) (layout.field i) (top-64) a =
            s.machine.mem a := by
        intro a away unsaved
        rw [write64_outside unsaved]
        exact writeWords_outside (by simp) fun inside => away (room a inside)
      refine frame_congr (kept.frames k x before) ?_ ?_
      · exact fun a inside => memory a (Set.disjoint_left.mp (layout.separate k i same) inside)
          fun within => layout.clear i k a within inside
      · exact fun a within => memory a (layout.clear k i a within) (layout.fields k i same a within)
  | switch j back entry calls known ran =>
      have switched := switch_result kept calls known ran
      intro k y here
      by_cases target : k = j
      · subst target
        cases (update_self _ _ _).symm.trans here
      have before := (update_of_ne target _ _).symm.trans here
      by_cases source : k = s.current
      · subst source
        cases (update_self _ _ _).symm.trans before
        have field := switched.field
        rw [calls.old] at field
        exact ⟨field,switched.words,calls.room⟩
      · have earlier := (update_of_ne source _ _).symm.trans before
        have outside := switched.outside
        rw [calls.old] at outside
        refine frame_congr (kept.frames k y earlier) ?_ ?_
        · exact fun a inside => outside a (fun stacked => Set.disjoint_left.mp (layout.separate k _ source) inside (calls.room a stacked))
            fun within => layout.clear _ k a within inside
        · exact fun a within => outside a (fun stacked => layout.clear k _ a within (calls.room a stacked))
            (layout.fields k _ source a within)

theorem step_running (kept : Kept layout trampoline s) (step : Step layout trampoline s s') :
    s'.suspended s'.current = none := by
  cases step with
  | work frames fields => exact kept.running
  | create i top other room built => exact (update_of_ne (Ne.symm other) _ _).trans kept.running
  | switch j back target calls known ran => exact update_self _ _ _

theorem step_aligned (kept : Kept layout trampoline s) (step : Step layout trampoline s s') :
    ∀ i top, s'.suspended i = some (.fresh top) → top % 16 = 0 := by
  intro k top' known
  cases step with
  | work frames fields => exact kept.aligned k top' known
  | create i top other room built =>
      by_cases same : k = i
      · subst same
        cases (update_self _ _ _).symm.trans known
        exact (init_parts built).2.1
      · exact kept.aligned k top' ((update_of_ne same _ _).symm.trans known)
  | switch j back entry calls _ ran =>
      by_cases target : k = j
      · subst target
        cases (update_self _ _ _).symm.trans known
      have before := (update_of_ne target _ _).symm.trans known
      by_cases source : k = s.current
      · subst source
        cases (update_self _ _ _).symm.trans before
      · exact kept.aligned k top' ((update_of_ne source _ _).symm.trans before)

theorem reached_kept (reached : Reached layout trampoline s) : Kept layout trampoline s := by
  induction reached with
  | boot m i =>
      refine ⟨rfl,?_,?_⟩
      · intro k x known
        cases known
      · intro k top known
        cases known
  | step before step kept => exact ⟨step_running kept step,step_frames kept step,step_aligned kept step⟩

theorem top_parity {top : Word} (aligned : top % 16 = 0) : (top-8) % 16 = 8 := by
  have natural : top.toNat % 16 = 0 := congrArg BitVec.toNat aligned
  apply BitVec.eq_of_toNat_eq
  show (top-8).toNat % 16 = 8
  bv_omega

-- Whoever is switched to goes on as if its own call had returned; a fresh context starts in
-- the trampoline, and of its stack only the 56 bytes below the pad are read.
theorem context_switch_coroutines (reached : Reached layout trampoline s) (calls : Calls layout s j) (back target : Word) :
    (∀ call own, s.suspended j = some (.yielded call own) →
      ∃ m, exec none contextSwitch (s.machine.call back target) = some m ∧ m.rip = own ∧
        ∀ r ∈ [.rbp,.rbx,.r12,.r13,.r14,.r15,.rsp], m.reg r = call.reg r) ∧
    ∀ top, s.suspended j = some (.fresh top) →
      ∃ m, exec none contextSwitch (s.machine.call back target) = some m ∧ m.rip = trampoline ∧
        (∀ r ∈ [.rbp,.rbx,.r12,.r13,.r14,.r15], m.reg r = 0) ∧ m.reg .rsp = top-8 ∧ m.reg .rsp % 16 = 8 ∧
        loads none contextSwitch (s.machine.call back target) = (layout.field j,8) :: wordsFrom (top-64) 7 := by
  have kept := reached_kept reached
  constructor
  · intro call own known
    obtain ⟨m,ran,switched,-⟩ := switch_exec s.machine back target (kept_switchable kept calls known)
    refine ⟨m,ran,switched.resumed.rip,?_⟩
    intro r member
    by_cases stack : r = .rsp
    · subst stack
      exact switched.resumed.rsp
    · apply switched.resumed.registers r
      simpa [calleeSaved,stack] using member
  · intro top known
    obtain ⟨m,ran,switched,read⟩ := switch_exec s.machine back target (kept_switchable kept calls known)
    have rsp : m.reg .rsp = top-8 := switched.resumed.rsp
    rw [calls.new,fresh_base] at read
    refine ⟨m,ran,switched.resumed.rip,switched.resumed.registers,rsp,?_,read⟩
    rw [rsp]
    exact top_parity (kept.aligned j top known)

end system

def sampleBottom (i : Bool) : Word := if i then 0x3000 else 0x2000

def sampleLayout : Layout Bool where
  field i := if i then 0x1008 else 0x1000
  stack i := {a | Within a (sampleBottom i) 0x1000}
  separate i j other := by
    apply Set.disjoint_left.mpr
    cases i <;> cases j <;> first | exact absurd rfl other | exact separate_apart (by decide)
  fields i j other := by cases i <;> cases j <;> first | exact absurd rfl other | exact separate_apart (by decide)
  clear i j := by cases i <;> cases j <;> exact separate_apart (by decide)

def sampleArguments (current : Bool) (m : Machine) : Machine :=
  {m with reg := update (update (update m.reg .rdi (sampleLayout.field current)) .rsi (sampleLayout.field !current)) .rsp
            (sampleBottom current+0x800)}

theorem sample_calls (rdi : s.machine.reg .rdi = sampleLayout.field s.current) (rsi : s.machine.reg .rsi = sampleLayout.field j)
    (rsp : s.machine.reg .rsp = sampleBottom s.current+0x800) : Calls sampleLayout s j := by
  have low : s.machine.reg .rsp-56 = sampleBottom s.current+BitVec.ofNat 64 0x7C8 := by
    rw [rsp]
    bv_omega
  refine ⟨rdi,rsi,?_⟩
  intro a inside
  rw [low] at inside
  exact within_sub inside (by decide) (by decide)

def sampleMachine : Machine := sampleArguments false ⟨fun _ => 7,0,0,0,0,fun _ => 0,fun _ => 0⟩

def sampleSystem : System Bool :=
  ⟨{sampleMachine with mem := write64 (writeWords sampleMachine.mem 0x3FC0 [0,0,0,0,0,0,0x9000,0]) 0x1008 0x3FC0},false,
    update (fun _ => none) true (some (.fresh 0x4000))⟩

theorem sample_reached : Reached sampleLayout 0x9000 sampleSystem := by
  refine .step (.boot sampleMachine false) (.create true 0x4000 (by decide) ?_ rfl)
  intro a inside
  exact within_sub (k:=0xFC0) inside (by decide) (by decide)

theorem context_switch_coroutines_sample :
    ∃ m, exec none contextSwitch (sampleSystem.machine.call 0x100 0x200) = some m ∧ m.rip = 0x9000 ∧ m.reg .rsp = 0x3FF8 ∧
    ∃ m', exec none contextSwitch ((sampleArguments true m).call 0x300 0x200) = some m' ∧ m'.rip = 0x100 ∧
      m'.reg .rsp = 0x2800 ∧ m'.reg .rbx = 7 := by
  have calls : Calls sampleLayout sampleSystem true := sample_calls rfl rfl rfl
  obtain ⟨m,ran,rip,-,rsp,-⟩ := (context_switch_coroutines sample_reached calls 0x100 0x200).2 0x4000 rfl
  have switched := sample_reached.step (.switch true 0x100 0x200 calls rfl ran)
  have working := switched.step (.work (m := sampleArguments true m) (fun _ _ _ _ => rfl) (fun _ _ _ _ => rfl))
  obtain ⟨m',ran',rip',registers⟩ :=
    (context_switch_coroutines (j:=false) working (sample_calls rfl rfl rfl) 0x300 0x200).1 sampleSystem.machine 0x100 rfl
  exact ⟨m,ran,rip,rsp,m',ran',rip',registers .rsp (by decide),registers .rbx (by decide)⟩

end RustyCore.Coroutines
