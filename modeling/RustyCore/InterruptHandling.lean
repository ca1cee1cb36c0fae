import RustyCore.ChainedPics
import RustyCore.InterruptedPrograms
import RustyCore.RustArithmetic

namespace RustyCore.Interrupts
open InterruptedPrograms ChainedPics Relation

-- interrupts.rs and idt.rs

def PIC_1_OFFSET : ℕ := 32
def PIC_2_OFFSET : ℕ := PIC_1_OFFSET+8
def TIMER_VECTOR : ℕ := 32
def KEYBOARD_VECTOR : ℕ := 33
def SYSCALL_VECTOR : ℕ := 0x80
def LAPIC_TIMER_VECTOR : ℕ := 0xEF
def LAPIC_ERROR_VECTOR : ℕ := 0xFE
def SPURIOUS_APIC_VECTOR : ℕ := 0xFF
def SPURIOUS_PIC_MASTER_VECTOR : ℕ := 39
def SPURIOUS_PIC_SLAVE_VECTOR : ℕ := 47

inductive Handler where
  | breakpoint | doubleFault | pageFault | gp | stackSegment | invalidOpcode | divideError
  | timer | keyboard | syscallStub | lapicPreemptStub | apicError | spurious | spuriousPicMaster | spuriousPicSlave
  deriving DecidableEq, Repr

def gates : List (ℕ × Handler) :=
  [(3,.breakpoint),(8,.doubleFault),(14,.pageFault),(13,.gp),(12,.stackSegment),(6,.invalidOpcode),(0,.divideError),
    (TIMER_VECTOR,.timer),(KEYBOARD_VECTOR,.keyboard),(SYSCALL_VECTOR,.syscallStub),(LAPIC_TIMER_VECTOR,.lapicPreemptStub),
    (LAPIC_ERROR_VECTOR,.apicError),(SPURIOUS_APIC_VECTOR,.spurious),(SPURIOUS_PIC_MASTER_VECTOR,.spuriousPicMaster),
    (SPURIOUS_PIC_SLAVE_VECTOR,.spuriousPicSlave)]

-- The processor, the two PICs and the lock around them, with the counters of the handlers. `stuck`: a handler
-- spins on the lock of the code it interrupted; `panicked`: an exception was raised.
structure State where
  interruptFlag : Bool
  locked : Bool
  pics : Pics
  timerTicks : ℕ
  apicTicks : ℕ
  spuriousHits : ℕ
  scancodes : ℕ
  syscallHits : ℕ
  stuck : Bool
  panicked : Bool
  deriving DecidableEq, Repr

-- What the kernel takes from spin, pic8259 and x86_64, as programs that interrupts may break into.
structure Crates where
  lock : Prog State Fault Unit
  unlock : Prog State Fault Unit
  initialise : Prog State Fault Unit
  readMasks : Prog State Fault (BitVec 8 × BitVec 8)
  writeMasks : (master slave : BitVec 8) → Prog State Fault Unit
  notifyEndOfInterrupt : (id : ℕ) → Prog State Fault Unit
  withoutInterrupts : (body : Prog State Fault Unit) → Prog State Fault Unit

def bump (n : ℕ) : ℕ := (n+1) % 2^64

section model
variable (c : Crates)

-- `PICS.lock().notify_end_of_interrupt(id)` in a handler, where nothing else runs before it returns.
def endOfInterrupt (id : ℕ) (s : State) : State :=
  match (do c.lock; c.notifyEndOfInterrupt id; c.unlock : Prog State Fault Unit).alone s with
  | .ok (_,s) => s
  | .error _ => {s with stuck := true}

def handle : Handler → State → State
  | .timer,s => endOfInterrupt c TIMER_VECTOR {s with timerTicks := bump s.timerTicks}
  | .keyboard,s => endOfInterrupt c KEYBOARD_VECTOR {s with scancodes := s.scancodes+1}
  | .syscallStub,s => {s with syscallHits := bump s.syscallHits}
  | .lapicPreemptStub,s => {s with apicTicks := bump s.apicTicks}
  | .spurious,s => {s with spuriousHits := bump s.spuriousHits}
  | .spuriousPicMaster,s => {s with spuriousHits := bump s.spuriousHits}
  | .spuriousPicSlave,s => endOfInterrupt c SPURIOUS_PIC_MASTER_VECTOR {s with spuriousHits := bump s.spuriousHits}
  | .breakpoint,s | .apicError,s => s
  | .doubleFault,s | .pageFault,s | .gp,s | .stackSegment,s | .invalidOpcode,s | .divideError,s => {s with panicked := true}

-- A vector without a gate ends in the handler of general protection faults.
def dispatch (vector : ℕ) (s : State) : State := handle c ((gates.lookup vector).getD .gp) s

-- What may happen between two instructions: a line of the PICs rises, and with interrupts on a PIC or the
-- LAPIC delivers, spurious vectors included.
inductive Irq : State → State → Prop where
  | raise (n : ℕ) : Irq s {s with pics := s.pics.raise n}
  | pic : s.interruptFlag = true → Irq s (dispatch c s.pics.acknowledge.1 {s with pics := s.pics.acknowledge.2})
  | lapic : s.interruptFlag = true → vector ∈ [LAPIC_TIMER_VECTOR,LAPIC_ERROR_VECTOR,SPURIOUS_APIC_VECTOR] →
      Irq s (dispatch c vector s)

def setFlag (on : Bool) : Prog State Fault Unit := .store fun s => {s with interruptFlag := on}

def init : Prog State Fault Unit := do
  c.lock
  c.initialise
  c.writeMasks 0xFF#8 0xFF#8
  c.unlock

def editMasks (f : BitVec 8 → BitVec 8) : Prog State Fault Unit := do
  c.lock
  let masks ← c.readMasks
  c.writeMasks (f masks.1) masks.2
  c.unlock

-- `timer::init`, after the PIT is programmed.
def timerInit (p : Profile) : Prog State Fault Unit := do
  let enabled ← Prog.load (·.interruptFlag)
  Prog.require (decide (p = .release) || !enabled)
    (.panicked "timer::init must run with interrupts disabled (PICS lock is not IRQ-safe)")
  editMasks c (· &&& ~~~ 1#8)

-- `apic::promote` and `apic::rollback_to_pit`, as far as the PICs go.
def promote : Prog State Fault Unit := c.withoutInterrupts (editMasks c (· ||| 1#8))
def rollbackToPit : Prog State Fault Unit := c.withoutInterrupts (editMasks c (· &&& ~~~ 1#8))

def int (vector : ℕ) : Prog State Fault Unit := .store (dispatch c vector)

def selfTest : Prog State Fault Unit := do
  int c SYSCALL_VECTOR
  int c SYSCALL_VECTOR
  let hits ← Prog.load (·.syscallHits)
  Prog.require (hits == 2) (.panicked s!"assertion `left == right` failed: syscall stub fired twice but handler saw {hits}")

-- What the rest of the kernel may ask for, in any order; tasks and the switch turn interrupts off and on.
inductive Call where
  | promote | rollbackToPit | cli | sti
  deriving DecidableEq, Repr

def Call.run : Call → Prog State Fault Unit
  | .promote => Interrupts.promote c
  | .rollbackToPit => Interrupts.rollbackToPit c
  | .cli => setFlag false
  | .sti => setFlag true

def runCalls : List Call → Prog State Fault Unit
  | [] => return ()
  | call :: rest => do
    call.run c
    runCalls rest

-- `kernel_main` from its first instruction on, as far as interrupts go.
def kernelMain (p : Profile) (calls : List Call) : Prog State Fault Unit := do
  setFlag false
  init c
  timerInit c p
  setFlag true
  int c 3
  selfTest c
  runCalls c calls

end model

structure Mode where
  on : Bool
  held : Bool
  ready : Bool
  master : BitVec 8
  slave : BitVec 8

def Mode.Legal (mode : Mode) (frozen : Option ℕ) : Prop := mode.on = true →
  mode.held = false ∧ mode.ready = true ∧ mode.slave = 0xFF#8 ∧ mode.master ||| 1#8 = 0xFF#8 ∧
    (frozen.isSome = true → mode.master = 0xFF#8)

structure In (mode : Mode) (frozen hits : Option ℕ) (s : State) : Prop where
  on : s.interruptFlag = mode.on
  held : s.locked = mode.held
  master : s.pics.master.imr = mode.master
  slave : s.pics.slave.imr = mode.slave
  ready : mode.ready = true → s.pics.master.offset = PIC_1_OFFSET
  idle : s.pics.master.isr = 0#8 ∧ s.pics.slave.isr = 0#8
  calm : s.stuck = false ∧ s.panicked = false ∧ s.scancodes = 0
  ticks : ∀ n ∈ frozen, s.timerTicks = n
  hits : ∀ n ∈ hits, s.syscallHits = n

-- The crates in a handler: a free lock is taken, and the end of an interrupt goes to the master alone.
structure Crates.Alone (c : Crates) : Prop where
  locks : ∀ s, s.locked = false → c.lock.alone s = .ok ((),{s with locked := true})
  unlocks : ∀ s, c.unlock.alone s = .ok ((),{s with locked := false})
  notifies : ∀ id s, PIC_1_OFFSET ≤ id → id < PIC_2_OFFSET →
    (c.notifyEndOfInterrupt id).alone s = .ok ((),{s with pics := {s.pics with master := s.pics.master.endOfInterrupt}})

theorem Crates.Alone.ends {c : Crates} {id : ℕ} (alone : c.Alone) (free : s.locked = false) (low : PIC_1_OFFSET ≤ id)
    (high : id < PIC_2_OFFSET) :
    endOfInterrupt c id s = {s with pics := {s.pics with master := s.pics.master.endOfInterrupt}} := by
  simp only [endOfInterrupt,Prog.alone_bind,alone.locks s free,alone.notifies _ _ low high,alone.unlocks,
    Except.bind]
  rw [← free]

theorem open_only (closed : master ||| 1#8 = 0xFF#8) (bound : n < 8) (off : master.getLsbD n = false) : n = 0 := by
  have bit : (master.getLsbD n || (1#8).getLsbD n) = (0xFF#8).getLsbD n := by rw [← BitVec.getLsbD_or,closed]
  rw [off] at bit
  clear off closed
  interval_cases n <;> revert bit <;> decide

theorem acknowledge_cases {p : Pics} (closed : p.master.imr ||| 1#8 = 0xFF#8) :
    (p.master.pending = some 0 ∧ p.acknowledge = (p.master.offset,{p with master := p.master.acknowledge.2})) ∨
    p.master.pending = none ∧ p.acknowledge = (p.master.offset+7,p) := by
  cases found : p.master.pending with
  | none => exact Or.inr ⟨rfl,by simp [Pics.acknowledge,Pic.acknowledge,found]⟩
  | some n =>
      obtain ⟨bound,_,off⟩ := Pic.pending_cases found
      obtain rfl := open_only closed bound off
      exact Or.inl ⟨rfl,by simp [Pics.acknowledge,Pic.acknowledge,found]⟩

theorem timer_served {c : Crates} (alone : c.Alone) {s : State} (unlocked : s.locked = false) (idle : s.pics.master.isr = 0#8)
    (found : s.pics.master.pending = some 0) :
    dispatch c PIC_1_OFFSET {s with pics := {s.pics with master := s.pics.master.acknowledge.2}} = {s with
      timerTicks := bump s.timerTicks
      pics := {s.pics with master := {s.pics.master with irr := s.pics.master.irr &&& ~~~ (1#8 <<< 0)}}} := by
  have ended := Pic.acknowledge_ended idle found
  change endOfInterrupt c TIMER_VECTOR _ = _
  refine (alone.ends ?_ (by decide) (by decide)).trans ?_
  · exact unlocked
  · simp only [ended]

section stable
variable {c : Crates} {mode : Mode} {frozen hits : Option ℕ} {s s' : State}

theorem In.raise (here : In mode frozen hits s) (n : ℕ) : In mode frozen hits {s with pics := s.pics.raise n} := by
  have kept : (s.pics.raise n).master.imr = s.pics.master.imr ∧ (s.pics.raise n).slave.imr = s.pics.slave.imr ∧
      (s.pics.raise n).master.isr = s.pics.master.isr ∧ (s.pics.raise n).slave.isr = s.pics.slave.isr ∧
      (s.pics.raise n).master.offset = s.pics.master.offset := by
    unfold Pics.raise
    dsimp only
    split
    · simp [Pic.raise]
    · split <;> simp [Pic.raise]
  obtain ⟨master,slave,served,served',offset⟩ := kept
  exact {here with
    master := master.trans here.master
    slave := slave.trans here.slave
    ready := fun set => offset.trans (here.ready set)
    idle := ⟨served.trans here.idle.1,served'.trans here.idle.2⟩}

theorem In.irq (alone : c.Alone) (legal : mode.Legal frozen) (here : In mode frozen hits s) (fired : Irq c s s') :
    In mode frozen hits s' := by
  cases fired with
  | raise n => exact here.raise n
  | pic enabled =>
      obtain ⟨free,set,_,closed,stopped⟩ := legal (here.on ▸ enabled)
      have unlocked : s.locked = false := here.held.trans free
      have offset := here.ready set
      rw [← here.master] at closed
      rcases acknowledge_cases closed with ⟨found,taken⟩ | ⟨_,taken⟩
      · have running : frozen = none := by
          rw [← Option.not_isSome_iff_eq_none]
          intro still
          have open_ := (Pic.pending_cases found).2.2
          rw [here.master,stopped still] at open_
          cases open_
        rw [taken,offset,timer_served alone unlocked here.idle.1 found]
        exact {here with ticks := by simp [running]}
      · rw [taken,offset]
        exact {here with}
  | lapic enabled known =>
      simp only [List.mem_cons,List.not_mem_nil,or_false] at known
      rcases known with rfl | rfl | rfl <;> exact {here with}

end stable

structure Quiet (frozen : Option ℕ) (s : State) : Prop where
  lock : s.interruptFlag = true → s.locked = false
  masks : s.interruptFlag = true → s.pics.slave.imr = 0xFF#8 ∧ s.pics.master.imr ||| 1#8 = 0xFF#8
  idle : s.pics.master.isr = 0#8 ∧ s.pics.slave.isr = 0#8
  running : s.stuck = false
  handled : s.panicked = false
  keyless : s.scancodes = 0
  still : ∀ n ∈ frozen, s.timerTicks = n

theorem In.quiet {mode : Mode} {frozen hits : Option ℕ} {s : State} (legal : mode.Legal frozen) (here : In mode frozen hits s) :
    Quiet frozen s where
  lock := fun enabled => here.held.trans (legal (here.on ▸ enabled)).1
  masks := fun enabled => by
    obtain ⟨_,_,slave,master,_⟩ := legal (here.on ▸ enabled)
    exact ⟨here.slave.trans slave,here.master ▸ master⟩
  idle := here.idle
  running := here.calm.1
  handled := here.calm.2.1
  keyless := here.calm.2.2
  still := here.ticks

abbrev Runs (c : Crates) (frozen : Option ℕ) (prog : Prog State Fault β) (Q : β → State → Prop) (s : State) : Prop :=
  Safe (Irq c) (Quiet frozen) (fun _ => False) prog Q s

-- The documented behaviour of the crates in main code, with interrupts off: each does its own part, returns, and leaves
-- everything else alone. `without_interrupts` runs its body with interrupts off and puts the flag back.
structure Crates.Documented (c : Crates) : Prop extends c.Alone where
  lock : ∀ {mode frozen hits s}, In mode frozen hits s → mode.on = false → mode.held = false →
    Runs c frozen c.lock (fun _ => In {mode with held := true} frozen hits) s
  unlock : ∀ {mode frozen hits s}, In mode frozen hits s → mode.on = false →
    Runs c frozen c.unlock (fun _ => In {mode with held := false} frozen hits) s
  initialise : ∀ {mode frozen hits s}, In mode frozen hits s → mode.on = false →
    Runs c frozen c.initialise (fun _ => In {mode with ready := true} frozen hits) s
  readMasks : ∀ {mode frozen hits s}, In mode frozen hits s → mode.on = false →
    Runs c frozen c.readMasks (fun masks s => masks = (mode.master,mode.slave) ∧ In mode frozen hits s) s
  writeMasks : ∀ {mode frozen hits s} master slave, In mode frozen hits s → mode.on = false →
    Runs c frozen (c.writeMasks master slave) (fun _ => In {mode with master := master, slave := slave} frozen hits) s
  withoutInterrupts : ∀ {mode mode' frozen hits s body}, In mode frozen hits s → mode.Legal frozen → mode'.on = false →
    {mode' with on := mode.on}.Legal frozen →
    (∀ s, In {mode with on := false} frozen hits s → Runs c frozen body (fun _ => In mode' frozen hits) s) →
    Runs c frozen (c.withoutInterrupts body) (fun _ => In {mode' with on := mode.on} frozen hits) s

section rules
variable {c : Crates} {mode : Mode} {frozen hits : Option ℕ} {s : State} {Q : Unit → State → Prop}

theorem legal_off (off : mode.on = false) : mode.Legal frozen := fun on => by simp [off] at on

variable (alone : c.Alone)
include alone

theorem step_store {f : State → State} {k : Unit → Prog State Fault Unit} (here : In mode frozen hits s) (legal : mode.Legal frozen)
    (next : ∀ s, In mode frozen hits s → Runs c frozen (k ()) Q (f s)) : Runs c frozen (Prog.store f >>= k) Q s :=
  safe_store (P:=In mode frozen hits) (fun _ _ here => here.irq alone legal) (fun _ here => here.quiet legal) here next

theorem step_load {f : State → β} {k : β → Prog State Fault γ} {Q : γ → State → Prop} (here : In mode frozen hits s)
    (legal : mode.Legal frozen) (next : ∀ s, In mode frozen hits s → Runs c frozen (k (f s)) Q s) :
    Runs c frozen (Prog.load f >>= k) Q s :=
  safe_load (P:=In mode frozen hits) (fun _ _ here => here.irq alone legal) (fun _ here => here.quiet legal) here next

theorem step_setFlag {k : Unit → Prog State Fault Unit} (here : In mode frozen hits s) (legal : mode.Legal frozen)
    (next : ∀ s, In {mode with on := flag} frozen hits s → Runs c frozen (k ()) Q s) : Runs c frozen (setFlag flag >>= k) Q s :=
  step_store alone here legal fun _ here => next _ {here with on := rfl}

theorem runs_ret {value : β} {Q : β → State → Prop} (here : In mode frozen hits s) (legal : mode.Legal frozen)
    (post : ∀ s, In mode frozen hits s → Q value s) : Runs c frozen (.ret value) Q s :=
  safe_ret (P:=In mode frozen hits) (fun _ _ here => here.irq alone legal) (fun _ here => here.quiet legal) here post

end rules

-- The crates over the ports, one access an action.
section ports

def onMaster (f : Pic → Pic) : Prog State Fault Unit := .store fun s => {s with pics := {s.pics with master := f s.pics.master}}
def onSlave (f : Pic → Pic) : Prog State Fault Unit := .store fun s => {s with pics := {s.pics with slave := f s.pics.slave}}

def portMasks : Prog State Fault (BitVec 8 × BitVec 8) := do
  let master ← Prog.load (·.pics.master.imr)
  let slave ← Prog.load (·.pics.slave.imr)
  return (master,slave)

def setMasks (master slave : BitVec 8) : Prog State Fault Unit := do
  onMaster ({· with imr := master})
  onSlave ({· with imr := slave})

def portIo : Crates where
  lock := .perform fun s => if s.locked then .error .diverged else .ok ((),{s with locked := true})
  unlock := .store fun s => {s with locked := false}
  initialise := do
    let saved ← portMasks
    onMaster Pic.initialise
    onSlave Pic.initialise
    onMaster ({· with offset := PIC_1_OFFSET})
    onSlave ({· with offset := PIC_2_OFFSET})
    setMasks saved.1 saved.2
  readMasks := portMasks
  writeMasks := setMasks
  notifyEndOfInterrupt := fun id =>
    if PIC_2_OFFSET ≤ id ∧ id < PIC_2_OFFSET+8 then do
      onSlave Pic.endOfInterrupt
      onMaster Pic.endOfInterrupt
    else if PIC_1_OFFSET ≤ id ∧ id < PIC_2_OFFSET then onMaster Pic.endOfInterrupt
    else return ()
  withoutInterrupts := fun body => do
    let enabled ← Prog.load (·.interruptFlag)
    if enabled then do
      setFlag false
      body
      setFlag true
    else body

theorem portIo_alone : portIo.Alone where
  locks := fun s free => by simp [portIo,Prog.alone_perform,free]
  unlocks := fun _ => rfl
  notifies := fun id s low high => by
    have above : ¬ (PIC_2_OFFSET ≤ id ∧ id < PIC_2_OFFSET+8) := by omega
    simp only [portIo,above,low,high,and_self,if_true,if_false]
    rfl

variable {mode : Mode} {frozen hits : Option ℕ} {s : State}

theorem portMasks_runs {k : BitVec 8 × BitVec 8 → Prog State Fault β} {Q : β → State → Prop} (here : In mode frozen hits s)
    (off : mode.on = false) (next : ∀ s, In mode frozen hits s → Runs portIo frozen (k (mode.master,mode.slave)) Q s) :
    Runs portIo frozen (portMasks >>= k) Q s := by
  rw [portMasks,bind_assoc]
  refine step_load portIo_alone here (legal_off off) fun s here => ?_
  rw [here.master,bind_assoc]
  refine step_load portIo_alone here (legal_off off) fun s here => ?_
  rw [here.slave,pure_bind]
  exact next s here

theorem setMasks_runs (master slave : BitVec 8) (here : In mode frozen hits s) (off : mode.on = false) :
    Runs portIo frozen (setMasks master slave) (fun _ => In {mode with master := master, slave := slave} frozen hits) s := by
  refine step_store portIo_alone here (legal_off off) fun s here => ?_
  have here : In {mode with master := master} frozen hits {s with pics := {s.pics with master := {s.pics.master with imr := master}}} :=
    {here with master := rfl}
  refine step_store portIo_alone here (legal_off off) fun s here => ?_
  have here : In {mode with master := master, slave := slave} frozen hits
      {s with pics := {s.pics with slave := {s.pics.slave with imr := slave}}} := {here with slave := rfl}
  exact runs_ret portIo_alone here (legal_off off) fun _ here => here

theorem initialise_runs (here : In mode frozen hits s) (off : mode.on = false) :
    Runs portIo frozen portIo.initialise (fun _ => In {mode with ready := true} frozen hits) s := by
  refine portMasks_runs here off fun s here => ?_
  refine step_store portIo_alone here (legal_off off) fun s here => ?_
  have here : In {mode with ready := false, master := 0#8} frozen hits
      {s with pics := {s.pics with master := s.pics.master.initialise}} :=
    {here with master := rfl, ready := by simp, idle := ⟨rfl,here.idle.2⟩}
  refine step_store portIo_alone here (legal_off off) fun s here => ?_
  have here : In {mode with ready := false, master := 0#8, slave := 0#8} frozen hits
      {s with pics := {s.pics with slave := s.pics.slave.initialise}} :=
    {here with slave := rfl, ready := by simp, idle := ⟨here.idle.1,rfl⟩}
  refine step_store portIo_alone here (legal_off off) fun s here => ?_
  have here : In {mode with ready := true, master := 0#8, slave := 0#8} frozen hits
      {s with pics := {s.pics with master := {s.pics.master with offset := PIC_1_OFFSET}}} :=
    {here with ready := fun _ => rfl}
  refine step_store portIo_alone here (legal_off off) fun s here => ?_
  exact setMasks_runs mode.master mode.slave
    (s:={s with pics := {s.pics with slave := {s.pics.slave with offset := PIC_2_OFFSET}}}) {here with} off

theorem portIo_documented : portIo.Documented where
  toAlone := portIo_alone
  lock := by
    intro mode frozen hits s here off free
    have unlocked : ∀ s, In mode frozen hits s → s.locked = false := fun s here => here.held.trans free
    refine safe_perform (P:=In mode frozen hits) (fun _ _ here => here.irq portIo_alone (legal_off off))
      (fun _ here => here.quiet (legal_off off)) here ?_ ?_
    · intro s e here failed
      simp [unlocked s here] at failed
    · intro s b s' here ran
      simp only [unlocked s here] at ran
      cases ran
      have here : In {mode with held := true} frozen hits {s with locked := true} := {here with held := rfl}
      exact runs_ret portIo_alone here (legal_off off) fun _ here => here
  unlock := by
    intro mode frozen hits s here off
    refine step_store portIo_alone here (legal_off off) fun s here => ?_
    have here : In {mode with held := false} frozen hits {s with locked := false} := {here with held := rfl}
    exact runs_ret portIo_alone here (legal_off off) fun _ here => here
  initialise := initialise_runs
  readMasks := by
    intro mode frozen hits s here off
    have read := portMasks_runs (k:=pure) here off (Q:=fun masks s => masks = (mode.master,mode.slave) ∧ In mode frozen hits s)
      fun s here => runs_ret portIo_alone here (legal_off off) fun _ here => ⟨rfl,here⟩
    rwa [bind_pure] at read
  writeMasks := setMasks_runs
  withoutInterrupts := by
    intro mode mode' frozen hits s body here legal off legal' inner
    refine step_load portIo_alone here legal fun s here => ?_
    rw [here.on]
    cases flag : mode.on with
    | false =>
        have same : {mode with on := false} = mode := by rw [← flag]
        rw [same] at inner
        have same' : {mode' with on := false} = mode' := by rw [← off]
        rw [same']
        exact inner s here
    | true =>
        rw [flag] at legal'
        refine step_setFlag portIo_alone here legal fun s here => ?_
        refine safe_then (inner s here) fun _ s here => ?_
        refine step_store portIo_alone here (legal_off off) fun s here => ?_
        have here : In {mode' with on := true} frozen hits {s with interruptFlag := true} := {here with on := rfl}
        exact runs_ret portIo_alone here legal' fun _ here => here

end ports
end RustyCore.Interrupts
