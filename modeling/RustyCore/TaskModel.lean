import RustyCore.PreemptFrames
import RustyCore.InterruptedPrograms

namespace RustyCore
open InterruptedPrograms Function

def STACK_CANARY : ℕ := 0xDEADBEEF_CAFEF00D
def STACK_ALIGN : ℕ := 16
def CFS_DEFAULT_WEIGHT : ℕ := 1024
def CFS_BASE_SLICE : ℕ := 100

-- What the build fixes: the sizes of `kernel_config.toml`, the size of a `Task`, the address
-- of `task_trampoline` and the code segment. The last field is the compile-time capacity check.
structure BuildConfig where
  stackSizeBytes : ℕ
  heapSize : ℕ
  taskBytes : ℕ
  trampoline : ℕ
  cs : ℕ
  fits : MAX_TASKS*(stackSizeBytes+STACK_ALIGN) ≤ heapSize

def BuildConfig.stackAllocBytes (c : BuildConfig) : ℕ := c.stackSizeBytes+STACK_ALIGN

-- Every way a call can end other than by returning, with the text it logs.
-- `danglingTask` stands for the undefined behaviour of a bad task pointer.
inductive Panic where
  | allocationFailed (bytes : ℕ)
  | stackBottomMisaligned
  | stackTopMisaligned
  | stackEscaped
  | contextTopMisaligned
  | contextFrameMisaligned
  | contextParity
  | freshFrameInvalid
  | tableFull
  | slotOverflow
  | slotRegisteredTwice (idx : ℕ)
  | boundsOverflow
  | emptyWindow (idx : ℕ)
  | releaseOverflow
  | neverRegistered (idx : ℕ)
  | snapshotRange
  | pointerOverflow
  | unregisteredSlot (idx : ℕ)
  | entryParity (remainder : ℕ)
  | stackOverflow (id : ℕ) (name : String)
  | templateTrashed (id : ℕ) (name : String)
  | stashInvalid (id : ℕ) (name : String)
  | zeroWeight
  | zeroWeightRefused
  | pickMinLied
  | arithmetic (fault : Fault)
  | danglingTask
  deriving DecidableEq, Repr

def Panic.fault : Panic → Fault
  | .allocationFailed bytes => .panicked s!"memory allocation of {bytes} bytes failed"
  | .stackBottomMisaligned => .panicked "stack bottom misaligned after align-up"
  | .stackTopMisaligned => .panicked "stack top misaligned — size not a multiple of 16?"
  | .stackEscaped => .panicked "aligned stack window escaped its backing allocation"
  | .contextTopMisaligned => .panicked "task stack top must be 16-byte aligned"
  | .contextFrameMisaligned => .panicked "bootstrap frame must start 16-aligned to resume at 8 (mod 16)"
  | .contextParity => .panicked "resumed rsp would break the ABI parity"
  | .freshFrameInvalid => .panicked "fresh preempt frame failed its own validation"
  | .tableFull => .panicked s!"preempt: task table full ({MAX_TASKS} slots) — reap finished tasks or raise MAX_TASKS"
  | .slotOverflow => .panicked "preempt: task slot overflow"
  | .slotRegisteredTwice idx => .panicked s!"preempt: slot {idx} registered twice — slot accounting is broken"
  | .boundsOverflow => .panicked "preempt: bounds slot overflow"
  | .emptyWindow idx => .panicked s!"preempt: empty stack window for slot {idx}"
  | .releaseOverflow => .panicked "preempt: task slot overflow on release"
  | .neverRegistered idx => .panicked s!"preempt: releasing slot {idx} that was never registered"
  | .snapshotRange => .panicked "preempt: snapshot slot out of range"
  | .pointerOverflow => .panicked "slot overflow in TASK_PTRS"
  | .unregisteredSlot idx => .panicked s!"trampoline on stack of unregistered slot {idx}"
  | .entryParity remainder => .panicked (s!"ABI violation: task entered with rsp%16 == {remainder} (must be 8) — " ++
      "the bootstrap frame's alignment math is wrong")
  | .stackOverflow id name => .halted s!"sched FAILED: task {id}/{name} stack overflow (canary trashed)"
  | .templateTrashed id name => .panicked s!"task {id}/{name} fresh preempt template trashed"
  | .stashInvalid id name => .panicked s!"task {id}/{name} IRQ-stashed frame invalid or unregistered"
  | .zeroWeight => .panicked "task weight must be > 0"
  | .zeroWeightRefused => .panicked "cfs: refusing zero-weight task"
  | .pickMinLied => .panicked "cfs pick_min lied"
  | .arithmetic fault => fault
  | .danglingTask => .halted "dangling task pointer"

-- `top`, `bottom` and the word that lies at `bottom`, where the canary was planted.
structure TaskStack where
  top : ℕ
  bottom : ℕ
  canary : ℕ
  deriving DecidableEq, Repr

inductive TaskState where
  | ready
  | running
  | sleeping (untilTick : ℕ)
  | finished
  deriving DecidableEq, Repr

-- The saved side of a task: the frame `init_task_context` planted, or a suspended
-- iteration of the trampoline loop.
inductive Context where
  | bootstrap (rsp : ℕ)
  | yielded
  deriving DecidableEq, Repr

-- One call of the step closure: how many instructions it takes, its verdict, and the
-- word it leaves at the bottom of the stack.
structure StepCall where
  work : ℕ
  alive : Bool
  canary : ℕ

structure StepFn where
  outcome : ℕ → StepCall
  calls : ℕ

structure Task where
  id : ℕ
  name : String
  state : TaskState
  runs : ℕ
  vruntime : ℕ
  weight : ℕ
  stack : TaskStack
  ctx : Context
  preempt : FullFrame
  slot : ℕ
  step : StepFn

-- The statics of `preempt.rs` and `task.rs`, the CPU's interrupt flag and the task whose
-- stack RSP is on (none on the boot stack), the boxed tasks, the scheduler's queue of
-- boxes, the tasks that are built and not yet spawned, and the record of the step calls
-- made so far, by box.
structure Kernel where
  preemptible : ℕ
  currentIdx : ℕ
  slotUsed : BitVec 8
  taskFrames : ℕ → FullFrame
  slotBounds : ℕ → ℕ × ℕ
  taskPtrs : ℕ → ℕ
  apicTicks : ℕ
  preemptSwitches : ℕ
  trampolineEntryRsp : ℕ
  rsp0 : ℕ
  interruptFlag : Bool
  stack : Option ℕ
  heap : ℕ → Option Task
  ready : List ℕ
  finishedRuns : List (ℕ × String × ℕ)
  held : List Task
  stepLog : List ℕ

def Kernel.boot (apicTicks : ℕ) (interruptFlag : Bool) : Kernel where
  preemptible := 0
  currentIdx := MAX_TASKS
  slotUsed := 0
  taskFrames := fun _ => FullFrame.ZERO
  slotBounds := fun _ => (0,0)
  taskPtrs := fun _ => 0
  apicTicks := apicTicks
  preemptSwitches := 0
  trampolineEntryRsp := 0
  rsp0 := 0
  interruptFlag := interruptFlag
  stack := none
  heap := fun _ => none
  ready := []
  finishedRuns := []
  held := []
  stepLog := []

-- One pass through `lapic_preempt_stub`, as its effect on the statics.
def tick (regs : Interrupted) (s : Kernel) : Kernel :=
  let s := {s with apicTicks := (s.apicTicks+1) % 2^64}
  if s.preemptible ≠ 0 ∧ s.currentIdx < MAX_TASKS ∧ s.slotUsed.getLsbD s.currentIdx = true then
    {s with preemptSwitches := (s.preemptSwitches+1) % 2^64
            taskFrames := update s.taskFrames s.currentIdx regs.stash}
  else s

def Irq (allowed : Kernel → Interrupted → Prop) (s s' : Kernel) : Prop :=
  ∃ regs, s.interruptFlag = true ∧ allowed s regs ∧ s' = tick regs s

abbrev Kern (α : Type) : Type 1 := Prog Kernel Panic α

def lift : Except Fault α → Kern α
  | .ok value => pure value
  | .error fault => .fail (.arithmetic fault)

def enable : Kern Unit := .store fun s => {s with interruptFlag := true}
def disable : Kern Unit := .store fun s => {s with interruptFlag := false}

def deref (addr : ℕ) : Kern Task := .perform fun s =>
  match s.heap addr with
  | some task => .ok (task,s)
  | none => .error .danglingTask

def writeTask (addr : ℕ) (f : Task → Task) : Kern Unit := .perform fun s =>
  match s.heap addr with
  | some task => .ok ((),{s with heap := update s.heap addr (some (f task))})
  | none => .error .danglingTask

-- preempt.rs

def setPreemptible (raised : Bool) : Kern Unit := .store fun s => {s with preemptible := if raised then 1 else 0}

def slotBit (idx : ℕ) : BitVec 8 := 1#8 <<< idx

def registerTask (idx : ℕ) (frame : FullFrame) : Kern Unit := do
  .require (decide (idx < MAX_TASKS)) .slotOverflow
  let used ← .load (·.slotUsed)
  .require (used &&& slotBit idx == 0) (.slotRegisteredTwice idx)
  .store fun s => {s with taskFrames := update s.taskFrames idx frame}
  .store fun s => {s with slotUsed := s.slotUsed ||| slotBit idx}

def setSlotBounds (idx bottom top : ℕ) : Kern Unit := do
  .require (decide (idx < MAX_TASKS)) .boundsOverflow
  .require (decide (bottom < top)) (.emptyWindow idx)
  .store fun s => {s with slotBounds := update s.slotBounds idx (bottom,top)}

def slotBoundsOf (idx : ℕ) : Kern (Option (ℕ × ℕ)) := do
  if idx ≥ MAX_TASKS then pure none
  else
    let bounds ← .load (·.slotBounds idx)
    pure (if bounds.1 ≠ 0 then some bounds else none)

def snapshot (idx : ℕ) : Kern FullFrame := do
  .require (decide (idx < MAX_TASKS)) .snapshotRange
  .load (·.taskFrames idx)

def frameOk (idx : ℕ) : Kern Bool := do
  match ← slotBoundsOf idx with
  | some (bottom,top) =>
    let frame ← snapshot idx
    pure (frame.validFor bottom top)
  | none => pure false

def unregisterTask (idx : ℕ) : Kern Unit := do
  .require (decide (idx < MAX_TASKS)) .releaseOverflow
  let used ← .load (·.slotUsed)
  .require (used &&& slotBit idx != 0) (.neverRegistered idx)
  .store fun s => {s with taskFrames := update s.taskFrames idx FullFrame.ZERO}
  .store fun s => {s with slotUsed := s.slotUsed &&& ~~~ slotBit idx}

def setCurrent (idx : ℕ) : Kern Unit := .store fun s => {s with currentIdx := idx % 2^8}

-- task.rs

def taskAt (idx : ℕ) : Kern (Option ℕ) := do
  if idx ≥ MAX_TASKS then pure none
  else
    let ptr ← .load (·.taskPtrs idx)
    pure (if ptr = 0 then none else some ptr)

def setTaskPtr (idx addr : ℕ) : Kern Unit := do
  .require (decide (idx < MAX_TASKS)) .pointerOverflow
  .store fun s => {s with taskPtrs := update s.taskPtrs idx addr}

def clearTaskPtr (idx : ℕ) : Kern Unit :=
  if idx < MAX_TASKS then .store fun s => {s with taskPtrs := update s.taskPtrs idx 0} else pure ()

def currentTask : Kern ℕ := do
  let idx ← .load (·.currentIdx)
  match ← taskAt idx with
  | some addr => pure addr
  | none => .fail (.unregisteredSlot idx)

def initTaskContext (p : Profile) (top : ℕ) : Kern ℕ := do
  .require (top % 16 == 0) .contextTopMisaligned
  let rsp ← lift (p.sub top 64)
  .require (rsp % 16 == 0) .contextFrameMisaligned
  let resumed ← lift (p.add rsp 56)
  .require (resumed % 16 == 8) .contextParity
  pure rsp

-- `raw` is the allocator's answer; an answer that is no allocation counts as its failure.
def newStack (p : Profile) (c : BuildConfig) (raw : ℕ) : Kern TaskStack := do
  .require (decide (raw ≠ 0 ∧ raw+c.stackAllocBytes < 2^64)) (.allocationFailed c.stackAllocBytes)
  let bottom ← lift (p.nextMultipleOf raw STACK_ALIGN)
  let top ← lift (p.add bottom c.stackSizeBytes)
  .require (bottom % STACK_ALIGN == 0) .stackBottomMisaligned
  .require (top % STACK_ALIGN == 0) .stackTopMisaligned
  let limit ← lift (p.add raw c.stackAllocBytes)
  .require (decide (top ≤ limit)) .stackEscaped
  pure ⟨top,bottom,STACK_CANARY⟩

def allocSlot : Kern ℕ := do
  let used ← .load (·.slotUsed)
  match (List.range MAX_TASKS).find? (fun idx => used &&& slotBit idx == 0) with
  | some idx => pure idx
  | none => .fail .tableFull

-- What `init_task_context` leaves at `bottom`: a window of less than 72 bytes has its canary under the eight words of the frame.
def bottomWord (c : BuildConfig) (stack : TaskStack) (rsp : ℕ) : ℕ :=
  ((List.replicate 6 0 ++ [c.trampoline % 2^64,0])[(stack.bottom+2^64-rsp) % 2^64 / 8]?).getD stack.canary

def construct (p : Profile) (c : BuildConfig) (state : TaskState) (raw id : ℕ) (name : String)
    (outcome : ℕ → StepCall) : Kern Unit := do
  let stack ← newStack p c raw
  let rsp ← initTaskContext p stack.top
  let stack := {stack with canary := bottomWord c stack rsp}
  let preempt ← lift (FullFrame.fresh p c.trampoline c.cs stack.top)
  .require (preempt.validFor stack.bottom stack.top) .freshFrameInvalid
  let slot ← allocSlot
  registerTask slot preempt
  setSlotBounds slot stack.bottom stack.top
  .store fun s => {s with held := s.held ++ [⟨id,name,state,0,0,CFS_DEFAULT_WEIGHT,stack,.bootstrap rsp,preempt,slot,
    ⟨outcome,0⟩⟩]}

def newTask (p : Profile) (c : BuildConfig) (raw id : ℕ) (name : String) (outcome : ℕ → StepCall) : Kern Unit :=
  construct p c .ready raw id name outcome

def sleepingTask (p : Profile) (c : BuildConfig) (raw id : ℕ) (name : String) (untilTick : ℕ)
    (outcome : ℕ → StepCall) : Kern Unit :=
  construct p c (.sleeping untilTick) raw id name outcome

def instructions : ℕ → Kern Unit
  | 0 => pure ()
  | work+1 => do
    .store id
    instructions work

def callStep (addr : ℕ) : Kern Bool := do
  let task ← deref addr
  let call := task.step.outcome task.step.calls
  .store fun s => {s with stepLog := s.stepLog ++ [addr]}
  instructions call.work
  writeTask addr fun t => {t with step := ⟨t.step.outcome,t.step.calls+1⟩, stack := {t.stack with canary := call.canary}}
  pure call.alive

-- The overflow tripwire: interrupts off, a log line, and the `hlt` loop.
def checkCanary (task : Task) : Kern Unit :=
  if task.stack.canary = STACK_CANARY then pure ()
  else do
    disable
    .fail (.stackOverflow task.id task.name)

-- One iteration of the loop in `task_trampoline_body`, from `current_task` to the switch
-- back to the boot stack.
def trampolineBody (p : Profile) : Kern Unit := do
  let addr ← currentTask
  let task ← deref addr
  checkCanary task
  enable
  setPreemptible true
  let alive ← callStep addr
  let task ← deref addr
  let runs ← lift (p.add task.runs 1)
  writeTask addr fun t => {t with runs := runs}
  writeTask addr fun t => {t with state := if alive then .ready else .finished}
  setPreemptible false
  disable
  writeTask addr fun t => {t with ctx := .yielded}
  .store fun s => {s with stack := none}

-- What runs on the task's stack before the loop: a first switch enters the trampoline
-- through the planted frame, a later one resumes the loop.
def resume (ctx : Context) : Kern Unit :=
  match ctx with
  | .bootstrap rsp => do
    .store fun s => {s with trampolineEntryRsp := rsp+56}
    let entry ← .load (·.trampolineEntryRsp)
    .require (entry % 16 == 8) (.entryParity (entry % 16))
  | .yielded => pure ()

def switchToTask (p : Profile) (addr : ℕ) : Kern Unit := do
  let task ← deref addr
  setCurrent task.slot
  .store fun s => {s with rsp0 := task.stack.top}
  disable
  .store fun s => {s with stack := some addr}
  resume task.ctx
  trampolineBody p
  setCurrent MAX_TASKS
  enable

end RustyCore
