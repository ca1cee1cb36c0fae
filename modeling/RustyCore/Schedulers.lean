import RustyCore.TaskModel

namespace RustyCore
open InterruptedPrograms Function

inductive Policy where
  | roundRobin
  | cfs
  deriving DecidableEq, Repr

def pushBack (addr : ℕ) : Kern Unit := .store fun s => {s with ready := s.ready ++ [addr]}

def popFront : Kern (Option ℕ) := .perform fun s =>
  match s.ready with
  | addr :: rest => .ok (some addr,{s with ready := rest})
  | [] => .ok (none,s)

def withWeight (i weight : ℕ) : Kern Unit := do
  .require (decide (0 < weight)) .zeroWeight
  .store fun s => {s with held := s.held.modify i fun task => {task with weight := weight}}

def takeHeld (i : ℕ) : Kern Task := .perform fun s =>
  match s.held[i]? with
  | some task => .ok (task,s)
  | none => .error .danglingTask

-- `Box::new`: the task in hand moves to the address the allocator gives.
def newBox (c : BuildConfig) (addr i : ℕ) (task : Task) : Kern Unit := .perform fun s =>
  if addr ≠ 0 ∧ s.heap addr = none then
    .ok ((),{s with heap := update s.heap addr (some task), held := s.held.eraseIdx i})
  else .error (.allocationFailed c.taskBytes)

def enqueue (c : BuildConfig) (addr i : ℕ) (task : Task) : Kern Unit := do
  newBox c addr i task
  setTaskPtr task.slot addr
  pushBack addr

def RoundRobin.spawn (c : BuildConfig) (i addr : ℕ) : Kern Unit := do
  let task ← takeHeld i
  enqueue c addr i task

def Cfs.spawn (c : BuildConfig) (i addr : ℕ) : Kern Unit := do
  let task ← takeHeld i
  .require (decide (0 < task.weight)) .zeroWeightRefused
  enqueue c addr i task

-- The part of `schedule_once` both policies share: run one step of the chosen task and
-- check its two frames.
def runStep (p : Profile) (addr : ℕ) : Kern Unit := do
  writeTask addr fun t => {t with state := .running}
  switchToTask p addr
  let task ← deref addr
  .require (task.preempt.validFor task.stack.bottom task.stack.top) (.templateTrashed task.id task.name)
  let stashed ← frameOk task.slot
  .require stashed (.stashInvalid task.id task.name)

def settle (addr : ℕ) : Kern Bool := do
  let task ← deref addr
  if task.state = .ready then
    pushBack addr
    pure true
  else
    clearTaskPtr task.slot
    unregisterTask task.slot
    .store fun s => {s with finishedRuns := s.finishedRuns ++ [(task.id,task.name,task.runs)], heap := update s.heap addr none}
    pure true

namespace RoundRobin

def turn (p : Profile) (addr : ℕ) : Kern Bool := do
  runStep p addr
  settle addr

def pass (p : Profile) : ℕ → Kern Bool
  | 0 => pure false
  | len+1 => do
    match ← popFront with
    | none => pure false
    | some addr =>
      let task ← deref addr
      match task.state with
      | .sleeping untilTick =>
        let now ← .load (·.apicTicks)
        if now < untilTick then
          pushBack addr
          pass p len
        else
          writeTask addr fun t => {t with state := .ready}
          turn p addr
      | _ => turn p addr

def scheduleOnce (p : Profile) : Kern Bool := do
  let len ← .load (·.ready.length)
  if len = 0 then pure false else pass p len

end RoundRobin

def asleep (now : ℕ) (task : Task) : Bool :=
  match task.state with
  | .sleeping untilTick => decide (now < untilTick)
  | _ => false

namespace Cfs

def pickFrom (heap : ℕ → Option Task) (now : ℕ) : ℕ → Option (ℕ × ℕ) → List ℕ → Option (ℕ × ℕ)
  | _,best,[] => best
  | i,best,addr :: rest =>
    match heap addr with
    | none => pickFrom heap now (i+1) best rest
    | some task =>
      if asleep now task then pickFrom heap now (i+1) best rest
      else
        match best with
        | none => pickFrom heap now (i+1) (some (i,task.vruntime)) rest
        | some (j,v) =>
          pickFrom heap now (i+1) (if task.vruntime < v then some (i,task.vruntime) else some (j,v)) rest

def pickMin (now : ℕ) (s : Kernel) : Option ℕ := (pickFrom s.heap now 0 none s.ready).map (·.1)

def minVruntime (s : Kernel) : ℕ := ((s.ready.filterMap s.heap).map (·.vruntime)).min?.getD 0

def remove (idx : ℕ) : Kern ℕ := .perform fun s =>
  match s.ready[idx]? with
  | some addr => .ok (addr,{s with ready := s.ready.eraseIdx idx})
  | none => .error .pickMinLied

def saturatingAdd (a b : ℕ) : ℕ := min (a+b) U64_MAX

def saturatingMul (a b : ℕ) : ℕ := min (a*b) U64_MAX

def slice (weight : ℕ) : ℕ := saturatingMul CFS_BASE_SLICE 1024 / max weight 1

def turn (p : Profile) (addr : ℕ) : Kern Bool := do
  runStep p addr
  writeTask addr fun t => {t with vruntime := saturatingAdd t.vruntime (slice t.weight)}
  settle addr

def scheduleOnce (p : Profile) : Kern Bool := do
  let now ← .load (·.apicTicks)
  match ← .load (pickMin now) with
  | none => pure false
  | some idx =>
    let addr ← remove idx
    let task ← deref addr
    match task.state with
    | .sleeping _ =>
      let floor ← .load minVruntime
      writeTask addr fun t => {t with vruntime := if t.vruntime < floor then floor else t.vruntime}
      writeTask addr fun t => {t with state := .ready}
      turn p addr
    | _ => turn p addr

end Cfs

def spawn : Policy → BuildConfig → ℕ → ℕ → Kern Unit
  | .roundRobin => RoundRobin.spawn
  | .cfs => Cfs.spawn

def scheduleOnce : Policy → Profile → Kern Bool
  | .roundRobin => RoundRobin.scheduleOnce
  | .cfs => Cfs.scheduleOnce

def alive (s : Kernel) : ℕ := s.ready.length

-- `sort_by_key` is stable, and so is `mergeSort`.
def ledger (s : Kernel) : List (ℕ × String × ℕ) :=
  ((s.ready.filterMap s.heap).map (fun task => (task.id,task.name,task.runs)) ++ s.finishedRuns).mergeSort fun a b => decide (a.1 ≤ b.1)

end RustyCore
