import RustyCore.KernelMapping
import RustyCore.StackLayout
import RustyCore.TaskLedger

namespace RustyCore
open InterruptedPrograms Function

-- The scheduler section of `kernel_main`.

def SCHED_RUNAWAY_GUARD : ℕ := 100
def SCHED_FAIR_RUNS : ℕ := 5

-- The step of alpha, beta and gamma on its `n`-th call; how long it takes is left open.
def demoStep (work : ℕ → ℕ) (n : ℕ) : StepCall := ⟨work n,decide (n+1 < SCHED_FAIR_RUNS),STACK_CANARY⟩
def napperStep (work : ℕ → ℕ) (n : ℕ) : StepCall := ⟨work n,false,STACK_CANARY⟩

def spinForTick (before : ℕ) : ℕ → Kern Bool
  | 0 => pure false
  | fuel+1 => do
    let now ← .load (·.apicTicks)
    if now = before then do
      .store id
      spinForTick before fuel
    else pure true

def firstSpin (fuel : ℕ) : Kern Bool := do
  let before ← .load (·.apicTicks)
  spinForTick before fuel

-- What is asked of the heap besides the stack and the box of a task: the tag of its closure, its name, its boxed
-- step, room in the queue and in `finished_runs`, and the rows of the ledger.
inductive Request where
  | tag (id : ℕ)
  | name (id : ℕ)
  | step (id : ℕ)
  | queue (id : ℕ)
  | finished (rows : ℕ)
  | ledger
  deriving DecidableEq, Repr

-- The heap's answers: addresses for stacks and boxes, zero where it refuses, and otherwise the bytes it refuses.
structure HeapAnswers where
  raw : ℕ → ℕ
  box : ℕ → ℕ
  refused : Request → Option ℕ

def request (heap : HeapAnswers) (r : Request) : Kern Unit :=
  match heap.refused r with
  | none => pure ()
  | some bytes => .fail (.allocationFailed bytes)

def enlist (b : Build) (heap : HeapAnswers) (id : ℕ) : Kern Unit := do
  spawn b.policy b.config 0 (heap.box id)
  request heap (.queue id)

def spawnNamed (b : Build) (heap : HeapAnswers) (work : ℕ → ℕ → ℕ) (id : ℕ) (name : String) : Kern Unit := do
  request heap (.tag id)
  newTask b.profile b.config (heap.raw id) id name (demoStep (work id))
  request heap (.name id)
  request heap (.step id)
  if b.policy = .cfs ∧ name = "gamma" then withWeight 0 2048 else pure ()
  enlist b heap id

def spawnNapper (b : Build) (heap : HeapAnswers) (work : ℕ → ℕ → ℕ) : Kern Unit := do
  let now ← .load (·.apicTicks)
  let wakeAt ← lift (b.profile.add now 20)
  sleepingTask b.profile b.config (heap.raw 4) 4 "napper" wakeAt (napperStep (work 4))
  request heap (.name 4)
  request heap (.step 4)
  enlist b heap 4

structure Driver where
  schedules : ℕ
  asleepPasses : ℕ
  preempts : ℕ
  lastSwitches : ℕ
  lastTick : ℕ
  deriving DecidableEq, Repr

-- How the section ends; `waiting` is the wait for a tick that does not come.
inductive DemoEnd where
  | waiting
  | asleepForever
  | runaway
  | silentStub
  | unfair
  | online
  deriving DecidableEq, Repr

def DemoEnd.text (policy : Policy) : DemoEnd → Option String
  | .waiting => none
  | .asleepForever => some "sched FAILED: tasks asleep forever (ticks dead?). Halting."
  | .runaway => some s!"sched FAILED: runaway ({SCHED_RUNAWAY_GUARD} schedules, tasks still alive). Halting."
  | .silentStub => some "sched FAILED: preemption stub silent (0 yanks in demo). Halting."
  | .unfair => some "sched FAILED: unfair ledger. Halting."
  | .online => match policy with
    | .roundRobin => some "sched: round-robin fair (3×5 + napper×1). Phase 3 online. Halting."
    | .cfs => some "sched: cfs fair (3×5 + napper×1, gamma first by weight). Phase 3 online. Halting."

-- The wait for a fresh tick. `hlt` gives interrupts room and changes nothing itself.
def awaitTick (last : ℕ) : ℕ → Kern (Option ℕ)
  | 0 => pure none
  | patience+1 => do
    let cur ← .load (·.apicTicks)
    if cur ≠ last then pure (some cur)
    else do
      .store id
      awaitTick last patience

-- The pushes of `schedule_once` onto `finished_runs`, up to the rows there are.
def keepRows (heap : HeapAnswers) : Kern Unit := do
  let rows ← .load (·.finishedRuns.length)
  if rows = 0 then pure () else request heap (.finished rows)

def drivePass (b : Build) (heap : HeapAnswers) (d : Driver) : Kern (Except DemoEnd Driver) := do
  let found ← scheduleOnce b.policy b.profile
  keepRows heap
  if found then do
    let schedules ← lift (b.profile.add d.schedules 1)
    let switches ← .load (·.preemptSwitches)
    let preempts ← lift (if switches ≠ d.lastSwitches then b.profile.add d.preempts 1 else .ok d.preempts)
    pure (if SCHED_RUNAWAY_GUARD < schedules then .error .runaway else .ok ⟨schedules,0,preempts,switches,d.lastTick⟩)
  else do
    let asleepPasses ← lift (b.profile.add d.asleepPasses 1)
    pure (if SCHED_RUNAWAY_GUARD < asleepPasses then .error .asleepForever else .ok {d with asleepPasses := asleepPasses})

-- `while sched.alive() > 0`, one unit of fuel for each pass.
def driveTasks (b : Build) (heap : HeapAnswers) (patience : ℕ) : ℕ → Driver → Kern (Option (Except DemoEnd Driver))
  | 0,_ => pure none
  | fuel+1,d => do
    let left ← .load alive
    if left = 0 then pure (some (.ok d))
    else
      match ← awaitTick d.lastTick patience with
      | none => pure (some (.error .waiting))
      | some cur =>
        match ← drivePass b heap {d with lastTick := cur} with
        | .error ending => pure (some (.error ending))
        | .ok d => driveTasks b heap patience fuel d

def fairRow (row : ℕ × String × ℕ) : Bool := row.2.2 == if row.2.1 = "napper" then 1 else SCHED_FAIR_RUNS

def closeDemo (heap : HeapAnswers) (d : Driver) : Kern DemoEnd := do
  if d.preempts = 0 then pure .silentStub
  else
    request heap .ledger
    let rows ← .load ledger
    pure (if rows.all fairRow then .online else .unfair)

def populate (b : Build) (heap : HeapAnswers) (work : ℕ → ℕ → ℕ) : Kern Unit := do
  spawnNamed b heap work 1 "alpha"
  spawnNamed b heap work 2 "beta"
  spawnNamed b heap work 3 "gamma"
  spawnNapper b heap work

def driveDemo (b : Build) (heap : HeapAnswers) (patience fuel : ℕ) : Kern (Option DemoEnd) := do
  let switches ← .load (·.preemptSwitches)
  let tick ← .load (·.apicTicks)
  match ← driveTasks b heap patience fuel ⟨0,0,0,switches,tick⟩ with
  | none => pure none
  | some (.error ending) => pure (some ending)
  | some (.ok d) => do
    let ending ← closeDemo heap d
    pure (some ending)

-- What the driver keeps between two passes: everybody is on the books, no canary is trashed, and nobody sleeps
-- past `wakes`.
structure Driving (allowed : Kernel → Interrupted → Prop) (roster : List Member) (wakes : ℕ) (ran : List ℕ) (s : Kernel) : Prop where
  boot : Boot s
  table : Table allowed s.ready s
  register : Register roster ran s
  healthy : ∀ t ∈ queuedTasks s, t.stack.canary = STACK_CANARY
  naps : ∀ t ∈ queuedTasks s, ∀ untilTick, t.state = .sleeping untilTick → untilTick ≤ wakes

structure Paced (start switches : ℕ) (ran : List ℕ) (d : Driver) (s : Kernel) : Prop where
  counted : d.schedules = ran.length
  idle : start+d.asleepPasses ≤ d.lastTick
  seen : d.lastTick ≤ s.apicTicks
  rare : d.preempts ≤ d.schedules
  current : d.lastSwitches = s.preemptSwitches
  yanked : d.preempts = 0 → d.lastSwitches = switches

structure Modest (roster : List Member) (n : Member → ℕ) : Prop where
  distinct : (roster.map (·.id)).Nodup
  lasts : ∀ m ∈ roster, Lasts m (n m)
  sturdy : ∀ m ∈ roster, ∀ k, (m.outcome k).canary = STACK_CANARY
  few : (roster.map n).sum ≤ SCHED_RUNAWAY_GUARD

section driver
variable {b : Build} {allowed : Kernel → Interrupted → Prop} {roster : List Member} {n : Member → ℕ} {ran : List ℕ} {s s' : Kernel}
  {E : Panic → Prop} {wakes start switches : ℕ} {d : Driver}

theorem Driving.still (driving : Driving allowed roster wakes ran s) (still : Still allowed s s') :
    Driving allowed roster wakes ran s' := by
  have boot := still_boot driving.boot still
  have table := still_table driving.table still
  obtain ⟨_,_,rfl⟩ := still
  exact ⟨boot,table,register_quiet driving.register rfl rfl,driving.healthy,driving.naps⟩

theorem Paced.still (steady : Steady allowed) (paced : Paced start switches ran d s) (still : Still allowed s s') :
    Paced start switches ran d s' := by
  obtain ⟨_,later,rfl⟩ := still
  exact {paced with seen := Nat.le_trans paced.seen (later steady)}

theorem Driving.turn (driving : Driving allowed roster wakes ran s) (modest : Modest roster n) (took : TookTurn s addr task rest s')
    (boot : Boot s') (table : Table allowed s'.ready s') : Driving allowed roster wakes (ran ++ [task.id]) s' := by
  have tasks := (took_tasks driving.table took).1
  have others : ∀ t ∈ rest.filterMap s.heap, t ∈ queuedTasks s := fun t member => tasks.mem_iff.mpr (List.mem_cons_of_mem _ member)
  have known := (driving.register.queued task (tasks.mem_iff.mpr List.mem_cons_self)).1
  refine ⟨boot,table,register_turn driving.table driving.register modest.distinct took,?_,?_⟩
  · intro t member
    rcases took_queue driving.table took with ⟨_,_,_,_,queue⟩ | ⟨_,queue,_⟩
    · rw [queue] at member
      rcases List.mem_append.mp member with other | own
      · exact driving.healthy t (others t other)
      · rw [List.mem_singleton.mp own]
        exact modest.sturdy (memberOf task) known task.step.calls
    · rw [queue] at member
      exact driving.healthy t (others t member)
  · intro t member untilTick sleeps
    rcases took_queue driving.table took with ⟨alive,_,_,_,queue⟩ | ⟨_,queue,_⟩
    · rw [queue] at member
      rcases List.mem_append.mp member with other | own
      · exact driving.naps t (others t other) untilTick sleeps
      · rw [List.mem_singleton.mp own] at sleeps
        cases ((stepped_ready task).mpr alive).symm.trans sleeps
    · rw [queue] at member
      exact driving.naps t (others t member) untilTick sleeps

theorem Driving.blames (driving : Driving allowed roster wakes ran s) (confined : Confined allowed) (few : ran.length ≤ SCHED_RUNAWAY_GUARD)
    (member : addr ∈ s.ready) (here : s.heap addr = some task) : Blames E p (Confined allowed) task := by
  have queued : task ∈ queuedTasks s := List.mem_filterMap.mpr ⟨addr,member,here⟩
  obtain ⟨_,runs,standing⟩ := driving.register.queued task queued
  refine ⟨fun trashed => absurd (driving.healthy task queued) trashed,?_,fun loose => absurd confined loose⟩
  intro fault failed
  have count := ran.count_le_length (a:=task.id)
  have calls : ran.count task.id = task.step.calls := standing.1
  have small : task.runs+1 < 2^64 := by
    simp only [SCHED_RUNAWAY_GUARD] at few
    omega
  rw [Profile.add_small small] at failed
  cases failed

section requests
variable {heap : HeapAnswers} {r : Request} (boot : Boot s)
  (refused : ∀ bytes, heap.refused r = some bytes → E (.allocationFailed bytes))
include boot refused

end requests

section loop
variable {heap : HeapAnswers} (refused : ∀ rows bytes, heap.refused (.finished rows) = some bytes → E (.allocationFailed bytes))
  (modest : Modest roster n) (steady : Steady allowed) (confined : Confined allowed) (soon : wakes ≤ start+SCHED_RUNAWAY_GUARD)
include refused modest steady confined soon

end loop
end driver

section population
variable {policy : Policy} {p : Profile} {c : BuildConfig} {raw : ℕ} {allowed : Kernel → Interrupted → Prop} {s s' : Kernel}
  {E : Panic → Prop}

-- The scheduler while it is filled, and with a task in hand. Nobody is to sleep for more than 20 ticks.
structure Hired (allowed : Kernel → Interrupted → Prop) (roster : List Member) (wakes : ℕ) (s : Kernel) : Prop
    extends Driving allowed roster wakes [] s where
  held : s.held = []
  finished : s.finishedRuns = []
  recent : wakes ≤ s.apicTicks+20

theorem Driving.grown (driving : Driving allowed roster wakes ran s) (grown : Grown allowed [] s s') :
    Driving allowed roster wakes ran s' := by
  have queue := grown_tasks driving.table grown
  rw [List.filterMap_nil,List.append_nil] at queue
  refine ⟨grown.boot,grown.table,register_quiet driving.register queue grown.finished,?_,?_⟩
  · rw [queue]
    exact driving.healthy
  · rw [queue]
    exact driving.naps

theorem Hired.live (hired : Hired allowed roster wakes s) : (live s).length = roster.length := by
  have everyone := hired.register.everyone.length_eq
  rw [hired.finished] at everyone
  simpa [RustyCore.live,hired.held,queuedTasks] using everyone

theorem Hired.later (hired : Hired allowed roster wakes s) (later : wakes ≤ wakes') (recent : wakes' ≤ s.apicTicks+20) :
    Hired allowed roster wakes' s :=
  {hired with
    naps := fun t member untilTick sleeps => Nat.le_trans (hired.naps t member untilTick sleeps) later
    recent := recent}

theorem Hired.still (steady : Steady allowed) (hired : Hired allowed roster wakes s) (still : Still allowed s s') :
    Hired allowed roster wakes s' := by
  have driving := hired.toDriving.still still
  obtain ⟨n,later,rfl⟩ := still
  exact ⟨driving,hired.held,hired.finished,Nat.le_trans hired.recent (Nat.add_le_add_right (later steady) 20)⟩

section hiring
variable {α : Type} {Q : α → Kernel → Prop} {k : Unit → Kern α} {roster : List Member} {wakes : ℕ} (steady : Steady allowed)
include steady

end hiring
end population

section demo
variable {b : Build} {allowed : Kernel → Interrupted → Prop} {heap : HeapAnswers} {work : ℕ → ℕ → ℕ} {s : Kernel}
  (steady : Steady allowed)
include steady

section populate
variable (whole : b.config.stackSizeBytes % 16 = 0) (wide : 72 ≤ b.config.stackSizeBytes)
  (placed : ∀ id, heap.raw id ≠ 0 → HEAP_START ≤ heap.raw id)
include whole wide placed

end populate

end demo

def Orderly (s : Kernel) (regs : Interrupted) : Prop := s.apicTicks+1 < 2^64 ∧ (s.preemptible ≠ 0 → InWindow s regs)

def topTick (s : Kernel) : Interrupted :=
  ⟨0,0,0,0,0,0,0,0,0,0,0,0,0,0,0,(s.slotBounds s.currentIdx).2 % 2^64,0x8010,8,0x246,Nat.mod_lt _ (by decide)⟩

def eagerTick (s : Kernel) : Option Kernel :=
  let bounds := s.slotBounds s.currentIdx
  if s.interruptFlag ∧ s.apicTicks+1 < 2^64 ∧
      (s.preemptible = 0 ∨ 2^64-2^47 ≤ bounds.1 ∧ bounds.1+16 ≤ bounds.2 ∧ bounds.2 < 2^64) then some (tick (topTick s) s) else none

theorem eagerTick_sound (s s' : Kernel) (fired : eagerTick s = some s') : Irq Orderly s s' := by
  simp only [eagerTick,Option.ite_none_right_eq_some,Option.some.injEq] at fired
  obtain ⟨⟨enabled,unwrapped,place⟩,rfl⟩ := fired
  refine ⟨topTick s,enabled,⟨unwrapped,fun up => ?_⟩,rfl⟩
  obtain ⟨high,room,word⟩ := place.resolve_left up
  refine ⟨?_,?_,fun x least most => Or.inr ⟨Nat.le_trans high least,Nat.lt_of_le_of_lt most word⟩⟩
  · simp only [topTick,Nat.mod_eq_of_lt word]
    exact room
  · exact Nat.mod_le _ _

def sampleHeap : HeapAnswers := ⟨fun id => HEAP_START+0x30000*id,fun id => HEAP_START+0x200000+0x1000*id,fun _ => none⟩

end RustyCore
