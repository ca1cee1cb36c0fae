import RustyCore.TaskLives

namespace RustyCore
open InterruptedPrograms Function

structure Consistent (s : Kernel) : Prop where
  queue : s.ready.Nodup
  distinct : ((live s).map (·.slot)).Nodup
  inside : ∀ task ∈ live s, task.slot < MAX_TASKS
  used : ∀ i, s.slotUsed.getLsbD i = true ↔ ∃ task ∈ live s, task.slot = i
  free : ∀ i, i < MAX_TASKS → s.slotUsed.getLsbD i = false → s.taskFrames i = FullFrame.ZERO ∧ s.taskPtrs i = 0
  spawned : ∀ addr ∈ s.ready, ∃ task, s.heap addr = some task ∧ addr ≠ 0 ∧ s.taskPtrs task.slot = addr ∧
    s.slotBounds task.slot = (task.stack.bottom,task.stack.top)

-- The tables against the record of a session: a task is alive from its construction until `schedule_once` has
-- seen it finish, and the queue and the tasks in hand are those that are.
structure Recorded (births deaths : List Identity) (s : Kernel) : Prop where
  once : births.Perm (births.diff deaths ++ deaths)
  alive : ((live s).map identityOf).Perm (births.diff deaths)
  unfinished : ∀ task ∈ live s, Unfinished task
  ended : s.finishedRuns.map signed = deaths.map signature
  distinct : ((births.diff deaths).map (·.slot)).Nodup
  used : ∀ i, s.slotUsed.getLsbD i = true ↔ ∃ one ∈ births.diff deaths, one.slot = i
  bounds : ∀ one ∈ births.diff deaths, one.slot < MAX_TASKS ∧ s.slotBounds one.slot = (one.bottom,one.top)

theorem lives_recorded (lives : Lives b allowed births deaths s) : Recorded births deaths s := by
  obtain ⟨everyone,unfinished,ended⟩ := lives_parts lives
  obtain ⟨_,table⟩ := session_parts (lives_session lives)
  have fewer : ∀ one ∈ deaths, deaths.count one ≤ births.count one := by
    intro one _
    rw [everyone.count_eq,List.count_append]
    exact Nat.le_add_left _ _
  have parted := (List.subperm_append_diff_self_of_count_le fewer).trans (everyone.trans List.perm_append_comm)
  have alive : ((live s).map identityOf).Perm (births.diff deaths) := ((List.perm_append_left_iff deaths).mp parted).symm
  have slots := alive.map (·.slot)
  rw [List.map_map] at slots
  refine ⟨everyone.trans (alive.append_right deaths),alive,unfinished,ended,slots.nodup_iff.mp (live_slots table),?_,?_⟩
  · intro i
    rw [live_used table]
    constructor
    · rintro ⟨task,member,rfl⟩
      exact ⟨identityOf task,alive.mem_iff.mp (List.mem_map_of_mem member),rfl⟩
    · rintro ⟨one,member,rfl⟩
      obtain ⟨task,here,rfl⟩ := List.mem_map.mp (alive.mem_iff.mpr member)
      exact ⟨task,here,rfl⟩
  · intro one member
    obtain ⟨task,here,rfl⟩ := List.mem_map.mp (alive.mem_iff.mpr member)
    have reserved := live_reserved table here
    exact ⟨reserved.slot,reserved.bounds⟩

theorem table_consistent (table : Table allowed s.ready s) : Consistent s := by
  refine ⟨table.once,live_slots table,fun _ member => (live_reserved table member).slot,live_used table,table.free,?_⟩
  intro addr member
  obtain ⟨task,here,owns⟩ := table.boxed addr member
  exact ⟨task,here,owns.nonnull,owns.pointer,owns.bounds⟩

structure Windowed (s : Kernel) : Prop where
  up : s.preemptible ≠ 0 → s.preemptible = 1 ∧ ∃ addr task, s.stack = some addr ∧ s.heap addr = some task ∧
    s.currentIdx = task.slot ∧ task.slot < MAX_TASKS ∧ s.slotUsed.getLsbD task.slot = true
  down : s.stack = none ∨ s.interruptFlag = false → s.preemptible = 0

theorem fenced_windowed (fenced : Fenced s) : Windowed s := by
  constructor
  · intro up
    obtain ⟨one,_,running⟩ := fenced.window up
    obtain ⟨addr,stack⟩ := Option.ne_none_iff_exists'.mp running
    obtain ⟨task,here,current,inside,used,_,_⟩ := fenced.owner addr stack
    exact ⟨one,addr,task,stack,here,current,inside,used⟩
  · intro off
    by_contra up
    obtain ⟨_,flag,running⟩ := fenced.window up
    rcases off with boot | masked
    · exact running boot
    · rw [masked] at flag
      cases flag

structure Ticked (regs : Interrupted) (s s' : Kernel) : Prop where
  counter : s'.apicTicks = (s.apicTicks+1) % 2^64
  outside : s.preemptible = 0 → s' = {s with apicTicks := (s.apicTicks+1) % 2^64}
  window : s.preemptible ≠ 0 → s' = {s with
    apicTicks := (s.apicTicks+1) % 2^64, preemptSwitches := (s.preemptSwitches+1) % 2^64
    taskFrames := update s.taskFrames s.currentIdx regs.stash}

theorem fenced_ticked (fenced : Fenced s) (regs : Interrupted) : Ticked regs s (tick regs s) := by
  refine ⟨tick_ticks regs s,tick_quiet regs,?_⟩
  intro up
  obtain ⟨_,addr,task,_,_,current,inside,used⟩ := (fenced_windowed fenced).up up
  apply tick_taken
  rw [current]
  exact ⟨up,inside,used⟩

def sampleBuild (policy : Policy) : Build := ⟨policy,.release,⟨0x20000,0x100000,0x200,0x8000,8,by decide⟩⟩

def sampleSteps (last : ℕ) : ℕ → StepCall := fun n => ⟨2,decide (n < last),STACK_CANARY⟩

def sampleTick : Interrupted := ⟨0,1,2,3,4,5,6,7,8,9,10,11,12,13,14,0x11FF08,0x8010,8,0x246,by decide⟩

def quiet : List (List Interrupted) := List.replicate 60 []

def midStep : List (List Interrupted) := List.replicate 17 [] ++ [[sampleTick]]

def sampleCalls : List (Call × List (List Interrupted)) :=
  [(.new 0x100000 1 "a" (sampleSteps 5),quiet),(.new 0x130000 2 "b" (sampleSteps 0),quiet),(.spawn 0 0x5000,quiet),
    (.spawn 0 0x6000,quiet),(.scheduleOnce,midStep ++ quiet),(.scheduleOnce,quiet),(.new 0x130000 3 "c" (sampleSteps 1),quiet)]

-- The ticks that leave the frame check alone, and a test for them on low stacks.
def Polite (s : Kernel) (regs : Interrupted) : Prop := s.preemptible ≠ 0 → InWindow s regs

def politeCheck (s : Kernel) (regs : Interrupted) : Bool :=
  s.preemptible == 0 || decide ((s.slotBounds s.currentIdx).1+16 ≤ regs.rsp ∧ regs.rsp ≤ (s.slotBounds s.currentIdx).2 ∧
    (s.slotBounds s.currentIdx).2 < 2^47)

theorem polite_sound (s : Kernel) (regs : Interrupted) (passed : politeCheck s regs = true) : Polite s regs := by
  intro up
  simp only [politeCheck,Bool.or_eq_true,beq_iff_eq,up,false_or,decide_eq_true_eq] at passed
  refine ⟨passed.1,passed.2.1,?_⟩
  intro x _ most
  exact Or.inl (Nat.lt_of_le_of_lt most passed.2.2)

section guarantees
variable {b : Build} {allowed : Kernel → Interrupted → Prop} {s : Kernel} {call : Call}

theorem session_safe (session : Session b allowed s) (legal : call.legal s = true) :
    Safe (Irq allowed) Fenced (Expected ((live s).length = MAX_TASKS) (Confined allowed)) (call.run b)
      (fun _ s' => Done b allowed s call s') s := by
  obtain ⟨boot,table⟩ := session_parts session
  exact call_safe boot table call legal

-- Between calls the tables agree with the live tasks, by the queue and by the record. During a call the running task
-- finds itself, no slot is taken or released twice, and the table is full with seven tasks.
theorem slot_tables_in_step (session : Session b allowed s) : (∃ births deaths, Lives b allowed births deaths s) ∧
    (∀ births deaths, Lives b allowed births deaths s → Recorded births deaths s) ∧ Consistent s ∧
    ∀ call : Call, call.legal s = true →
    (∀ rest s' addr, Reach (Irq allowed) (call.run b,s) (rest,s') → s'.stack = some addr →
      Returns (Irq allowed) currentTask s' addr s' ∧
      (∀ found s'', Returns (Irq allowed) currentTask s' found s'' → found = addr) ∧
      ∀ fault, ¬ Faults (Irq allowed) currentTask s' fault) ∧
    (∀ idx, ¬ Faults (Irq allowed) (call.run b) s (.slotRegisteredTwice idx)) ∧
    (∀ idx, ¬ Faults (Irq allowed) (call.run b) s (.neverRegistered idx)) ∧
    (∀ idx, ¬ Faults (Irq allowed) (call.run b) s (.unregisteredSlot idx)) ∧
    (Faults (Irq allowed) (call.run b) s .tableFull → (live s).length = MAX_TASKS) ∧
    (call.constructs = true → (live s).length = MAX_TASKS → ∀ s', ¬ Returns (Irq allowed) (call.run b) s () s') := by
  obtain ⟨boot,table⟩ := session_parts session
  refine ⟨session_lives session,fun _ _ => lives_recorded,table_consistent table,?_⟩
  intro call legal
  have safe := call_safe (b:=b) boot table call legal
  refine ⟨?_,?_,?_,?_,?_,?_⟩
  · intro rest s' addr reach running
    have fenced := safe_state safe reach
    have resolves : Safe (Irq allowed) _ _ currentTask _ s' := currentTask_resolves fenced running
    refine ⟨currentTask_returns fenced running,?_,?_⟩
    · intro found s'' returns
      have same := safe_returns resolves returns
      exact same
    · intro fault faults
      exact safe_faults resolves faults
  · intro idx faults
    exact safe_faults safe faults
  · intro idx faults
    exact safe_faults safe faults
  · intro idx faults
    exact safe_faults safe faults
  · intro faults
    have full := safe_faults safe faults
    exact full
  · intro constructs full s' returns
    have done := safe_returns safe returns
    obtain ⟨more,table'⟩ := constructs_done table constructs done
    have bound := live_bound table'
    omega

theorem slot_tables_in_step_sample : ∃ s, Session (sampleBuild .roundRobin) (fun _ _ => True) s ∧
    (live s).map (fun task => (task.id,task.slot)) = [(1,0),(3,1)] ∧ s.preemptSwitches = 1 ∧ Consistent s ∧
    ∃ births deaths, Recorded births deaths s ∧ deaths.map signature = [(2,"b")] := by
  obtain ⟨s,ran,checked⟩ := (Option.any_eq_true _ _).mp (show (List.foldlM (Call.exec (sampleBuild .roundRobin) fun _ _ => true)
    (Kernel.boot 0 true) sampleCalls).any (fun s => (live s).map (fun task => (task.id,task.slot)) == [(1,0),(3,1)] &&
      s.preemptSwitches == 1 && s.finishedRuns.map signed == [(2,"b")]) = true by decide +kernel)
  simp only [Bool.and_eq_true,beq_iff_eq] at checked
  have session : Session (sampleBuild .roundRobin) (fun _ _ => True) s := exec_session (fun _ _ _ => trivial) (.boot 0 true) ran
  obtain ⟨⟨births,deaths,lives⟩,recorded,consistent,_⟩ := slot_tables_in_step session
  have record := recorded births deaths lives
  exact ⟨s,session,checked.1.1,checked.1.2,consistent,births,deaths,record,record.ended.symm.trans checked.2⟩

theorem fence_confines_ticks (session : Session b allowed s) (legal : call.legal s = true)
    (reach : Reach (Irq allowed) (call.run b,s) (rest,s')) :
    Windowed s' ∧ (∀ regs, Ticked regs s' (tick regs s')) ∧
    (Confined allowed → ∀ id name, ¬ Faults (Irq allowed) (call.run b) s (.stashInvalid id name)) := by
  have safe := session_safe session legal
  have fenced := safe_state safe reach
  refine ⟨fenced_windowed fenced,fenced_ticked fenced,?_⟩
  intro confined id name faults
  exact safe_faults safe faults confined

theorem fence_confines_ticks_sample : ∃ s rest s', Session (sampleBuild .roundRobin) Polite s ∧
    Reach (Irq Polite) (Call.scheduleOnce.run (sampleBuild .roundRobin),s) (rest,s') ∧ s'.preemptible = 1 ∧
    s'.preemptSwitches = 1 ∧ Windowed s' ∧ (∀ regs, Ticked regs s' (tick regs s')) ∧
    ∀ id name, ¬ Faults (Irq Polite) (Call.scheduleOnce.run (sampleBuild .roundRobin)) s (.stashInvalid id name) := by
  obtain ⟨s,ran,checked⟩ := (Option.any_eq_true _ _).mp (show (List.foldlM (Call.exec (sampleBuild .roundRobin) politeCheck)
    (Kernel.boot 0 true) (sampleCalls.take 4)).any (fun s => (drive (fire politeCheck)
      (Call.scheduleOnce.run (sampleBuild .roundRobin)) midStep s).any fun c => c.2.preemptible == 1 && c.2.preemptSwitches == 1) =
    true by decide +kernel)
  obtain ⟨⟨rest,s'⟩,driven,inside⟩ := (Option.any_eq_true _ _).mp checked
  simp only [Bool.and_eq_true,beq_iff_eq] at inside
  have session : Session (sampleBuild .roundRobin) Polite s := exec_session polite_sound (.boot 0 true) ran
  have reach := drive_reach (fire_irq polite_sound) driven
  obtain ⟨windowed,ticked,frames⟩ := fence_confines_ticks session rfl reach
  exact ⟨s,rest,s',session,reach,inside.1,inside.2,windowed,ticked,frames fun _ _ polite => polite⟩

end guarantees
end RustyCore
