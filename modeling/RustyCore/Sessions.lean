import RustyCore.TaskConstruction

namespace RustyCore
open InterruptedPrograms Function

structure Build where
  policy : Policy
  profile : Profile
  config : BuildConfig

inductive Call where
  | new (raw id : ℕ) (name : String) (outcome : ℕ → StepCall)
  | sleeping (raw id : ℕ) (name : String) (untilTick : ℕ) (outcome : ℕ → StepCall)
  | withWeight (i weight : ℕ)
  | spawn (i addr : ℕ)
  | scheduleOnce

def Call.run (b : Build) : Call → Kern Unit
  | .new raw id name outcome => newTask b.profile b.config raw id name outcome
  | .sleeping raw id name untilTick outcome => sleepingTask b.profile b.config raw id name untilTick outcome
  | .withWeight i weight => RustyCore.withWeight i weight
  | .spawn i addr => RustyCore.spawn b.policy b.config i addr
  | .scheduleOnce => RustyCore.scheduleOnce b.policy b.profile >>= fun _ => pure ()

def Call.constructs : Call → Bool
  | .new .. | .sleeping .. => true
  | _ => false

-- A driver passes on only tasks it has in hand.
def Call.legal (s : Kernel) : Call → Bool
  | .withWeight i _ | .spawn i _ => decide (i < s.held.length)
  | _ => true

inductive Event where
  | tick
  | flag (value : Bool)
  | call (call : Call)

-- Between calls the driver may also mask and unmask interrupts.
inductive Happens (b : Build) (allowed : Kernel → Interrupted → Prop) : Kernel → Event → Kernel → Prop where
  | tick : Irq allowed s s' → Happens b allowed s .tick s'
  | flag : Happens b allowed s (.flag value) {s with interruptFlag := value}
  | call : call.legal s = true → Returns (Irq allowed) (call.run b) s () s' → Happens b allowed s (.call call) s'

inductive Session (b : Build) (allowed : Kernel → Interrupted → Prop) : Kernel → Prop where
  | boot (apicTicks : ℕ) (interruptFlag : Bool) : Session b allowed (Kernel.boot apicTicks interruptFlag)
  | step : Session b allowed s → Happens b allowed s event s' → Session b allowed s'

def Scheduled (policy : Policy) (allowed : Kernel → Interrupted → Prop) (s : Kernel) (ran : Bool) (s' : Kernel) : Prop :=
  match policy with
  | .roundRobin => RoundRobin.Called allowed s ran s'
  | .cfs => Cfs.Called allowed s ran s'

def Done (b : Build) (allowed : Kernel → Interrupted → Prop) (s : Kernel) (call : Call) (s' : Kernel) : Prop :=
  match call with
  | .new _ id name outcome => Grown allowed [] s s' ∧ ∃ stack rsp preempt slot, s'.held = s.held ++
      [⟨id,name,.ready,0,0,CFS_DEFAULT_WEIGHT,stack,.bootstrap rsp,preempt,slot,⟨outcome,0⟩⟩]
  | .sleeping _ id name untilTick outcome => Grown allowed [] s s' ∧ ∃ stack rsp preempt slot, s'.held = s.held ++
      [⟨id,name,.sleeping untilTick,0,0,CFS_DEFAULT_WEIGHT,stack,.bootstrap rsp,preempt,slot,⟨outcome,0⟩⟩]
  | .withWeight i weight => Grown allowed [] s s' ∧ 0 < weight ∧
      s'.held = s.held.modify i fun task => {task with weight := weight}
  | .spawn i addr => Grown allowed [addr] s s' ∧ s.heap addr = none ∧ ∃ task, s.held[i]? = some task ∧
      s'.heap = update s.heap addr (some task) ∧ s'.held = s.held.eraseIdx i
  | .scheduleOnce => ∃ ran, Scheduled b.policy allowed s ran s'

-- One task's turn, whichever policy chose it: what it leaves in the queue, the boxes and
-- the record of finished tasks.
structure TookTurn (s : Kernel) (addr : ℕ) (task : Task) (rest : List ℕ) (s' : Kernel) : Prop where
  here : s.heap addr = some task
  queue : s.ready.Perm (addr :: rest)
  log : s'.stepLog = s.stepLog ++ [addr]
  held : s'.held = s.held
  others : ∀ a, a ≠ addr → s'.heap a = s.heap a
  bounds : s'.slotBounds = s.slotBounds
  used : ∀ i, s'.slotUsed.getLsbD i = true → s.slotUsed.getLsbD i = true
  verdict : (task.step.outcome task.step.calls).alive = true ∧ s'.ready = rest ++ [addr] ∧
      (∃ vruntime, s'.heap addr = some {stepped task with vruntime := vruntime}) ∧ s'.finishedRuns = s.finishedRuns ∨
    (task.step.outcome task.step.calls).alive = false ∧ s'.ready = rest ∧ s'.heap addr = none ∧
      s'.finishedRuns = s.finishedRuns ++ [(task.id,task.name,(task.runs+1) % 2^64)]

section session
variable {b : Build} {allowed : Kernel → Interrupted → Prop} {s s' : Kernel}

theorem stepped_ready (task : Task) : (stepped task).state = .ready ↔ (task.step.outcome task.step.calls).alive = true := by
  unfold stepped afterStep
  cases (task.step.outcome task.step.calls).alive <;> simp

theorem turned_took (turned : Turned allowed accrue {s with ready := rest} addr task' s')
    (same : accrue (stepped task') = {stepped task with vruntime := vruntime}) (here : s.heap addr = some task)
    (queue : s.ready.Perm (addr :: rest)) : TookTurn s addr task rest s' := by
  have verdict := turned.queue
  simp only [same,ne_eq,stepped_ready] at verdict
  refine ⟨here,queue,turned.log,turned.held,?_,turned.bounds,turned.used,?_⟩
  · intro a other
    rcases verdict with ⟨_,_,heap,_⟩ | ⟨_,_,heap,_⟩
    · rw [heap,update_of_ne other]
    · rw [heap,update_of_ne other]
  · rcases verdict with ⟨alive,ready,heap,finished⟩ | ⟨ended,ready,heap,finished⟩
    · exact Or.inl ⟨alive,ready,⟨vruntime,by rw [heap,update_self]⟩,finished⟩
    · exact Or.inr ⟨Bool.eq_false_iff.mpr ended,ready,by rw [heap,update_self],finished⟩

theorem scheduled_took (scheduled : Scheduled policy allowed s found s') :
    found = false ∧ Still allowed s s' ∨ found = true ∧ ∃ addr task rest, TookTurn s addr task rest s' := by
  cases policy with
  | roundRobin =>
      cases scheduled with
      | idle _ still => exact Or.inl ⟨rfl,still⟩
      | ran skipped addr rest task split _ here _ turned =>
          refine Or.inr ⟨rfl,addr,task,rest ++ skipped,turned_took turned rfl here ?_⟩
          rw [split]
          exact List.perm_append_comm
  | cfs =>
      cases scheduled with
      | idle _ _ _ still => exact Or.inl ⟨rfl,still⟩
      | ran now idx addr task _ _ there here turned =>
          rw [Cfs.woken_vruntime] at turned
          exact Or.inr ⟨rfl,addr,task,_,turned_took turned rfl here (Cfs.removed_perm there)⟩

theorem scheduleOnce_safe {E : Panic → Prop} (policy : Policy) (boot : Boot s) (table : Table allowed s.ready s)
    (blames : ∀ addr ∈ s.ready, ∀ task, s.heap addr = some task → Blames E p (Confined allowed) task) :
    Safe (Irq allowed) Fenced E (scheduleOnce policy p) (fun found s' => Scheduled policy allowed s found s') s := by
  cases policy with
  | roundRobin => exact roundRobin_safe boot table blames fun _ _ called => called
  | cfs => exact Cfs.cfs_safe boot table blames fun _ _ called => called

theorem call_safe (boot : Boot s) (table : Table allowed s.ready s) (call : Call) (legal : call.legal s = true) :
    Safe (Irq allowed) Fenced (Expected ((live s).length = MAX_TASKS) (Confined allowed)) (call.run b)
      (fun _ s' => Done b allowed s call s') s := by
  cases call with
  | new raw id name outcome =>
      refine construct_safe boot table ?_
      intro stack rsp preempt slot s' grown held
      exact ⟨grown,stack,rsp,preempt,slot,held⟩
  | sleeping raw id name untilTick outcome =>
      refine construct_safe boot table ?_
      intro stack rsp preempt slot s' grown held
      exact ⟨grown,stack,rsp,preempt,slot,held⟩
  | withWeight i weight =>
      refine withWeight_safe boot table (fun _ => trivial) ?_
      intro s' grown positive held
      exact ⟨grown,positive,held⟩
  | spawn i addr =>
      have inside : i < s.held.length := of_decide_eq_true legal
      have there := List.getElem?_eq_getElem inside
      refine spawn_safe b.policy boot table there trivial (fun _ => trivial) ?_
      intro s' grown unused heap held
      exact ⟨grown,unused,_,there,heap,held⟩
  | scheduleOnce =>
      refine safe_map _ (scheduleOnce_safe b.policy boot table fun _ _ task _ => expected_blames _ _ _ task) ?_
      intro ran s' scheduled
      exact ⟨ran,scheduled⟩

theorem still_table (table : Table allowed s.ready s) (still : Still allowed s s') : Table allowed s'.ready s' := by
  obtain ⟨n,_,rfl⟩ := still
  exact table_congr table rfl rfl rfl rfl rfl rfl

theorem scheduled_parts (boot : Boot s) (table : Table allowed s.ready s) (scheduled : Scheduled policy allowed s ran s') :
    Boot s' ∧ Table allowed s'.ready s' ∧ (Steady allowed → s.apicTicks ≤ s'.apicTicks) := by
  cases policy with
  | roundRobin =>
      cases scheduled with
      | idle _ still => exact ⟨still_boot boot still,still_table table still,still.elim fun n kept => by rw [kept.2]; exact kept.1⟩
      | ran _ _ _ _ _ _ _ _ turned => exact ⟨turned.boot,turned.table,turned.ticks⟩
  | cfs =>
      cases scheduled with
      | idle _ _ _ still => exact ⟨still_boot boot still,still_table table still,still.elim fun n kept => by rw [kept.2]; exact kept.1⟩
      | ran _ _ _ _ _ _ _ _ turned => exact ⟨turned.boot,turned.table,turned.ticks⟩

theorem done_parts (boot : Boot s) (table : Table allowed s.ready s) (done : Done b allowed s call s') :
    Boot s' ∧ Table allowed s'.ready s' ∧ (Steady allowed → s.apicTicks ≤ s'.apicTicks) := by
  cases call with
  | new => exact ⟨done.1.boot,done.1.table,done.1.ticks⟩
  | sleeping => exact ⟨done.1.boot,done.1.table,done.1.ticks⟩
  | withWeight => exact ⟨done.1.boot,done.1.table,done.1.ticks⟩
  | spawn => exact ⟨done.1.boot,done.1.table,done.1.ticks⟩
  | scheduleOnce =>
      obtain ⟨ran,scheduled⟩ := done
      exact scheduled_parts boot table scheduled

theorem tick_still (boot : Boot s) (fired : Irq allowed s s') : Still allowed s s' :=
  still_stable boot s s' (still_refl s) fired

theorem boot_table (apicTicks : ℕ) (interruptFlag : Bool) : Table allowed [] (Kernel.boot apicTicks interruptFlag) := by
  have clear : ∀ i, (0#8).getLsbD i = false := fun i => BitVec.getLsbD_zero
  refine ⟨List.nodup_nil,?_,?_,List.nodup_nil,?_,fun _ _ _ => ⟨rfl,rfl⟩,?_⟩
  · intro a member
    cases member
  · intro task member
    cases member
  · intro i set
    cases (clear i).symm.trans set
  · intro _ i _ set
    cases (clear i).symm.trans set

theorem happens_parts (boot : Boot s) (table : Table allowed s.ready s) (happens : Happens b allowed s event s') :
    Boot s' ∧ Table allowed s'.ready s' ∧ (Steady allowed → s.apicTicks ≤ s'.apicTicks) := by
  cases happens with
  | tick fired =>
      have still := tick_still boot fired
      refine ⟨still_boot boot still,still_table table still,?_⟩
      obtain ⟨n,later,rfl⟩ := still
      exact later
  | flag => exact ⟨boot,table_congr table rfl rfl rfl rfl rfl rfl,fun _ => Nat.le_refl _⟩
  | call legal returns =>
      have done := safe_returns (call_safe (b:=b) boot table _ legal) returns
      exact done_parts boot table done

theorem session_parts (session : Session b allowed s) : Boot s ∧ Table allowed s.ready s := by
  induction session with
  | boot apicTicks interruptFlag => exact ⟨⟨rfl,rfl⟩,boot_table apicTicks interruptFlag⟩
  | step _ happens ih =>
      obtain ⟨boot,table,_⟩ := happens_parts ih.1 ih.2 happens
      exact ⟨boot,table⟩

theorem live_bound (table : Table allowed s.ready s) : (live s).length ≤ MAX_TASKS := by
  have inside : ((live s).map (·.slot)) ⊆ List.range MAX_TASKS := by
    intro i member
    obtain ⟨task,listed,rfl⟩ := List.mem_map.mp member
    exact List.mem_range.mpr (live_reserved table listed).slot
  have bound := ((live_slots table).subperm inside).length_le
  rwa [List.length_map,List.length_range] at bound

theorem grown_queued (table : Table allowed s.ready s) (grown : Grown allowed fresh s s') (member : a ∈ s.ready) :
    s'.heap a = s.heap a := by
  apply grown.heap
  obtain ⟨task,here,_⟩ := table.boxed a member
  rw [here]
  exact Option.some_ne_none task

theorem grown_live (table : Table allowed s.ready s) (grown : Grown allowed [] s s') (held : s'.held = s.held ++ [task]) :
    (live s').length = (live s).length+1 := by
  have boxes : s'.ready.filterMap s'.heap = s.ready.filterMap s.heap := by
    rw [grown.ready,List.append_nil]
    exact List.filterMap_congr fun a member => grown_queued table grown member
  simp only [live,boxes,held,List.length_append,List.length_singleton,Nat.add_assoc]

theorem constructs_done (table : Table allowed s.ready s) (constructs : call.constructs = true) (done : Done b allowed s call s') :
    (live s').length = (live s).length+1 ∧ Table allowed s'.ready s' := by
  cases call with
  | new =>
      obtain ⟨grown,_,_,_,_,held⟩ := done
      exact ⟨grown_live table grown held,grown.table⟩
  | sleeping =>
      obtain ⟨grown,_,_,_,_,held⟩ := done
      exact ⟨grown_live table grown held,grown.table⟩
  | withWeight => cases constructs
  | spawn => cases constructs
  | scheduleOnce => cases constructs

theorem currentTask_resolves (fenced : Fenced s) (running : s.stack = some addr) :
    Safe (Irq allowed) (fun _ => True) (fun _ => False) currentTask (fun found _ => found = addr) s := by
  obtain ⟨task,_,current,inside,_,pointer,nonnull⟩ := fenced.owner addr running
  have stable : ∀ s s', s.currentIdx = task.slot ∧ s.taskPtrs task.slot = addr → Irq allowed s s' →
      s'.currentIdx = task.slot ∧ s'.taskPtrs task.slot = addr := by
    rintro s s' now ⟨regs,_,_,rfl⟩
    rw [tick_current,tick_pointers]
    exact now
  have outside : ¬ task.slot ≥ MAX_TASKS := Nat.not_le.mpr inside
  simp only [currentTask,taskAt]
  refine safe_load stable (fun _ _ => trivial) ⟨current,pointer⟩ ?_
  intro s₁ now
  simp only [now.1,outside,if_false,bind_assoc,pure_bind]
  refine safe_load stable (fun _ _ => trivial) now ?_
  intro s₂ now
  simp only [now.2,nonnull,if_false]
  exact safe_ret stable (fun _ _ => trivial) now fun _ _ => rfl

theorem currentTask_returns (fenced : Fenced s) (running : s.stack = some addr) : Returns (Irq allowed) currentTask s addr s := by
  obtain ⟨task,_,current,inside,_,pointer,nonnull⟩ := fenced.owner addr running
  have outside : ¬ task.slot ≥ MAX_TASKS := Nat.not_le.mpr inside
  unfold currentTask
  apply returns_load
  simp only [taskAt,current,outside,if_false,bind_assoc,pure_bind]
  apply returns_load
  simp only [pointer,nonnull,if_false]
  exact .refl

end session

-- A session that can be evaluated: each call with its schedule of ticks, a tick being
-- delivered only if it passes `check`.
def fire (check : Kernel → Interrupted → Bool) (regs : Interrupted) (s : Kernel) : Option Kernel :=
  if s.interruptFlag && check s regs then some (tick regs s) else none

def Call.exec (b : Build) (check : Kernel → Interrupted → Bool) (s : Kernel) (entry : Call × List (List Interrupted)) :
    Option Kernel :=
  if entry.1.legal s then ((drive (fire check) (entry.1.run b) entry.2 s).bind returned).map (·.2) else none

section exec
variable {b : Build} {allowed : Kernel → Interrupted → Prop} {check : Kernel → Interrupted → Bool}
  (sound : ∀ s regs, check s regs = true → allowed s regs)
include sound

theorem fire_irq (regs : Interrupted) (s s' : Kernel) (fired : fire check regs s = some s') : Irq allowed s s' := by
  unfold fire at fired
  split at fired
  · rename_i enabled
    rw [Bool.and_eq_true] at enabled
    cases fired
    exact ⟨regs,enabled.1,sound s regs enabled.2,rfl⟩
  · cases fired

theorem exec_happens (ran : Call.exec b check s entry = some s') : Happens b allowed s (.call entry.1) s' := by
  unfold Call.exec at ran
  split at ran
  · rename_i legal
    obtain ⟨⟨value,after⟩,driven,rfl⟩ := Option.map_eq_some_iff.mp ran
    exact .call legal (drive_returns (fire_irq sound) driven)
  · cases ran

theorem exec_session (session : Session b allowed s) (ran : List.foldlM (Call.exec b check) s entries = some s') :
    Session b allowed s' := by
  induction entries generalizing s with
  | nil =>
      cases ran
      exact session
  | cons entry entries ih =>
      rw [List.foldlM_cons] at ran
      obtain ⟨mid,first,rest⟩ := Option.bind_eq_some_iff.mp ran
      exact ih (.step session (exec_happens sound first)) rest

end exec

end RustyCore
