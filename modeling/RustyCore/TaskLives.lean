import RustyCore.Sessions

namespace RustyCore
open InterruptedPrograms Function

structure Identity where
  id : ℕ
  name : String
  slot : ℕ
  bottom : ℕ
  top : ℕ
  deriving DecidableEq, Repr

def identityOf (task : Task) : Identity := ⟨task.id,task.name,task.slot,task.stack.bottom,task.stack.top⟩

def born (s s' : Kernel) : Event → List Identity
  | .call call => if call.constructs then (s'.held.drop s.held.length).map identityOf else []
  | _ => []

def died (s s' : Kernel) : List Identity := (s'.stepLog.drop s.stepLog.length).filterMap fun addr =>
  (s.heap addr).bind fun task => if (task.step.outcome task.step.calls).alive then none else some (identityOf task)

-- A session with the tasks that were constructed and those that `schedule_once` saw finish. Neither list is
-- read off the queue or the slot tables.
inductive Lives (b : Build) (allowed : Kernel → Interrupted → Prop) : List Identity → List Identity → Kernel → Prop where
  | boot (apicTicks : ℕ) (interruptFlag : Bool) : Lives b allowed [] [] (Kernel.boot apicTicks interruptFlag)
  | step (before : Lives b allowed births deaths s) (happens : Happens b allowed s event s') :
      Lives b allowed (births ++ born s s' event) (deaths ++ died s s') s'

def Unfinished (task : Task) : Prop := task.state ≠ .finished ∧ ∀ k < task.step.calls, (task.step.outcome k).alive = true

def queuedTasks (s : Kernel) : List Task := s.ready.filterMap s.heap

def signature (one : Identity) : ℕ × String := (one.id,one.name)

def signed (entry : ℕ × String × ℕ) : ℕ × String := (entry.1,entry.2.1)

structure Passed (s s' : Kernel) (births : List Identity) : Prop where
  tasks : ((live s').map identityOf ++ died s s').Perm ((live s).map identityOf ++ births)
  going : (∀ task ∈ live s, Unfinished task) → ∀ task ∈ live s', Unfinished task
  ended : s'.finishedRuns.map signed = s.finishedRuns.map signed ++ (died s s').map signature

section lives
variable {b : Build} {allowed : Kernel → Interrupted → Prop} {births deaths : List Identity} {s s' : Kernel} {event : Event}

theorem call_done (session : Session b allowed s) (happens : Happens b allowed s (.call call) s') : Done b allowed s call s' := by
  obtain ⟨boot,table⟩ := session_parts session
  cases happens with
  | call legal returns =>
      have done := safe_returns (call_safe (b:=b) boot table call legal) returns
      exact done

theorem grown_tasks (table : Table allowed s.ready s) (grown : Grown allowed addrs s s') :
    queuedTasks s' = queuedTasks s ++ addrs.filterMap s'.heap := by
  unfold queuedTasks
  rw [grown.ready,List.filterMap_append]
  congr 1
  exact List.filterMap_congr fun a member => grown_queued table grown member

theorem took_tasks (table : Table allowed s.ready s) (took : TookTurn s addr task rest s') :
    (queuedTasks s).Perm (task :: rest.filterMap s.heap) ∧ rest.filterMap s'.heap = rest.filterMap s.heap := by
  constructor
  · have tasks := took.queue.filterMap s.heap
    rw [List.filterMap_cons,took.here] at tasks
    exact tasks
  · apply List.filterMap_congr
    intro a member
    apply took.others
    rintro rfl
    exact (List.nodup_cons.mp (took.queue.nodup_iff.mp table.once)).1 member

theorem took_queue (table : Table allowed s.ready s) (took : TookTurn s addr task rest s') :
    (task.step.outcome task.step.calls).alive = true ∧ s'.finishedRuns = s.finishedRuns ∧
      (∃ vruntime, s'.heap addr = some {stepped task with vruntime := vruntime} ∧
        queuedTasks s' = rest.filterMap s.heap ++ [{stepped task with vruntime := vruntime}]) ∨
    (task.step.outcome task.step.calls).alive = false ∧ queuedTasks s' = rest.filterMap s.heap ∧
      s'.finishedRuns = s.finishedRuns ++ [(task.id,task.name,(task.runs+1) % 2^64)] := by
  have same := (took_tasks table took).2
  unfold queuedTasks
  rcases took.verdict with ⟨alive,ready,⟨vruntime,here⟩,finished⟩ | ⟨dead,ready,_,finished⟩
  · refine Or.inl ⟨alive,finished,vruntime,here,?_⟩
    rw [ready,List.filterMap_append,same,List.filterMap_cons,here]
    rfl
  · exact Or.inr ⟨dead,by rw [ready,same],finished⟩

theorem live_queued (s : Kernel) : live s = queuedTasks s ++ s.held := rfl

theorem died_none (log : s'.stepLog = s.stepLog) : died s s' = [] := by
  rw [died,log,List.drop_length,List.filterMap_nil]

theorem passed_same (same : live s' = live s) (log : s'.stepLog = s.stepLog) (finished : s'.finishedRuns = s.finishedRuns) :
    Passed s s' [] := by
  refine ⟨?_,?_,?_⟩
  · rw [same,died_none log]
  · rw [same]
    exact fun going => going
  · rw [finished,died_none log,List.map_nil,List.append_nil]

theorem passed_still (still : Still allowed s s') : Passed s s' [] := by
  obtain ⟨n,_,rfl⟩ := still
  exact passed_same rfl rfl rfl

theorem passed_grown (table : Table allowed s.ready s) (grown : Grown allowed addrs s s')
    (tasks : ((addrs.filterMap s'.heap ++ s'.held).map identityOf).Perm (s.held.map identityOf ++ births))
    (going : ∀ task ∈ addrs.filterMap s'.heap ++ s'.held, Unfinished task ∨ task ∈ s.held) : Passed s s' births := by
  have queue : live s' = queuedTasks s ++ (addrs.filterMap s'.heap ++ s'.held) := by
    rw [live_queued,grown_tasks table grown,List.append_assoc]
  refine ⟨?_,?_,?_⟩
  · rw [queue,died_none grown.log,List.append_nil,live_queued]
    simp only [List.map_append,List.append_assoc] at tasks ⊢
    exact tasks.append_left _
  · intro before task member
    rw [queue,List.mem_append] at member
    rcases member with old | new
    · exact before task (List.mem_append_left _ old)
    · rcases going task new with unfinished | held
      · exact unfinished
      · exact before task (List.mem_append_right _ held)
  · rw [grown.finished,died_none grown.log,List.map_nil,List.append_nil]

theorem passed_built (table : Table allowed s.ready s) (grown : Grown allowed [] s s') (held : s'.held = s.held ++ [task])
    (unfinished : Unfinished task) : Passed s s' ((s'.held.drop s.held.length).map identityOf) := by
  refine passed_grown table grown ?_ ?_
  · rw [held,List.drop_left,List.filterMap_nil,List.nil_append,List.map_append]
  · intro t member
    rw [List.filterMap_nil,List.nil_append,held,List.mem_append,List.mem_singleton] at member
    rcases member with old | rfl
    · exact Or.inr old
    · exact Or.inl unfinished

theorem identities_modify (held : List Task) (i weight : ℕ) :
    (held.modify i fun task => {task with weight := weight}).map identityOf = held.map identityOf := by
  induction held generalizing i with
  | nil => cases i <;> rfl
  | cons task held ih =>
      cases i with
      | zero => rfl
      | succ i => exact congrArg (identityOf task :: ·) (ih i)

theorem passed_weighed (table : Table allowed s.ready s) (grown : Grown allowed [] s s')
    (held : s'.held = s.held.modify i fun task => {task with weight := weight}) : Passed s s' [] := by
  have live : (RustyCore.live s').map identityOf = (RustyCore.live s).map identityOf := by
    rw [live_queued,live_queued,grown_tasks table grown,List.filterMap_nil,List.append_nil,held,List.map_append,List.map_append,
      identities_modify]
  refine ⟨?_,?_,?_⟩
  · rw [live,died_none grown.log]
  · intro before task member
    rw [live_queued,grown_tasks table grown,List.filterMap_nil,List.append_nil,held,List.mem_append] at member
    rcases member with queued | inHand
    · exact before task (List.mem_append_left _ queued)
    · obtain ⟨j,found⟩ := List.mem_iff_getElem?.mp inHand
      obtain ⟨old,there,rfl⟩ := modify_some found
      have going := before old (List.mem_append_right _ (List.mem_of_getElem? there))
      split
      · exact going
      · exact going
  · rw [grown.finished,died_none grown.log,List.map_nil,List.append_nil]

theorem passed_spawned (table : Table allowed s.ready s) (grown : Grown allowed [addr] s s') (there : s.held[i]? = some task)
    (heap : s'.heap = update s.heap addr (some task)) (held : s'.held = s.held.eraseIdx i) : Passed s s' [] := by
  have inside : i < s.held.length := (List.getElem?_eq_some_iff.mp there).1
  have moved : (List.filterMap s'.heap [addr] ++ s'.held).Perm s.held := by
    rw [heap,List.filterMap_cons,update_self,held]
    have same : s.held[i] = task := (List.getElem?_eq_some_iff.mp there).2
    rw [← same]
    exact List.getElem_cons_eraseIdx_perm inside
  refine passed_grown table grown ?_ fun t member => Or.inr (moved.mem_iff.mp member)
  rw [List.append_nil]
  exact moved.map identityOf

theorem died_took (took : TookTurn s addr task rest s') :
    died s s' = if (task.step.outcome task.step.calls).alive then [] else [identityOf task] := by
  unfold died
  rw [took.log,List.drop_left,List.filterMap_cons,took.here,Option.bind_some,List.filterMap_nil]
  cases (task.step.outcome task.step.calls).alive <;> rfl

-- The task that ran stays with its identity, or its step returned false and it leaves.
theorem unfinished_stepped (unfinished : Unfinished task) (alive : (task.step.outcome task.step.calls).alive = true) :
    Unfinished {stepped task with vruntime := vruntime} := by
  refine ⟨?_,?_⟩
  · rw [show ({stepped task with vruntime := vruntime} : Task).state = .ready from (stepped_ready task).mpr alive]
    simp
  · intro k below
    rcases Nat.lt_or_eq_of_le (Nat.le_of_lt_succ below) with earlier | last
    · exact unfinished.2 k earlier
    · rw [last]
      exact alive

theorem passed_took (table : Table allowed s.ready s) (took : TookTurn s addr task rest s') : Passed s s' [] := by
  have tasks := (took_tasks table took).1
  have before : (live s).Perm (task :: (rest.filterMap s.heap ++ s.held)) := by
    rw [live_queued]
    exact tasks.append_right s.held
  have died := died_took took
  rcases took_queue table took with ⟨alive,finished,vruntime,_,queue⟩ | ⟨dead,queue,finished⟩
  · rw [alive,if_pos rfl] at died
    have after : (live s').Perm ({stepped task with vruntime := vruntime} :: (rest.filterMap s.heap ++ s.held)) := by
      rw [live_queued,queue,took.held,List.append_assoc]
      exact List.perm_middle
    refine ⟨?_,?_,?_⟩
    · rw [died,List.append_nil,List.append_nil]
      exact (after.map identityOf).trans (before.map identityOf).symm
    · intro going t member
      rcases List.mem_cons.mp (after.mem_iff.mp member) with rfl | other
      · exact unfinished_stepped (going task (before.mem_iff.mpr List.mem_cons_self)) alive
      · exact going t (before.mem_iff.mpr (List.mem_cons_of_mem _ other))
    · rw [finished,died,List.map_nil,List.append_nil]
  · rw [dead,if_neg (by simp)] at died
    have after : live s' = rest.filterMap s.heap ++ s.held := by rw [live_queued,queue,took.held]
    refine ⟨?_,?_,?_⟩
    · rw [died,List.append_nil,after]
      exact (List.perm_append_singleton _ _).trans (before.map identityOf).symm
    · intro going t member
      rw [after] at member
      exact going t (before.mem_iff.mpr (List.mem_cons_of_mem _ member))
    · rw [finished,died,List.map_append]
      rfl

theorem happens_passed (session : Session b allowed s) (happens : Happens b allowed s event s') :
    Passed s s' (born s s' event) := by
  obtain ⟨boot,table⟩ := session_parts session
  cases happens with
  | tick fired => exact passed_still (tick_still boot fired)
  | flag => exact passed_same rfl rfl rfl
  | @call _ call legal returns =>
      have done := call_done session (.call legal returns)
      cases call with
      | new =>
          obtain ⟨grown,_,_,_,_,held⟩ := done
          exact passed_built table grown held ⟨by simp,fun _ none => by cases none⟩
      | sleeping =>
          obtain ⟨grown,_,_,_,_,held⟩ := done
          exact passed_built table grown held ⟨by simp,fun _ none => by cases none⟩
      | withWeight => exact passed_weighed table done.1 done.2.2
      | spawn =>
          obtain ⟨grown,_,task,there,heap,held⟩ := done
          exact passed_spawned table grown there heap held
      | scheduleOnce =>
          obtain ⟨_,scheduled⟩ := done
          rcases scheduled_took scheduled with ⟨_,still⟩ | ⟨_,addr,task,rest,took⟩
          · exact passed_still still
          · exact passed_took table took

theorem lives_session (lives : Lives b allowed births deaths s) : Session b allowed s := by
  induction lives with
  | boot apicTicks interruptFlag => exact .boot apicTicks interruptFlag
  | step _ happens ih => exact .step ih happens

theorem session_lives (session : Session b allowed s) : ∃ births deaths, Lives b allowed births deaths s := by
  induction session with
  | boot apicTicks interruptFlag => exact ⟨[],[],.boot apicTicks interruptFlag⟩
  | step _ happens ih =>
      obtain ⟨_,_,before⟩ := ih
      exact ⟨_,_,.step before happens⟩

theorem lives_parts (lives : Lives b allowed births deaths s) :
    births.Perm ((live s).map identityOf ++ deaths) ∧ (∀ task ∈ live s, Unfinished task) ∧
    s.finishedRuns.map signed = deaths.map signature := by
  induction lives with
  | boot =>
      refine ⟨.refl _,?_,rfl⟩
      intro task member
      cases member
  | @step births deaths s event s' before happens ih =>
      have passed := happens_passed (lives_session before) happens
      obtain ⟨everyone,going,ended⟩ := ih
      refine ⟨?_,passed.going going,?_⟩
      · have swap : ∀ left middle right : List Identity, (left ++ middle ++ right).Perm (left ++ right ++ middle) := by
          intro left middle right
          rw [List.append_assoc,List.append_assoc]
          exact List.perm_append_comm.append_left left
        refine (everyone.append_right _).trans ((swap _ _ _).trans ((passed.tasks.symm.append_right _).trans ?_))
        rw [← List.append_assoc]
        exact swap _ _ _
      · rw [passed.ended,ended,List.map_append]

end lives
end RustyCore
