import RustyCore.SchedulingRuns

namespace RustyCore
open InterruptedPrograms Function

structure Member where
  id : ℕ
  name : String
  outcome : ℕ → StepCall

def memberOf (task : Task) : Member := ⟨task.id,task.name,task.step.outcome⟩

def recruits (s : Kernel) : Event → List Member
  | .call (.spawn i _) => (s.held[i]?.map memberOf).toList
  | _ => []

def stepIds (s s' : Kernel) : List ℕ := (s'.stepLog.drop s.stepLog.length).filterMap fun addr => (s.heap addr).map (·.id)

-- A session with its record: who was spawned, whose step was called, and how many calls of
-- `schedule_once` returned true.
inductive History (b : Build) (allowed : Kernel → Interrupted → Prop) : List Member → List ℕ → ℕ → Kernel → Prop where
  | boot (apicTicks : ℕ) (interruptFlag : Bool) : History b allowed [] [] 0 (Kernel.boot apicTicks interruptFlag)
  | other (before : History b allowed roster ran wins s) (happens : Happens b allowed s event s') (quiet : event.calls = 0) :
      History b allowed (roster ++ recruits s event) ran wins s'
  | schedule (before : History b allowed roster ran wins s)
      (returns : Returns (Irq allowed) (scheduleOnce b.policy b.profile) s found s') :
      History b allowed roster (ran ++ stepIds s s') (wins+found.toNat) s'

def Standing (ran : List ℕ) (m : Member) (n : ℕ) : Prop := ran.count m.id = n ∧ ∀ k < n, (m.outcome k).alive = true

def Ended (ran : List ℕ) (m : Member) (n : ℕ) : Prop :=
  ran.count m.id = n+1 ∧ (m.outcome n).alive = false ∧ ∀ k < n, (m.outcome k).alive = true

def Untouched (task : Task) : Prop := task.step.calls = 0 ∧ task.runs = 0 ∧ task.vruntime = 0

-- Everybody spawned is in the queue or in the record of the finished, with the calls made.
structure Register (roster : List Member) (ran : List ℕ) (s : Kernel) : Prop where
  queued : ∀ t ∈ queuedTasks s, memberOf t ∈ roster ∧ t.runs = t.step.calls % 2^64 ∧ Standing ran (memberOf t) t.step.calls
  finished : ∀ entry ∈ s.finishedRuns, ∃ m ∈ roster, ∃ n, entry = (m.id,m.name,(n+1) % 2^64) ∧ Ended ran m n
  everyone : ((queuedTasks s).map (·.id) ++ s.finishedRuns.map (·.1)).Perm (roster.map (·.id))
  called : ∀ id ∈ ran, id ∈ roster.map (·.id)

section register
variable {b : Build} {allowed : Kernel → Interrupted → Prop} {roster fresh : List Member} {ran : List ℕ} {wins : ℕ} {s s' : Kernel}

theorem history_session (history : History b allowed roster ran wins s) : Session b allowed s := by
  induction history with
  | boot apicTicks interruptFlag => exact .boot apicTicks interruptFlag
  | other _ happens _ ih => exact .step ih happens
  | schedule _ returns ih =>
      have happens : Happens b allowed _ (.call .scheduleOnce) _ := .call rfl (bind_returns returns .refl)
      exact .step ih happens

theorem session_history (session : Session b allowed s) : ∃ roster ran wins, History b allowed roster ran wins s := by
  induction session with
  | boot apicTicks interruptFlag => exact ⟨[],[],0,.boot apicTicks interruptFlag⟩
  | @step s event s' _ happens ih =>
      obtain ⟨roster,ran,wins,before⟩ := ih
      by_cases quiet : event.calls = 0
      · exact ⟨_,_,_,.other before happens quiet⟩
      cases happens with
      | tick => exact absurd rfl quiet
      | flag => exact absurd rfl quiet
      | @call _ call legal returns =>
          cases call with
          | scheduleOnce =>
              obtain ⟨found,mid,first,second⟩ := returns_bind returns
              have rest : Returns (Irq allowed) (scheduleOnce b.policy b.profile) s found s' :=
                first.trans (interrupts_reach _ (returns_ret second).2)
              exact ⟨_,_,_,.schedule before rest⟩
          | _ => exact absurd rfl quiet

theorem boxed_task (table : Table allowed s.ready s) (member : a ∈ s.ready) : ∃ t, s.heap a = some t := by
  obtain ⟨t,here,_⟩ := table.boxed a member
  exact ⟨t,here⟩

theorem standing_more (standing : Standing ran m n) (other : who ≠ m.id) : Standing (ran ++ [who]) m n := by
  refine ⟨?_,standing.2⟩
  rw [List.count_append,List.count_singleton,beq_eq_false_iff_ne.mpr other]
  exact standing.1

theorem ended_more (ended : Ended ran m n) (other : who ≠ m.id) : Ended (ran ++ [who]) m n := by
  refine ⟨?_,ended.2⟩
  rw [List.count_append,List.count_singleton,beq_eq_false_iff_ne.mpr other]
  exact ended.1

theorem schedule_scheduled (session : Session b allowed s)
    (returns : Returns (Irq allowed) (scheduleOnce b.policy b.profile) s found s') : Scheduled b.policy allowed s found s' := by
  obtain ⟨boot,table⟩ := session_parts session
  exact safe_returns (scheduleOnce_safe b.policy boot table fun _ _ task _ => expected_blames True _ _ task) returns

theorem happens_held (session : Session b allowed s) (before : ∀ t ∈ s.held, Untouched t) (happens : Happens b allowed s event s') :
    ∀ t ∈ s'.held, Untouched t := by
  have built : ∀ {new : Task}, Untouched new → s'.held = s.held ++ [new] → ∀ t ∈ s'.held, Untouched t := by
    intro new unused held
    rw [held,List.forall_mem_append,List.forall_mem_singleton]
    exact ⟨before,unused⟩
  cases happens with
  | tick fired =>
      obtain ⟨n,_,rfl⟩ := tick_still (session_parts session).1 fired
      exact before
  | flag => exact before
  | @call _ call legal returns =>
      have done := call_done session (.call legal returns)
      cases call with
      | new =>
          obtain ⟨_,_,_,_,_,held⟩ := done
          exact built ⟨rfl,rfl,rfl⟩ held
      | sleeping =>
          obtain ⟨_,_,_,_,_,held⟩ := done
          exact built ⟨rfl,rfl,rfl⟩ held
      | withWeight i weight =>
          intro t member
          rw [done.2.2] at member
          obtain ⟨j,found⟩ := List.mem_iff_getElem?.mp member
          obtain ⟨t',there,rfl⟩ := modify_some found
          have unused := before t' (List.mem_of_getElem? there)
          split
          · exact unused
          · exact unused
      | spawn i addr =>
          obtain ⟨_,_,_,_,_,held⟩ := done
          rw [held]
          exact fun t member => before t (List.mem_of_mem_eraseIdx member)
      | scheduleOnce =>
          obtain ⟨found,scheduled⟩ := done
          rcases scheduled_took scheduled with ⟨_,n,_,rfl⟩ | ⟨_,addr,task,rest,took⟩
          · exact before
          · rw [took.held]
            exact before

theorem session_held (session : Session b allowed s) : ∀ t ∈ s.held, Untouched t := by
  induction session with
  | boot =>
      intro t member
      cases member
  | step before happens ih => exact happens_held before ih happens

theorem quiet_event (session : Session b allowed s) (happens : Happens b allowed s event s') (quiet : event.calls = 0) :
    s'.finishedRuns = s.finishedRuns ∧ (recruits s event = [] ∧ queuedTasks s' = queuedTasks s ∨
      ∃ task, Untouched task ∧ recruits s event = [memberOf task] ∧ queuedTasks s' = queuedTasks s ++ [task]) := by
  obtain ⟨boot,table⟩ := session_parts session
  have alone : Grown allowed [] s s' → s'.finishedRuns = s.finishedRuns ∧ queuedTasks s' = queuedTasks s := by
    intro grown
    have queue := grown_tasks table grown
    rw [List.filterMap_nil,List.append_nil] at queue
    exact ⟨grown.finished,queue⟩
  cases happens with
  | tick fired =>
      obtain ⟨n,_,rfl⟩ := tick_still boot fired
      exact ⟨rfl,Or.inl ⟨rfl,rfl⟩⟩
  | flag => exact ⟨rfl,Or.inl ⟨rfl,rfl⟩⟩
  | @call _ call legal returns =>
      have done := call_done session (.call legal returns)
      cases call with
      | new => exact ⟨(alone done.1).1,Or.inl ⟨rfl,(alone done.1).2⟩⟩
      | sleeping => exact ⟨(alone done.1).1,Or.inl ⟨rfl,(alone done.1).2⟩⟩
      | withWeight i weight => exact ⟨(alone done.1).1,Or.inl ⟨rfl,(alone done.1).2⟩⟩
      | spawn i addr =>
          obtain ⟨grown,_,task,there,heap,_⟩ := done
          have queue := grown_tasks table grown
          rw [heap,List.filterMap_cons,update_self] at queue
          refine ⟨grown.finished,Or.inr ⟨task,session_held session task (List.mem_of_getElem? there),?_,queue⟩⟩
          simp only [recruits,there,Option.map_some,Option.toList_some]
      | scheduleOnce => cases quiet

theorem register_quiet (register : Register roster ran s) (queue : queuedTasks s' = queuedTasks s)
    (finished : s'.finishedRuns = s.finishedRuns) : Register roster ran s' := by
  refine ⟨?_,?_,?_,register.called⟩
  · rw [queue]
    exact register.queued
  · rw [finished]
    exact register.finished
  · rw [queue,finished]
    exact register.everyone

theorem register_spawn (register : Register roster ran s) (distinct : ((roster ++ [memberOf task]).map (·.id)).Nodup)
    (unused : Untouched task) (queue : queuedTasks s' = queuedTasks s ++ [task]) (finished : s'.finishedRuns = s.finishedRuns) :
    Register (roster ++ [memberOf task]) ran s' := by
  obtain ⟨calls,runs,_⟩ := unused
  have stranger : task.id ∉ roster.map (·.id) := by
    rw [List.map_append] at distinct
    intro known
    exact (List.nodup_append.mp distinct).2.2 task.id known task.id List.mem_cons_self rfl
  refine ⟨?_,?_,?_,?_⟩
  · rw [queue,List.forall_mem_append,List.forall_mem_singleton]
    constructor
    · intro t old
      exact ⟨List.mem_append_left _ (register.queued t old).1,(register.queued t old).2⟩
    · refine ⟨List.mem_append_right _ List.mem_cons_self,by rw [calls,runs,Nat.zero_mod],?_,?_⟩
      · rw [calls]
        exact List.count_eq_zero.mpr fun ran => stranger (register.called _ ran)
      · rw [calls]
        intro k none
        cases none
  · rw [finished]
    intro entry member
    obtain ⟨m,known,rest⟩ := register.finished entry member
    exact ⟨m,List.mem_append_left _ known,rest⟩
  · rw [queue,finished,List.map_append,List.map_append,List.append_assoc]
    refine (List.Perm.append_left _ List.perm_append_comm).trans ?_
    rw [← List.append_assoc]
    exact register.everyone.append_right _
  · intro id member
    rw [List.map_append]
    exact List.mem_append_left _ (register.called id member)

theorem took_ids (took : TookTurn s addr task rest s') : stepIds s s' = [task.id] := by
  unfold stepIds
  rw [took.log,List.drop_left,List.filterMap_cons,took.here]
  rfl

theorem register_others (tasks : (queuedTasks s).Perm (task :: others)) (register : Register roster ran s)
    (distinct : (roster.map (·.id)).Nodup) :
    (∀ t ∈ others, memberOf t ∈ roster ∧ t.runs = t.step.calls % 2^64 ∧ Standing (ran ++ [task.id]) (memberOf t) t.step.calls) ∧
    ∀ entry ∈ s.finishedRuns, ∃ m ∈ roster, ∃ n, entry = (m.id,m.name,(n+1) % 2^64) ∧ Ended (ran ++ [task.id]) m n := by
  have ids := (tasks.map (·.id)).append_right (s.finishedRuns.map (·.1))
  have once := (ids.symm.trans register.everyone).nodup_iff.mpr distinct
  rw [List.map_cons,List.cons_append] at once
  have apart := (List.nodup_cons.mp once).1
  constructor
  · intro t member
    obtain ⟨known,runs,standing⟩ := register.queued t (tasks.mem_iff.mpr (List.mem_cons_of_mem _ member))
    refine ⟨known,runs,standing_more standing ?_⟩
    intro equal
    rw [equal] at apart
    exact apart (List.mem_append_left _ (List.mem_map_of_mem member))
  · intro entry member
    obtain ⟨m,known,n,equal,ended⟩ := register.finished entry member
    refine ⟨m,known,n,equal,ended_more ended ?_⟩
    intro same
    rw [same,show m.id = entry.1 by rw [equal]] at apart
    exact apart (List.mem_append_right _ (List.mem_map_of_mem member))

theorem register_turn (table : Table allowed s.ready s) (register : Register roster ran s) (distinct : (roster.map (·.id)).Nodup)
    (took : TookTurn s addr task rest s') : Register roster (ran ++ [task.id]) s' := by
  obtain ⟨tasks,_⟩ := took_tasks table took
  obtain ⟨others,ended⟩ := register_others tasks register distinct
  have everyone := (((tasks.map (·.id)).append_right (s.finishedRuns.map (·.1))).symm).trans register.everyone
  obtain ⟨known,runs,standing⟩ := register.queued task (tasks.mem_iff.mpr List.mem_cons_self)
  have count : (ran ++ [task.id]).count task.id = task.step.calls+1 := by
    rw [List.count_append,List.count_singleton_self]
    exact congrArg (·+1) standing.1
  have called : ∀ id ∈ ran ++ [task.id], id ∈ roster.map (·.id) := by
    rw [List.forall_mem_append,List.forall_mem_singleton]
    exact ⟨register.called,List.mem_map_of_mem known⟩
  have wrapped : (task.runs+1) % 2^64 = (task.step.calls+1) % 2^64 := by
    rw [runs]
    omega
  rcases took_queue table took with ⟨alive,finished,vruntime,_,queue⟩ | ⟨dead,queue,finished⟩
  · refine ⟨?_,by rw [finished]; exact ended,?_,called⟩
    · rw [queue,List.forall_mem_append,List.forall_mem_singleton]
      refine ⟨others,known,wrapped,count,?_⟩
      intro k below
      rcases Nat.lt_or_eq_of_le (Nat.le_of_lt_succ below) with earlier | last
      · exact standing.2 k earlier
      · rw [last]
        exact alive
    · rw [queue,finished,List.map_append]
      refine List.Perm.trans ?_ everyone
      exact (List.perm_append_singleton _ _).append_right _
  · refine ⟨by rw [queue]; exact others,?_,?_,called⟩
    · rw [finished,List.forall_mem_append,List.forall_mem_singleton]
      exact ⟨ended,memberOf task,known,task.step.calls,by rw [wrapped]; rfl,count,dead,standing.2⟩
    · rw [queue,finished,List.map_append,← List.append_assoc]
      exact (List.perm_append_singleton _ _).trans everyone

theorem still_ids (still : Still allowed s s') : stepIds s s' = [] := by
  obtain ⟨n,_,rfl⟩ := still
  unfold stepIds
  rw [List.drop_length]
  rfl

theorem history_register (history : History b allowed roster ran wins s) (distinct : (roster.map (·.id)).Nodup) :
    Register roster ran s := by
  induction history with
  | boot apicTicks interruptFlag =>
      refine ⟨?_,?_,.refl _,?_⟩
      all_goals
        intro _ member
        cases member
  | other before happens quiet ih =>
      have register := ih (List.nodup_append.mp (List.map_append ▸ distinct)).1
      obtain ⟨finished,⟨nobody,queue⟩ | ⟨task,unused,hired,queue⟩⟩ := quiet_event (history_session before) happens quiet
      · rw [nobody,List.append_nil]
        exact register_quiet register queue finished
      · rw [hired] at distinct ⊢
        exact register_spawn register distinct unused queue finished
  | schedule before returns ih =>
      have session := history_session before
      rcases scheduled_took (schedule_scheduled session returns) with ⟨_,still⟩ | ⟨_,addr,task,rest,took⟩
      · rw [still_ids still,List.append_nil]
        obtain ⟨n,_,rfl⟩ := still
        exact register_quiet (ih distinct) rfl rfl
      · rw [took_ids took]
        exact register_turn (session_parts session).2 (ih distinct) distinct took

theorem history_wins (history : History b allowed roster ran wins s) : wins = ran.length := by
  induction history with
  | boot => rfl
  | other _ _ _ ih => exact ih
  | schedule before returns ih =>
      rw [List.length_append,← ih]
      rcases scheduled_took (schedule_scheduled (history_session before) returns) with ⟨rfl,still⟩ | ⟨rfl,addr,task,rest,took⟩
      · rw [still_ids still]
        rfl
      · rw [took_ids took]
        rfl

end register

def Call.recorded (b : Build) (check : Kernel → Interrupted → Bool) (before : List Member × List ℕ × ℕ × Kernel)
    (entry : Call × List (List Interrupted)) : Option (List Member × List ℕ × ℕ × Kernel) :=
  let (roster,ran,wins,s) := before
  match entry.1 with
  | .scheduleOnce => ((drive (fire check) (RustyCore.scheduleOnce b.policy b.profile) entry.2 s).bind returned).map fun after =>
      (roster,ran ++ stepIds s after.2,wins+after.1.toNat,after.2)
  | call => (Call.exec b check s entry).map fun s' => (roster ++ recruits s (.call call),ran,wins,s')

theorem recorded_history {check : Kernel → Interrupted → Bool} (sound : ∀ s regs, check s regs = true → allowed s regs)
    (history : History b allowed roster ran wins s)
    (recorded : List.foldlM (Call.recorded b check) (roster,ran,wins,s) entries = some (roster',ran',wins',s')) :
    History b allowed roster' ran' wins' s' := by
  induction entries generalizing roster ran wins s with
  | nil =>
      cases recorded
      exact history
  | cons entry entries ih =>
      rw [List.foldlM_cons] at recorded
      obtain ⟨⟨_,_,_,mid⟩,first,rest⟩ := Option.bind_eq_some_iff.mp recorded
      refine ih ?_ rest
      obtain ⟨call,schedule⟩ := entry
      cases call with
      | scheduleOnce =>
          obtain ⟨⟨found,after⟩,driven,equal⟩ := Option.map_eq_some_iff.mp first
          cases equal
          exact .schedule history (drive_returns (fire_irq sound) driven)
      | _ =>
          obtain ⟨after,executed,equal⟩ := Option.map_eq_some_iff.mp first
          cases equal
          exact .other history (exec_happens sound executed) rfl

-- The members a driver has in hand and those it spawns, told from its calls alone.
def handed (held : List Member) : Call → List Member
  | .new _ id name outcome | .sleeping _ id name _ outcome => held ++ [⟨id,name,outcome⟩]
  | .spawn i _ => held.eraseIdx i
  | _ => held

def enlisted (held : List Member) : Call → List Member
  | .spawn i _ => held[i]?.toList
  | _ => []

theorem handed_call {b : Build} (session : Session b allowed s) (happens : Happens b allowed s (.call call) s') :
    s'.held.map memberOf = handed (s.held.map memberOf) call ∧ recruits s (.call call) = enlisted (s.held.map memberOf) call := by
  have done := call_done session happens
  cases call with
  | new =>
      obtain ⟨_,_,_,_,_,held⟩ := done
      exact ⟨by rw [held,List.map_append]; rfl,rfl⟩
  | sleeping =>
      obtain ⟨_,_,_,_,_,held⟩ := done
      exact ⟨by rw [held,List.map_append]; rfl,rfl⟩
  | withWeight i weight =>
      refine ⟨?_,rfl⟩
      rw [done.2.2]
      exact modify_kept fun _ => rfl
  | spawn i addr =>
      obtain ⟨_,_,_,_,_,held⟩ := done
      refine ⟨by rw [held]; exact (List.eraseIdx_map ..).symm,?_⟩
      simp only [recruits,enlisted,List.getElem?_map]
  | scheduleOnce =>
      obtain ⟨found,scheduled⟩ := done
      refine ⟨?_,rfl⟩
      rcases scheduled_took scheduled with ⟨_,n,_,rfl⟩ | ⟨_,addr,task,rest,took⟩
      · rfl
      · rw [took.held]
        rfl

def roll (book : List Member × List Member) (call : Call) : List Member × List Member :=
  (book.1 ++ enlisted book.2 call,handed book.2 call)

theorem recorded_roll {check : Kernel → Interrupted → Bool} (sound : ∀ s regs, check s regs = true → allowed s regs)
    (history : History b allowed roster ran wins s)
    (recorded : List.foldlM (Call.recorded b check) (roster,ran,wins,s) entries = some (roster',ran',wins',s')) :
    (roster',s'.held.map memberOf) = (entries.map (·.1)).foldl roll (roster,s.held.map memberOf) := by
  induction entries generalizing roster ran wins s with
  | nil =>
      cases recorded
      rfl
  | cons entry entries ih =>
      rw [List.foldlM_cons] at recorded
      obtain ⟨⟨_,_,_,mid⟩,first,rest⟩ := Option.bind_eq_some_iff.mp recorded
      have session := history_session history
      obtain ⟨call,schedule⟩ := entry
      rw [List.map_cons,List.foldl_cons]
      cases call with
      | scheduleOnce =>
          obtain ⟨⟨found,after⟩,driven,equal⟩ := Option.map_eq_some_iff.mp first
          cases equal
          have returns := drive_returns (fire_irq sound) driven
          have happens : Happens b allowed s (.call .scheduleOnce) after := .call rfl (bind_returns returns .refl)
          rw [ih (.schedule history returns) rest,(handed_call session happens).1]
          simp only [roll,enlisted,List.append_nil]
      | _ =>
          obtain ⟨after,executed,equal⟩ := Option.map_eq_some_iff.mp first
          cases equal
          have happens := exec_happens sound executed
          obtain ⟨held,hired⟩ := handed_call session happens
          rw [ih (.other history happens rfl) rest,held,hired]
          rfl

end RustyCore
