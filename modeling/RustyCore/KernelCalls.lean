import RustyCore.SlotTable

namespace RustyCore
open InterruptedPrograms Function

section calls
variable {allowed : Kernel → Interrupted → Prop} {E : Panic → Prop} {s : Kernel} {p : Profile}

theorem at_trans (first : At allowed s addr task place s') (second : At allowed s' addr task' place' s'')
    (slot : task'.slot = task.slot) (bottom : task'.stack.bottom = task.stack.bottom)
    (top : task'.stack.top = task.stack.top) : At allowed s addr task' place' s'' := by
  refine ⟨second.fence,second.flag,second.stack,second.current,second.log,?_,second.ready.trans first.ready,
    second.held.trans first.held,second.finished.trans first.finished,second.used.trans first.used,
    second.bounds.trans first.bounds,second.pointers.trans first.pointers,?_,?_,
    fun steady => Nat.le_trans (first.ticks steady) (second.ticks steady)⟩
  · rw [second.heap,first.heap,update_idem]
  · intro i other
    rw [second.frames i other,first.frames i (slot ▸ other)]
  · intro confined before
    refine second.stash confined ?_
    rw [slot,bottom,top] at before ⊢
    exact first.stash confined before

-- The table-side check after a switch. It can fail only if some tick caught the step
-- outside its window.
theorem frameOk_safe {Q : α → Kernel → Prop} {k : Bool → Kern α} (owns : Owns s addr task) (sound : place.Sound addr task.slot)
    (now : At allowed s addr task place s')
    (valid : Confined allowed → (s.taskFrames task.slot).validFor task.stack.bottom task.stack.top = true)
    (next : ∀ ok s', (ok = false → ¬ Confined allowed) → At allowed s addr task place s' →
      Safe (Irq allowed) Fenced E (k ok) Q s') :
    Safe (Irq allowed) Fenced E (frameOk task.slot >>= k) Q s' := by
  have inside : ¬ task.slot ≥ MAX_TASKS := Nat.not_le.mpr owns.slot
  simp only [frameOk,slotBoundsOf,inside,if_false,bind_assoc]
  refine at_load owns sound now ?_
  intro s₁ kept
  have bounds : s₁.slotBounds task.slot = (task.stack.bottom,task.stack.top) := by rw [kept.bounds]; exact owns.bounds
  simp only [bounds,ne_eq,owns.nonzero,not_false_eq_true,if_true,pure_bind,snapshot,bind_assoc]
  refine at_require owns sound kept (decide_eq_true owns.slot) ?_
  refine at_load owns sound kept ?_
  intro s₂ kept
  refine next _ s₂ ?_ kept
  intro fails confined
  rw [kept.stash confined (valid confined)] at fails
  cases fails

theorem runStep_safe {Q : α → Kernel → Prop} {k : Unit → Kern α} (boot : Boot s) (table : Table allowed (addr :: s.ready) s)
    (here : s.heap addr = some task) (blames : Blames E p (Confined allowed) task)
    (next : ∀ runs s', p.add task.runs 1 = .ok runs →
      At allowed s addr (afterStep task runs) ⟨none,MAX_TASKS,0,true,s.stepLog ++ [addr]⟩ s' →
      Safe (Irq allowed) Fenced E (k ()) Q s') : Safe (Irq allowed) Fenced E (runStep p addr >>= k) Q s := by
  obtain ⟨t,found,owns⟩ := table.boxed addr List.mem_cons_self
  cases here.symm.trans found
  have valid : Confined allowed → (s.taskFrames task.slot).validFor task.stack.bottom task.stack.top = true := by
    intro confined
    have before := table.stash confined task.slot owns.slot owns.used
    rw [owns.bounds] at before
    exact before
  have off : ∀ current flag log, Place.Sound ⟨none,current,0,flag,log⟩ addr task.slot :=
    fun _ _ _ => ⟨fun up => absurd rfl up,Or.inl rfl⟩
  have now := at_start allowed boot here
  simp only [runStep,bind_assoc]
  refine at_write owns (off _ _ _) now rfl ⟨rfl,rfl⟩ ?_
  intro s₁ started
  have owns₁ : Owns s₁ addr {task with state := .running} :=
    owns_congr (owns_same owns _ rfl rfl rfl rfl (Or.inl rfl)) started.used started.bounds started.pointers
  refine switchToTask_safe owns₁ ⟨blames.overflow,blames.counter,blames.stash⟩ ⟨started.stack,started.fence⟩ (by rw [started.heap,update_self]) ?_
  intro runs s₂ counted switched
  have after := at_trans started switched rfl rfl rfl
  rw [started.log] at after
  have owns₂ := owns_same owns (afterStep task runs) rfl rfl rfl rfl (Or.inr rfl)
  refine at_deref owns₂ (off _ _ _) after ?_
  intro s₃ kept
  refine at_require owns₂ (off _ _ _) kept owns₂.template ?_
  refine frameOk_safe owns₂ (off _ _ _) kept valid ?_
  intro ok s₄ fails kept
  refine safe_require (at_stable owns₂ (off _ _ _)) (at_fenced owns₂ (off _ _ _)) kept (fun failed => blames.stash (fails failed)) ?_
  intro _
  exact next runs s₄ counted kept

structure Verdict (allowed : Kernel → Interrupted → Prop) (s : Kernel) (addr : ℕ) (task : Task) (s' : Kernel) : Prop where
  table : Table allowed s'.ready s'
  boot : Boot s'
  log : s'.stepLog = s.stepLog
  held : s'.held = s.held
  ticks : Steady allowed → s.apicTicks ≤ s'.apicTicks
  bounds : s'.slotBounds = s.slotBounds
  used : ∀ i, s'.slotUsed.getLsbD i = true → s.slotUsed.getLsbD i = true
  queue : task.state = .ready ∧ s'.ready = s.ready ++ [addr] ∧ s'.heap = s.heap ∧ s'.finishedRuns = s.finishedRuns ∨
    task.state ≠ .ready ∧ s'.ready = s.ready ∧ s'.heap = update s.heap addr none ∧
      s'.finishedRuns = s.finishedRuns ++ [(task.id,task.name,task.runs)]

theorem settle_safe {Q : Bool → Kernel → Prop} (boot : Boot s) (table : Table allowed (addr :: s.ready) s)
    (here : s.heap addr = some task) (next : ∀ s', Verdict allowed s addr task s' → Q true s') :
    Safe (Irq allowed) Fenced E (settle addr) Q s := by
  obtain ⟨t,found,owns⟩ := table.boxed addr List.mem_cons_self
  cases here.symm.trans found
  simp only [settle]
  refine boot_deref boot here ?_
  rintro _ ⟨n₁,later₁,rfl⟩
  by_cases again : task.state = .ready
  · rw [if_pos again]
    refine boot_store (by exact boot) ?_
    rintro _ ⟨n₂,later₂,rfl⟩
    refine boot_ret (by exact boot) ?_
    rintro _ ⟨n₃,later₃,rfl⟩
    refine next _ ⟨?_,boot,rfl,rfl,?_,rfl,fun _ set => set,Or.inl ⟨again,rfl,rfl,rfl⟩⟩
    · exact table_perm (table_congr table rfl rfl rfl rfl rfl rfl) (List.perm_append_singleton addr s.ready).symm
    · intro steady
      exact Nat.le_trans (later₁ steady) (Nat.le_trans (later₂ steady) (later₃ steady))
  · have set : ¬ (s.slotUsed &&& slotBit task.slot == 0) = true := by
      rw [slot_clear (Nat.lt_trans owns.slot (by decide)),owns.used]
      exact Bool.noConfusion
    rw [if_neg again]
    simp only [clearTaskPtr,owns.slot,if_true,unregisterTask,bind_assoc]
    refine boot_store (by exact boot) ?_
    rintro _ ⟨n₂,later₂,rfl⟩
    refine boot_require (by exact boot) (fun fails => by cases fails) ?_
    intro _
    refine boot_load (by exact boot) ?_
    rintro _ ⟨n₃,later₃,rfl⟩
    refine boot_require (by exact boot) (fun fails => absurd (by simpa using fails) set) ?_
    intro _
    refine boot_store (by exact boot) ?_
    rintro _ ⟨n₄,later₄,rfl⟩
    refine boot_store (by exact boot) ?_
    rintro _ ⟨n₅,later₅,rfl⟩
    refine boot_store (by exact boot) ?_
    rintro _ ⟨n₆,later₆,rfl⟩
    refine boot_ret (by exact boot) ?_
    rintro _ ⟨n₇,later₇,rfl⟩
    refine next _ ⟨table_retire table here rfl rfl rfl rfl rfl rfl,boot,rfl,rfl,?_,rfl,?_,Or.inr ⟨again,rfl,rfl,rfl⟩⟩
    swap
    · intro i set
      exact (Bool.and_eq_true_iff.mp (BitVec.getLsbD_and ▸ set)).1
    intro steady
    have early := Nat.le_trans (later₁ steady) (Nat.le_trans (later₂ steady) (later₃ steady))
    have late := Nat.le_trans (later₄ steady) (Nat.le_trans (later₅ steady) (Nat.le_trans (later₆ steady) (later₇ steady)))
    exact Nat.le_trans early late

def stepped (task : Task) : Task := afterStep task ((task.runs+1) % 2^64)

theorem counted_once (counted : p.add task.runs 1 = .ok runs) : afterStep task runs = stepped task := by
  unfold stepped
  rw [Profile.add_wraps counted]

-- One turn of a task, from the moment it is off the queue: its step is called once, and
-- it rejoins the queue at the back or leaves for good.
structure Turned (allowed : Kernel → Interrupted → Prop) (accrue : Task → Task) (s : Kernel) (addr : ℕ) (task : Task)
    (s' : Kernel) : Prop where
  table : Table allowed s'.ready s'
  boot : Boot s'
  log : s'.stepLog = s.stepLog ++ [addr]
  held : s'.held = s.held
  ticks : Steady allowed → s.apicTicks ≤ s'.apicTicks
  bounds : s'.slotBounds = s.slotBounds
  used : ∀ i, s'.slotUsed.getLsbD i = true → s.slotUsed.getLsbD i = true
  queue : (accrue (stepped task)).state = .ready ∧ s'.ready = s.ready ++ [addr] ∧
      s'.heap = update s.heap addr (some (accrue (stepped task))) ∧ s'.finishedRuns = s.finishedRuns ∨
    (accrue (stepped task)).state ≠ .ready ∧ s'.ready = s.ready ∧ s'.heap = update s.heap addr none ∧
      s'.finishedRuns = s.finishedRuns ++ [((accrue (stepped task)).id,(accrue (stepped task)).name,(accrue (stepped task)).runs)]

theorem verdict_turned (accrue : Task → Task) (switched : At allowed s addr (accrue (stepped task)) place s₁)
    (log : place.log = s.stepLog ++ [addr]) (verdict : Verdict allowed s₁ addr (accrue (stepped task)) s') :
    Turned allowed accrue s addr task s' := by
  refine ⟨verdict.table,verdict.boot,by rw [verdict.log,switched.log,log],verdict.held.trans switched.held,?_,
    verdict.bounds.trans switched.bounds,fun i set => switched.used ▸ verdict.used i set,?_⟩
  · intro steady
    exact Nat.le_trans (switched.ticks steady) (verdict.ticks steady)
  · rcases verdict.queue with ⟨again,ready,heap,finished⟩ | ⟨ended,ready,heap,finished⟩
    · exact Or.inl ⟨again,by rw [ready,switched.ready],by rw [heap,switched.heap],by rw [finished,switched.finished]⟩
    · exact Or.inr ⟨ended,by rw [ready,switched.ready],by rw [heap,switched.heap,update_idem],
        by rw [finished,switched.finished]⟩

theorem roundRobin_turn {Q : Bool → Kernel → Prop} (boot : Boot s) (table : Table allowed (addr :: s.ready) s)
    (here : s.heap addr = some task) (blames : Blames E p (Confined allowed) task)
    (next : ∀ s', Turned allowed id s addr task s' → Q true s') : Safe (Irq allowed) Fenced E (RoundRobin.turn p addr) Q s := by
  obtain ⟨t,found,owns⟩ := table.boxed addr List.mem_cons_self
  cases here.symm.trans found
  refine runStep_safe boot table here blames ?_
  intro runs s₁ counted switched
  rw [counted_once counted] at switched
  have owns₁ := owns_same owns (stepped task) rfl rfl rfl rfl (Or.inr rfl)
  have table₁ := table_at table List.mem_cons_self here owns₁ rfl switched
  rw [← switched.ready] at table₁
  refine settle_safe ⟨switched.stack,switched.fence⟩ table₁ (by rw [switched.heap,update_self]) ?_
  intro s' verdict
  exact next s' (verdict_turned id switched rfl verdict)

def accrued (task : Task) : Task := {task with vruntime := Cfs.saturatingAdd task.vruntime (Cfs.slice task.weight)}

theorem cfs_turn {Q : Bool → Kernel → Prop} (boot : Boot s) (table : Table allowed (addr :: s.ready) s)
    (here : s.heap addr = some task) (blames : Blames E p (Confined allowed) task)
    (next : ∀ s', Turned allowed accrued s addr task s' → Q true s') : Safe (Irq allowed) Fenced E (Cfs.turn p addr) Q s := by
  obtain ⟨t,found,owns⟩ := table.boxed addr List.mem_cons_self
  cases here.symm.trans found
  refine runStep_safe boot table here blames ?_
  intro runs s₁ counted switched
  rw [counted_once counted] at switched
  have owns₁ := owns_same owns (stepped task) rfl rfl rfl rfl (Or.inr rfl)
  have owns₂ := owns_same owns (accrued (stepped task)) rfl rfl rfl rfl (Or.inr rfl)
  refine at_write owns₁ ⟨fun up => absurd rfl up,Or.inl rfl⟩ switched rfl ⟨rfl,rfl⟩ ?_
  intro s₂ switched
  have table₂ := table_at table List.mem_cons_self here owns₂ rfl switched
  rw [← switched.ready] at table₂
  refine settle_safe ⟨switched.stack,switched.fence⟩ table₂ (by rw [switched.heap,update_self]) ?_
  intro s' verdict
  exact next s' (verdict_turned accrued switched rfl verdict)

theorem turned_from (turned : Turned allowed accrue s₁ addr task₁ s') (same : stepped task₁ = stepped task)
    (ready : s₁.ready = s.ready) (heap : ∀ x, update s₁.heap addr x = update s.heap addr x) (log : s₁.stepLog = s.stepLog)
    (held : s₁.held = s.held) (finished : s₁.finishedRuns = s.finishedRuns) (bounds : s₁.slotBounds = s.slotBounds)
    (used : s₁.slotUsed = s.slotUsed) (ticks : Steady allowed → s.apicTicks ≤ s₁.apicTicks) :
    Turned allowed accrue s addr task s' := by
  have queue := turned.queue
  rw [same,ready,heap,heap,finished] at queue
  exact ⟨turned.table,turned.boot,by rw [turned.log,log],turned.held.trans held,
    fun steady => Nat.le_trans (ticks steady) (turned.ticks steady),turned.bounds.trans bounds,
    fun i set => used ▸ turned.used i set,queue⟩

end calls
end RustyCore
