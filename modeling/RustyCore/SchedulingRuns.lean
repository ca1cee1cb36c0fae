import RustyCore.PreemptionFence

namespace RustyCore
open InterruptedPrograms Function

def Event.calls : Event → ℕ
  | .call .scheduleOnce => 1
  | _ => 0

-- A continuation of a session whose every event meets a condition, with the number of
-- `schedule_once` calls in it.
inductive Run (b : Build) (allowed : Kernel → Interrupted → Prop) (P : Kernel → Event → Kernel → Prop) (s : Kernel) :
    ℕ → Kernel → Prop where
  | start : Run b allowed P s 0 s
  | step (before : Run b allowed P s n mid) (met : P mid event s') (happens : Happens b allowed mid event s') :
      Run b allowed P s (n+event.calls) s'

def Awake (s : Kernel) (addr : ℕ) : Prop := ∃ task, s.heap addr = some task ∧ asleep s.apicTicks task = false

section runs
variable {b : Build} {allowed : Kernel → Interrupted → Prop} {P : Kernel → Event → Kernel → Prop} {s s' : Kernel}

theorem still_grown (boot : Boot s) (table : Table allowed s.ready s) (still : Still allowed s s') : Grown allowed [] s s' := by
  have boot' := still_boot boot still
  have table' := still_table table still
  obtain ⟨n,later,rfl⟩ := still
  exact ⟨table',boot',(List.append_nil _).symm,fun _ _ => rfl,rfl,rfl,fun _ _ => rfl,fun _ set => set,later⟩

theorem happens_grown (boot : Boot s) (table : Table allowed s.ready s) (happens : Happens b allowed s event s')
    (other : event.calls = 0) : ∃ fresh, Grown allowed fresh s s' ∧ (fresh = [] ∨ ∃ i addr, event = .call (.spawn i addr)) := by
  cases happens with
  | tick fired => exact ⟨[],still_grown boot table (tick_still boot fired),Or.inl rfl⟩
  | flag =>
      refine ⟨[],⟨table_congr table rfl rfl rfl rfl rfl rfl,boot,(List.append_nil _).symm,fun _ _ => rfl,rfl,rfl,fun _ _ => rfl,
        fun _ set => set,?_⟩,Or.inl rfl⟩
      exact fun _ => Nat.le_refl _
  | @call _ call legal returns =>
      have done := safe_returns (call_safe (b:=b) boot table _ legal) returns
      cases call with
      | new => exact ⟨[],done.1,Or.inl rfl⟩
      | sleeping => exact ⟨[],done.1,Or.inl rfl⟩
      | withWeight => exact ⟨[],done.1,Or.inl rfl⟩
      | spawn i addr => exact ⟨[addr],done.1,Or.inr ⟨i,addr,rfl⟩⟩
      | scheduleOnce => cases other

theorem happens_scheduled (boot : Boot s) (table : Table allowed s.ready s)
    (happens : Happens b allowed s (.call .scheduleOnce) s') : ∃ ran, Scheduled b.policy allowed s ran s' := by
  cases happens with
  | call legal returns =>
      have done := safe_returns (call_safe (b:=b) boot table _ legal) returns
      exact done

theorem run_weaken (weaker : ∀ s event s', P s event s' → Q s event s') (run : Run b allowed P s n s') : Run b allowed Q s n s' := by
  induction run with
  | start => exact .start
  | step _ met happens ih => exact .step ih (weaker _ _ _ met) happens

-- What holds at the start of a run, and is kept by every event that leaves the queue alone
-- and by every call of `schedule_once`, holds at its end.
theorem run_keeps {I : ℕ → Kernel → Prop} (session : Session b allowed s) (run : Run b allowed P s n s') (start : I 0 s)
    (grown : ∀ n mid event fresh s', Session b allowed mid → I n mid → P mid event s' → Happens b allowed mid event s' →
      Grown allowed fresh mid s' → (fresh = [] ∨ ∃ i addr, event = .call (.spawn i addr)) → I n s')
    (called : ∀ n mid ran s', Session b allowed mid → I n mid → P mid (.call .scheduleOnce) s' →
      Scheduled b.policy allowed mid ran s' → I (n+1) s') : Session b allowed s' ∧ I n s' := by
  induction run with
  | start => exact ⟨session,start⟩
  | @step n mid event s' before met happens ih =>
      obtain ⟨before,kept⟩ := ih
      obtain ⟨boot,table⟩ := session_parts before
      refine ⟨.step before happens,?_⟩
      by_cases quiet : event.calls = 0
      · obtain ⟨fresh,grows,spawned⟩ := happens_grown boot table happens quiet
        rw [quiet]
        exact grown n mid event fresh s' before kept met happens grows spawned
      · have schedules : event = .call .scheduleOnce := by
          unfold Event.calls at quiet
          split at quiet
          · rfl
          · exact absurd rfl quiet
        subst schedules
        obtain ⟨ran,scheduled⟩ := happens_scheduled boot table happens
        exact called n mid ran s' before kept met scheduled

theorem awake_not_asleep (asleep : AsleepAt s.apicTicks s addr) : ¬ Awake s addr := by
  rintro ⟨task,here,awake⟩
  obtain ⟨t,found,sleeps⟩ := asleep
  cases here.symm.trans found
  rw [awake] at sleeps
  cases sleeps

theorem asleep_later (awake : asleep now task = false) (later : now ≤ now') : asleep now' task = false := by
  unfold asleep at awake ⊢
  split
  · next untilTick state =>
      simp only [state,decide_eq_false_iff_not,Nat.not_lt] at awake ⊢
      exact Nat.le_trans awake later
  · rfl

theorem awake_later (awake : Awake s addr) (same : s'.heap addr = s.heap addr) (later : s.apicTicks ≤ s'.apicTicks) :
    Awake s' addr := by
  obtain ⟨task,here,awake⟩ := awake
  exact ⟨task,same.trans here,asleep_later awake later⟩

theorem awake_grown (steady : Steady allowed) (grown : Grown allowed fresh s s') (awake : Awake s addr) : Awake s' addr := by
  refine awake_later awake (grown.heap addr ?_) (grown.ticks steady)
  obtain ⟨task,here,_⟩ := awake
  rw [here]
  exact Option.some_ne_none task

end runs

def awakeIn (s : Kernel) (addr : ℕ) : Bool :=
  decide (addr ∈ s.ready) && (s.heap addr).any fun task => !asleep s.apicTicks task

theorem awakeIn_sound (awake : awakeIn s addr = true) : addr ∈ s.ready ∧ Awake s addr := by
  unfold awakeIn at awake
  rw [Bool.and_eq_true] at awake
  obtain ⟨task,here,wakes⟩ := (Option.any_eq_true _ _).mp awake.2
  exact ⟨of_decide_eq_true awake.1,task,here,by simpa using wakes⟩

def Call.counted (b : Build) (check : Kernel → Interrupted → Bool) (meets : Kernel → Call → Kernel → Bool) (before : ℕ × Kernel)
    (entry : Call × List (List Interrupted)) : Option (ℕ × Kernel) :=
  (Call.exec b check before.2 entry).bind fun s' =>
    if meets before.2 entry.1 s' then some (before.1+(Event.call entry.1).calls,s') else none

theorem counted_run (sound : ∀ s regs, check s regs = true → allowed s regs)
    (honest : ∀ s call s', meets s call s' = true → P s (.call call) s') (run : Run b allowed P s n mid)
    (ran : List.foldlM (Call.counted b check meets) (n,mid) entries = some (n',s')) : Run b allowed P s n' s' := by
  induction entries generalizing n mid with
  | nil =>
      cases ran
      exact run
  | cons entry entries ih =>
      rw [List.foldlM_cons] at ran
      obtain ⟨next,first,rest⟩ := Option.bind_eq_some_iff.mp ran
      obtain ⟨after,executed,checked⟩ := Option.bind_eq_some_iff.mp first
      split at checked
      · next met =>
          cases checked
          exact ih (.step run (honest _ _ _ met) (exec_happens sound executed)) rest
      · cases checked

def Unwrapped (s : Kernel) (_ : Interrupted) : Prop := s.apicTicks+1 < 2^64

def unwrappedCheck (s : Kernel) (_ : Interrupted) : Bool := decide (s.apicTicks+1 < 2^64)

theorem unwrapped_sound (s : Kernel) (regs : Interrupted) (passed : unwrappedCheck s regs = true) : Unwrapped s regs := by
  unfold Unwrapped
  exact of_decide_eq_true passed

theorem unwrapped_steady : Steady Unwrapped := fun _ _ unwrapped => unwrapped

end RustyCore
