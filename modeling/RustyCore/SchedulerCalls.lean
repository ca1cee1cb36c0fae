import RustyCore.SchedulerChoice

namespace RustyCore
open InterruptedPrograms Function

section roundRobin
variable {allowed : Kernel → Interrupted → Prop} {E : Panic → Prop} {s : Kernel} {p : Profile}

-- One call of round-robin `schedule_once` with the ticks it compared sleepers with: a whole
-- pass over sleepers, or the first task that is not asleep takes its turn.
inductive RoundRobin.Once (allowed : Kernel → Interrupted → Prop) (s : Kernel) : List (ℕ × ℕ) × Option ℕ → Bool → Kernel → Prop where
  | idle (reads : List (ℕ × ℕ)) (met : reads.map (·.1) = s.ready) (asleep : ∀ read ∈ reads, AsleepAt read.2 s read.1)
      (between : Steady allowed → ∀ read ∈ reads, s.apicTicks ≤ read.2 ∧ read.2 ≤ s'.apicTicks) (still : Still allowed s s') :
      Once allowed s (reads,none) false s'
  | ran (reads own : List (ℕ × ℕ)) (skipped : List ℕ) (addr : ℕ) (rest : List ℕ) (task : Task)
      (split : s.ready = skipped ++ addr :: rest) (met : reads.map (·.1) = skipped)
      (asleep : ∀ read ∈ reads, AsleepAt read.2 s read.1) (here : s.heap addr = some task)
      (due : ∀ untilTick, task.state = .sleeping untilTick → ∃ now, own = [(addr,now)] ∧ untilTick ≤ now)
      (between : Steady allowed → ∀ read ∈ reads ++ own, s.apicTicks ≤ read.2 ∧ read.2 ≤ s'.apicTicks)
      (turned : Turned allowed id {s with ready := rest ++ skipped} addr task s') : Once allowed s (reads ++ own,some addr) true s'

inductive RoundRobin.Called (allowed : Kernel → Interrupted → Prop) (s : Kernel) : Bool → Kernel → Prop where
  | idle (asleep : Steady allowed → ∀ a ∈ s.ready, AsleepAt s.apicTicks s a) (still : Still allowed s s') : Called allowed s false s'
  | ran (skipped : List ℕ) (addr : ℕ) (rest : List ℕ) (task : Task) (split : s.ready = skipped ++ addr :: rest)
      (asleep : Steady allowed → ∀ a ∈ skipped, AsleepAt s.apicTicks s a) (here : s.heap addr = some task)
      (awake : Steady allowed → ¬ AsleepAt s'.apicTicks s addr)
      (turned : Turned allowed id {s with ready := rest ++ skipped} addr task s') : Called allowed s true s'

theorem asleep_before (asleep : AsleepAt now s addr) (earlier : n ≤ now) : AsleepAt n s addr := by
  obtain ⟨task,here,sleeps⟩ := asleep
  refine ⟨task,here,?_⟩
  unfold RustyCore.asleep at sleeps ⊢
  split at sleeps
  · simp only [decide_eq_true_eq] at sleeps ⊢
    exact Nat.lt_of_le_of_lt earlier sleeps
  · cases sleeps

theorem met_asleep {reads : List (ℕ × ℕ)} {visited : List ℕ} (met : reads.map (·.1) = visited)
    (asleep : ∀ read ∈ reads, AsleepAt read.2 s read.1) (between : ∀ read ∈ reads, s.apicTicks ≤ read.2) :
    ∀ a ∈ visited, AsleepAt s.apicTicks s a := by
  intro a member
  rw [← met] at member
  obtain ⟨read,listed,rfl⟩ := List.mem_map.mp member
  exact asleep_before (asleep read listed) (between read listed)

theorem RoundRobin.once_called (once : RoundRobin.Once allowed s choice found s') : RoundRobin.Called allowed s found s' := by
  cases once with
  | idle _ met asleep between still =>
      refine .idle ?_ still
      intro steady
      exact met_asleep met asleep fun read listed => (between steady read listed).1
  | ran reads own skipped addr rest task split met asleep here due between turned =>
      refine .ran skipped addr rest task split ?_ here ?_ turned
      · intro steady
        exact met_asleep met asleep fun read listed => (between steady read (List.mem_append_left _ listed)).1
      · rintro steady ⟨t,found,sleeps⟩
        cases here.symm.trans found
        unfold RustyCore.asleep at sleeps
        split at sleeps
        · next untilTick parked =>
            obtain ⟨now,rfl,past⟩ := due untilTick parked
            have bound := (between steady _ (List.mem_append_right _ List.mem_cons_self)).2
            simp only [decide_eq_true_eq] at sleeps bound
            omega
        · cases sleeps

theorem RoundRobin.proceed_once (boot : Boot s) (table : Table allowed s.ready s)
    (blames : ∀ addr ∈ s.ready, ∀ task, s.heap addr = some task → Blames E p (Confined allowed) task)
    (searched : RoundRobin.Searched allowed s choice mid) :
    Safe (Irq allowed) Fenced E (proceed (RoundRobin.turn p) choice.2)
      (fun found s' => RoundRobin.Once allowed s choice found s') mid := by
  cases searched with
  | idle reads met asleep between still =>
      refine boot_ret (still_boot boot still) ?_
      rintro s' ⟨n,later,rfl⟩
      obtain ⟨n₁,later₁,rfl⟩ := still
      refine .idle reads met asleep ?_ ⟨n,?_,rfl⟩
      · intro steady read listed
        exact ⟨(between steady read listed).1,Nat.le_trans (between steady read listed).2 (later steady)⟩
      · intro steady
        exact Nat.le_trans (later₁ steady) (later steady)
  | found reads own skipped addr rest task state n split met asleep here due between later =>
      have perm : s.ready.Perm (addr :: (rest ++ skipped)) := by
        rw [split]
        exact List.perm_append_comm
      obtain ⟨overflow,counter,stash⟩ := blames addr (perm.mem_iff.mpr List.mem_cons_self) task here
      refine roundRobin_turn (by exact boot) (off_table table perm here state task.vruntime n) (update_self _ _ _)
        ⟨overflow,counter,stash⟩ ?_
      intro s' turned
      refine .ran reads own skipped addr rest task split met asleep here due ?_ (off_turned later state task.vruntime turned)
      intro steady read listed
      exact ⟨(between steady read listed).1,Nat.le_trans (between steady read listed).2 (turned.ticks steady)⟩

theorem roundRobin_safe {Q : Bool → Kernel → Prop} (boot : Boot s) (table : Table allowed s.ready s)
    (blames : ∀ addr ∈ s.ready, ∀ task, s.heap addr = some task → Blames E p (Confined allowed) task)
    (next : ∀ b s', RoundRobin.Called allowed s b s' → Q b s') :
    Safe (Irq allowed) Fenced E (RoundRobin.scheduleOnce p) Q s := by
  rw [RoundRobin.scheduleOnce_choose]
  refine safe_bind (choose_safe boot table ?_)
  intro choice mid searched
  exact safe_post (RoundRobin.proceed_once boot table blames searched) fun found s' once => next found s' (RoundRobin.once_called once)

end roundRobin

namespace Cfs

inductive Once (allowed : Kernel → Interrupted → Prop) (s : Kernel) : ℕ × Option ℕ → Bool → Kernel → Prop where
  | idle (now : ℕ) (between : Steady allowed → s.apicTicks ≤ now ∧ now ≤ s'.apicTicks) (none : pickMin now s = none)
      (still : Still allowed s s') : Once allowed s (now,.none) false s'
  | ran (now idx addr : ℕ) (task : Task) (between : Steady allowed → s.apicTicks ≤ now ∧ now ≤ s'.apicTicks)
      (picked : pickMin now s = some idx) (there : s.ready[idx]? = some addr) (here : s.heap addr = some task)
      (turned : Turned allowed accrued {s with ready := s.ready.eraseIdx idx} addr
        (woken (minVruntime {s with ready := s.ready.eraseIdx idx}) task) s') : Once allowed s (now,some addr) true s'

inductive Called (allowed : Kernel → Interrupted → Prop) (s : Kernel) : Bool → Kernel → Prop where
  | idle (now : ℕ) (later : Steady allowed → s.apicTicks ≤ now) (none : pickMin now s = none) (still : Still allowed s s') :
      Called allowed s false s'
  | ran (now idx addr : ℕ) (task : Task) (later : Steady allowed → s.apicTicks ≤ now ∧ now ≤ s'.apicTicks)
      (picked : pickMin now s = some idx) (there : s.ready[idx]? = some addr) (here : s.heap addr = some task)
      (turned : Turned allowed accrued {s with ready := s.ready.eraseIdx idx} addr
        (woken (minVruntime {s with ready := s.ready.eraseIdx idx}) task) s') : Called allowed s true s'

section calls
variable {allowed : Kernel → Interrupted → Prop} {E : Panic → Prop} {s : Kernel} {p : Profile}

theorem removed_perm {ready : List ℕ} (there : ready[idx]? = some addr) : ready.Perm (addr :: ready.eraseIdx idx) := by
  obtain ⟨bound,equal⟩ := List.getElem?_eq_some_iff.mp there
  rw [← equal]
  exact (List.getElem_cons_eraseIdx_perm bound).symm

theorem once_called (once : Once allowed s choice found s') : Called allowed s found s' := by
  cases once with
  | idle now between none still => exact .idle now (fun steady => (between steady).1) none still
  | ran now idx addr task between picked there here turned => exact .ran now idx addr task between picked there here turned

theorem proceed_once (boot : Boot s) (table : Table allowed s.ready s)
    (blames : ∀ addr ∈ s.ready, ∀ task, s.heap addr = some task → Blames E p (Confined allowed) task)
    (searched : Searched allowed s choice mid) :
    Safe (Irq allowed) Fenced E (proceed (turn p) choice.2) (fun found s' => Once allowed s choice found s') mid := by
  cases searched with
  | idle now between none still =>
      refine boot_ret (still_boot boot still) ?_
      rintro s' ⟨n,later,rfl⟩
      obtain ⟨n₁,later₁,rfl⟩ := still
      refine .idle now ?_ none ⟨n,?_,rfl⟩
      · intro steady
        exact ⟨(between steady).1,Nat.le_trans (between steady).2 (later steady)⟩
      · intro steady
        exact Nat.le_trans (later₁ steady) (later steady)
  | found now idx addr task state n between picked there here =>
      obtain ⟨overflow,counter,stash⟩ := blames addr (List.mem_of_getElem? there) task here
      refine cfs_turn (by exact boot) (off_table table (removed_perm there) here state _ n) (update_self _ _ _)
        ⟨overflow,counter,stash⟩ ?_
      intro s' turned
      have later : Steady allowed → s.apicTicks ≤ n := fun steady => Nat.le_trans (between steady).1 (between steady).2
      have fromHere := off_turned later state _ turned
      rw [← woken_vruntime] at fromHere
      refine .ran now idx addr task ?_ picked there here fromHere
      intro steady
      exact ⟨(between steady).1,Nat.le_trans (between steady).2 (turned.ticks steady)⟩

theorem cfs_safe {Q : Bool → Kernel → Prop} (boot : Boot s) (table : Table allowed s.ready s)
    (blames : ∀ addr ∈ s.ready, ∀ task, s.heap addr = some task → Blames E p (Confined allowed) task)
    (next : ∀ b s', Called allowed s b s' → Q b s') : Safe (Irq allowed) Fenced E (scheduleOnce p) Q s := by
  rw [scheduleOnce_choose]
  refine safe_bind (choose_safe boot ?_)
  intro choice mid searched
  exact safe_post (proceed_once boot table blames searched) fun found s' once => next found s' (once_called once)

end calls
end Cfs
end RustyCore
