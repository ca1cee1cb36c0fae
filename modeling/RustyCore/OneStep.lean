import RustyCore.SchedulingRuns

namespace RustyCore
open InterruptedPrograms Function

-- The ticks a search reads: round-robin one for each sleeper it meets, with the sleeper;
-- the fair scheduler one for all.
def Ticks : Policy → Type
  | .roundRobin => List (ℕ × ℕ)
  | .cfs => ℕ

def choose : (policy : Policy) → Kern (Ticks policy × Option ℕ)
  | .roundRobin => RoundRobin.choose
  | .cfs => Cfs.choose

def turn : Policy → Profile → ℕ → Kern Bool
  | .roundRobin => RoundRobin.turn
  | .cfs => Cfs.turn

def ComparedWith : (policy : Policy) → Ticks policy → ℕ → ℕ → Prop
  | .roundRobin => fun (reads : List (ℕ × ℕ)) addr now => (addr,now) ∈ reads
  | .cfs => fun (read : ℕ) _ now => now = read

theorem scheduleOnce_choose (policy : Policy) (p : Profile) :
    scheduleOnce policy p = choose policy >>= fun choice => proceed (turn policy p) choice.2 := by
  cases policy with
  | roundRobin => exact RoundRobin.scheduleOnce_choose p
  | cfs => exact Cfs.scheduleOnce_choose p

def Parked (policy : Policy) (ticks : Ticks policy) (s : Kernel) (addr : ℕ) : Prop := ∃ task untilTick now,
  s.heap addr = some task ∧ task.state = .sleeping untilTick ∧ ComparedWith policy ticks addr now ∧ now < untilTick

-- The queue without the task that runs: round-robin has put the sleepers it visited to the
-- back, the fair scheduler has moved nobody.
def rotated : Policy → List ℕ → List ℕ → List ℕ
  | .roundRobin,visited,rest => rest ++ visited
  | .cfs,visited,rest => visited ++ rest

structure RanOne (policy : Policy) (ticks : Ticks policy) (s : Kernel) (addr : ℕ) (task : Task) (visited rest tail : List ℕ)
    (s' : Kernel) : Prop where
  split : s.ready = visited ++ addr :: rest
  here : s.heap addr = some task
  due : ∀ untilTick, task.state = .sleeping untilTick → ∃ now, ComparedWith policy ticks addr now ∧ untilTick ≤ now
  log : s'.stepLog = s.stepLog ++ [addr]
  calls : ∀ t, s'.heap addr = some t → t.step = ⟨task.step.outcome,task.step.calls+1⟩
  others : ∀ a, a ≠ addr → s'.heap a = s.heap a
  queue : s'.ready = rotated policy visited rest ++ tail
  last : tail = [addr] ∨ tail = []

section once
variable {b : Build} {allowed : Kernel → Interrupted → Prop} {s s' : Kernel}

theorem asleep_sleeping (sleeps : asleep now task = true) : ∃ untilTick, task.state = .sleeping untilTick ∧ now < untilTick := by
  unfold asleep at sleeps
  split at sleeps
  · next untilTick state => exact ⟨untilTick,state,of_decide_eq_true sleeps⟩
  · cases sleeps

theorem took_ran {policy : Policy} {ticks : Ticks policy} (took : TookTurn s addr task (rotated policy visited rest) s')
    (split : s.ready = visited ++ addr :: rest)
    (due : ∀ untilTick, task.state = .sleeping untilTick → ∃ now, ComparedWith policy ticks addr now ∧ untilTick ≤ now) :
    ∃ tail, RanOne policy ticks s addr task visited rest tail s' := by
  rcases took.verdict with ⟨_,ready,⟨vruntime,here⟩,_⟩ | ⟨_,ready,gone,_⟩
  · refine ⟨[addr],split,took.here,due,took.log,?_,took.others,ready,Or.inl rfl⟩
    intro t found
    cases here.symm.trans found
    rfl
  · refine ⟨[],split,took.here,due,took.log,?_,took.others,by rw [ready,List.append_nil],Or.inr rfl⟩
    intro t found
    cases gone.symm.trans found

theorem any_blames (p : Profile) (confined : Prop) (task : Task) : Blames (fun _ => True) p confined task :=
  ⟨fun _ => trivial,fun _ _ => trivial,fun _ => trivial⟩

theorem RoundRobin.returns_once (session : Session b allowed s)
    (returns : Returns (Irq allowed) (RoundRobin.scheduleOnce p) s found s') :
    ∃ choice mid, Returns (Irq allowed) RoundRobin.choose s choice mid ∧
      Returns (Irq allowed) (proceed (RoundRobin.turn p) choice.2) mid found s' ∧ RoundRobin.Once allowed s choice found s' := by
  obtain ⟨boot,table⟩ := session_parts session
  rw [RoundRobin.scheduleOnce_choose] at returns
  obtain ⟨choice,mid,first,second⟩ := returns_bind returns
  have searched := safe_returns (choose_safe (E:=fun _ => True) boot table fun _ _ searched => searched) first
  have once := safe_returns (RoundRobin.proceed_once boot table (fun _ _ task _ => any_blames p _ task) searched) second
  exact ⟨choice,mid,first,second,once⟩

theorem Cfs.returns_once (session : Session b allowed s)
    (returns : Returns (Irq allowed) (Cfs.scheduleOnce p) s found s') :
    ∃ choice mid, Returns (Irq allowed) Cfs.choose s choice mid ∧
      Returns (Irq allowed) (proceed (Cfs.turn p) choice.2) mid found s' ∧ Cfs.Once allowed s choice found s' := by
  obtain ⟨boot,table⟩ := session_parts session
  rw [Cfs.scheduleOnce_choose] at returns
  obtain ⟨choice,mid,first,second⟩ := returns_bind returns
  have searched := safe_returns (Cfs.choose_safe (E:=fun _ => True) boot fun _ _ searched => searched) first
  have once := safe_returns (Cfs.proceed_once boot table (fun _ _ task _ => any_blames p _ task) searched) second
  exact ⟨choice,mid,first,second,once⟩

def Effect (policy : Policy) (ticks : Ticks policy) (chosen : Option ℕ) (found : Bool) (s s' : Kernel) : Prop :=
  (∀ a ∈ s.ready, ∀ now, ComparedWith policy ticks a now → s.apicTicks ≤ now ∧ now ≤ s'.apicTicks) ∧
  (found = false ↔ ∀ a ∈ s.ready, Parked policy ticks s a) ∧
  (found = false → s' = {s with apicTicks := s'.apicTicks}) ∧
  (found = true → ∃ addr task visited rest tail, chosen = some addr ∧ RanOne policy ticks s addr task visited rest tail s')

theorem roundRobin_effect (steady : Steady allowed) (table : Table allowed s.ready s)
    (once : RoundRobin.Once allowed s choice found s') : Effect .roundRobin choice.1 choice.2 found s s' := by
  cases once with
  | idle reads met asleep between still =>
      refine ⟨fun a _ now read => between steady (a,now) read,iff_of_true rfl ?_,fun _ => ?_,fun ran => Bool.noConfusion ran⟩
      · intro a member
        rw [← met] at member
        obtain ⟨read,listed,rfl⟩ := List.mem_map.mp member
        obtain ⟨task,here,sleeps⟩ := asleep read listed
        obtain ⟨untilTick,state,future⟩ := asleep_sleeping sleeps
        exact ⟨task,untilTick,read.2,here,state,listed,future⟩
      · obtain ⟨n,_,rfl⟩ := still
        rfl
  | ran reads own skipped addr rest task split met asleep here due between turned =>
      have once := table.once
      rw [split] at once
      have unvisited : addr ∉ skipped := fun visited => (List.nodup_append.mp once).2.2 addr visited addr List.mem_cons_self rfl
      have wakes : ∀ untilTick, task.state = .sleeping untilTick →
          ∃ now, ComparedWith .roundRobin (reads ++ own) addr now ∧ untilTick ≤ now := by
        intro untilTick state
        obtain ⟨now,rfl,past⟩ := due untilTick state
        exact ⟨now,List.mem_append_right _ List.mem_cons_self,past⟩
      refine ⟨fun a _ now read => between steady (a,now) read,iff_of_false (by decide) ?_,fun idle => Bool.noConfusion idle,
        fun _ => ?_⟩
      · intro parked
        obtain ⟨t,untilTick,now,here',state,read,future⟩ := parked addr (by rw [split]; simp)
        cases here.symm.trans here'
        obtain ⟨now',rfl,past⟩ := due untilTick state
        rcases List.mem_append.mp read with earlier | own
        · exact unvisited (met ▸ List.mem_map_of_mem earlier)
        · cases List.mem_singleton.mp own
          omega
      · have took : TookTurn s addr task (rotated .roundRobin skipped rest) s' := by
          refine turned_took turned rfl here ?_
          rw [split]
          exact List.perm_append_comm
        obtain ⟨tail,ran⟩ := took_ran took split wakes
        exact ⟨addr,task,skipped,rest,tail,rfl,ran⟩

theorem cfs_effect (steady : Steady allowed) (table : Table allowed s.ready s) (once : Cfs.Once allowed s choice found s') :
    Effect .cfs choice.1 choice.2 found s s' := by
  cases once with
  | idle now between none still =>
      refine ⟨?_,iff_of_true rfl ?_,fun _ => ?_,fun ran => Bool.noConfusion ran⟩
      · rintro a _ _ rfl
        exact between steady
      · intro a member
        obtain ⟨task,here,_⟩ := table.boxed a member
        obtain ⟨untilTick,state,future⟩ := asleep_sleeping (Cfs.pickMin_none none member here)
        exact ⟨task,untilTick,now,here,state,rfl,future⟩
      · obtain ⟨n,_,rfl⟩ := still
        rfl
  | ran now idx addr task between picked there here turned =>
      obtain ⟨bound,equal⟩ := List.getElem?_eq_some_iff.mp there
      have split : s.ready = s.ready.take idx ++ addr :: s.ready.drop (idx+1) := by
        rw [← equal,List.getElem_cons_drop,List.take_append_drop]
      have awake : asleep now task = false := by
        obtain ⟨x,t,there',here',wakes,_⟩ := Cfs.pickMin_some picked
        cases there.symm.trans there'
        cases here.symm.trans here'
        exact wakes
      have wakes : ∀ untilTick, task.state = .sleeping untilTick → untilTick ≤ now := by
        intro untilTick state
        simpa [asleep,state] using awake
      refine ⟨?_,iff_of_false (by decide) ?_,fun idle => Bool.noConfusion idle,fun _ => ?_⟩
      · rintro a _ _ rfl
        exact between steady
      · intro parked
        obtain ⟨t,untilTick,_,here',state,rfl,future⟩ := parked addr (List.mem_of_getElem? there)
        cases here.symm.trans here'
        exact absurd (wakes untilTick state) (Nat.not_le.mpr future)
      · rw [Cfs.woken_vruntime] at turned
        have took : TookTurn s addr task (s.ready.eraseIdx idx) s' := turned_took turned rfl here (Cfs.removed_perm there)
        rw [List.eraseIdx_eq_take_drop_succ] at took
        have compared : ∀ untilTick, task.state = .sleeping untilTick →
            ∃ read, ComparedWith .cfs now addr read ∧ untilTick ≤ read :=
          fun untilTick state => ⟨now,rfl,wakes untilTick state⟩
        obtain ⟨tail,ran⟩ := took_ran took split compared
        exact ⟨addr,task,_,_,tail,rfl,ran⟩

-- One call of `schedule_once`, under either policy: it returns false exactly if everybody
-- queued stays parked, and then nothing but the clock has moved; otherwise one task that is
-- due takes one step, and the others keep their fields and those not yet visited their order.
theorem schedule_once_one_step (session : Session b allowed s) (steady : Steady allowed)
    (returns : Returns (Irq allowed) (scheduleOnce b.policy b.profile) s found s') :
    ∃ ticks chosen mid, Returns (Irq allowed) (choose b.policy) s (ticks,chosen) mid ∧
      Returns (Irq allowed) (proceed (turn b.policy b.profile) chosen) mid found s' ∧
      (∀ a ∈ s.ready, ∀ now, ComparedWith b.policy ticks a now → s.apicTicks ≤ now ∧ now ≤ s'.apicTicks) ∧
      (found = false ↔ ∀ a ∈ s.ready, Parked b.policy ticks s a) ∧
      (found = false → s' = {s with apicTicks := s'.apicTicks}) ∧
      (found = true → ∃ addr task visited rest tail, chosen = some addr ∧
        RanOne b.policy ticks s addr task visited rest tail s') := by
  have table := (session_parts session).2
  generalize b.policy = policy at *
  cases policy with
  | roundRobin =>
      obtain ⟨choice,mid,first,second,once⟩ := RoundRobin.returns_once session returns
      exact ⟨choice.1,choice.2,mid,first,second,roundRobin_effect steady table once⟩
  | cfs =>
      obtain ⟨choice,mid,first,second,once⟩ := Cfs.returns_once session returns
      exact ⟨choice.1,choice.2,mid,first,second,cfs_effect steady table once⟩

end once

def sampleNapper : List (Call × List (List Interrupted)) :=
  [(.sleeping 0x100000 1 "n" 9 (sampleSteps 0),quiet),(.new 0x130000 2 "a" (sampleSteps 5),quiet),(.spawn 0 0x5000,quiet),
    (.spawn 0 0x6000,quiet)]

theorem schedule_once_one_step_sample : ∃ s s', Session (sampleBuild .roundRobin) Unwrapped s ∧ s.ready = [0x5000,0x6000] ∧
    s'.stepLog = [0x6000] ∧ ∃ ticks chosen mid, Returns (Irq Unwrapped) (choose .roundRobin) s (ticks,chosen) mid ∧
      Returns (Irq Unwrapped) (proceed (turn .roundRobin .release) chosen) mid true s' ∧
      (∀ a ∈ s.ready, ∀ now, ComparedWith .roundRobin ticks a now → s.apicTicks ≤ now ∧ now ≤ s'.apicTicks) ∧
      ¬ (∀ a ∈ s.ready, Parked .roundRobin ticks s a) ∧
      ∃ addr task visited rest tail, chosen = some addr ∧ RanOne .roundRobin ticks s addr task visited rest tail s' := by
  obtain ⟨s,booted,checked⟩ := (Option.any_eq_true _ _).mp (show (List.foldlM (Call.exec (sampleBuild .roundRobin) unwrappedCheck)
    (Kernel.boot 0 true) sampleNapper).any (fun s => s.ready == [0x5000,0x6000] &&
      ((drive (fire unwrappedCheck) (scheduleOnce .roundRobin .release) quiet s).bind returned).any fun r =>
        r.1 && r.2.stepLog == [0x6000]) = true by decide +kernel)
  rw [Bool.and_eq_true,beq_iff_eq] at checked
  obtain ⟨ready,checked⟩ := checked
  obtain ⟨⟨found,s'⟩,driven,after⟩ := (Option.any_eq_true _ _).mp checked
  rw [Bool.and_eq_true,beq_iff_eq] at after
  obtain ⟨again,log⟩ := after
  have session : Session (sampleBuild .roundRobin) Unwrapped s := exec_session unwrapped_sound (.boot 0 true) booted
  have returns := drive_returns (fire_irq unwrapped_sound) driven
  rw [show found = true from again] at returns
  have step := schedule_once_one_step session unwrapped_steady returns
  obtain ⟨ticks,chosen,mid,first,second,between,parked,_,ran⟩ := step
  exact ⟨s,s',session,ready,log,ticks,chosen,mid,first,second,between,fun all => absurd (parked.mpr all) (by decide),ran rfl⟩

end RustyCore
