import RustyCore.TaskLedger
import RustyCore.OneStep
import RustyCore.CfsAccounting

namespace RustyCore
open InterruptedPrograms Function

inductive Drives (b : Build) (allowed : Kernel → Interrupted → Prop) (s : Kernel) : List (Bool × List ℕ) → Kernel → Prop where
  | start : Drives b allowed s [] s
  | call (before : Drives b allowed s calls mid)
      (returns : Returns (Irq allowed) (scheduleOnce b.policy b.profile) mid found s') :
      Drives b allowed s (calls ++ [(found,stepIds mid s')]) s'

-- A task as both policies see it, without its place in memory and its accounting.
def look (task : Task) : ℕ × String × ℕ × StepFn := (task.id,task.name,task.runs,task.step)

def Waking (s : Kernel) : Prop := ∀ t ∈ queuedTasks s, ∀ untilTick, t.state ≠ .sleeping untilTick

structure Fresh (roster : List Member) (s : Kernel) : Prop where
  queue : (queuedTasks s).map memberOf = roster
  unused : ∀ t ∈ queuedTasks s, Untouched t
  finished : s.finishedRuns = []

theorem history_fresh {b : Build} {allowed : Kernel → Interrupted → Prop} (history : History b allowed roster ran wins s)
    (nobody : ran = []) : Fresh roster s := by
  induction history with
  | boot apicTicks interruptFlag =>
      refine ⟨rfl,?_,rfl⟩
      intro t member
      cases member
  | other before happens quiet ih =>
      obtain ⟨known,unused,none⟩ := ih nobody
      obtain ⟨finished,⟨nobody,queue⟩ | ⟨task,fresh,hired,queue⟩⟩ := quiet_event (history_session before) happens quiet
      · rw [nobody,List.append_nil]
        exact ⟨by rw [queue]; exact known,by rw [queue]; exact unused,finished.trans none⟩
      · refine ⟨by rw [queue,List.map_append,known,hired]; rfl,?_,finished.trans none⟩
        rw [queue,List.forall_mem_append,List.forall_mem_singleton]
        exact ⟨unused,fresh⟩
  | schedule before returns ih =>
      obtain ⟨none,idle⟩ := List.append_eq_nil_iff.mp nobody
      rcases scheduled_took (schedule_scheduled (history_session before) returns) with ⟨_,still⟩ | ⟨_,addr,task,rest,took⟩
      · obtain ⟨n,_,rfl⟩ := still
        exact ⟨(ih none).queue,(ih none).unused,(ih none).finished⟩
      · rw [took_ids took] at idle
        cases idle

-- The vruntimes of a queue that turns round-robin: they rise along it, by a slice at most.
def Level (slice : ℕ) (vruntimes : List ℕ) : Prop :=
  vruntimes.Pairwise (fun a c => a ≤ c ∧ c ≤ a+slice) ∧ ∀ v ∈ vruntimes, v ≤ U64_MAX

theorem level_turn (level : Level slice (v :: vs)) : Level slice (vs ++ [Cfs.saturatingAdd v slice]) := by
  obtain ⟨order,bound⟩ := level
  obtain ⟨first,rest⟩ := List.pairwise_cons.mp order
  unfold Cfs.saturatingAdd
  refine ⟨List.pairwise_append.mpr ⟨rest,List.pairwise_singleton _ _,?_⟩,?_⟩
  · intro a member c last
    rw [List.mem_singleton.mp last]
    have between := first a member
    have most := bound a (List.mem_cons_of_mem _ member)
    omega
  · rw [List.forall_mem_append,List.forall_mem_singleton]
    exact ⟨fun a member => bound a (List.mem_cons_of_mem _ member),Nat.min_le_right _ _⟩

theorem level_tail (level : Level slice (v :: vs)) : Level slice vs :=
  ⟨(List.pairwise_cons.mp level.1).2,fun a member => level.2 a (List.mem_cons_of_mem _ member)⟩

section heads
variable {b : Build} {allowed : Kernel → Interrupted → Prop} {s s' : Kernel}

theorem waking_awake (waking : Waking s) (member : a ∈ s.ready) : ¬ AsleepAt now s a := by
  rintro ⟨task,here,sleeps⟩
  obtain ⟨untilTick,state,_⟩ := asleep_sleeping sleeps
  exact waking task (List.mem_filterMap.mpr ⟨a,member,here⟩) untilTick state

theorem roundRobin_head (session : Session b allowed s) (waking : Waking s)
    (returns : Returns (Irq allowed) (RoundRobin.scheduleOnce b.profile) s found s') :
    s.ready = [] ∧ found = false ∧ Still allowed s s' ∨
      found = true ∧ ∃ addr rest task, s.ready = addr :: rest ∧ TookTurn s addr task rest s' := by
  obtain ⟨_,_,_,_,once⟩ := RoundRobin.returns_once session returns
  cases once with
  | idle reads met asleep _ still =>
      refine Or.inl ⟨?_,rfl,still⟩
      cases reads with
      | nil => exact met.symm
      | cons read reads =>
          exact absurd (asleep read List.mem_cons_self) (waking_awake waking (met ▸ List.mem_cons_self))
  | ran reads own skipped addr rest task split met asleep here _ _ turned =>
      cases reads with
      | nil =>
          subst met
          rw [List.map_nil,List.append_nil] at turned
          exact Or.inr ⟨rfl,addr,rest,task,split,turned_took turned rfl here (by rw [split]; exact .refl _)⟩
      | cons read reads =>
          refine absurd (asleep read List.mem_cons_self) (waking_awake waking ?_)
          rw [split,← met]
          exact List.mem_append_left _ List.mem_cons_self

theorem front_tasks (front : s.ready = addr :: rest) (here : s.heap addr = some task) :
    queuedTasks s = task :: rest.filterMap s.heap := by
  unfold queuedTasks
  rw [front,List.filterMap_cons,here]

theorem queued_waking (waking : Waking s) (member : a ∈ s.ready) (here : s.heap a = some task) (untilTick : ℕ) :
    task.state ≠ .sleeping untilTick :=
  waking task (List.mem_filterMap.mpr ⟨a,member,here⟩) untilTick

theorem level_first (table : Table allowed s.ready s) (waking : Waking s)
    (level : Level slice ((queuedTasks s).map (·.vruntime))) (picked : Cfs.pickMin now s = some idx) : idx = 0 := by
  obtain ⟨addr,task,there,here,_,least⟩ := Cfs.pickMin_some picked
  cases idx with
  | zero => rfl
  | succ idx =>
      cases front : s.ready with
      | nil =>
          rw [front] at there
          cases there
      | cons head rest =>
          have ahead : head ∈ s.ready := by rw [front]; exact List.mem_cons_self
          obtain ⟨first,here₀⟩ := boxed_task table ahead
          obtain ⟨_,tie⟩ := least 0 head first (by rw [front]; rfl) here₀ (asleep_waking (queued_waking waking ahead here₀))
          rw [front,List.getElem?_cons_succ] at there
          rw [front_tasks front here₀,List.map_cons] at level
          have behind := (List.pairwise_cons.mp level.1).1 task.vruntime
            (List.mem_map_of_mem (List.mem_filterMap.mpr ⟨addr,List.mem_of_getElem? there,here⟩))
          have early := tie (by omega)
          cases early

theorem cfs_head (session : Session b allowed s) (waking : Waking s) (level : Level slice ((queuedTasks s).map (·.vruntime)))
    (returns : Returns (Irq allowed) (Cfs.scheduleOnce b.profile) s found s') :
    s.ready = [] ∧ found = false ∧ Still allowed s s' ∨
      found = true ∧ ∃ addr rest task, s.ready = addr :: rest ∧ TookTurn s addr task rest s' ∧
        ∀ t, s'.heap addr = some t →
          t.weight = task.weight ∧ t.vruntime = Cfs.saturatingAdd task.vruntime (Cfs.slice task.weight) := by
  have table := (session_parts session).2
  obtain ⟨_,_,_,_,once⟩ := Cfs.returns_once session returns
  cases once with
  | idle now _ none still =>
      refine Or.inl ⟨List.eq_nil_iff_forall_not_mem.mpr ?_,rfl,still⟩
      intro a member
      obtain ⟨task,here⟩ := boxed_task table member
      exact waking_awake waking member ⟨task,here,Cfs.pickMin_none none member here⟩
  | ran now idx addr task _ picked there here turned =>
      obtain rfl := level_first table waking level picked
      rw [Cfs.woken_waking (queued_waking waking (List.mem_of_getElem? there) here)] at turned
      cases front : s.ready with
      | nil =>
          rw [front] at there
          cases there
      | cons head rest =>
          have behind : s.ready.eraseIdx 0 = rest := by rw [front]; rfl
          rw [behind] at turned
          rw [front] at there
          cases there
          refine Or.inr ⟨rfl,addr,rest,task,rfl,turned_took turned rfl here (by rw [front]),?_⟩
          intro t found
          rcases turned.queue with ⟨_,_,heap,_⟩ | ⟨_,_,heap,_⟩
          · rw [heap,update_self] at found
            cases found
            exact ⟨rfl,rfl⟩
          · rw [heap,update_self] at found
            cases found

end heads

structure Mirror (weight : ℕ) (s₁ s₂ : Kernel) : Prop where
  same : (queuedTasks s₁).map look = (queuedTasks s₂).map look
  finished : s₁.finishedRuns = s₂.finishedRuns
  waking₁ : Waking s₁
  waking₂ : Waking s₂
  weights : ∀ t ∈ queuedTasks s₂, t.weight = weight
  level : Level (Cfs.slice weight) ((queuedTasks s₂).map (·.vruntime))

section mirror
variable {b₁ b₂ : Build} {allowed₁ allowed₂ : Kernel → Interrupted → Prop} {s₁ s₂ s₁' s₂' : Kernel} {weight : ℕ}

theorem waking_turn {s s' : Kernel} (table : Table allowed s.ready s) (waking : Waking s) (front : s.ready = addr :: rest)
    (took : TookTurn s addr task rest s') : Waking s' := by
  unfold Waking at waking ⊢
  rw [front_tasks front took.here] at waking
  rcases took_queue table took with ⟨alive,_,vruntime,_,queue⟩ | ⟨_,queue,_⟩
  · rw [queue]
    intro t member untilTick sleeps
    rcases List.mem_append.mp member with old | new
    · exact waking t (List.mem_cons_of_mem _ old) untilTick sleeps
    · rw [List.mem_singleton.mp new] at sleeps
      cases ((stepped_ready task).mpr alive).symm.trans sleeps
  · rw [queue]
    exact fun t member => waking t (List.mem_cons_of_mem _ member)

theorem mirror_turn (table₁ : Table allowed₁ s₁.ready s₁) (table₂ : Table allowed₂ s₂.ready s₂) (mirror : Mirror weight s₁ s₂)
    (front₁ : s₁.ready = a₁ :: rest₁) (took₁ : TookTurn s₁ a₁ task₁ rest₁ s₁')
    (front₂ : s₂.ready = a₂ :: rest₂) (took₂ : TookTurn s₂ a₂ task₂ rest₂ s₂')
    (accrues : ∀ t, s₂'.heap a₂ = some t →
      t.weight = task₂.weight ∧ t.vruntime = Cfs.saturatingAdd task₂.vruntime (Cfs.slice task₂.weight)) :
    stepIds s₁ s₁' = stepIds s₂ s₂' ∧ Mirror weight s₁' s₂' := by
  have same := mirror.same
  have level := mirror.level
  have weights := mirror.weights
  rw [front_tasks front₁ took₁.here,front_tasks front₂ took₂.here,List.map_cons,List.map_cons] at same
  rw [front_tasks front₂ took₂.here] at level weights
  obtain ⟨seen,rest⟩ := List.cons.inj same
  simp only [look,Prod.mk.injEq] at seen
  obtain ⟨id,name,runs,step⟩ := seen
  have common := weights task₂ List.mem_cons_self
  refine ⟨by rw [took_ids took₁,took_ids took₂,id],?_⟩
  have waking₁ := waking_turn table₁ mirror.waking₁ front₁ took₁
  have waking₂ := waking_turn table₂ mirror.waking₂ front₂ took₂
  rcases took_queue table₁ took₁ with ⟨alive₁,finished₁,v₁,_,queue₁⟩ | ⟨dead₁,queue₁,finished₁⟩ <;>
    rcases took_queue table₂ took₂ with ⟨alive₂,finished₂,v₂,here₂,queue₂⟩ | ⟨dead₂,queue₂,finished₂⟩
  · obtain ⟨_,value⟩ := accrues _ here₂
    rw [common] at value
    refine ⟨?_,by rw [finished₁,finished₂,mirror.finished],waking₁,waking₂,?_,?_⟩
    · rw [queue₁,queue₂,List.map_append,List.map_append,rest]
      simp only [List.map_singleton,look,stepped,afterStep,called,id,name,runs,step]
    · rw [queue₂,List.forall_mem_append,List.forall_mem_singleton]
      exact ⟨fun t member => weights t (List.mem_cons_of_mem _ member),common⟩
    · rw [queue₂,List.map_append,List.map_singleton,show v₂ = _ from value]
      exact level_turn level
  · rw [step,dead₂] at alive₁
    cases alive₁
  · rw [step,alive₂] at dead₁
    cases dead₁
  · refine ⟨by rw [queue₁,queue₂,rest],by rw [finished₁,finished₂,mirror.finished,id,name,runs],waking₁,waking₂,?_,?_⟩
    · rw [queue₂]
      exact fun t member => weights t (List.mem_cons_of_mem _ member)
    · rw [queue₂]
      exact level_tail level

theorem mirror_call (session₁ : Session b₁ allowed₁ s₁) (session₂ : Session b₂ allowed₂ s₂) (mirror : Mirror weight s₁ s₂)
    (returns₁ : Returns (Irq allowed₁) (RoundRobin.scheduleOnce b₁.profile) s₁ found₁ s₁')
    (returns₂ : Returns (Irq allowed₂) (Cfs.scheduleOnce b₂.profile) s₂ found₂ s₂') :
    found₁ = found₂ ∧ stepIds s₁ s₁' = stepIds s₂ s₂' ∧ Mirror weight s₁' s₂' := by
  have table₁ := (session_parts session₁).2
  have table₂ := (session_parts session₂).2
  rcases roundRobin_head session₁ mirror.waking₁ returns₁ with ⟨empty₁,rfl,still₁⟩ | ⟨rfl,a₁,rest₁,task₁,front₁,took₁⟩ <;>
    rcases cfs_head session₂ mirror.waking₂ mirror.level returns₂ with
      ⟨empty₂,rfl,still₂⟩ | ⟨rfl,a₂,rest₂,task₂,front₂,took₂,accrues⟩
  · refine ⟨rfl,by rw [still_ids still₁,still_ids still₂],?_⟩
    obtain ⟨n₁,_,rfl⟩ := still₁
    obtain ⟨n₂,_,rfl⟩ := still₂
    exact ⟨mirror.same,mirror.finished,mirror.waking₁,mirror.waking₂,mirror.weights,mirror.level⟩
  · have length := congrArg List.length mirror.same
    rw [front_tasks front₂ took₂.here,queuedTasks,empty₁] at length
    cases length
  · have length := congrArg List.length mirror.same
    rw [front_tasks front₁ took₁.here,queuedTasks,empty₂] at length
    cases length
  · exact ⟨rfl,mirror_turn table₁ table₂ mirror front₁ took₁ front₂ took₂ accrues⟩

theorem drives_session {b : Build} {allowed : Kernel → Interrupted → Prop} {s t : Kernel} (session : Session b allowed s)
    (drives : Drives b allowed s calls t) : Session b allowed t := by
  induction drives with
  | start => exact session
  | call _ returns ih =>
      have happens : Happens b allowed _ (.call .scheduleOnce) _ := .call rfl (bind_returns returns .refl)
      exact .step ih happens

theorem mirror_drives (session₁ : Session b₁ allowed₁ s₁) (session₂ : Session b₂ allowed₂ s₂) (policy₁ : b₁.policy = .roundRobin)
    (policy₂ : b₂.policy = .cfs) (mirror : Mirror weight s₁ s₂) (drives₁ : Drives b₁ allowed₁ s₁ calls₁ t₁)
    (drives₂ : Drives b₂ allowed₂ s₂ calls₂ t₂) (k : calls₁.length = calls₂.length) : calls₁ = calls₂ ∧ Mirror weight t₁ t₂ := by
  induction drives₁ generalizing calls₂ t₂ with
  | start =>
      cases drives₂ with
      | start => exact ⟨rfl,mirror⟩
      | call => rw [List.length_append] at k; cases k
  | call before₁ returns₁ ih =>
      cases drives₂ with
      | start => rw [List.length_append] at k; cases k
      | call before₂ returns₂ =>
          rw [List.length_append,List.length_append] at k
          obtain ⟨rfl,reached⟩ := ih before₂ (Nat.add_right_cancel k)
          rw [policy₁] at returns₁
          rw [policy₂] at returns₂
          obtain ⟨rfl,ids,after⟩ :=
            mirror_call (drives_session session₁ before₁) (drives_session session₂ before₂) reached returns₁ returns₂
          exact ⟨by rw [ids],after⟩

theorem mirror_ledger (mirror : Mirror weight s₁ s₂) : ledger s₁ = ledger s₂ := by
  have entries := congrArg (List.map fun seen : ℕ × String × ℕ × StepFn => (seen.1,seen.2.1,seen.2.2.1)) mirror.same
  rw [List.map_map,List.map_map] at entries
  unfold ledger
  rw [mirror.finished]
  exact congrArg (fun listed => (listed ++ s₂.finishedRuns).mergeSort _) entries

-- Tasks of one weight, spawned in one order before the first call and none asleep: the two
-- policies make the same calls and keep the same queue and ledger, for as long as they run.
theorem cfs_equal_weights_round_robin (history₁ : History b₁ allowed₁ roster [] 0 s₁) (history₂ : History b₂ allowed₂ roster [] 0 s₂)
    (policy₁ : b₁.policy = .roundRobin) (policy₂ : b₂.policy = .cfs) (waking₁ : Waking s₁) (waking₂ : Waking s₂)
    (equal : ∀ t ∈ queuedTasks s₂, t.weight = weight) (drives₁ : Drives b₁ allowed₁ s₁ calls₁ t₁)
    (drives₂ : Drives b₂ allowed₂ s₂ calls₂ t₂) (k : calls₁.length = calls₂.length) :
    calls₁ = calls₂ ∧ (queuedTasks t₁).map look = (queuedTasks t₂).map look ∧ t₁.finishedRuns = t₂.finishedRuns ∧
      ledger t₁ = ledger t₂ := by
  have fresh₁ := history_fresh history₁ rfl
  have fresh₂ := history_fresh history₂ rfl
  have known : ∀ {s}, Fresh roster s → (queuedTasks s).map look = roster.map fun m => (m.id,m.name,0,⟨m.outcome,0⟩) := by
    intro s fresh
    rw [← fresh.queue,List.map_map]
    apply List.map_congr_left
    intro t member
    obtain ⟨calls,runs,_⟩ := fresh.unused t member
    simp only [look,comp_apply,memberOf,runs,← calls]
  have zeros : (queuedTasks s₂).map (·.vruntime) = List.replicate (queuedTasks s₂).length 0 := by
    refine List.eq_replicate_iff.mpr ⟨List.length_map _,?_⟩
    intro v member
    obtain ⟨t,listed,rfl⟩ := List.mem_map.mp member
    exact (fresh₂.unused t listed).2.2
  have mirror : Mirror weight s₁ s₂ := by
    refine ⟨(known fresh₁).trans (known fresh₂).symm,fresh₁.finished.trans fresh₂.finished.symm,waking₁,waking₂,equal,?_,?_⟩
    · rw [zeros]
      exact List.pairwise_replicate.mpr (Or.inr ⟨Nat.le_refl _,Nat.zero_le _⟩)
    · rw [zeros]
      intro v member
      rw [List.eq_of_mem_replicate member]
      exact Nat.zero_le _
  obtain ⟨same,after⟩ := mirror_drives (history_session history₁) (history_session history₂) policy₁ policy₂ mirror drives₁ drives₂ k
  exact ⟨same,after.same,after.finished,mirror_ledger after⟩

end mirror
def Drives.exec (b : Build) (check : Kernel → Interrupted → Bool) (before : List (Bool × List ℕ) × Kernel)
    (schedule : List (List Interrupted)) : Option (List (Bool × List ℕ) × Kernel) :=
  ((drive (fire check) (scheduleOnce b.policy b.profile) schedule before.2).bind returned).map fun after =>
    (before.1 ++ [(after.1,stepIds before.2 after.2)],after.2)

theorem exec_drives {b : Build} {check : Kernel → Interrupted → Bool} (sound : ∀ s regs, check s regs = true → allowed s regs)
    (drives : Drives b allowed s calls mid) (ran : List.foldlM (Drives.exec b check) (calls,mid) schedules = some (calls',t)) :
    Drives b allowed s calls' t := by
  induction schedules generalizing calls mid with
  | nil =>
      cases ran
      exact drives
  | cons schedule schedules ih =>
      rw [List.foldlM_cons] at ran
      obtain ⟨next,first,rest⟩ := Option.bind_eq_some_iff.mp ran
      obtain ⟨⟨found,after⟩,driven,rfl⟩ := Option.map_eq_some_iff.mp first
      exact ih (.call drives (drive_returns (fire_irq sound) driven)) rest

def sampleEqual : List (Call × List (List Interrupted)) :=
  [(.new 0x100000 1 "a" (sampleSteps 5),quiet),(.new 0x130000 2 "b" (sampleSteps 0),quiet),(.withWeight 0 2048,quiet),
    (.withWeight 1 2048,quiet),(.spawn 0 0x5000,quiet),(.spawn 0 0x6000,quiet)]

def wakingIn (s : Kernel) : Bool := (queuedTasks s).all fun t => t.state == .ready && t.weight == 2048

theorem wakingIn_sound (checked : wakingIn s = true) : Waking s ∧ ∀ t ∈ queuedTasks s, t.weight = 2048 := by
  have each := List.all_eq_true.mp checked
  simp only [Bool.and_eq_true,beq_iff_eq] at each
  refine ⟨?_,fun t member => (each t member).2⟩
  intro t member untilTick sleeps
  cases (each t member).1.symm.trans sleeps

theorem equal_start (policy : Policy) : ∃ s calls t, History (sampleBuild policy) Unwrapped
    [⟨1,"a",sampleSteps 5⟩,⟨2,"b",sampleSteps 0⟩] [] 0 s ∧ Waking s ∧ (∀ t ∈ queuedTasks s, t.weight = 2048) ∧
    Drives (sampleBuild policy) Unwrapped s calls t ∧ calls = [(true,[1]),(true,[2]),(true,[1])] := by
  obtain ⟨⟨roster,ran,wins,s⟩,recorded,checked⟩ := (Option.any_eq_true _ _).mp (show (List.foldlM
    (Call.recorded (sampleBuild policy) unwrappedCheck) ([],[],0,Kernel.boot 0 true) sampleEqual).any (fun r =>
      ((decide (r.2.1 = []) && r.2.2.1 == 0) && wakingIn r.2.2.2) &&
        (List.foldlM (Drives.exec (sampleBuild policy) unwrappedCheck) ([],r.2.2.2) [midStep ++ quiet,quiet,quiet]).any fun d =>
          d.1 == [(true,[1]),(true,[2]),(true,[1])]) = true by cases policy <;> decide +kernel)
  simp only [Bool.and_eq_true,beq_iff_eq,decide_eq_true_eq] at checked
  obtain ⟨⟨⟨rfl,rfl⟩,waking⟩,checked⟩ := checked
  obtain ⟨⟨calls,t⟩,driven,same⟩ := (Option.any_eq_true _ _).mp checked
  have history := recorded_history unwrapped_sound (.boot 0 true) recorded
  have hired : roster = [⟨1,"a",sampleSteps 5⟩,⟨2,"b",sampleSteps 0⟩] :=
    congrArg Prod.fst (recorded_roll unwrapped_sound (.boot 0 true) recorded)
  subst hired
  obtain ⟨waking,weights⟩ := wakingIn_sound waking
  exact ⟨s,calls,t,history,waking,weights,exec_drives unwrapped_sound .start driven,beq_iff_eq.mp same⟩

theorem cfs_equal_weights_round_robin_sample : ∃ s₁ s₂ t₁ t₂ calls,
    Drives (sampleBuild .roundRobin) Unwrapped s₁ calls t₁ ∧ Drives (sampleBuild .cfs) Unwrapped s₂ calls t₂ ∧
    calls = [(true,[1]),(true,[2]),(true,[1])] ∧ (queuedTasks t₁).map look = (queuedTasks t₂).map look ∧
    t₁.finishedRuns = t₂.finishedRuns ∧ ledger t₁ = ledger t₂ := by
  obtain ⟨s₁,calls₁,t₁,history₁,waking₁,_,drives₁,same₁⟩ := equal_start .roundRobin
  obtain ⟨s₂,calls₂,t₂,history₂,waking₂,weights,drives₂,same₂⟩ := equal_start .cfs
  have k : calls₁.length = calls₂.length := by rw [same₁,same₂]
  obtain ⟨rfl,after⟩ := cfs_equal_weights_round_robin history₁ history₂ rfl rfl waking₁ waking₂ weights drives₁ drives₂ k
  exact ⟨s₁,s₂,t₁,t₂,calls₁,drives₁,drives₂,same₁,after⟩

end RustyCore
