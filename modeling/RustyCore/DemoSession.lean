import RustyCore.SchedulerDemo
import RustyCore.CfsFinishing

namespace RustyCore
open InterruptedPrograms Function Relation TurnOrder

-- A continuation of a session in which nobody is spawned.
def Follows (b : Build) (allowed : Kernel → Interrupted → Prop) (s s' : Kernel) : Prop := ∃ n, Run b allowed Cfs.NoSpawn s n s'

section follows
variable {b : Build} {allowed : Kernel → Interrupted → Prop} {s mid s' : Kernel}

theorem follows_ticks (follows : Follows b allowed s mid) (later : ReflTransGen (Irq allowed) mid s') : Follows b allowed s s' := by
  induction later with
  | refl => exact follows
  | tail _ fired ih =>
      obtain ⟨n,run⟩ := ih
      exact ⟨_,.step run (fun _ _ same => by cases same) (.tick fired)⟩

theorem follows_ret {result : α} (follows : Follows b allowed s mid) (returns : Returns (Irq allowed) (pure result : Kern α) mid value s') :
    Follows b allowed s s' :=
  follows_ticks follows (returns_ret returns).2

theorem follows_load {f : Kernel → β} {k : β → Kern α} (follows : Follows b allowed s mid)
    (returns : Returns (Irq allowed) (.load f >>= k) mid value s') :
    ∃ mid', Follows b allowed s mid' ∧ Returns (Irq allowed) (k (f mid')) mid' value s' := by
  obtain ⟨mid',waits,rest⟩ := load_returns returns
  exact ⟨mid',follows_ticks follows waits,rest⟩

theorem lift_returns {x : Except Fault β} {k : β → Kern α} (returns : Returns (Irq allowed) (lift x >>= k) mid value s') :
    ∃ a, x = .ok a ∧ Returns (Irq allowed) (k a) mid value s' := by
  cases x with
  | ok a => exact ⟨a,rfl,returns⟩
  | error fault =>
      obtain ⟨_,_,failed,_⟩ := returns_bind returns
      exact (fail_returns failed).elim

theorem request_returns {k : Unit → Kern α} (returns : Returns (Irq allowed) (request heap r >>= k) mid value s') :
    Returns (Irq allowed) (k ()) mid value s' := by
  unfold request at returns
  split at returns
  · exact returns
  · obtain ⟨_,_,failed,_⟩ := returns_bind returns
    exact (fail_returns failed).elim

theorem request_waits (returns : Returns (Irq allowed) (request heap r) mid value s') : ReflTransGen (Irq allowed) mid s' := by
  unfold request at returns
  split at returns
  · exact (returns_ret returns).2
  · exact (fail_returns returns).elim

theorem follows_schedule {k : Bool → Kern α} (follows : Follows b allowed s mid)
    (returns : Returns (Irq allowed) (scheduleOnce b.policy b.profile >>= k) mid value s') :
    ∃ found mid', Follows b allowed s mid' ∧ Returns (Irq allowed) (k found) mid' value s' := by
  obtain ⟨n,run⟩ := follows
  obtain ⟨found,mid',scheduled,rest⟩ := returns_bind returns
  have called : Returns (Irq allowed) (Call.scheduleOnce.run b) mid () mid' := bind_returns scheduled .refl
  exact ⟨found,mid',⟨_,.step run (fun _ _ same => by cases same) (.call rfl called)⟩,rest⟩

theorem keepRows_follows {k : Unit → Kern α} (follows : Follows b allowed s mid)
    (returns : Returns (Irq allowed) (keepRows heap >>= k) mid value s') :
    ∃ mid', Follows b allowed s mid' ∧ Returns (Irq allowed) (k ()) mid' value s' := by
  rw [keepRows,bind_assoc] at returns
  obtain ⟨mid₁,follows,rest⟩ := follows_load follows returns
  split at rest
  · exact ⟨mid₁,follows,rest⟩
  · exact ⟨mid₁,follows,request_returns rest⟩

theorem awaitTick_follows (follows : Follows b allowed s mid) (returns : Returns (Irq allowed) (awaitTick last patience) mid value s') :
    Follows b allowed s s' := by
  induction patience generalizing mid with
  | zero => exact follows_ret follows returns
  | succ patience ih =>
      obtain ⟨mid₁,follows,rest⟩ := follows_load follows returns
      split at rest
      · exact follows_ret follows rest
      · obtain ⟨mid₂,waits,rest⟩ := store_returns rest
        exact ih (follows_ticks follows waits) rest

theorem drivePass_follows (follows : Follows b allowed s mid) (returns : Returns (Irq allowed) (drivePass b heap d) mid value s') :
    Follows b allowed s s' := by
  obtain ⟨found,mid₀,follows,rest⟩ := follows_schedule follows returns
  obtain ⟨mid₁,follows,rest⟩ := keepRows_follows follows rest
  cases found with
  | true =>
      obtain ⟨schedules,_,rest⟩ := lift_returns rest
      obtain ⟨mid₂,follows,rest⟩ := follows_load follows rest
      obtain ⟨preempts,_,rest⟩ := lift_returns rest
      exact follows_ret follows rest
  | false =>
      obtain ⟨asleepPasses,_,rest⟩ := lift_returns rest
      exact follows_ret follows rest

theorem driveTasks_follows (follows : Follows b allowed s mid)
    (returns : Returns (Irq allowed) (driveTasks b heap patience fuel d) mid value s') : Follows b allowed s s' := by
  induction fuel generalizing mid d with
  | zero => exact follows_ret follows returns
  | succ fuel ih =>
      obtain ⟨mid₁,follows,rest⟩ := follows_load follows returns
      split at rest
      · exact follows_ret follows rest
      · obtain ⟨cur,mid₂,awaited,rest⟩ := returns_bind rest
        have follows := awaitTick_follows follows awaited
        cases cur with
        | none => exact follows_ret follows rest
        | some cur =>
            obtain ⟨passed,mid₃,pass,rest⟩ := returns_bind rest
            have follows := drivePass_follows follows pass
            cases passed with
            | error ending => exact follows_ret follows rest
            | ok d => exact ih follows rest

theorem driveDemo_follows (returns : Returns (Irq allowed) (driveDemo b heap patience fuel) s value s') : Follows b allowed s s' := by
  obtain ⟨mid₁,follows,rest⟩ := follows_load ⟨0,.start⟩ returns
  obtain ⟨mid₂,follows,rest⟩ := follows_load follows rest
  obtain ⟨result,mid₃,driven,rest⟩ := returns_bind rest
  have follows := driveTasks_follows follows driven
  match result,rest with
  | none,rest => exact follows_ret follows rest
  | some (.error ending),rest => exact follows_ret follows rest
  | some (.ok d),rest =>
      obtain ⟨ending,mid₄,closed,rest⟩ := returns_bind rest
      unfold closeDemo at closed
      split at closed
      · exact follows_ret (follows_ret follows closed) rest
      · obtain ⟨mid₅,follows,closed⟩ := follows_load follows (request_returns closed)
        exact follows_ret (follows_ret follows closed) rest

end follows

structure Post where
  id : ℕ
  state : TaskState
  weight : ℕ
  outcome : ℕ → StepCall

structure Post.Filled (post : Post) (t : Task) : Prop where
  id : t.id = post.id
  state : t.state = post.state
  weight : t.weight = post.weight
  step : t.step = ⟨post.outcome,0⟩
  vruntime : t.vruntime = 0

-- A session in which nobody has run: the queue, and the tasks that are built and not yet spawned.
structure Staffed (b : Build) (allowed : Kernel → Interrupted → Prop) (posts hand : List Post) (s : Kernel) : Prop where
  session : Session b allowed s
  queued : List.Forall₂ (fun addr post => ∃ t, s.heap addr = some t ∧ post.Filled t) s.ready posts
  held : List.Forall₂ (fun t post => post.Filled t) s.held hand
  nobody : s.finishedRuns = []

section staffed
variable {b : Build} {allowed : Kernel → Interrupted → Prop} {s s' : Kernel} {posts : List Post} {post : Post}

theorem call_session (session : Session b allowed s) (call : Call) (legal : call.legal s = true)
    (returns : Returns (Irq allowed) (call.run b) s () s') : Session b allowed s' ∧ Done b allowed s call s' :=
  ⟨.step session (.call legal returns),call_done session (.call legal returns)⟩

theorem queued_grown {queue : List ℕ} (grown : Grown allowed fresh s s')
    (queued : List.Forall₂ (fun addr post => ∃ t, s.heap addr = some t ∧ Post.Filled post t) queue posts) :
    List.Forall₂ (fun addr post => ∃ t, s'.heap addr = some t ∧ Post.Filled post t) queue posts := by
  refine queued.imp ?_
  rintro addr post ⟨t,here,filled⟩
  exact ⟨t,(grown.heap addr (by simp [here])).trans here,filled⟩

theorem staffed_built (staffed : Staffed b allowed posts [] s) (session : Session b allowed s') (grown : Grown allowed [] s s')
    (held : s'.held = s.held ++ [task]) (filled : post.Filled task) : Staffed b allowed posts [post] s' := by
  refine ⟨session,?_,?_,grown.finished.trans staffed.nobody⟩
  · rw [grown.ready,List.append_nil]
    exact queued_grown grown staffed.queued
  · rw [held,List.forall₂_nil_right_iff.mp staffed.held]
    exact .cons filled .nil

theorem staffed_new {id : ℕ} (staffed : Staffed b allowed posts [] s)
    (returns : Returns (Irq allowed) (newTask b.profile b.config raw id name outcome) s () s') :
    Staffed b allowed posts [⟨id,.ready,CFS_DEFAULT_WEIGHT,outcome⟩] s' := by
  obtain ⟨session,grown,_,_,_,_,held⟩ := call_session staffed.session (.new raw id name outcome) rfl returns
  exact staffed_built staffed session grown held ⟨rfl,rfl,rfl,rfl,rfl⟩

theorem staffed_sleeping {id : ℕ} (staffed : Staffed b allowed posts [] s)
    (returns : Returns (Irq allowed) (sleepingTask b.profile b.config raw id name untilTick outcome) s () s') :
    Staffed b allowed posts [⟨id,.sleeping untilTick,CFS_DEFAULT_WEIGHT,outcome⟩] s' := by
  obtain ⟨session,grown,_,_,_,_,held⟩ := call_session staffed.session (.sleeping raw id name untilTick outcome) rfl returns
  exact staffed_built staffed session grown held ⟨rfl,rfl,rfl,rfl,rfl⟩

theorem staffed_hand (staffed : Staffed b allowed posts [post] s) : ∃ task, s.held = [task] ∧ post.Filled task := by
  obtain ⟨task,rest,filled,none,own⟩ := List.forall₂_cons_right_iff.mp staffed.held
  rw [List.forall₂_nil_right_iff.mp none] at own
  exact ⟨task,own,filled⟩

theorem staffed_weight (staffed : Staffed b allowed posts [post] s)
    (returns : Returns (Irq allowed) (withWeight 0 weight) s () s') : Staffed b allowed posts [{post with weight := weight}] s' := by
  obtain ⟨task,own,filled⟩ := staffed_hand staffed
  obtain ⟨session,grown,_,held⟩ := call_session staffed.session (.withWeight 0 weight) (by simp [Call.legal,own]) returns
  refine ⟨session,?_,?_,grown.finished.trans staffed.nobody⟩
  · rw [grown.ready,List.append_nil]
    exact queued_grown grown staffed.queued
  · rw [held,own]
    exact .cons ⟨filled.id,filled.state,rfl,filled.step,filled.vruntime⟩ .nil

theorem staffed_spawn (staffed : Staffed b allowed posts [post] s)
    (returns : Returns (Irq allowed) (spawn b.policy b.config 0 addr) s () s') : Staffed b allowed (posts ++ [post]) [] s' := by
  obtain ⟨task,own,filled⟩ := staffed_hand staffed
  obtain ⟨session,grown,_,t,there,heap,held⟩ := call_session staffed.session (.spawn 0 addr) (by simp [Call.legal,own]) returns
  have same : t = task := by simpa [own] using there.symm
  subst same
  refine ⟨session,?_,?_,grown.finished.trans staffed.nobody⟩
  · rw [grown.ready]
    refine List.rel_append (queued_grown grown staffed.queued) (.cons ⟨t,?_,filled⟩ .nil)
    rw [heap,update_self]
  · rw [held,own]
    exact .nil

theorem staffed_ticks (staffed : Staffed b allowed posts hand s) (later : ReflTransGen (Irq allowed) s s') :
    Staffed b allowed posts hand s' := by
  induction later with
  | refl => exact staffed
  | tail _ fired ih =>
      have session : Session b allowed _ := .step ih.session (.tick fired)
      obtain ⟨n,_,rfl⟩ := tick_still (session_parts ih.session).1 fired
      exact ⟨session,ih.queued,ih.held,ih.nobody⟩

theorem enlist_staffed {id : ℕ} (staffed : Staffed b allowed posts [post] s)
    (returns : Returns (Irq allowed) (enlist b heap id) s () s') : Staffed b allowed (posts ++ [post]) [] s' := by
  obtain ⟨_,mid,spawned,rest⟩ := returns_bind returns
  exact staffed_ticks (staffed_spawn staffed spawned) (request_waits rest)

theorem queued_listed {queue : List ℕ}
    (queued : List.Forall₂ (fun addr post => ∃ t, s.heap addr = some t ∧ Post.Filled post t) queue posts) :
    (∀ post ∈ posts, ∃ addr ∈ queue, ∃ t, s.heap addr = some t ∧ post.Filled t) ∧
    ∀ addr ∈ queue, ∀ t, s.heap addr = some t → ∃ post ∈ posts, post.Filled t := by
  induction queued with
  | nil => simp
  | @cons addr post queue posts first _ ih =>
      obtain ⟨t,here,filled⟩ := first
      simp only [List.forall_mem_cons,List.exists_mem_cons_iff]
      refine ⟨⟨Or.inl ⟨t,here,filled⟩,fun post member => Or.inr (ih.1 post member)⟩,?_,
        fun addr member t here => Or.inr (ih.2 addr member t here)⟩
      intro t' here'
      cases here.symm.trans here'
      exact Or.inl filled

theorem queued_unique {queue : List ℕ}
    (queued : List.Forall₂ (fun addr post => ∃ t, s.heap addr = some t ∧ Post.Filled post t) queue posts)
    (distinct : (posts.map (·.id)).Nodup) :
    ∀ x ∈ queue, ∀ y ∈ queue, ∀ t t', s.heap x = some t → s.heap y = some t' → t.id = t'.id → x = y := by
  induction queued with
  | nil => simp
  | @cons addr post queue posts first rest ih =>
      obtain ⟨t,here,filled⟩ := first
      obtain ⟨new,distinct⟩ := List.nodup_cons.mp distinct
      have other : ∀ y ∈ queue, ∀ t', s.heap y = some t' → t'.id ≠ t.id := by
        intro y member t' found same
        obtain ⟨post',listed,filled'⟩ := (queued_listed rest).2 y member t' found
        exact new (List.mem_map.mpr ⟨post',listed,by rw [← filled'.id,same,filled.id]⟩)
      intro x left y right t₁ t₂ here₁ here₂ same
      rcases List.mem_cons.mp left with rfl | behind
      · rcases List.mem_cons.mp right with rfl | behind'
        · rfl
        · cases here.symm.trans here₁
          exact absurd same.symm (other y behind' t₂ here₂)
      · rcases List.mem_cons.mp right with rfl | behind'
        · cases here.symm.trans here₂
          exact absurd same (other x behind t₁ here₁)
        · exact ih distinct x behind y behind' t₁ t₂ here₁ here₂ same

theorem spawnNamed_staffed {id : ℕ} (cfs : b.policy = .cfs) (staffed : Staffed b allowed posts [] s)
    (returns : Returns (Irq allowed) (spawnNamed b heap work id name) s () s') :
    Staffed b allowed (posts ++ [⟨id,.ready,if name = "gamma" then 2048 else CFS_DEFAULT_WEIGHT,demoStep (work id)⟩]) [] s' := by
  obtain ⟨_,mid₁,built,rest⟩ := returns_bind (request_returns returns)
  have staffed := staffed_new staffed built
  have rest := request_returns (request_returns rest)
  by_cases gamma : name = "gamma"
  · simp only [cfs,gamma,and_self,if_true] at rest ⊢
    obtain ⟨_,mid₂,weighed,spawned⟩ := returns_bind rest
    exact enlist_staffed (staffed_weight staffed weighed) spawned
  · simp only [gamma,and_false,if_false] at rest ⊢
    exact enlist_staffed staffed rest

theorem spawnNapper_staffed (staffed : Staffed b allowed posts [] s) (returns : Returns (Irq allowed) (spawnNapper b heap work) s () s') :
    ∃ wakeAt, Staffed b allowed (posts ++ [⟨4,.sleeping wakeAt,CFS_DEFAULT_WEIGHT,napperStep (work 4)⟩]) [] s' := by
  obtain ⟨mid₁,waits,rest⟩ := load_returns returns
  obtain ⟨wakeAt,_,rest⟩ := lift_returns rest
  obtain ⟨_,mid₂,built,rest⟩ := returns_bind rest
  have staffed := staffed_sleeping (staffed_ticks staffed waits) built
  exact ⟨wakeAt,enlist_staffed staffed (request_returns (request_returns rest))⟩

theorem populate_staffed (cfs : b.policy = .cfs) (returns : Returns (Irq allowed) (populate b heap work) (Kernel.boot ticks flag) () s') :
    ∃ wakeAt, Staffed b allowed [⟨1,.ready,CFS_DEFAULT_WEIGHT,demoStep (work 1)⟩,⟨2,.ready,CFS_DEFAULT_WEIGHT,demoStep (work 2)⟩,
      ⟨3,.ready,2048,demoStep (work 3)⟩,⟨4,.sleeping wakeAt,CFS_DEFAULT_WEIGHT,napperStep (work 4)⟩] [] s' := by
  have empty : Staffed b allowed [] [] (Kernel.boot ticks flag) := ⟨.boot ticks flag,.nil,.nil,rfl⟩
  obtain ⟨_,mid₁,alpha,rest⟩ := returns_bind returns
  obtain ⟨_,mid₂,beta,rest⟩ := returns_bind rest
  obtain ⟨_,mid₃,gamma,napper⟩ := returns_bind rest
  exact spawnNapper_staffed (spawnNamed_staffed cfs (spawnNamed_staffed cfs (spawnNamed_staffed cfs empty alpha) beta) gamma) napper

end staffed

-- Five calls at a slice of 100 against five at a slice of 50.
theorem demo_runner {id weight : ℕ} (filled : Post.Filled ⟨id,.ready,weight,demoStep work⟩ t) :
    (∀ untilTick, t.state ≠ .sleeping untilTick) ∧ Cfs.GivesUp t 4 ∧ Cfs.lastVruntime t 4 = 4*Cfs.slice weight := by
  refine ⟨?_,?_,?_⟩
  · intro untilTick sleeps
    cases filled.state.symm.trans sleeps
  · intro k early
    rw [filled.step]
    exact decide_eq_decide.mpr (by simp only [SCHED_FAIR_RUNS]; omega)
  · unfold Cfs.lastVruntime
    rw [filled.vruntime,filled.weight,Nat.zero_add]

-- Under CFS gamma is through before alpha and beta, as the closing line says, whatever the steps
-- take, wherever ticks arrive and whatever the heap answers; the driver's run continues a session.
theorem gamma_first {b : Build} (cfs : b.policy = .cfs) (steady : Steady allowed)
    (populated : Returns (Irq allowed) (populate b heap work) (Kernel.boot ticks flag) () mid)
    (driven : Returns (Irq allowed) (driveDemo b heap patience fuel) mid result s') :
    Session b allowed mid ∧ Follows b allowed mid s' ∧
      ∀ id ∈ [1,2], id ∈ s'.finishedRuns.map (·.1) → Ahead 3 id (s'.finishedRuns.map (·.1)) := by
  obtain ⟨wakeAt,staffed⟩ := populate_staffed cfs populated
  obtain ⟨n,run⟩ := driveDemo_follows driven
  refine ⟨staffed.session,⟨n,run⟩,?_⟩
  obtain ⟨B,member',right,here',filled'⟩ := (queued_listed staffed.queued).1 ⟨3,.ready,2048,demoStep (work 3)⟩ (by simp)
  obtain ⟨waking',lasts',final'⟩ := demo_runner filled'
  intro id listed ended
  obtain ⟨A,member,left,here,filled⟩ := (queued_listed staffed.queued).1 ⟨id,.ready,CFS_DEFAULT_WEIGHT,demoStep (work id)⟩ (by
    rcases List.mem_pair.mp listed with rfl | rfl <;> simp)
  obtain ⟨waking,lasts,final⟩ := demo_runner filled
  have apart : A ≠ B := by
    rintro rfl
    cases here.symm.trans here'
    cases filled.weight.symm.trans filled'.weight
  have alone : ∀ x ∈ mid.ready, ∀ t, mid.heap x = some t → t.id = left.id → x = A := by
    intro x queued t found same
    exact queued_unique staffed.queued (by simp) x queued A member t left found here same
  have race := Cfs.race_run staffed.session cfs steady run apart lasts lasts' (by rw [final]; decide) (by rw [final,final']; decide)
    (Cfs.race_start ⟨member,here⟩ ⟨member',here'⟩ waking waking' alone)
  obtain ⟨rows,runs,absent,_,behind⟩ := race.rows
  rw [staffed.nobody,List.nil_append] at runs
  rw [← runs,filled.id,filled'.id] at behind
  rw [← runs,filled.id] at absent
  exact (behind fun queued => absent queued ended).2

theorem gamma_first_sample : ∃ mid result s',
    Returns (Irq Orderly) (populate (sampleBuild .cfs) sampleHeap fun _ _ => 1) (Kernel.boot 0 true) () mid ∧
    Returns (Irq Orderly) (driveDemo (sampleBuild .cfs) sampleHeap 2 40) mid result s' ∧ s'.finishedRuns.map (·.1) = [4,3,1,2] ∧
    Ahead 3 1 (s'.finishedRuns.map (·.1)) := by
  have driven : (press eagerTick 100 (populate (sampleBuild .cfs) sampleHeap fun _ _ => 1) (Kernel.boot 0 true)).any (fun r =>
      (press eagerTick 5000 (driveDemo (sampleBuild .cfs) sampleHeap 2 40) r.2).any fun r' =>
        r'.2.finishedRuns.map (·.1) == [4,3,1,2]) = true := by
    decide +kernel
  obtain ⟨⟨⟨⟩,mid⟩,populated,rest⟩ := (Option.any_eq_true _ _).mp driven
  obtain ⟨⟨result,s'⟩,ended,checked⟩ := (Option.any_eq_true _ _).mp rest
  have order := beq_iff_eq.mp checked
  have first := press_returns eagerTick_sound populated
  have second := press_returns eagerTick_sound ended
  have steady : Steady Orderly := fun s regs orderly => orderly.1
  exact ⟨mid,result,s',first,second,order,(gamma_first rfl steady first second).2.2 1 (by simp) (by rw [order]; simp)⟩

def Yanked (allowed : Kernel → Interrupted → Prop) (s : Kernel) (k : ℕ) (s' : Kernel) : Prop :=
  ∃ frames, s' = {s with apicTicks := s.apicTicks+k, preemptSwitches := (s.preemptSwitches+k) % 2^64, taskFrames := frames} ∧
    (k = 0 ∧ frames = s.taskFrames ∨
      s.apicTicks+k < 2^64 ∧ ∃ t regs, allowed t regs ∧ frames = update s.taskFrames s.currentIdx regs.stash)

section spin
variable {allowed : Kernel → Interrupted → Prop} {s mid s' : Kernel} (steady : Steady allowed)
  (window : s.preemptible ≠ 0 ∧ s.currentIdx < MAX_TASKS ∧ s.slotUsed.getLsbD s.currentIdx = true)
include steady window

theorem yanked_tick (yanked : Yanked allowed s k mid) (fired : Irq allowed mid s') : Yanked allowed s (k+1) s' := by
  obtain ⟨regs,_,valid,rfl⟩ := fired
  have bound := steady mid regs valid
  obtain ⟨frames,rfl,stashed⟩ := yanked
  have ticks : (s.apicTicks+k+1) % 2^64 = s.apicTicks+(k+1) := Nat.mod_eq_of_lt bound
  have switches : ((s.preemptSwitches+k) % 2^64+1) % 2^64 = (s.preemptSwitches+(k+1)) % 2^64 := by omega
  have last : update frames s.currentIdx regs.stash = update s.taskFrames s.currentIdx regs.stash := by
    rcases stashed with ⟨_,rfl⟩ | ⟨_,_,_,_,rfl⟩
    · rfl
    · exact update_idem _ _ _
  refine ⟨update s.taskFrames s.currentIdx regs.stash,?_,Or.inr ⟨bound,_,regs,valid,rfl⟩⟩
  rw [tick_taken regs (by exact window)]
  simp only [ticks,switches,last]

theorem yanked_ticks (yanked : Yanked allowed s k mid) (later : ReflTransGen (Irq allowed) mid s') :
    ∃ more, Yanked allowed s (k+more) s' := by
  induction later with
  | refl => exact ⟨0,yanked⟩
  | tail _ fired ih =>
      obtain ⟨more,yanked⟩ := ih
      exact ⟨more+1,yanked_tick steady window yanked fired⟩

theorem spin_yanked (yanked : Yanked allowed s k mid) (least : s.apicTicks ≤ before) (most : before ≤ s.apicTicks+k)
    (returns : Returns (Irq allowed) (spinForTick before fuel) mid true s') :
    ReflTransGen (Irq allowed) mid s' ∧ ∃ n, 0 < n ∧ Yanked allowed s n s' := by
  induction fuel generalizing mid k with
  | zero => cases (returns_ret returns).1
  | succ fuel ih =>
      obtain ⟨mid₁,waits,rest⟩ := load_returns returns
      obtain ⟨more,yanked₁⟩ := yanked_ticks steady window yanked waits
      have now : mid₁.apicTicks = s.apicTicks+(k+more) := by
        obtain ⟨_,rfl,_⟩ := yanked₁
        rfl
      split at rest
      · obtain ⟨mid₂,waits₂,rest⟩ := store_returns rest
        obtain ⟨more₂,yanked₂⟩ := yanked_ticks steady window yanked₁ waits₂
        obtain ⟨waits₃,parts⟩ := ih yanked₂ (by omega) rest
        exact ⟨waits.trans (waits₂.trans waits₃),parts⟩
      · next fresh =>
          have waits₂ := (returns_ret rest).2
          obtain ⟨more₂,yanked₂⟩ := yanked_ticks steady window yanked₁ waits₂
          exact ⟨waits.trans waits₂,_,by omega,yanked₂⟩

-- The first step of a task of the demo does not return without a yank: the stub has counted it,
-- left the frame in the task's slot and changed nothing else. For the model the wait is one of
-- the ways to spend any number of instructions.
theorem first_step_yanked (small : s.preemptSwitches < 2^64) (returns : Returns (Irq allowed) (firstSpin fuel) s true s') :
    s'.preemptSwitches ≠ s.preemptSwitches ∧
    (∃ t regs, allowed t regs ∧ s' = {s with apicTicks := s'.apicTicks, preemptSwitches := s'.preemptSwitches
                                             taskFrames := update s.taskFrames s.currentIdx regs.stash}) ∧
    ∀ work, Returns (Irq allowed) (instructions work) s () s' := by
  have start : Yanked allowed s 0 s := by
    refine ⟨s.taskFrames,?_,Or.inl ⟨rfl,rfl⟩⟩
    simp only [Nat.add_zero,Nat.mod_eq_of_lt small]
  obtain ⟨mid,waits,rest⟩ := load_returns returns
  obtain ⟨k,yanked⟩ := yanked_ticks steady window start waits
  rw [Nat.zero_add] at yanked
  have now : mid.apicTicks = s.apicTicks+k := by
    obtain ⟨_,rfl,_⟩ := yanked
    rfl
  obtain ⟨waits₂,n,positive,yanked⟩ := spin_yanked steady window yanked (by omega) (by omega) rest
  refine ⟨?_,?_,?_⟩
  · obtain ⟨_,rfl,⟨none,_⟩ | ⟨bound,_⟩⟩ := yanked
    · omega
    · show (s.preemptSwitches+n) % 2^64 ≠ s.preemptSwitches
      omega
  · obtain ⟨_,rfl,⟨none,_⟩ | ⟨_,t,regs,valid,rfl⟩⟩ := yanked
    · omega
    · exact ⟨t,regs,valid,rfl⟩
  · intro work
    induction work with
    | zero => exact interrupts_reach _ (waits.trans waits₂)
    | succ work ih => exact .head (.act rfl) ih

end spin

def spinning : Kernel :=
  {Kernel.boot 0 true with preemptible := 1, currentIdx := 2, slotUsed := 4, slotBounds := fun _ => (HEAP_START,HEAP_START+0x20000)}

theorem first_step_yanked_sample : ∃ s', Returns (Irq Orderly) (firstSpin 3) spinning true s' ∧
    s'.preemptSwitches ≠ spinning.preemptSwitches := by
  obtain ⟨⟨result,s'⟩,spun,checked⟩ := (Option.any_eq_true _ _).mp
    (show (press eagerTick 9 (firstSpin 3) spinning).any (·.1) = true by decide +kernel)
  cases show result = true from checked
  have returns := press_returns eagerTick_sound spun
  have steady : Steady Orderly := fun s regs orderly => orderly.1
  exact ⟨s',returns,(first_step_yanked steady (by decide) (by decide) returns).1⟩

end RustyCore
