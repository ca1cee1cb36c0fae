import RustyCore.CfsAccounting

namespace RustyCore.Cfs
open InterruptedPrograms Function

def Queued (s : Kernel) (addr : ℕ) (task : Task) : Prop := addr ∈ s.ready ∧ s.heap addr = some task

def Beside (A B : ℕ) (mid : Kernel) (event : Event) (_ : Kernel) : Prop :=
  (A ∈ mid.ready ∧ B ∈ mid.ready) ∧ (event = .call .scheduleOnce → Awake mid A ∧ Awake mid B)

def Plain (s : Kernel) (x : ℕ) : Prop := ∀ task, s.heap x = some task →
  (woken (floorBeside s x) task).vruntime = task.vruntime ∧ task.vruntime+slice task.weight ≤ U64_MAX

def Plainly (A B : ℕ) (mid : Kernel) (event : Event) (s' : Kernel) : Prop :=
  Beside A B mid event s' ∧ ∀ x, x = A ∨ x = B → s'.stepLog = mid.stepLog ++ [x] → Plain mid x

structure Ran (s : Kernel) (x : ℕ) (task other task' : Task) : Prop where
  weight : task'.weight = task.weight
  vruntime : task'.vruntime = saturatingAdd (woken (floorBeside s x) task).vruntime (slice task.weight)
  below : (woken (floorBeside s x) task).vruntime ≤ other.vruntime

inductive Moved (s : Kernel) (A B : ℕ) (s' : Kernel) (left right left' right' : Task) : Prop where
  | neither (x : ℕ) (log : s'.stepLog = s.stepLog ++ [x]) (other : x ≠ A) (other' : x ≠ B) (same : left' = left)
      (same' : right' = right)
  | first (log : s'.stepLog = s.stepLog ++ [A]) (ran : Ran s A left right left') (same : right' = right)
  | second (log : s'.stepLog = s.stepLog ++ [B]) (same : left' = left) (ran : Ran s B right left right')

theorem moved_symm (moved : Moved s A B s' left right left' right') : Moved s B A s' right left right' left' := by
  cases moved with
  | neither x log other other' same same' => exact .neither x log other' other same' same
  | first log ran same => exact .second log same ran
  | second log same ran => exact .first log ran same

section pairs
variable {b : Build} {allowed : Kernel → Interrupted → Prop} {s mid s' : Kernel} {A B : ℕ} {left right left' right' : Task}

theorem chosen_ran (chosen : Chosen s x task s') (queued : Queued s B right) (awake : Awake s B) (other : B ≠ x)
    (after : s'.heap x = some task') : Ran s x task right task' := by
  obtain ⟨t,found,wakes⟩ := awake
  cases queued.2.symm.trans found
  rcases chosen.after with ⟨t',_,here,weight,vruntime⟩ | ⟨_,gone⟩
  · cases after.symm.trans here
    refine ⟨weight,vruntime,woken_below (chosen.least B right queued.1 queued.2 wakes).1 ?_⟩
    exact minVruntime_le ((List.mem_erase_of_ne other).mpr queued.1) queued.2
  · cases after.symm.trans gone

theorem chosen_apart (chosen : Chosen s x task s') (other : x ≠ A) (before : Queued s A left) (after : Queued s' A left') :
    left' = left := by
  have here := after.2
  rw [chosen.others A (Ne.symm other),before.2] at here
  exact (Option.some.inj here).symm

theorem chosen_moved (different : A ≠ B) (chosen : Chosen s x task s') (first : Queued s A left) (second : Queued s B right)
    (awake : Awake s A) (awake' : Awake s B) (first' : Queued s' A left') (second' : Queued s' B right') :
    Moved s A B s' left right left' right' := by
  by_cases own : x = A
  · subst own
    cases chosen.here.symm.trans first.2
    obtain rfl := chosen_apart chosen different second second'
    exact .first chosen.log (chosen_ran chosen second awake' (Ne.symm different) first'.2) rfl
  obtain rfl := chosen_apart chosen own first first'
  by_cases own' : x = B
  · subst own'
    cases chosen.here.symm.trans second.2
    exact .second chosen.log rfl (chosen_ran chosen first awake different second'.2)
  · obtain rfl := chosen_apart chosen own' second second'
    exact .neither x chosen.log own own' rfl rfl

structure Lag (left left' right' : Task) : Prop where
  weight : left'.weight = left.weight
  grows : left.vruntime ≤ left'.vruntime
  bound : left'.vruntime ≤ max left.vruntime (right'.vruntime+slice left.weight)

theorem ran_grows (fine : task.vruntime ≤ U64_MAX) (ran : Ran s x task other task') : task.vruntime ≤ task'.vruntime := by
  have raised := woken_grows (floorBeside s x) task
  rw [ran.vruntime]
  unfold saturatingAdd
  omega

theorem lag_moved (fine : left.vruntime ≤ U64_MAX) (fine' : right.vruntime ≤ U64_MAX) (lag : Lag start left right)
    (moved : Moved s A B s' left right left' right') : Lag start left' right' := by
  obtain ⟨weight,grows,bound⟩ := lag
  cases moved with
  | neither x log other other' same same' =>
      subst same same'
      exact ⟨weight,grows,bound⟩
  | first log ran same =>
      subst same
      refine ⟨ran.weight.trans weight,Nat.le_trans grows (ran_grows fine ran),?_⟩
      have below := ran.below
      rw [ran.vruntime,weight]
      unfold saturatingAdd
      omega
  | second log same ran =>
      subst same
      have more := ran_grows fine' ran
      exact ⟨weight,grows,by omega⟩

-- What holds of two tasks at the start of a run beside each other, and is kept by every
-- run of either or of a third, holds of them at its end.
theorem pair_keeps {P : Kernel → Event → Kernel → Prop} {J : Kernel → Task → Task → Prop} (session : Session b allowed s)
    (policy : b.policy = .cfs) (steady : Steady allowed) (different : A ≠ B) (run : Run b allowed P s n s')
    (beside : ∀ mid event s', P mid event s' → Beside A B mid event s') (first : Queued s A left) (second : Queued s B right)
    (start : J s left right) (quiet : ∀ mid s' a c, J mid a c → s'.stepLog = mid.stepLog → J s' a c)
    (moves : ∀ mid s' a c a' c', J mid a c → Queued mid A a → Queued mid B c → Books mid → P mid (.call .scheduleOnce) s' →
      Moved mid A B s' a c a' c' → J s' a' c') (first' : Queued s' A left') (second' : Queued s' B right') : J s' left' right' := by
  have kept := run_keeps (I:=fun _ mid => ∀ a c, Queued mid A a → Queued mid B c → J mid a c) session run ?_ ?_ ?_
  · exact kept.2 left' right' first' second'
  · intro a c queued queued'
    cases first.2.symm.trans queued.2
    cases second.2.symm.trans queued'.2
    exact start
  · intro n mid event fresh s' before kept met _ grown _ a c queued queued'
    obtain ⟨⟨member,member'⟩,_⟩ := beside mid event s' met
    have table := (session_parts before).2
    refine quiet mid s' a c (kept a c ⟨member,?_⟩ ⟨member',?_⟩) grown.log
    · rw [← grown_queued table grown member]
      exact queued.2
    · rw [← grown_queued table grown member']
      exact queued'.2
  · intro n mid found s' before kept met scheduled a' c' queued queued'
    obtain ⟨⟨member,member'⟩,awake⟩ := beside mid _ s' met
    obtain ⟨awake,awake'⟩ := awake rfl
    have table := (session_parts before).2
    have books := session_books policy steady before
    obtain ⟨a,here,_⟩ := table.boxed A member
    obtain ⟨c,here',_⟩ := table.boxed B member'
    rw [policy] at scheduled
    rcases called_chosen steady table.once scheduled with ⟨asleep,_⟩ | ⟨x,task,chosen⟩
    · exact absurd awake (asleep A member)
    · exact moves mid s' a c a' c' (kept a c ⟨member,here⟩ ⟨member',here'⟩) ⟨member,here⟩ ⟨member',here'⟩ books met
        (chosen_moved different chosen ⟨member,here⟩ ⟨member',here'⟩ awake awake' queued queued')

def Tallied (s : Kernel) (A B : ℕ) (left right : Task) (mid : Kernel) (a c : Task) : Prop :=
  ∃ ran, mid.stepLog = s.stepLog ++ ran ∧ (a.weight = left.weight ∧ a.vruntime = left.vruntime+ran.count A*slice left.weight) ∧
    c.weight = right.weight ∧ c.vruntime = right.vruntime+ran.count B*slice right.weight

theorem plain_ran (plain : Plain s x) (here : s.heap x = some task) (ran : Ran s x task other task') :
    task'.vruntime = task.vruntime+slice task.weight := by
  obtain ⟨unclamped,fits⟩ := plain task here
  rw [ran.vruntime,unclamped]
  exact Nat.min_eq_left fits

theorem tallied_moved (different : A ≠ B) (queued : Queued mid A a) (queued' : Queued mid B c)
    (plainly : Plainly A B mid event s') (tallied : Tallied s A B left right mid a c) (moved : Moved mid A B s' a c a' c') :
    Tallied s A B left right s' a' c' := by
  obtain ⟨ran,log,⟨weight,vruntime⟩,weight',vruntime'⟩ := tallied
  cases moved with
  | neither x log' other other' same same' =>
      subst same same'
      refine ⟨ran ++ [x],by rw [log',log,List.append_assoc],⟨weight,?_⟩,weight',?_⟩
      · rw [vruntime,List.count_append,List.count_singleton,beq_eq_false_iff_ne.mpr other]
        rfl
      · rw [vruntime',List.count_append,List.count_singleton,beq_eq_false_iff_ne.mpr other']
        rfl
  | first log' moved same =>
      subst same
      have accrues := plain_ran (plainly.2 A (Or.inl rfl) log') queued.2 moved
      refine ⟨ran ++ [A],by rw [log',log,List.append_assoc],⟨moved.weight.trans weight,?_⟩,weight',?_⟩
      · rw [accrues,vruntime,weight,List.count_append,List.count_singleton_self,Nat.succ_mul,Nat.add_assoc]
      · rw [vruntime',List.count_append,List.count_singleton,beq_eq_false_iff_ne.mpr different]
        rfl
  | second log' same moved =>
      subst same
      have accrues := plain_ran (plainly.2 B (Or.inr rfl) log') queued'.2 moved
      refine ⟨ran ++ [B],by rw [log',log,List.append_assoc],⟨weight,?_⟩,moved.weight.trans weight',?_⟩
      · rw [vruntime,List.count_append,List.count_singleton,beq_eq_false_iff_ne.mpr (Ne.symm different)]
        rfl
      · rw [accrues,vruntime',weight',List.count_append,List.count_singleton_self,Nat.succ_mul,Nat.add_assoc]

-- Neither of two tasks gets ahead of the other by more than its own slice, however long
-- they run and whoever comes and goes.
theorem cfs_lag (session : Session b allowed s) (policy : b.policy = .cfs) (steady : Steady allowed) (different : A ≠ B)
    (run : Run b allowed (Beside A B) s n s') (first : Queued s A left) (second : Queued s B right)
    (first' : Queued s' A left') (second' : Queued s' B right') :
    left'.vruntime ≤ max left.vruntime (right'.vruntime+CFS_BASE_SLICE*1024/left.weight) ∧
    (left.vruntime = right.vruntime →
      left'.vruntime ≤ right'.vruntime+CFS_BASE_SLICE*1024/left.weight ∧
      right'.vruntime ≤ left'.vruntime+CFS_BASE_SLICE*1024/right.weight ∧
      (Run b allowed (Plainly A B) s n s' → ∃ ran, s'.stepLog = s.stepLog ++ ran ∧
        ran.count A*(CFS_BASE_SLICE*1024/left.weight) ≤
          ran.count B*(CFS_BASE_SLICE*1024/right.weight)+CFS_BASE_SLICE*1024/left.weight ∧
        ran.count B*(CFS_BASE_SLICE*1024/right.weight) ≤
          ran.count A*(CFS_BASE_SLICE*1024/left.weight)+CFS_BASE_SLICE*1024/right.weight)) := by
  have books := session_books policy steady session
  have lags := pair_keeps (J:=fun _ a c => Lag left a c ∧ Lag right c a) session policy steady different run
    (fun _ _ _ beside => beside) first second
    ⟨⟨rfl,Nat.le_refl _,Nat.le_max_left _ _⟩,⟨rfl,Nat.le_refl _,Nat.le_max_left _ _⟩⟩ (fun _ _ _ _ lags _ => lags)
    (by
      intro mid s' a c a' c' lags queued queued' books _ moved
      have fine := (books.queued A queued.1 a queued.2).vruntime
      have fine' := (books.queued B queued'.1 c queued'.2).vruntime
      exact ⟨lag_moved fine fine' lags.1 moved,lag_moved fine' fine lags.2 (moved_symm moved)⟩)
    first' second'
  rw [← slice_positive (books.queued A first.1 left first.2).weight,← slice_positive (books.queued B second.1 right second.2).weight]
  obtain ⟨⟨_,grows,bound⟩,⟨_,grows',bound'⟩⟩ := lags
  refine ⟨bound,?_⟩
  intro equal
  refine ⟨by omega,by omega,?_⟩
  intro plain
  have tallied := pair_keeps (J:=Tallied s A B left right) session policy steady different plain
    (fun _ _ _ plainly => plainly.1) first second
    ⟨[],(List.append_nil _).symm,⟨rfl,by simp⟩,rfl,by simp⟩
    (fun _ _ _ _ tallied same => tallied.imp fun _ parts => ⟨same.trans parts.1,parts.2⟩)
    (fun mid s' a c a' c' tallied queued queued' _ plainly moved => tallied_moved different queued queued' plainly tallied moved)
    first' second'
  obtain ⟨ran,log,⟨_,vruntime⟩,_,vruntime'⟩ := tallied
  exact ⟨ran,log,by omega,by omega⟩

end pairs

def sampleShares (first second : ℕ) : List (Call × List (List Interrupted)) :=
  [(.new 0x100000 1 "a" (sampleSteps 5),quiet),(.new 0x130000 2 "b" (sampleSteps 5),quiet),(.withWeight 0 first,quiet),
    (.withWeight 1 second,quiet),(.spawn 0 0x5000,quiet),(.spawn 0 0x6000,quiet)]

def plainIn (s : Kernel) (x : ℕ) : Bool := (s.heap x).all fun task =>
  (woken (floorBeside s x) task).vruntime == task.vruntime && decide (task.vruntime+slice task.weight ≤ U64_MAX)

theorem plainIn_sound (plain : plainIn s x = true) : Plain s x := by
  intro task here
  unfold plainIn at plain
  rw [here] at plain
  simpa using plain

def taskIn (s : Kernel) (addr weight vruntime : ℕ) : Bool :=
  awakeIn s addr && (s.heap addr).any fun task => task.weight == weight && task.vruntime == vruntime

theorem taskIn_sound (found : taskIn s addr weight vruntime = true) :
    ∃ task, Queued s addr task ∧ Awake s addr ∧ task.weight = weight ∧ task.vruntime = vruntime := by
  obtain ⟨awake,found⟩ := Bool.and_eq_true_iff.mp found
  obtain ⟨member,awake⟩ := awakeIn_sound awake
  obtain ⟨task,here,fields⟩ := (Option.any_eq_true _ _).mp found
  rw [Bool.and_eq_true,beq_iff_eq,beq_iff_eq] at fields
  exact ⟨task,⟨member,here⟩,awake,fields⟩

theorem cfs_lag_sample : ∃ s s' left right left' right', Session (sampleBuild .cfs) Unwrapped s ∧
    Queued s 0x5000 left ∧ Queued s 0x6000 right ∧ Queued s' 0x5000 left' ∧ Queued s' 0x6000 right' ∧
    left.weight = 1024 ∧ right.weight = 2048 ∧ left'.vruntime = 100 ∧ right'.vruntime = 100 ∧
    ∃ ran, s'.stepLog = s.stepLog ++ ran ∧
      ran.count 0x5000*(CFS_BASE_SLICE*1024/left.weight) ≤
        ran.count 0x6000*(CFS_BASE_SLICE*1024/right.weight)+CFS_BASE_SLICE*1024/left.weight ∧
      ran.count 0x6000*(CFS_BASE_SLICE*1024/right.weight) ≤
        ran.count 0x5000*(CFS_BASE_SLICE*1024/left.weight)+CFS_BASE_SLICE*1024/right.weight := by
  let plain (s : Kernel) (_ : Call) (_ : Kernel) : Bool :=
    (awakeIn s 0x5000 && awakeIn s 0x6000) && (plainIn s 0x5000 && plainIn s 0x6000)
  let calls : List (Call × List (List Interrupted)) := [(.scheduleOnce,midStep ++ quiet),(.scheduleOnce,quiet),(.scheduleOnce,quiet)]
  obtain ⟨s,booted,checked⟩ := (Option.any_eq_true _ _).mp (show (List.foldlM (Call.exec (sampleBuild .cfs) unwrappedCheck)
    (Kernel.boot 0 true) (sampleShares 1024 2048)).any (fun s => (taskIn s 0x5000 1024 0 && taskIn s 0x6000 2048 0) &&
      (List.foldlM (Call.counted (sampleBuild .cfs) unwrappedCheck plain) (0,s) calls).any fun r =>
        taskIn r.2 0x5000 1024 100 && taskIn r.2 0x6000 2048 100) = true by decide +kernel)
  simp only [Bool.and_eq_true] at checked
  obtain ⟨⟨first,second⟩,checked⟩ := checked
  obtain ⟨⟨n,s'⟩,counted,after⟩ := (Option.any_eq_true _ _).mp checked
  obtain ⟨first',second'⟩ := Bool.and_eq_true_iff.mp after
  obtain ⟨left,queued,_,weight,zero⟩ := taskIn_sound first
  obtain ⟨right,queued',_,weight',zero'⟩ := taskIn_sound second
  obtain ⟨left',final,_,_,value⟩ := taskIn_sound first'
  obtain ⟨right',final',_,_,value'⟩ := taskIn_sound second'
  have session : Session (sampleBuild .cfs) Unwrapped s := exec_session unwrapped_sound (.boot 0 true) booted
  have run : Run (sampleBuild .cfs) Unwrapped (Plainly 0x5000 0x6000) s n s' := by
    refine counted_run unwrapped_sound ?_ .start counted
    intro s call s' met
    obtain ⟨awake,plain⟩ := Bool.and_eq_true_iff.mp met
    obtain ⟨awake,awake'⟩ := Bool.and_eq_true_iff.mp awake
    obtain ⟨plain,plain'⟩ := Bool.and_eq_true_iff.mp plain
    refine ⟨⟨⟨(awakeIn_sound awake).1,(awakeIn_sound awake').1⟩,fun _ => ⟨(awakeIn_sound awake).2,(awakeIn_sound awake').2⟩⟩,?_⟩
    rintro x (rfl | rfl) _
    · exact plainIn_sound plain
    · exact plainIn_sound plain'
  have lag := cfs_lag session rfl unwrapped_steady (by decide) (run_weaken (fun _ _ _ plainly => plainly.1) run) queued queued'
    final final'
  obtain ⟨_,_,tally⟩ := lag.2 (zero.trans zero'.symm)
  exact ⟨s,s',left,right,left',right',session,queued,queued',final,final',weight,weight',value,value',tally run⟩

end RustyCore.Cfs
