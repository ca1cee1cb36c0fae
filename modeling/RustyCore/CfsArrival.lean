import RustyCore.TurnOrder
import RustyCore.CfsFairness

namespace RustyCore.Cfs
open InterruptedPrograms Function TurnOrder

def Next (q : List ℕ) (A B : ℕ) (left right : Task) : Prop :=
  left.vruntime < right.vruntime ∨ left.vruntime = right.vruntime ∧ Ahead A B q

theorem next_asymm (next : Next q A B left right) : ¬ Next q B A right left := by
  unfold Next Ahead at *
  omega

structure Balanced (weight A B : ℕ) (ran q : List ℕ) (left right : Task) : Prop where
  first : left.weight = weight
  second : right.weight = weight
  near : left.vruntime ≤ right.vruntime+slice weight
  near' : right.vruntime ≤ left.vruntime+slice weight
  turns : ran.count A = ran.count B ∨ ran.count A = ran.count B+1 ∧ Next q B A right left ∨
    ran.count B = ran.count A+1 ∧ Next q A B left right

def Close (A B : ℕ) (ran : List ℕ) : Prop := ran.count A ≤ ran.count B+1 ∧ ran.count B ≤ ran.count A+1

section arrival
variable {b : Build} {allowed : Kernel → Interrupted → Prop} {s s' : Kernel} {A B x weight : ℕ} {q q' ran : List ℕ}
  {left right left' right' task : Task}

theorem balanced_symm (balanced : Balanced weight A B ran q left right) : Balanced weight B A ran q right left := by
  obtain ⟨first,second,near,near',turns⟩ := balanced
  exact ⟨second,first,near',near,turns.imp Eq.symm Or.symm⟩

theorem balanced_close (balanced : Balanced weight A B ran q left right) : Close A B ran := by
  obtain ⟨_,_,_,_,turns⟩ := balanced
  unfold Close
  omega

theorem count_other (other : x ≠ A) : (ran ++ [x]).count A = ran.count A := by
  rw [List.count_append,List.count_singleton,beq_eq_false_iff_ne.mpr other]
  rfl

theorem count_own : (ran ++ [x]).count x = ran.count x+1 := by
  rw [List.count_append,List.count_singleton_self]

theorem balanced_kept (balanced : Balanced weight A B ran q left right)
    (order : ∀ a c, (a = A ∧ c = B) ∨ (a = B ∧ c = A) → Ahead a c q → Ahead a c q') :
    Balanced weight A B ran q' left right := by
  obtain ⟨first,second,near,near',turns⟩ := balanced
  refine ⟨first,second,near,near',?_⟩
  rcases turns with even | ⟨more,next⟩ | ⟨more,next⟩
  · exact Or.inl even
  · exact Or.inr (Or.inl ⟨more,next.imp_right fun tie => ⟨tie.1,order B A (Or.inr ⟨rfl,rfl⟩) tie.2⟩⟩)
  · exact Or.inr (Or.inr ⟨more,next.imp_right fun tie => ⟨tie.1,order A B (Or.inl ⟨rfl,rfl⟩) tie.2⟩⟩)

theorem chosen_next (chosen : Chosen s x task s') (queued : Queued s B right) (awake : Awake s B) (other : B ≠ x) :
    Next s.ready x B task right := by
  obtain ⟨t,found,wakes⟩ := awake
  cases queued.2.symm.trans found
  obtain ⟨below,first⟩ := chosen.least B right queued.1 queued.2 wakes
  rcases Nat.lt_or_eq_of_le below with less | tie
  · exact Or.inl less
  · refine Or.inr ⟨tie,?_⟩
    rcases ahead_total other queued.1 with ahead | ahead
    · exact absurd ahead (Nat.not_lt.mpr (first tie))
    · exact ahead

-- The turn of the one that is next: it goes behind the other, in vruntime or in the queue.
theorem balanced_own (once : s.ready.Nodup) (fine : right.vruntime ≤ U64_MAX) (chosen : Chosen s A left s') (other : B ≠ A)
    (queued : Queued s B right) (awake : Awake s B) (balanced : Balanced weight A B ran s.ready left right) :
    Close A B (ran ++ [A]) ∧ ∀ left', Queued s' A left' → Balanced weight A B (ran ++ [A]) s'.ready left' right := by
  have next := chosen_next chosen queued awake other
  obtain ⟨first,second,near,near',turns⟩ := balanced
  have fair : ran.count A = ran.count B ∨ ran.count B = ran.count A+1 := by
    rcases turns with even | ⟨_,waits⟩ | ⟨more,_⟩
    · exact Or.inl even
    · exact absurd waits (next_asymm next)
    · exact Or.inr more
  have counts : (ran ++ [A]).count A = ran.count A+1 ∧ (ran ++ [A]).count B = ran.count B :=
    ⟨count_own,count_other (Ne.symm other)⟩
  refine ⟨by unfold Close; omega,?_⟩
  intro left' after
  have moved := chosen_ran chosen queued awake other after.2
  have raised := woken_grows (floorBeside s A) left
  have value := moved.vruntime
  have below := moved.below
  rw [first] at value
  unfold saturatingAdd at value
  have back : Ahead B A s'.ready := by
    rcases chosen.after with ⟨_,ready,_⟩ | ⟨_,gone⟩
    · rw [ready]
      exact ahead_back once queued.1 other
    · cases gone.symm.trans after.2
  refine ⟨moved.weight.trans first,second,by omega,by omega,?_⟩
  rcases fair with even | more
  · refine Or.inr (Or.inl ⟨by omega,?_⟩)
    rcases Nat.lt_or_eq_of_le (show right.vruntime ≤ left'.vruntime by omega) with less | tie
    · exact Or.inl less
    · exact Or.inr ⟨tie,back⟩
  · exact Or.inl (by omega)

theorem chosen_order (chosen : Chosen s x task s') (first : A ≠ x) (second : B ≠ x) (ahead : Ahead A B s.ready) :
    Ahead A B s'.ready := by
  rcases chosen.after with ⟨_,ready,_⟩ | ⟨ready,_⟩
  · rw [ready]
    exact ahead_append (ahead_erase ahead first second) [x]
  · rw [ready]
    exact ahead_erase ahead first second

def Sharing (s : Kernel) (weight A B : ℕ) (mid : Kernel) : Prop :=
  ∃ ran, mid.stepLog = s.stepLog ++ ran ∧ Close A B ran ∧
    ∀ a c, Queued mid A a → Queued mid B c → Balanced weight A B ran mid.ready a c

theorem balanced_other (chosen : Chosen s x task s') (own : x ≠ A) (own' : x ≠ B)
    (balanced : Balanced weight A B ran s.ready left right) :
    Close A B (ran ++ [x]) ∧ Balanced weight A B (ran ++ [x]) s'.ready left right := by
  have counts : (ran ++ [x]).count A = ran.count A ∧ (ran ++ [x]).count B = ran.count B := ⟨count_other own,count_other own'⟩
  have close := balanced_close balanced
  unfold Close at close ⊢
  refine ⟨by omega,?_⟩
  have kept : Balanced weight A B ran s'.ready left right := by
    refine balanced_kept balanced ?_
    rintro _ _ (⟨rfl,rfl⟩ | ⟨rfl,rfl⟩) ahead
    · exact chosen_order chosen (Ne.symm own) (Ne.symm own') ahead
    · exact chosen_order chosen (Ne.symm own') (Ne.symm own) ahead
  obtain ⟨first,second,near,near',turns⟩ := kept
  rw [← counts.1,← counts.2] at turns
  exact ⟨first,second,near,near',turns⟩

theorem sharing_chosen (once : s'.ready.Nodup) (fine : Books s') (different : A ≠ B) (first : Queued s' A left)
    (second : Queued s' B right) (awake : Awake s' A) (awake' : Awake s' B) (chosen : Chosen s' x task s'')
    (sharing : Sharing s weight A B s') : Sharing s weight A B s'' := by
  obtain ⟨ran,log,_,balanced⟩ := sharing
  have balanced := balanced left right first second
  refine ⟨ran ++ [x],by rw [chosen.log,log,List.append_assoc],?_⟩
  by_cases own : x = A
  · subst own
    cases chosen.here.symm.trans first.2
    have bound := (fine.queued B second.1 right second.2).vruntime
    obtain ⟨close,after⟩ := balanced_own once bound chosen (Ne.symm different) second awake' balanced
    refine ⟨close,?_⟩
    intro a c queued queued'
    obtain rfl := chosen_apart chosen different second queued'
    exact after a queued
  by_cases own' : x = B
  · subst own'
    cases chosen.here.symm.trans second.2
    have bound := (fine.queued A first.1 left first.2).vruntime
    obtain ⟨close,after⟩ := balanced_own once bound chosen different first awake (balanced_symm balanced)
    refine ⟨⟨close.2,close.1⟩,?_⟩
    intro a c queued queued'
    obtain rfl := chosen_apart chosen own first queued
    exact balanced_symm (after c queued')
  · obtain ⟨close,after⟩ := balanced_other chosen own own' balanced
    refine ⟨close,?_⟩
    intro a c queued queued'
    obtain rfl := chosen_apart chosen own first queued
    obtain rfl := chosen_apart chosen own' second queued'
    exact after

theorem sharing_grown (table : Table allowed s'.ready s') (grown : Grown allowed fresh s' s'') (first : A ∈ s'.ready)
    (second : B ∈ s'.ready) (sharing : Sharing s weight A B s') : Sharing s weight A B s'' := by
  obtain ⟨ran,log,close,balanced⟩ := sharing
  refine ⟨ran,grown.log.trans log,close,?_⟩
  intro a c queued queued'
  have here := queued.2
  rw [grown_queued table grown first] at here
  have here' := queued'.2
  rw [grown_queued table grown second] at here'
  refine balanced_kept (balanced a c ⟨first,here⟩ ⟨second,here'⟩) ?_
  intro a c _ ahead
  rw [grown.ready]
  exact ahead_append ahead fresh

-- Two tasks of one weight whose vruntimes are within one slice when an interval starts get
-- the same number of runs in it, but for one; whoever else comes and goes.
theorem cfs_equal_shares (session : Session b allowed s) (policy : b.policy = .cfs) (steady : Steady allowed)
    (different : A ≠ B) (run : Run b allowed (Beside A B) s n s') (first : Queued s A left) (second : Queued s B right)
    (equal : left.weight = right.weight)
    (near : left.vruntime ≤ right.vruntime+CFS_BASE_SLICE*1024/left.weight)
    (near' : right.vruntime ≤ left.vruntime+CFS_BASE_SLICE*1024/left.weight) :
    ∃ ran, s'.stepLog = s.stepLog ++ ran ∧ ran.count A ≤ ran.count B+1 ∧ ran.count B ≤ ran.count A+1 := by
  have books := session_books policy steady session
  rw [← slice_positive (books.queued A first.1 left first.2).weight] at near near'
  have kept := run_keeps (I:=fun _ mid => Sharing s left.weight A B mid) session run
    (by
      refine ⟨[],(List.append_nil _).symm,⟨Nat.zero_le _,Nat.zero_le _⟩,?_⟩
      intro a c queued queued'
      cases first.2.symm.trans queued.2
      cases second.2.symm.trans queued'.2
      exact ⟨rfl,equal.symm,near,near',Or.inl rfl⟩)
    (by
      intro n mid event fresh s' before sharing beside _ grown _
      exact sharing_grown (session_parts before).2 grown beside.1.1 beside.1.2 sharing)
    (by
      intro n mid found s' before sharing beside scheduled
      obtain ⟨⟨member,member'⟩,awake⟩ := beside
      obtain ⟨awake,awake'⟩ := awake rfl
      have table := (session_parts before).2
      obtain ⟨a,here,_⟩ := table.boxed A member
      obtain ⟨c,here',_⟩ := table.boxed B member'
      rw [policy] at scheduled
      rcases called_chosen steady table.once scheduled with ⟨asleep,_⟩ | ⟨x,task,chosen⟩
      · exact absurd awake (asleep A member)
      · exact sharing_chosen table.once (session_books policy steady before) different ⟨member,here⟩ ⟨member',here'⟩ awake
          awake' chosen sharing)
  obtain ⟨ran,log,close,_⟩ := kept.2
  exact ⟨ran,log,close⟩

end arrival

def besideIn (A B : ℕ) (s : Kernel) (_ : Call) (_ : Kernel) : Bool := awakeIn s A && awakeIn s B

theorem besideIn_sound (s : Kernel) (call : Call) (s' : Kernel) (met : besideIn A B s call s' = true) :
    Beside A B s (.call call) s' := by
  obtain ⟨first,second⟩ := Bool.and_eq_true_iff.mp met
  have left := awakeIn_sound first
  have right := awakeIn_sound second
  exact ⟨⟨left.1,right.1⟩,fun _ => ⟨left.2,right.2⟩⟩

theorem cfs_equal_shares_sample : ∃ s s' left right, Session (sampleBuild .cfs) Unwrapped s ∧ Queued s 0x5000 left ∧
    Queued s 0x6000 right ∧ left.weight = 2048 ∧ right.weight = 2048 ∧
    Run (sampleBuild .cfs) Unwrapped (Beside 0x5000 0x6000) s 3 s' ∧
    ∃ ran, s'.stepLog = s.stepLog ++ ran ∧ ran.count 0x5000 ≤ ran.count 0x6000+1 ∧
      ran.count 0x6000 ≤ ran.count 0x5000+1 := by
  obtain ⟨s,booted,checked⟩ := (Option.any_eq_true _ _).mp (show (List.foldlM (Call.exec (sampleBuild .cfs) unwrappedCheck)
    (Kernel.boot 0 true) (sampleShares 2048 2048)).any (fun s => (taskIn s 0x5000 2048 0 && taskIn s 0x6000 2048 0) &&
      (List.foldlM (Call.counted (sampleBuild .cfs) unwrappedCheck (besideIn 0x5000 0x6000)) (0,s)
        (List.replicate 3 (.scheduleOnce,quiet))).any fun r => r.1 == 3) = true by decide +kernel)
  simp only [Bool.and_eq_true] at checked
  obtain ⟨⟨first,second⟩,checked⟩ := checked
  obtain ⟨⟨n,s'⟩,counted,calls⟩ := (Option.any_eq_true _ _).mp checked
  cases beq_iff_eq.mp calls
  obtain ⟨left,queued,_,weight,zero⟩ := taskIn_sound first
  obtain ⟨right,queued',_,weight',zero'⟩ := taskIn_sound second
  have session : Session (sampleBuild .cfs) Unwrapped s := exec_session unwrapped_sound (.boot 0 true) booted
  have run := counted_run unwrapped_sound besideIn_sound (.start (s:=s)) counted
  exact ⟨s,s',left,right,session,queued,queued',weight,weight',run,
    cfs_equal_shares session rfl unwrapped_steady (by decide) run queued queued' (weight.trans weight'.symm)
      (by rw [zero]; exact Nat.zero_le _) (by rw [zero']; exact Nat.zero_le _)⟩

def lateArrival : List (Call × List (List Interrupted)) :=
  [(.new 0x100000 1 "a" (sampleSteps 5),quiet),(.spawn 0 0x5000,quiet),(.scheduleOnce,quiet),(.scheduleOnce,quiet),
    (.new 0x130000 2 "b" (sampleSteps 5),quiet),(.spawn 0 0x6000,quiet)]

-- The newcomer starts at vruntime zero, so it gets every turn until it has caught up.
theorem cfs_late_arrival_unfair : ∃ s s' left right, Session (sampleBuild .cfs) Unwrapped s ∧ s.ready = [0x5000,0x6000] ∧
    Queued s 0x5000 left ∧ Queued s 0x6000 right ∧ left.weight = right.weight ∧
    Run (sampleBuild .cfs) Unwrapped (Beside 0x5000 0x6000) s 2 s' ∧
    ∃ ran, s'.stepLog = s.stepLog ++ ran ∧ ran.count 0x5000 = 0 ∧ ran.count 0x6000 = 2 := by
  obtain ⟨s,booted,checked⟩ := (Option.any_eq_true _ _).mp (show (List.foldlM (Call.exec (sampleBuild .cfs) unwrappedCheck)
    (Kernel.boot 0 true) lateArrival).any (fun s => (taskIn s 0x5000 1024 200 && taskIn s 0x6000 1024 0) &&
      decide (s.ready = [0x5000,0x6000]) &&
      (List.foldlM (Call.counted (sampleBuild .cfs) unwrappedCheck (besideIn 0x5000 0x6000)) (0,s)
        (List.replicate 2 (.scheduleOnce,quiet))).any fun r =>
          r.1 == 2 && r.2.stepLog == s.stepLog ++ [0x6000,0x6000]) = true by decide +kernel)
  simp only [Bool.and_eq_true,decide_eq_true_eq] at checked
  obtain ⟨⟨⟨first,second⟩,ready⟩,checked⟩ := checked
  obtain ⟨⟨n,s'⟩,counted,after⟩ := (Option.any_eq_true _ _).mp checked
  rw [Bool.and_eq_true,beq_iff_eq,beq_iff_eq] at after
  obtain ⟨rfl,log⟩ := after
  obtain ⟨left,queued,_,weight,_⟩ := taskIn_sound first
  obtain ⟨right,queued',_,weight',_⟩ := taskIn_sound second
  have session : Session (sampleBuild .cfs) Unwrapped s := exec_session unwrapped_sound (.boot 0 true) booted
  have run := counted_run unwrapped_sound besideIn_sound (.start (s:=s)) counted
  exact ⟨s,s',left,right,session,ready,queued,queued',weight.trans weight'.symm,run,[0x6000,0x6000],log,by decide,by decide⟩

end RustyCore.Cfs
