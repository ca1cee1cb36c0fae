import RustyCore.CfsStarvation

namespace RustyCore.Cfs
open InterruptedPrograms Function TurnOrder

-- The task stays for `last` more calls of its step and gives up at the one after them.
def GivesUp (u : Task) (last : ℕ) : Prop := ∀ k ≤ last, (u.step.outcome (u.step.calls+k)).alive = decide (k < last)

structure Advanced (u : Task) (k : ℕ) (t : Task) : Prop where
  id : t.id = u.id
  step : t.step = ⟨u.step.outcome,u.step.calls+k⟩
  weight : t.weight = u.weight
  vruntime : t.vruntime = u.vruntime+k*slice u.weight
  waking : ∀ untilTick, t.state ≠ .sleeping untilTick

def OnTrack (u : Task) (last U : ℕ) (s : Kernel) : Prop := U ∈ s.ready → ∃ k t, k ≤ last ∧ Queued s U t ∧ Advanced u k t

def lastVruntime (u : Task) (last : ℕ) : ℕ := u.vruntime+last*slice u.weight

section finishing
variable {b : Build} {allowed : Kernel → Interrupted → Prop} {s mid s' : Kernel} {A B U x last a c : ℕ} {u task left right : Task}
  {rest : List ℕ}

theorem advanced_start (waking : ∀ untilTick, u.state ≠ .sleeping untilTick) : Advanced u 0 u :=
  ⟨rfl,rfl,rfl,by rw [Nat.zero_mul,Nat.add_zero],waking⟩

theorem advanced_alive (lasts : GivesUp u last) (advanced : Advanced u k t) (early : k ≤ last) :
    (t.step.outcome t.step.calls).alive = decide (k < last) := by
  rw [advanced.step]
  exact lasts k early

theorem advanced_turn (fits : lastVruntime u last ≤ U64_MAX) (advanced : Advanced u k task) (early : k < last)
    (alive : (task.step.outcome task.step.calls).alive = true)
    (vruntime : v = saturatingAdd (woken floor task).vruntime (slice task.weight)) :
    Advanced u (k+1) {stepped task with vruntime := v} := by
  refine ⟨advanced.id,?_,advanced.weight,?_,?_⟩
  · show StepFn.mk task.step.outcome (task.step.calls+1) = _
    rw [advanced.step]
    rfl
  · have room : (k+1)*slice u.weight ≤ last*slice u.weight := Nat.mul_le_mul_right _ early
    have next : (k+1)*slice u.weight = k*slice u.weight+slice u.weight := Nat.succ_mul _ _
    show v = _
    rw [vruntime,woken_waking advanced.waking,advanced.vruntime,advanced.weight]
    unfold saturatingAdd
    unfold lastVruntime at fits
    omega
  · intro untilTick
    show (stepped task).state ≠ _
    rw [(stepped_ready task).mpr alive]
    exact TaskState.noConfusion

theorem called_took (steady : Steady allowed) (once : s.ready.Nodup) (called : Called allowed s found s') :
    Still allowed s s' ∨ ∃ x task rest, Chosen s x task s' ∧ TookTurn s x task rest s' := by
  rcases scheduled_took (show Scheduled .cfs allowed s found s' from called) with ⟨_,still⟩ | ⟨_,x,task,rest,took⟩
  · exact Or.inl still
  · rcases called_chosen steady once called with ⟨_,still⟩ | ⟨y,t,chosen⟩
    · exact Or.inl still
    · cases List.append_cancel_left (took.log.symm.trans chosen.log)
      cases took.here.symm.trans chosen.here
      exact Or.inr ⟨x,task,rest,chosen,took⟩

theorem chosen_stays (chosen : Chosen mid x task s') (other : U ≠ x) : U ∈ s'.ready ↔ U ∈ mid.ready := by
  rcases chosen.after with ⟨_,ready,_⟩ | ⟨ready,_⟩
  · rw [ready,List.mem_append,List.mem_erase_of_ne other,List.mem_singleton]
    exact or_iff_left other
  · rw [ready]
    exact List.mem_erase_of_ne other

theorem track_chosen (lasts : GivesUp u last) (fits : lastVruntime u last ≤ U64_MAX) (once : mid.ready.Nodup)
    (chosen : Chosen mid x task s') (took : TookTurn mid x task rest s') (track : OnTrack u last U mid) : OnTrack u last U s' := by
  intro member
  by_cases own : U = x
  · subst own
    obtain ⟨k,t,early,queued,advanced⟩ := track chosen.member
    cases queued.2.symm.trans took.here
    rcases chosen.after with ⟨t',_,here,_,vruntime⟩ | ⟨gone,_⟩
    · rcases took.verdict with ⟨alive,_,⟨v,after⟩,_⟩ | ⟨_,_,none,_⟩
      · cases here.symm.trans after
        have more : k < last := of_decide_eq_true ((advanced_alive lasts advanced early).symm.trans alive)
        exact ⟨k+1,_,more,⟨member,after⟩,advanced_turn fits advanced more alive vruntime⟩
      · cases here.symm.trans none
    · rw [gone] at member
      exact absurd member once.not_mem_erase
  · obtain ⟨k,t,early,queued,advanced⟩ := track ((chosen_stays chosen own).mp member)
    exact ⟨k,t,early,⟨member,(chosen.others U own).trans queued.2⟩,advanced⟩

theorem track_grown (table : Table allowed mid.ready mid) (grown : Grown allowed [] mid s') (track : OnTrack u last U mid) :
    OnTrack u last U s' := by
  intro member
  have before : U ∈ mid.ready := by
    rw [grown.ready,List.append_nil] at member
    exact member
  obtain ⟨k,t,early,queued,advanced⟩ := track before
  exact ⟨k,t,early,⟨member,(grown_queued table grown before).trans queued.2⟩,advanced⟩

-- Between two queued tasks: both keep to their schedules, `right` is through no later than
-- `left`, and the record of finished tasks has them in this order.
structure Race (s : Kernel) (left right : Task) (a c A B : ℕ) (mid : Kernel) : Prop where
  first : OnTrack left a A mid
  second : OnTrack right c B mid
  alone : ∀ x ∈ mid.ready, ∀ t, mid.heap x = some t → t.id = left.id → x = A
  order : A ∈ mid.ready ∨ B ∉ mid.ready
  rows : ∃ ended, mid.finishedRuns = s.finishedRuns ++ ended ∧ (A ∈ mid.ready → left.id ∉ ended.map (·.1)) ∧
    (B ∉ mid.ready → right.id ∈ ended.map (·.1)) ∧
    (A ∉ mid.ready → left.id ∈ ended.map (·.1) ∧ Ahead right.id left.id (ended.map (·.1)))

theorem race_grown (table : Table allowed mid.ready mid) (grown : Grown allowed [] mid s')
    (race : Race s left right a c A B mid) : Race s left right a c A B s' := by
  have ready : s'.ready = mid.ready := grown.ready.trans (List.append_nil _)
  refine ⟨track_grown table grown race.first,track_grown table grown race.second,?_,?_,?_⟩
  · intro x member t here same
    rw [ready] at member
    rw [grown_queued table grown member] at here
    exact race.alone x member t here same
  · rw [ready]
    exact race.order
  · rw [ready,grown.finished]
    exact race.rows

theorem chosen_rows (once : mid.ready.Nodup) (chosen : Chosen mid x task s') (took : TookTurn mid x task rest s') :
    x ∈ s'.ready ∧ s'.finishedRuns = mid.finishedRuns ∨ x ∉ s'.ready ∧ (task.step.outcome task.step.calls).alive = false ∧
      s'.finishedRuns = mid.finishedRuns ++ [(task.id,task.name,(task.runs+1) % 2^64)] := by
  rcases took.verdict with ⟨_,ready,_,finished⟩ | ⟨ending,_,none,finished⟩
  · refine Or.inl ⟨?_,finished⟩
    rw [ready]
    exact List.mem_append_right _ List.mem_cons_self
  · refine Or.inr ⟨?_,ending,finished⟩
    rcases chosen.after with ⟨t,_,here,_⟩ | ⟨ready,_⟩
    · cases here.symm.trans none
    · rw [ready]
      exact once.not_mem_erase

-- When `left` takes its last turn `right` is through: were it queued, it would be the smaller one.
theorem race_order (lead : lastVruntime right c < lastVruntime left a) (lasts : GivesUp left a) (chosen : Chosen mid A task s')
    (ending : (task.step.outcome task.step.calls).alive = false) (race : Race s left right a c A B mid) : B ∉ mid.ready := by
  intro member
  obtain ⟨k,t,early,own,advanced⟩ := race.first chosen.member
  cases own.2.symm.trans chosen.here
  obtain ⟨j,t',before,other,advanced'⟩ := race.second member
  have final : ¬ k < a := of_decide_eq_false ((advanced_alive lasts advanced early).symm.trans ending)
  have same : k = a := by omega
  have least := (chosen.least B t' member other.2 (asleep_waking advanced'.waking)).1
  have bound : j*slice right.weight ≤ c*slice right.weight := Nat.mul_le_mul_right _ before
  rw [advanced.vruntime,advanced'.vruntime,same] at least
  unfold lastVruntime at lead
  omega

theorem track_id (track : OnTrack u last x mid) (chosen : Chosen mid x task s') : task.id = u.id := by
  obtain ⟨_,t,_,queued,advanced⟩ := track chosen.member
  cases queued.2.symm.trans chosen.here
  exact advanced.id

theorem alone_chosen (chosen : Chosen mid x task s') (took : TookTurn mid x task rest s') (race : Race s left right a c A B mid) :
    ∀ y ∈ s'.ready, ∀ t, s'.heap y = some t → t.id = left.id → y = A := by
  intro y member t here same
  by_cases own : y = x
  · subst own
    rcases took.verdict with ⟨_,_,⟨v,after⟩,_⟩ | ⟨_,_,none,_⟩
    · cases here.symm.trans after
      exact race.alone y chosen.member task chosen.here same
    · cases here.symm.trans none
  · exact race.alone y ((chosen_stays chosen own).mp member) t ((chosen.others y own).symm.trans here) same

theorem race_chosen (apart : A ≠ B) (lasts : GivesUp left a) (lasts' : GivesUp right c) (fits : lastVruntime left a ≤ U64_MAX)
    (lead : lastVruntime right c < lastVruntime left a) (once : mid.ready.Nodup) (chosen : Chosen mid x task s')
    (took : TookTurn mid x task rest s') (race : Race s left right a c A B mid) : Race s left right a c A B s' := by
  have fits' : lastVruntime right c ≤ U64_MAX := Nat.le_of_lt (Nat.lt_of_lt_of_le lead fits)
  have first := track_chosen lasts fits once chosen took race.first
  have second := track_chosen lasts' fits' once chosen took race.second
  have alone := alone_chosen chosen took race
  obtain ⟨ended,runs,absent,through,behind⟩ := race.rows
  rcases chosen_rows once chosen took with ⟨stays,finished⟩ | ⟨leaves,ending,finished⟩
  · have same : ∀ U, U ∈ s'.ready ↔ U ∈ mid.ready := by
      intro U
      by_cases own : U = x
      · subst own
        exact iff_of_true stays chosen.member
      · exact chosen_stays chosen own
    refine ⟨first,second,alone,?_,ended,finished.trans runs,?_⟩
    · rw [same,same]
      exact race.order
    · rw [same,same]
      exact ⟨absent,through,behind⟩
  · have more : s'.finishedRuns = s.finishedRuns ++ (ended ++ [(task.id,task.name,(task.runs+1) % 2^64)]) := by
      rw [finished,runs,List.append_assoc]
    by_cases own : x = A
    · subst own
      have gone := race_order lead lasts chosen ending race
      have other : B ∉ s'.ready := fun member => gone ((chosen_stays chosen apart.symm).mp member)
      have id := track_id race.first chosen
      refine ⟨first,second,alone,Or.inr other,_,more,fun member => absurd member leaves,?_,?_⟩
      all_goals
        intro _
        rw [List.map_append,List.map_singleton,id]
      · exact List.mem_append_left _ (through gone)
      · exact ⟨List.mem_append_right _ List.mem_cons_self,ahead_append (ahead_absent (through gone) (absent chosen.member)) _⟩
    · have different : left.id ≠ task.id := fun same => own (race.alone x chosen.member task chosen.here same.symm)
      have stays := chosen_stays chosen (Ne.symm own)
      refine ⟨first,second,alone,?_,_,more,?_,?_,?_⟩
      · rw [stays]
        refine race.order.imp_right ?_
        intro gone member
        have unlike : B ≠ x := fun same => gone (same ▸ chosen.member)
        exact gone ((chosen_stays chosen unlike).mp member)
      all_goals rw [List.map_append,List.map_singleton]
      · intro member
        rw [List.mem_append,List.mem_singleton]
        exact not_or.mpr ⟨absent (stays.mp member),different⟩
      · intro gone
        by_cases own' : B = x
        · subst own'
          rw [track_id race.second chosen]
          exact List.mem_append_right _ List.mem_cons_self
        · exact List.mem_append_left _ (through fun member => gone ((chosen_stays chosen own').mpr member))
      · intro gone
        obtain ⟨member,order⟩ := behind fun member => gone (stays.mpr member)
        exact ⟨List.mem_append_left _ member,ahead_append order _⟩

theorem race_run (session : Session b allowed s) (policy : b.policy = .cfs) (steady : Steady allowed) (run : Run b allowed NoSpawn s n s')
    (apart : A ≠ B) (lasts : GivesUp left a) (lasts' : GivesUp right c) (fits : lastVruntime left a ≤ U64_MAX)
    (lead : lastVruntime right c < lastVruntime left a) (race : Race s left right a c A B s) : Race s left right a c A B s' := by
  refine (run_keeps (I:=fun _ => Race s left right a c A B) session run race ?_ ?_).2
  · intro n mid event fresh s' before race met _ grown spawned
    rcases spawned with rfl | ⟨i,addr,spawn⟩
    · exact race_grown (session_parts before).2 grown race
    · exact absurd spawn (met i addr)
  · intro n mid found s' before race _ scheduled
    obtain ⟨boot,table⟩ := session_parts before
    rw [policy] at scheduled
    rcases called_took steady table.once scheduled with still | ⟨x,task,rest,chosen,took⟩
    · exact race_grown table (still_grown boot table still) race
    · exact race_chosen apart lasts lasts' fits lead table.once chosen took race

theorem race_start (first : Queued s A left) (second : Queued s B right) (waking : ∀ untilTick, left.state ≠ .sleeping untilTick)
    (waking' : ∀ untilTick, right.state ≠ .sleeping untilTick)
    (alone : ∀ x ∈ s.ready, ∀ t, s.heap x = some t → t.id = left.id → x = A) : Race s left right a c A B s :=
  ⟨fun _ => ⟨0,left,Nat.zero_le _,first,advanced_start waking⟩,fun _ => ⟨0,right,Nat.zero_le _,second,advanced_start waking'⟩,alone,
    Or.inl first.1,[],(List.append_nil _).symm,fun _ => List.not_mem_nil,fun gone => absurd second.1 gone,fun gone => absurd first.1 gone⟩

theorem cfs_finishing_order (session : Session b allowed s) (policy : b.policy = .cfs) (steady : Steady allowed)
    (first : Queued s A left) (second : Queued s B right) (waking : ∀ untilTick, left.state ≠ .sleeping untilTick)
    (waking' : ∀ untilTick, right.state ≠ .sleeping untilTick)
    (alone : ∀ x ∈ s.ready, ∀ t, s.heap x = some t → t.id = left.id → x = A) (lasts : GivesUp left a) (lasts' : GivesUp right c)
    (fits : lastVruntime left a ≤ U64_MAX) (lead : lastVruntime right c < lastVruntime left a) (run : Run b allowed NoSpawn s n s') :
    (A ∈ s'.ready ∨ B ∉ s'.ready) ∧ ∃ ended, s'.finishedRuns = s.finishedRuns ++ ended ∧
      (A ∉ s'.ready → left.id ∈ ended.map (·.1) ∧ Ahead right.id left.id (ended.map (·.1))) := by
  have apart : A ≠ B := by
    rintro rfl
    cases first.2.symm.trans second.2
    have sooner : c < a := by
      by_contra later
      have bound : a*slice left.weight ≤ c*slice left.weight := Nat.mul_le_mul_right _ (Nat.le_of_not_lt later)
      unfold lastVruntime at lead
      omega
    have verdict := (lasts' c (Nat.le_refl c)).symm.trans (lasts c (Nat.le_of_lt sooner))
    simp [sooner] at verdict
  have race := race_run session policy steady run apart lasts lasts' fits lead (race_start first second waking waking' alone)
  obtain ⟨ended,runs,_,_,behind⟩ := race.rows
  exact ⟨race.order,ended,runs,behind⟩

end finishing

def runnerIn (s : Kernel) (addr id weight last : ℕ) : Bool := s.ready.contains addr && (s.heap addr).any fun task =>
  (task.id == id && task.weight == weight) && (task.vruntime == 0 && task.state == .ready) &&
    (task.step.calls == 0 && (List.range (last+1)).all fun k => (task.step.outcome k).alive == decide (k < last))

theorem runnerIn_sound {id : ℕ} (found : runnerIn s addr id weight last = true) : ∃ task, Queued s addr task ∧ task.id = id ∧
    task.state = .ready ∧ GivesUp task last ∧ lastVruntime task last = last*slice weight := by
  simp only [runnerIn,Bool.and_eq_true,List.contains_iff_mem] at found
  obtain ⟨member,found⟩ := found
  obtain ⟨task,here,fields⟩ := (Option.any_eq_true _ _).mp found
  simp only [Bool.and_eq_true,beq_iff_eq,List.all_eq_true,List.mem_range] at fields
  obtain ⟨⟨⟨same,weight⟩,zero,ready⟩,calls,verdicts⟩ := fields
  refine ⟨task,⟨member,here⟩,same,ready,?_,?_⟩
  · intro k early
    rw [calls,Nat.zero_add]
    exact verdicts k (Nat.lt_succ_of_le early)
  · unfold lastVruntime
    rw [zero,weight,Nat.zero_add]

theorem cfs_finishing_order_sample : ∃ s s' ended, Session (sampleBuild .cfs) Unwrapped s ∧ s.ready = [0x5000,0x6000] ∧
    Run (sampleBuild .cfs) Unwrapped NoSpawn s 12 s' ∧ s'.ready = [] ∧ s'.finishedRuns = s.finishedRuns ++ ended ∧
    1 ∈ ended.map (·.1) ∧ Ahead 2 1 (ended.map (·.1)) := by
  obtain ⟨s,booted,checked⟩ := (Option.any_eq_true _ _).mp (show (List.foldlM (Call.exec (sampleBuild .cfs) unwrappedCheck)
    (Kernel.boot 0 true) (sampleShares 1024 2048)).any (fun s => (s.ready == [0x5000,0x6000] &&
      (runnerIn s 0x5000 1 1024 5 && runnerIn s 0x6000 2 2048 5)) &&
      (List.foldlM (Call.counted (sampleBuild .cfs) unwrappedCheck noSpawn) (0,s)
        ((.scheduleOnce,midStep ++ quiet) :: List.replicate 11 (.scheduleOnce,quiet))).any fun r => r.1 == 12 && r.2.ready == []) = true by
      decide +kernel)
  simp only [Bool.and_eq_true,beq_iff_eq] at checked
  obtain ⟨⟨ready,found,found'⟩,checked⟩ := checked
  obtain ⟨⟨n,s'⟩,counted,after⟩ := (Option.any_eq_true _ _).mp checked
  simp only [Bool.and_eq_true,beq_iff_eq] at after
  obtain ⟨rfl,empty⟩ := after
  obtain ⟨left,first,id,waking,lasts,final⟩ := runnerIn_sound found
  obtain ⟨right,second,id',waking',lasts',final'⟩ := runnerIn_sound found'
  have session : Session (sampleBuild .cfs) Unwrapped s := exec_session unwrapped_sound (.boot 0 true) booted
  have run : Run (sampleBuild .cfs) Unwrapped NoSpawn s 12 s' := counted_run unwrapped_sound noSpawn_sound .start counted
  have alone : ∀ x ∈ s.ready, ∀ t, s.heap x = some t → t.id = left.id → x = 0x5000 := by
    intro x member t here same
    rw [ready,List.mem_cons,List.mem_singleton] at member
    rcases member with own | rfl
    · exact own
    · cases here.symm.trans second.2
      rw [id,id'] at same
      cases same
  obtain ⟨_,ended,runs,behind⟩ := cfs_finishing_order session rfl unwrapped_steady first second
    (fun untilTick sleeps => by cases waking.symm.trans sleeps) (fun untilTick sleeps => by cases waking'.symm.trans sleeps) alone
    lasts lasts' (by rw [final]; decide) (by rw [final,final']; decide) run
  rw [id,id'] at behind
  exact ⟨s,s',ended,session,ready,run,empty,runs,behind (by rw [empty]; exact List.not_mem_nil)⟩

end RustyCore.Cfs
