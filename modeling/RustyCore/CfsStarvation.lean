import RustyCore.CfsFairness
import RustyCore.TurnOrder

namespace RustyCore.Cfs
open InterruptedPrograms Function TurnOrder

def headroom (s : Kernel) (v addr : ℕ) : ℕ :=
  match s.heap addr with
  | some task => v-task.vruntime
  | none => 0

theorem headroom_task (v : ℕ) (here : s.heap addr = some task) : headroom s v addr = v-task.vruntime := by
  unfold headroom
  rw [here]

def Light (task : Task) : Prop := task.weight ≤ CFS_BASE_SLICE*1024

def NoSpawn (_ : Kernel) (event : Event) (_ : Kernel) : Prop := ∀ i addr, event ≠ .call (.spawn i addr)

section waiting
variable {b : Build} {allowed : Kernel → Interrupted → Prop} {s mid s' : Kernel} {U x : ℕ} {u task : Task}

theorem slice_light (positive : 0 < task.weight) (light : Light task) : 0 < slice task.weight := by
  rw [slice_positive positive]
  exact Nat.div_pos light positive

theorem chosen_accrues (fine : Accounted task) (light : Light task) (chosen : Chosen s x task s') (after : s'.heap x = some task') :
    task.vruntime ≤ task'.vruntime ∧ (task.vruntime < task'.vruntime ∨ task.vruntime = U64_MAX) := by
  have slice := slice_light fine.weight light
  have raised := woken_grows (floorBeside s x) task
  have most := fine.vruntime
  rcases chosen.after with ⟨t,_,here,_,vruntime⟩ | ⟨_,gone⟩
  · cases after.symm.trans here
    rw [vruntime]
    unfold saturatingAdd
    omega
  · cases after.symm.trans gone

-- The chosen task gives up room below `U`, or, tied with it, its place ahead of `U`.
theorem chosen_pays (once : s.ready.Nodup) (books : Books s) (light : Light task) (chosen : Chosen s x task s')
    (queued : Queued s U u) (awake : Awake s U) (other : U ≠ x) :
    backlog (headroom s' u.vruntime) U s'.ready+1 ≤ backlog (headroom s u.vruntime) U s.ready := by
  obtain ⟨t,found,wakes⟩ := awake
  cases queued.2.symm.trans found
  obtain ⟨below,tied⟩ := chosen.least U u queued.1 queued.2 wakes
  have fine := books.queued x chosen.member task chosen.here
  have most := (books.queued U queued.1 u queued.2).vruntime
  have room := headroom_task u.vruntime chosen.here
  have ahead : task.vruntime = u.vruntime → s.ready.idxOf x < s.ready.idxOf U := by
    intro equal
    refine Nat.lt_of_le_of_ne (tied equal) ?_
    intro same
    exact other ((List.idxOf_inj chosen.member).mp same).symm
  have same : ∀ a ∈ s.ready, a ≠ x → headroom s' u.vruntime a = headroom s u.vruntime a := by
    intro a _ different
    unfold headroom
    rw [chosen.others a different]
  rcases chosen.after with ⟨t',ready,here,_,_⟩ | ⟨ready,_⟩
  · rw [ready]
    refine backlog_turn once chosen.member queued.1 other same ?_
    obtain ⟨grows,strict⟩ := chosen_accrues fine light chosen here
    rw [List.map_singleton,List.sum_singleton,headroom_task _ here,room]
    by_cases equal : task.vruntime = u.vruntime
    · rw [if_pos (ahead equal)]
      omega
    · omega
  · rw [ready,← List.append_nil (s.ready.erase x)]
    refine backlog_turn once chosen.member queued.1 other same ?_
    rw [List.map_nil,List.sum_nil,room]
    by_cases equal : task.vruntime = u.vruntime
    · rw [if_pos (ahead equal)]
      omega
    · omega

-- `U` has run since `s`, or it is still awake in the queue and every call has used up one
-- unit of the backlog.
def Starving (s : Kernel) (U : ℕ) (u : Task) (n : ℕ) (mid : Kernel) : Prop :=
  ∃ ran, mid.stepLog = s.stepLog ++ ran ∧ (U ∈ ran ∨ Queued mid U u ∧ Awake mid U ∧
    (∀ a ∈ mid.ready, ∀ task, mid.heap a = some task → Light task) ∧
    backlog (headroom mid u.vruntime) U mid.ready+n ≤ backlog (headroom s u.vruntime) U s.ready)

theorem starving_grown (steady : Steady allowed) (table : Table allowed mid.ready mid) (grown : Grown allowed [] mid s')
    (starving : Starving s U u n mid) : Starving s U u n s' := by
  obtain ⟨ran,log,served | ⟨queued,awake,light,left⟩⟩ := starving
  · exact ⟨ran,grown.log.trans log,Or.inl served⟩
  have ready : s'.ready = mid.ready := grown.ready.trans (List.append_nil _)
  have heap : ∀ a ∈ mid.ready, s'.heap a = mid.heap a := fun a member => grown_queued table grown member
  refine ⟨ran,grown.log.trans log,Or.inr ⟨⟨?_,?_⟩,awake_grown steady grown awake,?_,?_⟩⟩
  · rw [ready]
    exact queued.1
  · rw [heap U queued.1]
    exact queued.2
  · exact grown_each table grown light
  · have same : mid.ready.map (headroom s' u.vruntime) = mid.ready.map (headroom mid u.vruntime) := by
      apply List.map_congr_left
      intro a member
      unfold headroom
      rw [heap a member]
    unfold backlog at left ⊢
    rw [ready,same]
    exact left

theorem starving_chosen (later : mid.apicTicks ≤ s'.apicTicks) (once : mid.ready.Nodup) (books : Books mid)
    (chosen : Chosen mid x task s') (starving : Starving s U u n mid) : Starving s U u (n+1) s' := by
  obtain ⟨ran,log,starving⟩ := starving
  refine ⟨ran ++ [x],by rw [chosen.log,log,List.append_assoc],?_⟩
  rcases starving with served | ⟨queued,awake,light,left⟩
  · exact Or.inl (List.mem_append_left _ served)
  by_cases own : U = x
  · exact Or.inl (List.mem_append_right _ (List.mem_singleton.mpr own))
  have weight := light x chosen.member task chosen.here
  have heap := chosen.others U own
  have stays : U ∈ s'.ready := by
    have kept : U ∈ mid.ready.erase x := (List.mem_erase_of_ne own).mpr queued.1
    rcases chosen.after with ⟨_,ready,_⟩ | ⟨ready,_⟩
    · rw [ready]
      exact List.mem_append_left _ kept
    · rw [ready]
      exact kept
  have pays := chosen_pays once books weight chosen queued awake own
  refine Or.inr ⟨⟨stays,heap.trans queued.2⟩,awake_later awake heap later,chosen_each chosen light ?_,by omega⟩
  intro t same _
  unfold Light
  rw [same]
  exact weight

theorem cfs_no_starvation (session : Session b allowed s) (policy : b.policy = .cfs) (steady : Steady allowed)
    (light : ∀ a ∈ s.ready, ∀ task, s.heap a = some task → task.weight ≤ CFS_BASE_SLICE*1024) :
    (∀ U u n s', Queued s U u → Awake s U → Run b allowed NoSpawn s n s' →
      1+((s.ready.erase U).map fun a => headroom s u.vruntime a+1).sum ≤ n → ∃ ran, s'.stepLog = s.stepLog ++ ran ∧ U ∈ ran) ∧
    ∀ s' x task task', Happens b allowed s (.call .scheduleOnce) s' → s'.stepLog = s.stepLog ++ [x] →
      s.heap x = some task → s'.heap x = some task' → task.vruntime < task'.vruntime ∨ task.vruntime = U64_MAX := by
  constructor
  · intro U u n s' queued awake run enough
    have kept := run_keeps (I:=Starving s U u) session run
      ⟨[],(List.append_nil _).symm,Or.inr ⟨queued,awake,light,Nat.le_refl _⟩⟩
      (by
        intro n mid event fresh s' before starving met _ grown spawned
        rcases spawned with rfl | ⟨i,addr,spawn⟩
        · exact starving_grown steady (session_parts before).2 grown starving
        · exact absurd spawn (met i addr))
      (by
        intro n mid found s' before starving _ scheduled
        obtain ⟨boot,table⟩ := session_parts before
        have later := (scheduled_parts boot table scheduled).2.2 steady
        rw [policy] at scheduled
        rcases called_chosen steady table.once scheduled with ⟨asleep,still⟩ | ⟨x,task,chosen⟩
        · obtain ⟨ran,log,served | ⟨queued,awake,_,_⟩⟩ := starving
          · obtain ⟨ticks,_,rfl⟩ := still
            exact ⟨ran,log,Or.inl served⟩
          · exact absurd awake (asleep U queued.1)
        · exact starving_chosen later table.once (session_books policy steady before) chosen starving)
    obtain ⟨_,ran,log,served | ⟨_,_,_,left⟩⟩ := kept
    · exact ⟨ran,log,served⟩
    · have own : headroom s u.vruntime U = 0 := by rw [headroom_task _ queued.2,Nat.sub_self]
      have bound := backlog_bound queued.1 own
      omega
  · intro s' x task task' happens log here after
    obtain ⟨boot,table⟩ := session_parts session
    obtain ⟨found,scheduled⟩ := happens_scheduled boot table happens
    rw [policy] at scheduled
    rcases called_chosen steady table.once scheduled with ⟨_,still⟩ | ⟨y,t,chosen⟩
    · obtain ⟨ticks,_,rfl⟩ := still
      have length := congrArg List.length log
      simp at length
    · have same := log.symm.trans chosen.log
      cases List.append_cancel_left same
      cases here.symm.trans chosen.here
      have fine := (session_books policy steady session).queued x chosen.member task here
      exact (chosen_accrues fine (light x chosen.member task here) chosen after).2

end waiting

def noSpawn (_ : Kernel) (call : Call) (_ : Kernel) : Bool :=
  match call with
  | .spawn .. => false
  | _ => true

theorem noSpawn_sound (s : Kernel) (call : Call) (s' : Kernel) (met : noSpawn s call s' = true) : NoSpawn s (.call call) s' := by
  rintro i addr equal
  cases equal
  cases met

def lightIn (s : Kernel) : Bool := s.ready.all fun a => (s.heap a).all fun task => decide (task.weight ≤ CFS_BASE_SLICE*1024)

theorem lightIn_sound (light : lightIn s = true) : ∀ a ∈ s.ready, ∀ task, s.heap a = some task → task.weight ≤ CFS_BASE_SLICE*1024 := by
  intro a member task here
  have found := List.all_eq_true.mp light a member
  rw [here] at found
  exact of_decide_eq_true found

theorem cfs_no_starvation_sample : ∃ s s', Session (sampleBuild .cfs) Unwrapped s ∧ s.ready = [0x5000,0x6000] ∧
    Run (sampleBuild .cfs) Unwrapped NoSpawn s 2 s' ∧ ∃ ran, s'.stepLog = s.stepLog ++ ran ∧ 0x6000 ∈ ran := by
  obtain ⟨s,booted,checked⟩ := (Option.any_eq_true _ _).mp (show (List.foldlM (Call.exec (sampleBuild .cfs) unwrappedCheck)
    (Kernel.boot 0 true) (sampleShares 1024 2048)).any (fun s => (s.ready == [0x5000,0x6000] && lightIn s) &&
      (taskIn s 0x6000 2048 0 && ((s.ready.erase 0x6000).map fun a => headroom s 0 a+1).sum == 1) &&
      (List.foldlM (Call.counted (sampleBuild .cfs) unwrappedCheck noSpawn) (0,s)
        [(.scheduleOnce,midStep ++ quiet),(.scheduleOnce,quiet)]).any (·.1 == 2)) = true by decide +kernel)
  simp only [Bool.and_eq_true,beq_iff_eq] at checked
  obtain ⟨⟨⟨ready,light⟩,found,sum⟩,checked⟩ := checked
  obtain ⟨⟨n,s'⟩,counted,equal⟩ := (Option.any_eq_true _ _).mp checked
  cases beq_iff_eq.mp equal
  obtain ⟨task,queued,awake,_,zero⟩ := taskIn_sound found
  have session : Session (sampleBuild .cfs) Unwrapped s := exec_session unwrapped_sound (.boot 0 true) booted
  have run : Run (sampleBuild .cfs) Unwrapped NoSpawn s 2 s' := counted_run unwrapped_sound noSpawn_sound .start counted
  have served := (cfs_no_starvation session rfl unwrapped_steady (lightIn_sound light)).1 0x6000 task 2 s' queued awake run
  rw [zero,sum] at served
  exact ⟨s,s',session,ready,run,served (by decide)⟩

-- A weight of CFS_BASE_SLICE * 1024 + 1 accrues nothing: the other task should run within
-- three calls, and all three go to the heavy one.
theorem cfs_heavy_weight_starves : ∃ s s' u heavy, Session (sampleBuild .cfs) Unwrapped s ∧
    Queued s 0x6000 u ∧ Awake s 0x6000 ∧ u.weight = 102400 ∧ Queued s 0x5000 heavy ∧ heavy.weight = 102401 ∧ heavy.vruntime = 0 ∧
    Run (sampleBuild .cfs) Unwrapped NoSpawn s 3 s' ∧
    1+((s.ready.erase 0x6000).map fun a => headroom s u.vruntime a+1).sum = 3 ∧
    (∀ ran, s'.stepLog = s.stepLog ++ ran → 0x6000 ∉ ran) ∧ ∃ heavy', Queued s' 0x5000 heavy' ∧ heavy'.vruntime = 0 := by
  obtain ⟨s,booted,checked⟩ := (Option.any_eq_true _ _).mp (show (List.foldlM (Call.exec (sampleBuild .cfs) unwrappedCheck)
    (Kernel.boot 0 true) (sampleShares 102401 102400 ++ [(.scheduleOnce,quiet),(.scheduleOnce,quiet)])).any (fun s =>
      (taskIn s 0x6000 102400 1 && taskIn s 0x5000 102401 0) && ((s.ready.erase 0x6000).map fun a => headroom s 1 a+1).sum == 2 &&
      (List.foldlM (Call.counted (sampleBuild .cfs) unwrappedCheck noSpawn) (0,s)
        [(.scheduleOnce,quiet),(.scheduleOnce,quiet),(.scheduleOnce,quiet)]).any fun r =>
          r.1 == 3 && r.2.stepLog == s.stepLog ++ [0x5000,0x5000,0x5000] && taskIn r.2 0x5000 102401 0) = true by decide +kernel)
  simp only [Bool.and_eq_true,beq_iff_eq] at checked
  obtain ⟨⟨⟨found,found'⟩,sum⟩,checked⟩ := checked
  obtain ⟨⟨n,s'⟩,counted,after⟩ := (Option.any_eq_true _ _).mp checked
  simp only [Bool.and_eq_true,beq_iff_eq] at after
  obtain ⟨⟨rfl,log⟩,again⟩ := after
  obtain ⟨u,queued,awake,weight,one⟩ := taskIn_sound found
  obtain ⟨heavy,queued',_,weight',zero⟩ := taskIn_sound found'
  obtain ⟨heavy',queued'',_,_,zero'⟩ := taskIn_sound again
  have session : Session (sampleBuild .cfs) Unwrapped s := exec_session unwrapped_sound (.boot 0 true) booted
  have run : Run (sampleBuild .cfs) Unwrapped NoSpawn s 3 s' := counted_run unwrapped_sound noSpawn_sound .start counted
  refine ⟨s,s',u,heavy,session,queued,awake,weight,queued',weight',zero,run,by rw [one,sum],?_,heavy',queued'',zero'⟩
  intro ran same
  cases List.append_cancel_left (same.symm.trans log)
  decide

end RustyCore.Cfs
