import RustyCore.SchedulingRuns
import RustyCore.TurnOrder

namespace RustyCore
open InterruptedPrograms Function TurnOrder

namespace RoundRobin

section fairness
variable {b : Build} {allowed : Kernel → Interrupted → Prop} {s s' : Kernel} {addr : ℕ}

theorem called_turn (steady : Steady allowed) (called : Called allowed s ran s') :
    (∀ a ∈ s.ready, ¬ Awake s a) ∧ s'.stepLog = s.stepLog ∨
    ∃ x, Turn (Awake s) s.ready x s'.ready ∧ s'.stepLog = s.stepLog ++ [x] ∧ ∀ a, a ≠ x → s'.heap a = s.heap a := by
  cases called with
  | idle asleep still =>
      obtain ⟨n,_,rfl⟩ := still
      exact Or.inl ⟨fun a member => awake_not_asleep (asleep steady a member),rfl⟩
  | ran skipped x rest task split asleep here awake turned =>
      have parked : ∀ a ∈ skipped, ¬ Awake s a := fun a member => awake_not_asleep (asleep steady a member)
      refine Or.inr ⟨x,?_,turned.log,?_⟩
      · rcases turned.queue with ⟨_,ready,_⟩ | ⟨_,ready,_⟩
        · exact ⟨skipped,rest,[x],split,parked,Or.inl rfl,ready⟩
        · exact ⟨skipped,rest,[],split,parked,Or.inr rfl,by rw [ready,List.append_nil]⟩
      · intro a other
        rcases turned.queue with ⟨_,_,heap,_⟩ | ⟨_,_,heap,_⟩
        · rw [heap,update_of_ne other]
        · rw [heap,update_of_ne other]

-- The task has run since `s`, or it is still awake in the queue and has moved up once for
-- every call.
def Waiting (s : Kernel) (addr n : ℕ) (mid : Kernel) : Prop :=
  ∃ ran, mid.stepLog = s.stepLog ++ ran ∧ (addr ∈ ran ∨ addr ∈ mid.ready ∧ Awake mid addr ∧ mid.ready.idxOf addr+n < alive s)

theorem waiting_grown (steady : Steady allowed) (grown : Grown allowed fresh mid s') (waiting : Waiting s addr n mid) :
    Waiting s addr n s' := by
  obtain ⟨ran,log,served | ⟨member,awake,place⟩⟩ := waiting
  · exact ⟨ran,grown.log.trans log,Or.inl served⟩
  · refine ⟨ran,grown.log.trans log,Or.inr ⟨?_,awake_grown steady grown awake,?_⟩⟩
    · rw [grown.ready]
      exact List.mem_append_left _ member
    · rw [grown.ready,List.idxOf_append_of_mem member]
      exact place

theorem waiting_called (steady : Steady allowed) (later : mid.apicTicks ≤ s'.apicTicks) (called : Called allowed mid found s')
    (waiting : Waiting s addr n mid) : Waiting s addr (n+1) s' := by
  obtain ⟨ran,log,queued⟩ := waiting
  rcases called_turn steady called with ⟨asleep,same⟩ | ⟨x,turn,more,heap⟩
  · rcases queued with served | ⟨member,awake,_⟩
    · exact ⟨ran,same.trans log,Or.inl served⟩
    · exact absurd awake (asleep addr member)
  · refine ⟨ran ++ [x],by rw [more,log,List.append_assoc],?_⟩
    rcases queued with served | ⟨member,awake,place⟩
    · exact Or.inl (List.mem_append_left _ served)
    by_cases own : addr = x
    · exact Or.inl (List.mem_append_right _ (List.mem_singleton.mpr own))
    · obtain ⟨k,bound,shift⟩ := turn_shift turn
      obtain ⟨waits,moved⟩ := shift addr member awake own
      exact Or.inr ⟨waits,awake_later awake (heap addr own) later,by omega⟩

def Both (A B : ℕ) (mid : Kernel) (event : Event) (_ : Kernel) : Prop :=
  event = .call .scheduleOnce → (A ∈ mid.ready ∧ Awake mid A) ∧ B ∈ mid.ready ∧ Awake mid B

def Fair (s : Kernel) (A B : ℕ) (mid : Kernel) : Prop :=
  ∃ ran, mid.stepLog = s.stepLog ++ ran ∧ (ran = [] ∨ Alternating A B ran mid.ready)

theorem fair_grown (grown : Grown allowed fresh mid s') (fair : Fair s A B mid) : Fair s A B s' := by
  obtain ⟨ran,log,fair⟩ := fair
  refine ⟨ran,grown.log.trans log,fair.imp_right ?_⟩
  intro alternating
  rw [grown.ready]
  exact alternating_append alternating fresh

theorem fair_called (steady : Steady allowed) (once : mid.ready.Nodup) (different : A ≠ B)
    (both : Both A B mid (.call .scheduleOnce) s') (called : Called allowed mid found s') (fair : Fair s A B mid) :
    Fair s A B s' := by
  obtain ⟨ran,log,fair⟩ := fair
  obtain ⟨⟨left,wakes⟩,right,wakes'⟩ := both rfl
  rcases called_turn steady called with ⟨asleep,_⟩ | ⟨x,turn,more,_⟩
  · exact absurd wakes (asleep A left)
  · have before : Alternating A B ran mid.ready := by
      rcases fair with rfl | alternating
      · exact alternating_start different left
      · exact alternating
    exact ⟨ran ++ [x],by rw [more,log,List.append_assoc],
      Or.inr (alternating_turn once turn different left right wakes wakes' before)⟩

theorem round_robin_fair (session : Session b allowed s) (policy : b.policy = .roundRobin) (steady : Steady allowed) :
    (∀ addr n s', addr ∈ s.ready → Awake s addr → Run b allowed (fun _ _ _ => True) s n s' → alive s ≤ n →
      ∃ ran, s'.stepLog = s.stepLog ++ ran ∧ addr ∈ ran) ∧
    ∀ A B n s', A ≠ B → Run b allowed (Both A B) s n s' →
      ∃ ran, s'.stepLog = s.stepLog ++ ran ∧ ran.count A ≤ ran.count B+1 ∧ ran.count B ≤ ran.count A+1 := by
  constructor
  · intro addr n s' member awake run enough
    have start : Waiting s addr 0 s :=
      ⟨[],(List.append_nil _).symm,Or.inr ⟨member,awake,List.idxOf_lt_length_iff.mpr member⟩⟩
    have kept := run_keeps (I:=Waiting s addr) session run start
      (fun n mid event fresh s' _ waiting _ _ grown _ => waiting_grown steady grown waiting)
      (by
        intro n mid found s' before waiting _ scheduled
        obtain ⟨boot,table⟩ := session_parts before
        have later := (scheduled_parts boot table scheduled).2.2 steady
        rw [policy] at scheduled
        exact waiting_called steady later scheduled waiting)
    obtain ⟨_,ran,log,served | ⟨_,_,place⟩⟩ := kept
    · exact ⟨ran,log,served⟩
    · omega
  · intro A B n s' different run
    have kept := run_keeps (I:=fun _ => Fair s A B) session run ⟨[],(List.append_nil _).symm,Or.inl rfl⟩
      (fun n mid event fresh s' _ fair _ _ grown _ => fair_grown grown fair)
      (by
        intro n mid found s' before fair both scheduled
        rw [policy] at scheduled
        exact fair_called steady (session_parts before).2.once different both scheduled fair)
    obtain ⟨_,ran,log,rfl | alternating⟩ := kept
    · exact ⟨[],log,Nat.zero_le _,Nat.zero_le _⟩
    · exact ⟨ran,log,alternating_counts alternating⟩

end fairness

theorem round_robin_fair_sample : ∃ s s', Session (sampleBuild .roundRobin) Unwrapped s ∧ s.ready = [0x5000,0x6000] ∧
    Run (sampleBuild .roundRobin) Unwrapped (Both 0x5000 0x6000) s 2 s' ∧
    (∃ ran, s'.stepLog = s.stepLog ++ ran ∧ 0x6000 ∈ ran) ∧
    ∃ ran, s'.stepLog = s.stepLog ++ ran ∧ ran.count 0x5000 ≤ ran.count 0x6000+1 ∧ ran.count 0x6000 ≤ ran.count 0x5000+1 := by
  let both (s : Kernel) (_ : Call) (_ : Kernel) : Bool := awakeIn s 0x5000 && awakeIn s 0x6000
  let calls : List (Call × List (List Interrupted)) := [(.scheduleOnce,midStep ++ quiet),(.scheduleOnce,quiet)]
  obtain ⟨s,booted,checked⟩ := (Option.any_eq_true _ _).mp (show (List.foldlM (Call.exec (sampleBuild .roundRobin) unwrappedCheck)
    (Kernel.boot 0 true) (sampleCalls.take 4)).any (fun s => s.ready == [0x5000,0x6000] && awakeIn s 0x6000 &&
      (List.foldlM (Call.counted (sampleBuild .roundRobin) unwrappedCheck both) (0,s) calls).any (·.1 == 2)) = true by decide +kernel)
  simp only [Bool.and_eq_true,beq_iff_eq] at checked
  obtain ⟨⟨ready,awake⟩,two⟩ := checked
  obtain ⟨⟨n,s'⟩,counted,equal⟩ := (Option.any_eq_true _ _).mp two
  cases beq_iff_eq.mp equal
  have session : Session (sampleBuild .roundRobin) Unwrapped s := exec_session unwrapped_sound (.boot 0 true) booted
  have run : Run (sampleBuild .roundRobin) Unwrapped (Both 0x5000 0x6000) s 2 s' := by
    refine counted_run unwrapped_sound ?_ .start counted
    intro s call s' met _
    obtain ⟨left,right⟩ := Bool.and_eq_true_iff.mp met
    exact ⟨awakeIn_sound left,awakeIn_sound right⟩
  obtain ⟨waits,counts⟩ := round_robin_fair session rfl unwrapped_steady
  obtain ⟨member,awake⟩ := awakeIn_sound awake
  refine ⟨s,s',session,ready,run,?_,counts _ _ 2 s' (by decide) run⟩
  exact waits 0x6000 2 s' member awake (run_weaken (fun _ _ _ _ => trivial) run) (by rw [alive,ready]; decide)

end RoundRobin
end RustyCore
