import RustyCore.PreemptionFence

namespace RustyCore
open InterruptedPrograms Function

inductive Trace (b : Build) (allowed : Kernel → Interrupted → Prop) : List Kernel → Kernel → Prop where
  | boot (apicTicks : ℕ) (interruptFlag : Bool) :
      Trace b allowed [Kernel.boot apicTicks interruptFlag] (Kernel.boot apicTicks interruptFlag)
  | step : Trace b allowed states s → Happens b allowed s event s' → Trace b allowed (s' :: states) s'

-- A call made between operations returns this value and no other, whatever ticks come in.
def Reads (allowed : Kernel → Interrupted → Prop) (call : Kern α) (s : Kernel) (value : α) : Prop :=
  ∀ v, (∃ s', Returns (Irq allowed) call s v s') ↔ v = value

def Occupied (s : Kernel) (i : ℕ) : Prop := ∃ task ∈ live s, task.slot = i

-- What the documentation of `SLOT_BOUNDS` and `slot_bounds` promises for one slot.
structure ViewAgrees (allowed : Kernel → Interrupted → Prop) (s : Kernel) (i : ℕ) : Prop where
  view : ∃ bounds, Reads allowed (slotBoundsOf i) s bounds ∧ (bounds.isSome = true ↔ Occupied s i)
  free : ¬ Occupied s i → s.slotBounds i = (0,0) ∧ Reads allowed (slotBoundsOf i) s none ∧ Reads allowed (frameOk i) s false

section view
variable {b : Build} {allowed : Kernel → Interrupted → Prop} {s s' : Kernel} {states : List Kernel}

theorem reads_safe {call : Kern α} (safe : Safe (Irq allowed) Fenced (fun _ => False) call (fun v _ => v = value) s) :
    Reads allowed call s value := by
  intro v
  constructor
  · rintro ⟨s',returns⟩
    have same := safe_returns safe returns
    exact same
  · rintro rfl
    obtain ⟨v',s',returns⟩ := safe_progress safe
    have same := safe_returns safe returns
    cases same
    exact ⟨s',returns⟩

theorem reads_unique {call : Kern α} (first : Reads allowed call s value) (second : Reads allowed call s value') : value = value' :=
  (second value).mp ((first value).mpr rfl)

theorem slotBoundsOf_reads (boot : Boot s) (inside : i < MAX_TASKS) :
    Reads allowed (slotBoundsOf i) s (if (s.slotBounds i).1 ≠ 0 then some (s.slotBounds i) else none) := by
  apply reads_safe
  simp only [slotBoundsOf,Nat.not_le.mpr inside,if_false]
  refine boot_load boot ?_
  rintro s' ⟨n,later,rfl⟩
  exact boot_ret (still_boot boot ⟨n,later,rfl⟩) fun _ _ => rfl

theorem frameOk_free (boot : Boot s) (inside : i < MAX_TASKS) (wiped : s.taskFrames i = FullFrame.ZERO) :
    Reads allowed (frameOk i) s false := by
  apply reads_safe
  simp only [frameOk,slotBoundsOf,Nat.not_le.mpr inside,if_false,bind_assoc,pure_bind]
  refine boot_load boot ?_
  rintro s₁ ⟨n,later,rfl⟩
  have boot₁ := still_boot boot ⟨n,later,rfl⟩
  split
  · simp only [snapshot,bind_assoc]
    refine boot_require boot₁ (fun outside => absurd inside (of_decide_eq_false outside)) ?_
    intro _
    refine boot_load boot₁ ?_
    rintro s₂ ⟨n',later',rfl⟩
    refine boot_ret (still_boot boot₁ ⟨n',later',rfl⟩) ?_
    intro _ _
    simp only [wiped]
    rfl
  · exact boot_ret boot₁ fun _ _ => rfl

theorem occupied_bounds (table : Table allowed s.ready s) (occupied : Occupied s i) : (s.slotBounds i).1 ≠ 0 := by
  obtain ⟨task,member,rfl⟩ := occupied
  have reserved := live_reserved table member
  rw [reserved.bounds]
  exact reserved.nonzero

-- The one writer of the window is the construction that takes the slot.
theorem happens_bounds (boot : Boot s) (table : Table allowed s.ready s) (happens : Happens b allowed s event s')
    (free : s'.slotUsed.getLsbD i = false) : s'.slotBounds i = s.slotBounds i := by
  cases happens with
  | tick fired =>
      obtain ⟨n,_,rfl⟩ := tick_still boot fired
      rfl
  | flag => rfl
  | @call _ call legal returns =>
      have done := safe_returns (call_safe (b:=b) boot table call legal) returns
      cases call with
      | new => exact done.1.bounds i free
      | sleeping => exact done.1.bounds i free
      | withWeight => exact done.1.bounds i free
      | spawn => exact done.1.bounds i free
      | scheduleOnce =>
          obtain ⟨found,scheduled⟩ := done
          rcases scheduled_took scheduled with ⟨_,n,_,rfl⟩ | ⟨_,addr,task,rest,took⟩
          · rfl
          · rw [took.bounds]

theorem trace_session (trace : Trace b allowed states s) : Session b allowed s := by
  induction trace with
  | boot apicTicks interruptFlag => exact .boot apicTicks interruptFlag
  | step _ happens ih => exact .step ih happens

theorem trace_bounds (trace : Trace b allowed states s) (i : ℕ) :
    ((∃ before ∈ states, Occupied before i) → (s.slotBounds i).1 ≠ 0) ∧
    ((¬ ∃ before ∈ states, Occupied before i) → s.slotBounds i = (0,0)) := by
  induction trace with
  | boot apicTicks interruptFlag =>
      refine ⟨?_,fun _ => rfl⟩
      rintro ⟨before,member,task,listed,_⟩
      rw [List.mem_singleton.mp member] at listed
      cases listed
  | @step states s event s' before happens ih =>
      have session := trace_session before
      obtain ⟨boot,table⟩ := session_parts session
      obtain ⟨_,table'⟩ := session_parts (.step session happens)
      by_cases occupied : Occupied s' i
      · exact ⟨fun _ => occupied_bounds table' occupied,fun never => absurd ⟨s',List.mem_cons_self,occupied⟩ never⟩
      have clear : s'.slotUsed.getLsbD i = false := by
        rw [← Bool.not_eq_true,live_used table' i]
        exact occupied
      have earlier : (∃ before ∈ s' :: states, Occupied before i) ↔ ∃ before ∈ states, Occupied before i := by
        simp only [List.mem_cons,exists_eq_or_imp,occupied,false_or]
      rw [happens_bounds boot table happens clear,earlier]
      exact ih

-- The view of a slot agrees with its liveness exactly as long as nobody has left it:
-- `unregister_task` wipes the frame and the bit, and leaves the window behind.
theorem slot_view_agrees (trace : Trace b allowed states s) (inside : i < MAX_TASKS) :
    ViewAgrees allowed s i ↔ ((∃ before ∈ states, Occupied before i) → Occupied s i) := by
  obtain ⟨boot,table⟩ := session_parts (trace_session trace)
  obtain ⟨left,clean⟩ := trace_bounds trace i
  have view : Reads allowed (slotBoundsOf i) s _ := slotBoundsOf_reads boot inside
  constructor
  · rintro ⟨_,free⟩ once
    by_contra empty
    have zero := (free empty).1
    exact left once (by rw [zero])
  · intro stays
    by_cases occupied : Occupied s i
    · rw [if_pos (occupied_bounds table occupied)] at view
      exact ⟨⟨_,view,iff_of_true rfl occupied⟩,fun empty => absurd occupied empty⟩
    · have zero := clean fun once => occupied (stays once)
      rw [zero,if_neg (not_not.mpr rfl)] at view
      have clear : s.slotUsed.getLsbD i = false := by
        rw [← Bool.not_eq_true,live_used table i]
        exact occupied
      have refused : Reads allowed (frameOk i) s false := frameOk_free boot inside (table.free i inside clear).1
      exact ⟨⟨none,view,iff_of_false Bool.false_ne_true occupied⟩,fun _ => ⟨zero,view,refused⟩⟩

end view

theorem exec_trace {check : Kernel → Interrupted → Bool} (sound : ∀ s regs, check s regs = true → allowed s regs)
    (trace : Trace b allowed states s) (ran : List.foldlM (Call.exec b check) s entries = some s') :
    ∃ later, Trace b allowed (later ++ states) s' := by
  induction entries generalizing s states with
  | nil =>
      cases ran
      exact ⟨[],trace⟩
  | cons entry entries ih =>
      rw [List.foldlM_cons] at ran
      obtain ⟨mid,first,rest⟩ := Option.bind_eq_some_iff.mp ran
      obtain ⟨later,further⟩ := ih (.step trace (exec_happens sound first)) rest
      refine ⟨later ++ [mid],?_⟩
      rwa [List.append_assoc]

theorem slot_view_agrees_sample : ∃ states s, Trace (sampleBuild .cfs) Polite states s ∧
    (live s).map (·.slot) = [0,1] ∧ ViewAgrees Polite s 0 ∧ ViewAgrees Polite s 1 := by
  obtain ⟨s,ran,slots⟩ := (Option.any_eq_true _ _).mp (show (List.foldlM (Call.exec (sampleBuild .cfs) politeCheck)
    (Kernel.boot 0 true) (sampleCalls.take 4)).any (fun s => (live s).map (·.slot) == [0,1]) = true by decide +kernel)
  rw [beq_iff_eq] at slots
  obtain ⟨later,trace⟩ := exec_trace polite_sound (.boot 0 true) ran
  have occupied : ∀ i ∈ [0,1], Occupied s i := by
    intro i member
    rw [← slots] at member
    exact List.mem_map.mp member
  have first := (slot_view_agrees (i:=0) trace (by decide)).mpr fun _ => occupied 0 (by decide)
  have second := (slot_view_agrees (i:=1) trace (by decide)).mpr fun _ => occupied 1 (by decide)
  exact ⟨_,s,trace,slots,first,second⟩

theorem freed_window_stays : ∃ states s, Trace (sampleBuild .roundRobin) Polite states s ∧ ¬ Occupied s 1 ∧
    s.slotBounds 1 = (0x130000,0x150000) ∧ Reads Polite (slotBoundsOf 1) s (some (0x130000,0x150000)) ∧
    ¬ ViewAgrees Polite s 1 := by
  obtain ⟨s,ran,checked⟩ := (Option.any_eq_true _ _).mp (show (List.foldlM (Call.exec (sampleBuild .roundRobin) politeCheck)
    (Kernel.boot 0 true) (sampleCalls.take 6)).any
      (fun s => (live s).map (·.slot) == [0] && s.slotBounds 1 == (0x130000,0x150000)) = true by decide +kernel)
  simp only [Bool.and_eq_true,beq_iff_eq] at checked
  obtain ⟨later,trace⟩ := exec_trace polite_sound (.boot 0 true) ran
  have empty : ¬ Occupied s 1 := by
    intro occupied
    have member := List.mem_map.mpr occupied
    rw [checked.1] at member
    revert member
    decide
  have view : Reads Polite (slotBoundsOf 1) s _ := slotBoundsOf_reads (session_parts (trace_session trace)).1 (by decide)
  rw [checked.2,if_pos (by decide)] at view
  refine ⟨_,s,trace,empty,checked.2,view,?_⟩
  intro agrees
  cases reads_unique view (agrees.free empty).2.1

end RustyCore
