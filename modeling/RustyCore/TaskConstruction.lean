import RustyCore.SchedulerCalls

namespace RustyCore
open InterruptedPrograms Function

-- The live tasks between calls: the queue and the tasks in hand.
def live (s : Kernel) : List Task := s.ready.filterMap s.heap ++ s.held

section live
variable {allowed : Kernel → Interrupted → Prop} {s : Kernel}

theorem mem_live : task ∈ live s ↔ (∃ a ∈ s.ready, s.heap a = some task) ∨ task ∈ s.held := by
  simp [live,List.mem_filterMap]

theorem live_slots (table : Table allowed s.ready s) : ((live s).map (·.slot)).Nodup := by
  rw [live,List.map_append,List.nodup_append]
  refine ⟨?_,table.apart,?_⟩
  · rw [List.Nodup,List.pairwise_map,List.pairwise_filterMap]
    refine table.once.imp_of_mem ?_
    intro a b left right different task here task' there same
    exact different (boxes_apart table left right here there same)
  · intro i left j right same
    obtain ⟨task,boxed,rfl⟩ := List.mem_map.mp left
    obtain ⟨task',held,rfl⟩ := List.mem_map.mp right
    obtain ⟨a,member,here⟩ := List.mem_filterMap.mp boxed
    exact held_apart table member here held same

theorem live_reserved (table : Table allowed s.ready s) (member : task ∈ live s) : Reserved s task := by
  rcases mem_live.mp member with ⟨a,listed,here⟩ | held
  · obtain ⟨t,found,owns⟩ := table.boxed a listed
    cases here.symm.trans found
    exact owns.toReserved
  · exact (table.held task held).1

theorem live_used (table : Table allowed s.ready s) (i : ℕ) :
    s.slotUsed.getLsbD i = true ↔ ∃ task ∈ live s, task.slot = i := by
  constructor
  · intro set
    rcases table.used i set with ⟨a,member,task,here,equal⟩ | ⟨task,held,equal⟩
    · exact ⟨task,mem_live.mpr (Or.inl ⟨a,member,here⟩),equal⟩
    · exact ⟨task,mem_live.mpr (Or.inr held),equal⟩
  · rintro ⟨task,member,rfl⟩
    exact (live_reserved table member).used

theorem live_full (table : Table allowed s.ready s) (full : ∀ i, i < MAX_TASKS → s.slotUsed.getLsbD i = true) :
    (live s).length = MAX_TASKS := by
  have perm : ((live s).map (·.slot)).Perm (List.range MAX_TASKS) := by
    rw [List.perm_ext_iff_of_nodup (live_slots table) List.nodup_range]
    intro i
    rw [List.mem_map,List.mem_range]
    constructor
    · rintro ⟨task,member,rfl⟩
      exact (live_reserved table member).slot
    · intro inside
      exact (live_used table i).mp (full i inside)
  have length := perm.length_eq
  rwa [List.length_map,List.length_range] at length

end live

-- A call that runs no task: the queue grows by `fresh`, and no boxed task changes.
structure Grown (allowed : Kernel → Interrupted → Prop) (fresh : List ℕ) (s s' : Kernel) : Prop where
  table : Table allowed s'.ready s'
  boot : Boot s'
  ready : s'.ready = s.ready ++ fresh
  heap : ∀ a, s.heap a ≠ none → s'.heap a = s.heap a
  log : s'.stepLog = s.stepLog
  finished : s'.finishedRuns = s.finishedRuns
  bounds : ∀ i, s'.slotUsed.getLsbD i = false → s'.slotBounds i = s.slotBounds i
  used : ∀ i, s.slotUsed.getLsbD i = true → s'.slotUsed.getLsbD i = true
  ticks : Steady allowed → s.apicTicks ≤ s'.apicTicks

section construct
variable {allowed : Kernel → Interrupted → Prop} {full confined : Prop} {E : Panic → Prop} {s : Kernel} {p : Profile} {c : BuildConfig}

theorem newStack_safe {Q : α → Kernel → Prop} {k : TaskStack → Kern α} (boot : Boot s)
    (next : ∀ stack, stack.bottom % 16 = 0 → stack.bottom ≠ 0 → stack.top % 16 = 0 →
      Safe (Irq allowed) Fenced (Expected full confined) (k stack) Q s) :
    Safe (Irq allowed) Fenced (Expected full confined) (newStack p c raw >>= k) Q s := by
  simp only [newStack,bind_assoc]
  refine boot_require boot (fun _ => trivial) ?_
  intro allocated
  obtain ⟨nonzero,room⟩ := of_decide_eq_true allocated
  have least := alignUp_ge raw STACK_ALIGN
  have aligned : alignUp raw STACK_ALIGN % STACK_ALIGN = 0 := Nat.mod_eq_zero_of_dvd (alignUp_dvd (by decide))
  have most : alignUp raw STACK_ALIGN < raw+STACK_ALIGN := alignUp_lt (by decide)
  unfold BuildConfig.stackAllocBytes at room ⊢
  rw [nextMultipleOf_small (by omega),Profile.add_small room]
  simp only [lift,pure_bind]
  rw [Profile.add_small (by omega)]
  simp only [pure_bind]
  refine boot_require boot (fun fails => ?_) ?_
  · rw [aligned] at fails
    cases fails
  intro _
  refine boot_require boot (fun _ => trivial) ?_
  intro top
  refine boot_require boot (fun fails => ?_) ?_
  · exact absurd (by omega) (of_decide_eq_false fails)
  intro _
  have positive : alignUp raw STACK_ALIGN ≠ 0 := by omega
  exact next ⟨_,_,_⟩ aligned positive (beq_iff_eq.mp top)

-- The planted frame: RSP keeps the alignment of the top, also where the subtraction wraps.
theorem initTaskContext_safe {Q : α → Kernel → Prop} {k : ℕ → Kern α} (boot : Boot s) (aligned : top % 16 = 0)
    (next : ∀ rsp, (rsp+56) % 16 = 8 → Safe (Irq allowed) Fenced (Expected full confined) (k rsp) Q s) :
    Safe (Irq allowed) Fenced (Expected full confined) (initTaskContext p top >>= k) Q s := by
  simp only [initTaskContext,bind_assoc]
  refine boot_require boot (fun fails => ?_) ?_
  · rw [aligned] at fails
    cases fails
  intro _
  refine boot_lift boot (fun _ => trivial) ?_
  intro rsp below
  have lower : rsp % 16 = 0 := by
    rcases Profile.sub_cases below with ⟨low,rfl⟩ | ⟨wrapped,rfl⟩ <;> omega
  refine boot_require boot (fun fails => ?_) ?_
  · rw [lower] at fails
    cases fails
  intro _
  refine boot_lift boot (fun _ => trivial) ?_
  intro resumed above
  have parity : resumed % 16 = 8 := by
    rw [Profile.add_wraps above]
    omega
  refine boot_require boot (fun fails => ?_) ?_
  · rw [parity] at fails
    cases fails
  intro _
  exact next rsp (by omega)

theorem allocSlot_safe {Q : α → Kernel → Prop} {k : ℕ → Kern α} (boot : Boot s)
    (taken : (∀ i, i < MAX_TASKS → s.slotUsed.getLsbD i = true) → E .tableFull)
    (next : ∀ slot s', Still allowed s s' → slot < MAX_TASKS → s.slotUsed.getLsbD slot = false →
      Safe (Irq allowed) Fenced E (k slot) Q s') :
    Safe (Irq allowed) Fenced E (allocSlot >>= k) Q s := by
  simp only [allocSlot,bind_assoc]
  refine boot_load boot ?_
  rintro _ ⟨n,later,rfl⟩
  have small : ∀ i, i < MAX_TASKS → i < 8 := fun i inside => Nat.lt_trans inside (by decide)
  cases found : (List.range MAX_TASKS).find? (fun idx => s.slotUsed &&& slotBit idx == 0) with
  | none =>
      refine safe_bind (boot_fail (by exact boot) (taken ?_))
      intro i inside
      have busy := List.find?_eq_none.mp found i (List.mem_range.mpr inside)
      rw [slot_clear (small i inside)] at busy
      exact Bool.of_not_eq_false busy
  | some slot =>
      have inside := List.mem_range.mp (List.mem_of_find?_eq_some found)
      have clear := List.find?_some found
      exact next slot _ ⟨n,later,rfl⟩ inside ((slot_clear (small slot inside)).mp clear)

theorem registerTask_safe {Q : α → Kernel → Prop} {k : Unit → Kern α} (boot : Boot s) (inside : slot < MAX_TASKS)
    (clear : s.slotUsed.getLsbD slot = false)
    (next : ∀ n, (Steady allowed → s.apicTicks ≤ n) → Safe (Irq allowed) Fenced E (k ()) Q
      {s with apicTicks := n, taskFrames := update s.taskFrames slot frame, slotUsed := s.slotUsed ||| slotBit slot}) :
    Safe (Irq allowed) Fenced E (registerTask slot frame >>= k) Q s := by
  simp only [registerTask,bind_assoc]
  refine boot_require boot (fun fails => absurd inside (of_decide_eq_false fails)) ?_
  intro _
  refine boot_load boot ?_
  rintro _ ⟨n₁,later₁,rfl⟩
  have unset := (slot_clear (Nat.lt_trans inside (by decide))).mpr clear
  refine boot_require (by exact boot) (fun fails => ?_) ?_
  · rw [unset] at fails
    cases fails
  intro _
  refine boot_store (by exact boot) ?_
  rintro _ ⟨n₂,later₂,rfl⟩
  refine boot_store (by exact boot) ?_
  rintro _ ⟨n₃,later₃,rfl⟩
  exact next n₃ fun steady => Nat.le_trans (later₁ steady) (Nat.le_trans (later₂ steady) (later₃ steady))

theorem setSlotBounds_safe {Q : α → Kernel → Prop} {k : Unit → Kern α} (boot : Boot s) (inside : slot < MAX_TASKS)
    (empty : ¬ bottom < top → E (.emptyWindow slot))
    (next : ∀ n, (Steady allowed → s.apicTicks ≤ n) → Safe (Irq allowed) Fenced E (k ()) Q
      {s with apicTicks := n, slotBounds := update s.slotBounds slot (bottom,top)}) :
    Safe (Irq allowed) Fenced E (setSlotBounds slot bottom top >>= k) Q s := by
  simp only [setSlotBounds,bind_assoc]
  refine boot_require boot (fun fails => absurd inside (of_decide_eq_false fails)) ?_
  intro _
  refine boot_require boot (fun fails => empty (of_decide_eq_false fails)) ?_
  intro _
  refine boot_store boot ?_
  rintro _ ⟨n,later,rfl⟩
  exact next n later

def enrol (state : TaskState) (id : ℕ) (name : String) (outcome : ℕ → StepCall) (stack : TaskStack) (rsp : ℕ) (preempt : FullFrame) :
    Kern Unit := do
  let slot ← allocSlot
  registerTask slot preempt
  setSlotBounds slot stack.bottom stack.top
  .store fun s => {s with held := s.held ++ [⟨id,name,state,0,0,CFS_DEFAULT_WEIGHT,stack,.bootstrap rsp,preempt,slot,
    ⟨outcome,0⟩⟩]}

theorem enrol_safe {Q : Unit → Kernel → Prop} {id : ℕ} {stack : TaskStack} (boot : Boot s) (table : Table allowed s.ready s)
    (full : (live s).length = MAX_TASKS → E .tableFull) (empty : ¬ stack.bottom < stack.top → ∀ slot, E (.emptyWindow slot))
    (aligned : stack.bottom % 16 = 0) (nonzero : stack.bottom ≠ 0) (parity : (rsp+56) % 16 = 8)
    (valid : preempt.validFor stack.bottom stack.top = true)
    (next : ∀ slot s', Grown allowed [] s s' →
      s'.held = s.held ++ [⟨id,name,state,0,0,CFS_DEFAULT_WEIGHT,stack,.bootstrap rsp,preempt,slot,⟨outcome,0⟩⟩] → Q () s') :
    Safe (Irq allowed) Fenced E (enrol state id name outcome stack rsp preempt) Q s := by
  refine allocSlot_safe boot (fun all => full (live_full table all)) ?_
  rintro slot _ ⟨n₁,later₁,rfl⟩ inside clear
  refine registerTask_safe (by exact boot) inside clear ?_
  intro n₂ later₂
  refine setSlotBounds_safe (by exact boot) inside (fun fails => empty fails slot) ?_
  intro n₃ later₃
  refine boot_store (k:=pure) (by exact boot) ?_
  rintro _ ⟨n₄,later₄,rfl⟩
  refine boot_ret (by exact boot) ?_
  rintro _ ⟨n₅,later₅,rfl⟩
  have later : Steady allowed → s.apicTicks ≤ n₅ := by
    intro steady
    have registered := Nat.le_trans (later₁ steady) (later₂ steady)
    exact Nat.le_trans registered (Nat.le_trans (later₃ steady) (Nat.le_trans (later₄ steady) (later₅ steady)))
  have entry : ∀ rsp', Context.bootstrap rsp = .bootstrap rsp' → (rsp'+56) % 16 = 8 := by
    intro rsp' same
    cases same
    exact parity
  have bits : ∀ i, (s.slotUsed ||| slotBit slot).getLsbD i = (s.slotUsed.getLsbD i || decide (i = slot)) :=
    slot_set (Nat.lt_trans inside (by decide))
  refine next slot _ ⟨?_,boot,(List.append_nil _).symm,fun _ _ => rfl,rfl,rfl,?_,?_,later⟩ rfl
  rotate_left
  · intro i unset
    refine update_of_ne ?_ _ _
    rintro rfl
    rw [bits,decide_eq_true rfl,Bool.or_true] at unset
    cases unset
  · intro i set
    exact (bits i).trans (by rw [set,Bool.true_or])
  exact @table_construct allowed s.ready s _
    ⟨id,name,state,0,0,CFS_DEFAULT_WEIGHT,stack,.bootstrap rsp,preempt,slot,⟨outcome,0⟩⟩
    table inside clear aligned nonzero valid entry rfl rfl rfl rfl rfl rfl

theorem construct_safe {Q : Unit → Kernel → Prop} {id : ℕ} (boot : Boot s) (table : Table allowed s.ready s)
    (next : ∀ stack rsp preempt slot s', Grown allowed [] s s' →
      s'.held = s.held ++ [⟨id,name,state,0,0,CFS_DEFAULT_WEIGHT,stack,.bootstrap rsp,preempt,slot,⟨outcome,0⟩⟩] → Q () s') :
    Safe (Irq allowed) Fenced (Expected ((live s).length = MAX_TASKS) confined)
      (construct p c state raw id name outcome) Q s := by
  simp only [construct]
  refine newStack_safe boot ?_
  intro stack aligned nonzero whole
  refine initTaskContext_safe boot whole ?_
  intro rsp parity
  obtain ⟨top,bottom,word⟩ := stack
  generalize bottomWord c ⟨top,bottom,word⟩ rsp = word'
  refine boot_lift boot (fun _ => trivial) ?_
  intro preempt _
  refine boot_require boot (fun _ => trivial) ?_
  intro valid
  exact enrol_safe (E:=Expected ((live s).length = MAX_TASKS) confined) boot table (fun taken => taken) (fun _ _ => trivial)
    (show TaskStack.bottom ⟨top,bottom,word'⟩ % 16 = 0 from aligned) nonzero parity valid fun slot s' => next ⟨top,bottom,word'⟩ rsp preempt slot s'

theorem modify_some {l : List Task} (found : (l.modify i f)[j]? = some task) :
    ∃ t, l[j]? = some t ∧ task = if i = j then f t else t := by
  rw [List.getElem?_modify] at found
  obtain ⟨t,there,equal⟩ := Option.map_eq_some_iff.mp found
  exact ⟨t,there,equal.symm⟩

theorem modify_kept {l : List Task} {g : Task → α} (keeps : ∀ t, g (f t) = g t) : (l.modify i f).map g = l.map g := by
  apply List.ext_getElem?
  intro j
  rw [List.getElem?_map,List.getElem?_map,List.getElem?_modify]
  cases l[j]? with
  | none => rfl
  | some t =>
      simp only [Option.map_eq_map,Option.map_some]
      split
      · rw [keeps]
      · rfl

theorem table_weight (table : Table allowed boxes s)
    (held : s'.held = s.held.modify i fun task => {task with weight := weight}) (heap : s'.heap = s.heap)
    (used : s'.slotUsed = s.slotUsed) (frames : s'.taskFrames = s.taskFrames) (bounds : s'.slotBounds = s.slotBounds)
    (pointers : s'.taskPtrs = s.taskPtrs) : Table allowed boxes s' := by
  have slots : s'.held.map (·.slot) = s.held.map (·.slot) := by
    rw [held]
    exact modify_kept fun _ => rfl
  refine ⟨table.once,?_,?_,slots ▸ table.apart,?_,?_,?_⟩
  · intro a member
    obtain ⟨task,here,owns⟩ := table.boxed a member
    exact ⟨task,by rw [heap]; exact here,owns_congr owns used bounds pointers⟩
  · intro task member
    rw [held] at member
    obtain ⟨j,found⟩ := List.mem_iff_getElem?.mp member
    obtain ⟨t,there,equal⟩ := modify_some found
    obtain ⟨reserved,null⟩ := table.held t (List.mem_of_getElem? there)
    rw [pointers]
    split at equal
    · subst equal
      exact ⟨⟨reserved.slot,used ▸ reserved.used,bounds ▸ reserved.bounds,reserved.aligned,reserved.nonzero,
        reserved.template,reserved.entry⟩,null⟩
    · subst equal
      exact ⟨reserved_congr reserved used bounds,null⟩
  · intro j set
    rw [used] at set
    rw [heap]
    rcases table.used j set with boxed | ⟨task,member,equal⟩
    · exact Or.inl boxed
    · have listed : j ∈ s'.held.map (·.slot) := by
        rw [slots]
        exact List.mem_map.mpr ⟨task,member,equal⟩
      exact Or.inr (List.mem_map.mp listed)
  · rw [used,frames,pointers]
    exact table.free
  · rw [used,frames,bounds]
    exact table.stash

theorem withWeight_safe {Q : Unit → Kernel → Prop} (boot : Boot s) (table : Table allowed s.ready s) (zero : weight = 0 → E .zeroWeight)
    (next : ∀ s', Grown allowed [] s s' → 0 < weight → s'.held = s.held.modify i (fun task => {task with weight := weight}) → Q () s') :
    Safe (Irq allowed) Fenced E (withWeight i weight) Q s := by
  unfold withWeight
  refine boot_require boot (fun fails => zero (Nat.eq_zero_of_not_pos (of_decide_eq_false fails))) ?_
  intro positive
  refine boot_store (k:=pure) boot ?_
  rintro _ ⟨n₁,later₁,rfl⟩
  refine boot_ret (by exact boot) ?_
  rintro _ ⟨n₂,later₂,rfl⟩
  refine next _ ⟨?_,boot,(List.append_nil _).symm,fun _ _ => rfl,rfl,rfl,fun _ _ => rfl,fun _ set => set,?_⟩
    (of_decide_eq_true positive) rfl
  · exact table_weight table rfl rfl rfl rfl rfl rfl
  · intro steady
    exact Nat.le_trans (later₁ steady) (later₂ steady)

theorem enqueue_safe {Q : Unit → Kernel → Prop} (boot : Boot s) (table : Table allowed s.ready s)
    (there : s.held[i]? = some task) (refused : E (.allocationFailed c.taskBytes))
    (next : ∀ s', Grown allowed [addr] s s' → s.heap addr = none → s'.heap = update s.heap addr (some task) →
      s'.held = s.held.eraseIdx i → Q () s') :
    Safe (Irq allowed) Fenced E (enqueue c addr i task) Q s := by
  have inside := (table.held task (List.mem_of_getElem? there)).1.slot
  simp only [enqueue,setTaskPtr,pushBack,bind_assoc]
  refine safe_perform (still_stable boot) (still_fenced boot) (still_refl s) ?_ ?_
  · rintro _ e ⟨n,_,rfl⟩ failed
    split at failed
    · cases failed
    · cases failed
      exact refused
  rintro _ b s' ⟨n₁,later₁,rfl⟩ ran
  split at ran
  · rename_i fresh
    cases ran
    refine boot_require (by exact boot) (fun fails => absurd inside (of_decide_eq_false fails)) ?_
    intro _
    refine boot_store (by exact boot) ?_
    rintro _ ⟨n₂,later₂,rfl⟩
    refine boot_store (k:=pure) (by exact boot) ?_
    rintro _ ⟨n₃,later₃,rfl⟩
    refine boot_ret (by exact boot) ?_
    rintro _ ⟨n₄,later₄,rfl⟩
    refine next _ ⟨?_,boot,rfl,?_,rfl,rfl,fun _ _ => rfl,fun _ set => set,?_⟩ fresh.2 rfl rfl
    · refine table_perm ?_ (List.perm_append_singleton addr s.ready).symm
      exact table_spawn table there fresh.1 fresh.2 rfl rfl rfl rfl rfl rfl
    · intro a boxed
      have other : a ≠ addr := by
        rintro rfl
        exact boxed fresh.2
      exact update_of_ne other _ _
    · intro steady
      exact Nat.le_trans (later₁ steady) (Nat.le_trans (later₂ steady) (Nat.le_trans (later₃ steady) (later₄ steady)))
  · cases ran

theorem boot_take {Q : α → Kernel → Prop} {k : Task → Kern α} (boot : Boot s) (there : s.held[i]? = some task)
    (next : ∀ s', Still allowed s s' → Safe (Irq allowed) Fenced E (k task) Q s') :
    Safe (Irq allowed) Fenced E (takeHeld i >>= k) Q s := by
  refine safe_perform (still_stable boot) (still_fenced boot) (still_refl s) ?_ ?_
  · rintro s' e ⟨n,_,rfl⟩ failed
    simp only [there] at failed
    cases failed
  · rintro s' b s'' ⟨n,later,rfl⟩ ran
    simp only [there] at ran
    cases ran
    exact next _ ⟨n,later,rfl⟩

theorem spawn_safe {Q : Unit → Kernel → Prop} (policy : Policy) (boot : Boot s) (table : Table allowed s.ready s)
    (there : s.held[i]? = some task) (refused : E (.allocationFailed c.taskBytes)) (zero : task.weight = 0 → E .zeroWeightRefused)
    (next : ∀ s', Grown allowed [addr] s s' → s.heap addr = none → s'.heap = update s.heap addr (some task) →
      s'.held = s.held.eraseIdx i → Q () s') :
    Safe (Irq allowed) Fenced E (spawn policy c i addr) Q s := by
  have tail : ∀ s₁, Still allowed s s₁ → Safe (Irq allowed) Fenced E (enqueue c addr i task) Q s₁ := by
    rintro _ ⟨n,later,rfl⟩
    refine enqueue_safe (by exact boot) (table_congr table rfl rfl rfl rfl rfl rfl) there refused ?_
    intro s' grown fresh heap held
    refine next s' ⟨grown.table,grown.boot,grown.ready,grown.heap,grown.log,grown.finished,grown.bounds,grown.used,?_⟩ fresh
      heap held
    intro steady
    exact Nat.le_trans (later steady) (grown.ticks steady)
  cases policy with
  | roundRobin => exact boot_take boot there tail
  | cfs =>
      refine boot_take boot there ?_
      intro s₁ still
      refine boot_require (still_boot boot still) (fun fails => zero (Nat.eq_zero_of_not_pos (of_decide_eq_false fails))) ?_
      intro _
      exact tail s₁ still

end construct
end RustyCore
