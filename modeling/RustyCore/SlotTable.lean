import RustyCore.TaskSwitching

namespace RustyCore
open InterruptedPrograms Function

theorem slotBit_get (small : i < 8) (j : ℕ) : (slotBit i).getLsbD j = decide (j = i) := by
  simp only [slotBit,BitVec.getLsbD_shiftLeft,BitVec.getLsbD_one]
  by_cases equal : j = i
  · subst equal
    simp [small]
  · by_cases below : j < i
    · simp [below,equal]
    · have positive : ¬ j-i = 0 := by omega
      simp [positive,equal]

theorem slot_clear {used : BitVec 8} (small : i < 8) : (used &&& slotBit i == 0) = true ↔ used.getLsbD i = false := by
  rw [beq_iff_eq]
  constructor
  · intro zero
    have bit := congrArg (fun v : BitVec 8 => v.getLsbD i) zero
    simpa [BitVec.getLsbD_and,slotBit_get small] using bit
  · intro clear
    apply BitVec.eq_of_getLsbD_eq
    intro j _
    rw [BitVec.getLsbD_and,slotBit_get small]
    by_cases equal : j = i
    · simp [equal,clear]
    · simp [equal]

theorem slot_set {used : BitVec 8} (small : i < 8) (j : ℕ) :
    (used ||| slotBit i).getLsbD j = (used.getLsbD j || decide (j = i)) := by
  rw [BitVec.getLsbD_or,slotBit_get small]

theorem slot_cleared {used : BitVec 8} (small : i < 8) (j : ℕ) :
    (used &&& ~~~ slotBit i).getLsbD j = (used.getLsbD j && !decide (j = i)) := by
  rw [BitVec.getLsbD_and,BitVec.getLsbD_not,slotBit_get small]
  by_cases inside : j < 8
  · simp [inside]
  · rw [BitVec.getLsbD_of_ge used j (by omega)]
    rfl

-- The four tables and the boxes against each other. `boxes` are the boxed tasks alive:
-- the queue, and during `schedule_once` also the task taken off it.
structure Table (allowed : Kernel → Interrupted → Prop) (boxes : List ℕ) (s : Kernel) : Prop where
  once : boxes.Nodup
  boxed : ∀ a ∈ boxes, ∃ task, s.heap a = some task ∧ Owns s a task
  held : ∀ task ∈ s.held, Reserved s task ∧ s.taskPtrs task.slot = 0
  apart : (s.held.map (·.slot)).Nodup
  used : ∀ i, s.slotUsed.getLsbD i = true →
    (∃ a ∈ boxes, ∃ task, s.heap a = some task ∧ task.slot = i) ∨ ∃ task ∈ s.held, task.slot = i
  free : ∀ i, i < MAX_TASKS → s.slotUsed.getLsbD i = false → s.taskFrames i = FullFrame.ZERO ∧ s.taskPtrs i = 0
  stash : Confined allowed → ∀ i, i < MAX_TASKS → s.slotUsed.getLsbD i = true →
    (s.taskFrames i).validFor (s.slotBounds i).1 (s.slotBounds i).2 = true

section table
variable {allowed : Kernel → Interrupted → Prop} {boxes : List ℕ} {s s' : Kernel}

theorem reserved_congr (reserved : Reserved s task) (used : s'.slotUsed = s.slotUsed) (bounds : s'.slotBounds = s.slotBounds) :
    Reserved s' task :=
  ⟨reserved.slot,used ▸ reserved.used,bounds ▸ reserved.bounds,reserved.aligned,reserved.nonzero,reserved.template,
    reserved.entry⟩

theorem owns_congr (owns : Owns s addr task) (used : s'.slotUsed = s.slotUsed) (bounds : s'.slotBounds = s.slotBounds)
    (pointers : s'.taskPtrs = s.taskPtrs) : Owns s' addr task :=
  ⟨reserved_congr owns.toReserved used bounds,owns.nonnull,pointers ▸ owns.pointer⟩

theorem table_congr (table : Table allowed boxes s) (heap : s'.heap = s.heap) (held : s'.held = s.held)
    (used : s'.slotUsed = s.slotUsed) (frames : s'.taskFrames = s.taskFrames) (bounds : s'.slotBounds = s.slotBounds)
    (pointers : s'.taskPtrs = s.taskPtrs) : Table allowed boxes s' := by
  refine ⟨table.once,?_,?_,by rw [held]; exact table.apart,?_,?_,?_⟩
  · intro a member
    obtain ⟨task,here,owns⟩ := table.boxed a member
    exact ⟨task,by rw [heap]; exact here,owns_congr owns used bounds pointers⟩
  · intro task member
    rw [held] at member
    obtain ⟨reserved,null⟩ := table.held task member
    exact ⟨reserved_congr reserved used bounds,by rw [pointers]; exact null⟩
  · rw [used,heap,held]
    exact table.used
  · rw [used,frames,pointers]
    exact table.free
  · rw [used,frames,bounds]
    exact table.stash

theorem table_perm (table : Table allowed boxes s) (perm : boxes.Perm boxes') : Table allowed boxes' s := by
  refine ⟨perm.nodup_iff.mp table.once,fun a member => table.boxed a (perm.mem_iff.mpr member),table.held,table.apart,?_,
    table.free,table.stash⟩
  intro i set
  rcases table.used i set with ⟨a,member,rest⟩ | held
  · exact Or.inl ⟨a,perm.mem_iff.mp member,rest⟩
  · exact Or.inr held

-- Two live tasks never share a slot: the pointer table tells boxed ones apart, and the
-- tasks in hand have no pointer yet.
theorem boxes_apart (table : Table allowed boxes s) (left : a ∈ boxes) (right : b ∈ boxes) (here : s.heap a = some task)
    (there : s.heap b = some task') (same : task.slot = task'.slot) : a = b := by
  obtain ⟨t,found,owns⟩ := table.boxed a left
  obtain ⟨t',found',owns'⟩ := table.boxed b right
  cases here.symm.trans found
  cases there.symm.trans found'
  rw [← owns.pointer,← owns'.pointer,same]

theorem held_apart (table : Table allowed boxes s) (member : a ∈ boxes) (here : s.heap a = some task)
    (other : task' ∈ s.held) : task.slot ≠ task'.slot := by
  obtain ⟨t,found,owns⟩ := table.boxed a member
  cases here.symm.trans found
  intro same
  have null := (table.held task' other).2
  rw [← same,owns.pointer] at null
  exact owns.nonnull null

theorem table_at (table : Table allowed boxes s) (member : addr ∈ boxes) (here : s.heap addr = some task)
    (owns : Owns s addr task') (slot : task'.slot = task.slot) (now : At allowed s addr task' place s') :
    Table allowed boxes s' := by
  refine ⟨table.once,?_,?_,by rw [now.held]; exact table.apart,?_,?_,?_⟩
  · intro a listed
    by_cases same : a = addr
    · subst same
      exact ⟨task',by rw [now.heap,update_self],owns_congr owns now.used now.bounds now.pointers⟩
    · obtain ⟨t,found,own⟩ := table.boxed a listed
      exact ⟨t,by rw [now.heap,update_of_ne same]; exact found,owns_congr own now.used now.bounds now.pointers⟩
  · intro t listed
    rw [now.held] at listed
    obtain ⟨reserved,null⟩ := table.held t listed
    exact ⟨reserved_congr reserved now.used now.bounds,by rw [now.pointers]; exact null⟩
  · intro i set
    rw [now.used] at set
    rw [now.held]
    rcases table.used i set with ⟨a,listed,t,found,equal⟩ | held
    · by_cases same : a = addr
      · subst same
        cases here.symm.trans found
        exact Or.inl ⟨a,listed,task',by rw [now.heap,update_self],slot.trans equal⟩
      · exact Or.inl ⟨a,listed,t,by rw [now.heap,update_of_ne same]; exact found,equal⟩
    · exact Or.inr held
  · intro i inside clear
    rw [now.used] at clear
    have other : i ≠ task'.slot := by
      rintro rfl
      rw [owns.used] at clear
      cases clear
    rw [now.frames i other,now.pointers]
    exact table.free i inside clear
  · intro confined i inside set
    rw [now.used] at set
    rw [now.bounds]
    have before := table.stash confined i inside set
    by_cases equal : i = task'.slot
    · subst equal
      rw [owns.bounds] at before ⊢
      exact now.stash confined before
    · rw [now.frames i equal]
      exact before

theorem table_write (table : Table allowed boxes s) (member : addr ∈ boxes) (here : s.heap addr = some task)
    (owns : Owns s addr task') (slot : task'.slot = task.slot) :
    Table allowed boxes {s with heap := update s.heap addr (some task')} := by
  have now : At allowed s addr task' ⟨s.stack,s.currentIdx,s.preemptible,s.interruptFlag,s.stepLog⟩
      {s with heap := update s.heap addr (some task')} :=
    ⟨rfl,rfl,rfl,rfl,rfl,rfl,rfl,rfl,rfl,rfl,rfl,rfl,fun _ _ => rfl,fun _ valid => valid,fun _ => Nat.le_refl _⟩
  exact table_at table member here owns slot now

theorem table_construct (table : Table allowed boxes s) (inside : task.slot < MAX_TASKS)
    (clear : s.slotUsed.getLsbD task.slot = false) (aligned : task.stack.bottom % 16 = 0) (nonzero : task.stack.bottom ≠ 0)
    (template : task.preempt.validFor task.stack.bottom task.stack.top = true)
    (entry : ∀ rsp, task.ctx = .bootstrap rsp → (rsp+56) % 16 = 8) (heap : s'.heap = s.heap) (pointers : s'.taskPtrs = s.taskPtrs)
    (held : s'.held = s.held ++ [task]) (used : s'.slotUsed = s.slotUsed ||| slotBit task.slot)
    (frames : s'.taskFrames = update s.taskFrames task.slot task.preempt)
    (bounds : s'.slotBounds = update s.slotBounds task.slot (task.stack.bottom,task.stack.top)) : Table allowed boxes s' := by
  have bit : ∀ i, s'.slotUsed.getLsbD i = (s.slotUsed.getLsbD i || decide (i = task.slot)) := by
    intro i
    rw [used]
    exact slot_set (Nat.lt_trans inside (by decide)) i
  have old : ∀ t, Reserved s t → t.slot ≠ task.slot ∧ Reserved s' t := by
    intro t reserved
    have other : t.slot ≠ task.slot := by
      intro same
      have set := reserved.used
      rw [same,clear] at set
      cases set
    refine ⟨other,reserved.slot,?_,?_,reserved.aligned,reserved.nonzero,reserved.template,reserved.entry⟩
    · rw [bit,reserved.used]
      rfl
    · rw [bounds,update_of_ne other]
      exact reserved.bounds
  refine ⟨table.once,?_,?_,?_,?_,?_,?_⟩
  · intro a member
    obtain ⟨t,found,owns⟩ := table.boxed a member
    exact ⟨t,by rw [heap]; exact found,(old t owns.toReserved).2,owns.nonnull,by rw [pointers]; exact owns.pointer⟩
  · intro t member
    rw [held,List.mem_append,List.mem_singleton] at member
    rw [pointers]
    rcases member with listed | rfl
    · obtain ⟨reserved,null⟩ := table.held t listed
      exact ⟨(old t reserved).2,null⟩
    · refine ⟨⟨inside,?_,?_,aligned,nonzero,template,entry⟩,(table.free _ inside clear).2⟩
      · rw [bit]
        simp
      · rw [bounds,update_self]
  · rw [held,List.map_append,List.nodup_append]
    refine ⟨table.apart,List.nodup_singleton _,?_⟩
    intro i left j right equal
    obtain ⟨t,listed,rfl⟩ := List.mem_map.mp left
    rw [List.map_singleton,List.mem_singleton] at right
    exact (old t (table.held t listed).1).1 (equal.trans right)
  · intro i set
    rw [bit,Bool.or_eq_true,decide_eq_true_eq] at set
    rw [heap,held]
    rcases set with before | rfl
    · rcases table.used i before with boxed | ⟨t,listed,equal⟩
      · exact Or.inl boxed
      · exact Or.inr ⟨t,List.mem_append_left _ listed,equal⟩
    · exact Or.inr ⟨task,List.mem_append_right _ (List.mem_singleton_self _),rfl⟩
  · intro i small unset
    rw [bit,Bool.or_eq_false_iff,decide_eq_false_iff_not] at unset
    rw [frames,pointers,update_of_ne unset.2]
    exact table.free i small unset.1
  · intro confined i small set
    rw [bit,Bool.or_eq_true,decide_eq_true_eq] at set
    by_cases equal : i = task.slot
    · subst equal
      rw [frames,bounds,update_self,update_self]
      exact template
    · rw [frames,bounds,update_of_ne equal,update_of_ne equal]
      exact table.stash confined i small (set.resolve_right equal)

theorem table_spawn (table : Table allowed boxes s) (there : s.held[i]? = some task) (nonnull : addr ≠ 0)
    (unused : s.heap addr = none) (heap : s'.heap = update s.heap addr (some task))
    (pointers : s'.taskPtrs = update s.taskPtrs task.slot addr) (held : s'.held = s.held.eraseIdx i)
    (used : s'.slotUsed = s.slotUsed) (frames : s'.taskFrames = s.taskFrames) (bounds : s'.slotBounds = s.slotBounds) :
    Table allowed (addr :: boxes) s' := by
  obtain ⟨bound,rfl⟩ := List.getElem?_eq_some_iff.mp there
  have perm := List.getElem_cons_eraseIdx_perm bound
  have listed : s.held[i] ∈ s.held := List.getElem_mem bound
  generalize s.held[i] = task at there perm listed heap pointers
  obtain ⟨reserved,_⟩ := table.held task listed
  have slots := (perm.map (·.slot)).nodup_iff.mpr table.apart
  rw [List.map_cons,List.nodup_cons] at slots
  have outside : addr ∉ boxes := by
    intro member
    obtain ⟨t,found,_⟩ := table.boxed addr member
    rw [unused] at found
    cases found
  refine ⟨List.nodup_cons.mpr ⟨outside,table.once⟩,?_,?_,by rw [held]; exact slots.2,?_,?_,?_⟩
  · intro a member
    rcases List.mem_cons.mp member with rfl | old
    · exact ⟨task,by rw [heap,update_self],reserved_congr reserved used bounds,nonnull,by rw [pointers,update_self]⟩
    · obtain ⟨t,found,owns⟩ := table.boxed a old
      have other : a ≠ addr := fun same => outside (same ▸ old)
      refine ⟨t,by rw [heap,update_of_ne other]; exact found,reserved_congr owns.toReserved used bounds,owns.nonnull,?_⟩
      rw [pointers,update_of_ne (held_apart table old found listed)]
      exact owns.pointer
  · intro t member
    rw [held] at member
    obtain ⟨reserved',null⟩ := table.held t (List.eraseIdx_sublist _ _ |>.mem member)
    refine ⟨reserved_congr reserved' used bounds,?_⟩
    rw [pointers,update_of_ne]
    · exact null
    · intro same
      exact slots.1 (List.mem_map.mpr ⟨t,member,same⟩)
  · intro j set
    rw [used] at set
    rw [held]
    rcases table.used j set with ⟨a,member,t,found,equal⟩ | ⟨t,member,equal⟩
    · have other : a ≠ addr := fun same => outside (same ▸ member)
      exact Or.inl ⟨a,List.mem_cons_of_mem _ member,t,by rw [heap,update_of_ne other]; exact found,equal⟩
    · rcases List.mem_cons.mp (perm.mem_iff.mpr member) with rfl | old
      · exact Or.inl ⟨addr,List.mem_cons_self,t,by rw [heap,update_self],equal⟩
      · exact Or.inr ⟨t,old,equal⟩
  · intro j inside clear
    rw [used] at clear
    rw [frames,pointers,update_of_ne]
    · exact table.free j inside clear
    · rintro rfl
      rw [reserved.used] at clear
      cases clear
  · rw [used,frames,bounds]
    exact table.stash

theorem table_retire (table : Table allowed (addr :: boxes) s) (here : s.heap addr = some task)
    (heap : s'.heap = update s.heap addr none) (pointers : s'.taskPtrs = update s.taskPtrs task.slot 0)
    (held : s'.held = s.held) (used : s'.slotUsed = s.slotUsed &&& ~~~ slotBit task.slot)
    (frames : s'.taskFrames = update s.taskFrames task.slot FullFrame.ZERO) (bounds : s'.slotBounds = s.slotBounds) :
    Table allowed boxes s' := by
  obtain ⟨outside,once⟩ := List.nodup_cons.mp table.once
  obtain ⟨t,found,owns⟩ := table.boxed addr List.mem_cons_self
  cases here.symm.trans found
  have bit : ∀ i, s'.slotUsed.getLsbD i = (s.slotUsed.getLsbD i && !decide (i = task.slot)) := by
    intro i
    rw [used]
    exact slot_cleared (Nat.lt_trans owns.slot (by decide)) i
  have kept : ∀ t, Reserved s t → t.slot ≠ task.slot → Reserved s' t := by
    intro t reserved other
    refine ⟨reserved.slot,?_,by rw [bounds]; exact reserved.bounds,reserved.aligned,reserved.nonzero,reserved.template,
      reserved.entry⟩
    rw [bit,reserved.used]
    simp [other]
  refine ⟨once,?_,?_,by rw [held]; exact table.apart,?_,?_,?_⟩
  · intro a member
    obtain ⟨t,found',own⟩ := table.boxed a (List.mem_cons_of_mem _ member)
    have other : a ≠ addr := fun same => outside (same ▸ member)
    have apart : t.slot ≠ task.slot := fun same =>
      other (boxes_apart table (List.mem_cons_of_mem _ member) List.mem_cons_self found' here same)
    refine ⟨t,by rw [heap,update_of_ne other]; exact found',kept t own.toReserved apart,own.nonnull,?_⟩
    rw [pointers,update_of_ne apart]
    exact own.pointer
  · intro t member
    rw [held] at member
    have apart := held_apart table List.mem_cons_self here member
    obtain ⟨reserved,null⟩ := table.held t member
    refine ⟨kept t reserved apart.symm,?_⟩
    rw [pointers,update_of_ne apart.symm]
    exact null
  · intro i set
    rw [bit,Bool.and_eq_true,Bool.not_eq_true',decide_eq_false_iff_not] at set
    rw [held]
    rcases table.used i set.1 with ⟨a,member,t,found',equal⟩ | left
    · rcases List.mem_cons.mp member with rfl | old
      · cases here.symm.trans found'
        exact absurd equal.symm set.2
      · have other : a ≠ addr := fun same => outside (same ▸ old)
        exact Or.inl ⟨a,old,t,by rw [heap,update_of_ne other]; exact found',equal⟩
    · exact Or.inr left
  · intro i inside clear
    by_cases equal : i = task.slot
    · subst equal
      rw [frames,pointers,update_self,update_self]
      exact ⟨rfl,rfl⟩
    · rw [frames,pointers,update_of_ne equal,update_of_ne equal]
      rw [bit] at clear
      simp only [equal,decide_false,Bool.not_false,Bool.and_true] at clear
      exact table.free i inside clear
  · intro confined i inside set
    rw [bit,Bool.and_eq_true,Bool.not_eq_true',decide_eq_false_iff_not] at set
    rw [frames,bounds,update_of_ne set.2]
    exact table.stash confined i inside set.1

end table
end RustyCore
