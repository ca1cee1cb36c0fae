import RustyCore.Schedulers

namespace RustyCore
open InterruptedPrograms Function Relation

-- The fence as a fact about one state: it is up only with interrupts enabled on a task's
-- stack, and whoever runs on a task's stack is the task that the index, the occupancy
-- bit and the pointer table name.
structure Fenced (s : Kernel) : Prop where
  window : s.preemptible ≠ 0 → s.preemptible = 1 ∧ s.interruptFlag = true ∧ s.stack ≠ none
  owner : ∀ addr, s.stack = some addr → ∃ task, s.heap addr = some task ∧ s.currentIdx = task.slot ∧
    task.slot < MAX_TASKS ∧ s.slotUsed.getLsbD task.slot = true ∧ s.taskPtrs task.slot = addr ∧ addr ≠ 0

-- Ticks that never wrap the counter, and ticks that catch a step with sixteen bytes of
-- its own canonical stack window below RSP.
def Steady (allowed : Kernel → Interrupted → Prop) : Prop := ∀ s regs, allowed s regs → s.apicTicks+1 < 2^64

def InWindow (s : Kernel) (regs : Interrupted) : Prop :=
  (s.slotBounds s.currentIdx).1+16 ≤ regs.rsp ∧ regs.rsp ≤ (s.slotBounds s.currentIdx).2 ∧
    ∀ x, (s.slotBounds s.currentIdx).1 ≤ x → x ≤ (s.slotBounds s.currentIdx).2 → Canonical x

def Confined (allowed : Kernel → Interrupted → Prop) : Prop :=
  ∀ s regs, allowed s regs → s.preemptible ≠ 0 → InWindow s regs

-- The faults a call can end in. The others are ruled out, and two of these only happen
-- for the reason given.
def Expected (full confined : Prop) : Panic → Prop
  | .tableFull => full
  | .stashInvalid _ _ => ¬ confined
  | .allocationFailed _ | .stackTopMisaligned | .freshFrameInvalid | .emptyWindow _ | .stackOverflow _ _
  | .zeroWeight | .zeroWeightRefused | .arithmetic _ => True
  | _ => False

def Boot (s : Kernel) : Prop := s.stack = none ∧ s.preemptible = 0

theorem boot_fenced (boot : Boot s) : Fenced s := by
  refine ⟨fun up => absurd boot.2 up,?_⟩
  intro addr running
  rw [boot.1] at running
  cases running

theorem tick_quiet (regs : Interrupted) (down : s.preemptible = 0) :
    tick regs s = {s with apicTicks := (s.apicTicks+1) % 2^64} := by
  simp [tick,down]

theorem tick_taken (regs : Interrupted)
    (taken : s.preemptible ≠ 0 ∧ s.currentIdx < MAX_TASKS ∧ s.slotUsed.getLsbD s.currentIdx = true) :
    tick regs s = {s with apicTicks := (s.apicTicks+1) % 2^64, preemptSwitches := (s.preemptSwitches+1) % 2^64
                          taskFrames := update s.taskFrames s.currentIdx regs.stash} := by
  simp only [tick]
  rw [if_pos taken]

theorem tick_ticks (regs : Interrupted) (s : Kernel) : (tick regs s).apicTicks = (s.apicTicks+1) % 2^64 := by
  simp only [tick]
  split <;> rfl

theorem tick_entry (regs : Interrupted) (s : Kernel) : (tick regs s).trampolineEntryRsp = s.trampolineEntryRsp := by
  simp only [tick]
  split <;> rfl

theorem tick_current (regs : Interrupted) (s : Kernel) : (tick regs s).currentIdx = s.currentIdx := by
  simp only [tick]
  split <;> rfl

theorem tick_pointers (regs : Interrupted) (s : Kernel) : (tick regs s).taskPtrs = s.taskPtrs := by
  simp only [tick]
  split <;> rfl

theorem ticks_steady {allowed : Kernel → Interrupted → Prop} (steady : Steady allowed) (valid : allowed s regs) :
    s.apicTicks ≤ (tick regs s).apicTicks := by
  have bound := steady s regs valid
  rw [tick_ticks,Nat.mod_eq_of_lt bound]
  exact Nat.le_succ _

section driver
variable (allowed : Kernel → Interrupted → Prop)

-- With the fence down ticks change the counter and nothing else.
def Still (s s' : Kernel) : Prop := ∃ n, (Steady allowed → s.apicTicks ≤ n) ∧ s' = {s with apicTicks := n}

variable {allowed}

theorem still_refl (s : Kernel) : Still allowed s s := ⟨s.apicTicks,fun _ => Nat.le_refl _,rfl⟩

theorem still_boot (boot : Boot s) (still : Still allowed s s') : Boot s' := by
  obtain ⟨n,_,rfl⟩ := still
  exact ⟨boot.1,boot.2⟩

theorem still_stable (boot : Boot s₀) (s s' : Kernel) (still : Still allowed s₀ s) (fired : Irq allowed s s') :
    Still allowed s₀ s' := by
  obtain ⟨regs,_,valid,rfl⟩ := fired
  have quiet := tick_quiet regs (still_boot boot still).2
  obtain ⟨n,later,rfl⟩ := still
  refine ⟨_,?_,quiet⟩
  intro steady
  have grown := ticks_steady steady valid
  rw [tick_ticks] at grown
  exact Nat.le_trans (later steady) grown

theorem still_fenced (boot : Boot s₀) (s : Kernel) (still : Still allowed s₀ s) : Fenced s :=
  boot_fenced (still_boot boot still)

section rules
variable {E : Panic → Prop} {Q : α → Kernel → Prop} {s : Kernel} (boot : Boot s)
include boot

theorem boot_ret (post : ∀ s', Still allowed s s' → Q value s') : Safe (Irq allowed) Fenced E (.ret value : Kern α) Q s :=
  safe_ret (still_stable boot) (still_fenced boot) (still_refl s) post

theorem boot_load {f : Kernel → β} {k : β → Kern α} (next : ∀ s', Still allowed s s' → Safe (Irq allowed) Fenced E (k (f s')) Q s') :
    Safe (Irq allowed) Fenced E (Prog.load f >>= k) Q s :=
  safe_load (still_stable boot) (still_fenced boot) (still_refl s) next

theorem boot_store {f : Kernel → Kernel} {k : Unit → Kern α}
    (next : ∀ s', Still allowed s s' → Safe (Irq allowed) Fenced E (k ()) Q (f s')) :
    Safe (Irq allowed) Fenced E (Prog.store f >>= k) Q s :=
  safe_store (still_stable boot) (still_fenced boot) (still_refl s) next

theorem boot_fail (expected : E fault) : Safe (Irq allowed) Fenced E (Prog.fail fault : Kern α) Q s :=
  safe_fail (still_stable boot) (still_fenced boot) (still_refl s) expected

theorem boot_require {k : Unit → Kern α} (expected : holds = false → E fault)
    (next : holds = true → Safe (Irq allowed) Fenced E (k ()) Q s) :
    Safe (Irq allowed) Fenced E (Prog.require holds fault >>= k) Q s :=
  safe_require (still_stable boot) (still_fenced boot) (still_refl s) expected next

theorem boot_lift {x : Except Fault β} {k : β → Kern α} (expected : ∀ f, E (.arithmetic f))
    (next : ∀ b, x = .ok b → Safe (Irq allowed) Fenced E (k b) Q s) : Safe (Irq allowed) Fenced E (lift x >>= k) Q s := by
  cases x with
  | ok b => exact next b rfl
  | error fault => exact safe_bind (boot_fail boot (expected fault))

theorem boot_deref {k : Task → Kern α} (here : s.heap addr = some task)
    (next : ∀ s', Still allowed s s' → Safe (Irq allowed) Fenced E (k task) Q s') :
    Safe (Irq allowed) Fenced E (deref addr >>= k) Q s := by
  refine safe_perform (still_stable boot) (still_fenced boot) (still_refl s) ?_ ?_
  · rintro s' e ⟨n,_,rfl⟩ failed
    simp only [here] at failed
    cases failed
  · rintro s' b s'' ⟨n,later,rfl⟩ ran
    simp only [here] at ran
    cases ran
    exact next _ ⟨n,later,rfl⟩

theorem boot_write {f : Task → Task} {k : Unit → Kern α} (here : s.heap addr = some task)
    (next : ∀ s', Still allowed s s' → Safe (Irq allowed) Fenced E (k ()) Q {s' with heap := update s.heap addr (some (f task))}) :
    Safe (Irq allowed) Fenced E (writeTask addr f >>= k) Q s := by
  refine safe_perform (still_stable boot) (still_fenced boot) (still_refl s) ?_ ?_
  · rintro s' e ⟨n,_,rfl⟩ failed
    simp only [here] at failed
    cases failed
  · rintro s' b s'' ⟨n,later,rfl⟩ ran
    simp only [here] at ran
    cases ran
    exact next _ ⟨n,later,rfl⟩

end rules
end driver

structure Reserved (s : Kernel) (task : Task) : Prop where
  slot : task.slot < MAX_TASKS
  used : s.slotUsed.getLsbD task.slot = true
  bounds : s.slotBounds task.slot = (task.stack.bottom,task.stack.top)
  aligned : task.stack.bottom % 16 = 0
  nonzero : task.stack.bottom ≠ 0
  template : task.preempt.validFor task.stack.bottom task.stack.top = true
  entry : ∀ rsp, task.ctx = .bootstrap rsp → (rsp+56) % 16 = 8

structure Owns (s : Kernel) (addr : ℕ) (task : Task) : Prop extends Reserved s task where
  nonnull : addr ≠ 0
  pointer : s.taskPtrs task.slot = addr

-- The CPU's place during a switch: the stack it is on, the published index, the fence, the
-- interrupt flag and the step calls so far.
structure Place where
  stack : Option ℕ
  current : ℕ
  fence : ℕ
  flag : Bool
  log : List ℕ

structure Place.Sound (place : Place) (addr slot : ℕ) : Prop where
  up : place.fence ≠ 0 → place.fence = 1 ∧ place.flag = true ∧ place.stack = some addr
  stack : place.stack = none ∨ place.stack = some addr ∧ place.current = slot

-- A state at a place during the switch to the task at `addr`, against the state `s₀` the
-- switch was called in: of the tables only the task's own frame may differ.
structure At (allowed : Kernel → Interrupted → Prop) (s₀ : Kernel) (addr : ℕ) (task : Task) (place : Place)
    (s : Kernel) : Prop where
  fence : s.preemptible = place.fence
  flag : s.interruptFlag = place.flag
  stack : s.stack = place.stack
  current : s.currentIdx = place.current
  log : s.stepLog = place.log
  heap : s.heap = update s₀.heap addr (some task)
  ready : s.ready = s₀.ready
  held : s.held = s₀.held
  finished : s.finishedRuns = s₀.finishedRuns
  used : s.slotUsed = s₀.slotUsed
  bounds : s.slotBounds = s₀.slotBounds
  pointers : s.taskPtrs = s₀.taskPtrs
  frames : ∀ i, i ≠ task.slot → s.taskFrames i = s₀.taskFrames i
  stash : Confined allowed → (s₀.taskFrames task.slot).validFor task.stack.bottom task.stack.top = true →
    (s.taskFrames task.slot).validFor task.stack.bottom task.stack.top = true
  ticks : Steady allowed → s₀.apicTicks ≤ s.apicTicks

section switch
variable {allowed : Kernel → Interrupted → Prop} {s₀ : Kernel} {addr : ℕ}

theorem at_stable (owns : Owns s₀ addr task) (sound : place.Sound addr task.slot) (s s' : Kernel)
    (now : At allowed s₀ addr task place s) (fired : Irq allowed s s') : At allowed s₀ addr task place s' := by
  obtain ⟨regs,_,valid,rfl⟩ := fired
  have ticks : Steady allowed → s₀.apicTicks ≤ (tick regs s).apicTicks :=
    fun steady => Nat.le_trans (now.ticks steady) (ticks_steady steady valid)
  by_cases down : place.fence = 0
  · rw [tick_quiet regs (now.fence.trans down)] at ticks ⊢
    exact ⟨now.fence,now.flag,now.stack,now.current,now.log,now.heap,now.ready,now.held,now.finished,now.used,
      now.bounds,now.pointers,now.frames,now.stash,ticks⟩
  · obtain ⟨_,_,running⟩ := sound.up down
    have index : place.current = task.slot := by
      rcases sound.stack with off | ⟨_,index⟩
      · rw [off] at running
        cases running
      · exact index
    have current := now.current.trans index
    have raised : s.preemptible ≠ 0 := by rw [now.fence]; exact down
    have taken : s.preemptible ≠ 0 ∧ s.currentIdx < MAX_TASKS ∧ s.slotUsed.getLsbD s.currentIdx = true := by
      rw [current,now.used]
      exact ⟨raised,owns.slot,owns.used⟩
    rw [tick_taken regs taken] at ticks ⊢
    refine ⟨now.fence,now.flag,now.stack,now.current,now.log,now.heap,now.ready,now.held,now.finished,now.used,
      now.bounds,now.pointers,?_,?_,ticks⟩
    · intro i other
      show update s.taskFrames s.currentIdx regs.stash i = _
      rw [update_of_ne (current ▸ other)]
      exact now.frames i other
    · intro confined _
      show (update s.taskFrames s.currentIdx regs.stash task.slot).validFor _ _ = true
      rw [current,update_self]
      obtain ⟨least,most,canonical⟩ := confined s regs valid raised
      rw [current,now.bounds,owns.bounds] at least most canonical
      exact regs.stash_valid least most owns.aligned canonical

theorem at_fenced (owns : Owns s₀ addr task) (sound : place.Sound addr task.slot) (s : Kernel)
    (now : At allowed s₀ addr task place s) : Fenced s := by
  constructor
  · intro up
    rw [now.fence] at up ⊢
    obtain ⟨one,flag,running⟩ := sound.up up
    refine ⟨one,now.flag.trans flag,?_⟩
    rw [now.stack,running]
    exact Option.some_ne_none _
  · intro other running
    rw [now.stack] at running
    rcases sound.stack with off | ⟨stack,index⟩
    · rw [off] at running
      cases running
    · cases stack.symm.trans running
      refine ⟨task,by rw [now.heap,update_self],now.current.trans index,owns.slot,?_,?_,owns.nonnull⟩
      · rw [now.used]
        exact owns.used
      · rw [now.pointers]
        exact owns.pointer

theorem at_start (allowed : Kernel → Interrupted → Prop) (boot : Boot s₀) (here : s₀.heap addr = some task) :
    At allowed s₀ addr task ⟨none,s₀.currentIdx,0,s₀.interruptFlag,s₀.stepLog⟩ s₀ :=
  ⟨boot.2,rfl,boot.1,rfl,rfl,by rw [← here,update_eq_self],rfl,rfl,rfl,rfl,rfl,rfl,fun _ _ => rfl,fun _ valid => valid,
    fun _ => Nat.le_refl _⟩

theorem at_flag (flag : Bool) (now : At allowed s₀ addr task place s) :
    At allowed s₀ addr task {place with flag := flag} {s with interruptFlag := flag} :=
  ⟨now.fence,rfl,now.stack,now.current,now.log,now.heap,now.ready,now.held,now.finished,now.used,now.bounds,
    now.pointers,now.frames,now.stash,now.ticks⟩

theorem at_fence (fence : ℕ) (now : At allowed s₀ addr task place s) :
    At allowed s₀ addr task {place with fence := fence} {s with preemptible := fence} :=
  ⟨rfl,now.flag,now.stack,now.current,now.log,now.heap,now.ready,now.held,now.finished,now.used,now.bounds,
    now.pointers,now.frames,now.stash,now.ticks⟩

theorem at_stack (stack : Option ℕ) (now : At allowed s₀ addr task place s) :
    At allowed s₀ addr task {place with stack := stack} {s with stack := stack} :=
  ⟨now.fence,now.flag,rfl,now.current,now.log,now.heap,now.ready,now.held,now.finished,now.used,now.bounds,
    now.pointers,now.frames,now.stash,now.ticks⟩

theorem at_current (idx : ℕ) (small : idx < 2^8) (now : At allowed s₀ addr task place s) :
    At allowed s₀ addr task {place with current := idx} {s with currentIdx := idx % 2^8} :=
  ⟨now.fence,now.flag,now.stack,Nat.mod_eq_of_lt small,now.log,now.heap,now.ready,now.held,now.finished,now.used,
    now.bounds,now.pointers,now.frames,now.stash,now.ticks⟩

theorem at_log (now : At allowed s₀ addr task place s) :
    At allowed s₀ addr task {place with log := place.log ++ [addr]} {s with stepLog := s.stepLog ++ [addr]} :=
  ⟨now.fence,now.flag,now.stack,now.current,by rw [now.log],now.heap,now.ready,now.held,now.finished,now.used,
    now.bounds,now.pointers,now.frames,now.stash,now.ticks⟩

theorem at_registers (rsp0 entry : ℕ) (now : At allowed s₀ addr task place s) :
    At allowed s₀ addr task place {s with rsp0 := rsp0, trampolineEntryRsp := entry} :=
  ⟨now.fence,now.flag,now.stack,now.current,now.log,now.heap,now.ready,now.held,now.finished,now.used,now.bounds,
    now.pointers,now.frames,now.stash,now.ticks⟩

section rules
variable {E : Panic → Prop} {Q : α → Kernel → Prop} {task : Task} {place : Place} {s : Kernel}
  (owns : Owns s₀ addr task) (sound : place.Sound addr task.slot) (now : At allowed s₀ addr task place s)
include owns sound now

theorem at_load {f : Kernel → β} {k : β → Kern α}
    (next : ∀ s', At allowed s₀ addr task place s' → Safe (Irq allowed) Fenced E (k (f s')) Q s') :
    Safe (Irq allowed) Fenced E (Prog.load f >>= k) Q s :=
  safe_load (at_stable owns sound) (at_fenced owns sound) now next

theorem at_store {f : Kernel → Kernel} {k : Unit → Kern α}
    (next : ∀ s', At allowed s₀ addr task place s' → Safe (Irq allowed) Fenced E (k ()) Q (f s')) :
    Safe (Irq allowed) Fenced E (Prog.store f >>= k) Q s :=
  safe_store (at_stable owns sound) (at_fenced owns sound) now next

theorem at_fail (expected : E fault) : Safe (Irq allowed) Fenced E (Prog.fail fault : Kern α) Q s :=
  safe_fail (at_stable owns sound) (at_fenced owns sound) now expected

theorem at_require {k : Unit → Kern α} (passes : holds = true)
    (next : Safe (Irq allowed) Fenced E (k ()) Q s) : Safe (Irq allowed) Fenced E (Prog.require holds fault >>= k) Q s :=
  safe_require (at_stable owns sound) (at_fenced owns sound) now (fun fails => by rw [passes] at fails; cases fails) fun _ => next

theorem at_lift {x : Except Fault β} {k : β → Kern α} (expected : ∀ f, x = .error f → E (.arithmetic f))
    (next : ∀ b, x = .ok b → Safe (Irq allowed) Fenced E (k b) Q s) : Safe (Irq allowed) Fenced E (lift x >>= k) Q s := by
  cases x with
  | ok b => exact next b rfl
  | error fault => exact safe_bind (at_fail owns sound now (expected fault rfl))

theorem at_deref {k : Task → Kern α}
    (next : ∀ s', At allowed s₀ addr task place s' → Safe (Irq allowed) Fenced E (k task) Q s') :
    Safe (Irq allowed) Fenced E (deref addr >>= k) Q s := by
  refine safe_perform (at_stable owns sound) (at_fenced owns sound) now ?_ ?_
  · intro s' e kept failed
    simp only [kept.heap,update_self] at failed
    cases failed
  · intro s' b s'' kept ran
    simp only [kept.heap,update_self] at ran
    cases ran
    exact next s' kept

theorem at_write {f : Task → Task} {k : Unit → Kern α}
    (slot : (f task).slot = task.slot) (window : (f task).stack.bottom = task.stack.bottom ∧ (f task).stack.top = task.stack.top)
    (next : ∀ s', At allowed s₀ addr (f task) place s' → Safe (Irq allowed) Fenced E (k ()) Q s') :
    Safe (Irq allowed) Fenced E (writeTask addr f >>= k) Q s := by
  refine safe_perform (at_stable owns sound) (at_fenced owns sound) now ?_ ?_
  · intro s' e kept failed
    simp only [kept.heap,update_self] at failed
    cases failed
  · intro s' b s'' kept ran
    simp only [kept.heap,update_self,update_idem] at ran
    cases ran
    refine next _ ⟨kept.fence,kept.flag,kept.stack,kept.current,kept.log,rfl,kept.ready,kept.held,kept.finished,
      kept.used,kept.bounds,kept.pointers,?_,?_,kept.ticks⟩
    · rw [slot]
      exact kept.frames
    · rw [slot,window.1,window.2]
      exact kept.stash

theorem at_instructions (work : ℕ) {k : Unit → Kern α}
    (next : ∀ s', At allowed s₀ addr task place s' → Safe (Irq allowed) Fenced E (k ()) Q s') :
    Safe (Irq allowed) Fenced E (instructions work >>= k) Q s := by
  induction work generalizing s with
  | zero => exact next s now
  | succ work ih =>
      refine at_store owns sound now ?_
      intro s' kept
      exact ih kept

end rules

def called (task : Task) : Task :=
  {task with step := ⟨task.step.outcome,task.step.calls+1⟩
             stack := {task.stack with canary := (task.step.outcome task.step.calls).canary}}

def afterStep (task : Task) (runs : ℕ) : Task :=
  {called task with runs := runs, ctx := .yielded
                    state := if (task.step.outcome task.step.calls).alive then .ready else .finished}

theorem owns_same (owns : Owns s₀ addr task) (task' : Task) (slot : task'.slot = task.slot)
    (bottom : task'.stack.bottom = task.stack.bottom) (top : task'.stack.top = task.stack.top)
    (template : task'.preempt = task.preempt) (ctx : task'.ctx = task.ctx ∨ task'.ctx = .yielded) : Owns s₀ addr task' := by
  refine ⟨⟨slot ▸ owns.slot,slot ▸ owns.used,?_,bottom ▸ owns.aligned,bottom ▸ owns.nonzero,?_,?_⟩,owns.nonnull,
    slot ▸ owns.pointer⟩
  · rw [slot,bottom,top]
    exact owns.bounds
  · rw [template,bottom,top]
    exact owns.template
  · intro rsp planted
    rcases ctx with same | yielded
    · exact owns.entry rsp (same ▸ planted)
    · cases yielded.symm.trans planted

structure Blames (E : Panic → Prop) (p : Profile) (confined : Prop) (task : Task) : Prop where
  overflow : task.stack.canary ≠ STACK_CANARY → E (.stackOverflow task.id task.name)
  counter : ∀ fault, p.add task.runs 1 = .error fault → E (.arithmetic fault)
  stash : ¬ confined → E (.stashInvalid task.id task.name)

theorem expected_blames (full confined : Prop) (p : Profile) (task : Task) : Blames (Expected full confined) p confined task :=
  ⟨fun _ => trivial,fun _ _ => trivial,id⟩

section body
variable {confined : Prop} {task : Task} {log : List ℕ} {s : Kernel} {p : Profile} (owns : Owns s₀ addr task)
include owns

theorem currentTask_safe {Q : α → Kernel → Prop} {k : ℕ → Kern α} (sound : place.Sound addr task.slot) (stack : place.stack = some addr)
    (now : At allowed s₀ addr task place s)
    (next : ∀ s', At allowed s₀ addr task place s' → Safe (Irq allowed) Fenced E (k addr) Q s') :
    Safe (Irq allowed) Fenced E (currentTask >>= k) Q s := by
  have index : place.current = task.slot := by
    rcases sound.stack with off | ⟨_,index⟩
    · rw [off] at stack
      cases stack
    · exact index
  simp only [currentTask,taskAt,bind_assoc]
  refine at_load owns sound now ?_
  intro s' kept
  have current : s'.currentIdx = task.slot := kept.current.trans index
  have inside : ¬ task.slot ≥ MAX_TASKS := Nat.not_le.mpr owns.slot
  simp only [current,inside,if_false,bind_assoc,pure_bind]
  refine at_load owns sound kept ?_
  intro s'' kept'
  have pointer : s''.taskPtrs task.slot = addr := by rw [kept'.pointers]; exact owns.pointer
  simp only [pointer,owns.nonnull,if_false]
  exact next s'' kept'

theorem callStep_safe {Q : α → Kernel → Prop} {k : Bool → Kern α} (sound : place.Sound addr task.slot)
    (now : At allowed s₀ addr task place s)
    (next : ∀ s', At allowed s₀ addr (called task) {place with log := place.log ++ [addr]} s' →
      Safe (Irq allowed) Fenced E (k (task.step.outcome task.step.calls).alive) Q s') :
    Safe (Irq allowed) Fenced E (callStep addr >>= k) Q s := by
  have later : Place.Sound {place with log := place.log ++ [addr]} addr task.slot := ⟨sound.up,sound.stack⟩
  simp only [callStep,bind_assoc,pure_bind]
  refine at_deref owns sound now ?_
  intro s₁ kept
  refine at_store owns sound kept ?_
  intro s₂ kept
  refine at_instructions owns later (at_log kept) _ ?_
  intro s₃ kept
  exact at_write owns later kept rfl ⟨rfl,rfl⟩ next

theorem checkCanary_safe {Q : α → Kernel → Prop} {k : Unit → Kern α} (blames : Blames E p confined task)
    (now : At allowed s₀ addr task ⟨some addr,task.slot,0,false,log⟩ s)
    (next : Safe (Irq allowed) Fenced E (k ()) Q s) : Safe (Irq allowed) Fenced E (checkCanary task >>= k) Q s := by
  have sound : Place.Sound ⟨some addr,task.slot,0,false,log⟩ addr task.slot := ⟨fun up => absurd rfl up,Or.inr ⟨rfl,rfl⟩⟩
  simp only [checkCanary]
  split
  · exact next
  · next trashed =>
      refine at_store owns sound now ?_
      intro s' kept
      exact safe_bind (at_fail owns sound (at_flag false kept) (blames.overflow trashed))

theorem trampolineBody_safe {Q : α → Kernel → Prop} {k : Unit → Kern α} (blames : Blames E p confined task)
    (now : At allowed s₀ addr task ⟨some addr,task.slot,0,false,log⟩ s)
    (next : ∀ runs s', p.add task.runs 1 = .ok runs →
      At allowed s₀ addr (afterStep task runs) ⟨none,task.slot,0,false,log ++ [addr]⟩ s' →
      Safe (Irq allowed) Fenced E (k ()) Q s') : Safe (Irq allowed) Fenced E (trampolineBody p >>= k) Q s := by
  have sound : ∀ fence flag log, (fence ≠ 0 → fence = 1 ∧ flag = true) →
      Place.Sound ⟨some addr,task.slot,fence,flag,log⟩ addr task.slot :=
    fun fence flag log up => ⟨fun raised => ⟨(up raised).1,(up raised).2,rfl⟩,Or.inr ⟨rfl,rfl⟩⟩
  have masked := fun log => sound 0 false log (fun up => absurd rfl up)
  have enabled := fun log => sound 0 true log (fun up => absurd rfl up)
  have window := fun log => sound 1 true log (fun _ => ⟨rfl,rfl⟩)
  simp only [trampolineBody,bind_assoc]
  refine currentTask_safe owns (masked log) rfl now ?_
  intro s kept
  refine at_deref owns (masked log) kept ?_
  intro s kept
  refine checkCanary_safe owns blames kept ?_
  refine at_store owns (masked log) kept ?_
  intro s kept
  refine at_store owns (enabled log) (at_flag true kept) ?_
  intro s kept
  refine callStep_safe owns (window log) (at_fence 1 kept) ?_
  intro s kept
  have owns₁ := owns_same owns (called task) rfl rfl rfl rfl (Or.inl rfl)
  refine at_deref owns₁ (window _) kept ?_
  intro s kept
  refine at_lift owns₁ (window _) kept blames.counter ?_
  intro runs counted
  refine at_write owns₁ (window _) kept rfl ⟨rfl,rfl⟩ ?_
  intro s kept
  have owns₂ := owns_same owns {called task with runs := runs} rfl rfl rfl rfl (Or.inl rfl)
  refine at_write owns₂ (window _) kept rfl ⟨rfl,rfl⟩ ?_
  intro s kept
  have owns₃ := owns_same owns {called task with
    runs := runs, state := if (task.step.outcome task.step.calls).alive then .ready else .finished} rfl rfl rfl rfl (Or.inl rfl)
  refine at_store owns₃ (window _) kept ?_
  intro s kept
  refine at_store owns₃ (enabled _) (at_fence 0 kept) ?_
  intro s kept
  refine at_write owns₃ (masked _) (at_flag false kept) rfl ⟨rfl,rfl⟩ ?_
  intro s kept
  refine at_store (owns_same owns (afterStep task runs) rfl rfl rfl rfl (Or.inr rfl)) (masked _) kept ?_
  intro s kept
  exact next runs _ counted (at_stack none kept)

theorem switchToTask_safe {Q : α → Kernel → Prop} {k : Unit → Kern α} (blames : Blames E p confined task) (boot : Boot s₀)
    (here : s₀.heap addr = some task)
    (next : ∀ runs s', p.add task.runs 1 = .ok runs →
      At allowed s₀ addr (afterStep task runs) ⟨none,MAX_TASKS,0,true,s₀.stepLog ++ [addr]⟩ s' →
      Safe (Irq allowed) Fenced E (k ()) Q s') : Safe (Irq allowed) Fenced E (switchToTask p addr >>= k) Q s₀ := by
  have off : ∀ current flag log, Place.Sound ⟨none,current,0,flag,log⟩ addr task.slot :=
    fun _ _ _ => ⟨fun up => absurd rfl up,Or.inl rfl⟩
  have entered : Place.Sound ⟨some addr,task.slot,0,false,s₀.stepLog⟩ addr task.slot :=
    ⟨fun up => absurd rfl up,Or.inr ⟨rfl,rfl⟩⟩
  have now := at_start allowed boot here
  have small : task.slot < 2^8 := Nat.lt_trans owns.slot (by decide)
  simp only [switchToTask,bind_assoc]
  refine at_deref owns (off _ _ _) now ?_
  intro s kept
  refine at_store owns (off _ _ _) kept ?_
  intro s kept
  refine at_store owns (off _ _ _) (at_current task.slot small kept) ?_
  intro s kept
  refine at_store owns (off _ _ _) (at_registers _ _ kept) ?_
  intro s kept
  refine at_store owns (off _ _ _) (at_flag false kept) ?_
  intro s kept
  have resumed : ∀ s, At allowed s₀ addr task ⟨some addr,task.slot,0,false,s₀.stepLog⟩ s →
      Safe (Irq allowed) Fenced E
        (trampolineBody p >>= fun _ => setCurrent MAX_TASKS >>= fun _ => enable >>= k) Q s := by
    intro s kept
    refine trampolineBody_safe owns blames kept ?_
    intro runs s counted kept
    have owns' := owns_same owns (afterStep task runs) rfl rfl rfl rfl (Or.inr rfl)
    refine at_store owns' ⟨fun up => absurd rfl up,Or.inl rfl⟩ kept ?_
    intro s kept
    refine at_store owns' ⟨fun up => absurd rfl up,Or.inl rfl⟩ (at_current MAX_TASKS (by decide) kept) ?_
    intro s kept
    exact next runs _ counted (at_flag true kept)
  have started := at_stack (some addr) kept
  cases planted : task.ctx with
  | yielded => exact resumed _ started
  | bootstrap rsp =>
      have parity := owns.entry rsp planted
      simp only [resume,bind_assoc]
      refine at_store owns entered started ?_
      intro s kept
      -- The captured RSP survives until it is read back: ticks do not write it.
      refine safe_load (P:=fun s => At allowed s₀ addr task ⟨some addr,task.slot,0,false,s₀.stepLog⟩ s ∧
        s.trampolineEntryRsp = rsp+56) ?_ (fun s now => at_fenced owns entered s now.1)
        ⟨at_registers s.rsp0 (rsp+56) kept,rfl⟩ ?_
      · intro s s' now fired
        refine ⟨at_stable owns entered s s' now.1 fired,?_⟩
        obtain ⟨regs,_,_,rfl⟩ := fired
        rw [tick_entry]
        exact now.2
      · intro s now
        refine at_require owns entered now.1 ?_ (resumed s now.1)
        rw [now.2,parity]
        rfl

end body
end switch
end RustyCore
