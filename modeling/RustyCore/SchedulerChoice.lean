import RustyCore.KernelCalls

namespace RustyCore
open InterruptedPrograms Function

-- `schedule_once` in two parts: the search for a task, and that task's turn.
def proceed (turn : ℕ → Kern Bool) : Option ℕ → Kern Bool
  | none => pure false
  | some addr => turn addr

namespace RoundRobin

def search : ℕ → Kern (List (ℕ × ℕ) × Option ℕ)
  | 0 => pure ([],none)
  | len+1 => do
    match ← popFront with
    | none => pure ([],none)
    | some addr =>
      let task ← deref addr
      match task.state with
      | .sleeping untilTick =>
        let now ← .load (·.apicTicks)
        if now < untilTick then
          pushBack addr
          let later ← search len
          pure ((addr,now) :: later.1,later.2)
        else
          writeTask addr fun t => {t with state := .ready}
          pure ([(addr,now)],some addr)
      | _ => pure ([],some addr)

def choose : Kern (List (ℕ × ℕ) × Option ℕ) := do
  let len ← .load (·.ready.length)
  search len

theorem pass_search (p : Profile) (len : ℕ) : pass p len = search len >>= fun choice => proceed (turn p) choice.2 := by
  induction len with
  | zero => rfl
  | succ len ih =>
      simp only [pass,search,bind_assoc]
      congr 1
      funext front
      cases front with
      | none => rfl
      | some addr =>
          simp only [bind_assoc]
          congr 1
          funext task
          cases task.state with
          | ready => rfl
          | running => rfl
          | finished => rfl
          | sleeping untilTick =>
              simp only [bind_assoc]
              congr 1
              funext now
              by_cases early : now < untilTick
              · simp only [early,if_true,bind_assoc,ih,pure_bind]
              · simp only [early,if_false,bind_assoc,pure_bind]
                rfl

theorem scheduleOnce_choose (p : Profile) : scheduleOnce p = choose >>= fun choice => proceed (turn p) choice.2 := by
  simp only [scheduleOnce,choose,bind_assoc]
  congr 1
  funext len
  rw [← pass_search]
  cases len with
  | zero => rfl
  | succ len => rfl

end RoundRobin

namespace Cfs

def choose : Kern (ℕ × Option ℕ) := do
  let now ← .load (·.apicTicks)
  match ← .load (pickMin now) with
  | none => pure (now,none)
  | some idx =>
    let addr ← remove idx
    let task ← deref addr
    match task.state with
    | .sleeping _ =>
      let floor ← .load minVruntime
      writeTask addr fun t => {t with vruntime := if t.vruntime < floor then floor else t.vruntime}
      writeTask addr fun t => {t with state := .ready}
      pure (now,some addr)
    | _ => pure (now,some addr)

theorem scheduleOnce_choose (p : Profile) : scheduleOnce p = choose >>= fun choice => proceed (turn p) choice.2 := by
  simp only [scheduleOnce,choose,bind_assoc]
  congr 1
  funext now
  congr 1
  funext picked
  cases picked with
  | none => rfl
  | some idx =>
      simp only [bind_assoc]
      congr 1
      funext addr
      congr 1
      funext task
      cases task.state with
      | ready => rfl
      | running => rfl
      | finished => rfl
      | sleeping untilTick =>
          simp only [bind_assoc]
          rfl

end Cfs

theorem asleep_waking (waking : ∀ untilTick, task.state ≠ .sleeping untilTick) : asleep now task = false := by
  unfold asleep
  split
  · exact absurd ‹_› (waking _)
  · rfl

def AsleepAt (now : ℕ) (s : Kernel) (addr : ℕ) : Prop := ∃ task, s.heap addr = some task ∧ asleep now task = true

def offQueue (s : Kernel) (ready : List ℕ) (addr : ℕ) (task : Task) (n : ℕ) : Kernel :=
  {s with ready := ready, heap := update s.heap addr (some task), apicTicks := n}

section off
variable {allowed : Kernel → Interrupted → Prop} {s : Kernel} {task : Task}

theorem off_table (table : Table allowed s.ready s) (perm : s.ready.Perm (addr :: ready)) (here : s.heap addr = some task)
    (state : TaskState) (vruntime n : ℕ) :
    Table allowed (addr :: ready) (offQueue s ready addr {task with state := state, vruntime := vruntime} n) := by
  have member : addr ∈ s.ready := perm.mem_iff.mpr List.mem_cons_self
  obtain ⟨t,found,owns⟩ := table.boxed addr member
  cases here.symm.trans found
  have owns' := owns_same owns {task with state := state, vruntime := vruntime} rfl rfl rfl rfl (Or.inl rfl)
  exact table_perm (table_congr (table_write table member here owns' rfl) rfl rfl rfl rfl rfl rfl) perm

theorem off_turned (later : Steady allowed → s.apicTicks ≤ n) (state : TaskState) (vruntime : ℕ)
    (turned : Turned allowed accrue (offQueue s ready addr {task with state := state, vruntime := vruntime} n) addr
      {task with state := state, vruntime := vruntime} s') :
    Turned allowed accrue {s with ready := ready} addr {task with vruntime := vruntime} s' :=
  turned_from turned rfl rfl (fun _ => update_idem _ _ _) rfl rfl rfl rfl rfl later

end off

inductive RoundRobin.Searched (allowed : Kernel → Interrupted → Prop) (s : Kernel) : List (ℕ × ℕ) × Option ℕ → Kernel → Prop where
  | idle (reads : List (ℕ × ℕ)) (met : reads.map (·.1) = s.ready) (asleep : ∀ read ∈ reads, AsleepAt read.2 s read.1)
      (between : Steady allowed → ∀ read ∈ reads, s.apicTicks ≤ read.2 ∧ read.2 ≤ s'.apicTicks) (still : Still allowed s s') :
      Searched allowed s (reads,none) s'
  | found (reads own : List (ℕ × ℕ)) (skipped : List ℕ) (addr : ℕ) (rest : List ℕ) (task : Task) (state : TaskState) (n : ℕ)
      (split : s.ready = skipped ++ addr :: rest) (met : reads.map (·.1) = skipped)
      (asleep : ∀ read ∈ reads, AsleepAt read.2 s read.1) (here : s.heap addr = some task)
      (due : ∀ untilTick, task.state = .sleeping untilTick → ∃ now, own = [(addr,now)] ∧ untilTick ≤ now)
      (between : Steady allowed → ∀ read ∈ reads ++ own, s.apicTicks ≤ read.2 ∧ read.2 ≤ n)
      (later : Steady allowed → s.apicTicks ≤ n) :
      Searched allowed s (reads ++ own,some addr) (offQueue s (rest ++ skipped) addr {task with state := state} n)

section roundRobin
variable {allowed : Kernel → Interrupted → Prop} {E : Panic → Prop} {s : Kernel}

theorem boot_pop {Q : α → Kernel → Prop} {k : Option ℕ → Kern α} (boot : Boot s) (front : s.ready = addr :: rest)
    (next : ∀ s', Still allowed s s' → Safe (Irq allowed) Fenced E (k (some addr)) Q {s' with ready := rest}) :
    Safe (Irq allowed) Fenced E (popFront >>= k) Q s := by
  refine safe_perform (still_stable boot) (still_fenced boot) (still_refl s) ?_ ?_
  · rintro s' e ⟨n,_,rfl⟩ failed
    simp only [front] at failed
    cases failed
  · rintro s' b s'' ⟨n,later,rfl⟩ ran
    simp only [front] at ran
    cases ran
    exact next _ ⟨n,later,by rw [front]⟩

-- A pass that has met nothing but sleepers: `skipped` is already at the back, `rest` is
-- still ahead, and `n` is the tick it has got to.
structure RoundRobin.Passed (allowed : Kernel → Interrupted → Prop) (s : Kernel) (reads : List (ℕ × ℕ)) (skipped rest : List ℕ)
    (n : ℕ) : Prop where
  split : s.ready = skipped ++ rest
  met : reads.map (·.1) = skipped
  asleep : ∀ read ∈ reads, AsleepAt read.2 s read.1
  between : Steady allowed → ∀ read ∈ reads, s.apicTicks ≤ read.2 ∧ read.2 ≤ n
  later : Steady allowed → s.apicTicks ≤ n

theorem passed_later (passed : RoundRobin.Passed allowed s reads skipped rest n) (since : Steady allowed → n ≤ n') :
    RoundRobin.Passed allowed s reads skipped rest n' := by
  refine ⟨passed.split,passed.met,passed.asleep,?_,fun steady => Nat.le_trans (passed.later steady) (since steady)⟩
  intro steady read listed
  have bounds := passed.between steady read listed
  exact ⟨bounds.1,Nat.le_trans bounds.2 (since steady)⟩

theorem passed_read (passed : RoundRobin.Passed allowed s reads skipped rest now) (since : Steady allowed → now ≤ n) (addr : ℕ) :
    Steady allowed → ∀ read ∈ reads ++ [(addr,now)], s.apicTicks ≤ read.2 ∧ read.2 ≤ n := by
  intro steady
  rw [List.forall_mem_append,List.forall_mem_singleton]
  exact ⟨(passed_later passed since).between steady,passed.later steady,since steady⟩

theorem passed_sleeper (passed : RoundRobin.Passed allowed s reads skipped (addr :: rest) now) (since : Steady allowed → now ≤ n)
    (sleeps : AsleepAt now s addr) : RoundRobin.Passed allowed s (reads ++ [(addr,now)]) (skipped ++ [addr]) rest n := by
  refine ⟨?_,?_,?_,passed_read passed since addr,(passed_later passed since).later⟩
  · rw [passed.split,List.append_assoc]
    rfl
  · rw [List.map_append,passed.met]
    rfl
  · rw [List.forall_mem_append,List.forall_mem_singleton]
    exact ⟨passed.asleep,sleeps⟩

theorem passed_idle (passed : RoundRobin.Passed allowed s reads skipped [] n) :
    RoundRobin.Searched allowed s (reads,none) {s with ready := skipped, apicTicks := n} := by
  have whole : s.ready = skipped := by rw [passed.split,List.append_nil]
  exact .idle reads (passed.met.trans whole.symm) passed.asleep passed.between ⟨n,passed.later,by rw [whole]⟩

theorem passed_waking (passed : RoundRobin.Passed allowed s reads skipped (addr :: rest) n) (here : s.heap addr = some task)
    (waking : ∀ untilTick, task.state ≠ .sleeping untilTick) :
    RoundRobin.Searched allowed s (reads ++ [],some addr) {s with ready := rest ++ skipped, apicTicks := n} := by
  have found : RoundRobin.Searched allowed s (reads ++ [],some addr)
      (offQueue s (rest ++ skipped) addr {task with state := task.state} n) := by
    refine .found reads [] skipped addr rest task task.state n passed.split passed.met passed.asleep here ?_ ?_ passed.later
    · intro untilTick sleeps
      exact absurd sleeps (waking untilTick)
    · rw [List.append_nil]
      exact passed.between
  have same : update s.heap addr (some {task with state := task.state}) = s.heap := by
    rw [← here]
    exact update_eq_self addr s.heap
  unfold offQueue at found
  rwa [same] at found

theorem passed_due (passed : RoundRobin.Passed allowed s reads skipped (addr :: rest) now) (since : Steady allowed → now ≤ n)
    (here : s.heap addr = some task) (state : task.state = .sleeping untilTick) (due : untilTick ≤ now) :
    RoundRobin.Searched allowed s (reads ++ [(addr,now)],some addr)
      (offQueue s (rest ++ skipped) addr {task with state := .ready} n) := by
  refine .found reads [(addr,now)] skipped addr rest task .ready n passed.split passed.met passed.asleep here ?_
    (passed_read passed since addr) (passed_later passed since).later
  intro tick sleeps
  cases state.symm.trans sleeps
  exact ⟨now,rfl,due⟩

-- The induction is on the tasks not yet visited.
theorem search_safe {Q : List (ℕ × ℕ) × Option ℕ → Kernel → Prop} {n : ℕ} (boot : Boot s) (table : Table allowed s.ready s)
    (passed : RoundRobin.Passed allowed s reads skipped rest n)
    (next : ∀ choice s', RoundRobin.Searched allowed s choice s' → Q choice s') :
    Safe (Irq allowed) Fenced E (RoundRobin.search rest.length) (fun choice => Q (reads ++ choice.1,choice.2))
      {s with ready := rest ++ skipped, apicTicks := n} := by
  induction rest generalizing reads skipped n with
  | nil =>
      refine boot_ret (by exact boot) ?_
      rintro _ ⟨n',later,rfl⟩
      rw [List.append_nil]
      exact next _ _ (passed_idle (passed_later passed later))
  | cons addr rest ih =>
      have member : addr ∈ s.ready := by rw [passed.split]; exact List.mem_append_right _ List.mem_cons_self
      obtain ⟨task,here,_⟩ := table.boxed addr member
      simp only [List.length_cons,RoundRobin.search]
      refine boot_pop (by exact boot) rfl ?_
      rintro _ ⟨n₁,later₁,rfl⟩
      refine boot_deref (by exact boot) here ?_
      rintro _ ⟨n₂,later₂,rfl⟩
      have reached := passed_later (passed_later passed later₁) later₂
      have direct : (∀ untilTick, task.state ≠ .sleeping untilTick) → Safe (Irq allowed) Fenced E
          (pure ([],some addr) : Kern (List (ℕ × ℕ) × Option ℕ)) (fun choice => Q (reads ++ choice.1,choice.2))
          {s with ready := rest ++ skipped, apicTicks := n₂} := by
        intro waking
        refine boot_ret (by exact boot) ?_
        rintro _ ⟨n₃,later₃,rfl⟩
        exact next _ _ (passed_waking (passed_later reached later₃) here waking)
      cases state : task.state with
      | ready => exact direct (fun _ sleeps => by cases state.symm.trans sleeps)
      | running => exact direct (fun _ sleeps => by cases state.symm.trans sleeps)
      | finished => exact direct (fun _ sleeps => by cases state.symm.trans sleeps)
      | sleeping untilTick =>
          refine boot_load (by exact boot) ?_
          rintro _ ⟨n₃,later₃,rfl⟩
          have compared := passed_later reached later₃
          by_cases early : n₃ < untilTick
          · simp only [early,if_true]
            refine boot_store (by exact boot) ?_
            rintro _ ⟨n₄,later₄,rfl⟩
            have rotated := ih (passed_sleeper compared later₄ ⟨task,here,by simp [asleep,state,early]⟩)
            rw [← List.append_assoc] at rotated
            refine safe_map _ rotated ?_
            intro choice s' searched
            rw [List.append_assoc] at searched
            exact searched
          · simp only [early,if_false]
            refine boot_write (by exact boot) here ?_
            rintro _ ⟨n₄,later₄,rfl⟩
            refine boot_ret (by exact boot) ?_
            rintro _ ⟨n₅,later₅,rfl⟩
            have upTo : Steady allowed → n₃ ≤ n₅ := fun steady => Nat.le_trans (later₄ steady) (later₅ steady)
            exact next _ _ (passed_due compared upTo here state (Nat.not_lt.mp early))

theorem choose_safe {Q : List (ℕ × ℕ) × Option ℕ → Kernel → Prop} (boot : Boot s) (table : Table allowed s.ready s)
    (next : ∀ choice s', RoundRobin.Searched allowed s choice s' → Q choice s') :
    Safe (Irq allowed) Fenced E RoundRobin.choose Q s := by
  unfold RoundRobin.choose
  refine boot_load boot ?_
  rintro _ ⟨n,later,rfl⟩
  have start : RoundRobin.Passed allowed s [] [] s.ready n :=
    ⟨rfl,rfl,fun _ none => absurd none List.not_mem_nil,fun _ _ none => absurd none List.not_mem_nil,later⟩
  have whole := search_safe (E:=E) boot table start next
  rw [List.append_nil] at whole
  exact whole

end roundRobin

namespace Cfs

def Picked (heap : ℕ → Option Task) (now : ℕ) (visited : List ℕ) : Option (ℕ × ℕ) → Prop
  | none => ∀ a ∈ visited, ∀ task, heap a = some task → asleep now task = true
  | some (j,v) => (∃ a task, visited[j]? = some a ∧ heap a = some task ∧ asleep now task = false ∧ v = task.vruntime) ∧
      ∀ k a task, visited[k]? = some a → heap a = some task → asleep now task = false →
        v ≤ task.vruntime ∧ (v = task.vruntime → j ≤ k)

theorem concat_get {visited : List ℕ} {k a : ℕ} (found : (visited ++ [addr])[k]? = some a) :
    visited[k]? = some a ∨ k = visited.length ∧ a = addr := by
  rw [List.getElem?_append] at found
  split at found
  · exact Or.inl found
  · obtain ⟨bound,equal⟩ := List.getElem?_eq_some_iff.mp found
    rw [List.length_singleton] at bound
    refine Or.inr ⟨by omega,?_⟩
    rw [← equal]
    simp

theorem concat_kept {visited : List ℕ} {k a : ℕ} (found : visited[k]? = some a) : (visited ++ [addr])[k]? = some a := by
  obtain ⟨bound,_⟩ := List.getElem?_eq_some_iff.mp found
  rw [List.getElem?_append_left bound]
  exact found

theorem picked_skip (picked : Picked heap now visited best) (passed : ∀ task, heap addr = some task → asleep now task = true) :
    Picked heap now (visited ++ [addr]) best := by
  cases best with
  | none =>
      intro a member task here
      rcases List.mem_append.mp member with old | new
      · exact picked a old task here
      · exact passed task (List.mem_singleton.mp new ▸ here)
  | some entry =>
      obtain ⟨⟨a,task,found,rest⟩,least⟩ := picked
      refine ⟨⟨a,task,concat_kept found,rest⟩,?_⟩
      intro k b t there here awake
      rcases concat_get there with old | ⟨_,rfl⟩
      · exact least k b t old here awake
      · rw [passed t here] at awake
        cases awake

theorem picked_new (picked : Picked heap now visited best) (here : heap addr = some task) (awake : asleep now task = false)
    (better : ∀ j v, best = some (j,v) → task.vruntime < v) :
    Picked heap now (visited ++ [addr]) (some (visited.length,task.vruntime)) := by
  refine ⟨⟨addr,task,by simp,here,awake,rfl⟩,?_⟩
  intro k a t there found wakes
  rcases concat_get there with old | ⟨rfl,rfl⟩
  · cases best with
    | none =>
        have sleeps := picked a (List.mem_of_getElem? old) t found
        rw [wakes] at sleeps
        cases sleeps
    | some entry =>
        have bound := (picked.2 k a t old found wakes).1
        have less := better entry.1 entry.2 rfl
        exact ⟨by omega,by omega⟩
  · cases here.symm.trans found
    exact ⟨Nat.le_refl _,fun _ => Nat.le_refl _⟩

theorem picked_old (picked : Picked heap now visited (some (j,v))) (here : heap addr = some task) (worse : v ≤ task.vruntime) :
    Picked heap now (visited ++ [addr]) (some (j,v)) := by
  obtain ⟨⟨a,t,found,rest⟩,least⟩ := picked
  refine ⟨⟨a,t,concat_kept found,rest⟩,?_⟩
  intro k b t' there here' awake
  rcases concat_get there with old | ⟨rfl,rfl⟩
  · exact least k b t' old here' awake
  · cases here.symm.trans here'
    obtain ⟨bound,_⟩ := List.getElem?_eq_some_iff.mp found
    exact ⟨worse,fun _ => bound.le⟩

-- The loop of `pick_min`: the induction is on the tasks still to visit.
theorem pickFrom_picked (picked : Picked heap now visited best) (rest : List ℕ) :
    Picked heap now (visited ++ rest) (pickFrom heap now visited.length best rest) := by
  induction rest generalizing visited best with
  | nil =>
      rw [List.append_nil]
      exact picked
  | cons addr rest ih =>
      have shape : visited ++ addr :: rest = (visited ++ [addr]) ++ rest := by simp
      have length : visited.length+1 = (visited ++ [addr]).length := by simp
      rw [shape]
      simp only [pickFrom,length]
      cases here : heap addr with
      | none => exact ih (picked_skip picked (fun task found => by cases here.symm.trans found))
      | some task =>
          cases sleeps : asleep now task with
          | true =>
              simp only [sleeps,if_true]
              exact ih (picked_skip picked (fun t found => by cases here.symm.trans found; exact sleeps))
          | false =>
              simp only [sleeps,Bool.false_eq_true,if_false]
              cases best with
              | none => exact ih (picked_new picked here sleeps (fun _ _ impossible => by cases impossible))
              | some entry =>
                  by_cases less : task.vruntime < entry.2
                  · simp only [less,if_true]
                    refine ih (picked_new picked here sleeps ?_)
                    intro j v equal
                    cases equal
                    exact less
                  · simp only [less,if_false]
                    exact ih (picked_old picked here (Nat.not_lt.mp less))

theorem pickMin_picked (now : ℕ) (s : Kernel) : Picked s.heap now s.ready (pickFrom s.heap now 0 none s.ready) := by
  have start : Picked s.heap now [] none := fun _ member => absurd member List.not_mem_nil
  exact pickFrom_picked start s.ready

theorem pickMin_some (picked : pickMin now s = some idx) : ∃ addr task, s.ready[idx]? = some addr ∧ s.heap addr = some task ∧
    asleep now task = false ∧ ∀ k a t, s.ready[k]? = some a → s.heap a = some t → asleep now t = false →
      task.vruntime ≤ t.vruntime ∧ (task.vruntime = t.vruntime → idx ≤ k) := by
  obtain ⟨entry,found,rfl⟩ := Option.map_eq_some_iff.mp picked
  have best := pickMin_picked now s
  rw [found] at best
  obtain ⟨⟨addr,task,there,here,awake,equal⟩,least⟩ := best
  refine ⟨addr,task,there,here,awake,?_⟩
  rw [← equal]
  exact least

theorem pickMin_none (none : pickMin now s = none) (member : a ∈ s.ready) (here : s.heap a = some task) :
    asleep now task = true := by
  have best := pickMin_picked now s
  rw [Option.map_eq_none_iff.mp none] at best
  exact best a member task here

def woken (floor : ℕ) (task : Task) : Task :=
  match task.state with
  | .sleeping _ => {task with vruntime := if task.vruntime < floor then floor else task.vruntime}
  | _ => task

theorem woken_vruntime (floor : ℕ) (task : Task) : woken floor task = {task with vruntime := (woken floor task).vruntime} := by
  unfold woken
  split <;> rfl

inductive Searched (allowed : Kernel → Interrupted → Prop) (s : Kernel) : ℕ × Option ℕ → Kernel → Prop where
  | idle (now : ℕ) (between : Steady allowed → s.apicTicks ≤ now ∧ now ≤ s'.apicTicks) (none : pickMin now s = none)
      (still : Still allowed s s') : Searched allowed s (now,.none) s'
  | found (now idx addr : ℕ) (task : Task) (state : TaskState) (n : ℕ) (between : Steady allowed → s.apicTicks ≤ now ∧ now ≤ n)
      (picked : pickMin now s = some idx) (there : s.ready[idx]? = some addr) (here : s.heap addr = some task) :
      Searched allowed s (now,some addr) (offQueue s (s.ready.eraseIdx idx) addr
        {task with state := state, vruntime := (woken (minVruntime {s with ready := s.ready.eraseIdx idx}) task).vruntime} n)

section calls
variable {allowed : Kernel → Interrupted → Prop} {E : Panic → Prop} {s : Kernel}

theorem boot_remove {Q : α → Kernel → Prop} {k : ℕ → Kern α} (boot : Boot s) (there : s.ready[idx]? = some addr)
    (next : ∀ s', Still allowed s s' → Safe (Irq allowed) Fenced E (k addr) Q {s' with ready := s.ready.eraseIdx idx}) :
    Safe (Irq allowed) Fenced E (remove idx >>= k) Q s := by
  refine safe_perform (still_stable boot) (still_fenced boot) (still_refl s) ?_ ?_
  · rintro s' e ⟨n,_,rfl⟩ failed
    simp only [there] at failed
    cases failed
  · rintro s' b s'' ⟨n,later,rfl⟩ ran
    simp only [there] at ran
    cases ran
    exact next _ ⟨n,later,rfl⟩

theorem choose_safe {Q : ℕ × Option ℕ → Kernel → Prop} (boot : Boot s)
    (next : ∀ choice s', Searched allowed s choice s' → Q choice s') : Safe (Irq allowed) Fenced E choose Q s := by
  simp only [choose]
  refine boot_load boot ?_
  rintro _ ⟨now,later,rfl⟩
  refine boot_load (by exact boot) ?_
  rintro _ ⟨n₁,later₁,rfl⟩
  cases picked : pickMin now s with
  | none =>
      have none : pickMin now {s with apicTicks := n₁} = none := picked
      simp only [none]
      refine boot_ret (by exact boot) ?_
      rintro _ ⟨n₂,later₂,rfl⟩
      have upTo : Steady allowed → now ≤ n₂ := fun steady => Nat.le_trans (later₁ steady) (later₂ steady)
      refine next _ _ (.idle now (fun steady => ⟨later steady,upTo steady⟩) picked ⟨n₂,?_,rfl⟩)
      intro steady
      exact Nat.le_trans (later steady) (upTo steady)
  | some idx =>
      have found : pickMin now {s with apicTicks := n₁} = some idx := picked
      obtain ⟨addr,task,there,here,_,_⟩ := pickMin_some picked
      simp only [found]
      refine boot_remove (by exact boot) there ?_
      rintro _ ⟨n₂,later₂,rfl⟩
      refine boot_deref (by exact boot) here ?_
      rintro _ ⟨n₃,later₃,rfl⟩
      have upTo : Steady allowed → now ≤ n₃ :=
        fun steady => Nat.le_trans (later₁ steady) (Nat.le_trans (later₂ steady) (later₃ steady))
      have direct : woken (minVruntime {s with ready := s.ready.eraseIdx idx}) task = task → Safe (Irq allowed) Fenced E
          (pure (now,some addr) : Kern (ℕ × Option ℕ)) Q {s with ready := s.ready.eraseIdx idx, apicTicks := n₃} := by
        intro same
        refine boot_ret (by exact boot) ?_
        rintro _ ⟨n₄,later₄,rfl⟩
        have found : Searched allowed s _ _ := .found now idx addr task task.state n₄
          (fun steady => ⟨later steady,Nat.le_trans (upTo steady) (later₄ steady)⟩) picked there here
        have kept : update s.heap addr (some {task with state := task.state, vruntime := task.vruntime}) = s.heap := by
          rw [← here]
          exact update_eq_self addr s.heap
        unfold offQueue at found
        rw [same,kept] at found
        exact next _ _ found
      cases state : task.state with
      | ready => exact direct (by simp only [woken,state])
      | running => exact direct (by simp only [woken,state])
      | finished => exact direct (by simp only [woken,state])
      | sleeping untilTick =>
          refine boot_load (by exact boot) ?_
          rintro _ ⟨n₄,later₄,rfl⟩
          refine boot_write (by exact boot) here ?_
          rintro _ ⟨n₅,later₅,rfl⟩
          refine boot_write (by exact boot) (update_self _ _ _) ?_
          rintro _ ⟨n₆,later₆,rfl⟩
          refine boot_ret (by exact boot) ?_
          rintro _ ⟨n₇,later₇,rfl⟩
          have last : Steady allowed → n₃ ≤ n₇ := fun steady => Nat.le_trans (later₄ steady)
            (Nat.le_trans (later₅ steady) (Nat.le_trans (later₆ steady) (later₇ steady)))
          have found : Searched allowed s _ _ := .found now idx addr task .ready n₇
            (fun steady => ⟨later steady,Nat.le_trans (upTo steady) (last steady)⟩) picked there here
          unfold offQueue at found
          simp only [woken,state] at found
          rw [← update_idem] at found
          exact next _ _ found

end calls
end Cfs
end RustyCore
