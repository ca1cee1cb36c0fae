import RustyCore.SchedulingRuns

namespace RustyCore.Cfs
open InterruptedPrograms Function

structure Accounted (task : Task) : Prop where
  vruntime : task.vruntime ≤ U64_MAX
  weight : 0 < task.weight

theorem slice_positive (positive : 0 < weight) : slice weight = CFS_BASE_SLICE*1024/weight := by
  unfold slice saturatingMul
  rw [Nat.max_eq_left positive]
  rfl

theorem minVruntime_le (member : addr ∈ s.ready) (here : s.heap addr = some task) : minVruntime s ≤ task.vruntime := by
  have listed : task.vruntime ∈ (s.ready.filterMap s.heap).map (·.vruntime) :=
    List.mem_map_of_mem (List.mem_filterMap.mpr ⟨addr,member,here⟩)
  exact List.min?_getD_le_of_mem listed

theorem woken_weight (floor : ℕ) (task : Task) : (woken floor task).weight = task.weight := by
  unfold woken
  split <;> rfl

theorem woken_waking (waking : ∀ untilTick, task.state ≠ .sleeping untilTick) (floor : ℕ) : woken floor task = task := by
  unfold woken
  split
  · exact absurd ‹_› (waking _)
  · rfl

theorem woken_grows (floor : ℕ) (task : Task) : task.vruntime ≤ (woken floor task).vruntime := by
  unfold woken
  split
  · show task.vruntime ≤ if task.vruntime < floor then floor else task.vruntime
    split <;> omega
  · exact Nat.le_refl _

theorem woken_below (low : task.vruntime ≤ most) (clamp : floor ≤ most) : (woken floor task).vruntime ≤ most := by
  unfold woken
  split
  · show (if task.vruntime < floor then floor else task.vruntime) ≤ most
    split
    · exact clamp
    · exact low
  · exact low

def floorBeside (s : Kernel) (x : ℕ) : ℕ := minVruntime {s with ready := s.ready.erase x}

-- One run of a task: it had the smallest vruntime of those awake and came first among
-- equals, it accrued its slice, and nobody else changed.
structure Chosen (s : Kernel) (x : ℕ) (task : Task) (s' : Kernel) : Prop where
  member : x ∈ s.ready
  here : s.heap x = some task
  least : ∀ a t, a ∈ s.ready → s.heap a = some t → asleep s.apicTicks t = false →
    task.vruntime ≤ t.vruntime ∧ (task.vruntime = t.vruntime → s.ready.idxOf x ≤ s.ready.idxOf a)
  log : s'.stepLog = s.stepLog ++ [x]
  held : s'.held = s.held
  others : ∀ a, a ≠ x → s'.heap a = s.heap a
  after : (∃ t, s'.ready = s.ready.erase x ++ [x] ∧ s'.heap x = some t ∧ t.weight = task.weight ∧
      t.vruntime = saturatingAdd (woken (floorBeside s x) task).vruntime (slice task.weight)) ∨
    s'.ready = s.ready.erase x ∧ s'.heap x = none

theorem called_chosen (steady : Steady allowed) (once : s.ready.Nodup) (called : Called allowed s found s') :
    (∀ a ∈ s.ready, ¬ Awake s a) ∧ Still allowed s s' ∨ ∃ x task, Chosen s x task s' := by
  cases called with
  | idle now later none still =>
      refine Or.inl ⟨?_,still⟩
      rintro a member ⟨task,here,awake⟩
      have sleeps := pickMin_none none member here
      rw [asleep_later awake (later steady)] at sleeps
      cases sleeps
  | ran now idx x task later picked there here turned =>
      obtain ⟨bound,equal⟩ := List.getElem?_eq_some_iff.mp there
      have erased : s.ready.eraseIdx idx = s.ready.erase x := by rw [← equal,once.erase_getElem idx bound]
      have place : s.ready.idxOf x = idx := by rw [← equal,once.idxOf_getElem]
      rw [erased] at turned
      refine Or.inr ⟨x,task,?_⟩
      refine ⟨List.mem_of_getElem? there,here,?_,turned.log,turned.held,?_,?_⟩
      · intro a t member found awake
        obtain ⟨x',task',there',here',_,least⟩ := pickMin_some picked
        cases there.symm.trans there'
        cases here.symm.trans here'
        have index : s.ready[s.ready.idxOf a]? = some a := List.getElem?_idxOf member
        have order := least (s.ready.idxOf a) a t index found (asleep_later awake (later steady).1)
        rw [place]
        exact order
      · intro a other
        rcases turned.queue with ⟨_,_,heap,_⟩ | ⟨_,_,heap,_⟩
        · rw [heap,update_of_ne other]
        · rw [heap,update_of_ne other]
      · rcases turned.queue with ⟨_,ready,heap,_⟩ | ⟨_,ready,heap,_⟩
        · refine Or.inl ⟨_,ready,(congrFun heap x).trans (update_self _ _ _),woken_weight _ _,?_⟩
          rw [← woken_weight (floorBeside s x) task]
          rfl
        · exact Or.inr ⟨ready,(congrFun heap x).trans (update_self _ _ _)⟩

theorem chosen_each {Q : Task → Prop} (chosen : Chosen s x task s') (before : ∀ a ∈ s.ready, ∀ t, s.heap a = some t → Q t)
    (own : ∀ t, t.weight = task.weight → t.vruntime = saturatingAdd (woken (floorBeside s x) task).vruntime (slice task.weight) → Q t) :
    ∀ a ∈ s'.ready, ∀ t, s'.heap a = some t → Q t := by
  intro a member t here
  by_cases same : a = x
  · subst same
    rcases chosen.after with ⟨t',_,here',weight,vruntime⟩ | ⟨_,gone⟩
    · cases here.symm.trans here'
      exact own t weight vruntime
    · cases here.symm.trans gone
  · rw [chosen.others a same] at here
    refine before a ?_ t here
    rcases chosen.after with ⟨_,ready,_⟩ | ⟨ready,_⟩
    · rw [ready] at member
      exact List.mem_of_mem_erase ((List.mem_append.mp member).resolve_right fun new => same (List.mem_singleton.mp new))
    · rw [ready] at member
      exact List.mem_of_mem_erase member

structure Books (s : Kernel) : Prop where
  queued : ∀ a ∈ s.ready, ∀ task, s.heap a = some task → Accounted task
  held : ∀ task ∈ s.held, Accounted task

section books
variable {b : Build} {allowed : Kernel → Interrupted → Prop} {s s' : Kernel}

theorem grown_each {Q : Task → Prop} (table : Table allowed s.ready s) (grown : Grown allowed [] s s')
    (before : ∀ a ∈ s.ready, ∀ t, s.heap a = some t → Q t) : ∀ a ∈ s'.ready, ∀ t, s'.heap a = some t → Q t := by
  intro a member t here
  rw [grown.ready,List.append_nil] at member
  rw [grown_queued table grown member] at here
  exact before a member t here

theorem fresh_accounted {task : Task} (vruntime : task.vruntime = 0) (weight : task.weight = CFS_DEFAULT_WEIGHT) : Accounted task := by
  refine ⟨?_,?_⟩
  · rw [vruntime]
    exact Nat.zero_le _
  · rw [weight]
    decide

theorem held_books (books : Books s) (fine : Accounted new) : ∀ task ∈ s.held ++ [new], Accounted task := by
  rw [List.forall_mem_append,List.forall_mem_singleton]
  exact ⟨books.held,fine⟩

theorem weight_books (books : Books s) (positive : 0 < weight) :
    ∀ task ∈ s.held.modify i fun task => {task with weight := weight}, Accounted task := by
  intro task member
  obtain ⟨j,found⟩ := List.mem_iff_getElem?.mp member
  obtain ⟨t,there,rfl⟩ := modify_some found
  have fine := books.held t (List.mem_of_getElem? there)
  split
  · exact ⟨fine.vruntime,positive⟩
  · exact fine

theorem spawn_books (books : Books s) (ready : s'.ready = s.ready ++ [addr]) (there : s.held[i]? = some task)
    (heap : s'.heap = update s.heap addr (some task)) (held : s'.held = s.held.eraseIdx i) : Books s' := by
  constructor
  · intro a member t here
    rw [heap] at here
    by_cases own : a = addr
    · subst own
      cases (update_self _ _ _).symm.trans here
      exact books.held task (List.mem_of_getElem? there)
    · rw [update_of_ne own] at here
      rw [ready] at member
      rcases List.mem_append.mp member with old | new
      · exact books.queued a old t here
      · exact absurd (List.mem_singleton.mp new) own
  · intro t member
    rw [held] at member
    exact books.held t (List.mem_of_mem_eraseIdx member)

theorem chosen_books (books : Books s) (chosen : Chosen s x task s') : Books s' := by
  refine ⟨chosen_each chosen books.queued ?_,by rw [chosen.held]; exact books.held⟩
  intro t weight vruntime
  refine ⟨?_,?_⟩
  · rw [vruntime]
    exact Nat.min_le_right _ _
  · rw [weight]
    exact (books.queued x chosen.member task chosen.here).weight

theorem happens_books (policy : b.policy = .cfs) (steady : Steady allowed) (boot : Boot s) (table : Table allowed s.ready s)
    (books : Books s) (happens : Happens b allowed s event s') : Books s' := by
  cases happens with
  | tick fired =>
      obtain ⟨n,_,rfl⟩ := tick_still boot fired
      exact ⟨books.queued,books.held⟩
  | flag => exact ⟨books.queued,books.held⟩
  | @call _ call legal returns =>
      have done := safe_returns (call_safe (b:=b) boot table _ legal) returns
      cases call with
      | new =>
          obtain ⟨grown,_,_,_,_,held⟩ := done
          exact ⟨grown_each table grown books.queued,by rw [held]; exact held_books books (fresh_accounted rfl rfl)⟩
      | sleeping =>
          obtain ⟨grown,_,_,_,_,held⟩ := done
          exact ⟨grown_each table grown books.queued,by rw [held]; exact held_books books (fresh_accounted rfl rfl)⟩
      | withWeight i weight =>
          obtain ⟨grown,positive,held⟩ := done
          exact ⟨grown_each table grown books.queued,by rw [held]; exact weight_books books positive⟩
      | spawn i addr =>
          obtain ⟨grown,_,task,there,heap,held⟩ := done
          exact spawn_books books grown.ready there heap held
      | scheduleOnce =>
          obtain ⟨found,called⟩ := done
          rw [policy] at called
          rcases called_chosen steady table.once called with ⟨_,still⟩ | ⟨x,task,chosen⟩
          · obtain ⟨n,_,rfl⟩ := still
            exact ⟨books.queued,books.held⟩
          · exact chosen_books books chosen

theorem session_books (policy : b.policy = .cfs) (steady : Steady allowed) (session : Session b allowed s) : Books s := by
  induction session with
  | boot apicTicks interruptFlag =>
      refine ⟨?_,?_⟩
      · intro a member
        cases member
      · intro task member
        cases member
  | step before happens ih =>
      obtain ⟨boot,table⟩ := session_parts before
      exact happens_books policy steady boot table ih happens

end books
end RustyCore.Cfs
