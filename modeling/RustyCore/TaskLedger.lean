import RustyCore.TaskHistory

namespace RustyCore
open InterruptedPrograms Function

section ledger
variable {roster : List Member} {ran : List ℕ} {s : Kernel}

theorem perm_by_id {entries : List α} (key : α → ℕ) {entry : Member → α} (distinct : (roster.map (·.id)).Nodup)
    (keys : (entries.map key).Perm (roster.map (·.id))) (known : ∀ e ∈ entries, ∃ m ∈ roster, e = entry m) :
    entries.Perm (roster.map entry) := by
  have once : entries.Nodup := List.Nodup.of_map key (keys.nodup_iff.mpr distinct)
  have inside : entries ⊆ roster.map entry := by
    intro e member
    obtain ⟨m,listed,rfl⟩ := known e member
    exact List.mem_map_of_mem listed
  refine (once.subperm inside).perm_of_length_le ?_
  have length := keys.length_eq
  rw [List.length_map,List.length_map] at length
  rw [List.length_map,length]

theorem register_names (register : Register roster ran s) (distinct : (roster.map (·.id)).Nodup) :
    ((queuedTasks s).map (fun t => (t.id,t.name)) ++ s.finishedRuns.map fun e => (e.1,e.2.1)).Perm
      (roster.map fun m => (m.id,m.name)) := by
  refine perm_by_id Prod.fst distinct ?_ ?_
  · rw [List.map_append,List.map_map,List.map_map]
    exact register.everyone
  · intro e member
    rcases List.mem_append.mp member with queued | ended
    · obtain ⟨t,listed,rfl⟩ := List.mem_map.mp queued
      exact ⟨memberOf t,(register.queued t listed).1,rfl⟩
    · obtain ⟨entry,listed,rfl⟩ := List.mem_map.mp ended
      obtain ⟨m,known,n,rfl,_⟩ := register.finished entry listed
      exact ⟨m,known,rfl⟩

theorem register_entries (register : Register roster ran s) (distinct : (roster.map (·.id)).Nodup) :
    (ledger s).Perm (roster.map fun m => (m.id,m.name,ran.count m.id % 2^64)) := by
  refine (List.mergeSort_perm _ _).trans (perm_by_id Prod.fst distinct ?_ ?_)
  · rw [List.map_append,List.map_map]
    exact register.everyone
  · intro e member
    rcases List.mem_append.mp member with queued | ended
    · obtain ⟨t,listed,rfl⟩ := List.mem_map.mp queued
      obtain ⟨known,runs,standing⟩ := register.queued t listed
      refine ⟨memberOf t,known,?_⟩
      rw [standing.1,runs]
      rfl
    · obtain ⟨m,known,n,rfl,last⟩ := register.finished e ended
      exact ⟨m,known,by rw [last.1]⟩

theorem ids_sorted (entries : List (ℕ × String × ℕ)) :
    (entries.mergeSort fun a b => decide (a.1 ≤ b.1)).Pairwise fun a b => a.1 ≤ b.1 := by
  have sorted : (entries.mergeSort fun a b => decide (a.1 ≤ b.1)).Pairwise fun a b => decide (a.1 ≤ b.1) = true :=
    List.pairwise_mergeSort (by simpa using fun a b c => Nat.le_trans) (by simpa using fun a b => Nat.le_total a b) entries
  simpa using sorted

theorem ids_strict {entries : List (ℕ × String × ℕ)} (sorted : entries.Pairwise fun a b => a.1 ≤ b.1)
    (once : (entries.map (·.1)).Nodup) : entries.Pairwise fun a b => a.1 < b.1 := by
  have apart : entries.Pairwise fun a b => a.1 ≠ b.1 := List.pairwise_map.mp once
  exact (sorted.and apart).imp fun both => Nat.lt_of_le_of_ne both.1 both.2

theorem register_sorted (register : Register roster ran s) (distinct : (roster.map (·.id)).Nodup) :
    (ledger s).Pairwise fun a b => a.1 < b.1 := by
  refine ids_strict (ids_sorted _) ?_
  have keys := (register_entries register distinct).map (·.1)
  rw [List.map_map] at keys
  exact keys.nodup_iff.mpr distinct

theorem same_member (distinct : (roster.map (·.id)).Nodup) (known : m ∈ roster) (known' : m' ∈ roster) (same : m.id = m'.id) :
    m = m' := List.inj_on_of_nodup_map distinct known known' same

theorem register_place (register : Register roster ran s) (distinct : (roster.map (·.id)).Nodup) (known : m ∈ roster) :
    (∃ t ∈ queuedTasks s, memberOf t = m) ∧ Standing ran m (ran.count m.id) ∨
      (¬ ∃ t ∈ queuedTasks s, memberOf t = m) ∧ ∃ n, Ended ran m n := by
  have listed := register.everyone.mem_iff.mpr (List.mem_map_of_mem known)
  have once := register.everyone.nodup_iff.mpr distinct
  rcases List.mem_append.mp listed with queued | finished
  · obtain ⟨t,member,same⟩ := List.mem_map.mp queued
    obtain ⟨known',_,standing⟩ := register.queued t member
    cases same_member distinct known' known same
    exact Or.inl ⟨⟨t,member,rfl⟩,rfl,by rw [standing.1]; exact standing.2⟩
  · obtain ⟨entry,member,same⟩ := List.mem_map.mp finished
    obtain ⟨m',known',n,equal,ended⟩ := register.finished entry member
    cases same_member distinct known' known (by rw [← same,equal])
    refine Or.inr ⟨?_,n,ended⟩
    rintro ⟨t,among,rfl⟩
    exact (List.nodup_append.mp once).2.2 t.id (List.mem_map_of_mem among) t.id finished rfl

theorem queued_exactly (register : Register roster ran s) (distinct : (roster.map (·.id)).Nodup) (known : m ∈ roster) :
    (∃ t ∈ queuedTasks s, memberOf t = m) ↔ ran.count m.id = 0 ∨ (m.outcome (ran.count m.id-1)).alive = true := by
  rcases register_place register distinct known with ⟨queued,standing⟩ | ⟨absent,n,ended⟩
  · refine ⟨fun _ => ?_,fun _ => queued⟩
    rcases Nat.eq_zero_or_pos (ran.count m.id) with none | some
    · exact Or.inl none
    · exact Or.inr (standing.2 _ (by omega))
  · refine ⟨fun queued => absurd queued absent,?_⟩
    rw [ended.1,Nat.add_sub_cancel,ended.2.1]
    rintro (none | alive)
    · cases none
    · cases alive

theorem queued_length (table : Table allowed s.ready s) : (queuedTasks s).length = alive s := by
  have whole : s.ready.map s.heap = (queuedTasks s).map some := by
    unfold queuedTasks
    rw [List.map_filterMap_some_eq_filter_map_isSome,List.filter_eq_self.mpr]
    intro entry member
    obtain ⟨a,listed,rfl⟩ := List.mem_map.mp member
    obtain ⟨t,here⟩ := boxed_task table listed
    rw [here]
    rfl
  have lengths := congrArg List.length whole
  rw [List.length_map,List.length_map] at lengths
  exact lengths.symm

theorem counts_sum {ids : List ℕ} (once : ids.Nodup) (inside : ∀ who ∈ ran, who ∈ ids) : (ids.map ran.count).sum = ran.length := by
  have total := Multiset.sum_count_eq_card (s:=ids.toFinset) (m:=(ran : Multiset ℕ)) (by simpa using inside)
  rw [List.sum_toFinset _ once] at total
  simpa using total

-- The number of calls after which a step gives up, told apart by the first one that does.
def Lasts (m : Member) (n : ℕ) : Prop := 0 < n ∧ (m.outcome (n-1)).alive = false ∧ ∀ k < n-1, (m.outcome k).alive = true

theorem lasts_ended (lasts : Lasts m n) (ended : Ended ran m last) : ran.count m.id = n := by
  obtain ⟨positive,stops,goes⟩ := lasts
  obtain ⟨count,stops',goes'⟩ := ended
  rcases Nat.lt_trichotomy last (n-1) with early | same | late
  · rw [goes last early] at stops'
    cases stops'
  · omega
  · rw [goes' (n-1) late] at stops
    cases stops

theorem ledger_final (register : Register roster ran s) (distinct : (roster.map (·.id)).Nodup) (empty : queuedTasks s = [])
    (lasts : ∀ m ∈ roster, Lasts m (n m)) :
    ledger s = (roster.map fun m => (m.id,m.name,n m % 2^64)).mergeSort (fun a b => decide (a.1 ≤ b.1)) ∧
      ran.length = (roster.map n).sum := by
  have counts : ∀ m ∈ roster, ran.count m.id = n m := by
    intro m known
    rcases register_place register distinct known with ⟨⟨t,member,_⟩,_⟩ | ⟨_,last,ended⟩
    · rw [empty] at member
      cases member
    · exact lasts_ended (lasts m known) ended
  have entries : (roster.map fun m => (m.id,m.name,ran.count m.id % 2^64)) = roster.map fun m => (m.id,m.name,n m % 2^64) := by
    apply List.map_congr_left
    intro m known
    rw [counts m known]
  constructor
  · have perm := register_entries register distinct
    rw [entries] at perm
    have keys : ((roster.map fun m => (m.id,m.name,n m % 2^64)).map (·.1)).Nodup := by
      rw [List.map_map]
      exact distinct
    have strict := ids_strict (ids_sorted _) (((List.mergeSort_perm _ _).map _).nodup_iff.mpr keys)
    refine List.Perm.eq_of_pairwise ?_ (register_sorted register distinct) strict (perm.trans (List.mergeSort_perm _ _).symm)
    intro a b _ _ less more
    exact absurd less (Nat.lt_asymm more)
  · rw [← counts_sum distinct register.called,List.map_map]
    congr 1
    apply List.map_congr_left
    intro m known
    exact counts m known

end ledger

-- No task is lost, doubled or miscounted, whatever the policy, the weights, the naps and
-- the ticks; and a run that ends with nobody alive ends with the same ledger.
theorem ledger_accounts {b : Build} {allowed : Kernel → Interrupted → Prop} (history : History b allowed roster ran wins s)
    (distinct : (roster.map (·.id)).Nodup) :
    ((queuedTasks s).map (fun t => (t.id,t.name)) ++ s.finishedRuns.map fun e => (e.1,e.2.1)).Perm
      (roster.map fun m => (m.id,m.name)) ∧
    (∀ m ∈ roster, (∃ t ∈ queuedTasks s, memberOf t = m) ↔
      ran.count m.id = 0 ∨ (m.outcome (ran.count m.id-1)).alive = true) ∧
    (∀ entry ∈ s.finishedRuns, ∀ found s', Returns (Irq allowed) (scheduleOnce b.policy b.profile) s found s' →
      entry.1 ∉ stepIds s s' ∧ entry ∈ s'.finishedRuns) ∧
    (ledger s).Pairwise (fun a b => a.1 < b.1) ∧
    (ledger s).Perm (roster.map fun m => (m.id,m.name,ran.count m.id % 2^64)) ∧
    alive s = (queuedTasks s).length ∧
    (∀ n : Member → ℕ, (∀ m ∈ roster, Lasts m (n m)) → alive s = 0 →
      ledger s = (roster.map fun m => (m.id,m.name,n m % 2^64)).mergeSort (fun a b => decide (a.1 ≤ b.1)) ∧
      wins = (roster.map n).sum) := by
  have register := history_register history distinct
  have session := history_session history
  have table := (session_parts session).2
  refine ⟨register_names register distinct,fun m known => queued_exactly register distinct known,?_,
    register_sorted register distinct,register_entries register distinct,(queued_length table).symm,?_⟩
  · intro entry member found s' returns
    rcases scheduled_took (schedule_scheduled session returns) with ⟨_,still⟩ | ⟨_,addr,task,rest,took⟩
    · rw [still_ids still]
      obtain ⟨n,_,rfl⟩ := still
      exact ⟨List.not_mem_nil,member⟩
    · rw [took_ids took]
      refine ⟨?_,?_⟩
      · intro own
        have queued : task.id ∈ (queuedTasks s).map (·.id) :=
          List.mem_map_of_mem ((took_tasks table took).1.mem_iff.mpr List.mem_cons_self)
        have once := register.everyone.nodup_iff.mpr distinct
        rw [← List.mem_singleton.mp own] at queued
        exact (List.nodup_append.mp once).2.2 entry.1 queued entry.1 (List.mem_map_of_mem member) rfl
      · rcases took.verdict with ⟨_,_,_,finished⟩ | ⟨_,_,_,finished⟩
        · rw [finished]
          exact member
        · rw [finished]
          exact List.mem_append_left _ member
  · intro n lasts nobody
    have empty : queuedTasks s = [] := List.length_eq_zero_iff.mp ((queued_length table).trans nobody)
    have final := ledger_final register distinct empty lasts
    rw [history_wins history]
    exact final

def sampleEmployment : List (Call × List (List Interrupted)) :=
  [(.new 0x100000 2 "a" (sampleSteps 1),quiet),(.sleeping 0x130000 3 "n" 1 (sampleSteps 0),quiet),(.spawn 0 0x5000,quiet),
    (.spawn 0 0x6000,quiet),(.scheduleOnce,midStep ++ quiet),(.new 0x160000 1 "b" (sampleSteps 0),quiet),(.spawn 0 0x7000,quiet),
    (.scheduleOnce,quiet),(.scheduleOnce,quiet),(.scheduleOnce,quiet)]

theorem ledger_accounts_sample : ∃ roster ran wins s, History (sampleBuild .cfs) Unwrapped roster ran wins s ∧
    (roster.map (·.id)).Nodup ∧ alive s = 0 ∧ wins = 4 ∧ ledger s = [(1,"b",1),(2,"a",2),(3,"n",1)] ∧
    (ledger s).Perm (roster.map fun m => (m.id,m.name,ran.count m.id % 2^64)) := by
  obtain ⟨⟨roster,ran,wins,s⟩,recorded,checked⟩ := (Option.any_eq_true _ _).mp (show (List.foldlM
    (Call.recorded (sampleBuild .cfs) unwrappedCheck) ([],[],0,Kernel.boot 0 true) sampleEmployment).any (fun r =>
      (decide (r.1.map (·.id)).Nodup && alive r.2.2.2 == 0) && (r.2.2.1 == 4 &&
        (r.1.map fun m => (m.id,m.name,r.2.1.count m.id % 2^64)) == [(2,"a",2),(3,"n",1),(1,"b",1)])) = true by decide +kernel)
  simp only [Bool.and_eq_true,beq_iff_eq,decide_eq_true_eq] at checked
  obtain ⟨⟨distinct,nobody⟩,four,entries⟩ := checked
  have history := recorded_history unwrapped_sound (.boot 0 true) recorded
  obtain ⟨_,_,_,sorted,counted,_,_⟩ := ledger_accounts history distinct
  refine ⟨roster,ran,wins,s,history,distinct,nobody,four,?_,counted⟩
  rw [entries] at counted
  refine List.Perm.eq_of_pairwise ?_ sorted (show List.Pairwise _ _ by decide) (counted.trans (by decide))
  intro a b _ _ less more
  exact absurd less (Nat.lt_asymm more)

section wrap

def tireless : Member := ⟨1,"a",fun _ => ⟨0,true,STACK_CANARY⟩⟩

def never (_ : Kernel) (_ : Interrupted) : Prop := False

def Alone (s : Kernel) : Prop := ∃ task, s.ready = [0x5000] ∧ s.heap 0x5000 = some task ∧ task.state = .ready ∧
  task.stack.canary = STACK_CANARY ∧ memberOf task = tireless

variable {s : Kernel}

theorem alone_blames (healthy : task.stack.canary = STACK_CANARY) : Blames (fun _ => False) .release (Confined never) task := by
  refine ⟨fun trashed => trashed healthy,?_,fun loose => loose fun _ _ fired => fired.elim⟩
  intro fault failed
  unfold Profile.add at failed
  split at failed
  · cases failed
  · cases failed

theorem alone_turn (session : Session (sampleBuild .roundRobin) never s) (alone : Alone s) :
    ∃ s', Returns (Irq never) (scheduleOnce .roundRobin .release) s true s' ∧ stepIds s s' = [1] ∧ Alone s' := by
  obtain ⟨task,ready,here,state,healthy,member⟩ := alone
  obtain ⟨boot,table⟩ := session_parts session
  have safe := scheduleOnce_safe (p:=.release) (E:=fun _ => False) .roundRobin boot table (by
    rw [ready]
    intro addr listed t found
    rw [List.mem_singleton.mp listed] at found
    cases here.symm.trans found
    exact alone_blames healthy)
  obtain ⟨found,s',returns⟩ := safe_progress safe
  have scheduled := safe_returns safe returns
  rcases scheduled_took scheduled with ⟨rfl,_⟩ | ⟨rfl,addr,t,rest,took⟩
  · cases scheduled with
    | idle parked _ =>
        obtain ⟨t,found,sleeps⟩ := parked (fun _ _ fired => fired.elim) 0x5000 (by rw [ready]; exact List.mem_cons_self)
        cases here.symm.trans found
        unfold asleep at sleeps
        rw [state] at sleeps
        cases sleeps
  · have queue := took.queue
    rw [ready] at queue
    obtain ⟨rfl,rfl⟩ : 0x5000 = addr ∧ [] = rest := by simpa using List.singleton_perm.mp queue
    cases here.symm.trans took.here
    refine ⟨s',returns,?_,?_⟩
    · rw [took_ids took]
      exact congrArg (fun m => [Member.id m]) member
    · have steps : task.step.outcome = tireless.outcome := congrArg Member.outcome member
      rcases took.verdict with ⟨alive,ready',⟨vruntime,here'⟩,_⟩ | ⟨dead,_⟩
      · refine ⟨_,ready',here',(stepped_ready task).mpr alive,?_,member⟩
        show (task.step.outcome task.step.calls).canary = STACK_CANARY
        rw [steps]
        rfl
      · rw [steps] at dead
        cases dead

theorem alone_start : ∃ s, History (sampleBuild .roundRobin) never [tireless] [] 0 s ∧ Alone s := by
  obtain ⟨⟨roster,ran,wins,s⟩,recorded,checked⟩ := (Option.any_eq_true _ _).mp (show (List.foldlM
    (Call.recorded (sampleBuild .roundRobin) fun _ _ => false) ([],[],0,Kernel.boot 0 true)
    [(.new 0x100000 1 "a" tireless.outcome,quiet),(.spawn 0 0x5000,quiet)]).any (fun r =>
      (decide (r.2.1 = []) && r.2.2.1 == 0) && (r.2.2.2.ready == [0x5000] && (r.2.2.2.heap 0x5000).any fun task =>
        task.state == .ready && task.stack.canary == STACK_CANARY)) = true by decide +kernel)
  simp only [Bool.and_eq_true,beq_iff_eq,decide_eq_true_eq] at checked
  obtain ⟨⟨rfl,rfl⟩,ready,checked⟩ := checked
  obtain ⟨task,here,fields⟩ := (Option.any_eq_true _ _).mp checked
  rw [Bool.and_eq_true,beq_iff_eq,beq_iff_eq] at fields
  have sound : ∀ (s : Kernel) (regs : Interrupted), false = true → never s regs := fun _ _ impossible => by cases impossible
  have history := recorded_history sound (.boot 0 true) recorded
  have hired : roster = [tireless] := congrArg Prod.fst (recorded_roll sound (.boot 0 true) recorded)
  subst hired
  have known := ((history_register history (List.nodup_singleton _)).queued task
    (List.mem_filterMap.mpr ⟨0x5000,by rw [ready]; exact List.mem_cons_self,here⟩)).1
  exact ⟨s,history,task,ready,here,fields.1,fields.2,List.mem_singleton.mp known⟩

theorem alone_history (n : ℕ) : ∃ ran s, History (sampleBuild .roundRobin) never [tireless] ran n s ∧ ran.count 1 = n ∧ Alone s := by
  induction n with
  | zero =>
      obtain ⟨s,history,alone⟩ := alone_start
      exact ⟨[],s,history,rfl,alone⟩
  | succ n ih =>
      obtain ⟨ran,s,history,count,alone⟩ := ih
      obtain ⟨s',returns,ids,alone'⟩ := alone_turn (history_session history) alone
      have next := History.schedule history returns
      rw [ids] at next
      refine ⟨ran ++ [1],s',next,?_,alone'⟩
      rw [List.count_append,count]
      rfl

theorem ledger_counter_wraps : ∃ ran wins s, History (sampleBuild .roundRobin) never [tireless] ran wins s ∧
    ran.count tireless.id = 2^64 ∧ wins = 2^64 ∧ ledger s = [(tireless.id,tireless.name,0)] := by
  obtain ⟨ran,s,history,count,_⟩ := alone_history (2^64)
  refine ⟨ran,2^64,s,history,count,rfl,?_⟩
  have entries := register_entries (history_register history (List.nodup_singleton _)) (List.nodup_singleton _)
  rw [List.map_singleton,show ran.count tireless.id = 2^64 from count,Nat.mod_self] at entries
  exact List.perm_singleton.mp entries

end wrap
end RustyCore
