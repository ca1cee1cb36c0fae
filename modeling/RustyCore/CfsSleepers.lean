import RustyCore.CfsFairness

namespace RustyCore.Cfs
open InterruptedPrograms Function

def awakeMinimum (now : ℕ) (s : Kernel) (addr : ℕ) : Option ℕ :=
  ((((s.ready.erase addr).filterMap s.heap).filter fun t => !asleep now t).map (·.vruntime)).min?

def parkedMinimum (now : ℕ) (s : Kernel) (addr : ℕ) : Option ℕ :=
  ((((s.ready.erase addr).filterMap s.heap).filter (asleep now)).map (·.vruntime)).min?

section clamp
variable {s : Kernel} {addr now least : ℕ}

theorem minimum_member {tasks : List Task} (minimum : (tasks.map (·.vruntime)).min? = some least) :
    (∃ t ∈ tasks, t.vruntime = least) ∧ ∀ t ∈ tasks, least ≤ t.vruntime := by
  obtain ⟨member,bound⟩ := List.min?_eq_some_iff.mp minimum
  exact ⟨List.mem_map.mp member,fun t listed => bound t.vruntime (List.mem_map_of_mem listed)⟩

theorem minimum_exists {tasks : List Task} (listed : t ∈ tasks) : ∃ least, (tasks.map (·.vruntime)).min? = some least := by
  cases minimum : (tasks.map (·.vruntime)).min? with
  | none =>
      rw [List.min?_eq_none_iff,List.map_eq_nil_iff] at minimum
      rw [minimum] at listed
      cases listed
  | some least => exact ⟨least,rfl⟩

theorem floor_member (listed : t ∈ (s.ready.erase addr).filterMap s.heap) :
    (∃ t ∈ (s.ready.erase addr).filterMap s.heap, t.vruntime = floorBeside s addr) ∧
    ∀ t ∈ (s.ready.erase addr).filterMap s.heap, floorBeside s addr ≤ t.vruntime := by
  obtain ⟨floor,minimum⟩ := minimum_exists listed
  have value : floorBeside s addr = floor := by
    unfold floorBeside minVruntime
    rw [minimum,Option.getD_some]
  rw [value]
  exact minimum_member minimum

theorem floor_reaches (awake : awakeMinimum now s addr = some least) :
    least ≤ floorBeside s addr ↔ ∀ parked ∈ parkedMinimum now s addr, least ≤ parked := by
  obtain ⟨⟨t,listed,_⟩,bound⟩ := minimum_member awake
  obtain ⟨⟨lowest,member,value⟩,floor⟩ := floor_member (List.mem_of_mem_filter listed)
  constructor
  · intro reaches parked found
    obtain ⟨⟨sleeper,among,equal⟩,_⟩ := minimum_member found
    have above := floor sleeper (List.mem_of_mem_filter among)
    omega
  · intro clear
    rw [← value]
    cases sleeps : asleep now lowest with
    | false => exact bound lowest (List.mem_filter.mpr ⟨member,by rw [sleeps]; rfl⟩)
    | true =>
        have among := List.mem_filter.mpr ⟨member,sleeps⟩
        obtain ⟨parked,minimum⟩ := minimum_exists among
        exact Nat.le_trans (clear parked minimum) ((minimum_member minimum).2 lowest among)

theorem woken_sleeper (sleeps : task.state = .sleeping untilTick) (floor : ℕ) :
    (woken floor task).vruntime = max task.vruntime floor := by
  simp only [woken,sleeps]
  split <;> omega

end clamp

-- A woken sleeper runs with at least the minimum of the others awake, exactly if it had
-- that much before or the sleepers still parked do not pull the floor below it.
theorem cfs_sleeper_floor {b : Build} {allowed : Kernel → Interrupted → Prop} (session : Session b allowed s)
    (returns : Returns (Irq allowed) (scheduleOnce b.profile) s ran s') :
    ∃ choice mid, Returns (Irq allowed) choose s choice mid ∧
      Returns (Irq allowed) (proceed (turn b.profile) choice.2) mid ran s' ∧
      ∀ addr task untilTick task', choice.2 = some addr → s.heap addr = some task → task.state = .sleeping untilTick →
        mid.heap addr = some task' →
        ((∀ least ∈ awakeMinimum choice.1 s addr, least ≤ task'.vruntime) ↔
          ∀ least ∈ awakeMinimum choice.1 s addr, least ≤ task.vruntime ∨
            ∀ parked ∈ parkedMinimum choice.1 s addr, least ≤ parked) := by
  obtain ⟨boot,table⟩ := session_parts session
  rw [scheduleOnce_choose] at returns
  obtain ⟨choice,mid,chose,turned⟩ := returns_bind returns
  refine ⟨choice,mid,chose,turned,?_⟩
  intro addr task untilTick task' chosen here sleeps after
  have searched : Searched allowed s choice mid :=
    safe_returns (choose_safe (E:=fun _ => True) boot fun _ _ searched => searched) chose
  cases searched with
  | idle => cases chosen
  | found now idx x t state n between picked there here' =>
      cases chosen
      cases here.symm.trans here'
      obtain ⟨bound,equal⟩ := List.getElem?_eq_some_iff.mp there
      have erased : s.ready.eraseIdx idx = s.ready.erase addr := by rw [← equal,table.once.erase_getElem idx bound]
      cases (update_self _ _ _).symm.trans after
      show (∀ least ∈ awakeMinimum now s addr, least ≤
        (woken (minVruntime {s with ready := s.ready.eraseIdx idx}) task).vruntime) ↔ _
      rw [erased,woken_sleeper sleeps]
      refine forall₂_congr fun least minimum => ?_
      rw [le_max_iff]
      exact or_congr_right (floor_reaches minimum)

def sampleNaps (others : List (Call × List (List Interrupted))) : List (Call × List (List Interrupted)) :=
  [(.new 0x100000 1 "a" (sampleSteps 5),quiet),(.sleeping 0x130000 2 "b" 1 (sampleSteps 5),quiet),(.spawn 0 0x5000,quiet),
    (.spawn 0 0x6000,quiet)] ++ others ++ [(.scheduleOnce,midStep ++ quiet)]

def napsIn (s : Kernel) (addr untilTick : ℕ) : Bool := (s.heap addr).any fun task => task.state == .sleeping untilTick

theorem napsIn_sound (found : napsIn s addr untilTick = true) :
    ∃ task, s.heap addr = some task ∧ task.state = .sleeping untilTick := by
  obtain ⟨task,here,sleeps⟩ := (Option.any_eq_true _ _).mp found
  exact ⟨task,here,beq_iff_eq.mp sleeps⟩

theorem cfs_sleeper_floor_sample : ∃ s s', Session (sampleBuild .cfs) Unwrapped s ∧
    (∃ task, s.heap 0x6000 = some task ∧ task.state = .sleeping 1) ∧ awakeMinimum 1 s 0x6000 = some 100 ∧
    ∃ choice mid, Returns (Irq Unwrapped) choose s choice mid ∧
      Returns (Irq Unwrapped) (proceed (turn .release) choice.2) mid true s' ∧
      ∀ addr task untilTick task', choice.2 = some addr → s.heap addr = some task → task.state = .sleeping untilTick →
        mid.heap addr = some task' →
        ((∀ least ∈ awakeMinimum choice.1 s addr, least ≤ task'.vruntime) ↔
          ∀ least ∈ awakeMinimum choice.1 s addr, least ≤ task.vruntime ∨
            ∀ parked ∈ parkedMinimum choice.1 s addr, least ≤ parked) := by
  obtain ⟨s,booted,checked⟩ := (Option.any_eq_true _ _).mp (show (List.foldlM (Call.exec (sampleBuild .cfs) unwrappedCheck)
    (Kernel.boot 0 true) (sampleNaps [])).any (fun s => (napsIn s 0x6000 1 && awakeMinimum 1 s 0x6000 == some 100) &&
      ((drive (fire unwrappedCheck) (scheduleOnce .release) quiet s).bind returned).any (·.1)) = true by decide +kernel)
  simp only [Bool.and_eq_true,beq_iff_eq] at checked
  obtain ⟨⟨naps,awake⟩,checked⟩ := checked
  obtain ⟨⟨ran,s'⟩,driven,again⟩ := (Option.any_eq_true _ _).mp checked
  have returns := drive_returns (fire_irq unwrapped_sound) driven
  rw [show ran = true from again] at returns
  have session : Session (sampleBuild .cfs) Unwrapped s := exec_session unwrapped_sound (.boot 0 true) booted
  have floor := cfs_sleeper_floor session returns
  exact ⟨s,s',session,napsIn_sound naps,awake,floor⟩

-- With a second sleeper parked at vruntime zero the first one wakes at zero, while the only
-- other task awake has accrued a whole slice.
theorem cfs_sleeper_banks_nap : ∃ s mid s' task', Session (sampleBuild .cfs) Unwrapped s ∧
    (∃ task, s.heap 0x6000 = some task ∧ task.state = .sleeping 1) ∧
    Returns (Irq Unwrapped) (scheduleOnce .release) s true s' ∧ Returns (Irq Unwrapped) choose s (1,some 0x6000) mid ∧
    Returns (Irq Unwrapped) (turn .release 0x6000) mid true s' ∧
    awakeMinimum 1 s 0x6000 = some 100 ∧ mid.heap 0x6000 = some task' ∧ task'.vruntime = 0 := by
  obtain ⟨s,booted,checked⟩ := (Option.any_eq_true _ _).mp (show (List.foldlM (Call.exec (sampleBuild .cfs) unwrappedCheck)
    (Kernel.boot 0 true) (sampleNaps [(.sleeping 0x160000 3 "c" 100 (sampleSteps 5),quiet),(.spawn 0 0x7000,quiet)])).any
    (fun s => (napsIn s 0x6000 1 && awakeMinimum 1 s 0x6000 == some 100) &&
      ((drive (fire unwrappedCheck) choose quiet s).bind returned).any fun r => (r.1 == (1,some 0x6000) &&
        (r.2.heap 0x6000).any fun task => task.vruntime == 0) &&
        ((drive (fire unwrappedCheck) (turn .release 0x6000) quiet r.2).bind returned).any (·.1)) = true by decide +kernel)
  simp only [Bool.and_eq_true,beq_iff_eq] at checked
  obtain ⟨⟨naps,awake⟩,checked⟩ := checked
  obtain ⟨⟨choice,mid⟩,chose,checked⟩ := (Option.any_eq_true _ _).mp checked
  simp only [Bool.and_eq_true,beq_iff_eq] at checked
  obtain ⟨⟨rfl,vruntime⟩,checked⟩ := checked
  obtain ⟨task',here,zero⟩ := (Option.any_eq_true _ _).mp vruntime
  obtain ⟨⟨ran,s'⟩,turned,again⟩ := (Option.any_eq_true _ _).mp checked
  have first := drive_returns (fire_irq unwrapped_sound) chose
  have second := drive_returns (fire_irq unwrapped_sound) turned
  rw [show ran = true from again] at second
  refine ⟨s,mid,s',task',exec_session unwrapped_sound (.boot 0 true) booted,napsIn_sound naps,?_,first,second,awake,here,
    beq_iff_eq.mp zero⟩
  rw [scheduleOnce_choose]
  exact bind_returns first second

end RustyCore.Cfs
