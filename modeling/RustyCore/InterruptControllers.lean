import RustyCore.ClockPromotion
import RustyCore.InterruptHandling

namespace RustyCore.Interrupts
open InterruptedPrograms ChainedPics Relation

section rules
variable {c : Crates} {mode : Mode} {frozen hits : Option ℕ} {s : State} {Q : Unit → State → Prop} (documented : c.Documented)
include documented

theorem editMasks_runs {f : BitVec 8 → BitVec 8} (here : In mode frozen hits s) (off : mode.on = false) (free : mode.held = false) :
    Runs c frozen (editMasks c f) (fun _ => In {mode with master := f mode.master} frozen hits) s := by
  refine safe_then (documented.lock here off free) fun _ s here => ?_
  refine safe_then (documented.readMasks here off) fun masks s read => ?_
  obtain ⟨rfl,here⟩ := read
  refine safe_then (documented.writeMasks _ _ here off) fun _ s here => ?_
  refine safe_post (documented.unlock here off) fun _ s here => ?_
  exact {here with held := here.held.trans free.symm}

theorem init_runs (here : In mode frozen hits s) (off : mode.on = false) (free : mode.held = false) :
    Runs c frozen (init c) (fun _ => In ⟨false,false,true,0xFF#8,0xFF#8⟩ frozen hits) s := by
  refine safe_then (documented.lock here off free) fun _ s here => ?_
  refine safe_then (documented.initialise here off) fun _ s here => ?_
  refine safe_then (documented.writeMasks _ _ here off) fun _ s here => ?_
  refine safe_post (documented.unlock here off) fun _ s here => ?_
  rw [off] at here
  exact here

theorem timerInit_runs {p : Profile} (here : In mode frozen hits s) (off : mode.on = false) (free : mode.held = false) :
    Runs c frozen (timerInit c p) (fun _ => In {mode with master := mode.master &&& ~~~ 1#8} frozen hits) s := by
  refine step_load documented.toAlone here (legal_off off) fun s here => ?_
  have checked : (decide (p = .release) || !s.interruptFlag) = true := by simp [here.on,off]
  rw [checked]
  exact editMasks_runs documented (f:=(· &&& ~~~ 1#8)) here off free

theorem masked_runs {f : BitVec 8 → BitVec 8} (here : In mode frozen hits s) (legal : mode.Legal frozen) (free : mode.held = false)
    (legal' : {mode with master := f mode.master}.Legal frozen) :
    Runs c frozen (c.withoutInterrupts (editMasks c f)) (fun _ => In {mode with master := f mode.master} frozen hits) s :=
  documented.withoutInterrupts here legal rfl legal' fun _ here => editMasks_runs documented here rfl free

theorem step_syscall {k : Unit → Prog State Fault Unit} (here : In mode frozen (some n) s) (legal : mode.Legal frozen)
    (next : ∀ s, In mode frozen (some (bump n)) s → Runs c frozen (k ()) Q s) : Runs c frozen (int c SYSCALL_VECTOR >>= k) Q s := by
  refine step_store documented.toAlone here legal fun s here => next _ ?_
  have counted : ∀ m ∈ some (bump n), bump s.syscallHits = m := by simp [here.hits n rfl]
  exact {here with hits := counted}

theorem selfTest_runs (here : In mode frozen (some 0) s) (legal : mode.Legal frozen) :
    Runs c frozen (selfTest c) (fun _ => In mode frozen none) s := by
  refine step_syscall documented here legal fun s here => ?_
  refine step_syscall documented here legal fun s here => ?_
  refine step_load documented.toAlone here legal fun s here => ?_
  have twice : s.syscallHits = 2 := here.hits 2 rfl
  rw [twice]
  exact runs_ret documented.toAlone here legal fun s here => {here with hits := by simp}

end rules

def Call.masks : Call → BitVec 8 → BitVec 8
  | .promote,master => master ||| 1#8
  | .rollbackToPit,master => master &&& ~~~ 1#8
  | .cli,master | .sti,master => master

-- The clock's promotion writes these masks.
theorem clock_masks (b : ClockPromotion.BringUp) (m : ClockPromotion.Machine) :
    (ClockPromotion.rollbackToPit m).masks = (Call.rollbackToPit.masks m.masks.1,m.masks.2) ∧
    ∀ m', ClockPromotion.promote b m = .ok m' → m'.masks = (Call.promote.masks m.masks.1,m.masks.2) := by
  refine ⟨rfl,fun m' promoted => ?_⟩
  simp only [ClockPromotion.promote] at promoted
  split at promoted
  · cases promoted
  · split at promoted
    · cases promoted
    · cases promoted
      rfl

def steady (on : Bool) (master : BitVec 8) : Mode := ⟨on,false,true,master,0xFF#8⟩

theorem steady_legal (closed : master ||| 1#8 = 0xFF#8) (frozen : Option ℕ) (still : frozen.isSome = true → master = 0xFF#8) :
    (steady on master).Legal frozen := fun _ => ⟨rfl,rfl,rfl,closed,still⟩

theorem masks_closed (call : Call) (closed : master ||| 1#8 = 0xFF#8) : call.masks master ||| 1#8 = 0xFF#8 := by
  cases call with
  | promote =>
      rw [Call.masks,BitVec.or_assoc,BitVec.or_self]
      exact closed
  | rollbackToPit =>
      revert closed
      revert master
      decide
  | cli => exact closed
  | sti => exact closed

theorem masks_still (call : Call) (kept : call ≠ .rollbackToPit) : call.masks 0xFF#8 = 0xFF#8 := by
  cases call with
  | rollbackToPit => exact absurd rfl kept
  | promote => decide
  | cli => rfl
  | sti => rfl

def masksAfter (calls : List Call) (master : BitVec 8) : BitVec 8 := calls.foldl (fun master call => call.masks master) master

-- What the boot loader hands over: interrupts off, the statics as they are linked, and idle PICs.
structure Boot (s : State) : Prop where
  off : s.interruptFlag = false
  unlocked : s.locked = false
  idle : s.pics.master.isr = 0#8 ∧ s.pics.slave.isr = 0#8
  calm : s.stuck = false ∧ s.panicked = false ∧ s.scancodes = 0
  hits : s.syscallHits = 0

inductive Input where
  | raise (n : ℕ)
  | pic
  | lapic (vector : ℕ)

def fire : Input → State → Option State
  | .raise n,s => some {s with pics := s.pics.raise n}
  | .pic,s => if s.interruptFlag then some (dispatch portIo s.pics.acknowledge.1 {s with pics := s.pics.acknowledge.2}) else none
  | .lapic vector,s =>
    if s.interruptFlag ∧ vector ∈ [LAPIC_TIMER_VECTOR,LAPIC_ERROR_VECTOR,SPURIOUS_APIC_VECTOR] then some (dispatch portIo vector s)
    else none

theorem fire_sound (input : Input) (s s' : State) (fired : fire input s = some s') : Irq portIo s s' := by
  cases input with
  | raise n =>
      cases fired
      exact .raise n
  | pic =>
      simp only [fire,Option.ite_none_right_eq_some,Option.some.injEq] at fired
      obtain ⟨enabled,rfl⟩ := fired
      exact .pic enabled
  | lapic vector =>
      simp only [fire,Option.ite_none_right_eq_some,Option.some.injEq] at fired
      obtain ⟨⟨enabled,known⟩,rfl⟩ := fired
      exact .lapic enabled known

def bootState : State := ⟨false,false,⟨⟨8,0xB8#8,0#8,0#8⟩,⟨0x70,0x8E#8,0#8,0#8⟩⟩,0,0,0,0,0,false,false⟩

theorem bootState_boot : Boot bootState := ⟨rfl,rfl,⟨rfl,rfl⟩,⟨rfl,rfl,rfl⟩,rfl⟩

-- The keyboard and the PIT ask before the first instruction; the PIT is served once interrupts are on.
def sampleSchedule : List (List Input) :=
  [[.raise 1,.raise 0]] ++ List.replicate 20 [] ++ [[.pic,.lapic LAPIC_TIMER_VECTOR]] ++ List.replicate 30 [.raise 0]

theorem sample_returns : Returns (Irq portIo) (kernelMain portIo .dev [.promote]) bootState ()
    ⟨true,false,⟨⟨32,0xFF#8,3#8,0#8⟩,⟨40,0xFF#8,0#8,0#8⟩⟩,1,1,0,0,2,false,false⟩ :=
  drive_returns fire_sound
    (show (drive fire (kernelMain portIo .dev [.promote]) sampleSchedule bootState).bind returned = _ by decide +kernel)

theorem masksAfter_closed (calls : List Call) (closed : master ||| 1#8 = 0xFF#8) : masksAfter calls master ||| 1#8 = 0xFF#8 := by
  induction calls generalizing master with
  | nil => exact closed
  | cons call rest ih => exact ih (masks_closed call closed)

theorem masksAfter_last (calls : List Call) (call : Call) (master : BitVec 8) :
    masksAfter (calls ++ [call]) master = call.masks (masksAfter calls master) := by
  simp [masksAfter]

section calls
variable {c : Crates} {s : State} (documented : c.Documented)
include documented

-- By induction over the calls; every one of them starts and ends in a steady mode.
theorem runCalls_safe (closed : master ||| 1#8 = 0xFF#8) (still : frozen.isSome = true → master = 0xFF#8 ∧ Call.rollbackToPit ∉ calls)
    (here : In (steady on master) frozen hits s) :
    Runs c frozen (runCalls c calls) (fun _ s => ∃ on, In (steady on (masksAfter calls master)) frozen hits s) s := by
  induction calls generalizing on master s with
  | nil =>
      have legal : (steady on master).Legal frozen := steady_legal closed frozen fun some => (still some).1
      exact runs_ret documented.toAlone here legal fun s here => ⟨on,here⟩
  | cons call rest ih =>
      have legal : (steady on master).Legal frozen := steady_legal closed frozen fun some => (still some).1
      have closed' := masks_closed call closed
      have still' : frozen.isSome = true → call.masks master = 0xFF#8 ∧ Call.rollbackToPit ∉ rest := by
        intro some
        obtain ⟨rfl,absent⟩ := still some
        rw [List.mem_cons,not_or] at absent
        exact ⟨masks_still call (Ne.symm absent.1),absent.2⟩
      have legal' : (steady on (call.masks master)).Legal frozen := steady_legal closed' frozen fun some => (still' some).1
      rw [runCalls]
      cases call with
      | promote => exact safe_then (masked_runs documented here legal rfl legal') fun _ s here => ih closed' still' here
      | rollbackToPit => exact safe_then (masked_runs documented here legal rfl legal') fun _ s here => ih closed' still' here
      | cli => exact step_setFlag documented.toAlone here legal fun s here => ih closed' still' here
      | sti => exact step_setFlag documented.toAlone here legal fun s here => ih closed' still' here

theorem kernelMain_safe (p : Profile) (calls : List Call) (boot : Boot s) : Runs c none (kernelMain c p calls)
    (fun _ s => ∃ on, In (steady on (masksAfter calls (0xFF#8 &&& ~~~ 1#8))) none none s) s := by
  have here : In ⟨false,false,false,s.pics.master.imr,s.pics.slave.imr⟩ none (some 0) s :=
    {on := boot.off, held := boot.unlocked, master := rfl, slave := rfl, ready := by simp, idle := boot.idle, calm := boot.calm,
      ticks := by simp, hits := by simp [boot.hits]}
  have legal : (steady true (0xFF#8 &&& ~~~ 1#8)).Legal none := steady_legal (by decide) none (by simp)
  refine step_setFlag documented.toAlone here (legal_off rfl) fun s here => ?_
  refine safe_then (init_runs documented here rfl rfl) fun _ s here => ?_
  refine safe_then (timerInit_runs documented here rfl rfl) fun _ s here => ?_
  refine step_setFlag documented.toAlone here (legal_off rfl) fun s here => ?_
  refine step_store documented.toAlone here legal fun s here => ?_
  have here : In (steady true (0xFF#8 &&& ~~~ 1#8)) none (some 0) (dispatch c 3 s) := {here with}
  refine safe_then (selfTest_runs documented here legal) fun _ s here => ?_
  exact runCalls_safe documented (by decide) (by simp) here

theorem interrupts_stay_quiet (p : Profile) (calls : List Call) (boot : Boot s) (reach : Reach (Irq c) (kernelMain c p calls,s) (rest,s')) :
    Quiet none s' ∧ (∀ fault, ¬ Faults (Irq c) rest s' fault) ∧ (∃ last, Returns (Irq c) rest s' () last) ∧
    ∀ last, Returns (Irq c) rest s' () last → last.locked = false ∧
      last.pics.master.imr = masksAfter calls (0xFF#8 &&& ~~~ 1#8) ∧ last.pics.slave.imr = 0xFF#8 := by
  have safe := safe_reach (kernelMain_safe documented p calls boot) reach
  refine ⟨safe_now safe,fun fault faults => safe_faults safe faults,?_,?_⟩
  · obtain ⟨_,last,returns⟩ := safe_progress safe
    exact ⟨last,returns⟩
  · intro last returns
    obtain ⟨_,here⟩ := safe_returns safe returns
    exact ⟨here.held,here.master,here.slave⟩

omit documented in
theorem interrupts_stay_quiet_sample : ∃ s, Returns (Irq portIo) (kernelMain portIo .dev [.promote]) bootState () s ∧ s.timerTicks = 1 ∧
    s.pics.master.irr = 3#8 ∧ Quiet none s :=
  ⟨_,sample_returns,rfl,rfl,(interrupts_stay_quiet portIo_documented .dev [.promote] bootState_boot sample_returns).1⟩

theorem tick_follows (here : In (steady on master) none hits s) (closed : master ||| 1#8 = 0xFF#8)
    (clear : master.getLsbD 0 = false) (enabled : s.interruptFlag = true) :
    ∃ ticked, ReflTransGen (Irq c) s ticked ∧ ticked.timerTicks = bump s.timerTicks := by
  have raised := here.raise 0
  have masks : (s.pics.raise 0).master.imr = master := raised.master
  have found : (s.pics.raise 0).master.pending = some 0 := by
    refine Pic.pending_first ?_ ?_ raised.idle.1
    · simp [Pics.raise,Pic.raise]
    · rw [masks]
      exact clear
  have served := Irq.pic (c:=c) (s:={s with pics := s.pics.raise 0}) enabled
  rcases acknowledge_cases (masks.symm ▸ closed) with ⟨_,taken⟩ | ⟨none_,_⟩
  · rw [taken,raised.ready rfl,timer_served documented.toAlone raised.held raised.idle.1 found] at served
    exact ⟨_,.tail (.single (.raise 0)) served,rfl⟩
  · simp [none_] at found

theorem promotion_stops_pit (p : Profile) (before : List Call) (boot : Boot s)
    (promoted : Returns (Irq c) (kernelMain c p (before ++ [.promote])) s () mid) :
    (∀ calls rest s', Call.rollbackToPit ∉ calls → Reach (Irq c) (runCalls c calls,mid) (rest,s') → s'.timerTicks = mid.timerTicks) ∧
    ∀ calls last, Returns (Irq c) (runCalls c (calls ++ [.rollbackToPit])) mid () last → last.interruptFlag = true →
      ∃ ticked, ReflTransGen (Irq c) last ticked ∧ ticked.timerTicks = bump last.timerTicks := by
  obtain ⟨on,here⟩ := safe_returns (kernelMain_safe documented p _ boot) promoted
  have closed : masksAfter before (0xFF#8 &&& ~~~ 1#8) ||| 1#8 = 0xFF#8 := masksAfter_closed before (by decide)
  rw [masksAfter_last,Call.masks,closed] at here
  refine ⟨?_,?_⟩
  · intro calls rest s' kept reach
    have stopped : In (steady on 0xFF#8) (some mid.timerTicks) none mid := {here with ticks := by simp}
    exact (safe_state (runCalls_safe documented (by decide) (fun _ => ⟨rfl,kept⟩) stopped) reach).still _ rfl
  · intro calls last returns enabled
    obtain ⟨_,after⟩ := safe_returns (runCalls_safe documented (by decide) (by simp) here) returns
    rw [masksAfter_last,Call.masks] at after
    exact tick_follows documented after (masks_closed .rollbackToPit (masksAfter_closed calls (by decide))) (by simp) enabled

omit documented in
theorem promotion_stops_pit_sample : ∃ mid, Returns (Irq portIo) (kernelMain portIo .dev ([] ++ [.promote])) bootState () mid ∧
    ∀ calls rest s', Call.rollbackToPit ∉ calls → Reach (Irq portIo) (runCalls portIo calls,mid) (rest,s') →
      s'.timerTicks = mid.timerTicks :=
  ⟨_,sample_returns,(promotion_stops_pit portIo_documented .dev [] bootState_boot sample_returns).1⟩

end calls
end RustyCore.Interrupts
