import RustyCore.RustArithmetic

namespace RustyCore.ClockPromotion

def SOAK_TICKS_EACH : ℕ := 100
-- Irreducible so that no loop is unrolled from it.
@[irreducible] def SOAK_SPIN_GUARD : ℕ := 100000000

-- What the successive loads of `TIMER_TICKS` and `APIC_TICKS` return.
structure TickStreams where
  timerTicks : ℕ → ℕ
  apicTicks : ℕ → ℕ
  timer_mono : Monotone timerTicks
  apic_mono : Monotone apicTicks
  timer_lt : ∀ i, timerTicks i < 2^64
  apic_lt : ∀ i, apicTicks i < 2^64

structure BringUp where
  lapicVirt : ℕ
  ticksPer10ms : ℕ
  spuriousHits : ℕ

inductive Line where
  | tick (pic apic : ℕ)
  | noIrqs
  | degraded (pic apic : ℕ)
  | clocksStalled (pic apic : ℕ)
  | soakDone (spurious : ℕ)
  | promotionSkipped (pic apic : ℕ)
  | promoted
  | promotionWatch
  | promotedTick (apic gained : ℕ)
  | masterProven (gained pic : ℕ)
  | lapicStalled (gained : ℕ)
  | rolledBack
  | pitMasterAgain
  deriving DecidableEq, Repr

def Line.text : Line → String
  | .tick pic apic => s!"tick: pic={pic} apic=~{apic}"
  | .noIrqs => "apic-timer: NO IRQs (PIC ok, continuing)"
  | .degraded pic apic => s!"apic-timer: DEGRADED (pic={pic} apic=~{apic} after ~2s, PIC ok, continuing)"
  | .clocksStalled pic apic => s!"self-test FAILED: clocks stalled (pic={pic} apic=~{apic}), spun out. Halting."
  | .soakDone spurious => s!"self-test: dual-clock soak done (spurious={spurious})."
  | .promotionSkipped pic apic => s!"apic-timer: promotion SKIPPED (pic={pic} apic=~{apic} — soak did not prove dual-life). " ++
      "PIT stays master. Phase 2 online. Halting."
  | .promoted => "apic-timer: promoted to master clock (PIC IRQ0 masked, IRQ1 kept)"
  | .promotionWatch => "self-test: promotion watch (LAPIC-only, ~1s)..."
  | .promotedTick apic gained => s!"promoted tick: apic=~{apic} (+{gained})"
  | .masterProven gained pic => s!"self-test: LAPIC master proven (apic +{gained} like the gate, pic frozen at {pic})."
  | .lapicStalled gained => s!"self-test: LAPIC STALLED post-promotion (apic +{gained} in guard window) — rolling back to PIT."
  | .rolledBack => "apic-timer: ROLLED BACK to PIT (IRQ0 unmasked)"
  | .pitMasterAgain => "self-test: PIT master again. Phase 2 online (degraded). Halting."

inductive Event where
  | readTimer (value : ℕ)
  | readApic (value : ℕ)
  | line (line : Line)
  | promote
  deriving DecidableEq, Repr

structure Machine where
  timerReads : ℕ
  apicReads : ℕ
  masks : BitVec 8 × BitVec 8
  trace : List Event

-- `interrupts::init` masks everything, `timer::init` unmasks IRQ0.
def Machine.start : Machine := ⟨0,0,(0xFF#8 &&& ~~~ 1#8,0xFF#8),[]⟩

def Machine.irq0Masked (m : Machine) : Bool := m.masks.1.getLsbD 0

def Machine.loadTimer (t : TickStreams) (m : Machine) : ℕ × Machine :=
  (t.timerTicks m.timerReads,{m with
    timerReads := m.timerReads+1, trace := m.trace ++ [.readTimer (t.timerTicks m.timerReads)]})

def Machine.loadApic (t : TickStreams) (m : Machine) : ℕ × Machine :=
  (t.apicTicks m.apicReads,{m with apicReads := m.apicReads+1, trace := m.trace ++ [.readApic (t.apicTicks m.apicReads)]})

def Machine.say (m : Machine) (line : Line) : Machine := {m with trace := m.trace ++ [.line line]}

inductive Ending where
  | scheduler
  | halted
  | panicked (fault : Fault)
  deriving DecidableEq, Repr

abbrev Flow := Except (Ending × Machine)

def checked (m : Machine) : Except Fault α → Flow α
  | .ok value => .ok value
  | .error fault => .error (.panicked fault,m)

def progress (p : Profile) (pic apic lastPic lastApic : ℕ) : Except Fault Bool := do
  let picNext ← p.add lastPic 20
  if picNext ≤ pic then .ok true
  else do
    let apicNext ← p.add lastApic 20
    .ok (decide (apicNext ≤ apic))

-- The soak loop; `left` is what `spins` has left before the guard.
def soak (p : Profile) (t : TickStreams) (left lastPic lastApic : ℕ) (m : Machine) : Flow Machine := do
  let (pic,m) := m.loadTimer t
  let (apic,m) := m.loadApic t
  let moved ← checked m (progress p pic apic lastPic lastApic)
  let (lastPic,lastApic,m) := if moved then (pic,apic,m.say (.tick pic apic)) else (lastPic,lastApic,m)
  if SOAK_TICKS_EACH ≤ pic ∧ SOAK_TICKS_EACH ≤ apic then .ok m
  else if SOAK_TICKS_EACH ≤ pic ∧ apic = 0 then .ok (m.say .noIrqs)
  else if SOAK_TICKS_EACH*2 ≤ pic ∧ apic < SOAK_TICKS_EACH then .ok (m.say (.degraded pic apic))
  else match left with
    | 0 => .error (.halted,m.say (.clocksStalled pic apic))
    | left+1 => soak p t left lastPic lastApic m

def gateCheck (t : TickStreams) (m : Machine) : Flow Machine :=
  let (pic,m) := m.loadTimer t
  let (apic,m) := m.loadApic t
  if pic < SOAK_TICKS_EACH ∨ apic < SOAK_TICKS_EACH then .error (.halted,m.say (.promotionSkipped pic apic))
  else .ok m

-- apic.rs

def promote (b : BringUp) (m : Machine) : Except String Machine :=
  if b.lapicVirt = 0 then .error "apic: promote before init — LAPIC window not mapped"
  else if b.ticksPer10ms = 0 then .error "apic: promote without a calibrated rate — refusing"
  else .ok (Machine.say {m with masks := (m.masks.1 ||| 1#8,m.masks.2)} .promoted)

def rollbackToPit (m : Machine) : Machine :=
  Machine.say {m with masks := (m.masks.1 &&& ~~~ 1#8,m.masks.2)} .rolledBack

def callPromote (b : BringUp) (m : Machine) : Flow Machine :=
  let m := {m with trace := m.trace ++ [.promote]}
  match promote b m with
  | .ok m => .ok m
  | .error e => .error (.panicked (.panicked ("apic promote failed: \"" ++ e ++ "\"")),m)

def showTick (p : Profile) (base apic last : ℕ) (m : Machine) : Flow (ℕ × Machine) := do
  let next ← checked m (p.add last 20)
  if next ≤ apic then do
    let gained ← checked m (p.sub apic base)
    .ok (apic,m.say (.promotedTick apic gained))
  else .ok (last,m)

-- The watch loop after the promotion. Both exits leave it by `break`.
def watch (p : Profile) (t : TickStreams) (base left last : ℕ) (m : Machine) : Flow Machine := do
  let (apic,m) := m.loadApic t
  let (last,m) ← showTick p base apic last m
  let gained ← checked m (p.sub apic base)
  if SOAK_TICKS_EACH ≤ gained then
    let (pic,m) := m.loadTimer t
    .ok (m.say (.masterProven gained pic))
  else match left with
    | 0 => .ok ((rollbackToPit (m.say (.lapicStalled gained))).say .pitMasterAgain)
    | left+1 => watch p t base left last m

def beforeWatch (p : Profile) (b : BringUp) (t : TickStreams) : Flow Machine := do
  let m ← soak p t SOAK_SPIN_GUARD 0 0 Machine.start
  let m ← gateCheck t (m.say (.soakDone b.spuriousHits))
  let m ← callPromote b m
  .ok (m.say .promotionWatch)

def promotionWatch (p : Profile) (t : TickStreams) (m : Machine) : Flow Machine :=
  let (base,m) := m.loadApic t
  watch p t base SOAK_SPIN_GUARD base m

-- The clock sequence of `kernel_main`: past the watch comes the scheduler section.
def kernelMain (p : Profile) (b : BringUp) (t : TickStreams) : Ending × Machine :=
  match beforeWatch p b t >>= promotionWatch p t with
  | .ok m => (.scheduler,m)
  | .error ended => ended

def awaitTick (t : TickStreams) (lastTick : ℕ) : ℕ → ℕ → Option ℕ
  | 0,_ => none
  | fuel+1,i => if t.apicTicks i ≠ lastTick then some (t.apicTicks i) else awaitTick t lastTick fuel (i+1)

end RustyCore.ClockPromotion
