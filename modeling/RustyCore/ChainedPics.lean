import Mathlib

namespace ChainedPics
open List

-- One 8259: the vectors it is set up for, its masks, the requests it has latched, and what is in service.
structure Pic where
  offset : ℕ
  imr : BitVec 8
  irr : BitVec 8
  isr : BitVec 8
  deriving DecidableEq, Repr

namespace Pic

def pending (p : Pic) : Option ℕ :=
  (range 8).find? fun n => p.irr.getLsbD n && !p.imr.getLsbD n && (range (n+1)).all fun j => !p.isr.getLsbD j

def raise (n : ℕ) (p : Pic) : Pic := {p with irr := p.irr ||| 1#8 <<< n}

-- The acknowledge cycle. A request that is gone by then is answered as IR7, with nothing in service.
def acknowledge (p : Pic) : ℕ × Pic :=
  match p.pending with
  | some n => (n,{p with irr := p.irr &&& ~~~ (1#8 <<< n), isr := p.isr ||| 1#8 <<< n})
  | none => (7,p)

-- The non-specific end of interrupt: the highest one in service is done.
def endOfInterrupt (p : Pic) : Pic :=
  match (range 8).find? fun n => p.isr.getLsbD n with
  | some n => {p with isr := p.isr &&& ~~~ (1#8 <<< n)}
  | none => p

def initialise (p : Pic) : Pic := {p with imr := 0#8, isr := 0#8}

theorem pending_cases {p : Pic} (found : p.pending = some n) : n < 8 ∧ p.irr.getLsbD n = true ∧ p.imr.getLsbD n = false := by
  have member := mem_range.mp (mem_of_find?_eq_some found)
  have holds := find?_some found
  simp only [Bool.and_eq_true,Bool.not_eq_true'] at holds
  exact ⟨member,holds.1.1,holds.1.2⟩

theorem pending_first {p : Pic} (asked : p.irr.getLsbD 0 = true) (clear : p.imr.getLsbD 0 = false)
    (idle : p.isr = 0#8) : p.pending = some 0 := by
  simp only [BitVec.getLsbD_eq_getElem,Nat.ofNat_pos] at asked clear
  simp [pending,range_succ_eq_map,asked,clear,idle]

theorem service_single (bound : n < 8) : (range 8).find? (fun j => (1#8 <<< n).getLsbD j) = some n := by
  interval_cases n <;> decide

theorem acknowledge_ended {p : Pic} (idle : p.isr = 0#8) (found : p.pending = some n) :
    p.acknowledge.2.endOfInterrupt = {p with irr := p.irr &&& ~~~ (1#8 <<< n)} := by
  have single := service_single (pending_cases found).1
  simp only [acknowledge,found,idle,BitVec.zero_or,endOfInterrupt,single]
  simp

end Pic

structure Pics where
  master : Pic
  slave : Pic
  deriving DecidableEq, Repr

namespace Pics

def raise (n : ℕ) (p : Pics) : Pics :=
  if n < 8 then {p with master := p.master.raise n}
  else
    let slave := p.slave.raise (n-8)
    {master := if slave.pending.isSome then p.master.raise 2 else p.master, slave := slave}

def acknowledge (p : Pics) : ℕ × Pics :=
  match p.master.pending with
  | some 2 =>
    let answer := p.slave.acknowledge
    (p.slave.offset+answer.1,{master := p.master.acknowledge.2, slave := answer.2})
  | _ => (p.master.offset+p.master.acknowledge.1,{p with master := p.master.acknowledge.2})

end Pics
end ChainedPics
