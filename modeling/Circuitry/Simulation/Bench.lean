import Circuitry.Block.Walk
import Circuitry.Failure

/-!
Simulation. A step updates every block from the current values and then commits every signal that
the walk meets; a circuit settles when a step changes nothing.
-/

namespace Circuitry

def State.commitCounted : State × Nat → Event → State × Nat
  | (st, n), .atom _ (.signal s) => (st.commit s, if st.changes s then n + 1 else n)
  | acc, _ => acc

inductive Outcome where
  | settled
  | unsettled
  | faulted (f : Fault)

namespace Block

/-- One step, with the number of signals that changed. A fault leaves what was done before it. -/
def step (b : Block) (st : State) : State × Except Fault Nat :=
  match b.updateAll.perform Drive.run st with
  | (st, some f) => (st, .error f)
  | (st, none) =>
    match (b.walk "").perform State.commitCounted (st, 0) with
    | ((st, _), some f) => (st, .error f)
    | ((st, n), none) => (st, .ok n)

def settleWithin (b : Block) : Nat → State → State × Outcome
  | 0, st => (st, .unsettled)
  | n + 1, st =>
    match b.step st with
    | (st, .ok 0) => (st, .settled)
    | (st, .ok (_ + 1)) => b.settleWithin n st
    | (st, .error f) => (st, .faulted f)

end Block

/-- The number of steps that settling may take; a limit that is not positive means 100. -/
def stepLimit (limit : Int) : Nat := if limit ≤ 0 then 100 else limit.toNat

def Block.settle (b : Block) (limit : Int) (st : State) : State × Option Failure :=
  match b.settleWithin (stepLimit limit) st with
  | (st, .settled) => (st, none)
  | (st, .unsettled) => (st, some (.unsettled (stepLimit limit)))
  | (st, .faulted f) => (st, some (.fault f))

structure ClockPin where
  pin : Signal
  complement : Option Signal := none

namespace ClockPin

def drive (c : ClockPin) (level : Bool) (st : State) : State :=
  let st := st.setNext c.pin (if level then 1 else 0)
  match c.complement with
  | some s => st.setNext s (if level then 0 else 1)
  | none => st

end ClockPin

namespace Block

def cycle (b : Block) (c : ClockPin) (limit : Int) (st : State) : State × Option Failure :=
  match b.settle limit (c.drive true st) with
  | (st, some e) => (st, some e)
  | (st, none) => b.settle limit (c.drive false st)

def cycles (b : Block) (c : ClockPin) (limit : Int) (watched : List Signal) :
    Nat → State → State × Except Failure (List (List UInt64))
  | 0, st => (st, .ok [])
  | n + 1, st =>
    match b.cycle c limit st with
    | (st, some e) => (st, .error e)
    | (st, none) =>
      let seen := watched.map (st.val.get ·.net)
      match b.cycles c limit watched n st with
      | (st, .ok rest) => (st, .ok (seen :: rest))
      | (st, .error e) => (st, .error e)

end Block

end Circuitry
