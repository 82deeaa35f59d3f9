import Circuitry.Block.Connect
import Circuitry.Generation
import Circuitry.Library.Adder
import Circuitry.Library.Blinky
import Circuitry.Library.Fanout

namespace Circuitry

structure Design where
  name : String
  summary : String
  build : Build (Option Block)

namespace Design

def catalogue : List Design :=
  [{ name := "adder", summary := "8 bits adder", build := return some (← Adder.make 8).block },
    { name := "counter", summary := "8 bits counter"
      build := return some (← Counter.make 8).block },
    { name := "blinky", summary := "led blinker with a vendor PLL and differential clock input"
      build := return some (← Blinky.make 24).block },
    { name := "fanout", summary := "two stream port sets with increment stages"
      build := return some (← Fanout.make 2 8).block }]

def select (designs : List Design) (names : List String) : Except String (List Design) :=
  if names.isEmpty then .ok designs
  else names.mapM fun n => match designs.find? (·.name = n) with
    | some d => .ok d
    | none => .error n

def instantiate (d : Design) : Except Fault (Block × State) := do
  match ← d.build.run {} with
  | (none, _) => .error .missingBlock
  | (some b, _) =>
    match (b.connectAll ++ b.connectInputs).perform State.mark {} with
    | (_, some f) => .error f
    | (st, none) => .ok (b, st)

def check (d : Design) (top : String) : Report Unit :=
  match d.instantiate with
  | .error f => { result := .error (.fault f) }
  | .ok (b, st) => Generation.check (some b) st top

def generate (d : Design) (top : String) (unchecked : Bool) : Report String :=
  match d.instantiate with
  | .error f => { result := .error (.fault f) }
  | .ok (b, st) =>
    if unchecked then Generation.unchecked (some b) top else Generation.checked (some b) st top

end Design

end Circuitry
