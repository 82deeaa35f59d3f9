import Circuitry.Block.Walk

namespace Circuitry

namespace Block

def connect : Block → Script Nat
  | .atom a => .ofList a.mark
  | .composite c _ => c.connect

mutual

def connectAll : Block → Script Nat
  | .atom _ => .done
  | .composite c fs => c.connect ++ if c.isClosed then .done else connectFields fs

def connectFields : List (Field × Block) → Script Nat
  | [] => .done
  | (_, b) :: fs => b.connectAll ++ connectFields fs

end

/-- The nets of the inputs that a list of events shows at the given depth of open modules,
where depth one is the root. -/
def outsideNets : Int → List Event → List Nat
  | _, [] => []
  | d, .enter _ _ :: es => outsideNets (d + 1) es
  | d, .leave _ :: es => outsideNets (d - 1) es
  | d, .atom _ a :: es =>
    (if d = 1 ∧ (a.kind = .input ∨ a.kind = .inout) then a.mark else []) ++ outsideNets d es
  | d, _ :: es => outsideNets d es

def connectInputs (b : Block) : Script Nat :=
  let walk := b.walk ""
  { steps := outsideNets 0 walk.steps, fault := walk.fault }

end Block

end Circuitry
