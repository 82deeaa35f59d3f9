import Circuitry.Script
import Circuitry.Hdl.Code
import Circuitry.Simulation.Drive

/-!
Circuit trees. A composite is a module, whose fields get a scope of their own, or a group, whose
fields stay in the scope around it. Its behaviour is data: the nets that connecting it marks, and
the drives of one update.
-/

namespace Circuitry

inductive Boundary where
  | scope
  | group
  deriving DecidableEq

/-- A composite apart from its fields. `duplex` composites link as a whole; the fields of a
closed one cannot be looked at. -/
structure Composite where
  typeName : String
  boundary : Boundary
  code : Option Code := some .empty
  duplex : Bool := false
  isClosed : Bool := false
  connect : Script Nat := .done
  update : Script Drive := .done

/-- How a composite holds a sub-block: the name of the member, the name that a walk shows, and
whether the member has the sub-block's own type rather than that of any block. -/
structure Field where
  member : String
  label : String
  direct : Bool := true

inductive Block where
  | atom (a : Atom)
  | composite (c : Composite) (fields : List (Field × Block))
  deriving Inhabited

namespace Block

def signal (s : Signal) : Block := .atom (.signal s)

def constant (c : Constant) : Block := .atom (.constant c)

def typeName : Block → String
  | .atom a => a.typeName
  | .composite c _ => c.typeName

def code : Block → Option Code
  | .atom _ => some .empty
  | .composite c _ => c.code

def fields : Block → List (Field × Block)
  | .atom _ => []
  | .composite c fs => if c.isClosed then [] else fs

def fields? : Block → Except Fault (List (Field × Block))
  | .atom _ => .ok []
  | .composite c fs => if c.isClosed then .error (.unsupportedComposite c.typeName) else .ok fs

mutual

def updateAll : Block → Script Drive
  | .atom _ => .done
  | .composite c fs => c.update ++ if c.isClosed then .done else updateFields fs

def updateFields : List (Field × Block) → Script Drive
  | [] => .done
  | (_, b) :: fs => b.updateAll ++ updateFields fs

end

end Block

end Circuitry
