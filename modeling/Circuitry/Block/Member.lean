import Circuitry.Block
import Circuitry.Text.Lower

namespace Circuitry

inductive Value where
  | block (b : Option Block) (direct : Bool := true)
  | array (elements : List Value)
  | other
  deriving Inhabited

structure Member where
  name : String
  tag : Option String := none
  hidden : Bool := false
  value : Value

namespace Value

def indexed (name : String) (i : Nat) : String := name ++ "_" ++ i.repr

mutual

/-- The blocks that a value holds, each with its name. Missing ones are left out but counted. -/
def collect (name : String) : Value → List (String × Bool × Block)
  | .block none _ => []
  | .block (some b) direct => [(name, direct, b)]
  | .array elements => collectFrom name 0 elements
  | .other => []

def collectFrom (name : String) (i : Nat) : List Value → List (String × Bool × Block)
  | [] => []
  | v :: vs => v.collect (indexed name i) ++ collectFrom name (i + 1) vs

end

end Value

namespace Member

def label (m : Member) : Option String :=
  if m.hidden then none
  else match (m.tag.getD "").toList.takeWhile (· ≠ ',') with
    | [] => some (Text.lower m.name)
    | ['-'] => none
    | tag => some (String.ofList tag)

def collect (m : Member) : List (String × Bool × Block) :=
  match m.label with
  | none => []
  | some name => m.value.collect name

end Member

namespace Block

def record (c : Composite) (members : List Member) : Block :=
  .composite c <| members.flatMap fun m => m.collect.map fun (name, direct, b) =>
    ({ member := name, label := name, direct }, b)

/-- A composite that keeps its sub-blocks in one array of arbitrary blocks, named `member`, and shows
them under labels of its own. -/
def labelled (c : Composite) (member : String) (children : List (String × Option Block)) : Block :=
  .composite c <| children.zipIdx.filterMap fun ((label, b), i) =>
    b.map ({ member := Value.indexed member i, label, direct := false }, ·)

end Block

structure Supply where
  nets : Nat := 0
  cells : Nat := 0

abbrev Build := StateT Supply (Except Fault)

namespace Build

def freshNet : Build Nat := modifyGet fun s => (s.nets, { s with nets := s.nets + 1 })

def freshCell : Build Nat := modifyGet fun s => (s.cells, { s with cells := s.cells + 1 })

def signal (kind : Kind) (width : Int) : Build Signal := do
  let net ← freshNet
  liftM (Signal.plain net kind width)

def input (width : Int) : Build Signal := signal .input width

def output (width : Int) : Build Signal := signal .output width

end Build

def Block.named (c : Composite) (fields : List (String × Block)) : Block :=
  .composite c (fields.map fun (name, b) => ({ member := name, label := name }, b))

end Circuitry
