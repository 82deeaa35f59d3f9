import Circuitry.Block

namespace Circuitry

namespace Signal

def linkDrives (parent child : Signal) : List Drive :=
  match parent.kind with
  | .input => [.put child (.var parent.net)]
  | .output => [.put parent (.var child.net)]
  | _ => []

def linkMarks (parent child : Signal) : List Nat :=
  match parent.kind with
  | .input => [child.net]
  | .output => [parent.net]
  | .inout => [parent.net, child.net]
  | _ => []

def link (s : Signal) (name owner other : String) : Link :=
  { direction := match s.kind with
      | .input => .forward
      | .output => .backward
      | _ => .both
    field := name, owner, other }

end Signal

namespace Block

def isDuplex : Block → Bool
  | .atom (.signal _) => true
  | .atom _ => false
  | .composite c _ => c.duplex

variable {α : Type}

mutual

/-- Link two blocks of one type field by field, by `wire` where both fields are signals. Fields are
paired by position. -/
def linkFields (wire : Signal → Signal → List α) : Block → Block → Script α
  | .atom a, b => if a.typeName = b.typeName then .done else .fail (.typesDiffer a.typeName b.typeName)
  | .composite c _, .atom a => .fail (.typesDiffer c.typeName a.typeName)
  | .composite c fs, .composite d gs =>
    if c.typeName ≠ d.typeName then .fail (.typesDiffer c.typeName d.typeName)
    else if c.isClosed || d.isClosed then .fail (.unsupportedComposite c.typeName)
    else if fs.length ≠ gs.length then .fail (.fieldCountsDiffer c.typeName)
    else linkPairs wire fs gs

def linkPairs (wire : Signal → Signal → List α) :
    List (Field × Block) → List (Field × Block) → Script α
  | (f, x) :: fs, (g, y) :: gs =>
    (if !(f.direct && x.isDuplex) then .done
      else if !(g.direct && x.typeName = y.typeName) then .fail .fieldTypesDiffer
      else match x, y with
        | .atom (.signal s), .atom (.signal t) => .ofList (wire s t)
        | x, y => x.linkFields wire y)
      ++ linkPairs wire fs gs
  | _, _ => .done

end

def linkWith (wire : Signal → Signal → List α) : Block → Block → Script α
  | .atom (.signal s), .atom (.signal t) => .ofList (wire s t)
  | a, b => a.linkFields wire b

def link (parent child : Block) : Script Drive := parent.linkWith Signal.linkDrives child

def linkConnect (parent child : Block) : Script Nat := parent.linkWith Signal.linkMarks child

mutual

def fieldLinks (owner other : String) : Block → Script Link
  | .atom _ => .done
  | .composite c fs =>
    if c.isClosed then .fail (.unsupportedComposite c.typeName) else pairLinks owner other fs

def pairLinks (owner other : String) : List (Field × Block) → Script Link
  | [] => .done
  | (f, x) :: fs =>
    (match x with
      | .atom (.signal s) => .ofList [s.link f.member owner other]
      | .atom _ => .done
      | .composite c gs =>
        if c.duplex then
          (Block.composite c gs).fieldLinks (Path.join owner f.member) (Path.join other f.member)
        else .done)
      ++ pairLinks owner other fs

end

def links? (name owner other : String) : Block → Option (Script Link)
  | .atom (.signal s) => some (.ofList [s.link name owner other])
  | .atom _ => none
  | .composite c fs =>
    if c.duplex then
      some ((Block.composite c fs).fieldLinks (Path.join owner name) (Path.join other name))
    else none

end Block

end Circuitry
