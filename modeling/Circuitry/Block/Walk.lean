import Circuitry.Block

namespace Circuitry

inductive Event where
  | enter (name : String) (code : Option Code)
  | openGroup (name : String)
  | atom (name : String) (a : Atom)
  | closeGroup (name : String)
  | leave (name : String)

namespace Composite

def opening (c : Composite) (name : String) : Event :=
  match c.boundary with
  | .scope => .enter name c.code
  | .group => .openGroup name

def closing (c : Composite) (name : String) : Event :=
  match c.boundary with
  | .scope => .leave name
  | .group => .closeGroup name

end Composite

namespace Block

mutual

/-- The walk of a block under a name. It breaks off inside a closed composite. -/
def walk (name : String) : Block → Script Event
  | .atom a => .ofList [.atom name a]
  | .composite c fs =>
    .ofList [c.opening name]
      ++ (if c.isClosed then .fail (.unsupportedComposite c.typeName) else walkFields fs)
      ++ .ofList [c.closing name]

def walkFields : List (Field × Block) → Script Event
  | [] => .done
  | (f, b) :: fs => b.walk f.label ++ walkFields fs

end

def under (place name : String) : String := if place = "" then name else place ++ "/" ++ name

mutual

def located (place : String) : Block → List (String × Block)
  | .atom a => [(place, .atom a)]
  | .composite c fs => (place, .composite c fs) :: fieldsLocated place fs

def fieldsLocated (place : String) : List (Field × Block) → List (String × Block)
  | [] => []
  | (f, b) :: fs => b.located (under place f.label) ++ fieldsLocated place fs

end

/-- The first block at a location. The whole tree is walked, so a walk that breaks off is a
fault. -/
def find (b : Block) (place : String) : Except Fault Block :=
  match (b.walk "").fault with
  | some f => .error f
  | none => match (b.located "").find? (·.1 = place) with
    | some (_, x) => .ok x
    | none => .error .missingBlock

def findSignal (b : Block) (place : String) : Except Fault Signal := do
  match ← b.find place with
  | .atom (.signal s) => pure s
  | _ => .error .wrongBlock

def atoms (b : Block) : Except Fault (List (String × Atom)) :=
  match (b.walk "").fault with
  | some f => .error f
  | none => .ok <| (b.located "").filterMap fun
    | (place, .atom a) => some (place, a)
    | _ => none

end Block

/-- Where a walk stands: the modules entered so far, the groups opened since the last of them, and the
groups that were open when each module was entered. -/
structure Tracker where
  path : Path := []
  group : Path := []
  saved : List Path := []

namespace Tracker

def qualify (t : Tracker) (name : String) : String := t.group.qualify name

def module (t : Tracker) : String := t.path.flat

def enter (t : Tracker) (name : String) : Tracker :=
  { path := t.path.push (t.qualify name), group := [], saved := t.group :: t.saved }

def openGroup (t : Tracker) (name : String) : Tracker := { t with group := t.group.push name }

def closeGroup (t : Tracker) : Tracker := { t with group := t.group.pop }

def leave (t : Tracker) : Tracker :=
  match t.saved with
  | [] => { t with path := t.path.pop }
  | group :: saved => { path := t.path.pop, group, saved }

def follow (t : Tracker) : Event → Tracker
  | .enter name _ => t.enter name
  | .openGroup name => t.openGroup name
  | .atom _ _ => t
  | .closeGroup _ => t.closeGroup
  | .leave _ => t.leave

theorem path_leave (t : Tracker) : t.leave.path = t.path.pop := by
  simp only [leave]
  split <;> rfl

end Tracker

end Circuitry
