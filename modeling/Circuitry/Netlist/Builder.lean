import Circuitry.Block.Walk
import Circuitry.Netlist.Table

namespace Circuitry

structure Builder where
  path : Path := []
  group : Path := []
  saved : List Path := []
  table : Table := {}

def Atom.declaration (a : Atom) (name : String) : Declaration :=
  { name, kind := a.kind, width := a.width, literal := a.literal, signed := a.signed }

/-- The parent's wire for a parameter of the instance `inst`. -/
def Declaration.stub (d : Declaration) (inst : String) : Declaration :=
  { d with name := inst ++ "$" ++ d.name, kind := d.kind.stub }

namespace Builder

def enter (b : Builder) (name : String) (code : Option Code) : Builder :=
  let inst := b.group.qualify name
  let path := b.path.push inst
  { path
    group := []
    saved := b.group :: b.saved
    table := (b.table.addInstance b.path.flat ⟨inst, path.flat⟩).setCode path.flat code }

def openGroup (b : Builder) (name : String) : Builder := { b with group := b.group.push name }

def atom (b : Builder) (name : String) (a : Atom) : Builder :=
  let d := a.declaration (b.group.qualify name)
  let around :=
    if d.kind.isParameter then b.table.addAtom b.path.parent (d.stub b.path.last) else b.table
  { b with
    table := ((around.addEnums b.path.flat a.descriptor).addEnums b.path.parent a.descriptor).addAtom
      b.path.flat d }

def closeGroup (b : Builder) : Builder := { b with group := b.group.pop }

def leave (b : Builder) : Builder :=
  let b := { b with path := b.path.pop }
  match b.saved with
  | [] => b
  | group :: saved => { b with group, saved }

def visit (b : Builder) : Event → Builder
  | .enter name code => b.enter name code
  | .openGroup name => b.openGroup name
  | .atom name a => b.atom name a
  | .closeGroup _ => b.closeGroup
  | .leave _ => b.leave

def visitAll (b : Builder) (es : List Event) : Builder := es.foldl visit b

def tracker (b : Builder) : Tracker := { path := b.path, group := b.group, saved := b.saved }

theorem tracker_leave (b : Builder) : b.leave.tracker = b.tracker.leave := by
  cases h : b.saved <;> simp [tracker, leave, Tracker.leave, h]

@[simp] theorem table_leave (b : Builder) : b.leave.table = b.table := by
  cases h : b.saved <;> simp [leave, h]

theorem tracker_visit (b : Builder) (e : Event) : (b.visit e).tracker = b.tracker.follow e := by
  cases e with
  | enter name code => rfl
  | openGroup name => rfl
  | atom name a => rfl
  | closeGroup name => rfl
  | leave name => exact b.tracker_leave

end Builder

def Block.table (b : Block) (top : String) : Except Fault Table :=
  (b.walk top).toExcept.map fun es => (({} : Builder).visitAll es).table

end Circuitry
