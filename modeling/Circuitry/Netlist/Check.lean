import Circuitry.Block.Walk
import Circuitry.Failure

namespace Circuitry

/-- What is known of an open module: the names that its code assigns, and its inputs so far. -/
structure Frame where
  targets : List String
  inputs : List String := []

def Frame.issues (module : String) (f : Frame) : List Issue :=
  (f.inputs.filter (· ∈ f.targets)).map (⟨.writesToInput, module, ·⟩)

structure Checker where
  path : Path := []
  group : Path := []
  saved : List Path := []
  frames : List Frame := []
  issues : List Issue := []

namespace Checker

def enter (c : Checker) (name : String) (code : Option Code) : Checker :=
  { c with
    path := c.path.push (c.group.qualify name)
    group := []
    saved := c.group :: c.saved
    frames := { targets := (code.getD .empty).targets } :: c.frames }

def openGroup (c : Checker) (name : String) : Checker := { c with group := c.group.push name }

def addInput (name : String) : List Frame → List Frame
  | [] => []
  | f :: fs => { f with inputs := f.inputs ++ [name] } :: fs

def atom (st : State) (c : Checker) (name : String) (a : Atom) : Checker :=
  let name := c.group.qualify name
  { c with
    issues := if a.connected st then c.issues else c.issues ++ [⟨.openSignal, c.path.flat, name⟩]
    frames := if a.kind = .input then addInput name c.frames else c.frames }

def closeGroup (c : Checker) : Checker := { c with group := c.group.pop }

def closeFrame (c : Checker) : Checker :=
  match c.frames with
  | [] => c
  | f :: fs => { c with frames := fs, issues := c.issues ++ f.issues c.path.flat }

def leave (c : Checker) : Checker :=
  let c := c.closeFrame
  let c := { c with path := c.path.pop }
  match c.saved with
  | [] => c
  | group :: saved => { c with group, saved }

def visit (st : State) (c : Checker) : Event → Checker
  | .enter name code => c.enter name code
  | .openGroup name => c.openGroup name
  | .atom name a => c.atom st name a
  | .closeGroup _ => c.closeGroup
  | .leave _ => c.leave

def visitAll (st : State) (c : Checker) (es : List Event) : Checker := es.foldl (visit st) c

def tracker (c : Checker) : Tracker := { path := c.path, group := c.group, saved := c.saved }

theorem leave_eq (c : Checker) : c.leave =
    { path := c.tracker.leave.path
      group := c.tracker.leave.group
      saved := c.tracker.leave.saved
      frames := c.frames.tail
      issues := c.issues ++ (c.frames.head?.map (Frame.issues c.path.flat)).getD [] } := by
  cases hf : c.frames <;> cases hs : c.saved <;>
    simp [leave, closeFrame, tracker, Tracker.leave, hf, hs]

theorem tracker_visit (st : State) (c : Checker) (e : Event) :
    (c.visit st e).tracker = c.tracker.follow e := by
  cases e with
  | enter name code => rfl
  | openGroup name => rfl
  | atom name a => rfl
  | closeGroup name => rfl
  | leave name =>
    rw [visit, leave_eq]
    rfl

end Checker

def Block.issues (b : Block) (st : State) (top : String) : Except Fault (List Issue) :=
  (b.walk top).toExcept.map fun es => (({} : Checker).visitAll st es).issues

end Circuitry
