import Circuitry.Block.Connect
import Circuitry.Block.Linking
import Circuitry.Library.Stream

namespace Circuitry

inductive ConnectStep where
  | block (place : String)
  | link (a b : String)
  | join (source sink : String)

inductive UpdateStep where
  | put (place : String) (x : Word String)
  | flag (place : String) (x : Word String)
  | link (a b : String)
  | join (source sink : String)

def Block.valueAt (root : Block) (place : String) : Except Fault (Word Nat) := do
  match ← root.find place with
  | .atom (.signal s) => pure (.var s.net)
  | .atom (.constant c) => pure (.lit c.value)
  | _ => .error .wrongBlock

def ConnectStep.resolve (root : Block) : ConnectStep → Except Fault (Script Nat)
  | .block p => return (← root.find p).connect
  | .link a b => return (← root.find a).linkConnect (← root.find b)
  | .join a b => return .ofList (Stream.joinMarks (← Stream.ofSource (← root.find a))
      (← Stream.ofSink (← root.find b)))

def UpdateStep.resolve (root : Block) : UpdateStep → Except Fault (Script Drive)
  | .put p x => return .ofList [.put (← root.findSignal p) (← x.subst root.valueAt)]
  | .flag p x => return .ofList [.flag (← root.findSignal p) (← x.subst root.valueAt)]
  | .link a b => return (← root.find a).link (← root.find b)
  | .join a b => return .ofList (Stream.joinDrives (← Stream.ofSource (← root.find a))
      (← Stream.ofSink (← root.find b)))

def Block.behave (b : Block) (connect : List ConnectStep) (update : List UpdateStep) : Block :=
  match b with
  | .atom a => .atom a
  | .composite c fs => .composite
    { c with
      connect := .flatten (connect.map fun s => .ofExcept (s.resolve b))
      update := .flatten (update.map fun s => .ofExcept (s.resolve b)) } fs

end Circuitry
