import Circuitry.Descriptor
import Circuitry.Failure
import Circuitry.Kind

namespace Circuitry

structure Signal where
  net : Nat
  kind : Kind
  width : Int
  signed : Bool := false
  type : Descriptor
  deriving Inhabited

structure Constant where
  width : Int
  value : UInt64
  signed : Bool := false

/-- An atom with no value of its own: only its declaration is known. `driven` says that it is
connected from the start. -/
structure Foreign where
  typeName : String
  net : Nat
  kind : Kind
  width : Int
  signed : Bool
  literal : String
  driven : Bool
  type : Descriptor

inductive Atom where
  | signal (s : Signal)
  | constant (c : Constant)
  | foreign (f : Foreign)
  deriving Inhabited

namespace Signal

def typed (net : Nat) (kind : Kind) (width : Int) (type : Descriptor) : Except Fault Signal :=
  if !kind.isSignal then .error (.unsupportedKind kind)
  else if width ≤ 0 then .error (.signalWidth width)
  else .ok { net, kind, width, type }

def plain (net : Nat) (kind : Kind) (width : Int) : Except Fault Signal :=
  typed net kind width (.bits width)

def signedPlain (net : Nat) (kind : Kind) (width : Int) : Except Fault Signal :=
  (plain net kind width).map ({ · with signed := true })

def ofEnum (net : Nat) (kind : Kind) (type : Descriptor) : Except Fault Signal :=
  match type with
  | .enum _ labels@(_ :: _) => typed net kind (Width.ofLabelCount labels.length) type
  | _ => .error (.notAnEnum type.name)

end Signal

namespace Constant

def unsigned (width : Int) (value : UInt64) : Except Fault Constant :=
  if width ≤ 0 then .error (.constantWidth width)
  else .ok { width, value := Width.truncate width value }

def ofInt (width : Int) (value : Int) : Except Fault Constant :=
  (unsigned width (UInt64.ofInt value)).map ({ · with signed := true })

def literal (c : Constant) : String := Width.literal c.width c.value c.signed

end Constant

namespace Atom

def kind : Atom → Kind
  | .signal s => s.kind
  | .constant _ => .constant
  | .foreign f => f.kind

def width : Atom → Int
  | .signal s => s.width
  | .constant c => c.width
  | .foreign f => f.width

def signed : Atom → Bool
  | .signal s => s.signed
  | .constant c => c.signed
  | .foreign f => f.signed

def literal : Atom → String
  | .signal _ => ""
  | .constant c => c.literal
  | .foreign f => f.literal

def descriptor : Atom → Descriptor
  | .signal s => s.type
  | .constant c => .bits c.width
  | .foreign f => f.type

def typeName : Atom → String
  | .signal _ => "*hwgen.Signal"
  | .constant _ => "*hwgen.Const"
  | .foreign f => f.typeName

def mark : Atom → List Nat
  | .signal s => [s.net]
  | .constant _ => []
  | .foreign f => [f.net]

end Atom

end Circuitry
