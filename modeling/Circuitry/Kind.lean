namespace Circuitry

/-- Roles of atoms. A stub is the parent's wire for the port of a sub-module; `passthrough` is an
output driven as a net; `unlisted` stands for every code outside the list. -/
inductive Kind where
  | input
  | output
  | inout
  | constant
  | inner
  | stubInput
  | stubOutput
  | passthrough
  | unlisted
  deriving DecidableEq, Inhabited

namespace Kind

def name : Kind → String
  | .input => "InputParameter"
  | .output => "OutputParameter"
  | .inout => "InOutParameter"
  | .constant => "Constant"
  | .inner => "LocalSignal"
  | .stubInput => "StubInputSignal"
  | .stubOutput => "StubOutputSignal"
  | .passthrough => "OutputPassthrough"
  | .unlisted => "AtomKind(?)"

def isParameter : Kind → Bool
  | .input | .output | .inout | .passthrough => true
  | _ => false

def isStub : Kind → Bool
  | .stubInput | .stubOutput => true
  | _ => false

def isSignal : Kind → Bool
  | .input | .output | .inout | .inner => true
  | _ => false

def keyword : Kind → String
  | .input => "input wire"
  | .output => "output reg"
  | .inout => "inout wire"
  | .passthrough => "output wire"
  | .constant => "localparam"
  | .stubOutput => "wire"
  | .stubInput | .inner | .unlisted => "reg"

def stub : Kind → Kind
  | .input => .stubInput
  | _ => .stubOutput

theorem isStub_stub (k : Kind) : k.stub.isStub = true := by cases k <;> rfl

end Kind

end Circuitry
