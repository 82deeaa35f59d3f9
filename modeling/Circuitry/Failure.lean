import Circuitry.Kind
import Circuitry.Text.Format

namespace Circuitry

inductive Fault where
  | notAnEnum (type : String)
  | unsupportedKind (kind : Kind)
  | signalWidth (width : Int)
  | constantWidth (width : Int)
  | unsupportedComposite (type : String)
  | typesDiffer (a b : String)
  | fieldCountsDiffer (type : String)
  | fieldTypesDiffer
  | negativeCount (count : Int)
  | missingExpr
  | missingBlock
  | wrongBlock

def Fault.message : Fault → Option String
  | .notAnEnum type => some ("type " ++ Text.quote type ++ " is not an enum")
  | .unsupportedKind kind => some ("unsupported signal kind " ++ kind.name)
  | .signalWidth w => some ("invalid signal width " ++ Numeral.decimal w)
  | .constantWidth w => some ("invalid constant width " ++ Numeral.decimal w)
  | .unsupportedComposite type => some ("unsupported composite type " ++ type)
  | .typesDiffer a b => some ("cannot link " ++ a ++ " to " ++ b)
  | .fieldCountsDiffer type =>
    some ("cannot link " ++ type ++ " instances with different field counts")
  | .fieldTypesDiffer | .negativeCount _ | .missingExpr | .missingBlock | .wrongBlock => none

inductive IssueKind where
  | openSignal
  | writesToInput
  | unlisted
  deriving DecidableEq

structure Issue where
  kind : IssueKind
  module : String
  signal : String
  deriving DecidableEq

def Issue.text (i : Issue) : String :=
  match i.kind with
  | .openSignal => i.module ++ ": signal " ++ i.signal ++ " has no driver"
  | .writesToInput => i.module ++ ": input " ++ i.signal ++ " is driven from inside the module"
  | .unlisted => i.module ++ ": " ++ i.signal

inductive Failure where
  | fault (f : Fault)
  | emptyTop
  | missingRoot
  | issues (is : List Issue)
  | unknownModule (module inst target : String)
  | generating (top : String) (cause : Failure)
  | unsettled (steps : Int)

namespace Failure

def message : Failure → String
  | .fault f => f.message.getD ""
  | .emptyTop => "empty top module name"
  | .missingRoot => "nil root block"
  | .issues is => "circuit check failed: " ++ "; ".intercalate (is.map Issue.text)
  | .unknownModule module inst target =>
    "module " ++ Text.quote module ++ ", instance " ++ Text.quote inst ++ " of "
      ++ Text.quote target ++ ": unknown module"
  | .generating top cause => "generate " ++ top ++ ": " ++ cause.message
  | .unsettled steps => "circuit did not settle after " ++ Numeral.decimal steps ++ " steps"

end Failure

end Circuitry
