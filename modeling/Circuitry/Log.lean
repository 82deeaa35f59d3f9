import Circuitry.Text.Format
import Circuitry.Text.Lines
import Circuitry.Text.Lower

namespace Circuitry

namespace Log

inductive Level where
  | debug
  | info
  | warn
  | error
  | fatal
  deriving DecidableEq

namespace Level

def rank : Level → Int
  | .debug => -4
  | .info => 0
  | .warn => 4
  | .error => 8
  | .fatal => 12

def tag : Level → String
  | .debug => "DEBU"
  | .info => "INFO"
  | .warn => "WARN"
  | .error => "ERRO"
  | .fatal => "FATA"

def ofName? (name : String) : Option Level :=
  match Text.lower name with
  | "debug" => some .debug
  | "info" => some .info
  | "warn" => some .warn
  | "error" => some .error
  | "fatal" => some .fatal
  | _ => none

end Level

structure Message where
  level : Level
  text : String
  fields : List (String × String) := []

def isPlain (c : Char) : Bool :=
  Text.isPrintable c && c != ' ' && c != '"' && c != '=' && c != '\uFFFD'

def escapeChar (quotes : Bool) (c : Char) : String :=
  if quotes && c = '"' then "\\\""
  else if Text.isPrintable c then c.toString
  else (Text.letterEscape c).getD (Text.numberEscape (fun c => c.toNat < 0x20) c)

def escape (quotes : Bool) (s : String) : String := String.join (s.toList.map (escapeChar quotes))

/-- The lines of a value under its key. Only a line break that is followed by something shows, and
the last line ends in one only if more keys follow. -/
def indentedLines (more : Bool) : List String → String
  | [] => ""
  | [l] => if l = "" then "" else "  │ " ++ escape false l ++ (if more then "\n" else "")
  | l :: ls => "  │ " ++ escape false l ++ "\n" ++ indentedLines more ls

def fieldText (key value : String) (more : Bool) : String :=
  if value = "" then " " ++ key ++ "=\"\""
  else if value.toList.contains '\n' then
    "\n  " ++ key ++ "=\n" ++ indentedLines more (Text.lines value)
  else if value.toList.all isPlain then " " ++ key ++ "=" ++ value
  else " " ++ key ++ "=\"" ++ escape true value ++ "\""

def fieldTexts : List (String × String) → String
  | [] => ""
  | (key, value) :: fields => fieldText key value (!fields.isEmpty) ++ fieldTexts fields

def Message.line (m : Message) (origin : Option String) : String :=
  m.level.tag ++ (origin.map (" " ++ · ++ ":")).getD "" ++ " " ++ m.text ++ fieldTexts m.fields
    ++ "\n"

def Message.withFields (m : Message) (fields : List (String × String)) : Message :=
  { m with fields := fields ++ m.fields }

end Log

end Circuitry
