import Circuitry.Log
import Circuitry.Settings.Flag
import Circuitry.Settings.Json
import Circuitry.Settings.Toml
import Circuitry.Volume

namespace Circuitry

structure Settings where
  outputDir : String := "out"
  top : String := "top"
  unchecked : Bool := false
  jobs : Int := 0
  logLevel : String := "info"

namespace Settings

def level (s : Settings) : Log.Level := (Log.Level.ofName? s.logLevel).getD .info

inductive Defect where
  | emptyOutputDir
  | emptyTop
  | jobs (n : Int)
  | logLevel (name : String)

def Defect.message : Defect → String
  | .emptyOutputDir => "output_dir must not be empty"
  | .emptyTop => "top must not be empty"
  | .jobs n => "invalid jobs count " ++ Numeral.decimal n
  | .logLevel name =>
    "log_level " ++ Text.quote name ++ ": invalid level: " ++ Text.quote name

def defect? (s : Settings) : Option Defect :=
  if s.outputDir = "" then some .emptyOutputDir
  else if s.top = "" then some .emptyTop
  else if s.jobs < 0 then some (.jobs s.jobs)
  else if (Log.Level.ofName? s.logLevel).isNone then some (.logLevel s.logLevel)
  else none

end Settings

namespace Settings

inductive LoadError where
  | unreadable (path : String) (cause : Volume.Failure)
  | malformed
  | defective (d : Defect)

def LoadError.message : LoadError → Option String
  | .unreadable path cause => some ("read config " ++ path ++ ": " ++ cause.text)
  | .malformed => none
  | .defective d => some d.message

def extensions : List String :=
  ["json", "toml", "yaml", "yml", "properties", "props", "prop", "hcl", "tfvars", "dotenv", "env",
    "ini"]

def extension (path : String) : String :=
  let name := path.toList.reverse.takeWhile (· ≠ '/')
  if name.contains '.' then String.ofList (name.takeWhile (· ≠ '.')).reverse else ""

def parse (format text : String) : Option (List (String × Option Value)) :=
  match format with
  | "json" => Json.settings text
  | "toml" => Toml.settings text
  | _ => none

/-- A key counts in any case; one with capitals goes before one without, and a later one before an
earlier one. -/
def lookup (key : String) (values : List (String × Option Value)) : Option Value :=
  let found := values.filter fun (k, _) => Text.lower k = key
  ((found.filter (·.1 ≠ key)).getLast?.or found.getLast?).bind (·.2)

def fileValues (v : Volume) (path : String) : Except LoadError (List (String × Option Value)) :=
  if path ≠ "" then
    if extension path ∉ extensions then .error .malformed
    else match v.read path with
      | .error f => .error (.unreadable path f)
      | .ok text => (parse (extension path) text).elim (.error .malformed) .ok
  else match extensions.find? fun ext => v.isFile ("hwgen." ++ ext) with
    | none => .ok []
    | some ext => match v.read ("hwgen." ++ ext) with
      | .error f => .error (.unreadable path f)
      | .ok text => (parse ext text).elim (.error .malformed) .ok

/-- A setting by precedence: flag, variable that is not empty, file, default. -/
def pick {α : Type} (convert : Value → Option α) (flag : Option α) (envName key : String)
    (env : List (String × String)) (file : List (String × Option Value)) (default : α) :
    Except LoadError α :=
  match flag with
  | some a => .ok a
  | none =>
    let fromEnv := (env.lookup envName).filter (· ≠ "")
    match (fromEnv.map Value.text).or (lookup key file) with
    | none => .ok default
    | some v => (convert v).elim (.error .malformed) .ok

def load (v : Volume) (env : List (String × String)) (path : String) (flags : Flags) :
    Except LoadError Settings := do
  let file ← fileValues v path
  let default : Settings := {}
  let outputDir ← pick Value.toText flags.out "HWGEN_OUTPUT_DIR" "output_dir" env file
    default.outputDir
  let top ← pick Value.toText flags.top "HWGEN_TOP" "top" env file default.top
  let unchecked ← pick Value.toBool flags.unchecked "HWGEN_UNCHECKED" "unchecked" env file
    default.unchecked
  let jobs ← pick Value.toInt flags.jobs "HWGEN_JOBS" "jobs" env file default.jobs
  let logLevel ← pick Value.toText flags.logLevel "HWGEN_LOG_LEVEL" "log_level" env file
    default.logLevel
  let settings : Settings := { outputDir, top, unchecked, jobs, logLevel }
  match settings.defect? with
  | some d => .error (.defective d)
  | none => .ok settings

end Settings

end Circuitry
