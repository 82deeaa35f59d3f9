import Circuitry.Command.Line
import Circuitry.Design
import Circuitry.Settings.Load
import Circuitry.Text.Format

namespace Circuitry

namespace Command

inductive Error where
  | line (e : LineError)
  | load (e : Settings.LoadError)
  | unknownDesign (name : String)
  | outputDir (cause : Volume.Failure)
  | failedChecks (failed total : Nat)
  | failedDesigns (failed total : Nat)
  | design (e : Failure)

def Error.message : Error → Option String
  | .line e => e.message
  | .load e => e.message
  | .unknownDesign name => some ("unknown design " ++ Text.quote name)
  | .outputDir cause => some ("create output directory: " ++ cause.text)
  | .failedChecks failed total =>
    some (failed.repr ++ " of " ++ total.repr ++ " designs failed the check")
  | .failedDesigns failed total =>
    some (failed.repr ++ " of " ++ total.repr ++ " designs failed")
  | .design e => some e.message

structure Outcome where
  stdout : String := ""
  log : List Log.Message := []
  volume : Volume
  error : Option Error := none

def listing (designs : List Design) : String :=
  Text.align (String.join (designs.map fun d => d.name ++ "\t" ++ d.summary ++ "\n"))

def checkText (d : Design) (issues : List Issue) : String :=
  if issues.isEmpty then "ok " ++ d.name ++ "\n"
  else "FAIL " ++ d.name ++ "\n" ++ String.join (issues.map fun i => "\t" ++ i.text ++ "\n")

def tagged (d : Design) (log : List Log.Message) : List Log.Message :=
  log.map (·.withFields [("design", d.name)])

def checkAll (s : Settings) (total : Nat) : Nat → Outcome → List Design → Outcome
  | failed, out, [] =>
    if failed = 0 then out else { out with error := some (.failedChecks failed total) }
  | failed, out, d :: ds =>
    let r := d.check s.top
    let out := { out with log := out.log ++ tagged d r.log }
    match r.result with
    | .ok () => checkAll s total failed { out with stdout := out.stdout ++ checkText d [] } ds
    | .error (.issues is) =>
      checkAll s total (failed + 1) { out with stdout := out.stdout ++ checkText d is } ds
    | .error e => { out with error := some (.design e) }

inductive Miss where
  | failure (e : Failure)
  | write (cause : Volume.Failure)

def Miss.message : Miss → String
  | .failure e => e.message
  | .write cause => "write output: " ++ cause.text

def target (s : Settings) (d : Design) : String := Volume.join s.outputDir (d.name ++ ".v")

def generateOne (s : Settings) (v : Volume) (d : Design) :
    Volume × List Log.Message × Except Miss String :=
  let r := d.generate s.top s.unchecked
  match r.result with
  | .error e => (v, tagged d r.log, .error (.failure e))
  | .ok text =>
    let path := target s d
    match v.write path text with
    | .error f => (v, tagged d r.log, .error (.write f))
    | .ok v =>
      let written : Log.Message :=
        { level := .info, text := "design generated"
          fields := [("design", d.name), ("path", path), ("bytes", text.utf8ByteSize.repr)] }
      (v, tagged d r.log ++ [written], .ok path)

def generateEach (s : Settings) : Volume → List Design →
    Volume × List Log.Message × List (Design × Except Miss String)
  | v, [] => (v, [], [])
  | v, d :: ds =>
    let (v, log, result) := generateOne s v d
    let (v, logs, results) := generateEach s v ds
    (v, log ++ logs, (d, result) :: results)

def resultText : Design × Except Miss String → String
  | (d, .ok path) => "ok " ++ d.name ++ " -> " ++ path ++ "\n"
  | (d, .error miss) => "FAIL " ++ d.name ++ ": " ++ miss.message ++ "\n"

def isMiss : Design × Except Miss String → Bool
  | (_, .ok _) => false
  | (_, .error _) => true

def fault? : Design × Except Miss String → Option Fault
  | (_, .error (.failure (.fault f))) => some f
  | _ => none

def generateAll (s : Settings) (v : Volume) (designs : List Design) : Outcome :=
  match v.makePath s.outputDir with
  | (v, some f) => { volume := v, error := some (.outputDir f) }
  | (v, none) =>
    let (v, log, results) := generateEach s v designs
    match results.findSome? fault? with
    | some f => { log, volume := v, error := some (.design (.fault f)) }
    | none =>
      let failed := results.countP isMiss
      { stdout := String.join (results.map resultText), log, volume := v
        error := if failed = 0 then none else some (.failedDesigns failed designs.length) }

def loaded (s : Settings) : Log.Message :=
  { level := .debug, text := "configuration loaded"
    fields := [("out", s.outputDir), ("top", s.top), ("jobs", Numeral.decimal s.jobs)] }

def runWith (designs : List Design) (s : Settings) (v : Volume) (command : Name)
    (names : List String) : Outcome :=
  match command with
  | .list => { stdout := listing designs, volume := v }
  | .check =>
    match Design.select designs names with
    | .error n => { volume := v, error := some (.unknownDesign n) }
    | .ok ds => checkAll s ds.length 0 { volume := v } ds
  | .generate =>
    match Design.select designs names with
    | .error n => { volume := v, error := some (.unknownDesign n) }
    | .ok ds => generateAll s v ds

def run (designs : List Design) (env : List (String × String)) (v : Volume) (args : List String) :
    Outcome :=
  match Line.read args with
  | .error e => { volume := v, error := some (.line e) }
  | .ok line =>
    match Settings.load v env line.flags.config line.flags with
    | .error e => { volume := v, error := some (.load e) }
    | .ok s =>
      let out := runWith designs s v line.command line.names
      { out with log := (loaded s :: out.log).filter (s.level.rank ≤ ·.level.rank) }

def Outcome.stderr (out : Outcome) : String := String.join (out.log.map (·.line (some "hwgen")))

end Command

end Circuitry
