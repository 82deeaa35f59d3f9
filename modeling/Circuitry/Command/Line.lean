import Circuitry.Settings.Flag

namespace Circuitry

namespace Command

inductive Name where
  | list
  | check
  | generate
  deriving DecidableEq

namespace Name

def ofText? : String → Option Name
  | "list" => some .list
  | "check" => some .check
  | "generate" => some .generate
  | _ => none

end Name

inductive LineError where
  | unknownCommand (name owner : String)
  | flag (e : Settings.Flag.Error)
  | help

def LineError.message : LineError → Option String
  | .unknownCommand name owner =>
    some ("unknown command " ++ Text.quote name ++ " for " ++ Text.quote owner)
  | .flag e => e.message
  | .help => none

/-- A flag whose value is the argument after it, as far as is known before the command is: the flag
that asks for help belongs to the command. -/
def takesNext (arg : String) : Bool :=
  match arg.toList with
  | '-' :: '-' :: cs =>
    !cs.contains '=' &&
      (((Settings.Flag.ofName? (String.ofList cs)).filter (·.isSetting)).bind
        (·.impliedValue)).isNone
  | ['-', c] => c != '=' && c.utf8Size == 1
  | _ => false

/-- The arguments before a `--` that are neither flags nor the values of flags. A flag that wants a
value ends the search if less than two arguments follow it. -/
def plainArgs : Nat → List String → List String
  | 0, _ => []
  | _ + 1, [] => []
  | n + 1, arg :: rest =>
    if arg = "--" then []
    else if takesNext arg then
      match rest with
      | _ :: next :: rest => plainArgs n (next :: rest)
      | _ => []
    else if arg ≠ "" && arg.toList.head? != some '-' then arg :: plainArgs n rest
    else plainArgs n rest

def without (name : String) : Nat → List String → List String
  | 0, args => args
  | _ + 1, [] => []
  | n + 1, arg :: rest =>
    if arg = "--" then arg :: rest
    else if takesNext arg then
      match rest with
      | value :: rest => arg :: value :: without name n rest
      | [] => [arg]
    else if arg = name then rest
    else arg :: without name n rest

structure Line where
  command : Name
  flags : Settings.Flags
  names : List String

def readFlags (args : List String) : Except LineError (Settings.Flags × List String) :=
  match Settings.Flags.read (fun _ => true) args with
  | .error e => .error (.flag e)
  | .ok (flags, names) => if flags.help then .error .help else .ok (flags, names)

def Line.read (args : List String) : Except LineError Line :=
  match plainArgs (args.length + 1) args with
  | [] => do
    let _ ← readFlags args
    .error .help
  | first :: _ =>
    let rest := without first (args.length + 1) args
    match Name.ofText? first, first with
    | some command, _ => do
      let (flags, names) ← readFlags rest
      match command, names with
      | .list, extra :: _ => .error (.unknownCommand extra "hwgen list")
      | command, names => .ok { command, flags, names }
    | none, "help" => do
      let _ ← readFlags rest
      .error .help
    | none, first => .error (.unknownCommand first "hwgen")

end Command

end Circuitry
