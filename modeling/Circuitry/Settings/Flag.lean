import Circuitry.Settings.Value
import Circuitry.Text.Format

namespace Circuitry

namespace Settings

structure Flags where
  config : String := ""
  out : Option String := none
  top : Option String := none
  unchecked : Option Bool := none
  jobs : Option Int := none
  logLevel : Option String := none
  help : Bool := false

inductive Flag where
  | config
  | out
  | top
  | unchecked
  | jobs
  | logLevel
  | help
  deriving DecidableEq

namespace Flag

inductive Error where
  | syntaxError (argument : String)
  | unknown (name : String)
  | unknownLetter (letter : Char) (letters : String)
  | needsValue (name : String)
  | letterNeedsValue (letter : Char) (letters : String)
  | badValue

def quoteLetter (c : Char) : String :=
  "'" ++ (if c = '\'' then "\\'" else if c = '"' then "\"" else Text.quoteChar c) ++ "'"

def Error.message : Error → Option String
  | .syntaxError argument => some ("bad flag syntax: " ++ argument)
  | .unknown name => some ("unknown flag: --" ++ name)
  | .unknownLetter c letters =>
    some ("unknown shorthand flag: " ++ quoteLetter c ++ " in -" ++ letters)
  | .needsValue name => some ("flag needs an argument: --" ++ name)
  | .letterNeedsValue c letters =>
    some ("flag needs an argument: " ++ quoteLetter c ++ " in -" ++ letters)
  | .badValue => none

def ofName? : String → Option Flag
  | "config" => some .config
  | "out" => some .out
  | "top" => some .top
  | "unchecked" => some .unchecked
  | "jobs" => some .jobs
  | "log-level" => some .logLevel
  | "help" => some .help
  | _ => none

def ofLetter? : Char → Option Flag
  | 'o' => some .out
  | 'j' => some .jobs
  | 'h' => some .help
  | _ => none

def isSetting (f : Flag) : Bool := f != .help

def impliedValue : Flag → Option String
  | .unchecked | .help => some "true"
  | _ => none

def set (f : Flag) (value : String) (flags : Flags) : Except Error Flags :=
  match f with
  | .config => .ok { flags with config := value }
  | .out => .ok { flags with out := some value }
  | .top => .ok { flags with top := some value }
  | .logLevel => .ok { flags with logLevel := some value }
  | .unchecked =>
    match readBool value with
    | some b => .ok { flags with unchecked := some b }
    | none => .error .badValue
  | .help =>
    match readBool value with
    | some b => .ok { flags with help := b }
    | none => .error .badValue
  | .jobs =>
    match readInt value with
    | some n => .ok { flags with jobs := some n }
    | none => .error .badValue

end Flag

namespace Flags

def splitLong (cs : List Char) : String × Option String :=
  let name := String.ofList (cs.takeWhile (· ≠ '='))
  match cs.dropWhile (· ≠ '=') with
  | [] => (name, none)
  | _ :: value => (name, some (String.ofList value))

def firstByte (c : Char) : Char :=
  match (c.toString.toUTF8).toList with
  | b :: _ => Char.ofNat b.toNat
  | [] => c

/-- The letter by which a message names an unknown flag: the byte that the flag starts with is
encoded again, and its first byte counts. -/
def shownLetter (c : Char) : Char := firstByte (firstByte c)

def readLong (known : Flag → Bool) (flags : Flags) (cs : List Char) (rest : List String) :
    Except Flag.Error (Flags × List String) :=
  let bad := match cs with
    | '-' :: _ | '=' :: _ => true
    | _ => false
  if bad then .error (.syntaxError ("--" ++ String.ofList cs))
  else
    let (name, value) := splitLong cs
    match (Flag.ofName? name).filter known with
    | none => .error (.unknown name)
    | some f =>
      match value.or f.impliedValue, rest with
      | some v, rest => (f.set v flags).map (·, rest)
      | none, v :: rest => (f.set v flags).map (·, rest)
      | none, [] => .error (.needsValue name)

def readShort (known : Flag → Bool) (rest : List String) :
    Flags → List Char → Except Flag.Error (Flags × List String)
  | flags, [] => .ok (flags, rest)
  | flags, c :: cs =>
    let letters := String.ofList (c :: cs)
    if "test.".toList.isPrefixOf (c :: cs) then .ok (flags, rest)
    else match (Flag.ofLetter? c).filter known with
      | none => .error (.unknownLetter (shownLetter c) letters)
      | some f =>
        match f.impliedValue, cs, rest with
        | _, '=' :: v :: vs, rest => (f.set (String.ofList (v :: vs)) flags).map (·, rest)
        | some implied, cs, rest =>
          match f.set implied flags with
          | .error e => .error e
          | .ok flags => readShort known rest flags cs
        | none, v :: vs, rest => (f.set (String.ofList (v :: vs)) flags).map (·, rest)
        | none, [], v :: rest => (f.set v flags).map (·, rest)
        | none, [], [] => .error (.letterNeedsValue c letters)

def readFrom (known : Flag → Bool) :
    Nat → Flags → List String → Except Flag.Error (Flags × List String)
  | _, flags, [] => .ok (flags, [])
  | 0, flags, args => .ok (flags, args)
  | n + 1, flags, arg :: rest =>
    match arg.toList with
    | ['-', '-'] => .ok (flags, rest)
    | '-' :: '-' :: cs =>
      match readLong known flags cs rest with
      | .error e => .error e
      | .ok (flags, rest) => readFrom known n flags rest
    | '-' :: c :: cs =>
      match readShort known rest flags (c :: cs) with
      | .error e => .error e
      | .ok (flags, rest) => readFrom known n flags rest
    | _ => (readFrom known n flags rest).map fun (flags, args) => (flags, arg :: args)

def read (known : Flag → Bool) (args : List String) : Except Flag.Error (Flags × List String) :=
  readFrom known args.length {} args

end Flags

end Settings

end Circuitry
