import Circuitry.Settings.Number

namespace Circuitry

namespace Settings

inductive Value where
  | text (s : String)
  | int (n : Int)
  | real (x : Number)
  | bool (b : Bool)
  | compound

def digitValue (c : Char) : Nat :=
  if c.isDigit then c.toNat - '0'.toNat
  else if 'a' ≤ c && c ≤ 'z' then c.toNat - 'a'.toNat + 10
  else if 'A' ≤ c && c ≤ 'Z' then c.toNat - 'A'.toNat + 10
  else 36

def readDigits (base : Nat) (after : Bool) (cs : List Char) : Option Nat :=
  scan after cs 0
where
  scan (digitBefore : Bool) : List Char → Nat → Option Nat
    | [], n => if digitBefore then some n else none
    | '_' :: cs, n => if digitBefore && !cs.isEmpty then scan false cs n else none
    | c :: cs, n => if digitValue c < base then scan true cs (n * base + digitValue c) else none

def readNat : List Char → Option Nat
  | ['0'] => some 0
  | '0' :: c :: cs =>
    if (c = 'b' || c = 'B') && !cs.isEmpty then readDigits 2 true cs
    else if (c = 'o' || c = 'O') && !cs.isEmpty then readDigits 8 true cs
    else if (c = 'x' || c = 'X') && !cs.isEmpty then readDigits 16 true cs
    else readDigits 8 true (c :: cs)
  | cs => readDigits 10 false cs

def inRange (n : Int) : Option Int :=
  if -Nat.pow 2 63 ≤ n ∧ n < Nat.pow 2 63 then some n else none

def readInt (s : String) : Option Int :=
  match s.toList with
  | '-' :: cs => (readNat cs).bind fun n => inRange (-(n : Int))
  | '+' :: cs => (readNat cs).bind fun n => inRange n
  | cs => (readNat cs).bind fun n => inRange n

def readBool (s : String) : Option Bool :=
  if s ∈ ["1", "t", "T", "TRUE", "true", "True"] then some true
  else if s ∈ ["0", "f", "F", "FALSE", "false", "False"] then some false
  else none

namespace Value

def toText : Value → Option String
  | .text s => some s
  | .int n => some (Numeral.decimal n)
  | .real x => some x.text
  | .bool b => some (if b then "1" else "0")
  | .compound => none

def toInt : Value → Option Int
  | .text s => if s = "" then some 0 else readInt s
  | .int n => some n
  | .real x => some x.truncate
  | .bool b => some (if b then 1 else 0)
  | .compound => none

def toBool : Value → Option Bool
  | .text s => if s = "" then some false else readBool s
  | .int n => some (n != 0)
  | .real x => some (!x.isZero)
  | .bool b => some b
  | .compound => none

end Value

end Settings

end Circuitry
