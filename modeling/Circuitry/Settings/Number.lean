import Circuitry.Text.Format

namespace Circuitry

namespace Settings

inductive Number where
  | finite (negative : Bool) (mantissa : Nat) (exponent : Int)
  | infinite (negative : Bool)
  | undefined

namespace Number

def scaled (num den : Nat) (e : Int) : Nat × Nat :=
  (num * Nat.pow 2 (-e).toNat, den * Nat.pow 2 e.toNat)

def roundDiv (num den : Nat) : Nat :=
  let q := num / den
  let r := num % den
  if 2 * r > den || (2 * r == den && q % 2 == 1) then q + 1 else q

def ofRatio (negative : Bool) (num den : Nat) : Number :=
  let e : Int := max ((num.log2 : Int) - den.log2 - 53) (-1074)
  let (a, b) := scaled num den e
  let e := if a / b ≥ Nat.pow 2 53 then e + 1 else e
  let (a, b) := scaled num den e
  let m := roundDiv a b
  let (m, e) := if m = Nat.pow 2 53 then (Nat.pow 2 52, e + 1) else (m, e)
  if e > 971 then .infinite negative else .finite negative m e

def ofDecimal (negative : Bool) (digits : Nat) (exponent : Int) : Number :=
  let size : Int := digits.repr.length + exponent
  if digits = 0 || size < -330 then .finite negative 0 0
  else if size > 320 then .infinite negative
  else ofRatio negative (digits * Nat.pow 10 exponent.toNat) (Nat.pow 10 (-exponent).toNat)

def isZero : Number → Bool
  | .finite _ m _ => m == 0
  | _ => false

/-- The number without its fraction; what 64 bits do not hold becomes the least integer. -/
def truncate : Number → Int
  | .finite negative m e =>
    let n : Int := if e ≥ 0 then m * Nat.pow 2 e.toNat else m / Nat.pow 2 (-e).toNat
    let n := if negative then -n else n
    if -Nat.pow 2 63 ≤ n ∧ n < Nat.pow 2 63 then n else -Nat.pow 2 63
  | _ => -Nat.pow 2 63

def leadingExponent (num den : Nat) : Int :=
  if num ≥ den then ((num / den).repr.length : Int) - 1
  else
    let j := (den / num).repr.length
    if num * Nat.pow 10 (j - 1) ≥ den then 1 - (j : Int) else -(j : Int)

/-- Of the decimals with `n` digits beside `m * 2 ^ e`, the nearer one that rounds to it, as digits
and exponent. Of two that are equally near, the even one. -/
def candidate (m : Nat) (e : Int) (n : Nat) : Option (Nat × Int) :=
  let (num, den) := scaled (4 * m) 1 (-(e - 2))
  let unit := Nat.pow 2 (e - 2).toNat
  let lo := (if m = Nat.pow 2 52 ∧ e > -1074 then 4 * m - 1 else 4 * m - 2) * unit
  let hi := (4 * m + 2) * unit
  let p := leadingExponent num den - n + 1
  let up := Nat.pow 10 p.toNat
  let down := Nat.pow 10 (-p).toNat
  let q := num * down / (den * up)
  let rounds (c : Nat) : Bool :=
    let x := c * up * den
    if m % 2 = 0 then lo * down ≤ x && x ≤ hi * down else lo * down < x && x < hi * down
  let twice := 2 * (num * down)
  let middle := (2 * q + 1) * (den * up)
  let nearer := twice < middle || (twice == middle && q % 2 == 0)
  let above := if q + 1 = Nat.pow 10 n then (Nat.pow 10 (n - 1), p + 1) else (q + 1, p)
  match rounds q, rounds (q + 1) with
  | true, true => some (if nearer then (q, p) else above)
  | true, false => some (q, p)
  | false, true => some above
  | false, false => none

def shortest (m : Nat) (e : Int) : Nat × Int :=
  ((List.range 17).findSome? fun i => candidate m e (i + 1)).getD (0, 0)

def positional (digits : Nat) (exponent : Int) : String :=
  let ds := digits.repr.toList
  if exponent ≥ 0 then String.ofList (ds ++ List.replicate exponent.toNat '0')
  else
    let places := (-exponent).toNat
    let ds := List.replicate (places + 1 - ds.length) '0' ++ ds
    String.ofList (ds.take (ds.length - places) ++ '.' :: ds.drop (ds.length - places))

def text : Number → String
  | .undefined => "NaN"
  | .infinite negative => if negative then "-Inf" else "+Inf"
  | .finite negative m e =>
    let (digits, exponent) := if m = 0 then (0, 0) else shortest m e
    (if negative then "-" else "") ++ positional digits exponent

end Number

end Settings

end Circuitry
