import Circuitry.Settings.Value

namespace Circuitry

namespace Settings

namespace Json

inductive Doc where
  | null
  | bool (b : Bool)
  | number (x : Number)
  | text (s : String)
  | list (ds : List Doc)
  | object (fields : List (String × Doc))

def isSpace (c : Char) : Bool := c == ' ' || c == '\t' || c == '\n' || c == '\r'

def skip (cs : List Char) : List Char := cs.dropWhile isSpace

def readHex4 : List Char → Option (Nat × List Char)
  | a :: b :: c :: d :: cs =>
    let vs := [a, b, c, d].map digitValue
    if vs.all (· < 16) then some (vs.foldl (fun n v => n * 16 + v) 0, cs) else none
  | _ => none

def joinHalves (hi lo : Nat) : Option Char :=
  if 0xd800 ≤ hi ∧ hi < 0xdc00 ∧ 0xdc00 ≤ lo ∧ lo < 0xe000 then
    some (Char.ofNat (0x10000 + (hi - 0xd800) * 0x400 + (lo - 0xdc00)))
  else none

/-- The character of a code unit; a half that stands alone becomes the replacement character. -/
def ofUnit (n : Nat) : Char := if 0xd800 ≤ n ∧ n < 0xe000 then '\uFFFD' else Char.ofNat n

def readString : Nat → List Char → List Char → Option (String × List Char)
  | 0, _, _ => none
  | _ + 1, _, [] => none
  | _ + 1, acc, '"' :: cs => some (String.ofList acc.reverse, cs)
  | n + 1, acc, '\\' :: e :: cs =>
    match e with
    | '"' => readString n ('"' :: acc) cs
    | '\\' => readString n ('\\' :: acc) cs
    | '/' => readString n ('/' :: acc) cs
    | 'b' => readString n ('\x08' :: acc) cs
    | 'f' => readString n ('\x0c' :: acc) cs
    | 'n' => readString n ('\n' :: acc) cs
    | 'r' => readString n ('\r' :: acc) cs
    | 't' => readString n ('\t' :: acc) cs
    | 'u' =>
      match readHex4 cs with
      | none => none
      | some (hi, cs) =>
        match cs with
        | '\\' :: 'u' :: more =>
          match readHex4 more with
          | some (lo, rest) =>
            match joinHalves hi lo with
            | some c => readString n (c :: acc) rest
            | none => readString n (ofUnit hi :: acc) cs
          | none => none
        | cs => readString n (ofUnit hi :: acc) cs
    | _ => none
  | n + 1, acc, c :: cs => if c.toNat < 0x20 then none else readString n (c :: acc) cs

def digits (cs : List Char) : List Char × List Char :=
  (cs.takeWhile Char.isDigit, cs.dropWhile Char.isDigit)

def ofDigits (ds : List Char) : Nat := ds.foldl (fun n c => n * 10 + digitValue c) 0

def readExponent : List Char → Option (Int × List Char)
  | c :: cs =>
    if c = 'e' || c = 'E' then
      let (negative, cs) := match cs with
        | '-' :: cs => (true, cs)
        | '+' :: cs => (false, cs)
        | cs => (false, cs)
      let (ds, rest) := digits cs
      if ds.isEmpty then none
      else some (if negative then -(ofDigits ds : Int) else ofDigits ds, rest)
    else some (0, c :: cs)
  | [] => some (0, [])

def readNumber (cs : List Char) : Option (Number × List Char) :=
  let (negative, cs) := match cs with
    | '-' :: cs => (true, cs)
    | cs => (false, cs)
  let (whole, cs) := digits cs
  if whole.isEmpty || (whole.length > 1 && whole.head? == some '0') then none
  else
    let part : Option (List Char × List Char) := match cs with
      | '.' :: cs => if (digits cs).1.isEmpty then none else some (digits cs)
      | cs => some ([], cs)
    match part with
    | none => none
    | some (fraction, cs) => (readExponent cs).bind fun (e, rest) =>
      match Number.ofDecimal negative (ofDigits (whole ++ fraction)) (e - fraction.length) with
      | .finite s m e => some (.finite s m e, rest)
      | _ => none

def depthLimit : Nat := 10000

mutual

def readValue : Nat → Nat → List Char → Option (Doc × List Char)
  | 0, _, _ => none
  | n + 1, room, cs =>
    match skip cs, room with
    | 'n' :: 'u' :: 'l' :: 'l' :: cs, _ => some (.null, cs)
    | 't' :: 'r' :: 'u' :: 'e' :: cs, _ => some (.bool true, cs)
    | 'f' :: 'a' :: 'l' :: 's' :: 'e' :: cs, _ => some (.bool false, cs)
    | '"' :: cs, _ => (readString (cs.length + 1) [] cs).map fun (s, cs) => (.text s, cs)
    | '[' :: cs, room + 1 =>
      match skip cs with
      | ']' :: cs => some (.list [], cs)
      | cs => (readList n room cs).map fun (ds, cs) => (.list ds, cs)
    | '\x7b' :: cs, room + 1 =>
      match skip cs with
      | '\x7d' :: cs => some (.object [], cs)
      | cs => (readFields n room cs).map fun (fs, cs) => (.object fs, cs)
    | cs, _ => (readNumber cs).map fun (x, cs) => (.number x, cs)

def readList : Nat → Nat → List Char → Option (List Doc × List Char)
  | 0, _, _ => none
  | n + 1, room, cs =>
    match readValue n room cs with
    | none => none
    | some (d, cs) =>
      match skip cs with
      | ',' :: cs => (readList n room cs).map fun (ds, cs) => (d :: ds, cs)
      | ']' :: cs => some ([d], cs)
      | _ => none

def readFields : Nat → Nat → List Char → Option (List (String × Doc) × List Char)
  | 0, _, _ => none
  | n + 1, room, cs =>
    match skip cs with
    | '"' :: cs =>
      match readString (cs.length + 1) [] cs with
      | none => none
      | some (key, cs) =>
        match skip cs with
        | ':' :: cs =>
          match readValue n room cs with
          | none => none
          | some (d, cs) =>
            match skip cs with
            | ',' :: cs => (readFields n room cs).map fun (fs, cs) => ((key, d) :: fs, cs)
            | '\x7d' :: cs => some ([(key, d)], cs)
            | _ => none
        | _ => none
    | _ => none

end

def parse (s : String) : Option Doc :=
  match readValue (2 * s.length + 2) depthLimit s.toList with
  | some (d, rest) => if (skip rest).isEmpty then some d else none
  | none => none

def Doc.value? : Doc → Option Value
  | .null => none
  | .bool b => some (.bool b)
  | .number x => some (.real x)
  | .text s => some (.text s)
  | .list _ | .object _ => some .compound

def settings (s : String) : Option (List (String × Option Value)) :=
  match parse s with
  | some .null => some []
  | some (.object fields) =>
    some (fields.map fun (key, d) => (key, d.value?))
  | _ => none

end Json

end Settings

end Circuitry
