import Circuitry.Settings.Toml.Date
import Circuitry.Settings.Toml.Keys

namespace Circuitry

namespace Settings

namespace Toml

def isSpace (c : Char) : Bool := c == ' ' || c == '\t'

def skip (cs : List Char) : List Char := cs.dropWhile isSpace

def isControl (c : Char) : Bool := (c.toNat < 0x20 && c != '\t') || c.toNat == 0x7f

def skipComment : List Char → Option (List Char)
  | [] => some []
  | '\n' :: cs => some ('\n' :: cs)
  | '\r' :: '\n' :: cs => some ('\r' :: '\n' :: cs)
  | c :: cs => if isControl c then none else skipComment cs

def endLine (cs : List Char) : Option (List Char) :=
  let rest := match skip cs with
    | '#' :: cs => skipComment cs
    | cs => some cs
  match rest with
  | some [] => some []
  | some ('\n' :: cs) => some cs
  | some ('\r' :: '\n' :: cs) => some cs
  | _ => none

def skipLines : Nat → List Char → Option (List Char)
  | 0, _ => none
  | n + 1, cs =>
    match skip cs with
    | '#' :: cs => (skipComment cs).bind (skipLines n)
    | '\n' :: cs => skipLines n cs
    | '\r' :: '\n' :: cs => skipLines n cs
    | cs => some cs

def readScalar (k : Nat) (cs : List Char) : Option (Char × List Char) :=
  let vs := (cs.take k).map digitValue
  let n := vs.foldl (fun n v => n * 16 + v) 0
  if vs.length = k ∧ vs.all (· < 16) ∧ n.isValidChar then some (Char.ofNat n, cs.drop k) else none

def readEscape : List Char → Option (Char × List Char)
  | '"' :: cs => some ('"', cs)
  | '\\' :: cs => some ('\\', cs)
  | 'b' :: cs => some ('\x08', cs)
  | 'e' :: cs => some ('\x1b', cs)
  | 'f' :: cs => some ('\x0c', cs)
  | 'n' :: cs => some ('\n', cs)
  | 'r' :: cs => some ('\r', cs)
  | 't' :: cs => some ('\t', cs)
  | 'u' :: cs => readScalar 4 cs
  | 'U' :: cs => readScalar 8 cs
  | _ => none

def readString (quote : Char) : Nat → List Char → List Char → Option (String × List Char)
  | 0, _, _ => none
  | _ + 1, _, [] => none
  | n + 1, acc, c :: cs =>
    if c = quote then some (String.ofList acc.reverse, cs)
    else if c = '\\' ∧ quote = '"' then
      (readEscape cs).bind fun (e, cs) => readString quote n (e :: acc) cs
    else if isControl c then none
    else readString quote n (c :: acc) cs

def closingQuotes (quote : Char) (cs : List Char) : Option (Nat × List Char) :=
  let k := (cs.takeWhile (· = quote)).length
  if k < 3 then none else some (min k 5, cs.drop (min k 5))

def skipBreaks : List Char → Option (List Char)
  | '\r' :: '\n' :: cs => skipBreaks cs
  | '\r' :: _ => none
  | c :: cs => if isSpace c || c == '\n' then skipBreaks cs else some (c :: cs)
  | [] => some []

def readBlock (quote : Char) : Nat → List Char → List Char → Option (String × List Char)
  | 0, _, _ => none
  | _ + 1, _, [] => none
  | n + 1, acc, c :: cs =>
    if c = quote then
      match closingQuotes quote (c :: cs) with
      | some (k, rest) =>
        some (String.ofList (List.replicate (k - 3) quote ++ acc).reverse, rest)
      | none => readBlock quote n (c :: acc) cs
    else if c = '\\' ∧ quote = '"' then
      match skip cs with
      | '\n' :: _ | '\r' :: '\n' :: _ =>
        (skipBreaks cs).bind fun cs => readBlock quote n acc cs
      | _ => (readEscape cs).bind fun (e, cs) => readBlock quote n (e :: acc) cs
    else if c = '\n' then readBlock quote n (c :: acc) cs
    else if c = '\r' then
      match cs with
      | '\n' :: cs => readBlock quote n ('\n' :: '\r' :: acc) cs
      | _ => none
    else if isControl c then none
    else readBlock quote n (c :: acc) cs

def afterOpening : List Char → List Char
  | '\n' :: cs => cs
  | '\r' :: '\n' :: cs => cs
  | cs => cs

def isBareKey (c : Char) : Bool := c.isAlphanum || c == '_' || c == '-'

def readSegment : List Char → Option (String × List Char)
  | '"' :: cs => readString '"' (cs.length + 1) [] cs
  | '\'' :: cs => readString '\'' (cs.length + 1) [] cs
  | cs =>
    let bare := cs.takeWhile isBareKey
    if bare.isEmpty then none else some (String.ofList bare, cs.dropWhile isBareKey)

def readKey : Nat → List Char → Option (List String × List Char)
  | 0, _ => none
  | n + 1, cs =>
    match readSegment (skip cs) with
    | none => none
    | some (s, cs) =>
      match skip cs with
      | '.' :: cs => (readKey n cs).map fun (ss, cs) => (s :: ss, cs)
      | cs => some ([s], cs)

def isNumberChar (c : Char) : Bool :=
  c.isAlphanum || c == '_' || c == '+' || c == '-' || c == '.'

def readGrouped (cs : List Char) : Option Nat := readDigits 10 false cs

def readWhole : List Char → Option Nat
  | ['0'] => some 0
  | '0' :: _ => none
  | cs => readGrouped cs

def splitSign : List Char → Bool × List Char
  | '-' :: cs => (true, cs)
  | '+' :: cs => (false, cs)
  | cs => (false, cs)

def readReal (negative : Bool) (cs : List Char) : Option Number :=
  let isExponent (c : Char) : Bool := c == 'e' || c == 'E'
  let before := cs.takeWhile fun c => !isExponent c
  let exponent : Option Int := match cs.dropWhile fun c => !isExponent c with
    | [] => some 0
    | _ :: es => (readGrouped (splitSign es).2).map fun n =>
      if (splitSign es).1 then -(n : Int) else n
  let whole := before.takeWhile (· ≠ '.')
  let fraction : Option (List Char) := match before.dropWhile (· ≠ '.') with
    | [] => some []
    | _ :: fs => (readGrouped fs).map fun _ => fs.filter (· ≠ '_')
  match readWhole whole, fraction, exponent with
  | some n, some fs, some e =>
    let digits := fs.foldl (fun n c => n * 10 + digitValue c) n
    match Number.ofDecimal negative digits (e - fs.length) with
    | .finite s m e => some (.finite s m e)
    | _ => none
  | _, _, _ => none

def readToken (cs : List Char) : Option Value :=
  let (negative, rest) := splitSign cs
  let signed (n : Nat) : Option Value :=
    (inRange (if negative then -(n : Int) else n)).map .int
  if cs = "true".toList then some (.bool true)
  else if cs = "false".toList then some (.bool false)
  else if rest = "inf".toList then some (.real (.infinite negative))
  else if rest = "nan".toList then some (.real .undefined)
  else match cs with
    | '0' :: 'x' :: ds => (readDigits 16 false ds).bind signed
    | '0' :: 'o' :: ds => (readDigits 8 false ds).bind signed
    | '0' :: 'b' :: ds => (readDigits 2 false ds).bind signed
    | _ =>
      if rest.any fun c => c == '.' || c == 'e' || c == 'E' then
        (readReal negative rest).map .real
      else (readWhole rest).bind signed

mutual

def readValue : Nat → List Char → Option (Value × List Char)
  | 0, _ => none
  | n + 1, cs =>
    match cs with
    | '"' :: '"' :: '"' :: cs =>
      (readBlock '"' (cs.length + 1) [] (afterOpening cs)).map fun (s, cs) => (.text s, cs)
    | '\'' :: '\'' :: '\'' :: cs =>
      (readBlock '\'' (cs.length + 1) [] (afterOpening cs)).map fun (s, cs) => (.text s, cs)
    | '"' :: cs => (readString '"' (cs.length + 1) [] cs).map fun (s, cs) => (.text s, cs)
    | '\'' :: cs => (readString '\'' (cs.length + 1) [] cs).map fun (s, cs) => (.text s, cs)
    | '[' :: cs => (readList n cs).map fun cs => (.compound, cs)
    | '\x7b' :: cs =>
      match skip cs with
      | '\x7d' :: cs => some (.compound, cs)
      | cs => (readInline n {} cs).map fun cs => (.compound, cs)
    | cs =>
      if Moment.starts cs then (Moment.read cs).map fun cs => (.compound, cs) else
      let token := cs.takeWhile isNumberChar
      (readToken token).map fun v => (v, cs.dropWhile isNumberChar)

def readList : Nat → List Char → Option (List Char)
  | 0, _ => none
  | n + 1, cs =>
    match skipLines (cs.length + 1) cs with
    | some (']' :: cs) => some cs
    | some cs =>
      match readValue n cs with
      | none => none
      | some (_, cs) =>
        match skipLines (cs.length + 1) cs with
        | some (',' :: cs) => readList n cs
        | some (']' :: cs) => some cs
        | _ => none
    | none => none

def readInline : Nat → Keys → List Char → Option (List Char)
  | 0, _, _ => none
  | n + 1, keys, cs =>
    match readKey (cs.length + 1) cs with
    | some (key, '=' :: cs) =>
      match keys.addValue key, readValue n (skip cs) with
      | some keys, some (_, cs) =>
        match skip cs with
        | ',' :: cs => readInline n keys cs
        | '\x7d' :: cs => some cs
        | _ => none
      | _, _ => none
    | _ => none

end

structure Doc where
  keys : Keys := {}
  values : List (String × Value) := []

namespace Doc

/-- Note what a path says of the root table. A root key that holds a table shows as one compound
value. -/
def note (d : Doc) (keys : Keys) (path : List String) (v : Value) : Doc :=
  match path with
  | [key] => { keys, values := d.values ++ [(key, v)] }
  | key :: _ => { keys, values := d.values ++ [(key, .compound)] }
  | [] => { d with keys }

def addValue (d : Doc) (key : List String) (v : Value) : Option Doc :=
  (d.keys.addValue key).map fun keys => d.note keys (keys.current ++ key) v

def openTable (d : Doc) (path : List String) : Option Doc :=
  (d.keys.openTable path).map fun keys => d.note keys path .compound

def openNext (d : Doc) (path : List String) : Option Doc :=
  (d.keys.openNext path).map fun keys => d.note keys path .compound

end Doc

def readLine (d : Doc) (cs : List Char) : Option (Doc × List Char) :=
  match skip cs with
  | '[' :: '[' :: cs =>
    match readKey (cs.length + 1) cs with
    | some (path, ']' :: ']' :: cs) =>
      (d.openNext path).bind fun d => (endLine cs).map fun cs => (d, cs)
    | _ => none
  | '[' :: cs =>
    match readKey (cs.length + 1) cs with
    | some (path, ']' :: cs) =>
      (d.openTable path).bind fun d => (endLine cs).map fun cs => (d, cs)
    | _ => none
  | [] => some (d, [])
  | '#' :: cs => (endLine ('#' :: cs)).map fun cs => (d, cs)
  | '\n' :: cs => some (d, cs)
  | '\r' :: '\n' :: cs => some (d, cs)
  | cs =>
    match readKey (cs.length + 1) cs with
    | some (key, '=' :: cs) =>
      match readValue (cs.length + 1) (skip cs) with
      | some (v, cs) => (d.addValue key v).bind fun d => (endLine cs).map fun cs => (d, cs)
      | none => none
    | _ => none

def readLines : Nat → Doc → List Char → Option Doc
  | _, d, [] => some d
  | 0, _, _ => none
  | n + 1, d, cs => (readLine d cs).bind fun (d, cs) => readLines n d cs

def settings (s : String) : Option (List (String × Option Value)) :=
  (readLines (s.length + 1) {} s.toList).map fun d => d.values.map fun (key, v) => (key, some v)

end Toml

end Settings

end Circuitry
