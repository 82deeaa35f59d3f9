import Circuitry.Text.Lines
import Circuitry.Text.Printable

namespace Circuitry

namespace Numeral

def decimal : Int → String
  | .ofNat n => n.repr
  | .negSucc n => "-" ++ (n + 1).repr

def hex (n : Nat) : String := String.ofList (Nat.toDigits 16 n)

def hexPadded : Nat → Nat → String
  | 0, _ => ""
  | k + 1, n => hexPadded k (n / 16) ++ (Nat.digitChar (n % 16)).toString

@[simp] theorem decimal_natCast (n : Nat) : decimal (n : Int) = n.repr := rfl

end Numeral

namespace Text

def letterEscape : Char → Option String
  | '\x07' => some "\\a"
  | '\x08' => some "\\b"
  | '\x0c' => some "\\f"
  | '\n' => some "\\n"
  | '\r' => some "\\r"
  | '\t' => some "\\t"
  | '\x0b' => some "\\v"
  | _ => none

/-- An escape by number: two digits where `short` allows it, else four, or eight beyond the basic
plane. -/
def numberEscape (short : Char → Bool) (c : Char) : String :=
  if short c then "\\x" ++ Numeral.hexPadded 2 c.toNat
  else if c.toNat < 0x10000 then "\\u" ++ Numeral.hexPadded 4 c.toNat
  else "\\U" ++ Numeral.hexPadded 8 c.toNat

def quoteChar (c : Char) : String :=
  if c = '"' then "\\\"" else if c = '\\' then "\\\\"
  else if isPrintable c then c.toString
  else (letterEscape c).getD (numberEscape (fun c => c.toNat < 0x20 || c.toNat == 0x7f) c)

def quote (s : String) : String := "\"" ++ String.join (s.toList.map quoteChar) ++ "\""

def gutter : Nat := 2

def padTo (width : Nat) (cell : List Char) : List Char :=
  cell ++ List.replicate (width - cell.length) ' '

def cells (line : List Char) : List (List Char) :=
  split '\t' (line.map fun c => if c = '\x0b' then '\t' else c)

def opensColumn (row : List (List Char)) : Bool := row.length ≥ 2

def columnWidth (rows : List (List (List Char))) : Nat :=
  (rows.map fun row => (row.headD []).length).foldl max 0 + gutter

/-- The lines of rows. Each run of rows that has a first column is padded there and continued with
the rest of its cells. `fuel` bounds the number of columns. -/
def alignRows : Nat → List (List (List Char)) → List (List Char)
  | 0, rows => rows.map List.flatten
  | n + 1, rows =>
    (rows.splitBy fun a b => opensColumn a == opensColumn b).flatMap fun run =>
      if run.any opensColumn then
        List.zipWith (· ++ ·) (run.map fun row => padTo (columnWidth run) (row.headD []))
          (alignRows n (run.map List.tail))
      else run.map List.flatten

def alignLines (cs : List Char) : List (List Char) :=
  let rows := (splitLines cs).map cells
  alignRows ((rows.map List.length).foldl max 0) rows

def align (s : String) : String :=
  "\n".intercalate (((split '\x0c' s.toList).flatMap alignLines).map String.ofList)

end Text

end Circuitry
