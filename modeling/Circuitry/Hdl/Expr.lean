import Circuitry.Width
import Circuitry.Descriptor

namespace Circuitry

/-- Expressions are held by value; a reference to one is left out. A hole is a part that was never
given, and the text is meant to be used only if there is none. -/
inductive Expr where
  | hole
  | ref (name : String)
  | lit (width : Int) (value : UInt64) (signed : Bool)
  | enum (label : String)
  | unary (op : String) (x : Expr)
  | binary (op : String) (x y : Expr)
  | index (x : Expr) (bit : Int)
  | slice (x : Expr) (hi lo : Int)
  | concat (parts : List Expr)
  deriving Inhabited

namespace Expr

def isOperator : Expr → Bool
  | .unary .. | .binary .. => true
  | _ => false

def enclose (operator : Bool) (text : String) : String :=
  if operator then "(" ++ text ++ ")" else text

mutual

def text : Expr → String
  | .hole => ""
  | .ref name => name
  | .lit w v s => Width.literal w v s
  | .enum label => Descriptor.identifier label
  | .unary op x => op ++ enclose x.isOperator x.text
  | .binary op x y =>
    enclose x.isOperator x.text ++ " " ++ op ++ " " ++ enclose y.isOperator y.text
  | .index x bit => enclose x.isOperator x.text ++ "[" ++ Numeral.decimal bit ++ "]"
  | .slice x hi lo =>
    enclose x.isOperator x.text ++ "[" ++ Numeral.decimal hi ++ ":" ++ Numeral.decimal lo ++ "]"
  | .concat parts => "\x7b" ++ ", ".intercalate (partTexts parts) ++ "\x7d"

def partTexts : List Expr → List String
  | [] => []
  | x :: xs => x.text :: partTexts xs

end

mutual

def complete : Expr → Bool
  | .hole => false
  | .ref _ | .lit .. | .enum _ => true
  | .unary _ x | .index x _ | .slice x _ _ => x.complete
  | .binary _ x y => x.complete && y.complete
  | .concat parts => partsComplete parts

def partsComplete : List Expr → Bool
  | [] => true
  | x :: xs => x.complete && partsComplete xs

end

def render? (x : Expr) : Option String := if x.complete then some x.text else none

@[simp] theorem partTexts_eq_map (xs : List Expr) : partTexts xs = xs.map text := by
  induction xs with
  | nil => rfl
  | cons x xs ih => simp [partTexts, ih]

end Expr

end Circuitry
