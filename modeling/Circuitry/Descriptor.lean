import Circuitry.Text.Format
import Circuitry.Width

namespace Circuitry

inductive Descriptor where
  | scalar (name : String)
  | enum (name : String) (labels : List String)
  | composite (name : String) (fields : List (String × Descriptor))
  deriving Inhabited

namespace Descriptor

def name : Descriptor → String
  | .scalar n | .enum n _ | .composite n _ => n

def bits (n : Int) : Descriptor := .scalar ("Bits" ++ Numeral.decimal n)

def label (d : Descriptor) (variant : String) : String := d.name ++ "." ++ variant

def ofVariants (name : String) (variants : List String) : Descriptor :=
  .enum name (variants.map (name ++ "." ++ ·))

def ordinal (d : Descriptor) (variant : String) : Option Nat :=
  match d with
  | .enum _ labels => labels.findIdx? fun l => l = variant || l = d.label variant
  | _ => none

mutual

def enums : Descriptor → List (String × List String)
  | .scalar _ => []
  | .enum n labels => [(n, labels)]
  | .composite _ fields => fieldEnums fields

def fieldEnums : List (String × Descriptor) → List (String × List String)
  | [] => []
  | (_, d) :: fields => d.enums ++ fieldEnums fields

end

def identifier (label : String) : String := label.map fun c => if c = '.' then '$' else c

end Descriptor

end Circuitry
