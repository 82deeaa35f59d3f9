import Circuitry.Hdl.Expr
import Circuitry.Path
import Circuitry.Text.Lines

namespace Circuitry

/-- Direction of data: from the owner, to the owner, both ways, or a code outside the list. -/
inductive Direction where
  | forward
  | backward
  | both
  | unlisted (code : Int)
  deriving DecidableEq

def Direction.flip : Direction → Direction
  | .forward => .backward
  | .backward => .forward
  | d => d

structure Link where
  direction : Direction
  field : String
  owner : String
  other : String
  deriving DecidableEq

namespace Link

def target (l : Link) : String :=
  match l.direction with
  | .forward => Path.join l.other l.field
  | .backward => Path.join l.owner l.field
  | _ => ""

def source (l : Link) : String :=
  match l.direction with
  | .forward => Path.join l.owner l.field
  | .backward => Path.join l.other l.field
  | _ => ""

def text (l : Link) : String :=
  if l.direction = .both then
    "// inout " ++ Path.join l.owner l.field ++ " <-> " ++ Path.join l.other l.field
  else l.target ++ " = " ++ l.source ++ ";"

def flip (l : Link) : Link := { l with direction := l.direction.flip }

end Link

/-- Statements are held by value, and all of them are given: references to statements and missing ones
are left out. Only the expressions in them may have holes. -/
inductive Stmt where
  | assign (target : String) (value : Expr)
  | cond (test : Expr) (yes no : List Stmt)
  | case (subject : Expr) (items : List (Expr × List Stmt)) (default : List Stmt)
  | comment (text : String)
  | links (ls : List Link)
  deriving Inhabited

namespace Stmt

open Text (indent)

def branch (depth : Nat) (opening : String) (body : List Stmt) (text : List String) : List String :=
  if body.isEmpty then []
  else (indent depth ++ opening ++ " begin") :: text ++ [indent depth ++ "end"]

mutual

def lines (depth : Nat) : Stmt → List String
  | .assign target value => [indent depth ++ target ++ " = " ++ value.text ++ ";"]
  | .cond test yes no =>
    (indent depth ++ "if (" ++ test.text ++ ") begin") :: bodyLines (depth + 1) yes
      ++ [indent depth ++ "end"]
      ++ branch depth "else" no (bodyLines (depth + 1) no)
  | .case subject items default =>
    (indent depth ++ "case (" ++ subject.text ++ ")") :: itemLines (depth + 1) items
      ++ branch (depth + 1) "default:" default (bodyLines (depth + 2) default)
      ++ [indent depth ++ "endcase"]
  | .comment text => [indent depth ++ "// " ++ text]
  | .links ls => ls.map (indent depth ++ ·.text)

def bodyLines (depth : Nat) : List Stmt → List String
  | [] => []
  | s :: ss => s.lines depth ++ bodyLines depth ss

def itemLines (depth : Nat) : List (Expr × List Stmt) → List String
  | [] => []
  | (label, body) :: items =>
    (indent depth ++ label.text ++ ": begin") :: bodyLines (depth + 1) body
      ++ [indent depth ++ "end"] ++ itemLines depth items

end

mutual

def complete : Stmt → Bool
  | .assign _ value => value.complete
  | .cond test yes no => test.complete && bodyComplete yes && bodyComplete no
  | .case subject items default =>
    subject.complete && itemsComplete items && bodyComplete default
  | .comment _ | .links _ => true

def bodyComplete : List Stmt → Bool
  | [] => true
  | s :: ss => s.complete && bodyComplete ss

def itemsComplete : List (Expr × List Stmt) → Bool
  | [] => true
  | (label, body) :: items => label.complete && bodyComplete body && itemsComplete items

end

mutual

/-- The left-hand sides in order of appearance, repetitions and empty ones included. -/
def assigned : Stmt → List String
  | .assign target _ => [target]
  | .cond _ yes no => bodyAssigned yes ++ bodyAssigned no
  | .case _ items default => itemsAssigned items ++ bodyAssigned default
  | .comment _ => []
  | .links ls => ls.map Link.target

def bodyAssigned : List Stmt → List String
  | [] => []
  | s :: ss => s.assigned ++ bodyAssigned ss

def itemsAssigned : List (Expr × List Stmt) → List String
  | [] => []
  | (_, body) :: items => bodyAssigned body ++ itemsAssigned items

end

def targets (body : List Stmt) : List String :=
  ((bodyAssigned body).filter (· ≠ "")).eraseDups

def alwaysLines (body : List Stmt) : List String :=
  "always @(*) begin" :: bodyLines 1 body ++ ["end"]

def alwaysText (body : List Stmt) : String := "\n".intercalate (alwaysLines body)

end Stmt

inductive Code where
  | combinatorial (body : List Stmt)
  | custom (text : String)
  | wrapper (code cores : String)
  | blackbox (name code : String)
  | empty

namespace Code

def isWrapper : Code → Bool
  | .wrapper .. => true
  | _ => false

def isBlackbox : Code → Bool
  | .blackbox .. => true
  | _ => false

def targets : Code → List String
  | .combinatorial body => Stmt.targets body
  | _ => []

def external : Code → String
  | .blackbox _ code => code
  | .wrapper _ cores => cores
  | _ => ""

def complete : Code → Bool
  | .combinatorial body => Stmt.bodyComplete body
  | _ => true

end Code

end Circuitry
