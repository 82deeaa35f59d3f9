import Circuitry.Failure
import Circuitry.Netlist.Table

namespace Circuitry

structure Writer where
  level : Nat := 0
  text : String := ""

namespace Writer

def line (level : Nat) (l : String) : String :=
  if l = "" then "\n" else Text.indent level ++ l ++ "\n"

def add (w : Writer) (s : String) : Writer :=
  { w with text := w.text ++ String.join ((Text.lines s).map (line w.level)) }

def push (w : Writer) : Writer := { w with level := w.level + 1 }

def pop (w : Writer) : Writer := { w with level := w.level - 1 }

def size (w : Writer) : Nat := w.text.utf8ByteSize

theorem add_newline (w : Writer) (s t : String) :
    w.add (s ++ "\n" ++ t) = (w.add s).add t := by
  have h : Text.lines (s ++ "\n" ++ t) = Text.lines s ++ Text.lines t := by
    simp [Text.lines, Text.splitLines_append_newline]
  rw [add, h]
  simp [add, String.append_assoc]

end Writer

namespace Declaration

def text (d : Declaration) : String :=
  d.kind.keyword ++ (if d.signed then " signed" else "")
    ++ (if d.kind = .constant then " " ++ d.name ++ " = " ++ d.literal
      else if d.width = 1 then " " ++ d.name
      else " [" ++ Numeral.decimal (Width.wrap (d.width - 1)) ++ ":0] " ++ d.name)
    ++ ";"

def asNet (d : Declaration) : Declaration :=
  if d.kind = .output then { d with kind := .passthrough } else d

end Declaration

def EnumConstant.text (c : EnumConstant) : String :=
  "localparam " ++ Descriptor.identifier c.label ++ " = " ++ c.ordinal.repr ++ ";"

namespace Entry

def declared (e : Entry) : List Declaration :=
  if e.code.isWrapper then e.atoms.map Declaration.asNet else e.atoms

def parameters (e : Entry) : List Declaration := e.declared.filter (·.kind.isParameter)

def stubs (e : Entry) : List Declaration := e.declared.filter (·.kind.isStub)

def constants (e : Entry) : List Declaration := e.declared.filter (·.kind = .constant)

def locals (e : Entry) : List Declaration := e.declared.filter (·.kind = .inner)

def codeSection (e : Entry) : List (String × List String) :=
  match e.code with
  | .combinatorial body => if body.isEmpty then [] else [("Update code", [Stmt.alwaysText body])]
  | .custom text =>
    if Text.trimNewlines text = "" then [] else [("Update code (custom)", [Text.trimNewlines text])]
  | .wrapper code _ =>
    if Text.trimNewlines code = "" then []
    else [("Update code (wrapper)", [Text.trimNewlines code])]
  | .blackbox .. | .empty => []

end Entry

namespace Instance

def moduleName (i : Instance) (child : Entry) : String :=
  match child.code with
  | .blackbox name _ => name
  | _ => i.target

def text (i : Instance) (child : Entry) : String :=
  let binds := (child.atoms.filter (·.kind.isParameter)).map fun a =>
    "." ++ a.name ++ "(" ++ i.name ++ "$" ++ a.name ++ ")"
  i.moduleName child ++ " " ++ i.name ++ "(" ++ ",".intercalate binds ++ ");"

end Instance

namespace Table

def sections (t : Table) (e : Entry) : List (String × List String) :=
  [("Module arguments", e.parameters.map Declaration.text),
    ("Constant declarations", e.constants.map Declaration.text)]
    ++ (if e.code.isWrapper then []
      else [("Enums", e.enums.map EnumConstant.text),
        ("Stub signals", e.stubs.map Declaration.text),
        ("Local signals", e.locals.map Declaration.text),
        ("Sub module instances",
          e.instances.map fun i => i.text ((t.get? i.target).getD {}))])
    ++ e.codeSection

def addSection (w : Writer) : String × List String → Writer
  | (_, []) => w
  | (title, ls) => ls.foldl Writer.add ((w.add "").add ("// " ++ title))

/-- Write a module, after an empty line if anything is written already. -/
def addModule (t : Table) (w : Writer) (key : String) (e : Entry) : Writer :=
  let w := if w.size > 0 then w.add "" else w
  let w := if e.code.isWrapper then
    w.add "// v-- Setting output parameters to net type for wrapped code." else w
  let w := w.add
    ("module " ++ key ++ "(" ++ ",".intercalate (e.parameters.map Declaration.name) ++ ");")
  let w := ((t.sections e).foldl addSection w.push).pop
  w.add ("endmodule // " ++ key)

def moduleText (t : Table) (key : String) (e : Entry) : String := (t.addModule {} key e).text

def emitted (t : Table) : List (String × Entry) :=
  t.rows.filter fun (key, e) => key ≠ "" && !e.code.isBlackbox

/-- The external texts, each once, in key order of their first mention. -/
def externals (t : Table) : List String :=
  ((t.rows.map fun (_, e) => Text.trimNewlines e.code.external).filter (· ≠ "")).eraseDups

def unresolved (t : Table) : Option Failure :=
  t.rows.findSome? fun (key, e) => e.instances.findSome? fun i =>
    if (t.get? i.target).isNone then some (.unknownModule key i.name i.target) else none

def text (t : Table) : String :=
  let w := t.emitted.foldl (fun w row => t.addModule w row.1 row.2) {}
  (t.externals.foldl (fun w x => (w.add "").add x) w).text

def render (t : Table) : Except Failure String :=
  match t.unresolved with
  | some f => .error f
  | none =>
    if t.emitted.all (·.2.code.complete) then .ok t.text else .error (.fault .missingExpr)

end Table

end Circuitry
