import Circuitry.Block.Member
import Circuitry.Netlist.Builder
import Circuitry.Proofs.Walk

/-!
The module table as a denotation of the circuit. `Block.records` reads the tree with the enclosing
modules and groups as plain parameters, and `Entry.extend` says what a list of notes makes of an
entry. A walk leaves the position of the builder as it was and extends each entry by its own notes.
-/

namespace Circuitry

inductive Note where
  | inst (i : Instance)
  | code (c : Code)
  | atom (d : Declaration)
  | enums (cs : List EnumConstant)

namespace Note

def inst? : Note → Option Instance
  | .inst i => some i
  | _ => none

def code? : Note → Option Code
  | .code c => some c
  | _ => none

def atom? : Note → Option Declaration
  | .atom d => some d
  | _ => none

def constants : Note → List EnumConstant
  | .enums cs => cs
  | _ => []

end Note

namespace Descriptor

mutual

def constants : Descriptor → List (List EnumConstant)
  | .scalar _ => []
  | .enum type labels => [labels.zipIdx.map fun (label, ordinal) => { type, label, ordinal }]
  | .composite _ fields => fieldConstants fields

def fieldConstants : List (String × Descriptor) → List (List EnumConstant)
  | [] => []
  | (_, d) :: fields => d.constants ++ fieldConstants fields

end

mutual

theorem constants_eq : ∀ d : Descriptor, d.constants = d.enums.map fun (type, labels) =>
    labels.zipIdx.map fun (label, ordinal) => { type, label, ordinal }
  | .scalar _ => rfl
  | .enum _ _ => rfl
  | .composite _ fields => fieldConstants_eq fields

theorem fieldConstants_eq : ∀ fields : List (String × Descriptor),
    fieldConstants fields = (fieldEnums fields).map fun (type, labels) =>
      labels.zipIdx.map fun (label, ordinal) => { type, label, ordinal }
  | [] => rfl
  | (_, d) :: fields => by
    rw [fieldConstants, constants_eq d, fieldConstants_eq fields, fieldEnums, List.map_append]

end

end Descriptor

theorem Kind.stub_eq (k : Kind) : k.stub = if k = .input then .stubInput else .stubOutput := by
  cases k <;> rfl

def Atom.records (a : Atom) (path : Path) (name : String) : List (String × Note) :=
  let own : Declaration :=
    { name, kind := a.kind, width := a.width, literal := a.literal, signed := a.signed }
  let stub : Declaration :=
    { own with
      name := path.last ++ "$" ++ name
      kind := if a.kind = .input then .stubInput else .stubOutput }
  (if a.kind.isParameter then [(path.parent, .atom stub)] else [])
    ++ a.descriptor.constants.map (path.flat, .enums ·)
    ++ a.descriptor.constants.map (path.parent, .enums ·)
    ++ [(path.flat, .atom own)]

namespace Block

mutual

/-- The notes of a block that stands in the module at `path`, inside the groups `group`. -/
def records (path group : Path) (name : String) : Block → List (String × Note)
  | .atom a => a.records path (group.qualify name)
  | .composite c fs =>
    match c.boundary with
    | .scope =>
      let inner := path ++ [group.qualify name]
      (path.flat, .inst ⟨group.qualify name, inner.flat⟩)
        :: (inner.flat, .code (c.code.getD .empty)) :: fieldRecords inner [] fs
    | .group => fieldRecords path (group ++ [name]) fs

def fieldRecords (path group : Path) : List (Field × Block) → List (String × Note)
  | [] => []
  | (f, b) :: fs => b.records path group f.label ++ fieldRecords path group fs

end

end Block

def notes (key : String) (rs : List (String × Note)) : List Note :=
  (rs.filter (·.1 = key)).map Prod.snd

namespace Entry

/-- Atoms and instances follow those that are there, an enum constant is taken once, and the last
code stands. -/
def extend (e : Entry) (ns : List Note) : Entry where
  atoms := e.atoms ++ ns.filterMap Note.atom?
  instances := e.instances ++ ns.filterMap Note.inst?
  enums := e.enums ++ ((ns.flatMap Note.constants).filter (· ∉ e.enums)).eraseDups
  code := (ns.filterMap Note.code?).getLast?.getD e.code

/-- A key without an entry gets one with its first note. -/
def after (old : Option Entry) : List Note → Option Entry
  | [] => old
  | ns => some ((old.getD {}).extend ns)

def record (e : Entry) : Note → Entry
  | .inst i => e.addInstance i
  | .code c => e.setCode (some c)
  | .atom d => e.addAtom d
  | .enums cs => cs.foldl addConstant e

theorem foldl_addConstant (e : Entry) (cs : List EnumConstant) :
    cs.foldl addConstant e =
      { e with enums := e.enums ++ (cs.filter (· ∉ e.enums)).eraseDups } := by
  induction cs generalizing e with
  | nil => simp
  | cons c cs ih =>
    rw [List.foldl_cons, ih]
    by_cases h : c ∈ e.enums
    · simp [addConstant, h]
    · have rest : cs.filter (· ∉ e.enums ++ [c]) = (cs.filter (· ∉ e.enums)).filter (!· == c) := by
        rw [List.filter_filter]
        apply List.filter_congr
        intro x _
        simp [and_comm, Bool.beq_eq_decide_eq]
      simp only [addConstant, if_neg h, rest, List.append_assoc]
      simp [h, List.eraseDups_cons]

theorem enums_extend (e : Entry) (ns : List Note) :
    (e.extend ns).enums = ((ns.flatMap Note.constants).foldl addConstant e).enums := by
  rw [foldl_addConstant]
  rfl

theorem extend_record (e : Entry) (n : Note) (ns : List Note) :
    (e.record n).extend ns = e.extend (n :: ns) := by
  apply Entry.ext
  · cases n <;> simp [extend, record, addInstance, setCode, addAtom, foldl_addConstant, Note.atom?,
      List.filterMap_cons]
  · cases n <;> simp [extend, record, addInstance, setCode, addAtom, foldl_addConstant, Note.inst?,
      List.filterMap_cons]
  · simp only [enums_extend, List.flatMap_cons, List.foldl_append]
    cases n <;> simp [record, addInstance, setCode, addAtom, foldl_addConstant, Note.constants]
  · cases n <;> simp [extend, record, addInstance, setCode, addAtom, foldl_addConstant, Note.code?,
      List.filterMap_cons, List.getLast?_cons]

theorem foldl_record (e : Entry) (ns : List Note) : ns.foldl record e = e.extend ns := by
  induction ns generalizing e with
  | nil => simp [extend]
  | cons n ns ih => rw [List.foldl_cons, ih, extend_record]

theorem after_cons (old : Option Entry) (n : Note) (ns : List Note) :
    after (some ((old.getD {}).record n)) ns = after old (n :: ns) := by
  cases ns with
  | nil => simp [after, ← foldl_record]
  | cons m ns => simp [after, ← extend_record]

theorem after_none_eq_some {ns : List Note} {e : Entry} :
    after none ns = some e ↔ ns ≠ [] ∧ e = ({} : Entry).extend ns := by
  cases ns with
  | nil => simp [after]
  | cons n ns => simp [after, eq_comm]

end Entry

namespace Table

def record (t : Table) (r : String × Note) : Table := t.update r.1 (·.record r.2)

theorem get?_foldl_record (t : Table) (rs : List (String × Note)) (key : String) :
    (rs.foldl record t).get? key = Entry.after (t.get? key) (notes key rs) := by
  induction rs generalizing t with
  | nil => rfl
  | cons r rs ih =>
    rw [List.foldl_cons, ih, record, get?_update]
    by_cases h : r.1 = key
    · subst h
      simp [notes, Entry.after_cons]
    · simp [notes, h, Ne.symm h]

theorem addEnums_eq (t : Table) (key : String) (d : Descriptor) :
    t.addEnums key d = (d.constants.map (key, .enums ·)).foldl record t := by
  simp only [addEnums, d.constants_eq, List.foldl_map, record, Entry.record]
  rfl

end Table

def Block.sample : Block :=
  let bit (net : Nat) (kind : Kind) : Block := .signal { net, kind, width := 1, type := .bits 1 }
  let request : Block := .atom <| .foreign
    { typeName := "*Request", net := 2, kind := .output, width := 3, signed := false, literal := "",
      driven := false,
      type := .composite "Request" [("op", .ofVariants "Op" ["Get", "Put"]), ("tag", .bits 2)] }
  let port : Block := .named { typeName := "Port", boundary := .group } [("y", request)]
  let cell : Block :=
    .named { typeName := "Cell", boundary := .scope,
             code := some (.combinatorial [.assign "h$y" (.ref "x")]) }
      [("x", bit 1 .input), ("h", port)]
  .named { typeName := "Top", boundary := .scope,
           code := some (.combinatorial [.assign "g$m$x" (.ref "a")]) }
    [("a", bit 0 .input), ("g", .named { typeName := "Group", boundary := .group } [("m", cell)])]

namespace Builder

theorem atom_eq (d : Builder) (name : String) (a : Atom) :
    d.atom name a =
      { d with
        table := (a.records d.path (d.group.qualify name)).foldl Table.record d.table } := by
  simp only [atom, Atom.records, List.foldl_append, ← Table.addEnums_eq]
  by_cases h : a.kind.isParameter
  · simp [Atom.declaration, Declaration.stub, Kind.stub_eq, h, Table.record, Entry.record,
      Table.addAtom]
  · simp [Atom.declaration, h, Table.record, Entry.record, Table.addAtom]

theorem visitAll_cons (d : Builder) (e : Event) (es : List Event) :
    d.visitAll (e :: es) = (d.visit e).visitAll es := rfl

theorem visitAll_append (d : Builder) (es es' : List Event) :
    d.visitAll (es ++ es') = (d.visitAll es).visitAll es' :=
  List.foldl_append

theorem visitAll_walkFields (d : Builder) (fs : List (Field × Block))
    (h : (Block.walkFields fs).fault = none) :
    d.visitAll (Block.walkFields fs).steps =
      { d with
        table := (Block.fieldRecords d.path d.group fs).foldl Table.record d.table } := by
  -- For any builder: a scope or a group moves the position before its own fields are visited.
  induction fs using Block.induction_boundaries generalizing d with
  | nil => rfl
  | atom f a fs ih =>
    rw [Block.fault_walkFields_atom] at h
    rw [Block.steps_walkFields_atom, visitAll_cons, ih _ h, visit, atom_eq]
    simp [Block.fieldRecords, Block.records]
  | scope f c inner fs hc ihInner ih =>
    obtain ⟨-, hinner, hfs⟩ := Block.fault_walkFields_composite.mp h
    rw [Block.steps_walkFields_composite h, visitAll_append, visitAll_cons, visitAll_cons,
      ihInner _ hinner, ih _ hfs]
    simp [Composite.opening, Composite.closing, hc, visit, enter, leave, Block.fieldRecords,
      Block.records, Path.push, Path.pop, Table.record, Entry.record, Table.addInstance,
      Table.setCode, Entry.setCode]
  | group f c inner fs hc ihInner ih =>
    obtain ⟨-, hinner, hfs⟩ := Block.fault_walkFields_composite.mp h
    rw [Block.steps_walkFields_composite h, visitAll_append, visitAll_cons, visitAll_cons,
      ihInner _ hinner, ih _ hfs]
    simp [Composite.opening, Composite.closing, hc, visit, openGroup, closeGroup,
      Block.fieldRecords, Block.records, Path.push, Path.pop]

theorem visitAll_walk (d : Builder) (b : Block) (name : String) (h : (b.walk name).fault = none) :
    d.visitAll (b.walk name).steps =
      { d with
        table := (b.records d.path d.group name).foldl Table.record d.table } := by
  have := visitAll_walkFields d [({ member := name, label := name }, b)] (by simpa using h)
  simpa [Block.fieldRecords] using this

/-- A walk that does not break off comes back to where it started, and adds to each module the notes
of the tree about it. -/
theorem walk_extends_table (b : Block) (name : String) (d : Builder)
    (h : (b.walk name).fault = none) :
    let after := d.visitAll (b.walk name).steps
    (after.path = d.path ∧ after.group = d.group ∧ after.saved = d.saved) ∧
      ∀ key, after.table.get? key =
        Entry.after (d.table.get? key) (notes key (b.records d.path d.group name)) := by
  intro after
  have walked : after = _ := visitAll_walk d b name h
  rw [walked]
  exact ⟨⟨rfl, rfl, rfl⟩, Table.get?_foldl_record d.table _⟩

theorem walk_extends_table_sample :
    let d : Builder := { path := ["t"], group := ["k"], saved := [[]] }
    let after := d.visitAll (Block.sample.walk "u").steps
    let op : List EnumConstant := [⟨"Op", "Op.Get", 0⟩, ⟨"Op", "Op.Put", 1⟩]
    (Block.sample.walk "u").fault = none ∧
      (after.path = d.path ∧ after.group = d.group ∧ after.saved = d.saved) ∧
      (after.table.get? "t$k$u").map (fun e => (e.atoms.map (·.name), e.enums)) =
        some (["a", "g$m$x", "g$m$h$y"], op) ∧
      (after.table.get? "t$k$u$g$m").map (fun e => (e.atoms.map (·.name), e.enums)) =
        some (["x", "h$y"], op) ∧
      (after.table.get? "t").map (fun e => (e.atoms, e.instances)) =
        some ([⟨"k$u$a", .stubInput, 1, "", false⟩], [⟨"k$u", "t$k$u"⟩]) := by
  intro d after op
  obtain ⟨position, entries⟩ := walk_extends_table Block.sample "u" d rfl
  refine ⟨rfl, position, ?_, ?_, ?_⟩
  · rw [entries]
    decide
  · rw [entries]
    decide
  · rw [entries]
    decide

end Builder

end Circuitry
