import Circuitry.Proofs.Declarations
import Circuitry.Proofs.Naming

namespace Circuitry

structure Instantiation where
  type : String
  name : String
  binds : List (String × String)

namespace Instantiation

def text (i : Instantiation) : String :=
  let binds := i.binds.map fun (port, net) => "." ++ port ++ "(" ++ net ++ ")"
  i.type ++ " " ++ i.name ++ "(" ++ ",".intercalate binds ++ ");"

def ports (i : Instantiation) : List String := i.binds.map Prod.fst

def nets (i : Instantiation) : List String := i.binds.map Prod.snd

end Instantiation

def Item.children (trail : Path) : Path × Item → List (Path × Scope)
  | (_, .atom _) => []
  | (u, .module c fs) => [(u, ⟨trail ++ u, c, fs⟩)]

namespace Scope

def children (s : Scope) : List (Path × Scope) := s.items.flatMap (Item.children s.trail)

def ports (s : Scope) : List (Path × Atom) := Block.fieldPorts s.fields

def instantiation (top inst : String) (s : Scope) : Instantiation where
  type := match s.code with
    | .blackbox name _ => name
    | _ => s.key top
  name := inst
  binds := s.ports.map fun (v, _) => (v.flat, inst ++ "$" ++ v.flat)

def instantiations (top : String) (s : Scope) : List Instantiation :=
  s.children.map fun (u, c) => c.instantiation top u.flat

end Scope

/-- The line for the net at a port, in the module around it. -/
def Atom.stubLine (a : Atom) (net : String) : String :=
  (if a.kind = .input then "reg" else "wire") ++ (if a.signed then " signed" else "") ++
    (if a.width = 1 then "" else " [" ++ Numeral.decimal (Width.wrap (a.width - 1)) ++ ":0]") ++
    " " ++ net ++ ";"

namespace Scope

def stubLines (s : Scope) : List String :=
  s.children.flatMap fun (u, c) => c.ports.map fun (v, a) => a.stubLine (u.flat ++ "$" ++ v.flat)

end Scope

namespace Declaration

/-- A declaration as one line: the words of its kind, its sign, its range and its name. -/
def line (d : Declaration) : String :=
  d.kind.keyword ++ (if d.signed then " signed" else "") ++
    (if d.kind = .constant then " " ++ d.name ++ " = " ++ d.literal else d.range ++ " " ++ d.name) ++
    ";"

theorem text_eq_line (d : Declaration) : d.text = d.line := by
  by_cases h : d.kind = .constant
  · simp [text, line, h]
  · simp [text_eq d h, line, h, String.append_assoc]

theorem line_stub (a : Atom) (name inst : String) :
    ((a.declaration name).stub inst).line = a.stubLine (inst ++ "$" ++ name) := by
  have kind : a.kind.stub ≠ .constant ∧
      a.kind.stub.keyword = if a.kind = .input then "reg" else "wire" := by
    cases a.kind <;> decide
  simp [line, stub, Atom.declaration, Atom.stubLine, range, kind, String.append_assoc]

theorem isParameter_stub (d : Declaration) (inst : String) :
    (d.stub inst).kind.isParameter = false := by
  change d.kind.stub.isParameter = false
  cases d.kind <;> rfl

end Declaration

namespace Item

theorem filter_parameter_declarations (x : Path × Item) :
    (declarations x).filter (·.kind.isParameter) =
      (ports x).map fun (v, a) => a.declaration v.flat := by
  obtain ⟨u, a | ⟨c, fs⟩⟩ := x
  · cases h : a.kind.isParameter <;> simp [declarations, ports, Atom.declaration, h]
  · simp only [declarations, ports, List.map_nil, List.filter_eq_nil_iff, List.mem_map]
    rintro _ ⟨port, -, rfl⟩
    simp [Declaration.isParameter_stub]

theorem filter_stub_declarations (trail : Path) {x : Path × Item}
    (h : ∀ a, x.2 = .atom a → a.kind.isStub = false) :
    (declarations x).filter (·.kind.isStub) =
      (children trail x).flatMap fun (u, c) =>
        c.ports.map fun (v, a) => (a.declaration v.flat).stub u.flat := by
  obtain ⟨u, a | ⟨c, fs⟩⟩ := x
  · simp [declarations, children, Atom.declaration, h a rfl]
  · simp only [declarations, children, Scope.ports, List.flatMap_singleton, List.filter_eq_self,
      List.mem_map]
    rintro _ ⟨port, -, rfl⟩
    exact Kind.isStub_stub _

theorem instances_eq (top : String) (s : Scope) (x : Path × Item) :
    instances (s.key top) x =
      (children s.trail x).map fun (u, c) => ⟨u.flat, c.key top⟩ := by
  obtain ⟨u, a | ⟨c, fs⟩⟩ := x
  · rfl
  · simp [instances, children, Scope.key, Path.flat_flat_cons]

end Item

namespace Scope

theorem parameters_entry (top : String) (s : Scope) :
    (s.entry top).atoms.filter (·.kind.isParameter) =
      s.ports.map fun (v, a) => a.declaration v.flat := by
  simp [atoms_entry, List.filter_flatMap, Item.filter_parameter_declarations, ports,
    Block.fieldPorts, items, List.map_flatMap]

theorem declared_entry (top : String) {s : Scope} (h : s.code.isWrapper = false) :
    (s.entry top).declared = (s.entry top).atoms := by
  simp [Entry.declared, code_entry, h]

theorem stubs_entry (top : String) {s : Scope} (hwrapper : s.code.isWrapper = false)
    (hstubs : ∀ a ∈ Block.fieldLeaves s.fields, a.kind.isStub = false) :
    (s.entry top).stubs =
      s.children.flatMap fun (u, c) =>
        c.ports.map fun (v, a) => (a.declaration v.flat).stub u.flat := by
  rw [Entry.stubs, declared_entry top hwrapper, atoms_entry, List.filter_flatMap, children,
    List.flatMap_assoc]
  apply List.flatMap_congr
  rintro ⟨u, i⟩ hx
  apply Item.filter_stub_declarations
  rintro a rfl
  exact hstubs a (Block.mem_fieldLeaves_of_item hx)

theorem instances_entry_eq (top : String) (s : Scope) :
    (s.entry top).instances = s.children.map fun (u, c) => ⟨u.flat, c.key top⟩ := by
  rw [instances_entry, children, List.map_flatMap]
  exact List.flatMap_congr fun x _ => Item.instances_eq top s x

theorem text_instance (top inst : String) (s : Scope) :
    Instance.text ⟨inst, s.key top⟩ (s.entry top) = (s.instantiation top inst).text := by
  have type : Instance.moduleName ⟨inst, s.key top⟩ (s.entry top) =
      (s.instantiation top inst).type := by
    rw [Instance.moduleName, code_entry]
    cases h : s.code <;> simp [instantiation, h]
  rw [Instance.text, Instantiation.text, type, parameters_entry]
  simp [instantiation, Atom.declaration, Function.comp_def, String.append_assoc]

end Scope

namespace Block

theorem mem_fieldScopes_of_item {fs : List (Field × Block)} {u : Path} {c : Composite}
    {inner : List (Field × Block)} (h : (u, .module c inner) ∈ fieldItems fs) :
    ⟨u, c, inner⟩ ∈ fieldScopes fs := by
  induction fs using induction_boundaries generalizing u with
  | nil => simp at h
  | atom f a fs ih =>
    rw [fieldItems_atom] at h
    rw [fieldScopes_atom]
    exact ih (by simpa using h)
  | scope f c' inner' fs hc ihInner ih =>
    rw [fieldItems_scope hc] at h
    rw [fieldScopes_scope hc]
    rcases List.mem_cons.mp h with same | h
    · cases same
      simp
    · exact List.mem_append_right _ (ih h)
  | group f c' inner' fs hc ihInner ih =>
    rw [fieldItems_group hc] at h
    rw [fieldScopes_group hc]
    rcases List.mem_append.mp h with h | h
    · obtain ⟨⟨v, i⟩, hx, same⟩ := List.mem_map.mp h
      cases same
      exact List.mem_append_left _ (List.mem_map_of_mem (ihInner hx))
    · exact List.mem_append_right _ (ih h)

theorem mem_fieldScopes_below {fs : List (Field × Block)} {s : Scope} (hs : s ∈ fieldScopes fs)
    {u : Path} {c : Composite} {inner : List (Field × Block)}
    (h : ⟨u, c, inner⟩ ∈ fieldScopes s.fields) : ⟨s.trail ++ u, c, inner⟩ ∈ fieldScopes fs := by
  induction fs using induction_boundaries generalizing s with
  | nil => simp at hs
  | atom f a fs ih =>
    rw [fieldScopes_atom] at hs ⊢
    exact ih hs h
  | scope f c' inner' fs hc ihInner ih =>
    rw [fieldScopes_scope hc] at hs ⊢
    rcases List.mem_append.mp hs with hs | hs
    · apply List.mem_append_left
      rcases List.mem_cons.mp hs with rfl | hs
      · exact List.mem_cons_of_mem _ (List.mem_map_of_mem h)
      · obtain ⟨s, hin, rfl⟩ := List.mem_map.mp hs
        exact List.mem_cons_of_mem _ (List.mem_map_of_mem (ihInner hin h))
    · exact List.mem_append_right _ (ih hs h)
  | group f c' inner' fs hc ihInner ih =>
    rw [fieldScopes_group hc] at hs ⊢
    rcases List.mem_append.mp hs with hs | hs
    · obtain ⟨s, hin, rfl⟩ := List.mem_map.mp hs
      exact List.mem_append_left _ (List.mem_map_of_mem (ihInner hin h))
    · exact List.mem_append_right _ (ih hs h)

theorem mem_scopes_of_mem_children {root : Block} (hroot : root.isScope = true) {s : Scope}
    (hs : s ∈ root.scopes) {child : Path × Scope} (h : child ∈ s.children) :
    child.2 ∈ root.scopes := by
  obtain ⟨⟨u, a | ⟨c', inner⟩⟩, hx, hchild⟩ := List.mem_flatMap.mp h
  · cases hchild
  · obtain rfl := List.mem_singleton.mp hchild
    obtain ⟨c, fs, rfl, hc⟩ := exists_of_isScope hroot
    rw [scopes_root hc] at hs ⊢
    apply List.mem_cons_of_mem
    have direct := mem_fieldScopes_of_item hx
    rcases List.mem_cons.mp hs with rfl | hs
    · exact direct
    · exact mem_fieldScopes_below hs direct

end Block

def Entry.groups (e : Entry) (is : List Instantiation) : List (String × List String) :=
  [("Module arguments", e.parameters.map Declaration.line),
    ("Constant declarations", e.constants.map Declaration.line),
    ("Enums", e.enums.map EnumConstant.text),
    ("Stub signals", e.stubs.map Declaration.line),
    ("Local signals", e.locals.map Declaration.line),
    ("Sub module instances", is.map Instantiation.text)] ++ e.codeSection

/-- A statement instantiates a module in the module with the entry `e`: it has the ports of the
module's header, and at each port a net that is a stub of the same shape, with a line of its own. -/
structure Instantiation.Wires (top : String) (t : Table) (e : Entry) (child : Path × Scope)
    (i : Instantiation) : Prop where
  name_eq : i.name = child.1.flat
  binds_eq : i.binds = child.2.ports.map fun (v, _) => (v.flat, child.1.flat ++ "$" ++ v.flat)
  header : child.2.code.isBlackbox = false →
    i.type = child.2.key top ∧ ∃ own, (child.2.key top, own) ∈ t.emitted ∧
      Table.HasModule t.text (child.2.key top) i.ports (t.sections own)
  stub : ∀ v a, (v, a) ∈ child.2.ports → ∃ d ∈ e.stubs,
    e.declared.filter (·.name = child.1.flat ++ "$" ++ v.flat) = [d] ∧
      d.width = a.width ∧ d.signed = a.signed ∧
      d.kind.keyword = (if a.kind = .input then "reg" else "wire") ∧
      d.line = a.stubLine (child.1.flat ++ "$" ++ v.flat)

/-- The text of a table has the module of a scope with the entry `e`, and there the statements `is`
wire it to the modules directly in it. The lines under the stubs are those for the ports. -/
structure Scope.Wired (top : String) (t : Table) (s : Scope) (e : Entry) (is : List Instantiation) :
    Prop where
  written : Table.HasModule t.text (s.key top) (e.parameters.map (·.name)) (e.groups is)
  lines : e.stubs.map Declaration.line = s.stubLines
  distinct : (is.map (·.name)).Nodup
  wires : List.Forall₂ (Instantiation.Wires top t e) s.children is
  bound : ∀ d ∈ e.stubs, (is.flatMap (·.nets)).count d.name = 1

theorem filter_name_eq {ds : List Declaration} (h : (ds.map (·.name)).Nodup) {d : Declaration}
    (hd : d ∈ ds) : ds.filter (·.name = d.name) = [d] := by
  obtain ⟨xs, ys, rfl⟩ := List.append_of_mem hd
  rw [List.map_append, List.map_cons, List.nodup_middle, List.nodup_cons, List.mem_append] at h
  have others (zs : List Declaration) (hz : d.name ∉ zs.map (·.name)) :
      zs.filter (·.name = d.name) = [] := by
    rw [List.filter_eq_nil_iff]
    intro z hin
    have : z.name ≠ d.name := fun same => hz (same ▸ List.mem_map_of_mem hin)
    simpa using this
  rw [List.filter_append, List.filter_cons_of_pos (by simp), others xs fun hx => h.1 (.inl hx),
    others ys fun hy => h.1 (.inr hy), List.nil_append]

namespace Scope

theorem names_parameters (top : String) (s : Scope) :
    (s.entry top).parameters.map (·.name) = s.ports.map (·.1.flat) := by
  have names := congrArg (List.map (·.name)) (s.parameters_entry top)
  rw [List.map_map] at names
  exact (s.entry top).names_parameters.trans names

theorem nodup_atoms (top : String) {s : Scope} (hnames : Block.fieldsWellNamed s.fields = true) :
    ((s.entry top).atoms.map (·.name)).Nodup :=
  (List.nodup_append.mp (nodup_names top hnames)).2.1

theorem nodup_instantiations (top : String) {s : Scope}
    (hnames : Block.fieldsWellNamed s.fields = true) :
    ((s.instantiations top).map (·.name)).Nodup := by
  have := (List.nodup_append.mp (nodup_names top hnames)).1
  rw [instances_entry_eq, List.map_map] at this
  rw [instantiations, List.map_map]
  exact this

section Stubs

variable (top : String) {s : Scope} (hwrapper : s.code.isWrapper = false)
  (hstubs : ∀ a ∈ Block.fieldLeaves s.fields, a.kind.isStub = false)

include hwrapper hstubs

theorem nets_instantiations :
    (s.instantiations top).flatMap (·.nets) = (s.entry top).stubs.map (·.name) := by
  rw [stubs_entry top hwrapper hstubs, instantiations, List.flatMap_map, List.map_flatMap]
  simp [instantiation, Instantiation.nets, Declaration.stub, Atom.declaration, Function.comp_def]

theorem lines_stubs : (s.entry top).stubs.map Declaration.line = s.stubLines := by
  rw [stubs_entry top hwrapper hstubs, stubLines, List.map_flatMap]
  simp only [List.map_map, Function.comp_def, Declaration.line_stub]

variable (hnames : Block.fieldsWellNamed s.fields = true)

include hnames

theorem bound_stub {d : Declaration} (hd : d ∈ (s.entry top).stubs) :
    ((s.instantiations top).flatMap (·.nets)).count d.name = 1 := by
  rw [nets_instantiations top hwrapper hstubs]
  have part : ((s.entry top).stubs.map (·.name)).Sublist ((s.entry top).atoms.map (·.name)) := by
    rw [Entry.stubs, declared_entry top hwrapper]
    exact List.filter_sublist.map _
  exact List.count_eq_one_of_mem ((nodup_atoms top hnames).sublist part) (List.mem_map_of_mem hd)

theorem exists_stub {u v : Path} {c : Scope} {a : Atom} (hchild : (u, c) ∈ s.children)
    (hport : (v, a) ∈ c.ports) :
    ∃ d ∈ (s.entry top).stubs,
      (s.entry top).declared.filter (·.name = u.flat ++ "$" ++ v.flat) = [d] ∧
        d.width = a.width ∧ d.signed = a.signed ∧
        d.kind.keyword = (if a.kind = .input then "reg" else "wire") ∧
        d.line = a.stubLine (u.flat ++ "$" ++ v.flat) := by
  have mem : (a.declaration v.flat).stub u.flat ∈ (s.entry top).stubs := by
    rw [stubs_entry top hwrapper hstubs]
    exact List.mem_flatMap_of_mem hchild (List.mem_map.mpr ⟨(v, a), hport, rfl⟩)
  refine ⟨_, mem, ?_, rfl, rfl, ?_, Declaration.line_stub a v.flat u.flat⟩
  · have declared := List.mem_of_mem_filter mem
    rw [declared_entry top hwrapper] at declared ⊢
    exact filter_name_eq (nodup_atoms top hnames) declared
  · change a.kind.stub.keyword = _
    cases a.kind <;> rfl

end Stubs

end Scope

namespace Block

variable {root : Block} {top : String} {t : Table}

theorem leaves_of_mem_scopes (hroot : root.isScope = true) {s : Scope} (hs : s ∈ root.scopes) :
    fieldLeaves s.fields ⊆ root.leaves := by
  obtain ⟨c, fs, rfl, hc⟩ := exists_of_isScope hroot
  rcases List.mem_cons.mp (scopes_root hc ▸ hs) with rfl | hs
  · exact fun _ ha => ha
  · exact leaves_of_mem_fieldScopes hs

section Table

variable (hroot : root.isScope = true) (hnames : root.wellNamed = true) (htop : top ≠ "")
  (h : root.table top = .ok t)

include hroot hnames htop h

theorem exists_scope_of_emitted {key : String} {e : Entry} (he : (key, e) ∈ t.emitted) :
    ∃ s ∈ root.scopes, key = s.key top ∧ e = s.entry top := by
  obtain ⟨found, hkey, -⟩ := Table.mem_emitted_iff.mp he
  exact exists_scope_of_get? hroot hnames htop h hkey found

variable {s : Scope} (hs : s ∈ root.scopes)

include hs

theorem mem_emitted_of_scope (hbox : s.code.isBlackbox = false) :
    (s.key top, s.entry top) ∈ t.emitted := by
  refine Table.mem_emitted_iff.mpr ⟨get?_scope_key hroot hnames htop h hs, ?_, ?_⟩
  · intro empty
    exact empty_not_mem_keys htop (empty ▸ List.mem_map_of_mem (f := Scope.key top) hs)
  · rw [Scope.code_entry, hbox]

theorem sections_entry (hwrapper : s.code.isWrapper = false) :
    t.sections (s.entry top) = (s.entry top).groups (s.instantiations top) := by
  have statements : ((s.entry top).instances.map fun i => i.text ((t.get? i.target).getD {})) =
      (s.instantiations top).map Instantiation.text := by
    rw [Scope.instances_entry_eq, Scope.instantiations, List.map_map, List.map_map]
    apply List.map_congr_left
    intro child hchild
    have found := get?_scope_key hroot hnames htop h (mem_scopes_of_mem_children hroot hs hchild)
    simp only [Function.comp_apply, found, Option.getD_some, Scope.text_instance]
  simp [Table.sections, Entry.groups, Scope.code_entry, hwrapper, statements,
    funext Declaration.text_eq_line]

variable (hstubs : ∀ a ∈ root.leaves, a.kind.isStub = false)
  (hwrapper : s.code.isWrapper = false)

include hstubs hwrapper

theorem wires_instantiation {u : Path} {c : Scope} (hchild : (u, c) ∈ s.children) :
    (c.instantiation top u.flat).Wires top t (s.entry top) (u, c) where
  name_eq := rfl
  binds_eq := rfl
  header hbox := by
    refine ⟨?_, ?_⟩
    · cases hcode : c.code with
      | blackbox name code => simp [hcode, Code.isBlackbox] at hbox
      | _ => simp [Scope.instantiation, hcode]
    · have emitted := mem_emitted_of_scope hroot hnames htop h
        (mem_scopes_of_mem_children hroot hs hchild) hbox
      have ports : (c.entry top).parameters.map Declaration.name =
          (c.instantiation top u.flat).ports := by
        rw [c.names_parameters top]
        simp [Scope.instantiation, Instantiation.ports, Function.comp_def]
      exact ⟨_, emitted, ports ▸ Table.hasModule_text emitted⟩
  stub v a hport := Scope.exists_stub top hwrapper
    (fun a ha => hstubs a (leaves_of_mem_scopes hroot hs ha))
    (wellNamed_of_mem_scopes hroot hnames hs) hchild hport

theorem wired_scope (hbox : s.code.isBlackbox = false) :
    s.Wired top t (s.entry top) (s.instantiations top) where
  written := by
    rw [← sections_entry hroot hnames htop h hs hwrapper]
    exact Table.hasModule_text (mem_emitted_of_scope hroot hnames htop h hs hbox)
  lines := Scope.lines_stubs top hwrapper fun a ha => hstubs a (leaves_of_mem_scopes hroot hs ha)
  distinct := Scope.nodup_instantiations top (wellNamed_of_mem_scopes hroot hnames hs)
  wires := by
    rw [Scope.instantiations, List.forall₂_map_right_iff, List.forall₂_same]
    intro child hchild
    exact wires_instantiation hroot hnames htop h hs hstubs hwrapper hchild
  bound d hd := Scope.bound_stub top hwrapper
    (fun a ha => hstubs a (leaves_of_mem_scopes hroot hs ha))
    (wellNamed_of_mem_scopes hroot hnames hs) hd

end Table

end Block

/-- In the text of a well-named circuit every module that is no wrapper is wired to the modules
directly in it, port by port. -/
theorem Generation.ports_wired (root : Block) (top text : String) (hroot : root.isScope = true)
    (hnames : root.wellNamed = true) (hstubs : ∀ a ∈ root.leaves, a.kind.isStub = false)
    (h : (unchecked (some root) top).result = .ok text) :
    ∃ t, root.table top = .ok t ∧ text = t.text ∧
      (∀ key e, (key, e) ∈ t.emitted →
        ∃ s ∈ root.scopes, key = s.key top ∧ e.code = s.code) ∧
      ∀ s ∈ root.scopes, s.code.isBlackbox = false → s.code.isWrapper = false →
        ∃ e is, (s.key top, e) ∈ t.emitted ∧ s.Wired top t e is := by
  obtain ⟨htop, t, table, render⟩ := render_of_unchecked h
  refine ⟨t, table, Table.text_of_render render, ?_, ?_⟩
  · intro key e he
    obtain ⟨found, hkey, -⟩ := Table.mem_emitted_iff.mp he
    obtain ⟨s, hs, rfl, rfl⟩ := Block.exists_scope_of_get? hroot hnames htop table hkey found
    exact ⟨s, hs, rfl, s.code_entry top⟩
  · intro s hs hbox hwrapper
    exact ⟨_, _, Block.mem_emitted_of_scope hroot hnames htop table hs hbox,
      Block.wired_scope hroot hnames htop table hs hstubs hwrapper hbox⟩

theorem Generation.ports_wired_sample :
    Block.sample.isScope = true ∧ Block.sample.wellNamed = true ∧
      (∀ a ∈ Block.sample.leaves, a.kind.isStub = false) ∧
      ∃ text t e is, (unchecked (some Block.sample) "t").result = .ok text ∧
        Block.sample.table "t" = .ok t ∧ ("t", e) ∈ t.emitted ∧
        Table.HasModule text "t" (e.parameters.map (·.name)) (e.groups is) ∧
        is.map (·.binds) = [[("x", "g$m$x"), ("h$y", "g$m$h$y")]] ∧
        e.stubs.map Declaration.line = ["reg g$m$x;", "wire [2:0] g$m$h$y;"] ∧
        (∃ before after, text =
          before ++ "\n    // Stub signals\n    reg g$m$x;\n    wire [2:0] g$m$h$y;\n" ++ after) ∧
        ∀ d ∈ e.stubs, (is.flatMap (·.nets)).count d.name = 1 := by
  have hstubs : ∀ a ∈ Block.sample.leaves, a.kind.isStub = false := by decide
  refine ⟨by decide, by decide, hstubs, ?_⟩
  obtain ⟨text, generated⟩ : ∃ text, (unchecked (some Block.sample) "t").result = .ok text :=
    ⟨_, rfl⟩
  obtain ⟨t, table, same, -, wired⟩ :=
    ports_wired Block.sample "t" text (by decide) (by decide) hstubs generated
  obtain ⟨e, is, emitted, w⟩ := wired _ (List.mem_cons_self ..) rfl rfl
  have lines : e.stubs.map Declaration.line = ["reg g$m$x;", "wire [2:0] g$m$h$y;"] := w.lines
  have group : ("Stub signals", ["reg g$m$x;", "wire [2:0] g$m$h$y;"]) ∈ e.groups is := by
    simp [Entry.groups, lines]
  have written := same ▸ w.written
  have shown := written.exists_group group
  have layout : Table.groupText ("Stub signals", ["reg g$m$x;", "wire [2:0] g$m$h$y;"]) =
      "\n    // Stub signals\n    reg g$m$x;\n    wire [2:0] g$m$h$y;\n" := by decide +kernel
  rw [layout] at shown
  refine ⟨text, t, e, is, generated, table, emitted, written, ?_, lines, shown, w.bound⟩
  obtain ⟨_, _, child, rest, rfl⟩ := List.forall₂_cons_left_iff.mp w.wires
  obtain rfl := List.forall₂_nil_left_iff.mp rest
  rw [List.map_singleton, child.binds_eq]
  rfl

end Circuitry
