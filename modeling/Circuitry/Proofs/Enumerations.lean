import Circuitry.Proofs.Closure
import Circuitry.Proofs.Declarations
import Circuitry.Proofs.Listing
import Circuitry.Proofs.Numerals

namespace Circuitry

namespace Descriptor

/-- A value of the one type holds a value of the other, possibly itself. -/
inductive Reaches : Descriptor → Descriptor → Prop where
  | self (d : Descriptor) : Reaches d d
  | field {name label : String} {fields : List (String × Descriptor)} {d e : Descriptor}
      (mem : (label, d) ∈ fields) (rest : Reaches d e) : Reaches (.composite name fields) e

theorem fieldEnums_eq (fields : List (String × Descriptor)) :
    fieldEnums fields = fields.flatMap fun x => x.2.enums := by
  induction fields with
  | nil => rfl
  | cons x fields ih => rw [fieldEnums, ih, List.flatMap_cons]

mutual

theorem reaches_of_mem_enums {name : String} {labels : List String} :
    ∀ {d : Descriptor}, (name, labels) ∈ d.enums → d.Reaches (.enum name labels)
  | .scalar _, h => by cases h
  | .enum n ls, h => by
    obtain ⟨rfl, rfl⟩ := Prod.mk.inj (List.mem_singleton.mp h)
    exact .self _
  | .composite _ fields, h => by
    obtain ⟨label, d, mem, rest⟩ := reaches_of_mem_fieldEnums h
    exact .field mem rest

theorem reaches_of_mem_fieldEnums {name : String} {labels : List String} :
    ∀ {fields : List (String × Descriptor)}, (name, labels) ∈ fieldEnums fields →
      ∃ label d, (label, d) ∈ fields ∧ d.Reaches (.enum name labels)
  | [], h => by cases h
  | (label, d) :: fields, h => by
    rcases List.mem_append.mp h with h | h
    · exact ⟨label, d, List.mem_cons_self, reaches_of_mem_enums h⟩
    · obtain ⟨label, d, mem, rest⟩ := reaches_of_mem_fieldEnums h
      exact ⟨label, d, List.mem_cons_of_mem _ mem, rest⟩

end

theorem mem_enums_of_reaches {name : String} {labels : List String} {d : Descriptor}
    (h : d.Reaches (.enum name labels)) : (name, labels) ∈ d.enums := by
  generalize target : Descriptor.enum name labels = e at h
  induction h with
  | self d =>
    subst target
    simp [enums]
  | field mem rest ih =>
    rw [enums, fieldEnums_eq]
    exact List.mem_flatMap.mpr ⟨_, mem, ih target⟩

theorem mem_constants_iff {d : Descriptor} {c : EnumConstant} :
    c ∈ d.constants.flatten ↔
      ∃ labels, d.Reaches (.enum c.type labels) ∧ labels[c.ordinal]? = some c.label := by
  rw [constants_eq, ← List.flatMap_def, List.mem_flatMap]
  constructor
  · rintro ⟨⟨name, labels⟩, mem, h⟩
    obtain ⟨⟨label, ordinal⟩, place, rfl⟩ := List.mem_map.mp h
    exact ⟨labels, reaches_of_mem_enums mem, List.mem_zipIdx_iff_getElem?.mp place⟩
  · rintro ⟨labels, reached, place⟩
    refine ⟨(c.type, labels), mem_enums_of_reaches reached, List.mem_map.mpr ?_⟩
    exact ⟨(c.label, c.ordinal), List.mem_zipIdx_iff_getElem?.mpr place, rfl⟩

end Descriptor

def Descriptor.Plain (s : String) : Prop := '.' ∉ s.toList ∧ '$' ∉ s.toList

instance (s : String) : Decidable (Descriptor.Plain s) := inferInstanceAs (Decidable (_ ∧ _))

/-- An enum type by its variants, which differ; neither they nor its name hold a mark. -/
structure Enumeration where
  name : String
  variants : List String
  plain_name : Descriptor.Plain name := by decide
  plain : ∀ v ∈ variants, Descriptor.Plain v := by decide
  distinct : variants.Nodup := by decide

namespace Enumeration

variable {E F : Enumeration} {v w : String} {n : Nat}

def type (E : Enumeration) : Descriptor := .ofVariants E.name E.variants

theorem label_injective (h : E.type.label v = E.type.label w) : v = w := by
  simpa [type, Descriptor.label] using h

theorem ordinal_eq_some_iff (hv : v ∈ E.variants) :
    E.type.ordinal v = some n ↔ E.variants[n]? = some v := by
  -- A label holds a dot, so no variant is taken for a label.
  have other (w : String) : E.type.label w ≠ v := by
    rintro rfl
    exact (E.plain _ hv).1 (by simp [Descriptor.label, String.toList_append])
  have named : E.type.ordinal v = E.variants.findIdx? (· = v) := by
    change (E.variants.map E.type.label).findIdx? _ = _
    rw [List.findIdx?_map]
    congr 1
    funext w
    have same : E.type.label w = E.type.label v ↔ w = v := ⟨label_injective, fun h => h ▸ rfl⟩
    simp [other, same]
  rw [named, List.findIdx?_eq_some_iff_getElem, List.getElem?_eq_some_iff]
  constructor
  · rintro ⟨bound, found, -⟩
    exact ⟨bound, of_decide_eq_true found⟩
  · rintro ⟨bound, rfl⟩
    refine ⟨bound, by simp, fun j earlier => ?_⟩
    have apart := List.pairwise_iff_getElem.mp E.distinct j n (by omega) bound earlier
    simpa using apart

def constant (E : Enumeration) (v : String) (n : Nat) : EnumConstant where
  type := E.name
  label := E.type.label v
  ordinal := n

theorem eq_constant_iff {c : EnumConstant} :
    (c.type = E.name ∧ (E.variants.map E.type.label)[c.ordinal]? = some c.label) ↔
      ∃ v ∈ E.variants, ∃ n, E.type.ordinal v = some n ∧ c = E.constant v n := by
  constructor
  · rintro ⟨type, place⟩
    rw [List.getElem?_map] at place
    obtain ⟨v, found, label⟩ := Option.map_eq_some_iff.mp place
    have hv := List.mem_of_getElem? found
    refine ⟨v, hv, c.ordinal, (ordinal_eq_some_iff hv).mpr found, ?_⟩
    rw [constant, label, ← type]
  · rintro ⟨v, hv, n, place, rfl⟩
    refine ⟨rfl, ?_⟩
    simp [constant, (ordinal_eq_some_iff hv).mp place]

theorem identifier_label (hv : v ∈ E.variants) :
    (Descriptor.identifier (E.type.label v)).toList = E.name.toList ++ '$' :: v.toList := by
  have kept {s : String} (plain : Descriptor.Plain s) :
      s.toList.map (fun c => if c = '.' then '$' else c) = s.toList := by
    nth_rewrite 2 [← List.map_id s.toList]
    exact List.map_congr_left fun c hc => if_neg (ne_of_mem_of_not_mem hc plain.1)
  have label : (E.type.label v).toList = E.name.toList ++ '.' :: v.toList := by
    simp [type, Descriptor.ofVariants, Descriptor.label, Descriptor.name, String.toList_append]
  rw [Descriptor.identifier, String.toList_map, label, List.map_append, List.map_cons,
    kept E.plain_name, kept (E.plain v hv), if_pos rfl]

theorem identifier_injective (hv : v ∈ E.variants) (hw : w ∈ F.variants)
    (h : Descriptor.identifier (E.type.label v) = Descriptor.identifier (F.type.label w)) :
    E.name = F.name ∧ v = w := by
  rw [← String.toList_inj, identifier_label hv, identifier_label hw] at h
  obtain ⟨name, -, variant⟩ :=
    (List.append_cons_inj_of_notMem E.plain_name.2 (E.plain v hv).2).mp h
  exact ⟨String.toList_injective name, String.toList_injective variant⟩

end Enumeration

def localparam (id : String) (n : Nat) : String :=
  "localparam " ++ id ++ " = " ++ n.repr ++ ";"

theorem append_cons_injective {α : Type} {a : α} {xs ys zs ws : List α} (hzs : a ∉ zs)
    (hws : a ∉ ws) (h : xs ++ a :: zs = ys ++ a :: ws) : xs = ys ∧ zs = ws := by
  rcases List.append_eq_append_iff.mp h with ⟨rest, hys, tail⟩ | ⟨rest, hxs, tail⟩
  · cases rest with
    | nil => simpa [eq_comm] using And.intro hys tail
    | cons b rest =>
      obtain ⟨-, rfl⟩ := List.cons.inj tail
      simp at hzs
  · cases rest with
    | nil => simpa [eq_comm] using And.intro hxs tail
    | cons b rest =>
      obtain ⟨-, rfl⟩ := List.cons.inj tail
      simp at hws

theorem localparam_injective {id id' : String} {n n' : Nat}
    (h : localparam id n = localparam id' n') : id = id' ∧ n = n' := by
  have chars (s : String) (k : Nat) : (localparam s k).toList =
      ("localparam ".toList ++ s.toList ++ " =".toList) ++ ' ' :: (k.repr.toList ++ [';']) := by
    simp [localparam, String.toList_append, List.append_assoc]
  have blank (k : Nat) : ' ' ∉ k.repr.toList ++ [';'] := by
    intro mem
    rcases List.mem_append.mp mem with digit | last
    · exact absurd (Numeral.isNumeric_of_mem_repr digit) (by decide)
    · exact absurd last (by decide)
  rw [← String.toList_inj, chars, chars] at h
  obtain ⟨name, number⟩ := append_cons_injective (blank n) (blank n') h
  refine ⟨String.toList_injective ?_, Numeral.repr_injective (String.toList_injective ?_)⟩
  · exact List.append_cancel_left (List.append_cancel_right name)
  · exact List.append_cancel_right number

def Enumeration.line (E : Enumeration) (v : String) (n : Nat) : String :=
  localparam (Expr.enum (E.type.label v)).text n

def Item.atoms : Path × Item → List Atom
  | (_, .atom a) => [a]
  | (_, .module ..) => []

def Atom.constants (as : List Atom) : List EnumConstant :=
  as.flatMap (·.descriptor.constants.flatten)

namespace Scope

def ownAtoms (s : Scope) : List Atom := s.items.flatMap Item.atoms

def Needs (s : Scope) (type : Descriptor) : Prop :=
  ∃ a, (a ∈ s.ownAtoms ∨ ∃ child ∈ s.children, a ∈ child.2.ownAtoms) ∧ a.descriptor.Reaches type

/-- The lines declare the variants of each enum type that the module needs, each variant in one line,
and nothing else; no identifier is declared twice. -/
structure Enumerates (s : Scope) (lines : List String) : Prop where
  declared : ∀ E : Enumeration, s.Needs E.type → ∀ v ∈ E.variants,
    ∃ n, E.type.ordinal v = some n ∧ lines.count (E.line v n) = 1
  only : ∀ line ∈ lines, ∃ E : Enumeration, s.Needs E.type ∧ ∃ v ∈ E.variants,
    ∃ n, E.type.ordinal v = some n ∧ line = E.line v n
  distinct : ∃ constants : List (String × Nat),
    lines = constants.map (fun c => localparam c.1 c.2) ∧ (constants.map Prod.fst).Nodup

theorem constants_enums (cs : List (List EnumConstant)) :
    (cs.map Note.enums).flatMap Note.constants = cs.flatten := by
  rw [List.flatMap_map, List.flatMap_def]
  exact congrArg List.flatten (List.map_id cs)

theorem constants_portNotes (inst : String) (x : Path × Item) :
    (Item.portNotes inst x).flatMap Note.constants = Atom.constants (Item.atoms x) := by
  obtain ⟨v, a | ⟨c, fs⟩⟩ := x
  · cases h : a.kind.isParameter <;>
      simp [Item.portNotes, Item.atoms, Atom.constants, h, constants_enums, Note.constants]
  · rfl

theorem constants_notes (key : String) (trail : Path) (x : Path × Item) :
    (Item.notes key x).flatMap Note.constants =
      Atom.constants (Item.atoms x ++ (Item.children trail x).flatMap (·.2.ownAtoms)) := by
  obtain ⟨u, a | ⟨c, fs⟩⟩ := x
  · simp [Item.notes, Item.atoms, Item.children, Atom.constants, constants_enums, Note.constants]
  · simp only [Item.notes, List.flatMap_cons, List.flatMap_assoc, constants_portNotes]
    simp [Item.atoms, Item.children, Atom.constants, Note.constants, ownAtoms, items,
      List.flatMap_assoc]

theorem mem_enums_entry (top : String) {s : Scope} {c : EnumConstant} :
    c ∈ (s.entry top).enums ↔ ∃ a, (a ∈ s.ownAtoms ∨ ∃ child ∈ s.children, a ∈ child.2.ownAtoms) ∧
      c ∈ a.descriptor.constants.flatten := by
  have noted : (s.notes "").flatMap Note.constants = Atom.constants
      (s.items.flatMap fun x => Item.atoms x ++ (Item.children s.trail x).flatMap (·.2.ownAtoms)) := by
    simp only [notes, List.flatMap_cons, List.flatMap_assoc, constants_notes "" s.trail,
      Atom.constants]
    rfl
  have atoms (a : Atom) : (a ∈ s.ownAtoms ∨ ∃ child ∈ s.children, a ∈ child.2.ownAtoms) ↔
      a ∈ s.items.flatMap fun x =>
        Item.atoms x ++ (Item.children s.trail x).flatMap (·.2.ownAtoms) := by
    rw [(List.flatMap_append_perm _ _ _).symm.mem_iff, List.mem_append, ← List.flatMap_assoc]
    exact or_congr Iff.rfl List.mem_flatMap.symm
  simp only [enums_entry, List.mem_eraseDups, noted, atoms, Atom.constants, List.mem_flatMap]

end Scope

/-- Every enum type in the circuit is one by its variants, and a name stands for one type. -/
structure Block.Enumerated (root : Block) : Prop where
  proper : ∀ a ∈ root.leaves, ∀ name labels, a.descriptor.Reaches (.enum name labels) →
    ∃ E : Enumeration, E.type = .enum name labels
  one_type : ∀ a ∈ root.leaves, ∀ b ∈ root.leaves, ∀ E F : Enumeration,
    a.descriptor.Reaches E.type → b.descriptor.Reaches F.type → E.name = F.name → E.type = F.type

namespace Block

variable {root : Block} {s : Scope}

theorem enumerated_of_types (Es : List Enumeration) (names : (Es.map (·.name)).Nodup)
    (among : ∀ a ∈ root.leaves, ∀ x ∈ a.descriptor.enums,
      x ∈ Es.map fun E => (E.name, E.variants.map E.type.label)) : root.Enumerated := by
  have known {a : Atom} (ha : a ∈ root.leaves) {name : String} {labels : List String}
      (reached : a.descriptor.Reaches (.enum name labels)) :
      ∃ E ∈ Es, E.type = .enum name labels := by
    obtain ⟨E, hE, same⟩ :=
      List.mem_map.mp (among a ha _ (Descriptor.mem_enums_of_reaches reached))
    obtain ⟨rfl, rfl⟩ := Prod.mk.inj same
    exact ⟨E, hE, rfl⟩
  refine ⟨fun a ha name labels reached => ?_, fun a ha b hb E F hE hF name => ?_⟩
  · obtain ⟨E, -, type⟩ := known ha reached
    exact ⟨E, type⟩
  · obtain ⟨E', inE, typeE⟩ := known ha hE
    obtain ⟨F', inF, typeF⟩ := known hb hF
    have same : E'.name = F'.name :=
      (Descriptor.enum.inj typeE).1.trans (name.trans (Descriptor.enum.inj typeF).1.symm)
    obtain rfl := List.inj_on_of_nodup_map names inE inF same
    exact typeE.symm.trans typeF

theorem leaves_of_mem_ownAtoms (hroot : root.isScope = true) (hs : s ∈ root.scopes) {a : Atom}
    (ha : a ∈ s.ownAtoms) : a ∈ root.leaves := by
  obtain ⟨⟨u, b | ⟨c, fs⟩⟩, hx, hb⟩ := List.mem_flatMap.mp ha
  · obtain rfl := List.mem_singleton.mp hb
    exact leaves_of_mem_scopes hroot hs (mem_fieldLeaves_of_item hx)
  · cases hb

theorem leaves_of_mem_around (hroot : root.isScope = true) (hs : s ∈ root.scopes) {a : Atom}
    (ha : a ∈ s.ownAtoms ∨ ∃ child ∈ s.children, a ∈ child.2.ownAtoms) : a ∈ root.leaves := by
  rcases ha with ha | ⟨child, hchild, ha⟩
  · exact leaves_of_mem_ownAtoms hroot hs ha
  · exact leaves_of_mem_ownAtoms hroot (mem_scopes_of_mem_children hroot hs hchild) ha

section Enums

variable (hroot : root.isScope = true) (types : root.Enumerated) (hs : s ∈ root.scopes)

include hroot types hs

theorem mem_enums_iff (top : String) {c : EnumConstant} :
    c ∈ (s.entry top).enums ↔ ∃ E : Enumeration, s.Needs E.type ∧ ∃ v ∈ E.variants,
      ∃ n, E.type.ordinal v = some n ∧ c = E.constant v n := by
  rw [Scope.mem_enums_entry]
  constructor
  · rintro ⟨a, ha, hc⟩
    obtain ⟨labels, reached, place⟩ := Descriptor.mem_constants_iff.mp hc
    obtain ⟨E, type⟩ := types.proper a (leaves_of_mem_around hroot hs ha) _ _ reached
    obtain ⟨name, rfl⟩ := Descriptor.enum.inj type
    exact ⟨E, ⟨a, ha, type ▸ reached⟩, Enumeration.eq_constant_iff.mp ⟨name.symm, place⟩⟩
  · rintro ⟨E, ⟨a, ha, reached⟩, constant⟩
    obtain ⟨name, place⟩ := Enumeration.eq_constant_iff.mpr constant
    refine ⟨a, ha, Descriptor.mem_constants_iff.mpr ⟨_, ?_, place⟩⟩
    rw [name]
    exact reached

theorem nodup_identifiers (top : String) :
    ((s.entry top).enums.map fun c => Descriptor.identifier c.label).Nodup := by
  have nodup : (s.entry top).enums.Nodup := by
    rw [Scope.enums_entry]
    refine (eraseDups_ordered _).imp fun lt => ?_
    rintro rfl
    exact Nat.lt_irrefl _ lt
  refine nodup.map_on fun c hc d hd same => ?_
  obtain ⟨E, ⟨a, ha, hE⟩, v, hv, n, hn, rfl⟩ := (mem_enums_iff hroot types hs top).mp hc
  obtain ⟨F, ⟨b, hb, hF⟩, w, hw, m, hm, rfl⟩ := (mem_enums_iff hroot types hs top).mp hd
  obtain ⟨name, rfl⟩ := Enumeration.identifier_injective hv hw same
  have type := types.one_type a (leaves_of_mem_around hroot hs ha) b
    (leaves_of_mem_around hroot hs hb) E F hE hF name
  rw [type, hm] at hn
  cases hn
  simp only [Enumeration.constant, name, type]

theorem enumerates (top : String) :
    s.Enumerates ((s.entry top).enums.map EnumConstant.text) where
  declared E needed v hv := by
    obtain ⟨n, place⟩ := List.mem_iff_getElem?.mp hv
    have ordinal := (Enumeration.ordinal_eq_some_iff hv).mpr place
    refine ⟨n, ordinal, List.count_eq_one_of_mem ?_ ?_⟩
    · have identifiers := nodup_identifiers hroot types hs top
      refine (List.Nodup.of_map _ identifiers).map_on fun c hc d hd same => ?_
      exact List.inj_on_of_nodup_map identifiers hc hd (localparam_injective same).1
    · exact List.mem_map.mpr
        ⟨E.constant v n, (mem_enums_iff hroot types hs top).mpr ⟨E, needed, v, hv, n, ordinal, rfl⟩, rfl⟩
  only line hline := by
    obtain ⟨c, hc, rfl⟩ := List.mem_map.mp hline
    obtain ⟨E, needed, v, hv, n, ordinal, rfl⟩ := (mem_enums_iff hroot types hs top).mp hc
    exact ⟨E, needed, v, hv, n, ordinal, rfl⟩
  distinct := by
    refine ⟨(s.entry top).enums.map fun c => (Descriptor.identifier c.label, c.ordinal), ?_, ?_⟩
    · rw [List.map_map]
      rfl
    · rw [List.map_map]
      exact nodup_identifiers hroot types hs top

end Enums

end Block

theorem Table.filter_enums (t : Table) {e : Entry} (wrapper : e.code.isWrapper = false) :
    (t.sections e).filter (·.1 = "Enums") = [("Enums", e.enums.map EnumConstant.text)] := by
  have body : e.codeSection.filter (·.1 = "Enums") = [] := by
    rw [Entry.codeSection]
    split <;> grind
  simp [Table.sections, wrapper, body]

/-- In the text of a well-named circuit whose enum types are told apart by name, every module that is
no wrapper declares the variants of the types that its atoms and those of the modules directly in it
hold, each variant once and with its ordinal. -/
theorem Generation.enums_declared (root : Block) (top text : String) (hroot : root.isScope = true)
    (hnames : root.wellNamed = true) (types : root.Enumerated)
    (h : (unchecked (some root) top).result = .ok text) :
    ∃ t, root.table top = .ok t ∧ text = t.text ∧
      ∀ key e, (key, e) ∈ t.emitted → e.code.isWrapper = false →
        ∃ s ∈ root.scopes, key = s.key top ∧ e = s.entry top ∧
          Table.HasModule text key (e.parameters.map (·.name)) (t.sections e) ∧
          ∃ lines, (t.sections e).filter (·.1 = "Enums") = [("Enums", lines)] ∧
            s.Enumerates lines := by
  obtain ⟨htop, t, table, render⟩ := render_of_unchecked h
  obtain rfl := Table.text_of_render render
  refine ⟨t, table, rfl, fun key e emitted wrapper => ?_⟩
  obtain ⟨s, hs, rfl, rfl⟩ := Block.exists_scope_of_emitted hroot hnames htop table emitted
  exact ⟨s, hs, rfl, rfl, Table.hasModule_text emitted, _, t.filter_enums wrapper,
    Block.enumerates hroot types hs top⟩

def Enumeration.state : Enumeration where
  name := "State"
  variants := ["Idle", "Busy"]

def Enumeration.op : Enumeration where
  name := "Op"
  variants := ["Idle", "Add", "Sub"]

def Enumeration.phase : Enumeration where
  name := "Phase"
  variants := ["Low", "High"]

def Block.tagged : Block :=
  let cell (fs : List (String × Block)) : Block :=
    .named { typeName := "Cell", boundary := .scope } fs
  let leaf (net : Nat) (type : Descriptor) : Block :=
    .signal { net, kind := .input, width := 2, type }
  let request : Descriptor :=
    .composite "Request" [("op", Enumeration.op.type), ("state", Enumeration.state.type)]
  cell [("s", leaf 0 Enumeration.state.type),
    ("m", cell [("r", leaf 1 request), ("c", cell [("p", leaf 2 Enumeration.phase.type)])])]

theorem Generation.enums_declared_tagged :
    Block.tagged.isScope = true ∧ Block.tagged.wellNamed = true ∧ Block.tagged.Enumerated ∧
      ∃ text t e s, (unchecked (some Block.tagged) "t").result = .ok text ∧
        Block.tagged.table "t" = .ok t ∧ ("t", e) ∈ t.emitted ∧
        Table.HasModule text "t" (e.parameters.map (·.name)) (t.sections e) ∧
        s ∈ Block.tagged.scopes ∧ s.Enumerates ["localparam State$Idle = 0;",
          "localparam State$Busy = 1;", "localparam Op$Idle = 0;", "localparam Op$Add = 1;",
          "localparam Op$Sub = 2;"] := by
  have types : Block.tagged.Enumerated :=
    Block.enumerated_of_types [.state, .op, .phase] (by decide) (by decide)
  refine ⟨by decide, by decide, types, ?_⟩
  obtain ⟨text, generated⟩ : ∃ text, (unchecked (some Block.tagged) "t").result = .ok text :=
    ⟨_, rfl⟩
  obtain ⟨t, table, same, enums⟩ :=
    enums_declared Block.tagged "t" text (by decide) (by decide) types generated
  have nonempty : Block.tagged.scopes ≠ [] := List.cons_ne_nil _ _
  have declared : ((Block.tagged.scopes.head nonempty).entry "t").enums.map EnumConstant.text =
      ["localparam State$Idle = 0;", "localparam State$Busy = 1;", "localparam Op$Idle = 0;",
        "localparam Op$Add = 1;", "localparam Op$Sub = 2;"] := by decide +kernel +revert
  have emitted := Block.mem_emitted_of_scope (by decide) (by decide) (by decide) table
    (List.head_mem nonempty) rfl
  obtain ⟨s, hs, -, -, written, lines, group, enumerates⟩ := enums _ _ emitted rfl
  rw [Table.filter_enums t rfl, declared] at group
  obtain rfl := (Prod.mk.inj (List.cons.inj group).1).2
  exact ⟨text, t, _, s, generated, table, emitted, same ▸ written, hs, enumerates⟩

end Circuitry
