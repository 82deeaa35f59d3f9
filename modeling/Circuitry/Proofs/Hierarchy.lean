import Circuitry.Proofs.Bytes
import Circuitry.Proofs.Composition
import Mathlib.Data.List.Lex
import Mathlib.Data.Set.List

/-!
The order of modules in a text is that of their places in the circuit. Keys are compared as bytes.
Where every byte of a name is above the separator, a name ends before any name that goes on, so keys
compare as the lists of names that they stand for: a module comes first, then what is in it, and then
what comes after it.
-/

namespace Circuitry

namespace Text

theorem bytes_append (s t : String) : bytes (s ++ t) = bytes s ++ bytes t := by
  simp only [bytes_eq, String.toList_append, List.flatMap_append]

theorem bytes_injective : Function.Injective bytes := by
  intro s t same
  exact String.toByteArray_inj.mp (ByteArray.ext (Array.toList_inj.mp same))

end Text

section Lex

variable {α : Type} [LT α]

section Separator

variable [Std.Asymm fun x y : α => x < y] {sep : α}

theorem append_lt_append_iff (c : List α) {a b : List α} : c ++ a < c ++ b ↔ a < b := by
  induction c with
  | nil => rfl
  | cons x c ih => simp [ih]

theorem append_flatMap_lt_iff {a b : List α} (ha : ∀ x ∈ a, sep < x) (hb : ∀ x ∈ b, sep < x)
    (u v : List (List α)) :
    a ++ u.flatMap (sep :: ·) < b ++ v.flatMap (sep :: ·) ↔
      a < b ∨ a = b ∧ u.flatMap (sep :: ·) < v.flatMap (sep :: ·) := by
  induction a generalizing b with
  | nil =>
    cases b with
    | nil => simp
    | cons y b =>
      have above : sep < y := hb y (by simp)
      cases u <;> simp [List.cons_lt_cons_iff, above]
  | cons x a ih =>
    have above : sep < x := ha x (by simp)
    have other : x ≠ sep := fun same => Std.lt_irrefl (same ▸ above)
    cases b with
    | nil => cases v <;> simp [List.cons_lt_cons_iff, Std.Asymm.asymm sep x above, other]
    | cons y b =>
      rw [List.cons_append, List.cons_append, List.cons_lt_cons_iff, List.cons_lt_cons_iff,
        ih (fun z hz => ha z (by simp [hz])) (fun z hz => hb z (by simp [hz]))]
      grind

theorem flatMap_sep_lt_iff {u v : List (List α)} (hu : ∀ a ∈ u, ∀ x ∈ a, sep < x)
    (hv : ∀ b ∈ v, ∀ x ∈ b, sep < x) :
    u.flatMap (sep :: ·) < v.flatMap (sep :: ·) ↔ u < v := by
  induction u generalizing v with
  | nil => cases v <;> simp
  | cons a u ih =>
    cases v with
    | nil => simp
    | cons b v =>
      rw [List.flatMap_cons, List.flatMap_cons, List.cons_append, List.cons_append,
        List.cons_lt_cons_iff, List.cons_lt_cons_iff,
        append_flatMap_lt_iff (hu a (by simp)) (hv b (by simp)),
        ih (fun a ha => hu a (by simp [ha])) (fun b hb => hv b (by simp [hb]))]
      simp only [Std.lt_irrefl, false_or, true_and]

end Separator

theorem lt_or_prefix_of_lt_append {u v w : List α} (h : v < u ++ w) : v < u ∨ u <+: v := by
  induction u generalizing v with
  | nil => exact .inr (List.nil_prefix)
  | cons x u ih =>
    cases v with
    | nil => exact .inl (List.nil_lt_cons x u)
    | cons y v =>
      rcases List.cons_lt_cons_iff.mp h with lt | ⟨rfl, lt⟩
      · exact .inl (List.cons_lt_cons_iff.mpr (.inl lt))
      · refine (ih lt).imp (fun below => ?_) fun inside => ?_
        · exact List.cons_lt_cons_iff.mpr (.inr ⟨rfl, below⟩)
        · exact List.cons_prefix_cons.mpr ⟨rfl, inside⟩

theorem filter_append_filter {β : Type} {r : β → β → Prop} {l : List β} (ordered : l.Pairwise r)
    (p : β → Bool) (up : ∀ a ∈ l, ∀ b ∈ l, r a b → p a = true → p b = true) :
    l = l.filter (!p ·) ++ l.filter p := by
  induction l with
  | nil => rfl
  | cons a l ih =>
    obtain ⟨first, rest⟩ := List.pairwise_cons.mp ordered
    have tail := ih rest fun x hx y hy => up x (by simp [hx]) y (by simp [hy])
    cases ha : p a with
    | false => simpa [ha] using tail
    | true =>
      have all : ∀ b ∈ l, p b = true := fun b hb => up a (by simp) b (by simp [hb]) (first b hb) ha
      have none : l.filter (!p ·) = [] := by simpa using all
      rw [none, List.nil_append] at tail
      simp [ha, none, ← tail]

end Lex

namespace Path

/-- Every byte of the name is above that of the separator. -/
def IsAbove (name : String) : Prop := ∀ b ∈ Text.bytes name, 0x24 < b

instance (name : String) : Decidable (IsAbove name) := inferInstanceAs (Decidable (∀ _ ∈ _, _))

theorem bytes_separator : Text.bytes "$" = [0x24] := by decide

theorem bytes_flat_cons (top : String) (u : Path) :
    Text.bytes (flat (top :: u)) =
      Text.bytes top ++ (u.map Text.bytes).flatMap ((0x24 : UInt8) :: ·) := by
  induction u generalizing top with
  | nil => simp
  | cons name u ih =>
    rw [flat_cons (List.cons_ne_nil name u), Text.bytes_append, Text.bytes_append, bytes_separator,
      ih]
    simp

theorem bytes_flat_lt_iff (top : String) {u v : Path} (hu : ∀ name ∈ u, IsAbove name)
    (hv : ∀ name ∈ v, IsAbove name) :
    Text.bytes (flat (top :: u)) < Text.bytes (flat (top :: v)) ↔
      u.map Text.bytes < v.map Text.bytes := by
  have above {w : Path} (hw : ∀ name ∈ w, IsAbove name) :
      ∀ a ∈ w.map Text.bytes, ∀ b ∈ a, 0x24 < b := by
    intro a ha
    obtain ⟨name, hname, rfl⟩ := List.mem_map.mp ha
    exact hw name hname
  rw [bytes_flat_cons, bytes_flat_cons, ← flatMap_sep_lt_iff (above hu) (above hv)]
  exact append_lt_append_iff (Text.bytes top)

end Path

namespace Scope

def segments (s : Scope) : List (List UInt8) := s.trail.map Text.bytes

def descendants (s : Scope) : List Scope := (Block.fieldScopes s.fields).map s.within

theorem descendants_below (name : String) (s : Scope) :
    (s.below name).descendants = s.descendants.map (·.below name) := by
  simp [descendants, below, within]

theorem exists_of_mem_descendants {s r : Scope} (h : r ∈ s.descendants) :
    ∃ rest, rest ≠ [] ∧ r.trail = s.trail ++ rest := by
  obtain ⟨q, hq, rfl⟩ := List.mem_map.mp h
  refine ⟨q.trail, fun hnil => ?_, rfl⟩
  exact Block.nil_not_mem_fieldPlaces s.fields (hnil ▸ Block.trail_mem_fieldPlaces hq)

def Nested (ss : List Scope) : Prop :=
  ∀ s ∈ ss, ∀ r ∈ ss, s.trail <+: r.trail → r = s ∨ r ∈ s.descendants

theorem Nested.below {ss : List Scope} (h : Nested ss) (name : String) :
    Nested (ss.map (·.below name)) := by
  intro s hs r hr lead
  obtain ⟨s, hin, rfl⟩ := List.mem_map.mp hs
  obtain ⟨r, hrin, rfl⟩ := List.mem_map.mp hr
  rw [descendants_below]
  refine (h s hin r hrin (List.cons_prefix_cons.mp lead).2).imp (fun same => ?_) fun inside => ?_
  · rw [same]
  · exact List.mem_map_of_mem inside

end Scope

namespace Block

variable {fs : List (Field × Block)}

theorem exists_label_of_mem_fieldScopes {s : Scope} (hs : s ∈ fieldScopes fs) :
    ∃ label ∈ fs.map (·.1.label), ∃ rest, s.trail = label :: rest :=
  exists_label_of_mem_fieldPlaces (trail_mem_fieldPlaces hs)

theorem nested_cons {f : Field} {b : Block} (hf : f.label ∉ fs.map (·.1.label))
    (head : Scope.Nested b.scopes) (tail : Scope.Nested (fieldScopes fs)) :
    Scope.Nested (fieldScopes ((f, b) :: fs)) := by
  -- The names of a module begin with the label of the field that it is in.
  have apart {s r : Scope} (hs : s ∈ b.scopes.map (·.below f.label)) (hr : r ∈ fieldScopes fs) :
      ¬ s.trail <+: r.trail ∧ ¬ r.trail <+: s.trail := by
    obtain ⟨s, -, rfl⟩ := List.mem_map.mp hs
    obtain ⟨label, hlabel, rest, trail⟩ := exists_label_of_mem_fieldScopes hr
    have ne : f.label ≠ label := fun same => hf (same ▸ hlabel)
    simp [Scope.below, trail, List.cons_prefix_cons, ne, ne.symm]
  intro s hs r hr lead
  rw [fieldScopes] at hs hr
  rcases List.mem_append.mp hs with hs | hs <;> rcases List.mem_append.mp hr with hr | hr
  · exact head.below f.label s hs r hr lead
  · exact absurd lead (apart hs hr).1
  · exact absurd lead (apart hr hs).2
  · exact tail s hs r hr lead

theorem nested_scope {c : Composite} (hc : c.boundary = .scope)
    (inner : Scope.Nested (fieldScopes fs)) : Scope.Nested (scopes (.composite c fs)) := by
  rw [scopes_root hc]
  intro s hs r hr lead
  rcases List.mem_cons.mp hs with rfl | hs <;> rcases List.mem_cons.mp hr with rfl | hr
  · exact .inl rfl
  · exact .inr (List.mem_map.mpr ⟨r, hr, rfl⟩)
  · obtain ⟨label, -, rest, trail⟩ := exists_label_of_mem_fieldScopes hs
    simp [trail] at lead
  · exact inner s hs r hr lead

theorem nested_fieldScopes (hnames : fieldsWellNamed fs = true) :
    Scope.Nested (fieldScopes fs) := by
  induction fs using induction_boundaries with
  | nil => simp [Scope.Nested]
  | atom f a fs ih =>
    obtain ⟨-, hf, -, hfs⟩ := fieldsWellNamed_cons.mp hnames
    exact nested_cons hf (by simp [Scope.Nested, scopes]) (ih hfs)
  | scope f c inner fs hc ihInner ih =>
    obtain ⟨-, hf, hinner, hfs⟩ := fieldsWellNamed_cons.mp hnames
    exact nested_cons hf (nested_scope hc (ihInner hinner)) (ih hfs)
  | group f c inner fs hc ihInner ih =>
    obtain ⟨-, hf, hinner, hfs⟩ := fieldsWellNamed_cons.mp hnames
    have group : scopes (.composite c inner) = fieldScopes inner := by simp [scopes, hc]
    exact nested_cons hf (group ▸ ihInner hinner) (ih hfs)

end Block

/-- The modules of a circuit that are no black boxes, in the order of their places: each is followed
at once by those in it. -/
structure Block.Hierarchy (root : Block) (ss : List Scope) : Prop where
  mem_iff : ∀ s, s ∈ ss ↔ s ∈ root.scopes ∧ s.code.isBlackbox = false
  ordered : ss.Pairwise (·.segments < ·.segments)
  first : ∃ s ∈ root.scopes, s.trail = [] ∧ s.block = root ∧
    (s.code.isBlackbox = false → ss.head? = some s)
  outer_first : ss.Pairwise fun s r => s ∉ r.descendants
  block : ∀ s ∈ root.scopes, ∃ before inside after,
    ss = before ++ (if s.code.isBlackbox then [] else [s]) ++ inside ++ after ∧
      ∀ r, r ∈ inside ↔ r ∈ ss ∧ r ∈ s.descendants

namespace Block

variable {root : Block} {top : String} {t : Table} {ss : List Scope}

theorem nested_scopes (hroot : root.isScope = true) (hnames : root.wellNamed = true) :
    Scope.Nested root.scopes := by
  obtain ⟨c, fs, rfl, hc⟩ := exists_of_isScope hroot
  exact nested_scope hc (nested_fieldScopes hnames)

theorem trail_mem_places (hroot : root.isScope = true) {s : Scope} (hs : s ∈ root.scopes) :
    s.trail ∈ root.places := by
  obtain ⟨c, fs, rfl, hc⟩ := exists_of_isScope hroot
  rcases List.mem_cons.mp (scopes_root hc ▸ hs) with rfl | hs
  · simp [places]
  · exact List.mem_cons_of_mem _ (trail_mem_fieldPlaces hs)

section Order

variable {s r : Scope}

theorem prefix_of_mem_descendants (h : r ∈ s.descendants) :
    s.segments < r.segments ∧ s.segments <+: r.segments := by
  obtain ⟨rest, hrest, trail⟩ := Scope.exists_of_mem_descendants h
  have segments : r.segments = s.segments ++ rest.map Text.bytes := by
    simp [Scope.segments, trail]
  obtain ⟨name, rest, rfl⟩ := List.exists_cons_of_ne_nil hrest
  have longer : s.segments ++ [] < r.segments := by
    rw [segments, append_lt_append_iff]
    exact List.nil_lt_cons _ _
  exact ⟨by rwa [List.append_nil] at longer, segments ▸ List.prefix_append _ _⟩

variable (hroot : root.isScope = true) (hnames : root.wellNamed = true) (hs : s ∈ root.scopes)
  (hr : r ∈ root.scopes)

include hroot hnames hs hr

theorem eq_or_mem_descendants (lead : s.segments <+: r.segments) : r = s ∨ r ∈ s.descendants :=
  nested_scopes hroot hnames s hs r hr
    ((List.prefix_map_iff_of_injective Text.bytes_injective).mp lead)

theorem eq_of_segments_eq (same : r.segments = s.segments) : r = s := by
  have lead : s.segments <+: r.segments := same ▸ List.prefix_refl _
  refine (eq_or_mem_descendants hroot hnames hs hr lead).resolve_right fun inside => ?_
  have deeper := (prefix_of_mem_descendants inside).1
  exact Std.lt_irrefl (same ▸ deeper)

theorem mem_descendants_iff :
    r ∈ s.descendants ↔ s.segments < r.segments ∧ s.segments <+: r.segments := by
  refine ⟨prefix_of_mem_descendants, fun ⟨lt, lead⟩ => ?_⟩
  refine (eq_or_mem_descendants hroot hnames hs hr lead).resolve_left fun same => ?_
  exact Std.lt_irrefl (same ▸ lt)

end Order

section Ordered

variable (hroot : root.isScope = true) (hnames : root.wellNamed = true)
  (mem_iff : ∀ s, s ∈ ss ↔ s ∈ root.scopes ∧ s.code.isBlackbox = false)
  (ordered : ss.Pairwise (·.segments < ·.segments))

include hroot hnames mem_iff ordered

theorem exists_split {s : Scope} (hs : s ∈ root.scopes) :
    ∃ before after, ss = before ++ (if s.code.isBlackbox then [] else [s]) ++ after ∧
      (∀ r ∈ before, r.segments < s.segments) ∧
      ∀ r, r ∈ after ↔ r ∈ ss ∧ s.segments < r.segments := by
  cases box : s.code.isBlackbox with
  | false =>
    obtain ⟨before, after, rfl⟩ := List.append_of_mem ((mem_iff s).mpr ⟨hs, box⟩)
    obtain ⟨-, later, less⟩ := List.pairwise_append.mp ordered
    have early (r : Scope) (hr : r ∈ before) : r.segments < s.segments := less r hr s (by simp)
    refine ⟨before, after, by simp, early, fun r => ⟨fun hr => ?_, fun ⟨hr, lt⟩ => ?_⟩⟩
    · exact ⟨by simp [hr], (List.pairwise_cons.mp later).1 r hr⟩
    · rcases List.mem_append.mp hr with hr | hr
      · exact absurd (Std.lt_trans lt (early r hr)) Std.lt_irrefl
      · exact (List.mem_cons.mp hr).resolve_left fun same => Std.lt_irrefl (same ▸ lt)
  | true =>
    have split := filter_append_filter ordered (fun r => decide (s.segments < r.segments)) <| by
      intro a _ b _ lt later
      exact decide_eq_true (Std.lt_trans (of_decide_eq_true later) lt)
    refine ⟨_, _, by simpa using split, ?_, by simp⟩
    intro r hr
    obtain ⟨hin, early⟩ := List.mem_filter.mp hr
    obtain ⟨hr, own⟩ := (mem_iff r).mp hin
    have other : r.segments ≠ s.segments := by
      intro same
      rw [eq_of_segments_eq hroot hnames hs hr same, box] at own
      cases own
    have : ¬ s.segments < r.segments := by simpa using early
    exact Std.lt_of_le_of_ne (Std.not_lt.mp this) other

theorem hierarchy_of_ordered : root.Hierarchy ss where
  mem_iff := mem_iff
  ordered := ordered
  first := by
    obtain ⟨c, fs, rfl, hc⟩ := exists_of_isScope hroot
    refine ⟨⟨[], c, fs⟩, by simp [scopes_root hc], rfl, rfl, fun box => ?_⟩
    obtain ⟨before, after, split, early, -⟩ :=
      exists_split hroot hnames mem_iff ordered (s := ⟨[], c, fs⟩) (by simp [scopes_root hc])
    have none : before = [] := by
      rw [List.eq_nil_iff_forall_not_mem]
      exact fun r hr => List.not_lt_nil _ (early r hr)
    simp [split, none, box]
  outer_first := ordered.imp fun lt inside =>
    Std.lt_irrefl (Std.lt_trans lt (prefix_of_mem_descendants inside).1)
  block s hs := by
    obtain ⟨before, after, split, early, late⟩ := exists_split hroot hnames mem_iff ordered hs
    -- What is past the modules in `s` stays past them.
    have past := filter_append_filter
      (ordered.sublist (split ▸ List.sublist_append_right _ _) : after.Pairwise _)
      (fun r => decide ¬ s.segments <+: r.segments) <| by
        intro a ha b _ lt outside
        simp only [decide_eq_true_eq] at outside ⊢
        rintro ⟨rest, inside⟩
        rcases lt_or_prefix_of_lt_append (inside ▸ lt) with below | lead
        · exact Std.lt_irrefl (Std.lt_trans below ((late a).mp ha).2)
        · exact outside lead
    refine ⟨before, _, _, by rw [List.append_assoc _ _ (after.filter _), ← past]; exact split, ?_⟩
    intro r
    rw [List.mem_filter]
    constructor
    · rintro ⟨hr, lead⟩
      obtain ⟨hin, lt⟩ := (late r).mp hr
      exact ⟨hin, (mem_descendants_iff hroot hnames hs ((mem_iff r).mp hin).1).mpr
        ⟨lt, by simpa using lead⟩⟩
    · rintro ⟨hin, inside⟩
      obtain ⟨lt, lead⟩ := prefix_of_mem_descendants inside
      exact ⟨(late r).mpr ⟨hin, lt⟩, by simpa using lead⟩

end Ordered

section Table

variable (hroot : root.isScope = true) (hnames : root.wellNamed = true) (htop : top ≠ "")
  (h : root.table top = .ok t)

include hroot hnames htop h

theorem exists_emitted_scopes : ∃ ss : List Scope, (∀ s ∈ ss, s ∈ root.scopes) ∧
    t.emitted = ss.map fun s => (s.key top, s.entry top) := by
  have rows : ∀ row ∈ t.emitted,
      row ∈ Set.range fun s : {s // s ∈ root.scopes} => (s.1.key top, s.1.entry top) := by
    rintro ⟨key, e⟩ he
    obtain ⟨s, hs, rfl, rfl⟩ := exists_scope_of_emitted hroot hnames htop h he
    exact ⟨⟨s, hs⟩, rfl⟩
  obtain ⟨ss, hss⟩ := (Set.ext_iff.mp (Set.range_list_map _) t.emitted).mpr rows
  refine ⟨ss.map (·.1), fun s hs => ?_, by simp [← hss]⟩
  obtain ⟨s, -, rfl⟩ := List.mem_map.mp hs
  exact s.2

theorem mem_emitted_scopes (hss : ∀ s ∈ ss, s ∈ root.scopes)
    (emitted : t.emitted = ss.map fun s => (s.key top, s.entry top)) (s : Scope) :
    s ∈ ss ↔ s ∈ root.scopes ∧ s.code.isBlackbox = false := by
  constructor
  · intro hs
    have row : (s.key top, s.entry top) ∈ t.emitted :=
      emitted ▸ List.mem_map_of_mem (f := fun s : Scope => (s.key top, s.entry top)) hs
    exact ⟨hss s hs, s.code_entry top ▸ (Table.mem_emitted_iff.mp row).2.2⟩
  · rintro ⟨hs, box⟩
    have row := mem_emitted_of_scope hroot hnames htop h hs box
    rw [emitted] at row
    obtain ⟨r, hr, same⟩ := List.mem_map.mp row
    have keys := List.inj_on_of_nodup_map (nodup_scope_keys hroot hnames htop)
    rwa [← keys (hss r hr) hs (Prod.mk.inj same).1]

end Table

end Block

/-- Under names whose bytes are all above the separator, the keys of two modules compare as the lists
of names that lead to them. So the text of a circuit has its modules in the order of their places. -/
theorem Generation.modules_hierarchical (root : Block) (top : String) (hroot : root.isScope = true)
    (hnames : root.wellNamed = true)
    (habove : ∀ u ∈ root.places, ∀ name ∈ u, Path.IsAbove name) (htop : top ≠ "") (t : Table)
    (h : root.table top = .ok t) :
    (∀ r ∈ root.scopes, ∀ s ∈ root.scopes,
      Text.bytes (r.key top) < Text.bytes (s.key top) ↔ r.segments < s.segments) ∧
      ∃ ss, root.Hierarchy ss ∧
        t.emitted = ss.map (fun s => (s.key top, s.entry top)) ∧
        ∀ text, (unchecked (some root) top).result = .ok text →
          text = "\n".intercalate (ss.map fun s => t.moduleText (s.key top) (s.entry top))
            ++ t.externalText := by
  have compare : ∀ r ∈ root.scopes, ∀ s ∈ root.scopes,
      Text.bytes (r.key top) < Text.bytes (s.key top) ↔ r.segments < s.segments := by
    intro r hr s hs
    exact Path.bytes_flat_lt_iff top (habove _ (Block.trail_mem_places hroot hr))
      (habove _ (Block.trail_mem_places hroot hs))
  obtain ⟨ss, hss, emitted⟩ := Block.exists_emitted_scopes hroot hnames htop h
  have modules : t.modules =
      ss.map fun s => (s.key top, t.moduleText (s.key top) (s.entry top)) := by
    rw [Table.modules, emitted, List.map_map]
    rfl
  have ordered : ss.Pairwise (·.segments < ·.segments) := by
    have keys := t.ordered_modules
    rw [modules, List.map_map, List.pairwise_map] at keys
    refine keys.imp_of_mem fun hr hs lt => ?_
    exact (compare _ (hss _ hr) _ (hss _ hs)).mp (Text.bytes_lt lt)
  refine ⟨compare, ss, ?_, emitted, fun text generated => ?_⟩
  · exact Block.hierarchy_of_ordered hroot hnames
      (Block.mem_emitted_scopes hroot hnames htop h hss emitted) ordered
  · obtain ⟨-, t₁, table, render⟩ := render_of_unchecked generated
    obtain rfl := Except.ok.inj (h.symm.trans table)
    rw [Table.text_of_render render, Table.text_eq, modules, List.map_map]
    rfl

def Block.branching : Block :=
  let cell (code : Code) (fs : List (String × Block)) : Block :=
    .named { typeName := "Cell", boundary := .scope, code := some code } fs
  let leaf : Block := cell .empty []
  cell .empty
    [("k_10", leaf), ("k_1", leaf), ("a_b", leaf), ("ab", leaf),
      ("a", cell (.blackbox "A" "module A();") [("c", leaf), ("b", leaf)]),
      ("k", .named { typeName := "Group", boundary := .group } [("m", leaf)])]

theorem Generation.modules_hierarchical_branching :
    Block.branching.isScope = true ∧ Block.branching.wellNamed = true ∧
      (∀ u ∈ Block.branching.places, ∀ name ∈ u, Path.IsAbove name) ∧
      ∃ t ss, Block.branching.table "t" = .ok t ∧ Block.branching.Hierarchy ss ∧
        t.emitted = ss.map (fun s => (s.key "t", s.entry "t")) ∧
        ss.map (·.key "t") =
          ["t", "t$a$b", "t$a$c", "t$a_b", "t$ab", "t$k$m", "t$k_1", "t$k_10"] := by
  have above : ∀ u ∈ Block.branching.places, ∀ name ∈ u, Path.IsAbove name := by decide +kernel
  obtain ⟨-, ss, hierarchy, emitted, -⟩ :=
    modules_hierarchical Block.branching "t" (by decide) (by decide) above (by decide) _ rfl
  refine ⟨by decide, by decide, above, _, ss, rfl, hierarchy, emitted, ?_⟩
  have keys : ss.map (·.key "t") = (ss.map fun s => (s.key "t", s.entry "t")).map Prod.fst := by
    simp
  rw [keys, ← emitted]
  decide

end Circuitry
