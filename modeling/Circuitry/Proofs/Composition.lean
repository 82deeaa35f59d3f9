import Circuitry.Proofs.Resolution
import Circuitry.Proofs.Wiring
import Mathlib.Data.List.Sort

namespace Circuitry

namespace Scope

/-- An occurrence in the module of `s`, with the names that lead to it through `s`. -/
def within (s r : Scope) : Scope := { r with trail := s.trail ++ r.trail }

theorem key_within (top : String) (s r : Scope) : (s.within r).key top = r.key (s.key top) := by
  simp only [key, within]
  rw [Path.flat_flat_cons (List.cons_ne_nil top s.trail), List.cons_append]

theorem entry_within (top : String) (s r : Scope) :
    (s.within r).entry top = r.entry (s.key top) := by
  rw [entry, entry, key_within]
  rfl

end Scope

namespace Table

def modules (t : Table) : List (String × String) :=
  t.emitted.map fun row => (row.1, t.moduleText row.1 row.2)

def externalText (t : Table) : String :=
  String.join (t.externals.map fun x => "\n" ++ (({} : Writer).add x).text)

theorem text_eq (t : Table) :
    t.text = "\n".intercalate (t.modules.map Prod.snd) ++ t.externalText := by
  simp only [text_eq_intercalate, modules, externalText, List.map_map]
  rfl

theorem mem_modules {t : Table} {key text : String} :
    (key, text) ∈ t.modules ↔ ∃ e, (key, e) ∈ t.emitted ∧ t.moduleText key e = text := by
  simp only [modules, List.mem_map, Prod.mk.injEq]
  constructor
  · rintro ⟨⟨k, e⟩, he, rfl, same⟩
    exact ⟨e, he, same⟩
  · rintro ⟨e, he, same⟩
    exact ⟨(key, e), he, rfl, same⟩

theorem ordered_modules (t : Table) : (t.modules.map Prod.fst).Pairwise (· < ·) := by
  have part : (t.modules.map Prod.fst).Sublist (t.rows.map Prod.fst) := by
    rw [modules, List.map_map]
    exact List.filter_sublist.map _
  exact t.ordered.sublist part

theorem eq_of_ordered {β : Type} {xs ys : List (String × β)}
    (hx : (xs.map Prod.fst).Pairwise (· < ·)) (hy : (ys.map Prod.fst).Pairwise (· < ·))
    (h : ∀ m, m ∈ xs ↔ m ∈ ys) : xs = ys := by
  rw [List.pairwise_map] at hx hy
  have nodup {ms : List (String × β)} (hms : ms.Pairwise fun a b => a.1 < b.1) : ms.Nodup :=
    hms.imp fun lt same => String.ne_of_lt lt (congrArg Prod.fst same)
  have perm : xs.Perm ys := (List.perm_ext_iff_of_nodup (nodup hx) (nodup hy)).mpr h
  refine perm.eq_of_pairwise ?_ hx hy
  intro a b _ _ lt gt
  exact absurd (String.lt_trans lt gt) (String.lt_irrefl _)

theorem modules_eq_filter {t t' : Table} {keys : List String}
    (h : ∀ m, m ∈ t'.modules ↔ m ∈ t.modules ∧ m.1 ∈ keys) :
    t'.modules = t.modules.filter (·.1 ∈ keys) := by
  apply eq_of_ordered t'.ordered_modules
  · exact t.ordered_modules.sublist (List.filter_sublist.map _)
  · intro m
    simpa using h m

theorem moduleText_congr {t t' : Table} {e : Entry}
    (h : ∀ i ∈ e.instances, t'.get? i.target = t.get? i.target) (key : String) :
    t'.moduleText key e = t.moduleText key e := by
  have sections : t'.sections e = t.sections e := by
    have instances : (e.instances.map fun i => i.text ((t'.get? i.target).getD {})) =
        e.instances.map fun i => i.text ((t.get? i.target).getD {}) := by
      apply List.map_congr_left
      intro i hi
      rw [h i hi]
    simp only [Table.sections, instances]
  simp only [moduleText, addModule, sections]

end Table

namespace Block

variable {root : Block} {top : String} {t : Table} {s : Scope}

theorem isScope_of_mem_scopes (hroot : root.isScope = true) (hs : s ∈ root.scopes) :
    s.block.isScope = true := by
  obtain ⟨c, fs, rfl, hc⟩ := exists_of_isScope hroot
  rcases List.mem_cons.mp (scopes_root hc ▸ hs) with rfl | hs
  · exact hroot
  · have := (cons_of_mem_fieldScopes (P := fun _ => True) (by simp) (by simp) trivial hs).1
    simpa [Scope.block, isScope] using this

theorem fault_walkFields_tail {f : Field} {b : Block} {fs : List (Field × Block)}
    (h : (walkFields ((f, b) :: fs)).fault = none) : (walkFields fs).fault = none := by
  cases b with
  | atom a => simpa using h
  | composite c inner => exact (fault_walkFields_composite.mp h).2.2

theorem fault_block (hroot : root.isScope = true) (h : (root.walk top).fault = none)
    (hs : s ∈ root.scopes) (name : String) : (s.block.walk name).fault = none := by
  obtain ⟨c, fs, rfl, hc⟩ := exists_of_isScope hroot
  have whole : (walkFields [({ member := top, label := top }, .composite c fs)]).fault = none := by
    simpa using h
  have own : s.composite.isClosed = false ∧ (walkFields s.fields).fault = none := by
    obtain ⟨opened, inner, -⟩ := fault_walkFields_composite.mp whole
    rcases List.mem_cons.mp (scopes_root hc ▸ hs) with rfl | hs
    · exact ⟨opened, inner⟩
    · obtain ⟨-, f, gs, found⟩ :=
        cons_of_mem_fieldScopes (P := fun gs => (walkFields gs).fault = none)
          (fun _ _ _ => fault_walkFields_tail)
          (fun _ _ _ _ h => (fault_walkFields_composite.mp h).2.1) inner hs
      obtain ⟨opened, inner, -⟩ := fault_walkFields_composite.mp found
      exact ⟨opened, inner⟩
  have alone : (walkFields [({ member := name, label := name }, s.block)]).fault = none :=
    fault_walkFields_composite.mpr ⟨own.1, own.2, rfl⟩
  simpa using alone

theorem mem_scopes_within (hroot : root.isScope = true) (hs : s ∈ root.scopes) {r : Scope}
    (hr : r ∈ s.block.scopes) : s.within r ∈ root.scopes := by
  have own := isScope_of_mem_scopes hroot hs
  obtain ⟨c, fs, rfl, hc⟩ := exists_of_isScope hroot
  have hboundary : s.composite.boundary = .scope := by simpa [Scope.block, isScope] using own
  rcases List.mem_cons.mp (scopes_root hboundary ▸ hr) with rfl | hr
  · simpa [Scope.within] using hs
  · rw [scopes_root hc] at hs ⊢
    rcases List.mem_cons.mp hs with rfl | hs
    · exact List.mem_cons_of_mem _ hr
    · exact List.mem_cons_of_mem _ (mem_fieldScopes_below hs hr)

theorem table_of_fault (h : (root.walk top).fault = none) :
    root.table top = .ok (({} : Builder).visitAll (root.walk top).steps).table := by
  simp only [table, Script.toExcept, h, Except.map]

theorem key_ne_empty (htop : top ≠ "") (hs : s ∈ root.scopes) : s.key top ≠ "" := by
  intro empty
  apply @empty_not_mem_keys root top htop
  rw [← empty]
  exact List.mem_map_of_mem hs

section Alone

variable (hroot : root.isScope = true) (hnames : root.wellNamed = true) (htop : top ≠ "")
  (h : root.table top = .ok t) (hs : s ∈ root.scopes) {t' : Table}
  (h' : s.block.table (s.key top) = .ok t')

include hroot hnames htop h hs h'

theorem get?_within {r : Scope} (hr : r ∈ s.block.scopes) :
    t'.get? (r.key (s.key top)) = some (r.entry (s.key top)) ∧
      t.get? (r.key (s.key top)) = some (r.entry (s.key top)) := by
  have named := key_ne_empty htop hs
  constructor
  · exact get?_scope_key (isScope_of_mem_scopes hroot hs) (wellNamed_of_mem_scopes hroot hnames hs)
      named h' hr
  · rw [← Scope.key_within, ← Scope.entry_within]
    exact get?_scope_key hroot hnames htop h (mem_scopes_within hroot hs hr)

theorem moduleText_within {r : Scope} (hr : r ∈ s.block.scopes) (key : String) :
    t'.moduleText key (r.entry (s.key top)) = t.moduleText key (r.entry (s.key top)) := by
  apply Table.moduleText_congr
  intro i hi
  rw [Scope.instances_entry_eq] at hi
  obtain ⟨child, hchild, rfl⟩ := List.mem_map.mp hi
  have inner := mem_scopes_of_mem_children (isScope_of_mem_scopes hroot hs) hr hchild
  obtain ⟨alone, inside⟩ := get?_within hroot hnames htop h hs h' inner
  rw [alone, inside]

theorem mem_modules_within (m : String × String) :
    m ∈ t'.modules ↔
      m ∈ t.modules ∧ m.1 ∈ s.block.scopes.map (·.key (s.key top)) := by
  obtain ⟨key, text⟩ := m
  have named := key_ne_empty htop hs
  simp only [Table.mem_modules, Table.mem_emitted_iff]
  constructor
  · rintro ⟨e, ⟨found, hkey, box⟩, rfl⟩
    obtain ⟨r, hr, rfl, rfl⟩ := exists_scope_of_get? (isScope_of_mem_scopes hroot hs)
      (wellNamed_of_mem_scopes hroot hnames hs) named h' hkey found
    obtain ⟨-, inside⟩ := get?_within hroot hnames htop h hs h' hr
    exact ⟨⟨_, ⟨inside, hkey, box⟩, (moduleText_within hroot hnames htop h hs h' hr _).symm⟩,
      List.mem_map_of_mem hr⟩
  · rintro ⟨⟨e, ⟨found, hkey, box⟩, rfl⟩, mem⟩
    obtain ⟨r, hr, rfl⟩ := List.mem_map.mp mem
    obtain ⟨alone, inside⟩ := get?_within hroot hnames htop h hs h' hr
    obtain rfl := Option.some.inj (inside.symm.trans found)
    exact ⟨_, ⟨alone, hkey, box⟩, moduleText_within hroot hnames htop h hs h' hr _⟩

theorem render_within {text : String} (render : t.render = .ok text) :
    t'.render = .ok t'.text := by
  have complete : t'.emitted.all (·.2.code.complete) = true := by
    rw [List.all_eq_true]
    rintro ⟨key, e⟩ he
    have listed : (key, t'.moduleText key e) ∈ t'.modules := Table.mem_modules.mpr ⟨e, he, rfl⟩
    obtain ⟨hmem, hkey⟩ := (mem_modules_within hroot hnames htop h hs h' _).mp listed
    obtain ⟨e', he', -⟩ := Table.mem_modules.mp hmem
    obtain ⟨r, hr, rfl⟩ := List.mem_map.mp hkey
    obtain ⟨alone, inside⟩ := get?_within hroot hnames htop h hs h' hr
    have same : e = e' := Option.some.inj <|
      (Table.mem_emitted_iff.mp he).1.symm.trans <| alone.trans <|
        inside.symm.trans (Table.mem_emitted_iff.mp he').1
    rw [Table.render, unresolved_of_table h] at render
    simp only at render
    split at render
    · next whole => exact List.all_eq_true.mp whole _ (same ▸ he')
    · cases render
  rw [Table.render, unresolved_of_table h']
  simp only [complete, if_true]

end Alone

end Block

/-- The table of a module of a circuit, walked alone under its key, has the entries that the circuit
has of the modules in it, and no others but the nameless one. So the modules of its text are those
that the text of the circuit has under the same keys, in the same order. -/
theorem Generation.modules_compositional (root : Block) (top : String) (hroot : root.isScope = true)
    (hnames : root.wellNamed = true) (htop : top ≠ "") (t : Table) (h : root.table top = .ok t)
    (s : Scope) (hs : s ∈ root.scopes) :
    ∃ t', s.block.table (s.key top) = .ok t' ∧
      (∀ key, key ∈ t'.keys ↔ key = "" ∨ key ∈ s.block.scopes.map (·.key (s.key top))) ∧
      (∀ key ∈ s.block.scopes.map (·.key (s.key top)), ∃ e,
        t'.get? key = some e ∧ t.get? key = some e ∧
          t'.moduleText key e = t.moduleText key e) ∧
      t'.modules = t.modules.filter (·.1 ∈ s.block.scopes.map (·.key (s.key top))) ∧
      ∀ text, (unchecked (some root) top).result = .ok text →
        text = "\n".intercalate (t.modules.map Prod.snd) ++ t.externalText ∧
          (unchecked (some s.block) (s.key top)).result =
            .ok ("\n".intercalate (t'.modules.map Prod.snd) ++ t'.externalText) := by
  have named := Block.key_ne_empty htop hs
  have h' := Block.table_of_fault (Block.fault_block hroot (Block.fault_of_table h) hs (s.key top))
  refine ⟨_, h', ?_, ?_, ?_, ?_⟩
  · exact Block.mem_table_keys (Block.isScope_of_mem_scopes hroot hs)
      (Block.wellNamed_of_mem_scopes hroot hnames hs) named h'
  · intro key hkey
    obtain ⟨r, hr, rfl⟩ := List.mem_map.mp hkey
    obtain ⟨alone, inside⟩ := Block.get?_within hroot hnames htop h hs h' hr
    exact ⟨_, alone, inside, Block.moduleText_within hroot hnames htop h hs h' hr _⟩
  · exact Table.modules_eq_filter (Block.mem_modules_within hroot hnames htop h hs h')
  · intro text generated
    obtain ⟨-, t₁, table, render⟩ := render_of_unchecked generated
    obtain rfl := Except.ok.inj (h.symm.trans table)
    rw [← Table.text_eq, ← Table.text_eq]
    exact ⟨Table.text_of_render render, unchecked_of_render named h'
      (Block.render_within hroot hnames htop h hs h' render)⟩

def Block.nested : Block :=
  .named { typeName := "Nested", boundary := .scope }
    [("u", .named { typeName := "Group", boundary := .group } [("k", sample)]), ("v", sample)]

theorem Generation.modules_compositional_nested :
    Block.nested.isScope = true ∧ Block.nested.wellNamed = true ∧
      ∃ s ∈ Block.nested.scopes, s.key "t" = "t$u$k" ∧
        ∃ t t', Block.nested.table "t" = .ok t ∧ s.block.table "t$u$k" = .ok t' ∧
          t.modules.map Prod.fst = ["t", "t$u$k", "t$u$k$g$m", "t$v", "t$v$g$m"] ∧
          t'.modules.map Prod.fst = ["t$u$k", "t$u$k$g$m"] ∧
          t'.modules = t.modules.filter (·.1 ∈ ["t$u$k", "t$u$k$g$m"]) ∧
          ∃ e, t'.get? "t$u$k$g$m" = some e ∧ t.get? "t$u$k$g$m" = some e := by
  have inside : (_ : Scope) ∈ Block.nested.scopes := .tail _ (.head _)
  obtain ⟨t', table, -, entries, modules, -⟩ := modules_compositional Block.nested "t" (by decide)
    (by decide) (by decide) _ rfl _ inside
  obtain ⟨e, alone, whole, -⟩ := entries "t$u$k$g$m" (by decide)
  refine ⟨by decide, by decide, _, inside, rfl, _, t', rfl, table, by decide, ?_, modules,
    e, alone, whole⟩
  rw [modules]
  decide

end Circuitry
