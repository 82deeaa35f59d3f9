import Circuitry.Proofs.Scopes
import Mathlib.Data.List.Perm.Basic

namespace Circuitry

namespace Item

def trails : Path × Item → List Path
  | (u, .atom _) => [u]
  | (u, .module _ fs) => u :: (Block.fieldPorts fs).map fun x => u ++ x.1

theorem trails_cons (name : String) (x : Path × Item) :
    trails (name :: x.1, x.2) = (trails x).map (name :: ·) := by
  obtain ⟨u, a | ⟨c, fs⟩⟩ := x <;> simp [trails]

theorem ports_sublist (xs : List (Path × Item)) :
    ((xs.flatMap ports).map Prod.fst).Sublist (xs.map Prod.fst) := by
  induction xs with
  | nil => simp
  | cons x xs ih =>
    obtain ⟨u, a | ⟨c, fs⟩⟩ := x
    · cases h : a.kind.isParameter
      · simpa [ports, h] using ih.cons u
      · simpa [ports, h] using ih
    · simpa [ports] using ih.cons u

end Item

namespace Block

variable {fs : List (Field × Block)}

theorem fieldPorts_sublist (fs : List (Field × Block)) :
    ((fieldPorts fs).map Prod.fst).Sublist (fieldPlaces fs) :=
  (Item.ports_sublist _).trans (fieldItems_sublist fs)

theorem trails_sublist (fs : List (Field × Block)) :
    ((fieldItems fs).flatMap Item.trails).Sublist (fieldPlaces fs) := by
  induction fs using induction_boundaries with
  | nil => simp
  | atom f a fs ih =>
    rw [fieldItems_atom]
    exact ih.cons_cons _
  | scope f c inner fs hc ihInner ih =>
    rw [fieldItems_scope hc, List.flatMap_cons]
    have := ((fieldPorts_sublist inner).map (f.label :: ·)).cons_cons [f.label]
    rw [List.map_map] at this
    exact this.append ih
  | group f c inner fs hc ihInner ih =>
    rw [fieldItems_group hc, List.flatMap_append, List.flatMap_map]
    simp only [Item.trails_cons, ← List.map_flatMap]
    exact ((ihInner.map (f.label :: ·)).cons [f.label]).append ih

theorem ne_nil_of_mem_fieldPorts {x : Path × Atom} (h : x ∈ fieldPorts fs) : x.1 ≠ [] := fun hnil =>
  nil_not_mem_fieldPlaces fs (hnil ▸ (fieldPorts_sublist fs).mem (List.mem_map_of_mem h))

end Block

namespace Scope

theorem names_eq (key : String) {fs : List (Field × Block)} {x : Path × Item}
    (h : x ∈ Block.fieldItems fs) :
    (Item.instances key x).map (·.name) ++ (Item.declarations x).map (·.name) =
      (Item.trails x).map Path.flat := by
  have hx := Block.ne_nil_of_mem_fieldItems h
  obtain ⟨u, a | ⟨c, inner⟩⟩ := x
  · rfl
  · simp only [Item.instances, Item.declarations, Item.trails, List.map_cons, List.map_nil,
      List.map_map, List.singleton_append, List.cons.injEq, true_and]
    apply List.map_congr_left
    intro port hport
    exact (Path.flat_append hx (Block.ne_nil_of_mem_fieldPorts hport)).symm

theorem nodup_names (top : String) {s : Scope} (hnames : Block.fieldsWellNamed s.fields = true) :
    ((s.entry top).instances.map (·.name) ++ (s.entry top).atoms.map (·.name)).Nodup := by
  have trails := (Block.nodup_fieldPlaces hnames).sublist (Block.trails_sublist s.fields)
  have segments (u : Path) (hu : u ∈ (Block.fieldItems s.fields).flatMap Item.trails) :=
    Block.isSegment_of_mem_fieldPlaces hnames u ((Block.trails_sublist s.fields).mem hu)
  have names : (s.items.flatMap fun x => (Item.instances (s.key top) x).map (·.name) ++
      (Item.declarations x).map (·.name)) = (s.items.flatMap Item.trails).map Path.flat := by
    rw [List.map_flatMap]
    exact List.flatMap_congr fun x hx => names_eq _ hx
  rw [instances_entry, atoms_entry, List.map_flatMap, List.map_flatMap,
    (List.flatMap_append_perm _ _ _).nodup_iff, names]
  exact trails.map_on fun u hu v hv same => Path.flat_injective (segments u hu) (segments v hv) same

end Scope

namespace Block

variable {root : Block} {top : String} {t : Table}

theorem empty_not_mem_keys (htop : top ≠ "") : "" ∉ root.scopes.map (·.key top) := by
  intro h
  obtain ⟨s, -, hs⟩ := List.mem_map.mp h
  by_cases hnil : s.trail = []
  · exact htop (by simpa [Scope.key, hnil] using hs)
  · have := Path.length_flat_cons top hnil
    change Path.flat (top :: s.trail) = "" at hs
    simp [hs] at this

theorem keys_perm (hroot : root.isScope = true) (hnames : root.wellNamed = true)
    (htop : top ≠ "") (h : root.table top = .ok t) :
    t.keys.Perm ("" :: root.scopes.map (·.key top)) := by
  have left : t.keys.Nodup := t.ordered.imp String.ne_of_lt
  have right := List.nodup_cons.mpr ⟨empty_not_mem_keys htop, nodup_scope_keys hroot hnames htop⟩
  rw [List.perm_ext_iff_of_nodup left right]
  intro key
  rw [List.mem_cons]
  exact mem_table_keys hroot hnames htop h key

theorem exists_scope_of_get? (hroot : root.isScope = true) (hnames : root.wellNamed = true)
    (htop : top ≠ "") (h : root.table top = .ok t) {key : String} {e : Entry} (hkey : key ≠ "")
    (he : t.get? key = some e) : ∃ s ∈ root.scopes, key = s.key top ∧ e = s.entry top := by
  have mem := (mem_table_keys hroot hnames htop h key).mp ((mem_keys_iff t key).mpr ⟨e, he⟩)
  obtain ⟨s, hs, rfl⟩ := List.mem_map.mp (mem.resolve_left hkey)
  refine ⟨s, hs, rfl, ?_⟩
  rw [get?_scope_key hroot hnames htop h hs] at he
  exact (Option.some.inj he).symm

/-- Scopes have different keys and entries of their own, and the names in an entry are different. -/
theorem names_distinct (root : Block) (top : String) (hroot : root.isScope = true)
    (hnames : root.wellNamed = true) (htop : top ≠ "") (t : Table) (h : root.table top = .ok t) :
    (root.scopes.map (·.key top)).Nodup ∧
      t.keys.Perm ("" :: root.scopes.map (·.key top)) ∧
      t.keys.length = root.scopes.length + 1 ∧
      (∀ s ∈ root.scopes, ∃ e, t.get? (s.key top) = some e ∧ e.code = s.code) ∧
      ∀ key e, key ≠ "" → t.get? key = some e →
        (e.atoms.map (·.name)).Nodup ∧ (e.instances.map (·.name)).Nodup ∧
          ∀ i ∈ e.instances, ∀ a ∈ e.atoms, i.name ≠ a.name := by
  have perm := keys_perm hroot hnames htop h
  refine ⟨nodup_scope_keys hroot hnames htop, perm, by simpa using perm.length_eq, ?_, ?_⟩
  · intro s hs
    exact ⟨_, get?_scope_key hroot hnames htop h hs, s.code_entry top⟩
  · intro key e hkey he
    obtain ⟨s, hs, rfl, rfl⟩ := exists_scope_of_get? hroot hnames htop h hkey he
    have names := Scope.nodup_names top (wellNamed_of_mem_scopes hroot hnames hs)
    obtain ⟨instances, atoms, disjoint⟩ := List.nodup_append.mp names
    exact ⟨atoms, instances, fun i hi a ha =>
      disjoint _ (List.mem_map_of_mem hi) _ (List.mem_map_of_mem ha)⟩

theorem names_distinct_sample :
    sample.isScope = true ∧ sample.wellNamed = true ∧
      sample.scopes.map (·.key "a$b") = ["a$b", "a$b$g$m"] ∧
      ∃ t, sample.table "a$b" = .ok t ∧ t.keys.length = 3 ∧
        ∀ key e, key ≠ "" → t.get? key = some e → (e.atoms.map (·.name)).Nodup := by
  refine ⟨by decide, by decide, by decide, _, rfl, ?_⟩
  have h := names_distinct sample "a$b" (by decide) (by decide) (by decide) _ rfl
  exact ⟨h.2.2.1, fun key e hkey he => (h.2.2.2.2 key e hkey he).1⟩

end Block

end Circuitry
