import Circuitry.Proofs.Walk
import Circuitry.Path

namespace Circuitry

namespace Path

theorem splitOn_flat {u : Path} (hnil : u ≠ []) (hu : ∀ s ∈ u, IsSegment s) :
    (flat u).toList.splitOn '$' = u.map String.toList := by
  rw [flat, flatWith, String.toList_intercalate]
  apply List.splitOn_intercalate
  · intro l hl
    obtain ⟨s, hs, rfl⟩ := List.mem_map.mp hl
    exact (hu s hs).2
  · simpa using hnil

theorem flat_injective {u v : Path} (hu : ∀ s ∈ u, IsSegment s) (hv : ∀ s ∈ v, IsSegment s)
    (h : flat u = flat v) : u = v := by
  by_cases hnil : u = []
  · subst hnil
    exact ((flat_eq_empty_iff (ne_empty_of_segments hv)).mp (by simpa using h.symm)).symm
  · have hnil' : v ≠ [] := by
      rintro rfl
      exact hnil ((flat_eq_empty_iff (ne_empty_of_segments hu)).mp (by simpa using h))
    have pieces : u.map String.toList = v.map String.toList := by
      rw [← splitOn_flat hnil hu, h, splitOn_flat hnil' hv]
    exact List.map_inj_right (fun _ _ => String.toList_injective) |>.mp pieces

theorem length_flat_cons (name : String) {u : Path} (h : u ≠ []) :
    name.length < (flat (name :: u)).length := by
  rw [flat_cons h]
  simp only [String.length_append]
  have : "$".length = 1 := rfl
  omega

theorem flat_cons_injective {name : String} {u v : Path} (hu : ∀ s ∈ u, IsSegment s)
    (hv : ∀ s ∈ v, IsSegment s) (h : flat (name :: u) = flat (name :: v)) : u = v := by
  by_cases hnil : u = [] <;> by_cases hnil' : v = []
  · rw [hnil, hnil']
  · have := length_flat_cons name hnil'
    simp [← h, hnil] at this
  · have := length_flat_cons name hnil
    simp [h, hnil'] at this
  · rw [flat_cons hnil, flat_cons hnil'] at h
    exact flat_injective hu hv (by simpa using h)

theorem qualify_eq_flat {group : Path} (h : ∀ s ∈ group, s ≠ "") (name : String) :
    group.qualify name = flat (group ++ [name]) := by
  by_cases hnil : group = []
  · simp [hnil]
  · have : flat group ≠ "" := mt (flat_eq_empty_iff h).mp hnil
    simp [qualify, join, this, flat_append hnil]

@[simp] theorem parent_concat (path : Path) (name : String) : parent (path ++ [name]) = flat path := by
  simp [parent, pop]

@[simp] theorem last_concat (path : Path) (name : String) : last (path ++ [name]) = name := by
  simp [last]

/-- Where a walk of a well-named circuit can stand: in a module, whose key is longer than that of the
module around it, and in groups with proper names. -/
structure Standing (path group : Path) : Prop where
  entered : path ≠ []
  parent_lt : (parent path).length < (flat path).length
  segments : ∀ s ∈ group, IsSegment s

namespace Standing

variable {path group : Path} {name : String}

theorem named (h : Standing path group) : ∀ s ∈ group, s ≠ "" := ne_empty_of_segments h.segments

theorem top (h : name ≠ "") : Standing [name] [] where
  entered := by simp
  parent_lt := by
    simpa [parent, pop, Nat.pos_iff_ne_zero] using h
  segments := by simp

theorem flat_enter (h : Standing path group) (name : String) :
    flat (path ++ [group.qualify name]) = flat (flat path :: (group ++ [name])) := by
  rw [flat_append h.entered (by simp), flat_singleton, qualify_eq_flat h.named,
    flat_cons (by simp)]

theorem enter (h : Standing path group) (name : String) :
    Standing (path ++ [group.qualify name]) [] where
  entered := by simp
  parent_lt := by
    rw [parent_concat, h.flat_enter]
    exact length_flat_cons _ (by simp)
  segments := by simp

theorem openGroup (h : Standing path group) (hname : IsSegment name) :
    Standing path (group ++ [name]) where
  entered := h.entered
  parent_lt := h.parent_lt
  segments := isSegment_of_mem_concat h.segments hname

theorem parent_ne (h : Standing path group) : parent path ≠ flat path := by
  intro same
  have := h.parent_lt
  simp [same] at this

end Standing

end Path

namespace Block

mutual

/-- Below the block every name is a segment, and the names of siblings differ. -/
def wellNamed : Block → Bool
  | .atom _ => true
  | .composite _ fs => fieldsWellNamed fs

def fieldsWellNamed : List (Field × Block) → Bool
  | [] => true
  | (f, b) :: fs =>
    decide (Path.IsSegment f.label ∧ f.label ∉ fs.map (·.1.label)) && b.wellNamed
      && fieldsWellNamed fs

end

theorem fieldsWellNamed_cons {f : Field} {b : Block} {fs : List (Field × Block)} :
    fieldsWellNamed ((f, b) :: fs) = true ↔
      Path.IsSegment f.label ∧ f.label ∉ fs.map (·.1.label) ∧ b.wellNamed = true ∧
        fieldsWellNamed fs = true := by
  simp only [fieldsWellNamed, Bool.and_eq_true, decide_eq_true_eq, and_assoc]

mutual

def places : Block → List Path
  | .atom _ => [[]]
  | .composite _ fs => [] :: fieldPlaces fs

def fieldPlaces : List (Field × Block) → List Path
  | [] => []
  | (f, b) :: fs => b.places.map (f.label :: ·) ++ fieldPlaces fs

end

theorem exists_label_of_mem_fieldPlaces {fs : List (Field × Block)} {u : Path}
    (h : u ∈ fieldPlaces fs) : ∃ label ∈ fs.map (·.1.label), ∃ rest, u = label :: rest := by
  induction fs with
  | nil => simp [fieldPlaces] at h
  | cons field fs ih =>
    rcases List.mem_append.mp h with h | h
    · obtain ⟨rest, -, rfl⟩ := List.mem_map.mp h
      exact ⟨field.1.label, by simp, rest, rfl⟩
    · obtain ⟨label, hlabel, rest⟩ := ih h
      exact ⟨label, List.mem_cons_of_mem _ hlabel, rest⟩

theorem nil_not_mem_fieldPlaces (fs : List (Field × Block)) : [] ∉ fieldPlaces fs := by
  intro h
  obtain ⟨_, -, _, same⟩ := exists_label_of_mem_fieldPlaces h
  cases same

theorem nodup_fieldPlaces_cons {f : Field} {b : Block} {fs : List (Field × Block)}
    (hf : f.label ∉ fs.map (·.1.label)) (hb : b.places.Nodup) (hfs : (fieldPlaces fs).Nodup) :
    (fieldPlaces ((f, b) :: fs)).Nodup := by
  rw [fieldPlaces, List.nodup_append]
  refine ⟨List.Pairwise.map _ (fun _ _ ne same => ne (List.cons_inj_right f.label |>.mp same)) hb,
    hfs, ?_⟩
  rintro u hu v hv rfl
  obtain ⟨rest, -, rfl⟩ := List.mem_map.mp hu
  obtain ⟨label, hlabel, _, same⟩ := exists_label_of_mem_fieldPlaces hv
  exact hf ((List.cons.inj same).1 ▸ hlabel)

theorem nodup_fieldPlaces {fs : List (Field × Block)} (h : fieldsWellNamed fs = true) :
    (fieldPlaces fs).Nodup := by
  induction fs using induction_fields with
  | nil => simp [fieldPlaces]
  | atom f a fs ih =>
    obtain ⟨-, hf, -, hfs⟩ := fieldsWellNamed_cons.mp h
    exact nodup_fieldPlaces_cons hf (by simp [places]) (ih hfs)
  | composite f c inner fs ihInner ih =>
    obtain ⟨-, hf, hinner, hfs⟩ := fieldsWellNamed_cons.mp h
    have : (places (.composite c inner)).Nodup :=
      List.nodup_cons.mpr ⟨nil_not_mem_fieldPlaces inner, ihInner (by simpa [wellNamed] using hinner)⟩
    exact nodup_fieldPlaces_cons hf this (ih hfs)

theorem isSegment_of_mem_fieldPlaces {fs : List (Field × Block)} (h : fieldsWellNamed fs = true) :
    ∀ u ∈ fieldPlaces fs, ∀ s ∈ u, Path.IsSegment s := by
  induction fs using induction_fields with
  | nil => simp [fieldPlaces]
  | atom f a fs ih =>
    obtain ⟨hf, -, -, hfs⟩ := fieldsWellNamed_cons.mp h
    simp only [fieldPlaces, places, List.map_cons, List.map_nil, List.singleton_append,
      List.forall_mem_cons]
    exact ⟨⟨hf, by simp⟩, ih hfs⟩
  | composite f c inner fs ihInner ih =>
    obtain ⟨hf, -, hinner, hfs⟩ := fieldsWellNamed_cons.mp h
    intro u hu
    rcases List.mem_append.mp hu with hu | hu
    · obtain ⟨rest, hrest, rfl⟩ := List.mem_map.mp hu
      rcases List.mem_cons.mp hrest with rfl | hrest
      · simpa using hf
      · exact List.forall_mem_cons.mpr
          ⟨hf, ihInner (by simpa [wellNamed] using hinner) rest hrest⟩
    · exact ih hfs u hu

end Block

end Circuitry
