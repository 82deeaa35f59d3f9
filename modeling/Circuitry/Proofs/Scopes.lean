import Circuitry.Proofs.Names
import Circuitry.Proofs.Records
import Mathlib.Data.List.Nodup

namespace Circuitry

inductive Item where
  | atom (a : Atom)
  | module (c : Composite) (fs : List (Field × Block))

/-- An occurrence of a module, with the names that lead to it. -/
structure Scope where
  trail : Path
  composite : Composite
  fields : List (Field × Block)

def Scope.below (name : String) (s : Scope) : Scope := { s with trail := name :: s.trail }

def Scope.block (s : Scope) : Block := .composite s.composite s.fields

namespace Block

mutual

def items : Block → List (Path × Item)
  | .atom a => [([], .atom a)]
  | .composite c fs =>
    match c.boundary with
    | .scope => [([], .module c fs)]
    | .group => fieldItems fs

def fieldItems : List (Field × Block) → List (Path × Item)
  | [] => []
  | (f, b) :: fs => b.items.map (fun x => (f.label :: x.1, x.2)) ++ fieldItems fs

end

mutual

def scopes : Block → List Scope
  | .atom _ => []
  | .composite c fs =>
    match c.boundary with
    | .scope => ⟨[], c, fs⟩ :: fieldScopes fs
    | .group => fieldScopes fs

def fieldScopes : List (Field × Block) → List Scope
  | [] => []
  | (f, b) :: fs => b.scopes.map (·.below f.label) ++ fieldScopes fs

end

def isScope : Block → Bool
  | .atom _ => false
  | .composite c _ => c.boundary = .scope

end Block

namespace Item

/-- What an item of the module `inst` adds to the module around that. -/
def portNotes (inst : String) : Path × Item → List Note
  | (v, .atom a) =>
    (if a.kind.isParameter then [.atom ((a.declaration v.flat).stub inst)] else [])
      ++ a.descriptor.constants.map .enums
  | (_, .module ..) => []

def notes (key : String) : Path × Item → List Note
  | (u, .atom a) => a.descriptor.constants.map .enums ++ [.atom (a.declaration u.flat)]
  | (u, .module _ fs) =>
    .inst ⟨u.flat, Path.flat (key :: u)⟩ :: (Block.fieldItems fs).flatMap (portNotes u.flat)

end Item

namespace Scope

def key (top : String) (s : Scope) : String := Path.flat (top :: s.trail)

def code (s : Scope) : Code := s.composite.code.getD .empty

def items (s : Scope) : List (Path × Item) := Block.fieldItems s.fields

def notes (key : String) (s : Scope) : List Note := .code s.code :: s.items.flatMap (Item.notes key)

def entry (top : String) (s : Scope) : Entry := ({} : Entry).extend (s.notes (s.key top))

@[simp] theorem notes_below (key name : String) (s : Scope) :
    (s.below name).notes key = s.notes key := rfl

end Scope

section Notes

@[simp] theorem notes_nil (key : String) : notes key [] = [] := rfl

theorem notes_append (key : String) (rs rs' : List (String × Note)) :
    notes key (rs ++ rs') = notes key rs ++ notes key rs' := by
  simp [notes]

theorem notes_cons (key k : String) (n : Note) (rs : List (String × Note)) :
    notes key ((k, n) :: rs) = (if k = key then [n] else []) ++ notes key rs := by
  by_cases h : k = key <;> simp [notes, h]

theorem notes_cons_self (key : String) (n : Note) (rs : List (String × Note)) :
    notes key ((key, n) :: rs) = n :: notes key rs := by
  simp [notes_cons]

theorem notes_cons_of_ne {key k : String} (h : k ≠ key) (n : Note) (rs : List (String × Note)) :
    notes key ((k, n) :: rs) = notes key rs := by
  simp [notes_cons, h]

theorem notes_eq_nil {key : String} {rs : List (String × Note)} (h : ∀ r ∈ rs, r.1 ≠ key) :
    notes key rs = [] := by
  simpa [notes] using h

theorem notes_enums (key k : String) (cs : List (List EnumConstant)) :
    notes key (cs.map fun c => (k, .enums c)) = if k = key then cs.map .enums else [] := by
  induction cs with
  | nil => simp [notes]
  | cons c cs ih =>
    rw [List.map_cons]
    by_cases h : k = key
    · subst h
      rw [notes_cons_self, ih]
      simp
    · rw [notes_cons_of_ne h, ih, if_neg h]
      simp [h]

theorem notes_records (key : String) (a : Atom) (path : Path) (name : String) :
    notes key (a.records path name) =
      (if path.parent = key then
          if a.kind.isParameter then [.atom ((a.declaration name).stub path.last)] else []
        else [])
        ++ (if path.flat = key then a.descriptor.constants.map .enums else [])
        ++ (if path.parent = key then a.descriptor.constants.map .enums else [])
        ++ if path.flat = key then [.atom (a.declaration name)] else [] := by
  have port (n : Note) : notes key (if a.kind.isParameter then [(path.parent, n)] else []) =
      if path.parent = key then if a.kind.isParameter then [n] else [] else [] := by
    cases a.kind.isParameter <;> simp [notes_cons]
  simp only [Atom.records, notes_append, notes_enums, port, notes_cons, notes_nil, List.append_nil]
  simp only [Atom.declaration, Declaration.stub, Kind.stub_eq]

theorem notes_records_flat {a : Atom} {path : Path} (h : path.parent ≠ path.flat) (name : String) :
    notes path.flat (a.records path name) =
      a.descriptor.constants.map .enums ++ [.atom (a.declaration name)] := by
  simp [notes_records, h]

theorem notes_records_parent {a : Atom} {path : Path} (h : path.parent ≠ path.flat) (name : String) :
    notes path.parent (a.records path name) =
      (if a.kind.isParameter then [.atom ((a.declaration name).stub path.last)] else [])
        ++ a.descriptor.constants.map .enums := by
  simp [notes_records, h.symm]

end Notes

namespace Block

variable {path group : Path} {fs : List (Field × Block)}

section Equations

variable {f : Field} {c : Composite} {inner : List (Field × Block)}

@[simp] theorem fieldRecords_nil : fieldRecords path group [] = [] := rfl

@[simp] theorem fieldItems_nil : fieldItems [] = [] := rfl

@[simp] theorem fieldScopes_nil : fieldScopes [] = [] := rfl

theorem fieldItems_eq (fs : List (Field × Block)) :
    fieldItems fs = fs.flatMap fun x => x.2.items.map fun y => (x.1.label :: y.1, y.2) := by
  induction fs with
  | nil => rfl
  | cons x fs ih => rw [fieldItems, ih, List.flatMap_cons]

theorem fieldScopes_eq (fs : List (Field × Block)) :
    fieldScopes fs = fs.flatMap fun x => x.2.scopes.map (·.below x.1.label) := by
  induction fs with
  | nil => rfl
  | cons x fs ih => rw [fieldScopes, ih, List.flatMap_cons]

theorem fieldRecords_atom (a : Atom) :
    fieldRecords path group ((f, .atom a) :: fs) =
      a.records path (group.qualify f.label) ++ fieldRecords path group fs := by
  simp [fieldRecords, records]

theorem fieldRecords_scope (hc : c.boundary = .scope) :
    fieldRecords path group ((f, .composite c inner) :: fs) =
      (path.flat, .inst ⟨group.qualify f.label, Path.flat (path ++ [group.qualify f.label])⟩)
        :: (Path.flat (path ++ [group.qualify f.label]), .code (c.code.getD .empty))
        :: fieldRecords (path ++ [group.qualify f.label]) [] inner
        ++ fieldRecords path group fs := by
  simp [fieldRecords, records, hc]

theorem fieldRecords_group (hc : c.boundary = .group) :
    fieldRecords path group ((f, .composite c inner) :: fs) =
      fieldRecords path (group ++ [f.label]) inner ++ fieldRecords path group fs := by
  simp [fieldRecords, records, hc]

theorem fieldItems_atom (a : Atom) :
    fieldItems ((f, .atom a) :: fs) = ([f.label], .atom a) :: fieldItems fs := by
  simp [fieldItems, items]

theorem fieldItems_scope (hc : c.boundary = .scope) :
    fieldItems ((f, .composite c inner) :: fs) = ([f.label], .module c inner) :: fieldItems fs := by
  simp [fieldItems, items, hc]

theorem fieldItems_group (hc : c.boundary = .group) :
    fieldItems ((f, .composite c inner) :: fs) =
      (fieldItems inner).map (fun x => (f.label :: x.1, x.2)) ++ fieldItems fs := by
  simp [fieldItems, items, hc]

theorem fieldScopes_atom (a : Atom) : fieldScopes ((f, .atom a) :: fs) = fieldScopes fs := by
  simp [fieldScopes, scopes]

theorem fieldScopes_scope (hc : c.boundary = .scope) :
    fieldScopes ((f, .composite c inner) :: fs) =
      ⟨[f.label], c, inner⟩ :: (fieldScopes inner).map (·.below f.label) ++ fieldScopes fs := by
  simp [fieldScopes, scopes, hc, Scope.below]

theorem fieldScopes_group (hc : c.boundary = .group) :
    fieldScopes ((f, .composite c inner) :: fs) =
      (fieldScopes inner).map (·.below f.label) ++ fieldScopes fs := by
  simp [fieldScopes, scopes, hc]

def fieldKeys (path group : Path) (fs : List (Field × Block)) : List String :=
  (fieldScopes fs).map fun s => Path.flat (path.flat :: (group ++ s.trail))

theorem fieldKeys_atom (a : Atom) :
    fieldKeys path group ((f, .atom a) :: fs) = fieldKeys path group fs := by
  simp [fieldKeys, fieldScopes_atom]

theorem fieldKeys_scope (hc : c.boundary = .scope) (hp : Path.Standing path group) :
    fieldKeys path group ((f, .composite c inner) :: fs) =
      Path.flat (path ++ [group.qualify f.label])
        :: fieldKeys (path ++ [group.qualify f.label]) [] inner ++ fieldKeys path group fs := by
  simp [fieldKeys, fieldScopes_scope hc, Scope.below, hp.flat_enter, Path.flat_flat_cons]

theorem fieldKeys_group (hc : c.boundary = .group) :
    fieldKeys path group ((f, .composite c inner) :: fs) =
      fieldKeys path (group ++ [f.label]) inner ++ fieldKeys path group fs := by
  simp [fieldKeys, fieldScopes_group hc, Scope.below]

end Equations

theorem key_of_mem_records {a : Atom} {name : String} {r : String × Note}
    (h : r ∈ a.records path name) : r.1 = path.parent ∨ r.1 = path.flat := by
  simp only [Atom.records, List.mem_append] at h
  rcases h with ((h | h) | h) | h
  · split at h <;> simp_all
  all_goals simp at h; grind

theorem key_of_mem_fieldRecords (hnames : fieldsWellNamed fs = true) (hp : Path.Standing path group)
    {r : String × Note} (h : r ∈ fieldRecords path group fs) :
    r.1 = path.parent ∨ r.1 = path.flat ∨ r.1 ∈ fieldKeys path group fs := by
  induction fs using induction_boundaries generalizing path group with
  | nil => simp [fieldRecords] at h
  | atom f a fs ih =>
    obtain ⟨-, -, -, hfs⟩ := fieldsWellNamed_cons.mp hnames
    rw [fieldRecords_atom] at h
    rw [fieldKeys_atom]
    rcases List.mem_append.mp h with h | h
    · exact (key_of_mem_records h).imp_right .inl
    · exact ih hfs hp h
  | scope f c inner fs hc ihInner ih =>
    obtain ⟨-, -, hinner, hfs⟩ := fieldsWellNamed_cons.mp hnames
    rw [fieldRecords_scope hc, List.mem_append] at h
    rw [fieldKeys_scope hc hp]
    rcases h with h | h
    · rcases List.mem_cons.mp h with rfl | h
      · exact .inr (.inl rfl)
      · rcases List.mem_cons.mp h with rfl | h
        · simp
        · have := ihInner hinner (hp.enter f.label) h
          rw [Path.parent_concat] at this
          grind
    · have := ih hfs hp h
      grind
  | group f c inner fs hc ihInner ih =>
    obtain ⟨hf, -, hinner, hfs⟩ := fieldsWellNamed_cons.mp hnames
    rw [fieldRecords_group hc] at h
    rw [fieldKeys_group hc]
    rcases List.mem_append.mp h with h | h
    · have := ihInner hinner (hp.openGroup hf) h
      grind
    · have := ih hfs hp h
      grind

theorem map_trail_below (name : String) (ss : List Scope) :
    (ss.map (·.below name)).map Scope.trail = (ss.map Scope.trail).map (name :: ·) := by
  simp [Scope.below]

theorem fieldScopes_sublist (fs : List (Field × Block)) :
    ((fieldScopes fs).map Scope.trail).Sublist (fieldPlaces fs) := by
  induction fs using induction_boundaries with
  | nil => simp [fieldScopes]
  | atom f a fs ih =>
    rw [fieldScopes_atom]
    exact ih.cons _
  | scope f c inner fs hc ihInner ih =>
    rw [fieldScopes_scope hc, List.map_append, List.map_cons, map_trail_below]
    exact ((ihInner.map (f.label :: ·)).cons_cons [f.label]).append ih
  | group f c inner fs hc ihInner ih =>
    rw [fieldScopes_group hc, List.map_append, map_trail_below]
    exact ((ihInner.map (f.label :: ·)).cons [f.label]).append ih

theorem fieldItems_sublist (fs : List (Field × Block)) :
    ((fieldItems fs).map Prod.fst).Sublist (fieldPlaces fs) := by
  induction fs using induction_boundaries with
  | nil => simp [fieldItems]
  | atom f a fs ih =>
    rw [fieldItems_atom]
    exact ih.cons_cons _
  | scope f c inner fs hc ihInner ih =>
    rw [fieldItems_scope hc]
    exact (List.Sublist.cons_cons [f.label] (List.nil_sublist _)).append ih
  | group f c inner fs hc ihInner ih =>
    rw [fieldItems_group hc, List.map_append, List.map_map]
    have := (ihInner.map (f.label :: ·)).cons [f.label]
    rw [List.map_map] at this
    exact this.append ih

theorem ne_nil_of_mem_fieldItems {x : Path × Item} (h : x ∈ fieldItems fs) : x.1 ≠ [] := fun hnil =>
  nil_not_mem_fieldPlaces fs (hnil ▸ (fieldItems_sublist fs).mem (List.mem_map_of_mem h))

theorem trail_mem_fieldPlaces {s : Scope} (h : s ∈ fieldScopes fs) : s.trail ∈ fieldPlaces fs :=
  (fieldScopes_sublist fs).mem (List.mem_map_of_mem h)

theorem cons_of_mem_fieldScopes {P : List (Field × Block) → Prop}
    (tail : ∀ f b fs, P ((f, b) :: fs) → P fs)
    (inside : ∀ f c inner fs, P ((f, .composite c inner) :: fs) → P inner) (h : P fs) {s : Scope}
    (hs : s ∈ fieldScopes fs) :
    s.composite.boundary = .scope ∧ ∃ f gs, P ((f, s.block) :: gs) := by
  induction fs using induction_boundaries generalizing s with
  | nil => simp at hs
  | atom f a fs ih => exact ih (tail _ _ _ h) (fieldScopes_atom a ▸ hs)
  | scope f c inner fs hc ihInner ih =>
    rw [fieldScopes_scope hc] at hs
    rcases List.mem_append.mp hs with hs | hs
    · rcases List.mem_cons.mp hs with rfl | hs
      · exact ⟨hc, f, fs, h⟩
      · obtain ⟨s, hin, rfl⟩ := List.mem_map.mp hs
        have := ihInner (inside _ _ _ _ h) hin
        exact this
    · exact ih (tail _ _ _ h) hs
  | group f c inner fs hc ihInner ih =>
    rw [fieldScopes_group hc] at hs
    rcases List.mem_append.mp hs with hs | hs
    · obtain ⟨s, hin, rfl⟩ := List.mem_map.mp hs
      have := ihInner (inside _ _ _ _ h) hin
      exact this
    · exact ih (tail _ _ _ h) hs

theorem of_mem_fieldScopes {P : List (Field × Block) → Prop}
    (tail : ∀ f b fs, P ((f, b) :: fs) → P fs)
    (inside : ∀ f c inner fs, P ((f, .composite c inner) :: fs) → P inner) (h : P fs) {s : Scope}
    (hs : s ∈ fieldScopes fs) : P s.fields := by
  obtain ⟨-, f, gs, found⟩ := cons_of_mem_fieldScopes tail inside h hs
  exact inside f s.composite s.fields gs found

theorem wellNamed_of_mem_fieldScopes (hnames : fieldsWellNamed fs = true) {s : Scope}
    (hs : s ∈ fieldScopes fs) : fieldsWellNamed s.fields = true := by
  refine of_mem_fieldScopes (P := fun gs => fieldsWellNamed gs = true) ?_ ?_ hnames hs
  · intro f b gs h
    exact (fieldsWellNamed_cons.mp h).2.2.2
  · intro f c inner gs h
    exact (fieldsWellNamed_cons.mp h).2.2.1

theorem leaves_of_mem_fieldScopes {s : Scope} (hs : s ∈ fieldScopes fs) :
    fieldLeaves s.fields ⊆ fieldLeaves fs := by
  refine of_mem_fieldScopes (P := fun gs => fieldLeaves gs ⊆ fieldLeaves fs) ?_ ?_ (fun _ h => h) hs
  · intro f b gs h a ha
    exact h (List.mem_append_right _ ha)
  · intro f c inner gs h a ha
    exact h (List.mem_append_left _ ha)

theorem mem_fieldLeaves_of_item {u : Path} {a : Atom} (h : (u, .atom a) ∈ fieldItems fs) :
    a ∈ fieldLeaves fs := by
  induction fs using induction_boundaries generalizing u with
  | nil => simp at h
  | atom f b fs ih =>
    rw [fieldItems_atom] at h
    rcases List.mem_cons.mp h with same | h
    · cases same
      exact List.mem_append_left _ (by simp [leaves])
    · exact List.mem_append_right _ (ih h)
  | scope f c inner fs hc ihInner ih =>
    rw [fieldItems_scope hc] at h
    rcases List.mem_cons.mp h with same | h
    · cases same
    · exact List.mem_append_right _ (ih h)
  | group f c inner fs hc ihInner ih =>
    rw [fieldItems_group hc] at h
    rcases List.mem_append.mp h with h | h
    · obtain ⟨x, hx, same⟩ := List.mem_map.mp h
      obtain ⟨v, i⟩ := x
      cases same
      exact List.mem_append_left _ (ihInner hx)
    · exact List.mem_append_right _ (ih h)

theorem length_lt_of_mem_fieldKeys {key : String} (h : key ∈ fieldKeys path group fs) :
    path.flat.length < key.length := by
  obtain ⟨s, hs, rfl⟩ := List.mem_map.mp h
  have : s.trail ≠ [] := fun hnil => nil_not_mem_fieldPlaces fs (hnil ▸ trail_mem_fieldPlaces hs)
  exact Path.length_flat_cons _ (by simp [this])

theorem notes_eq_nil_of_ne {key : String} (hnames : fieldsWellNamed fs = true)
    (hp : Path.Standing path group) (hparent : key ≠ path.parent) (hflat : key ≠ path.flat)
    (hkeys : key ∉ fieldKeys path group fs) : notes key (fieldRecords path group fs) = [] := by
  apply notes_eq_nil
  rintro r hr rfl
  rcases key_of_mem_fieldRecords hnames hp hr with h | h | h
  · exact hparent h
  · exact hflat h
  · exact hkeys h

theorem notes_parent_fieldRecords (hnames : fieldsWellNamed fs = true)
    (hp : Path.Standing path group) :
    notes path.parent (fieldRecords path group fs) =
      (fieldItems fs).flatMap fun x => Item.portNotes path.last (group ++ x.1, x.2) := by
  induction fs using induction_boundaries generalizing path group with
  | nil => simp [fieldRecords, fieldItems, notes]
  | atom f a fs ih =>
    obtain ⟨-, -, -, hfs⟩ := fieldsWellNamed_cons.mp hnames
    rw [fieldRecords_atom, notes_append, notes_records_parent hp.parent_ne, ih hfs hp,
      fieldItems_atom, Path.qualify_eq_flat hp.named]
    rfl
  | scope f c inner fs hc ihInner ih =>
    obtain ⟨-, -, hinner, hfs⟩ := fieldsWellNamed_cons.mp hnames
    -- All keys below the module are longer than `path.flat`, and that is longer than the parent's.
    have deeper := (hp.enter f.label).parent_lt
    rw [Path.parent_concat] at deeper
    have outer := hp.parent_lt
    rw [fieldRecords_scope hc, notes_append, notes_cons_of_ne hp.parent_ne.symm, notes_cons_of_ne,
      notes_eq_nil_of_ne hinner (hp.enter f.label), ih hfs hp, fieldItems_scope hc]
    · rfl
    · rw [Path.parent_concat]
      exact hp.parent_ne
    · intro same
      rw [← same] at deeper
      omega
    · intro h
      have := length_lt_of_mem_fieldKeys h
      omega
    · intro same
      rw [same] at deeper
      omega
  | group f c inner fs hc ihInner ih =>
    obtain ⟨hf, -, hinner, hfs⟩ := fieldsWellNamed_cons.mp hnames
    rw [fieldRecords_group hc, notes_append, ihInner hinner (hp.openGroup hf), ih hfs hp,
      fieldItems_group hc]
    simp [List.flatMap_map]

theorem notes_scope (hp : Path.Standing path group) {f : Field} {inner : List (Field × Block)}
    (hinner : fieldsWellNamed inner = true) :
    notes path.flat (fieldRecords (path ++ [group.qualify f.label]) [] inner) =
      (fieldItems inner).flatMap (Item.portNotes (Path.flat (group ++ [f.label]))) := by
  have := notes_parent_fieldRecords hinner (hp.enter f.label)
  rw [Path.parent_concat, Path.last_concat, Path.qualify_eq_flat hp.named] at this
  rw [Path.qualify_eq_flat hp.named, this]
  rfl

theorem notes_flat_fieldRecords (hnames : fieldsWellNamed fs = true)
    (hp : Path.Standing path group) :
    notes path.flat (fieldRecords path group fs) =
      (fieldItems fs).flatMap fun x => Item.notes path.flat (group ++ x.1, x.2) := by
  induction fs using induction_boundaries generalizing group with
  | nil => simp [fieldRecords, fieldItems, notes]
  | atom f a fs ih =>
    obtain ⟨-, -, -, hfs⟩ := fieldsWellNamed_cons.mp hnames
    rw [fieldRecords_atom, notes_append, notes_records_flat hp.parent_ne, ih hfs hp,
      fieldItems_atom, Path.qualify_eq_flat hp.named]
    rfl
  | scope f c inner fs hc ihInner ih =>
    obtain ⟨-, -, hinner, hfs⟩ := fieldsWellNamed_cons.mp hnames
    have ne : Path.flat (path ++ [group.qualify f.label]) ≠ path.flat := by
      simpa using (hp.enter f.label).parent_ne.symm
    rw [fieldRecords_scope hc, notes_append, notes_cons_self, notes_cons_of_ne ne,
      notes_scope hp hinner, ih hfs hp, fieldItems_scope hc, hp.flat_enter,
      Path.qualify_eq_flat hp.named]
    rfl
  | group f c inner fs hc ihInner ih =>
    obtain ⟨hf, -, hinner, hfs⟩ := fieldsWellNamed_cons.mp hnames
    rw [fieldRecords_group hc, notes_append, ihInner hinner (hp.openGroup hf), ih hfs hp,
      fieldItems_group hc]
    simp [List.flatMap_map]

theorem nodup_fieldKeys (hnames : fieldsWellNamed fs = true) (hp : Path.Standing path group) :
    (fieldKeys path group fs).Nodup := by
  have places := (nodup_fieldPlaces hnames).sublist (fieldScopes_sublist fs)
  have keys : fieldKeys path group fs =
      ((fieldScopes fs).map Scope.trail).map fun u => Path.flat (path.flat :: (group ++ u)) := by
    simp [fieldKeys]
  rw [keys]
  apply List.Nodup.map_on _ places
  intro u hu v hv same
  have segments (w : Path) (hw : w ∈ (fieldScopes fs).map Scope.trail) :
      ∀ s ∈ group ++ w, Path.IsSegment s := by
    intro s hs
    rcases List.mem_append.mp hs with hs | hs
    · exact hp.segments s hs
    · exact isSegment_of_mem_fieldPlaces hnames w ((fieldScopes_sublist fs).mem hw) s hs
  exact List.append_cancel_left (Path.flat_cons_injective (segments u hu) (segments v hv) same)

def Recorded (path group : Path) (fs : List (Field × Block)) : Prop :=
  ∀ s ∈ fieldScopes fs, ∀ key, key = Path.flat (path.flat :: (group ++ s.trail)) →
    notes key (fieldRecords path group fs) = s.notes key

theorem recorded_cons {f : Field} {b : Block} (hnames : fieldsWellNamed ((f, b) :: fs) = true)
    (hp : Path.Standing path group) (head : Recorded path group [(f, b)])
    (tail : Recorded path group fs) : Recorded path group ((f, b) :: fs) := by
  obtain ⟨hf, -, hb, hfs⟩ := fieldsWellNamed_cons.mp hnames
  have hhead : fieldsWellNamed [(f, b)] = true :=
    fieldsWellNamed_cons.mpr ⟨hf, by simp, hb, by simp [fieldsWellNamed]⟩
  have nodup := nodup_fieldKeys hnames hp
  have keys : fieldKeys path group ((f, b) :: fs) =
      fieldKeys path group [(f, b)] ++ fieldKeys path group fs := by
    simp [fieldKeys, fieldScopes]
  have records : fieldRecords path group ((f, b) :: fs) =
      fieldRecords path group [(f, b)] ++ fieldRecords path group fs := by
    simp [fieldRecords]
  have scopes : fieldScopes ((f, b) :: fs) = fieldScopes [(f, b)] ++ fieldScopes fs := by
    simp [fieldScopes]
  rw [keys, List.nodup_append] at nodup
  intro s hs key hkey
  rw [records, notes_append]
  -- The modules of the other part have other keys, so that part adds nothing.
  have absent (gs : List (Field × Block)) (hgs : fieldsWellNamed gs = true)
      (hkey : key ∈ fieldKeys path group ((f, b) :: fs)) (h : key ∉ fieldKeys path group gs) :
      notes key (fieldRecords path group gs) = [] := by
    have deeper := length_lt_of_mem_fieldKeys hkey
    have outer := hp.parent_lt
    apply notes_eq_nil_of_ne hgs hp _ _ h
    · rintro rfl
      omega
    · rintro rfl
      omega
  rcases List.mem_append.mp (scopes ▸ hs) with hs | hs
  · have hin : key ∈ fieldKeys path group [(f, b)] := hkey ▸ List.mem_map_of_mem hs
    rw [head s hs key hkey, absent fs hfs (by simp [keys, hin])
      fun hin' => nodup.2.2 key hin key hin' rfl, List.append_nil]
  · have hin : key ∈ fieldKeys path group fs := hkey ▸ List.mem_map_of_mem hs
    rw [tail s hs key hkey, absent [(f, b)] hhead (by simp [keys, hin])
      fun hin' => nodup.2.2 key hin' key hin rfl, List.nil_append]

theorem recorded_scope {f : Field} {c : Composite} {inner : List (Field × Block)}
    (hc : c.boundary = .scope) (hinner : fieldsWellNamed inner = true)
    (hp : Path.Standing path group)
    (ih : Recorded (path ++ [group.qualify f.label]) [] inner) :
    Recorded path group [(f, .composite c inner)] := by
  intro s hs key hkey
  rw [fieldRecords_scope hc, fieldRecords_nil, List.append_nil]
  rw [fieldScopes_scope hc, fieldScopes_nil, List.append_nil] at hs
  have deeper := (hp.enter f.label).parent_lt
  rw [Path.parent_concat] at deeper
  rcases List.mem_cons.mp hs with rfl | hs
  · have self : key = Path.flat (path ++ [group.qualify f.label]) := by rw [hkey, hp.flat_enter]
    subst self
    rw [notes_cons_of_ne (by rintro same; simp [same] at deeper), notes_cons_self,
      notes_flat_fieldRecords hinner (hp.enter f.label)]
    rfl
  · obtain ⟨s, hin, rfl⟩ := List.mem_map.mp hs
    have below : key = Path.flat (Path.flat (path ++ [group.qualify f.label]) :: ([] ++ s.trail)) := by
      rw [hkey, hp.flat_enter, Path.flat_flat_cons (List.cons_ne_nil _ _)]
      simp [Scope.below]
    have := length_lt_of_mem_fieldKeys (below ▸ List.mem_map_of_mem hin :
      key ∈ fieldKeys (path ++ [group.qualify f.label]) [] inner)
    rw [notes_cons_of_ne (by rintro rfl; omega), notes_cons_of_ne (by rintro rfl; omega),
      ih s hin key below, Scope.notes_below]

theorem recorded_fields (hnames : fieldsWellNamed fs = true) (hp : Path.Standing path group) :
    Recorded path group fs := by
  induction fs using induction_boundaries generalizing path group with
  | nil => simp [Recorded]
  | atom f a fs ih =>
    obtain ⟨-, -, -, hfs⟩ := fieldsWellNamed_cons.mp hnames
    refine recorded_cons hnames hp ?_ (ih hfs hp)
    intro s hs
    simp [fieldScopes_atom] at hs
  | scope f c inner fs hc ihInner ih =>
    obtain ⟨-, -, hinner, hfs⟩ := fieldsWellNamed_cons.mp hnames
    exact recorded_cons hnames hp (recorded_scope hc hinner hp (ihInner hinner (hp.enter f.label)))
      (ih hfs hp)
  | group f c inner fs hc ihInner ih =>
    obtain ⟨hf, -, hinner, hfs⟩ := fieldsWellNamed_cons.mp hnames
    refine recorded_cons hnames hp ?_ (ih hfs hp)
    intro s hs key hkey
    rw [fieldScopes_group hc, fieldScopes_nil, List.append_nil] at hs
    obtain ⟨s, hin, rfl⟩ := List.mem_map.mp hs
    rw [fieldRecords_group hc, fieldRecords_nil, List.append_nil, Scope.notes_below]
    exact ihInner hinner (hp.openGroup hf) s hin key (by simpa [Scope.below] using hkey)

section Root

variable {root : Block} {top : String} {t : Table}

theorem fault_of_table (h : root.table top = .ok t) : (root.walk top).fault = none := by
  rw [table, Script.toExcept] at h
  split at h
  · simp [Except.map] at h
  · assumption

theorem get?_table (h : root.table top = .ok t) (key : String) :
    t.get? key = Entry.after none (notes key (root.records [] [] top)) := by
  have fault := fault_of_table h
  have walked : (({} : Builder).visitAll (root.walk top).steps).table = t := by
    simpa [table, Script.toExcept, fault, Except.map] using h
  rw [← walked, Builder.visitAll_walk _ root top fault]
  exact Table.get?_foldl_record _ _ key

theorem exists_of_isScope (h : root.isScope = true) :
    ∃ c fs, root = .composite c fs ∧ c.boundary = .scope := by
  cases root with
  | atom a => simp [isScope] at h
  | composite c fs => exact ⟨c, fs, rfl, by simpa [isScope] using h⟩

theorem records_root {c : Composite} {fs : List (Field × Block)} (hc : c.boundary = .scope) :
    records [] [] top (.composite c fs) =
      ("", .inst ⟨top, top⟩) :: (top, .code (c.code.getD .empty)) :: fieldRecords [top] [] fs := by
  simp [records, hc]

theorem scopes_root {c : Composite} {fs : List (Field × Block)} (hc : c.boundary = .scope) :
    scopes (.composite c fs) = ⟨[], c, fs⟩ :: fieldScopes fs := by
  simp [scopes, hc]

theorem keys_root {c : Composite} {fs : List (Field × Block)} (hc : c.boundary = .scope) :
    (scopes (.composite c fs)).map (·.key top) = top :: fieldKeys [top] [] fs := by
  simp [scopes_root hc, fieldKeys, Scope.key]

theorem nodup_scope_keys (hroot : root.isScope = true) (hnames : root.wellNamed = true)
    (htop : top ≠ "") : (root.scopes.map (·.key top)).Nodup := by
  obtain ⟨c, fs, rfl, hc⟩ := exists_of_isScope hroot
  rw [keys_root hc, List.nodup_cons]
  refine ⟨fun h => ?_, nodup_fieldKeys hnames (.top htop)⟩
  have := length_lt_of_mem_fieldKeys h
  simp at this

theorem notes_scope_key (hroot : root.isScope = true) (hnames : root.wellNamed = true)
    (htop : top ≠ "") {s : Scope} (hs : s ∈ root.scopes) :
    notes (s.key top) (root.records [] [] top) = s.notes (s.key top) := by
  obtain ⟨c, fs, rfl, hc⟩ := exists_of_isScope hroot
  rw [records_root hc]
  rw [scopes_root hc] at hs
  rcases List.mem_cons.mp hs with rfl | hs
  · have self : Scope.key top ⟨[], c, fs⟩ = top := Path.flat_singleton top
    have own : notes _ (fieldRecords [top] [] fs) = _ := notes_flat_fieldRecords hnames (.top htop)
    rw [Path.flat_singleton] at own
    rw [self, notes_cons_of_ne htop.symm, notes_cons_self, own]
    rfl
  · have hin : s.key top ∈ fieldKeys [top] [] fs := by
      simpa [fieldKeys, Scope.key] using ⟨s, hs, rfl⟩
    have deeper := length_lt_of_mem_fieldKeys hin
    rw [Path.flat_singleton] at deeper
    rw [notes_cons_of_ne, notes_cons_of_ne, recorded_fields hnames (.top htop) s hs]
    · simp [Scope.key]
    · intro same
      rw [← same] at deeper
      omega
    · intro same
      simp [← same] at deeper

theorem wellNamed_of_mem_scopes (hroot : root.isScope = true)
    (hnames : root.wellNamed = true) {s : Scope} (hs : s ∈ root.scopes) :
    fieldsWellNamed s.fields = true := by
  obtain ⟨c, fs, rfl, hc⟩ := exists_of_isScope hroot
  rcases List.mem_cons.mp (scopes_root hc ▸ hs) with rfl | hs
  · exact hnames
  · exact wellNamed_of_mem_fieldScopes hnames hs

theorem get?_scope_key (hroot : root.isScope = true) (hnames : root.wellNamed = true)
    (htop : top ≠ "") (h : root.table top = .ok t) {s : Scope} (hs : s ∈ root.scopes) :
    t.get? (s.key top) = some (s.entry top) := by
  rw [get?_table h, notes_scope_key hroot hnames htop hs]
  rfl

theorem mem_keys_iff (t : Table) (key : String) : key ∈ t.keys ↔ ∃ e, t.get? key = some e := by
  simp only [Table.keys, List.mem_map, ← Table.mem_rows_iff, Prod.exists, exists_and_right,
    exists_eq_right]

theorem mem_table_keys (hroot : root.isScope = true) (hnames : root.wellNamed = true)
    (htop : top ≠ "") (h : root.table top = .ok t) (key : String) :
    key ∈ t.keys ↔ key = "" ∨ key ∈ root.scopes.map (·.key top) := by
  rw [mem_keys_iff]
  constructor
  · rintro ⟨e, he⟩
    obtain ⟨c, fs, rfl, hc⟩ := exists_of_isScope hroot
    rw [keys_root hc, List.mem_cons]
    by_contra hkey
    simp only [not_or] at hkey
    obtain ⟨hempty, htop', hdeeper⟩ := hkey
    have none : notes key (fieldRecords [top] [] fs) = [] :=
      notes_eq_nil_of_ne hnames (.top htop) hempty (by simpa using htop') hdeeper
    rw [get?_table h, records_root hc, notes_cons_of_ne (Ne.symm hempty),
      notes_cons_of_ne (Ne.symm htop'), none] at he
    cases he
  · rintro (rfl | hkey)
    · obtain ⟨c, fs, rfl, hc⟩ := exists_of_isScope hroot
      rw [get?_table h, records_root hc, notes_cons_self]
      exact ⟨_, rfl⟩
    · obtain ⟨s, hs, rfl⟩ := List.mem_map.mp hkey
      exact ⟨_, get?_scope_key hroot hnames htop h hs⟩

end Root

end Block

namespace Item

def ports : Path × Item → List (Path × Atom)
  | (v, .atom a) => if a.kind.isParameter then [(v, a)] else []
  | (_, .module ..) => []

end Item

def Block.fieldPorts (fs : List (Field × Block)) : List (Path × Atom) :=
  (Block.fieldItems fs).flatMap Item.ports

namespace Item

def declarations : Path × Item → List Declaration
  | (u, .atom a) => [a.declaration u.flat]
  | (u, .module _ fs) =>
    (Block.fieldPorts fs).map fun x => (x.2.declaration x.1.flat).stub u.flat

def instances (key : String) : Path × Item → List Instance
  | (_, .atom _) => []
  | (u, .module ..) => [⟨u.flat, Path.flat (key :: u)⟩]

theorem atoms_portNotes (inst : String) (x : Path × Item) :
    (portNotes inst x).filterMap Note.atom? =
      (ports x).map fun x => (x.2.declaration x.1.flat).stub inst := by
  obtain ⟨v, a | ⟨c, fs⟩⟩ := x
  · cases h : a.kind.isParameter <;> simp [portNotes, ports, h, Note.atom?]
  · rfl

theorem filterMap_portNotes {α : Type} {f : Note → Option α} (hatom : ∀ d, f (.atom d) = none)
    (henums : ∀ cs, f (.enums cs) = none) (inst : String) (xs : List (Path × Item)) :
    (xs.flatMap (portNotes inst)).filterMap f = [] := by
  have one (x : Path × Item) : (portNotes inst x).filterMap f = [] := by
    obtain ⟨v, a | ⟨c, fs⟩⟩ := x
    · cases h : a.kind.isParameter <;> simp [portNotes, h, hatom, henums]
    · rfl
  rw [List.filterMap_flatMap]
  simp only [one]
  simp

theorem atoms_notes (key : String) (x : Path × Item) :
    (notes key x).filterMap Note.atom? = declarations x := by
  obtain ⟨u, a | ⟨c, fs⟩⟩ := x
  · simp [notes, declarations, Note.atom?]
  · simp [notes, declarations, List.filterMap_cons, Note.atom?, List.filterMap_flatMap,
      atoms_portNotes, Block.fieldPorts, List.map_flatMap]

theorem instances_notes (key : String) (x : Path × Item) :
    (notes key x).filterMap Note.inst? = instances key x := by
  obtain ⟨u, a | ⟨c, fs⟩⟩ := x
  · simp [notes, instances, Note.inst?]
  · rw [notes, List.filterMap_cons, filterMap_portNotes (fun _ => rfl) (fun _ => rfl)]
    rfl

theorem code_notes (key : String) (x : Path × Item) : (notes key x).filterMap Note.code? = [] := by
  obtain ⟨u, a | ⟨c, fs⟩⟩ := x
  · simp [notes, Note.code?]
  · rw [notes, List.filterMap_cons, filterMap_portNotes (fun _ => rfl) (fun _ => rfl)]
    rfl

end Item

namespace Scope

theorem atoms_entry (top : String) (s : Scope) :
    (s.entry top).atoms = s.items.flatMap Item.declarations := by
  simp [entry, Entry.extend, notes, List.filterMap_cons, Note.atom?, List.filterMap_flatMap,
    Item.atoms_notes]

theorem instances_entry (top : String) (s : Scope) :
    (s.entry top).instances = s.items.flatMap (Item.instances (s.key top)) := by
  simp [entry, Entry.extend, notes, List.filterMap_cons, Note.inst?, List.filterMap_flatMap,
    Item.instances_notes]

theorem code_entry (top : String) (s : Scope) : (s.entry top).code = s.code := by
  have none : (s.items.flatMap (Item.notes (s.key top))).filterMap Note.code? = [] := by
    simp [List.filterMap_flatMap, Item.code_notes]
  simp [entry, Entry.extend, notes, List.filterMap_cons, Note.code?, none]

end Scope

end Circuitry
