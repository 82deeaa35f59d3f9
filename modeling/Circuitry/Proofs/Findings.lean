import Circuitry.Netlist.Check
import Circuitry.Proofs.Scopes

namespace Circuitry

namespace Block

mutual

def inputs (group : Path) (name : String) : Block → List String
  | .atom a => if a.kind = .input then [group.qualify name] else []
  | .composite c fs =>
    match c.boundary with
    | .scope => []
    | .group => fieldInputs (group ++ [name]) fs

def fieldInputs (group : Path) : List (Field × Block) → List String
  | [] => []
  | (f, b) :: fs => b.inputs group f.label ++ fieldInputs group fs

end

def driven (code : Code) (fs : List (Field × Block)) : List String :=
  (fieldInputs [] fs).filter (· ∈ code.targets)

mutual

def findings (st : State) (path group : Path) (name : String) : Block → List Issue
  | .atom a =>
    if a.connected st then [] else [⟨.openSignal, path.flat, group.qualify name⟩]
  | .composite c fs =>
    match c.boundary with
    | .scope =>
      let inner := path ++ [group.qualify name]
      fieldFindings st inner [] fs
        ++ (driven (c.code.getD .empty) fs).map (⟨.writesToInput, inner.flat, ·⟩)
    | .group => fieldFindings st path (group ++ [name]) fs

def fieldFindings (st : State) (path group : Path) : List (Field × Block) → List Issue
  | [] => []
  | (f, b) :: fs => b.findings st path group f.label ++ fieldFindings st path group fs

end

section Equations

variable {st : State} {path group : Path} {f : Field} {c : Composite}
  {inner fs : List (Field × Block)}

@[simp] theorem fieldInputs_nil : fieldInputs group [] = [] := rfl

theorem fieldInputs_atom (a : Atom) :
    fieldInputs group ((f, .atom a) :: fs) =
      (if a.kind = .input then [group.qualify f.label] else []) ++ fieldInputs group fs := by
  simp [fieldInputs, inputs]

theorem fieldInputs_scope (hc : c.boundary = .scope) :
    fieldInputs group ((f, .composite c inner) :: fs) = fieldInputs group fs := by
  simp [fieldInputs, inputs, hc]

theorem fieldInputs_group (hc : c.boundary = .group) :
    fieldInputs group ((f, .composite c inner) :: fs) =
      fieldInputs (group ++ [f.label]) inner ++ fieldInputs group fs := by
  simp [fieldInputs, inputs, hc]

@[simp] theorem fieldFindings_nil : fieldFindings st path group [] = [] := rfl

theorem fieldFindings_atom (a : Atom) :
    fieldFindings st path group ((f, .atom a) :: fs) =
      (if a.connected st then [] else [⟨.openSignal, path.flat, group.qualify f.label⟩])
        ++ fieldFindings st path group fs := by
  simp [fieldFindings, findings]

theorem fieldFindings_scope (hc : c.boundary = .scope) :
    fieldFindings st path group ((f, .composite c inner) :: fs) =
      fieldFindings st (path ++ [group.qualify f.label]) [] inner
        ++ (driven (c.code.getD .empty) inner).map
          (⟨.writesToInput, Path.flat (path ++ [group.qualify f.label]), ·⟩)
        ++ fieldFindings st path group fs := by
  simp [fieldFindings, findings, hc]

theorem fieldFindings_group (hc : c.boundary = .group) :
    fieldFindings st path group ((f, .composite c inner) :: fs) =
      fieldFindings st path (group ++ [f.label]) inner ++ fieldFindings st path group fs := by
  simp [fieldFindings, findings, hc]

end Equations

end Block

namespace Checker

def addInputs (names : List String) : List Frame → List Frame
  | [] => []
  | f :: fs => { f with inputs := f.inputs ++ names } :: fs

@[simp] theorem addInputs_nil (frames : List Frame) : addInputs [] frames = frames := by
  cases frames <;> simp [addInputs]

theorem addInputs_addInputs (names names' : List String) (frames : List Frame) :
    addInputs names' (addInputs names frames) = addInputs (names ++ names') frames := by
  cases frames <;> simp [addInputs]

theorem addInput_eq (name : String) (frames : List Frame) :
    addInput name frames = addInputs [name] frames := by
  cases frames <;> rfl

variable (st : State)

theorem visitAll_cons (c : Checker) (e : Event) (es : List Event) :
    c.visitAll st (e :: es) = (c.visit st e).visitAll st es := rfl

theorem visitAll_append (c : Checker) (es es' : List Event) :
    c.visitAll st (es ++ es') = (c.visitAll st es).visitAll st es' :=
  List.foldl_append

theorem atom_eq (c : Checker) (name : String) (a : Atom) :
    c.atom st name a =
      { c with
        frames := addInputs (if a.kind = .input then [c.group.qualify name] else []) c.frames
        issues := c.issues ++
          if a.connected st then [] else [⟨.openSignal, c.path.flat, c.group.qualify name⟩] } := by
  by_cases hinput : a.kind = .input <;> by_cases hconnected : a.connected st = true <;>
    simp [atom, hinput, hconnected, addInput_eq]

theorem visitAll_walkFields (c : Checker) (fs : List (Field × Block))
    (h : (Block.walkFields fs).fault = none) :
    c.visitAll st (Block.walkFields fs).steps =
      { c with
        frames := addInputs (Block.fieldInputs c.group fs) c.frames
        issues := c.issues ++ Block.fieldFindings st c.path c.group fs } := by
  induction fs using Block.induction_boundaries generalizing c with
  | nil => simp [visitAll, Script.done]
  | atom f a fs ih =>
    rw [Block.fault_walkFields_atom] at h
    rw [Block.steps_walkFields_atom, visitAll_cons, ih _ h, visit, atom_eq]
    simp only [addInputs_addInputs, List.append_assoc, Block.fieldInputs_atom,
      Block.fieldFindings_atom]
  | scope f composite inner fs hc ihInner ih =>
    obtain ⟨-, hinner, hfs⟩ := Block.fault_walkFields_composite.mp h
    -- The frame that `enter` puts on the stack is gone after `leave`: only its issues stay.
    rw [Block.steps_walkFields_composite h, visitAll_append, visitAll_cons, visitAll_cons,
      ihInner _ hinner, ih _ hfs, Block.fieldInputs_scope hc, Block.fieldFindings_scope hc]
    simp [Composite.opening, Composite.closing, hc, visit, enter, leave, closeFrame, addInputs,
      Frame.issues, Block.driven, Path.push, Path.pop]
  | group f composite inner fs hc ihInner ih =>
    obtain ⟨-, hinner, hfs⟩ := Block.fault_walkFields_composite.mp h
    rw [Block.steps_walkFields_composite h, visitAll_append, visitAll_cons, visitAll_cons,
      ihInner _ hinner, ih _ hfs, Block.fieldInputs_group hc, Block.fieldFindings_group hc]
    simp [Composite.opening, Composite.closing, hc, visit, openGroup, closeGroup,
      addInputs_addInputs, Path.push, Path.pop]

end Checker

namespace Block

variable {st : State} {top : String} {root : Block}

theorem issues_eq (h : (root.walk top).fault = none) :
    root.issues st top = .ok (root.findings st [] [] top) := by
  have run := Checker.visitAll_walkFields st {} [({ member := top, label := top }, root)]
    (by simpa using h)
  rw [walkFields_singleton] at run
  simp [issues, Script.toExcept, h, Except.map, run, fieldFindings]

theorem fieldFindings_eq_nil_iff {path group : Path} {fs : List (Field × Block)} :
    fieldFindings st path group fs = [] ↔
      (∀ a ∈ fieldLeaves fs, a.connected st = true) ∧
        ∀ s ∈ fieldScopes fs, driven s.code s.fields = [] := by
  induction fs using induction_boundaries generalizing path group with
  | nil => simp [fieldLeaves]
  | atom f a fs ih =>
    rw [fieldFindings_atom, List.append_eq_nil_iff, ih, fieldScopes_atom]
    simp [fieldLeaves, leaves, and_assoc]
  | scope f c inner fs hc ihInner ih =>
    rw [fieldFindings_scope hc, List.append_eq_nil_iff, List.append_eq_nil_iff, ihInner, ih,
      List.map_eq_nil_iff, fieldScopes_scope hc]
    simp only [fieldLeaves, leaves, List.forall_mem_append, List.forall_mem_cons, List.forall_mem_map]
    constructor
    · rintro ⟨⟨⟨hleaves, hscopes⟩, own⟩, hleaves', hscopes'⟩
      exact ⟨⟨hleaves, hleaves'⟩, ⟨own, hscopes⟩, hscopes'⟩
    · rintro ⟨⟨hleaves, hleaves'⟩, ⟨own, hscopes⟩, hscopes'⟩
      exact ⟨⟨⟨hleaves, hscopes⟩, own⟩, hleaves', hscopes'⟩
  | group f c inner fs hc ihInner ih =>
    rw [fieldFindings_group hc, List.append_eq_nil_iff, ihInner, ih, fieldScopes_group hc]
    simp only [fieldLeaves, leaves, List.forall_mem_append, List.forall_mem_map]
    exact and_and_and_comm

theorem findings_eq_nil_iff {path group : Path} {name : String} :
    root.findings st path group name = [] ↔
      (∀ a ∈ root.leaves, a.connected st = true) ∧
        ∀ s ∈ root.scopes, driven s.code s.fields = [] := by
  have alone : fieldFindings st path group [({ member := name, label := name }, root)] = [] ↔ _ :=
    fieldFindings_eq_nil_iff
  simp only [fieldFindings, fieldLeaves, fieldScopes, List.append_nil, List.forall_mem_map] at alone
  exact alone

theorem mem_fieldInputs_iff {group : Path} {fs : List (Field × Block)} {name : String} :
    name ∈ fieldInputs group fs ↔ ∃ u label a, (u ++ [label], .atom a) ∈ fieldItems fs ∧
      a.kind = .input ∧ Path.qualify (group ++ u) label = name := by
  induction fs using induction_boundaries generalizing group with
  | nil => simp
  | atom f b fs ih =>
    rw [fieldInputs_atom, List.mem_append, ih, fieldItems_atom]
    constructor
    · rintro (h | ⟨u, label, a, hx, found⟩)
      · split at h
        · next kind => exact ⟨[], f.label, b, .head _, kind, by simpa [eq_comm] using h⟩
        · cases h
      · exact ⟨u, label, a, .tail _ hx, found⟩
    · rintro ⟨u, label, a, hx, kind, named⟩
      rcases List.mem_cons.mp hx with same | hx
      · obtain ⟨rfl, rfl, rfl⟩ : u = [] ∧ label = f.label ∧ a = b := by
          simpa [List.append_eq_cons_iff, and_assoc] using same
        simp [kind, ← named]
      · exact .inr ⟨u, label, a, hx, kind, named⟩
  | scope f c inner fs hc ihInner ih =>
    rw [fieldInputs_scope hc, ih, fieldItems_scope hc]
    simp
  | group f c inner fs hc ihInner ih =>
    rw [fieldInputs_group hc, List.mem_append, ihInner, ih, fieldItems_group hc]
    constructor
    · rintro (⟨u, label, a, hx, kind, named⟩ | ⟨u, label, a, hx, found⟩)
      · refine ⟨f.label :: u, label, a, ?_, kind, by simpa using named⟩
        exact List.mem_append_left _ (List.mem_map_of_mem hx)
      · exact ⟨u, label, a, List.mem_append_right _ hx, found⟩
    · rintro ⟨u, label, a, hx, kind, named⟩
      rcases List.mem_append.mp hx with hx | hx
      · obtain ⟨⟨v, i⟩, hv, same⟩ := List.mem_map.mp hx
        -- The place below the group is not empty, so it ends with the same name.
        obtain nil | ⟨w, last, rfl⟩ := v.eq_nil_or_concat
        · exact absurd nil (ne_nil_of_mem_fieldItems hv)
        · obtain ⟨place, rfl⟩ := Prod.mk.inj same
          rw [List.concat_eq_append] at hv place
          have place : (f.label :: w) ++ [last] = u ++ [label] := place
          obtain ⟨rfl, ends⟩ := List.append_inj' place rfl
          obtain rfl := List.head_eq_of_cons_eq ends
          exact .inl ⟨w, last, a, hv, kind, by simpa using named⟩
      · exact .inr ⟨u, label, a, hx, kind, named⟩

theorem mem_fieldInputs_flat {fs : List (Field × Block)} (hnames : fieldsWellNamed fs = true)
    {name : String} :
    name ∈ fieldInputs [] fs ↔
      ∃ u a, (u, .atom a) ∈ fieldItems fs ∧ a.kind = .input ∧ Path.flat u = name := by
  have named {u : Path} {label : String} {a : Atom} (hx : (u ++ [label], .atom a) ∈ fieldItems fs) :
      Path.qualify u label = Path.flat (u ++ [label]) := by
    have segments := isSegment_of_mem_fieldPlaces hnames _
      ((fieldItems_sublist fs).mem (List.mem_map_of_mem hx))
    exact Path.qualify_eq_flat (fun s hs => (segments s (List.mem_append_left _ hs)).1) label
  rw [mem_fieldInputs_iff]
  constructor
  · rintro ⟨u, label, a, hx, kind, rfl⟩
    exact ⟨_, a, hx, kind, (named hx).symm⟩
  · rintro ⟨u, a, hx, kind, rfl⟩
    obtain nil | ⟨v, label, rfl⟩ := u.eq_nil_or_concat
    · exact absurd nil (ne_nil_of_mem_fieldItems hx)
    · rw [List.concat_eq_append] at hx ⊢
      exact ⟨v, label, a, hx, kind, named hx⟩

end Block

end Circuitry
