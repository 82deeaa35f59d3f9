import Circuitry.Proofs.Findings
import Circuitry.Proofs.Layout
import Circuitry.Proofs.Naming

namespace Circuitry

namespace Stmt

open Text (indent)

/-- A statement at a depth writes an assignment to `target` as `line`. -/
inductive Writes (target line : String) : Nat → Stmt → Prop
  | assign {depth : Nat} {value : Expr}
      (text : line = indent depth ++ target ++ " = " ++ value.text ++ ";") :
      Writes target line depth (.assign target value)
  | forward {depth : Nat} {ls : List Link} {l : Link} (mem : l ∈ ls)
      (direction : l.direction = .forward) (name : target = Path.join l.other l.field)
      (text : line = indent depth ++
        (target ++ " = " ++ Path.join l.owner l.field ++ ";")) :
      Writes target line depth (.links ls)
  | backward {depth : Nat} {ls : List Link} {l : Link} (mem : l ∈ ls)
      (direction : l.direction = .backward) (name : target = Path.join l.owner l.field)
      (text : line = indent depth ++
        (target ++ " = " ++ Path.join l.other l.field ++ ";")) :
      Writes target line depth (.links ls)
  | yes {depth : Nat} {test : Expr} {s : Stmt} {yes no : List Stmt} (mem : s ∈ yes)
      (inner : Writes target line (depth + 1) s) : Writes target line depth (.cond test yes no)
  | no {depth : Nat} {test : Expr} {s : Stmt} {yes no : List Stmt} (mem : s ∈ no)
      (inner : Writes target line (depth + 1) s) : Writes target line depth (.cond test yes no)
  | item {depth : Nat} {subject label : Expr} {s : Stmt} {items : List (Expr × List Stmt)}
      {body default : List Stmt} (branch : (label, body) ∈ items) (mem : s ∈ body)
      (inner : Writes target line (depth + 2) s) :
      Writes target line depth (.case subject items default)
  | default {depth : Nat} {subject : Expr} {s : Stmt} {items : List (Expr × List Stmt)}
      {default : List Stmt} (mem : s ∈ default) (inner : Writes target line (depth + 2) s) :
      Writes target line depth (.case subject items default)

theorem bodyLines_eq (depth : Nat) (body : List Stmt) :
    bodyLines depth body = body.flatMap (lines depth) := by
  induction body with
  | nil => rfl
  | cons s body ih => rw [bodyLines, ih, List.flatMap_cons]

theorem itemLines_eq (depth : Nat) (items : List (Expr × List Stmt)) :
    itemLines depth items = items.flatMap fun (label, body) =>
      (indent depth ++ label.text ++ ": begin") :: bodyLines (depth + 1) body
        ++ [indent depth ++ "end"] := by
  induction items with
  | nil => rfl
  | cons item items ih => rw [itemLines, ih, List.flatMap_cons]

theorem bodyAssigned_eq (body : List Stmt) : bodyAssigned body = body.flatMap assigned := by
  induction body with
  | nil => rfl
  | cons s body ih => rw [bodyAssigned, ih, List.flatMap_cons]

theorem itemsAssigned_eq (items : List (Expr × List Stmt)) :
    itemsAssigned items = items.flatMap fun (_, body) => bodyAssigned body := by
  induction items with
  | nil => rfl
  | cons item items ih => rw [itemsAssigned, ih, List.flatMap_cons]

theorem mem_bodyLines {depth : Nat} {body : List Stmt} {s : Stmt} {line : String} (hs : s ∈ body)
    (h : line ∈ s.lines depth) : line ∈ bodyLines depth body := by
  rw [bodyLines_eq]
  exact List.mem_flatMap_of_mem hs h

theorem mem_bodyAssigned {body : List Stmt} {s : Stmt} {target : String} (hs : s ∈ body)
    (h : target ∈ s.assigned) : target ∈ bodyAssigned body := by
  rw [bodyAssigned_eq]
  exact List.mem_flatMap_of_mem hs h

theorem mem_branch {depth : Nat} {opening : String} {body : List Stmt} {text : List String}
    {s : Stmt} {line : String} (hs : s ∈ body) (h : line ∈ text) :
    line ∈ branch depth opening body text := by
  rw [branch, if_neg (by simpa using List.ne_nil_of_mem hs)]
  simp [h]

namespace Writes

variable {target line : String} {depth : Nat} {s : Stmt}

theorem mem_lines (h : Writes target line depth s) : line ∈ s.lines depth := by
  induction h with
  | assign text => simp [lines, text]
  | forward mem direction name text =>
    rw [lines, List.mem_map]
    exact ⟨_, mem, by simp [Link.text, Link.target, Link.source, direction, text, name]⟩
  | backward mem direction name text =>
    rw [lines, List.mem_map]
    exact ⟨_, mem, by simp [Link.text, Link.target, Link.source, direction, text, name]⟩
  | yes mem inner ih =>
    rw [lines]
    simp [mem_bodyLines mem ih]
  | no mem inner ih =>
    rw [lines]
    simp [mem_branch mem (mem_bodyLines mem ih)]
  | item branch mem inner ih =>
    have written := mem_bodyLines mem ih
    rw [lines, itemLines_eq, List.mem_append, List.mem_append]
    refine .inl (.inl (List.mem_cons_of_mem _ (List.mem_flatMap_of_mem branch ?_)))
    simp [written]
  | default mem inner ih =>
    rw [lines]
    simp [mem_branch mem (mem_bodyLines mem ih)]

theorem mem_assigned (h : Writes target line depth s) : target ∈ s.assigned := by
  induction h with
  | assign text => simp [assigned]
  | forward mem direction name text =>
    rw [assigned, List.mem_map]
    exact ⟨_, mem, by simp [Link.target, direction, name]⟩
  | backward mem direction name text =>
    rw [assigned, List.mem_map]
    exact ⟨_, mem, by simp [Link.target, direction, name]⟩
  | yes mem inner ih =>
    rw [assigned]
    exact List.mem_append_left _ (mem_bodyAssigned mem ih)
  | no mem inner ih =>
    rw [assigned]
    exact List.mem_append_right _ (mem_bodyAssigned mem ih)
  | item branch mem inner ih =>
    rw [assigned, itemsAssigned_eq]
    exact List.mem_append_left _ (List.mem_flatMap_of_mem branch (mem_bodyAssigned mem ih))
  | default mem inner ih =>
    rw [assigned]
    exact List.mem_append_right _ (mem_bodyAssigned mem ih)

theorem mem_targets {body : List Stmt} (h : Writes target line depth s) (hs : s ∈ body)
    (htarget : target ≠ "") : target ∈ targets body := by
  rw [targets, List.mem_eraseDups, List.mem_filter]
  exact ⟨mem_bodyAssigned hs h.mem_assigned, by simpa using htarget⟩

end Writes

end Stmt

namespace Scope

theorem exists_input_of_keyword {top : String} {s : Scope} {d : Declaration}
    (hd : d ∈ (s.entry top).atoms) (hkeyword : d.kind.keyword = "input wire") :
    ∃ u a, (u, .atom a) ∈ s.items ∧ a.kind = .input ∧ d.name = u.flat := by
  rw [atoms_entry] at hd
  obtain ⟨⟨u, a | ⟨c, fs⟩⟩, hx, hd⟩ := List.mem_flatMap.mp hd
  · obtain rfl := List.mem_singleton.mp hd
    refine ⟨u, a, hx, ?_, rfl⟩
    change a.kind.keyword = "input wire" at hkeyword
    cases h : a.kind <;> simp [h, Kind.keyword] at hkeyword ⊢
  · obtain ⟨port, -, rfl⟩ := List.mem_map.mp hd
    change port.2.kind.stub.keyword = "input wire" at hkeyword
    cases h : port.2.kind <;> simp [h, Kind.stub, Kind.keyword] at hkeyword

theorem ne_of_writes {top : String} {s : Scope} (hnames : Block.fieldsWellNamed s.fields = true)
    (hdriven : Block.driven s.code s.fields = []) {body : List Stmt}
    (hcode : s.code = .combinatorial body) {stmt : Stmt} (hstmt : stmt ∈ body) {depth : Nat}
    {target line : String} (h : Stmt.Writes target line depth stmt) {d : Declaration}
    (hd : d ∈ (s.entry top).atoms) (hkeyword : d.kind.keyword = "input wire") :
    d.name ≠ target := by
  rintro rfl
  obtain ⟨u, a, hitem, hkind, hname⟩ := exists_input_of_keyword hd hkeyword
  have nonempty : d.name ≠ "" := by
    rw [hname]
    intro empty
    have segments := Block.isSegment_of_mem_fieldPlaces hnames u
      ((Block.fieldItems_sublist s.fields).mem (List.mem_map_of_mem hitem))
    have nil := (Path.flat_eq_empty_iff (Path.ne_empty_of_segments segments)).mp empty
    exact Block.ne_nil_of_mem_fieldItems hitem nil
  -- The check names the input by `qualify`, the table by `flat`: for proper names they agree.
  have input : d.name ∈ Block.fieldInputs [] s.fields := by
    exact (Block.mem_fieldInputs_flat hnames).mpr ⟨u, a, hitem, hkind, hname.symm⟩
  have assigned : d.name ∈ s.code.targets := by
    rw [hcode]
    exact h.mem_targets hstmt nonempty
  have both : d.name ∈ Block.driven s.code s.fields :=
    List.mem_filter.mpr ⟨input, by simpa using assigned⟩
  simp [hdriven] at both

end Scope

def Atom.Declares (a : Atom) (d : Declaration) : Prop :=
  ∃ name, d = a.declaration name ∨ ∃ inst, d = (a.declaration name).stub inst

theorem Atom.declares_of_mem_records {a : Atom} {path : Path} {name key : String} {d : Declaration}
    (h : (key, .atom d) ∈ a.records path name) : a.Declares d := by
  simp only [Atom.records, List.mem_append] at h
  rcases h with ((h | h) | h) | h
  · split at h
    · refine ⟨name, .inr ⟨path.last, ?_⟩⟩
      cases h with
      | head => simp [Atom.declaration, Declaration.stub, Kind.stub_eq]
      | tail _ h => cases h
    · cases h
  · simp at h
  · simp at h
  · refine ⟨name, .inl ?_⟩
    cases h with
    | head => rfl
    | tail _ h => cases h

namespace Block

theorem exists_leaf_of_mem_fieldRecords {path group : Path} {fs : List (Field × Block)}
    {key : String} {d : Declaration} (h : (key, .atom d) ∈ fieldRecords path group fs) :
    ∃ a ∈ fieldLeaves fs, a.Declares d := by
  induction fs using induction_boundaries generalizing path group with
  | nil => simp at h
  | atom f a fs ih =>
    rw [fieldRecords_atom] at h
    rcases List.mem_append.mp h with h | h
    · exact ⟨a, by simp [fieldLeaves, leaves], Atom.declares_of_mem_records h⟩
    · obtain ⟨b, hb, found⟩ := ih h
      exact ⟨b, List.mem_append_right _ hb, found⟩
  | scope f c inner fs hc ihInner ih =>
    rw [fieldRecords_scope hc] at h
    rcases List.mem_append.mp h with h | h
    · obtain ⟨b, hb, found⟩ := ihInner (by simpa using h)
      exact ⟨b, List.mem_append_left _ hb, found⟩
    · obtain ⟨b, hb, found⟩ := ih h
      exact ⟨b, List.mem_append_right _ hb, found⟩
  | group f c inner fs hc ihInner ih =>
    rw [fieldRecords_group hc] at h
    rcases List.mem_append.mp h with h | h
    · obtain ⟨b, hb, found⟩ := ihInner h
      exact ⟨b, List.mem_append_left _ hb, found⟩
    · obtain ⟨b, hb, found⟩ := ih h
      exact ⟨b, List.mem_append_right _ hb, found⟩

theorem exists_leaf_of_mem_atoms {root : Block} {top key : String} {t : Table} {e : Entry}
    (h : root.table top = .ok t) (he : t.get? key = some e) {d : Declaration} (hd : d ∈ e.atoms) :
    ∃ a ∈ root.leaves, a.Declares d := by
  have recorded : (key, .atom d) ∈ root.records [] [] top := by
    rw [get?_table h] at he
    cases hn : notes key (root.records [] [] top) with
    | nil => simp [hn, Entry.after] at he
    | cons n ns =>
      obtain rfl := Option.some.inj (hn ▸ he)
      change d ∈ (n :: ns).filterMap Note.atom? at hd
      obtain ⟨m, hm, same⟩ := List.mem_filterMap.mp hd
      have : m = .atom d := by cases m <;> simp_all [Note.atom?]
      rw [← hn, notes] at hm
      obtain ⟨⟨k, m⟩, hr, rfl⟩ := List.mem_map.mp hm
      simp only [List.mem_filter, decide_eq_true_eq] at hr
      rw [← hr.2, ← this]
      exact hr.1
  have field : (key, .atom d) ∈ fieldRecords [] [] [({ member := top, label := top }, root)] := by
    simpa [fieldRecords] using recorded
  simpa [fieldLeaves] using exists_leaf_of_mem_fieldRecords field

end Block

namespace Generation

theorem unchecked_of_checked {root : Block} {st : State} {top text : String}
    (h : (checked (some root) st top).result = .ok text) :
    root.issues st top = .ok [] ∧ (unchecked (some root) top).result = .ok text := by
  rw [checked] at h
  split at h
  · cases h
  · next passed =>
    refine ⟨?_, h⟩
    rw [check] at passed
    split at passed
    · cases passed
    · split at passed
      · cases passed
      · next none => exact none
      · cases passed

/-- In the text of a circuit that passes the check no module assigns an input of its own, every atom
is connected, and nothing is recorded but the declarations of these atoms. -/
theorem checked_inputs_undriven (root : Block) (st : State) (top text : String)
    (hroot : root.isScope = true) (hnames : root.wellNamed = true)
    (h : (checked (some root) st top).result = .ok text) :
    ∃ t, root.table top = .ok t ∧ text = t.text ∧
      (∀ key e body, (key, e) ∈ t.emitted → e.code = .combinatorial body →
        Table.HasModule text key (e.parameters.map (·.name)) (t.sections e) ∧
          (body ≠ [] → ("Update code", [Stmt.alwaysText body]) ∈ t.sections e) ∧
          ∀ s ∈ body, ∀ target line, Stmt.Writes target line 1 s →
            line ∈ Stmt.alwaysLines body ∧
              ∀ d ∈ e.declared, d.kind.keyword = "input wire" → d.name ≠ target) ∧
      (∀ a ∈ root.leaves, a.connected st = true) ∧
      ∀ key e d, t.get? key = some e → d ∈ e.atoms → ∃ a ∈ root.leaves, a.Declares d := by
  obtain ⟨issues, rendered⟩ := unchecked_of_checked h
  obtain ⟨htop, t, table, render⟩ := render_of_unchecked rendered
  obtain rfl := Table.text_of_render render
  rw [Block.issues_eq (Block.fault_of_table table)] at issues
  obtain ⟨connected, undriven⟩ := Block.findings_eq_nil_iff.mp (Except.ok.inj issues)
  refine ⟨t, table, rfl, ?_, connected, ?_⟩
  · intro key e body emitted hcode
    obtain ⟨found, hkey, -⟩ := Table.mem_emitted_iff.mp emitted
    obtain ⟨s, hs, rfl, rfl⟩ := Block.exists_scope_of_get? hroot hnames htop table hkey found
    refine ⟨Table.hasModule_text emitted, ?_, ?_⟩
    · intro hbody
      simp [Table.sections, Entry.codeSection, hcode, hbody]
    · intro stmt hstmt target line writes
      refine ⟨?_, ?_⟩
      · have := Stmt.mem_bodyLines hstmt writes.mem_lines
        simp [Stmt.alwaysLines, this]
      · intro d hd hkeyword
        rw [Entry.declared, hcode] at hd
        exact Scope.ne_of_writes (Block.wellNamed_of_mem_scopes hroot hnames hs) (undriven s hs)
          (s.code_entry top ▸ hcode) hstmt writes hd hkeyword
  · intro key e d he hd
    exact Block.exists_leaf_of_mem_atoms table he hd

theorem checked_inputs_undriven_sample :
    let st := ((({} : State).mark 0).mark 1).mark 2
    let body : List Stmt := [.assign "h$y" (.ref "x")]
    Block.sample.isScope = true ∧ Block.sample.wellNamed = true ∧
      (checked (some Block.sample) {} "t").result = .error (.issues
        [⟨.openSignal, "t", "a"⟩, ⟨.openSignal, "t$g$m", "x"⟩, ⟨.openSignal, "t$g$m", "h$y"⟩]) ∧
      ∃ text t e, (checked (some Block.sample) st "t").result = .ok text ∧
        Block.sample.table "t" = .ok t ∧ ("t$g$m", e) ∈ t.emitted ∧ e.code = .combinatorial body ∧
        (e.declared.map fun d => (d.name, d.kind.keyword)) =
          [("x", "input wire"), ("h$y", "output reg")] ∧
        (∀ s ∈ body, ∀ target line, Stmt.Writes target line 1 s →
          ∀ d ∈ e.declared, d.kind.keyword = "input wire" → d.name ≠ target) ∧
        (∀ a ∈ Block.sample.leaves, a.connected st = true) ∧
        ∀ key e d, t.get? key = some e → d ∈ e.atoms → ∃ a ∈ Block.sample.leaves, a.Declares d := by
  intro st body
  obtain ⟨t, table, -, undriven, connected, recorded⟩ :=
    checked_inputs_undriven Block.sample st "t" _ (by decide) (by decide) rfl
  obtain rfl := Except.ok.inj table
  refine ⟨by decide, by decide, rfl, _, _, _, rfl, rfl, .tail _ (.head _), rfl, rfl, ?_, connected,
    recorded⟩
  intro s hs target line writes
  exact ((undriven "t$g$m" _ body (.tail _ (.head _)) rfl).2.2 s hs target line writes).2

end Generation

end Circuitry
