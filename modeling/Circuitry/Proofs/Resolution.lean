import Circuitry.Netlist.Verilog
import Circuitry.Proofs.Events

namespace Circuitry

namespace Event

def entered (t : Tracker) : Event → List (String × Option Code)
  | .enter name code => [((t.enter name).module, code)]
  | _ => []

theorem prefix_or_entered {t : Tracker} {e : Event} {q : Path} (h : q <+: (t.follow e).path) :
    q <+: t.path ∨ Path.flat q ∈ (e.entered t).map Prod.fst := by
  cases e with
  | enter name code =>
    rcases List.prefix_concat_iff.mp h with rfl | h
    · exact .inr (List.mem_singleton.mpr rfl)
    · exact .inl h
  | openGroup name => exact .inl h
  | atom name a => exact .inl h
  | closeGroup name => exact .inl h
  | leave name =>
    rw [Tracker.follow, Tracker.path_leave] at h
    exact .inl (h.trans (List.dropLast_prefix t.path))

theorem key_of_mem_records {t : Tracker} {e : Event} {r : String × Note} (h : r ∈ e.records t) :
    (∃ q, q <+: t.path ∧ r.1 = Path.flat q) ∨ r.1 ∈ (e.entered t).map Prod.fst := by
  cases e with
  | enter name code =>
    rcases List.mem_cons.mp h with rfl | h
    · exact .inl ⟨t.path, List.prefix_rfl, rfl⟩
    · obtain rfl := List.mem_singleton.mp h
      exact .inr (List.mem_singleton.mpr rfl)
  | openGroup name => cases h
  | atom name a =>
    rcases Block.key_of_mem_records h with h | h
    · exact .inl ⟨t.path.pop, List.dropLast_prefix t.path, h⟩
    · exact .inl ⟨t.path, List.prefix_rfl, h⟩
  | closeGroup name => cases h
  | leave name => cases h

theorem exists_instance_of_entered {t : Tracker} {e : Event} {key : String} {code : Option Code}
    (h : (key, code) ∈ e.entered t) :
    ∃ k name, (k, .inst ⟨name, key⟩) ∈ e.records t := by
  cases e with
  | enter name code =>
    cases List.mem_singleton.mp h
    exact ⟨_, _, .head _⟩
  | _ => cases h

theorem noted_of_instance {t : Tracker} {e : Event} {k : String} {i : Instance}
    (h : (k, .inst i) ∈ e.records t) : ∃ n, (i.target, n) ∈ e.records t := by
  cases e with
  | enter name code =>
    simp only [records, List.mem_cons, Prod.mk.injEq, Note.inst.injEq, reduceCtorEq, and_false,
      List.not_mem_nil, or_false] at h
    obtain ⟨-, rfl⟩ := h
    exact ⟨_, .tail _ (.head _)⟩
  | atom name a => simp [records, Atom.records] at h
  | _ => cases h

theorem code?_of_mem_records {a : Atom} {path : Path} {name key : String} {n : Note}
    (h : (key, n) ∈ a.records path name) : n.code? = none := by
  simp only [Atom.records, List.mem_append] at h
  rcases h with ((stub | enums) | enums) | own
  · split at stub
    · cases List.mem_singleton.mp stub
      rfl
    · cases stub
  · obtain ⟨c, -, same⟩ := List.mem_map.mp enums
    cases same
    rfl
  · obtain ⟨c, -, same⟩ := List.mem_map.mp enums
    cases same
    rfl
  · cases List.mem_singleton.mp own
    rfl

theorem code_records (t : Tracker) (e : Event) (key : String) :
    ((notes key (e.records t)).filterMap Note.code?).getLast? =
      ((e.entered t).reverse.lookup key).map (·.getD .empty) := by
  cases e with
  | enter name code =>
    have own : (notes key (records t (.enter name code))).filterMap Note.code? =
        if (t.enter name).module = key then [code.getD .empty] else [] := by
      by_cases around : t.module = key <;> by_cases h : (t.enter name).module = key <;>
        simp [notes, records, around, h, List.filterMap_cons, Note.code?]
    rw [own]
    by_cases h : (t.enter name).module = key
    · simp [entered, h]
    · simp [entered, h, List.lookup_cons, beq_false_of_ne (Ne.symm h)]
  | atom name a =>
    have none : (notes key (a.records t.path (t.qualify name))).filterMap Note.code? = [] := by
      rw [List.filterMap_eq_nil_iff]
      intro n hn
      exact code?_of_mem_records (mem_notes.mp hn)
    rw [records, none]
    rfl
  | openGroup name => rfl
  | closeGroup name => rfl
  | leave name => rfl

end Event

namespace Tracker

variable {t : Tracker} {es : List Event}

def entered (t : Tracker) : List Event → List (String × Option Code)
  | [] => []
  | e :: es => e.entered t ++ (t.follow e).entered es

theorem key_of_mem_records {r : String × Note} (h : r ∈ t.records es) :
    (∃ q, q <+: t.path ∧ r.1 = Path.flat q) ∨ r.1 ∈ (t.entered es).map Prod.fst := by
  induction es generalizing t with
  | nil => cases h
  | cons e es ih =>
    rw [entered, List.map_append, List.mem_append]
    rcases List.mem_append.mp h with h | h
    · rcases Event.key_of_mem_records h with standing | entered
      · exact .inl standing
      · exact .inr (.inl entered)
    · rcases ih h with ⟨q, hq, key⟩ | entered
      · rcases Event.prefix_or_entered hq with hq | entered
        · exact .inl ⟨q, hq, key⟩
        · exact .inr (.inl (key ▸ entered))
      · exact .inr (.inr entered)

theorem exists_instance_of_entered {key : String} {code : Option Code}
    (h : (key, code) ∈ t.entered es) : ∃ k name, (k, .inst ⟨name, key⟩) ∈ t.records es := by
  induction es generalizing t with
  | nil => cases h
  | cons e es ih =>
    rcases List.mem_append.mp h with h | h
    · obtain ⟨k, name, found⟩ := Event.exists_instance_of_entered h
      exact ⟨k, name, List.mem_append_left _ found⟩
    · obtain ⟨k, name, found⟩ := ih h
      exact ⟨k, name, List.mem_append_right _ found⟩

theorem noted_of_instance {k : String} {i : Instance} (h : (k, .inst i) ∈ t.records es) :
    ∃ n, (i.target, n) ∈ t.records es := by
  induction es generalizing t with
  | nil => cases h
  | cons e es ih =>
    rcases List.mem_append.mp h with h | h
    · obtain ⟨n, found⟩ := Event.noted_of_instance h
      exact ⟨n, List.mem_append_left _ found⟩
    · obtain ⟨n, found⟩ := ih h
      exact ⟨n, List.mem_append_right _ found⟩

theorem code_records (t : Tracker) (es : List Event) (key : String) :
    ((notes key (t.records es)).filterMap Note.code?).getLast? =
      ((t.entered es).reverse.lookup key).map (·.getD .empty) := by
  induction es generalizing t with
  | nil => rfl
  | cons e es ih =>
    rw [records, notes_append, List.filterMap_append, List.getLast?_append, ih, Event.code_records,
      entered, List.reverse_append, List.lookup_append, Option.map_or]

end Tracker

namespace Builder

variable {es : List Event} {key : String} {e : Entry}

theorem target_mem_keys (h : (({} : Builder).visitAll es).table.get? key = some e) {i : Instance}
    (hi : i ∈ e.instances) : i.target ∈ (({} : Builder).visitAll es).table.keys := by
  obtain ⟨n, noted⟩ := Tracker.noted_of_instance ((mem_instances_visitAll h i).mp hi)
  exact (Block.mem_keys_iff _ _).mpr (exists_entry_of_mem noted)

theorem key_entered (h : (({} : Builder).visitAll es).table.get? key = some e) (named : key ≠ "") :
    key ∈ (({} : Tracker).entered es).map Prod.fst := by
  obtain ⟨noted, -⟩ := get?_table_visitAll.mp h
  obtain ⟨n, hn⟩ := List.exists_mem_of_ne_nil _ noted
  rcases Tracker.key_of_mem_records (mem_notes.mp hn) with ⟨q, hq, hkey⟩ | entered
  · rw [List.prefix_nil.mp hq] at hkey
    exact absurd hkey named
  · exact entered

theorem code_visitAll (h : (({} : Builder).visitAll es).table.get? key = some e) :
    e.code =
      (((({} : Tracker).entered es).reverse.lookup key).map (·.getD .empty)).getD .empty := by
  obtain ⟨-, rfl⟩ := get?_table_visitAll.mp h
  rw [← Tracker.code_records]
  rfl

theorem exists_code (h : (({} : Builder).visitAll es).table.get? key = some e) (named : key ≠ "") :
    ∃ code, (({} : Tracker).entered es).reverse.lookup key = some code ∧
      e.code = code.getD .empty := by
  have found : ((({} : Tracker).entered es).reverse.lookup key).isSome = true := by
    rw [List.lookup_isSome_iff]
    simpa using key_entered h named
  obtain ⟨code, hcode⟩ := Option.isSome_iff_exists.mp found
  refine ⟨code, hcode, ?_⟩
  rw [code_visitAll h, hcode]
  rfl

theorem exists_instance (h : (({} : Builder).visitAll es).table.get? key = some e)
    (named : key ≠ "") :
    ∃ row ∈ (({} : Builder).visitAll es).table.rows, ∃ i ∈ row.2.instances, i.target = key := by
  obtain ⟨⟨k, code⟩, hk, rfl⟩ := List.mem_map.mp (key_entered h named)
  obtain ⟨around, name, noted⟩ := Tracker.exists_instance_of_entered hk
  obtain ⟨e', he'⟩ := exists_entry_of_mem noted
  exact ⟨(around, e'), (Table.mem_rows_iff _ _ _).mpr he', _,
    (mem_instances_visitAll he' _).mpr noted, rfl⟩

end Builder

namespace Table

variable {t : Table}

theorem unresolved_eq_none_iff :
    t.unresolved = none ↔ ∀ row ∈ t.rows, ∀ i ∈ row.2.instances, i.target ∈ t.keys := by
  simp only [unresolved, List.findSome?_eq_none_iff, ite_eq_right_iff, reduceCtorEq, imp_false,
    Block.mem_keys_iff, Option.isNone_iff_eq_none, ← Option.isSome_iff_exists,
    ← Option.ne_none_iff_isSome, ne_eq]

theorem render_ne_unknownModule (h : t.unresolved = none) (module inst target : String) :
    t.render ≠ .error (.unknownModule module inst target) := by
  rw [render, h]
  simp only
  split <;> simp

theorem render_of_complete (complete : ∀ row ∈ t.rows, row.2.code.complete = true)
    (h : t.unresolved = none) : t.render = .ok t.text := by
  have written : t.emitted.all (·.2.code.complete) = true := by
    rw [List.all_eq_true]
    intro row hrow
    exact complete row (List.mem_of_mem_filter hrow)
  rw [render, h]
  simp only [written, if_true]

theorem render_eq_error_iff (complete : ∀ row ∈ t.rows, row.2.code.complete = true) :
    (∃ f, t.render = .error f) ↔ ∃ row ∈ t.rows, ∃ i ∈ row.2.instances, i.target ∉ t.keys := by
  cases h : t.unresolved with
  | none =>
    constructor
    · rintro ⟨f, fails⟩
      rw [render_of_complete complete h] at fails
      cases fails
    · rintro ⟨row, hrow, i, hi, missing⟩
      exact absurd (unresolved_eq_none_iff.mp h row hrow i hi) missing
  | some f =>
    constructor
    · intro _
      by_contra resolved
      push Not at resolved
      rw [unresolved_eq_none_iff.mpr resolved] at h
      cases h
    · intro _
      exact ⟨f, by rw [render, h]⟩

end Table

theorem Block.unresolved_of_table {root : Block} {top : String} {t : Table}
    (h : root.table top = .ok t) : t.unresolved = none := by
  have walked : (({} : Builder).visitAll (root.walk top).steps).table = t := by
    simpa [table, Script.toExcept, fault_of_table h, Except.map] using h
  subst walked
  rw [Table.unresolved_eq_none_iff]
  intro row hrow i hi
  exact Builder.target_mem_keys ((Table.mem_rows_iff _ row.1 row.2).mp hrow) hi

/-- After any events every instance has a module, every named module is that of a scope that was
entered, has the code of the scope last entered under its key, and has an instance; so no module is
unknown when the table is written. A table without holes fails to be written exactly if the module
of some instance is missing. -/
theorem Builder.table_resolves (es : List Event) :
    let t := (({} : Builder).visitAll es).table
    (∀ row ∈ t.rows, ∀ i ∈ row.2.instances, i.target ∈ t.keys) ∧
      (∀ row ∈ t.rows, row.1 ≠ "" →
        (∃ code, (({} : Tracker).entered es).reverse.lookup row.1 = some code ∧
          row.2.code = code.getD .empty) ∧
        ∃ row' ∈ t.rows, ∃ i ∈ row'.2.instances, i.target = row.1) ∧
      (∀ module inst target, t.render ≠ .error (.unknownModule module inst target)) ∧
      ∀ t' : Table, (∀ row ∈ t'.rows, row.2.code.complete = true) →
        ((∃ f, t'.render = .error f) ↔
          ∃ row ∈ t'.rows, ∃ i ∈ row.2.instances, i.target ∉ t'.keys) := by
  intro t
  have targets : ∀ row ∈ t.rows, ∀ i ∈ row.2.instances, i.target ∈ t.keys := by
    intro row hrow i hi
    exact target_mem_keys ((Table.mem_rows_iff t row.1 row.2).mp hrow) hi
  refine ⟨targets, ?_, ?_, ?_⟩
  · intro row hrow named
    have found := (Table.mem_rows_iff t row.1 row.2).mp hrow
    exact ⟨exists_code found named, exists_instance found named⟩
  · exact Table.render_ne_unknownModule (Table.unresolved_eq_none_iff.mpr targets)
  · intro t' complete
    exact Table.render_eq_error_iff complete

theorem Builder.table_resolves_unbalanced :
    let es : List Event :=
      [.leave "k", .enter "m" none, .openGroup "g", .enter "n" (some (.custom "old")), .leave "n",
        .enter "n" (some (.custom "new")), .leave "n", .leave "m", .leave "m"]
    let t := (({} : Builder).visitAll es).table
    let lone := ({} : Table).addInstance "a" ⟨"u", "b"⟩
    t.keys = ["", "m", "m$g$n"] ∧
      (∃ e, ("m$g$n", e) ∈ t.rows ∧ e.code = .custom "new") ∧
      (∃ row ∈ t.rows, ∃ i ∈ row.2.instances, i.target = "m$g$n") ∧
      (∃ f, lone.render = .error f) ∧ ¬ ∃ f, (lone.touch "b").render = .error f := by
  intro es t lone
  obtain ⟨-, named, -, written⟩ := table_resolves es
  have row : ("m$g$n", _) ∈ t.rows := .tail _ (.tail _ (.head _))
  obtain ⟨⟨code, last, hcode⟩, inst⟩ := named _ row (by decide)
  refine ⟨rfl, ⟨_, row, ?_⟩, inst, ?_, ?_⟩
  · cases last
    exact hcode
  · exact (written lone (by decide)).mpr (by decide)
  · exact (written (lone.touch "b") (by decide)).not.mpr (by decide)

end Circuitry
