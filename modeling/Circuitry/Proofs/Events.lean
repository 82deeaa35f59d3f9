import Circuitry.Proofs.Scopes

namespace Circuitry

namespace Event

def records (t : Tracker) : Event → List (String × Note)
  | .enter name code =>
    [(t.module, .inst ⟨t.qualify name, (t.enter name).module⟩),
      ((t.enter name).module, .code (code.getD .empty))]
  | .atom name a => a.records t.path (t.qualify name)
  | _ => []

end Event

namespace Tracker

def records (t : Tracker) : List Event → List (String × Note)
  | [] => []
  | e :: es => e.records t ++ (t.follow e).records es

end Tracker

namespace Builder

theorem table_visit (b : Builder) (e : Event) :
    (b.visit e).table = (e.records b.tracker).foldl Table.record b.table := by
  cases e with
  | enter name code => rfl
  | atom name a =>
    rw [visit, atom_eq]
    rfl
  | openGroup name => rfl
  | closeGroup name => rfl
  | leave name => exact b.table_leave

theorem table_visitAll (b : Builder) (es : List Event) :
    (b.visitAll es).table = (b.tracker.records es).foldl Table.record b.table := by
  induction es generalizing b with
  | nil => rfl
  | cons e es ih =>
    rw [visitAll_cons, ih, tracker_visit, table_visit, Tracker.records, List.foldl_append]

end Builder

theorem Note.atom?_eq_some {n : Note} {d : Declaration} : n.atom? = some d ↔ n = .atom d := by
  cases n <;> simp [Note.atom?]

theorem Note.inst?_eq_some {n : Note} {i : Instance} : n.inst? = some i ↔ n = .inst i := by
  cases n <;> simp [Note.inst?]

theorem mem_notes {key : String} {n : Note} {rs : List (String × Note)} :
    n ∈ notes key rs ↔ (key, n) ∈ rs := by
  simp [notes]

namespace Builder

variable {es : List Event} {key : String} {e : Entry}

theorem get?_table_visitAll :
    (({} : Builder).visitAll es).table.get? key = some e ↔
      notes key (({} : Tracker).records es) ≠ [] ∧
        e = ({} : Entry).extend (notes key (({} : Tracker).records es)) := by
  rw [table_visitAll, Table.get?_foldl_record]
  exact Entry.after_none_eq_some

theorem exists_entry_of_mem {n : Note} (h : (key, n) ∈ ({} : Tracker).records es) :
    ∃ e, (({} : Builder).visitAll es).table.get? key = some e :=
  ⟨_, get?_table_visitAll.mpr ⟨List.ne_nil_of_mem (mem_notes.mpr h), rfl⟩⟩

theorem mem_atoms_visitAll (h : (({} : Builder).visitAll es).table.get? key = some e)
    (d : Declaration) : d ∈ e.atoms ↔ (key, .atom d) ∈ ({} : Tracker).records es := by
  obtain ⟨-, rfl⟩ := get?_table_visitAll.mp h
  simp [Entry.extend, Note.atom?_eq_some, mem_notes]

theorem mem_instances_visitAll (h : (({} : Builder).visitAll es).table.get? key = some e)
    (i : Instance) : i ∈ e.instances ↔ (key, .inst i) ∈ ({} : Tracker).records es := by
  obtain ⟨-, rfl⟩ := get?_table_visitAll.mp h
  simp [Entry.extend, Note.inst?_eq_some, mem_notes]

end Builder

end Circuitry
