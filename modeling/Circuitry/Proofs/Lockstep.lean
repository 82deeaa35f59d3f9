import Circuitry.Netlist.Check
import Circuitry.Proofs.Events

/-!
The checker and the builder side by side. Fed with the same events, in any order, they stand at the
same position, and what the checker reports is an atom that the builder has recorded. An issue about
an input comes up only when its module is left, so the inputs of all open modules are kept track of.
-/

namespace Circuitry

def Issue.Recorded (rs : List (String × Note)) (i : Issue) : Prop :=
  ∃ d : Declaration, (i.module, .atom d) ∈ rs ∧ d.name = i.signal ∧
    (i.kind = .openSignal ∨ i.kind = .writesToInput ∧ d.kind = .input)

theorem Issue.Recorded.mono {rs rs' : List (String × Note)} (sub : rs ⊆ rs') {i : Issue}
    (h : i.Recorded rs) : i.Recorded rs' := by
  obtain ⟨d, hd, rest⟩ := h
  exact ⟨d, sub hd, rest⟩

/-- The inputs of the open modules, innermost first, are recorded under the keys of the modules. -/
def InputsRecorded (rs : List (String × Note)) : Path → List Frame → Prop
  | _, [] => True
  | path, f :: fs =>
    (∀ name ∈ f.inputs, ∃ d : Declaration,
      (path.flat, .atom d) ∈ rs ∧ d.name = name ∧ d.kind = .input) ∧
      InputsRecorded rs path.pop fs

theorem InputsRecorded.mono {rs rs' : List (String × Note)} (sub : rs ⊆ rs') {path : Path}
    {fs : List Frame} (h : InputsRecorded rs path fs) : InputsRecorded rs' path fs := by
  induction fs generalizing path with
  | nil => trivial
  | cons f fs ih =>
    refine ⟨?_, ih h.2⟩
    intro name hname
    obtain ⟨d, hd, rest⟩ := h.1 name hname
    exact ⟨d, sub hd, rest⟩

theorem InputsRecorded.tail {rs : List (String × Note)} {path : Path} {fs : List Frame}
    (h : InputsRecorded rs path fs) : InputsRecorded rs path.pop fs.tail := by
  cases fs with
  | nil => trivial
  | cons f fs => exact h.2

theorem InputsRecorded.addInput {rs : List (String × Note)} {path : Path} {fs : List Frame}
    {d : Declaration} (h : InputsRecorded rs path fs) (hd : (path.flat, .atom d) ∈ rs)
    (kind : d.kind = .input) : InputsRecorded rs path (Checker.addInput d.name fs) := by
  cases fs with
  | nil => trivial
  | cons f fs =>
    refine ⟨?_, h.2⟩
    intro name hname
    rcases List.mem_append.mp hname with hname | hname
    · exact h.1 name hname
    · exact ⟨d, hd, (List.mem_singleton.mp hname).symm, kind⟩

theorem InputsRecorded.issues {rs : List (String × Note)} {path : Path} {fs : List Frame}
    (h : InputsRecorded rs path fs) {i : Issue}
    (hi : i ∈ (fs.head?.map (Frame.issues path.flat)).getD []) : i.Recorded rs := by
  cases fs with
  | nil => cases hi
  | cons f fs =>
    simp only [List.head?_cons, Option.map_some, Option.getD_some, Frame.issues, List.mem_map,
      List.mem_filter] at hi
    obtain ⟨name, ⟨hname, -⟩, rfl⟩ := hi
    obtain ⟨d, hd, same, kind⟩ := h.1 name hname
    exact ⟨d, hd, same, .inr ⟨rfl, kind⟩⟩

theorem Tracker.length_saved_follow {t : Tracker} (h : t.saved.length = t.path.length) (e : Event) :
    (t.follow e).saved.length = (t.follow e).path.length := by
  cases e with
  | enter name code => simp [follow, enter, Path.push, h]
  | openGroup name => exact h
  | atom name a => exact h
  | closeGroup name => exact h
  | leave name =>
    simp only [follow, leave]
    split
    · next none => simp [none, Path.pop, ← h]
    · next one => simp [Path.pop, ← h, one]

theorem Event.own_mem_records (t : Tracker) (name : String) (a : Atom) :
    (t.path.flat, .atom (a.declaration (t.qualify name))) ∈ (Event.atom name a).records t := by
  simp [Event.records, Atom.records, Atom.declaration]

/-- What the checker and the builder have in common after events with the notes `rs`. -/
structure InStep (rs : List (String × Note)) (c : Checker) (b : Builder) : Prop where
  tracker : c.tracker = b.tracker
  saved : c.saved.length = c.path.length
  frames : c.frames.length = c.path.length
  inputs : InputsRecorded rs c.path c.frames
  issues : ∀ i ∈ c.issues, i.Recorded rs

namespace Checker

variable {st : State} {rs : List (String × Note)} {c : Checker}

theorem length_addInput (name : String) (fs : List Frame) :
    (addInput name fs).length = fs.length := by
  cases fs <;> rfl

theorem length_saved_visit (h : c.saved.length = c.path.length) (e : Event) :
    (c.visit st e).saved.length = (c.visit st e).path.length := by
  have moved := Tracker.length_saved_follow (t := c.tracker) h e
  rwa [← tracker_visit st] at moved

theorem length_frames_visit (h : c.frames.length = c.path.length) (e : Event) :
    (c.visit st e).frames.length = (c.visit st e).path.length := by
  cases e with
  | enter name code => simp [visit, enter, Path.push, h]
  | openGroup name => exact h
  | atom name a =>
    simp only [visit, atom]
    split
    · rw [length_addInput, h]
    · exact h
  | closeGroup name => exact h
  | leave name => simp [visit, leave_eq, Tracker.path_leave, tracker, Path.pop, h]

theorem inputs_visit (h : InputsRecorded rs c.path c.frames) (e : Event) :
    InputsRecorded (rs ++ e.records c.tracker) (c.visit st e).path (c.visit st e).frames := by
  have kept := h.mono (List.subset_append_left rs (e.records c.tracker))
  cases e with
  | enter name code =>
    refine ⟨by simp, ?_⟩
    simpa [visit, enter] using kept
  | openGroup name => exact kept
  | atom name a =>
    simp only [visit, atom]
    split
    · next input =>
      exact kept.addInput (List.mem_append_right _ (Event.own_mem_records c.tracker name a)) input
    · exact kept
  | closeGroup name => exact kept
  | leave name =>
    rw [visit, leave_eq, Tracker.path_leave]
    exact kept.tail

theorem issues_visit (hin : InputsRecorded rs c.path c.frames)
    (h : ∀ i ∈ c.issues, i.Recorded rs) (e : Event) :
    ∀ i ∈ (c.visit st e).issues, i.Recorded (rs ++ e.records c.tracker) := by
  have sub := List.subset_append_left rs (e.records c.tracker)
  cases e with
  | enter name code => exact fun i hi => (h i hi).mono sub
  | openGroup name => exact fun i hi => (h i hi).mono sub
  | atom name a =>
    intro i hi
    simp only [visit, atom] at hi
    split at hi
    · exact (h i hi).mono sub
    · rcases List.mem_append.mp hi with hi | hi
      · exact (h i hi).mono sub
      · obtain rfl := List.mem_singleton.mp hi
        exact ⟨_, List.mem_append_right _ (Event.own_mem_records c.tracker name a), rfl, .inl rfl⟩
  | closeGroup name => exact fun i hi => (h i hi).mono sub
  | leave name =>
    intro i hi
    rw [visit, leave_eq] at hi
    rcases List.mem_append.mp hi with hi | hi
    · exact (h i hi).mono sub
    · exact (hin.issues hi).mono sub

end Checker

namespace InStep

variable {rs : List (String × Note)} {c : Checker} {b : Builder}

theorem visit (st : State) (h : InStep rs c b) (e : Event) :
    InStep (rs ++ e.records c.tracker) (c.visit st e) (b.visit e) where
  tracker := by rw [Checker.tracker_visit, Builder.tracker_visit, h.tracker]
  saved := Checker.length_saved_visit h.saved e
  frames := Checker.length_frames_visit h.frames e
  inputs := Checker.inputs_visit h.inputs e
  issues := Checker.issues_visit h.inputs h.issues e

theorem visitAll (st : State) (h : InStep rs c b) (es : List Event) :
    InStep (rs ++ c.tracker.records es) (c.visitAll st es) (b.visitAll es) := by
  induction es generalizing rs c b with
  | nil => simpa [Tracker.records, Checker.visitAll, Builder.visitAll] using h
  | cons e es ih =>
    rw [Tracker.records, ← List.append_assoc]
    exact Checker.tracker_visit st c e ▸ ih (h.visit st e)

theorem fresh : InStep [] {} {} where
  tracker := rfl
  saved := rfl
  frames := rfl
  inputs := trivial
  issues := by simp

end InStep

/-- After any events the checker and the builder have equal stacks, as many saved groups and frames
as open modules, and for each issue the builder has an atom of that name under that module, which is
an input if the module is said to drive it. -/
theorem Checker.agrees_with_builder (st : State) (es : List Event) :
    let c := ({} : Checker).visitAll st es
    let b := ({} : Builder).visitAll es
    (c.path = b.path ∧ c.group = b.group ∧ c.saved = b.saved) ∧
      (c.saved.length = c.path.length ∧ c.frames.length = c.path.length) ∧
      ∀ i ∈ c.issues, ∃ e, b.table.get? i.module = some e ∧ ∃ d ∈ e.atoms, d.name = i.signal ∧
        (i.kind = .openSignal ∨ i.kind = .writesToInput ∧ d.kind = .input) := by
  intro c b
  have together := InStep.fresh.visitAll st es
  refine ⟨?_, ⟨together.saved, together.frames⟩, ?_⟩
  · simpa [Checker.tracker, Builder.tracker] using together.tracker
  intro i hi
  obtain ⟨d, hd, rest⟩ := together.issues i hi
  obtain ⟨e, he⟩ := Builder.exists_entry_of_mem hd
  exact ⟨e, he, d, (Builder.mem_atoms_visitAll he d).mpr hd, rest⟩

theorem Checker.agrees_with_builder_unbalanced :
    let bit (net : Nat) (kind : Kind) : Atom := .signal { net, kind, width := 1, type := .bits 1 }
    let es : List Event :=
      [.leave "k", .enter "m" (some (.combinatorial [.assign "g$x" (.ref "y")])), .openGroup "g",
        .atom "x" (bit 0 .input), .enter "n" none, .atom "y" (bit 1 .output), .leave "n",
        .leave "m", .leave "m", .closeGroup "g", .enter "o" none]
    let c := ({} : Checker).visitAll (({} : State).mark 0) es
    let b := ({} : Builder).visitAll es
    c.issues = [⟨.openSignal, "m$g$n", "y"⟩, ⟨.writesToInput, "m", "g$x"⟩] ∧
      c.path = b.path ∧ c.path = ["o"] ∧ c.frames.length = 1 ∧
      ∃ e, b.table.get? "m" = some e ∧ ∃ d ∈ e.atoms, d.name = "g$x" ∧ d.kind = .input := by
  intro bit es c b
  obtain ⟨⟨path, -, -⟩, ⟨-, frames⟩, recorded⟩ := agrees_with_builder (({} : State).mark 0) es
  have issues : c.issues = [⟨.openSignal, "m$g$n", "y"⟩, ⟨.writesToInput, "m", "g$x"⟩] := rfl
  obtain ⟨e, he, d, hd, name, kind⟩ := recorded ⟨.writesToInput, "m", "g$x"⟩ (issues ▸ by simp)
  exact ⟨issues, path, rfl, frames, e, he, d, hd, name, by simpa using kind⟩

end Circuitry
