import Circuitry.Proofs.Extraction

namespace Circuitry

namespace Text

def indented (l : String) : String := if l = "" then "" else "    " ++ l

def outdented (l : String) : String :=
  match afterLead "    ".toList l.toList with
  | some rest => String.ofList rest
  | none => l

theorem outdented_indented (l : String) : outdented (indented l) = l := by
  rw [indented]
  split
  · next empty => rw [empty]; rfl
  · have lead : afterLead "    ".toList ("    " ++ l).toList = some l.toList :=
      afterLead_eq_some_iff.mpr String.toList_append
    rw [outdented, lead]
    exact String.ofList_toList

/-- What does not stand at the margin: it is empty or starts with blanks. -/
def IsInside (l : String) : Prop := l = "" ∨ "    ".toList <+: l.toList

theorem isInside_indented (l : String) : IsInside (indented l) := by
  rw [indented]
  split
  · exact .inl rfl
  · exact .inr ⟨l.toList, String.toList_append.symm⟩

theorem newline_not_mem_indented {l : String} (h : '\n' ∉ l.toList) : '\n' ∉ (indented l).toList := by
  rw [indented]
  split
  · decide
  · simpa using h

theorem intercalate_split (sep : Char) (cs : List Char) : [sep].intercalate (split sep cs) = cs := by
  induction cs with
  | nil => rfl
  | cons c cs ih =>
    obtain ⟨l, ls, pieces⟩ := List.exists_cons_of_ne_nil (split_ne_nil sep cs)
    rw [pieces] at ih
    by_cases hc : c = sep
    · subst hc
      rw [split_sep, pieces, List.intercalate_cons_cons, ih]
      rfl
    · rw [split_cons_of_ne hc pieces]
      cases ls with
      | nil => simpa using ih
      | cons m ls =>
        rw [List.intercalate_cons_cons] at ih ⊢
        rw [List.cons_append, List.cons_append, ih]

theorem intercalate_lines (s : String) : "\n".intercalate (lines s) = s := by
  apply String.toList_injective
  have pieces : (lines s).map String.toList = split '\n' s.toList := by
    simp [lines, splitLines, Function.comp_def]
  rw [String.toList_intercalate, pieces]
  exact intercalate_split '\n' s.toList

/-- The text consists of these lines, each with its newline. -/
def Splits (s : String) (ls : List String) : Prop := ∀ rest, lines (s ++ rest) = ls ++ lines rest

theorem Splits.empty : Splits "" [] := fun rest => by rw [String.empty_append, List.nil_append]

theorem Splits.append {s t : String} {ls ms : List String} (hs : Splits s ls) (ht : Splits t ms) :
    Splits (s ++ t) (ls ++ ms) := by
  intro rest
  rw [String.append_assoc, hs, ht, List.append_assoc]

theorem splits_newline (s : String) : Splits (s ++ "\n") (lines s) := by
  intro rest
  have parts : (s ++ "\n" ++ rest).toList = s.toList ++ '\n' :: rest.toList := by simp
  rw [lines, parts, splitLines_append_newline, List.map_append]
  rfl

theorem splits_line {l : String} (h : '\n' ∉ l.toList) : Splits (l ++ "\n") [l] := by
  have single : lines l = [l] := by
    rw [lines, splitLines, split_of_not_mem h, List.map_singleton, String.ofList_toList]
  exact single ▸ splits_newline l

theorem Splits.join {α : Type} {xs : List α} {f : α → String} {g : α → List String}
    (h : ∀ x ∈ xs, Splits (f x) (g x)) : Splits (String.join (xs.map f)) (xs.flatMap g) := by
  induction xs with
  | nil => exact .empty
  | cons x xs ih =>
    rw [List.forall_mem_cons] at h
    rw [List.map_cons, String.join_cons, List.flatMap_cons]
    exact h.1.append (ih h.2)

end Text

open Text (Splits indented IsInside)

namespace Writer

theorem line_one (l : String) : line 1 l = indented l ++ "\n" := by
  rw [line, indented]
  split
  · rfl
  · simp [Text.indent]

theorem splits_written (s : String) : Splits (written 1 s) ((Text.lines s).map indented) := by
  have each : ∀ l ∈ Text.lines s, Splits (line 1 l) [indented l] := by
    intro l hl
    rw [line_one]
    exact Text.splits_line (Text.newline_not_mem_indented (Text.newline_not_mem_of_mem_lines hl))
  rw [List.map_eq_flatMap]
  exact Splits.join each

inductive Operation where
  | add (s : String)
  | push
  | pop

def act (w : Writer) : Operation → Writer
  | .add s => w.add s
  | .push => w.push
  | .pop => w.pop

def run (ops : List Operation) : Writer := ops.foldl act {}

def lineBytes (level : Nat) (l : String) : Nat :=
  (if l = "" then 0 else 4 * level + (Text.bytes l).length) + 1

def bytesAdded (level : Nat) (s : String) : Nat :=
  (Text.lines s).foldr (lineBytes level · + ·) 0

def bytesWritten (level : Nat) : List Operation → Nat
  | [] => 0
  | .add s :: ops => bytesAdded level s + bytesWritten level ops
  | .push :: ops => bytesWritten (level + 1) ops
  | .pop :: ops => bytesWritten (level - 1) ops

theorem size_indent (level : Nat) : (Text.indent level).utf8ByteSize = 4 * level := by
  induction level with
  | zero => rfl
  | succ level ih =>
    have step : "    ".utf8ByteSize = 4 := rfl
    rw [Text.indent, String.utf8ByteSize_append, step, ih]
    omega

theorem size_line (level : Nat) (l : String) : (line level l).utf8ByteSize = lineBytes level l := by
  rw [line, lineBytes]
  split
  · rfl
  · rw [String.utf8ByteSize_append, String.utf8ByteSize_append, size_indent]
    rfl

theorem size_written (level : Nat) (s : String) :
    (written level s).utf8ByteSize = bytesAdded level s := by
  rw [written, bytesAdded]
  induction Text.lines s with
  | nil => rfl
  | cons l ls ih =>
    rw [List.map_cons, String.join_cons, String.utf8ByteSize_append, size_line, ih, List.foldr_cons]

theorem size_foldl_act (w : Writer) (ops : List Operation) :
    (ops.foldl act w).size = w.size + bytesWritten w.level ops := by
  induction ops generalizing w with
  | nil => rfl
  | cons op ops ih =>
    rw [List.foldl_cons, ih]
    cases op with
    | add s =>
      have grown : (w.add s).size = w.size + bytesAdded w.level s := by
        rw [add_eq, size, String.utf8ByteSize_append, size_written]
        rfl
      rw [act, grown, bytesWritten, Nat.add_assoc]
      rfl
    | push => rfl
    | pop => rfl

theorem run_add_newline (before after : List Operation) (s t : String) :
    run (before ++ .add (s ++ "\n" ++ t) :: after) = run (before ++ .add s :: .add t :: after) := by
  simp only [run, List.foldl_append, List.foldl_cons, act, add_newline]

end Writer

/-- The title and the text of a body that is given as it is. -/
def Code.raw? : Code → Option (String × String)
  | .custom text => some ("Update code (custom)", text)
  | .wrapper code _ => some ("Update code (wrapper)", code)
  | .combinatorial _ | .blackbox .. | .empty => none

namespace Table

variable {t : Table} {key title code : String} {e : Entry}

theorem codeSection_of_raw (h : e.code.raw? = some (title, code))
    (ne : Text.trimNewlines code ≠ "") : e.codeSection = [(title, [Text.trimNewlines code])] := by
  rw [Entry.codeSection]
  cases body : e.code with
  | custom text =>
    rw [body] at h
    cases h
    exact if_neg ne
  | wrapper text cores =>
    rw [body] at h
    cases h
    exact if_neg ne
  | combinatorial | blackbox | empty => rw [body] at h; cases h

def groupLines : String × List String → List String
  | (_, []) => []
  | (title, ls) =>
    "" :: (Text.lines ("// " ++ title)).map indented ++ ls.flatMap fun s => (Text.lines s).map indented

theorem splits_groupText (group : String × List String) :
    Splits (groupText group) (groupLines group) := by
  obtain ⟨title, ls⟩ := group
  cases ls with
  | nil => exact .empty
  | cons l ls =>
    have blank : Splits (Writer.written 1 "") [""] := Writer.splits_written ""
    exact (blank.append (Writer.splits_written _)).append
      (Splits.join fun s _ => Writer.splits_written s)

theorem isInside_of_mem_groupLines {group : String × List String} {l : String}
    (h : l ∈ groupLines group) : IsInside l := by
  have inside {s : String} (h : l ∈ (Text.lines s).map indented) : IsInside l := by
    obtain ⟨m, -, rfl⟩ := List.mem_map.mp h
    exact Text.isInside_indented m
  obtain ⟨title, ls⟩ := group
  cases ls with
  | nil => cases h
  | cons s ls =>
    rcases List.mem_append.mp h with top | body
    · rcases List.mem_cons.mp top with rfl | named
      · exact .inl rfl
      · exact inside named
    · obtain ⟨m, -, hm⟩ := List.mem_flatMap.mp body
      exact inside hm

theorem splits_moduleText (t : Table) (key : String) (h : e.code.raw? = some (title, code))
    (ne : Text.trimNewlines code ≠ "") :
    ∃ lead above, Splits (t.moduleText key e)
        (lead ++ Text.lines (header key (e.parameters.map Declaration.name)) ++ above ++
          ("    // " ++ title) :: (Text.lines (Text.trimNewlines code)).map indented ++
          Text.lines ("endmodule // " ++ key)) ∧
      ∀ l ∈ above, IsInside l := by
  obtain ⟨groups, sections⟩ : ∃ groups, t.sections e = groups ++ e.codeSection := ⟨_, rfl⟩
  rw [codeSection_of_raw h ne] at sections
  have known : title ∈ titles := titles_sections t e (by simp [sections])
  have lead : ∃ ls, Splits (leadText e) ls := by
    rw [leadText]
    split
    · rw [Writer.written_zero]
      exact ⟨_, Text.splits_newline _⟩
    · exact ⟨[], .empty⟩
  obtain ⟨ls, lead⟩ := lead
  have comment : (Text.lines ("// " ++ title)).map indented = ["    // " ++ title] := by
    rw [lines_title known, List.map_singleton, indented, if_neg (by simp), ← String.append_assoc]
    rfl
  have own : groupLines (title, [Text.trimNewlines code]) =
      "" :: ("    // " ++ title) :: (Text.lines (Text.trimNewlines code)).map indented := by
    simp [groupLines, comment]
  have body : Splits (String.join ((t.sections e).map groupText))
      ((t.sections e).flatMap groupLines) :=
    Splits.join fun group _ => splits_groupText group
  rw [sections, List.flatMap_append, List.flatMap_singleton, own] at body
  refine ⟨ls, groups.flatMap groupLines ++ [""], ?_, ?_⟩
  · rw [moduleText_eq_inner, inner, sections]
    have top := Text.splits_newline (header key (e.parameters.map Declaration.name))
    have bottom := Text.splits_newline ("endmodule // " ++ key)
    have whole := lead.append ((top.append body).append bottom)
    simpa only [List.append_assoc, List.cons_append, List.nil_append] using whole
  · intro l hl
    rcases List.mem_append.mp hl with own | blank
    · obtain ⟨group, -, hgroup⟩ := List.mem_flatMap.mp own
      exact isInside_of_mem_groupLines hgroup
    · exact .inl (List.mem_singleton.mp blank)

theorem exists_lines_text (listed : (key, e) ∈ t.emitted) {ls : List String}
    (own : Splits (t.moduleText key e) ls) :
    ∃ before after, Text.lines t.text = before ++ ls ++ after := by
  -- Every module before this one has a newline after it, and what comes later may be anything.
  obtain ⟨xs, ys, rows⟩ := List.append_of_mem listed
  obtain ⟨rest, parts⟩ := exists_intercalate_append "\n" (t.moduleText key e)
    (xs.map fun row => t.moduleText row.1 row.2) (ys.map fun row => t.moduleText row.1 row.2)
  have before : Splits
      (String.join ((xs.map fun row => t.moduleText row.1 row.2).map (· ++ "\n")))
      ((xs.map fun row => t.moduleText row.1 row.2).flatMap Text.lines) :=
    Splits.join fun s _ => Text.splits_newline s
  rw [text_eq_intercalate, rows, List.map_append, List.map_cons, parts, String.append_assoc,
    before.append own]
  exact ⟨_, _, rfl⟩

/-- Raw code stands in its module as it was given, without the newlines around it: between the title of
the code and the end of the module there is a line for each of its lines, a step further in unless it is
empty, and without these steps the code is back. Nothing between the header of the module and its end
stands at the margin. In a writer, a newline does what a second operation does, and its size is the number
of bytes of its text, which are those that each operation has written. -/
theorem raw_code_verbatim (t : Table) (resolved : t.unresolved = none) :
    ((∃ text, t.render = .ok text) ↔ ∀ row ∈ t.emitted, row.2.code.complete = true) ∧
      (∀ text, t.render = .ok text → ∀ key e title code, (key, e) ∈ t.emitted →
        e.code.raw? = some (title, code) → Text.trimNewlines code ≠ "" →
          ∃ before above body after : List String,
            Text.lines text =
                before ++ Text.lines (header key (e.parameters.map Declaration.name)) ++ above ++
                  ("    // " ++ title) :: body ++ Text.lines ("endmodule // " ++ key) ++ after ∧
              (∀ l ∈ above ++ body, IsInside l) ∧
              body = (Text.lines (Text.trimNewlines code)).map
                (fun l => if l = "" then "" else "    " ++ l) ∧
              "\n".intercalate (body.map Text.outdented) = Text.trimNewlines code) ∧
      (∀ (before after : List Writer.Operation) (s s' : String),
        Writer.run (before ++ .add (s ++ "\n" ++ s') :: after) =
          Writer.run (before ++ .add s :: .add s' :: after)) ∧
      ∀ ops : List Writer.Operation,
        (Writer.run ops).size = (Text.bytes (Writer.run ops).text).length ∧
          (Writer.run ops).size = Writer.bytesWritten 0 ops := by
  refine ⟨render_ok_iff resolved, ?_, Writer.run_add_newline, fun ops => ⟨rfl, ?_⟩⟩
  · intro text htext key e title code listed raw ne
    obtain ⟨lead, above, own, inside⟩ := splits_moduleText t key raw ne
    obtain ⟨before, after, split⟩ := exists_lines_text listed own
    have restored : ((Text.lines (Text.trimNewlines code)).map indented).map Text.outdented =
        Text.lines (Text.trimNewlines code) := by
      simp [Function.comp_def, Text.outdented_indented]
    refine ⟨before ++ lead, above, _, after, ?_, ?_, rfl, ?_⟩
    · rw [text_of_render htext, split]
      simp only [List.append_assoc]
      rfl
    · intro l hl
      rcases List.mem_append.mp hl with outer | inner
      · exact inside l outer
      · obtain ⟨m, -, rfl⟩ := List.mem_map.mp inner
        exact Text.isInside_indented m
    · exact (congrArg _ restored).trans (Text.intercalate_lines _)
  · have fresh : ({} : Writer).size = 0 := rfl
    rw [Writer.run, Writer.size_foldl_act, fresh, Nat.zero_add]

def misleading : Table where
  rows :=
    [("", { instances := [{ name := "top", target := "top" }] }),
      ("shell", { code := .wrapper "\n\ninitial\n\n    q = 4;\n" "// core" }),
      ("top",
        { instances := [{ name := "shell", target := "shell" }]
          code := .custom "endmodule // top\n\n// Update code (custom)" })]
  ordered := by decide

theorem raw_code_verbatim_misleading :
    misleading.unresolved = none ∧
      ("top", (misleading.get? "top").getD {}) ∈ misleading.emitted ∧
      Text.trimNewlines "\n\ninitial\n\n    q = 4;\n" ≠ "" ∧
      ∃ text, misleading.render = .ok text ∧
        (∃ before above after, Text.lines text =
          before ++ ["module shell();"] ++ above ++ ["    // Update code (wrapper)", "    initial", "",
            "        q = 4;"] ++ ["endmodule // shell"] ++ after) ∧
        ∃ before above after, Text.lines text =
          before ++ ["module top();"] ++ above ++ ["    // Update code (custom)",
            "    endmodule // top", "", "    // Update code (custom)"] ++ ["endmodule // top"] ++ after := by
  have resolved : misleading.unresolved = none := rfl
  have listed (key : String) (e : Entry) (found : misleading.get? key = some e)
      (named : key ≠ "" ∧ e.code.isBlackbox = false) : (key, e) ∈ misleading.emitted :=
    mem_emitted_iff.mpr ⟨found, named⟩
  obtain ⟨written, verbatim, -⟩ := raw_code_verbatim misleading resolved
  obtain ⟨text, htext⟩ := written.mpr (by decide)
  refine ⟨resolved, listed "top" _ rfl (by decide), by decide, text, htext, ?_, ?_⟩
  · obtain ⟨before, above, body, after, cut, -, same, -⟩ := verbatim text htext "shell" _ _ _
      (listed "shell" _ rfl (by decide)) rfl (by decide)
    subst same
    exact ⟨before, above, after, cut⟩
  · obtain ⟨before, above, body, after, cut, -, same, -⟩ := verbatim text htext "top" _ _ _
      (listed "top" _ rfl (by decide)) rfl (by decide)
    subst same
    exact ⟨before, above, after, cut⟩

end Table

end Circuitry
