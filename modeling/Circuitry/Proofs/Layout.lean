import Circuitry.Generation

namespace Circuitry

namespace Writer

def written (level : Nat) (s : String) : String := String.join ((Text.lines s).map (line level))

theorem add_eq (w : Writer) (s : String) :
    w.add s = { w with text := w.text ++ written w.level s } := rfl

theorem foldl_add (w : Writer) (ls : List String) :
    ls.foldl add w = { w with text := w.text ++ String.join (ls.map (written w.level)) } := by
  induction ls generalizing w with
  | nil => simp
  | cons l ls ih =>
    rw [List.foldl_cons, ih, add_eq]
    simp [String.append_assoc]

theorem line_zero (l : String) : line 0 l = l ++ "\n" := by
  rw [line]
  split
  · next h => simp [h]
  · simp [Text.indent]

theorem written_zero (s : String) : written 0 s = s ++ "\n" := by
  apply String.toList_injective
  have ended : (String.toList ∘ line 0) ∘ String.ofList = (· ++ ['\n']) := by
    funext cs
    simp [line_zero]
  have pieces : (written 0 s).toList =
      (Text.splitLines s.toList).flatMap ((String.toList ∘ line 0) ∘ String.ofList) := by
    rw [written, String.toList_join, Text.lines, List.map_map, List.flatMap_map]
    rfl
  rw [pieces, ended, Text.splitLines, Text.flatMap_split]
  simp

end Writer

namespace Declaration

theorem name_asNet (d : Declaration) : d.asNet.name = d.name := by
  rw [asNet]
  split <;> rfl

theorem isParameter_asNet (d : Declaration) : d.asNet.kind.isParameter = d.kind.isParameter := by
  rw [asNet]
  split
  · next h =>
    rw [h]
    rfl
  · rfl

end Declaration

theorem Entry.names_parameters (e : Entry) :
    e.parameters.map (·.name) = (e.atoms.filter (·.kind.isParameter)).map (·.name) := by
  rw [parameters, declared]
  split
  · rw [List.filter_map, List.map_map]
    simp only [Function.comp_def, Declaration.isParameter_asNet, Declaration.name_asNet]
  · rfl

def Entry.codeTitles : List String :=
  ["Update code", "Update code (custom)", "Update code (wrapper)"]

theorem Entry.titles_codeSection (e : Entry) : e.codeSection.map Prod.fst ⊆ codeTitles := by
  rw [codeSection]
  split
  · split <;> simp [codeTitles]
  · split <;> simp [codeTitles]
  · split <;> simp [codeTitles]
  · exact List.nil_subset codeTitles
  · exact List.nil_subset codeTitles

namespace Table

open Writer (written)

def groupText : String × List String → String
  | (_, []) => ""
  | (title, ls) => written 1 "" ++ written 1 ("// " ++ title) ++ String.join (ls.map (written 1))

def page (key : String) (ports : List String) (groups : List (String × List String)) : String :=
  written 0 ("module " ++ key ++ "(" ++ ",".intercalate ports ++ ");")
    ++ String.join (groups.map groupText) ++ written 0 ("endmodule // " ++ key)

theorem addSection_eq (w : Writer) (h : w.level = 1) (group : String × List String) :
    addSection w group = { w with text := w.text ++ groupText group } := by
  obtain ⟨title, ls⟩ := group
  cases ls with
  | nil => simp [addSection, groupText]
  | cons l ls =>
    rw [addSection, Writer.foldl_add, Writer.add_eq, Writer.add_eq]
    · simp [groupText, h, String.append_assoc]
    · simp

theorem foldl_addSection (w : Writer) (h : w.level = 1) (groups : List (String × List String)) :
    groups.foldl addSection w =
      { w with text := w.text ++ String.join (groups.map groupText) } := by
  induction groups generalizing w with
  | nil => simp
  | cons group groups ih =>
    rw [List.foldl_cons, addSection_eq w h, ih _ (by exact h)]
    simp [String.append_assoc]

def leadText (e : Entry) : String :=
  if e.code.isWrapper then
    written 0 "// v-- Setting output parameters to net type for wrapped code." else ""

theorem addModule_eq (t : Table) (w : Writer) (h : w.level = 0) (key : String) (e : Entry) :
    t.addModule w key e =
      { w with
        text := w.text ++ ((if w.text = "" then "" else "\n") ++ (leadText e ++
          page key (e.parameters.map Declaration.name) (t.sections e))) } := by
  have parted : (if w.size > 0 then w.add "" else w) =
      { w with text := w.text ++ if w.text = "" then "" else "\n" } := by
    by_cases blank : w.text = ""
    · rw [if_neg (by simp [Writer.size, blank]), if_pos blank, String.append_empty]
    · have bytes : 0 < w.size := Nat.pos_of_ne_zero (mt String.utf8ByteSize_eq_zero_iff.mp blank)
      rw [if_pos bytes, if_neg blank, Writer.add_eq, h, Writer.written_zero, String.empty_append]
  rw [addModule, parted, leadText]
  cases e.code.isWrapper <;>
    simp [Writer.add_eq, Writer.push, Writer.pop, foldl_addSection, page, h, String.append_assoc]

theorem moduleText_eq (t : Table) (key : String) (e : Entry) :
    t.moduleText key e =
      leadText e ++ page key (e.parameters.map Declaration.name) (t.sections e) := by
  simp [moduleText, t.addModule_eq {} rfl]

theorem moduleText_ne_empty (t : Table) (key : String) (e : Entry) : t.moduleText key e ≠ "" := by
  simp [moduleText_eq, page, Writer.written_zero]

theorem foldl_addModule (t : Table) (w : Writer) (h : w.level = 0) (begun : w.text ≠ "")
    (rows : List (String × Entry)) :
    rows.foldl (fun w row => t.addModule w row.1 row.2) w =
      { w with
        text := w.text ++ String.join (rows.map fun row => "\n" ++ t.moduleText row.1 row.2) } := by
  induction rows generalizing w with
  | nil => simp
  | cons row rows ih =>
    rw [List.foldl_cons, addModule_eq t w h, ← moduleText_eq, if_neg begun, ih _ (by exact h)]
    · simp [String.append_assoc]
    · simp [begun]

theorem foldl_addExternal (w : Writer) (h : w.level = 0) (xs : List String) :
    xs.foldl (fun w x => (w.add "").add x) w =
      { w with text := w.text ++ String.join (xs.map fun x => "\n" ++ (({} : Writer).add x).text) } := by
  induction xs generalizing w with
  | nil => simp
  | cons x xs ih =>
    rw [List.foldl_cons, ih _ (by exact h)]
    simp [Writer.add_eq, h, Writer.written_zero, String.append_assoc]

theorem intercalate_cons (sep s : String) (ss : List String) :
    sep.intercalate (s :: ss) = s ++ String.join (ss.map (sep ++ ·)) := by
  induction ss generalizing s with
  | nil => simp
  | cons a ss ih =>
    rw [String.intercalate_cons_of_ne_nil (by simp), ih]
    simp [String.append_assoc]

/-- One writer over all modules leaves what each of them leaves on a page of its own, with an empty
line between one page and the next. -/
theorem text_eq_intercalate (t : Table) :
    t.text = "\n".intercalate (t.emitted.map fun (key, e) => t.moduleText key e) ++
      String.join (t.externals.map fun x => "\n" ++ (({} : Writer).add x).text) := by
  rw [text]
  cases t.emitted with
  | nil => simp [foldl_addExternal]
  | cons row rows =>
    have first : t.addModule {} row.1 row.2 = { text := t.moduleText row.1 row.2 } := by
      simp [moduleText_eq, t.addModule_eq {} rfl]
    have rest := foldl_addModule t { text := t.moduleText row.1 row.2 } rfl
      (t.moduleText_ne_empty row.1 row.2) rows
    rw [List.foldl_cons, first, rest, foldl_addExternal _ rfl, List.map_cons, intercalate_cons,
      List.map_map]
    rfl

/-- The text has the module `key` with these ports and these groups of lines. -/
def HasModule (text key : String) (ports : List String) (groups : List (String × List String)) :
    Prop :=
  ∃ before after, text = before ++ page key ports groups ++ after

theorem HasModule.exists_group {text key : String} {ports : List String}
    {groups : List (String × List String)} (h : HasModule text key ports groups)
    {group : String × List String} (hg : group ∈ groups) :
    ∃ before after, text = before ++ groupText group ++ after := by
  obtain ⟨before, after, rfl⟩ := h
  obtain ⟨xs, ys, rfl⟩ := List.append_of_mem hg
  refine ⟨before ++ written 0 ("module " ++ key ++ "(" ++ ",".intercalate ports ++ ");")
      ++ String.join (xs.map groupText),
    String.join (ys.map groupText) ++ written 0 ("endmodule // " ++ key) ++ after, ?_⟩
  simp [page, String.append_assoc]

theorem exists_intercalate_append (sep s : String) (before after : List String) :
    ∃ rest, sep.intercalate (before ++ s :: after) =
      String.join (before.map (· ++ sep)) ++ s ++ rest := by
  induction before with
  | nil => exact ⟨String.join (after.map (sep ++ ·)), by simp [intercalate_cons]⟩
  | cons b before ih =>
    obtain ⟨rest, parts⟩ := ih
    refine ⟨rest, ?_⟩
    rw [List.cons_append, String.intercalate_cons_of_ne_nil (by simp), parts]
    simp [String.append_assoc]

theorem mem_emitted_iff {t : Table} {key : String} {e : Entry} :
    (key, e) ∈ t.emitted ↔ t.get? key = some e ∧ key ≠ "" ∧ e.code.isBlackbox = false := by
  simp [emitted, mem_rows_iff]

theorem exists_text_of_emitted {t : Table} {key : String} {e : Entry} (h : (key, e) ∈ t.emitted) :
    ∃ before after, t.text = before ++ t.moduleText key e ++ after := by
  obtain ⟨xs, ys, rows⟩ := List.append_of_mem h
  obtain ⟨rest, parts⟩ := exists_intercalate_append "\n" (t.moduleText key e)
    (xs.map fun row => t.moduleText row.1 row.2) (ys.map fun row => t.moduleText row.1 row.2)
  rw [text_eq_intercalate, rows, List.map_append, List.map_cons, parts, String.append_assoc]
  exact ⟨_, _, rfl⟩

theorem hasModule_text {t : Table} {key : String} {e : Entry} (h : (key, e) ∈ t.emitted) :
    HasModule t.text key (e.parameters.map Declaration.name) (t.sections e) := by
  obtain ⟨before, after, split⟩ := exists_text_of_emitted h
  refine ⟨before ++ leadText e, after, ?_⟩
  rw [split, moduleText_eq]
  simp only [String.append_assoc]

theorem text_of_render {t : Table} {text : String} (h : t.render = .ok text) :
    text = t.text := by
  rw [render] at h
  split at h
  · cases h
  · split at h
    · exact (Except.ok.inj h).symm
    · cases h

end Table

namespace Generation

theorem render_of_unchecked {root : Block} {top text : String}
    (h : (unchecked (some root) top).result = .ok text) :
    top ≠ "" ∧ ∃ t, root.table top = .ok t ∧ t.render = .ok text := by
  rw [unchecked] at h
  split at h
  · cases h
  · next htop =>
    refine ⟨htop, ?_⟩
    split at h
    · cases h
    · next t ht =>
      refine ⟨t, ht, ?_⟩
      split at h
      · cases h
      · cases h
      · next hrender => exact hrender.trans h

theorem unchecked_of_render {root : Block} {top text : String} {t : Table} (htop : top ≠ "")
    (h : root.table top = .ok t) (render : t.render = .ok text) :
    (unchecked (some root) top).result = .ok text := by
  simp [unchecked, htop, h, render]

end Generation

end Circuitry
