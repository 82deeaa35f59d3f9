import Circuitry.Proofs.Listing
import Circuitry.Proofs.Readability

/-!
One module taken out of the text of a table. The search for the header looks at the whole text and at
nothing but characters, so names that start alike, titles and comments are all in its way; yet what is
written before a module has its header nowhere, and what is written inside it has its end line nowhere,
as long as the bodies do not speak of modules. What is taken out is then the module as it was written.
-/

namespace Circuitry

namespace Text

variable {part : List Char}

/-- `part` starts nowhere in the text, whatever follows the text. -/
def Absent (part : List Char) : List Char → Prop
  | [] => True
  | c :: cs => (∀ rest, ¬ part <+: c :: (cs ++ rest)) ∧ Absent part cs

theorem Absent.append {cs ds : List Char} (hcs : Absent part cs) (hds : Absent part ds) :
    Absent part (cs ++ ds) := by
  induction cs with
  | nil => exact hds
  | cons c cs ih =>
    refine ⟨fun rest => ?_, ih hcs.2⟩
    simpa [List.append_assoc] using hcs.1 (ds ++ rest)

theorem prefix_of_prefix_append {c : Char} (h : c ∉ part) {cs rest : List Char}
    (lead : part <+: cs ++ c :: rest) : part <+: cs := by
  induction cs generalizing part with
  | nil =>
    cases part with
    | nil => exact List.nil_prefix
    | cons p ps => exact absurd (.head _) ((List.cons_prefix_cons.mp lead).1 ▸ h)
  | cons a cs ih =>
    cases part with
    | nil => exact List.nil_prefix
    | cons p ps =>
      rw [List.mem_cons, not_or] at h
      obtain ⟨first, others⟩ := List.cons_prefix_cons.mp lead
      exact List.cons_prefix_cons.mpr ⟨first, ih h.2 others⟩

theorem absent_line (ne : part ≠ []) (newline : '\n' ∉ part) {l : List Char} (h : ¬ part <:+: l) :
    Absent part (l ++ ['\n']) := by
  induction l with
  | nil =>
    refine ⟨fun rest lead => ?_, trivial⟩
    have none : part <+: [] := prefix_of_prefix_append newline lead
    exact ne (List.prefix_nil.mp none)
  | cons c l ih =>
    rw [List.infix_cons_iff, not_or] at h
    refine ⟨fun rest lead => h.1 ?_, ih h.2⟩
    have longer : part <+: (c :: l) ++ '\n' :: rest := by simpa using lead
    exact prefix_of_prefix_append newline longer

theorem Absent.mono {short : List Char} (h : short <+: part) {cs : List Char}
    (hcs : Absent short cs) : Absent part cs := by
  induction cs with
  | nil => trivial
  | cons c cs ih => exact ⟨fun rest lead => hcs.1 rest (h.trans lead), ih hcs.2⟩

theorem breakOn_of_absent {before rest : List Char} (h : Absent part before) (ne : part ≠ [])
    (found : part <+: rest) : breakOn part (before ++ rest) = some (before, rest) := by
  induction before with
  | nil =>
    obtain ⟨after, rfl⟩ := found
    cases part with
    | nil => exact absurd rfl ne
    | cons p ps =>
      have starts : afterLead (p :: ps) (p :: ps ++ after) = some after :=
        afterLead_eq_some_iff.mpr rfl
      rw [List.nil_append, List.cons_append, breakOn, ← List.cons_append, starts]
      rfl
  | cons c cs ih =>
    have other : afterLead part (c :: (cs ++ rest)) = none := by
      rw [Option.eq_none_iff_forall_ne_some]
      intro after starts
      exact h.1 rest ⟨after, (afterLead_eq_some_iff.mp starts).symm⟩
    rw [List.cons_append, breakOn, other, ih h.2]
    rfl

/-- Whole lines, and `part` starts in none of them. -/
structure Clear (part : List Char) (s : String) : Prop where
  absent : Absent part s.toList
  ended : s.toList.getLast?.getD '\n' = '\n'

theorem Clear.empty (part : List Char) : Clear part "" := ⟨trivial, rfl⟩

theorem Clear.append {s t : String} (hs : Clear part s) (ht : Clear part t) : Clear part (s ++ t) where
  absent := by
    rw [String.toList_append]
    exact hs.absent.append ht.absent
  ended := by
    have ended := ht.ended
    rw [String.toList_append, List.getLast?_append]
    cases last : t.toList.getLast? with
    | none => exact hs.ended
    | some c => simpa [last] using ended

theorem Clear.join {ss : List String} (h : ∀ s ∈ ss, Clear part s) : Clear part (String.join ss) := by
  induction ss with
  | nil => exact .empty part
  | cons s ss ih =>
    rw [List.forall_mem_cons] at h
    rw [String.join_cons]
    exact h.1.append (ih h.2)

theorem clear_line (ne : part ≠ []) (newline : '\n' ∉ part) {l : String} (h : ¬ part <:+: l.toList) :
    Clear part (l ++ "\n") where
  absent := by
    rw [String.toList_append]
    exact absent_line ne newline h
  ended := by simp

theorem not_infix_indent {l : List Char} (blank : part.head? ≠ some ' ') (ne : part ≠ [])
    (h : ¬ part <:+: l) (level : Nat) : ¬ part <:+: (indent level).toList ++ l := by
  obtain ⟨p, ps, rfl⟩ := List.exists_cons_of_ne_nil ne
  have other : p ≠ ' ' := fun same => blank (congrArg some same)
  induction level with
  | zero => simpa [indent] using h
  | succ level ih =>
    simp only [indent, String.toList_append, List.append_assoc]
    simpa [List.infix_cons_iff, List.cons_prefix_cons, other] using ih

theorem clear_written (blank : part.head? ≠ some ' ') (ne : part ≠ []) (newline : '\n' ∉ part)
    (level : Nat) {s : String} (h : ∀ l ∈ lines s, ¬ part <:+: l.toList) :
    Clear part (Writer.written level s) := by
  refine .join fun piece hpiece => ?_
  obtain ⟨l, hl, rfl⟩ := List.mem_map.mp hpiece
  rw [Writer.line]
  split
  · exact clear_line (l := "") ne newline (by simpa using ne)
  · apply clear_line ne newline
    rw [String.toList_append]
    exact not_infix_indent blank ne (h l hl) level

def isNameChar (c : Char) : Bool := isWord c || 0x80 ≤ c.toNat

def IsName (s : String) : Prop := ∀ c ∈ s.toList, isNameChar c = true

-- One character after the other: there is also an instance that goes through all characters there are.
instance (s : String) : Decidable (IsName s) := List.decidableBAll (isNameChar · = true) s.toList

theorem IsName.not_mem {s : String} (h : IsName s) {c : Char} (hc : isNameChar c = false) :
    c ∉ s.toList := by
  intro mem
  simp [h c mem] at hc

end Text

namespace Inspect

open Text (Clear)

theorem moduleBody_of_clear {name before inner : String}
    (outside : Clear ("module " ++ name ++ "(").toList before)
    (header : ("module " ++ name ++ "(").toList <+: inner.toList)
    (inside : Clear ("endmodule // " ++ name).toList inner) (after : String) :
    moduleBody (before ++ (inner ++ ("endmodule // " ++ name ++ "\n")) ++ after) name =
      inner ++ ("endmodule // " ++ name ++ "\n") := by
  let ending := "endmodule // " ++ name ++ "\n"
  have opens : Text.breakOn ("module " ++ name ++ "(").toList
      (before ++ (inner ++ ending) ++ after).toList =
        some (before.toList, inner.toList ++ (ending ++ after).toList) := by
    have parts : (before ++ (inner ++ ending) ++ after).toList =
        before.toList ++ (inner.toList ++ (ending ++ after).toList) := by simp
    rw [parts]
    exact Text.breakOn_of_absent outside.absent (by simp) (header.trans (List.prefix_append _ _))
  have closes : Text.breakOn ending.toList (inner.toList ++ (ending ++ after).toList) =
      some (inner.toList, (ending ++ after).toList) := by
    have absent : Text.Absent ending.toList inner.toList := by
      apply inside.absent.mono
      simp [ending]
    exact Text.breakOn_of_absent absent (by simp [ending]) (by simp)
  rw [moduleBody, opens]
  simp only [outside.ended, ne_eq, not_true_eq_false, if_false]
  rw [closes]
  simp only [String.ofList_toList]

end Inspect

namespace Table

open Text (Clear IsName)
open Writer (written)

def titles : List String :=
  ["Module arguments", "Constant declarations", "Enums", "Stub signals", "Local signals",
    "Sub module instances"] ++ Entry.codeTitles

/-- Modules and ports are named by identifiers, and no line of a module that is not a title says
`module`. -/
structure Quiet (t : Table) : Prop where
  key : ∀ row ∈ t.emitted, IsName row.1
  port : ∀ row ∈ t.emitted, ∀ a ∈ row.2.atoms, a.kind.isParameter = true → IsName a.name
  line : ∀ row ∈ t.emitted, ∀ group ∈ t.sections row.2, ∀ s ∈ group.2, ∀ l ∈ Text.lines s,
    ¬ "module ".toList <:+: l.toList

variable {t : Table} {key other : String} {e : Entry}

theorem titles_sections (t : Table) (e : Entry) : (t.sections e).map Prod.fst ⊆ titles := by
  rw [sections, List.map_append, List.map_append]
  have code : e.codeSection.map Prod.fst ⊆ titles :=
    List.Subset.trans e.titles_codeSection (List.subset_append_right _ _)
  refine List.append_subset.mpr ⟨List.append_subset.mpr ⟨?_, ?_⟩, code⟩
  · simp [titles]
  · split <;> simp [titles]

theorem lines_title {title : String} (h : title ∈ titles) :
    Text.lines ("// " ++ title) = ["// " ++ title] := by
  have single : ∀ title ∈ titles, Text.lines ("// " ++ title) = ["// " ++ title] := by
    decide +kernel
  exact single title h

def opening (key : String) : List Char := ("module " ++ key ++ "(").toList

def closing (key : String) : List Char := ("endmodule // " ++ key).toList

def header (key : String) (ports : List String) : String :=
  "module " ++ key ++ "(" ++ ",".intercalate ports ++ ");"

section Header

variable {ports : List String} (named : IsName other) (portsNamed : ∀ name ∈ ports, IsName name)

include portsNamed in
theorem not_mem_ports {c : Char} (hc : Text.isNameChar c = false) (marks : c ∉ [',', ')', ';']) :
    c ∉ (",".intercalate ports).toList ++ [')', ';'] := by
  have list : c ∉ (",".intercalate ports).toList := by
    refine Text.not_mem_intercalate ?_ fun name hname => (portsNamed name hname).not_mem hc
    exact fun comma => marks (List.mem_cons.mpr (.inl (List.mem_singleton.mp comma)))
  rw [List.mem_append, not_or]
  exact ⟨list, fun mem => marks (.tail _ mem)⟩

include named portsNamed in
/-- The header of a module stands in no other header: the one blank of a header comes before the key,
and the key ends at the parenthesis. -/
theorem not_opening_infix_header (ne : key ≠ other) :
    ¬ opening key <:+: (header other ports).toList := by
  rintro ⟨before, after, h⟩
  let tail := (",".intercalate ports).toList ++ [')', ';']
  have blank : ' ' ∉ other.toList ++ '(' :: tail := by
    have own := named.not_mem (c := ' ') rfl
    have list : ' ' ∉ tail := not_mem_ports portsNamed rfl (by decide)
    simp [own, list]
  have paren : '(' ∉ tail := not_mem_ports portsNamed rfl (by decide)
  have parts : "module".toList ++ ' ' :: (other.toList ++ '(' :: tail) =
      (before ++ "module".toList) ++ ' ' :: (key.toList ++ '(' :: after) := by
    calc "module".toList ++ ' ' :: (other.toList ++ '(' :: tail)
        = (header other ports).toList := by simp [header, tail]
      _ = before ++ opening key ++ after := h.symm
      _ = (before ++ "module".toList) ++ ' ' :: (key.toList ++ '(' :: after) := by simp [opening]
  obtain ⟨-, -, rest⟩ := (List.append_cons_inj_of_notMem (by decide) blank).mp parts
  obtain ⟨same, -, -⟩ := (List.append_cons_inj_of_notMem (named.not_mem rfl) paren).mp rest
  exact ne (String.toList_injective same.symm)

include named portsNamed in
theorem not_closing_infix_header : ¬ closing key <:+: (header other ports).toList := by
  have slash : '/' ∉ (header other ports).toList := by
    have own := named.not_mem (c := '/') rfl
    have list := not_mem_ports portsNamed (c := '/') rfl (by decide)
    simp only [List.mem_append, not_or] at list
    simp only [header, String.toList_append, List.mem_append, not_or]
    exact ⟨⟨⟨⟨by decide, own⟩, by decide⟩, list.1⟩, by decide⟩
  exact fun h => slash (h.subset (by simp [closing]))

end Header

/-- What can be searched for among the lines of a module: a piece of one line that says `module`, but
is in no title. -/
structure Mark (part : List Char) : Prop where
  ne : part ≠ []
  blank : part.head? ≠ some ' '
  newline : '\n' ∉ part
  word : "module ".toList <:+: part
  title : ∀ title ∈ titles, ¬ part <:+: ("// " ++ title).toList

theorem mark_opening (named : IsName key) : Mark (opening key) where
  ne := by simp [opening]
  blank := by simp [opening]
  newline := by simp [opening, named.not_mem (c := '\n') rfl]
  word := ⟨[], key.toList ++ ['('], by simp [opening]⟩
  title title h found := by
    have apart : ∀ title ∈ titles, '(' ∉ ("// " ++ title).toList ∨
        ¬ "module ".toList <:+: ("// " ++ title).toList := by decide +kernel
    rcases apart title h with paren | word
    · exact paren (found.subset (by simp [opening]))
    · exact word (List.IsInfix.trans ⟨[], key.toList ++ ['('], by simp [opening]⟩ found)

theorem mark_closing (named : IsName key) : Mark (closing key) where
  ne := by simp [closing]
  blank := by simp [closing]
  newline := by simp [closing, named.not_mem (c := '\n') rfl]
  word := ⟨['e', 'n', 'd'], "// ".toList ++ key.toList, by simp [closing]⟩
  title title h found := by
    have apart : ∀ title ∈ titles, ¬ "endmodule".toList <:+: ("// " ++ title).toList := by
      decide +kernel
    exact apart title h (List.IsInfix.trans ⟨[], " // ".toList ++ key.toList, by simp [closing]⟩ found)

theorem clear_groupText {part : List Char} (mark : Mark part) {group : String × List String}
    (known : group.1 ∈ titles)
    (body : ∀ s ∈ group.2, ∀ l ∈ Text.lines s, ¬ "module ".toList <:+: l.toList) :
    Clear part (groupText group) := by
  have written {s : String} (h : ∀ l ∈ Text.lines s, ¬ part <:+: l.toList) :
      Clear part (written 1 s) := Text.clear_written mark.blank mark.ne mark.newline 1 h
  obtain ⟨title, ls⟩ := group
  cases ls with
  | nil => exact .empty part
  | cons l ls =>
    refine .append (.append (written ?_) (written ?_)) (.join ?_)
    · simpa [Text.lines, Text.splitLines] using mark.ne
    · rw [lines_title known]
      simpa using mark.title title known
    · intro s hs
      obtain ⟨line, hline, rfl⟩ := List.mem_map.mp hs
      exact written fun l hl found => body line hline l hl (mark.word.trans found)

theorem clear_sections {part : List Char} (mark : Mark part) (quiet : t.Quiet)
    (listed : (key, e) ∈ t.emitted) : Clear part (String.join ((t.sections e).map groupText)) := by
  refine .join fun s hs => ?_
  obtain ⟨group, hgroup, rfl⟩ := List.mem_map.mp hs
  exact clear_groupText mark (titles_sections t e (List.mem_map_of_mem hgroup))
    (quiet.line _ listed group hgroup)

theorem Quiet.ports (quiet : t.Quiet) (listed : (key, e) ∈ t.emitted) :
    ∀ name ∈ e.parameters.map Declaration.name, IsName name := by
  intro name hname
  rw [Entry.names_parameters] at hname
  obtain ⟨a, ha, rfl⟩ := List.mem_map.mp hname
  obtain ⟨own, parameter⟩ := List.mem_filter.mp ha
  exact quiet.port _ listed a own parameter

def inner (t : Table) (key : String) (e : Entry) : String :=
  header key (e.parameters.map Declaration.name) ++ "\n" ++
    String.join ((t.sections e).map groupText)

theorem moduleText_eq_inner (t : Table) (key : String) (e : Entry) :
    t.moduleText key e = leadText e ++ (t.inner key e ++ ("endmodule // " ++ key ++ "\n")) := by
  rw [moduleText_eq, page, Writer.written_zero, Writer.written_zero]
  rfl

theorem clear_inner (quiet : t.Quiet) (listed : (key, e) ∈ t.emitted) :
    Clear (closing key) (t.inner key e) := by
  have named := quiet.key _ listed
  have mark := mark_closing named
  exact .append (Text.clear_line mark.ne mark.newline
    (not_closing_infix_header named (quiet.ports listed))) (clear_sections mark quiet listed)

theorem clear_leadText (named : IsName key) (e : Entry) : Clear (opening key) (leadText e) := by
  have mark := mark_opening named
  rw [leadText]
  split
  · rw [Writer.written_zero]
    apply Text.clear_line mark.ne mark.newline
    have paren : '(' ∉
        "// v-- Setting output parameters to net type for wrapped code.".toList := by decide
    exact fun found => paren (found.subset (by simp [opening]))
  · exact .empty _

theorem clear_moduleText (quiet : t.Quiet) (named : IsName key) (listed : (other, e) ∈ t.emitted)
    (ne : key ≠ other) : Clear (opening key) (t.moduleText other e) := by
  have mark := mark_opening named
  have otherNamed := quiet.key _ listed
  rw [moduleText_eq_inner]
  refine .append (clear_leadText named e) (.append (.append ?_ (clear_sections mark quiet listed)) ?_)
  · exact Text.clear_line mark.ne mark.newline
      (not_opening_infix_header otherNamed (quiet.ports listed) ne)
  · apply Text.clear_line mark.ne mark.newline
    have paren : '(' ∉ ("endmodule // " ++ other).toList := by
      simp [otherNamed.not_mem (c := '(') rfl]
    exact fun found => paren (found.subset (by simp [opening]))

theorem exists_text_of_quiet (quiet : t.Quiet) (listed : (key, e) ∈ t.emitted) :
    ∃ before after, t.text = before ++ (t.inner key e ++ ("endmodule // " ++ key ++ "\n")) ++ after ∧
      Clear (opening key) before := by
  obtain ⟨xs, ys, rows⟩ := List.append_of_mem listed
  have named := quiet.key _ listed
  have distinct : ∀ row ∈ xs, key ≠ row.1 := by
    have keys : (t.emitted.map Prod.fst).Pairwise (· < ·) :=
      t.ordered.sublist (List.filter_sublist.map Prod.fst)
    rw [rows, List.map_append, List.pairwise_append] at keys
    intro row hrow
    exact (String.ne_of_lt (keys.2.2 row.1 (List.mem_map_of_mem hrow) key (by simp))).symm
  obtain ⟨rest, parts⟩ := exists_intercalate_append "\n" (t.moduleText key e)
    (xs.map fun row => t.moduleText row.1 row.2) (ys.map fun row => t.moduleText row.1 row.2)
  refine ⟨String.join ((xs.map fun row => t.moduleText row.1 row.2).map (· ++ "\n")) ++ leadText e,
    rest ++ String.join (t.externals.map fun x => "\n" ++ (({} : Writer).add x).text), ?_, ?_⟩
  · rw [text_eq_intercalate, rows, List.map_append, List.map_cons, parts, moduleText_eq_inner]
    simp only [String.append_assoc]
  · refine .append (.join fun s hs => ?_) (clear_leadText named e)
    rw [List.map_map] at hs
    obtain ⟨row, hrow, rfl⟩ := List.mem_map.mp hs
    have mark := mark_opening named
    have own : (row.1, row.2) ∈ t.emitted := rows ▸ List.mem_append_left _ hrow
    exact .append (clear_moduleText quiet named own (distinct row hrow))
      (Text.clear_line (l := "") mark.ne mark.newline (by simpa using mark.ne))

/-- Each module is found in the text of its table, and is taken out as it was written, without the mark
that wrapped code has before its header. What the external texts hold does not matter. -/
theorem moduleBody_eq_moduleText (t : Table) (resolved : t.unresolved = none) (quiet : t.Quiet) :
    ((∃ text, t.render = .ok text) ↔ ∀ row ∈ t.emitted, row.2.code.complete = true) ∧
      ∀ text, t.render = .ok text → ∀ key e, (key, e) ∈ t.emitted →
        t.moduleText key e =
          (if e.code.isWrapper then
            "// v-- Setting output parameters to net type for wrapped code.\n" else "") ++
          Inspect.moduleBody text key := by
  refine ⟨render_ok_iff resolved, fun text htext key e listed => ?_⟩
  obtain ⟨before, after, parts, outside⟩ := exists_text_of_quiet quiet listed
  have header : opening key <+: (t.inner key e).toList := by
    simp [inner, Table.header, opening]
  have body := Inspect.moduleBody_of_clear outside header (clear_inner quiet listed) after
  have lead : leadText e = if e.code.isWrapper then
      "// v-- Setting output parameters to net type for wrapped code.\n" else "" := by
    rw [leadText, Writer.written_zero]
    rfl
  rw [text_of_render htext, parts, body, moduleText_eq_inner, lead]

def lookalikes : Table where
  rows :=
    [("", { instances := [{ name := "top", target := "top" }] }),
      ("instances",
        { atoms := [{ name := "q", kind := .output, width := 4, literal := "", signed := false }]
          code := .wrapper "assign q = 4; // module" "module top$a();\nendmodule // top$a" }),
      ("top",
        { instances :=
            [{ name := "instances", target := "instances" }, { name := "a", target := "top$a" }]
          code := .custom "endmodule\n\n  // top$a(" }),
      ("top$a", {})]
  ordered := by decide

theorem moduleBody_eq_moduleText_lookalikes :
    lookalikes.unresolved = none ∧ lookalikes.Quiet ∧ ∃ text, lookalikes.render = .ok text ∧
      Inspect.moduleBody text "instances" =
        "module instances(q);\n\n    // Module arguments\n    output wire [3:0] q;\n\n" ++
          "    // Update code (wrapper)\n    assign q = 4; // module\nendmodule // instances\n" ∧
      Inspect.moduleBody text "top$a" = "module top$a();\nendmodule // top$a\n" := by
  have quiet : lookalikes.Quiet := ⟨by decide +kernel, by decide +kernel, by decide +kernel⟩
  obtain ⟨written, extracted⟩ := moduleBody_eq_moduleText lookalikes rfl quiet
  obtain ⟨text, htext⟩ := written.mpr (by decide)
  have wrapped := extracted text htext "instances" _ (mem_emitted_iff.mpr ⟨rfl, by decide, rfl⟩)
  have plain := extracted text htext "top$a" _ (mem_emitted_iff.mpr ⟨rfl, by decide, rfl⟩)
  refine ⟨rfl, quiet, text, htext, (String.append_right_inj _).mp (wrapped.symm.trans ?_),
    (String.append_right_inj _).mp (plain.symm.trans ?_)⟩
  · decide +kernel
  · decide +kernel

end Table

end Circuitry
