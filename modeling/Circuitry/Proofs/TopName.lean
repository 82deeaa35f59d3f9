import Circuitry.Proofs.Closure
import Circuitry.Proofs.Consistency
import Circuitry.Proofs.Hierarchy

/-!
The name of the top in what is generated. Every key but the empty one is the top name with something
behind it, which the names below the top make up alone. So another top name changes the keys and the
modules of the instances at their start, and nothing else.
-/

namespace Circuitry

namespace Text

/-- Put `u` for the leading `t`. A text that does not start with `t` stays as it is. -/
def swapLead (t u s : String) : String :=
  match afterLead t.toList s.toList with
  | some rest => u ++ String.ofList rest
  | none => s

theorem swapLead_append (t u rest : String) : swapLead t u (t ++ rest) = u ++ rest := by
  have found : afterLead t.toList (t ++ rest).toList = some rest.toList := by
    rw [afterLead_eq_some_iff, String.toList_append]
  simp only [swapLead, found, String.ofList_toList]

theorem swapLead_empty {t : String} (h : t ≠ "") (u : String) : swapLead t u "" = "" := by
  have absent : afterLead t.toList "".toList = none := by
    rw [← Option.not_isSome_iff_eq_none, Option.isSome_iff_exists]
    rintro ⟨rest, found⟩
    rw [afterLead_eq_some_iff] at found
    exact h (String.toList_inj.mp (List.append_eq_nil_iff.mp found.symm).1)
  rw [swapLead, absent]

theorem append_ne_empty {t : String} (h : t ≠ "") (rest : String) : t ++ rest ≠ "" :=
  fun empty => h (String.append_eq_empty_iff.mp empty).1

theorem append_lt_append_iff (c : String) {a b : String} : c ++ a < c ++ b ↔ a < b := by
  have lists : (c ++ a).toList < (c ++ b).toList ↔ a.toList < b.toList := by
    rw [String.toList_append, String.toList_append]
    exact Circuitry.append_lt_append_iff c.toList
  exact lists

end Text

namespace Path

def below (p : Path) : String := if p = [] then "" else "$" ++ p.flat

theorem flat_top (top : String) (p : Path) : flat (top :: p) = top ++ p.below := by
  rw [below]
  split
  · next h => simp [h]
  · next h => rw [flat_cons h, String.append_assoc]

end Path

def Instance.retarget (f : String → String) (i : Instance) : Instance :=
  { i with target := f i.target }

def Entry.retarget (f : String → String) (e : Entry) : Entry :=
  { e with instances := e.instances.map (·.retarget f) }

def Note.retarget (f : String → String) : Note → Note
  | .inst i => .inst (i.retarget f)
  | n => n

namespace Note

variable (f : String → String) (n : Note)

theorem atom?_retarget : (n.retarget f).atom? = n.atom? := by cases n <;> rfl

theorem inst?_retarget : (n.retarget f).inst? = n.inst?.map (·.retarget f) := by cases n <;> rfl

theorem constants_retarget : (n.retarget f).constants = n.constants := by cases n <;> rfl

theorem code?_retarget : (n.retarget f).code? = n.code? := by cases n <;> rfl

end Note

theorem Entry.extend_retarget (f : String → String) (e : Entry) (ns : List Note) :
    (e.retarget f).extend (ns.map (·.retarget f)) = (e.extend ns).retarget f := by
  apply Entry.ext
  · simp only [extend, retarget, List.filterMap_map, Function.comp_def, Note.atom?_retarget]
  · simp only [extend, retarget, List.filterMap_map, Function.comp_def, Note.inst?_retarget,
      List.map_append, List.map_filterMap]
  · simp only [extend, retarget, List.flatMap_map, Note.constants_retarget]
    rfl
  · simp only [extend, retarget, List.filterMap_map, Function.comp_def, Note.code?_retarget]

theorem Entry.after_retarget (f : String → String) (ns : List Note) :
    after none (ns.map (·.retarget f)) = (after none ns).map (·.retarget f) := by
  cases ns with
  | nil => rfl
  | cons n ns => exact congrArg some (extend_retarget f {} (n :: ns))

section Notes

variable {t u : String}

theorem Path.flat_top_eq_iff (p : Path) (rest : String) :
    flat (u :: p) = u ++ rest ↔ flat (t :: p) = t ++ rest := by
  rw [flat_top, flat_top, String.append_right_inj, String.append_right_inj]

theorem Text.swapLead_flat (p : Path) : swapLead t u (Path.flat (t :: p)) = Path.flat (u :: p) := by
  rw [Path.flat_top, Path.flat_top, swapLead_append]

variable (ht : t ≠ "") (hu : u ≠ "")

include ht hu

theorem Path.parent_top_eq_iff (p : Path) (rest : String) :
    parent (u :: p) = u ++ rest ↔ parent (t :: p) = t ++ rest := by
  obtain rfl | ⟨q, name, rfl⟩ := p.eq_nil_or_concat
  · have empty {top : String} (h : top ≠ "") : parent [top] ≠ top ++ rest :=
      (Text.append_ne_empty h rest).symm
    simp only [empty ht, empty hu]
  · rw [List.concat_eq_append, ← List.cons_append, ← List.cons_append, parent_concat, parent_concat]
    exact flat_top_eq_iff q rest

theorem notes_records_top (a : Atom) (p : Path) (name rest : String) :
    notes (u ++ rest) (a.records (u :: p) name) =
      (notes (t ++ rest) (a.records (t :: p) name)).map (·.retarget (Text.swapLead t u)) := by
  have last (named : Path.parent (t :: p) = t ++ rest) :
      Path.last (u :: p) = Path.last (t :: p) := by
    obtain rfl | ⟨q, name, rfl⟩ := p.eq_nil_or_concat
    · exact absurd named.symm (Text.append_ne_empty ht rest)
    · rw [List.concat_eq_append, ← List.cons_append, ← List.cons_append, Path.last_concat,
        Path.last_concat]
  have enums : (a.descriptor.constants.map Note.enums).map (·.retarget (Text.swapLead t u)) =
      a.descriptor.constants.map Note.enums := List.map_map
  have own := Path.flat_top_eq_iff (t := t) (u := u) p rest
  have around := Path.parent_top_eq_iff ht hu p rest
  simp only [notes_records, own, around, apply_ite (List.map _), List.map_append, enums]
  by_cases named : Path.parent (t :: p) = t ++ rest
  · rw [last named]
    rfl
  · simp only [if_neg named]
    rfl

open Block in
theorem notes_fieldRecords_top (p group : Path) (fs : List (Field × Block)) (rest : String) :
    notes (u ++ rest) (fieldRecords (u :: p) group fs) =
      (notes (t ++ rest) (fieldRecords (t :: p) group fs)).map
        (·.retarget (Text.swapLead t u)) := by
  induction fs using induction_boundaries generalizing p group with
  | nil => rfl
  | atom f a fs ih =>
    rw [fieldRecords_atom, fieldRecords_atom, notes_append, notes_append, List.map_append, ih,
      notes_records_top ht hu]
  | scope f c inner fs hc ihInner ih =>
    rw [fieldRecords_scope hc, fieldRecords_scope hc]
    have inner := ihInner (p ++ [group.qualify f.label]) []
    have here := Path.flat_top_eq_iff (t := t) (u := u) p rest
    have there := Path.flat_top_eq_iff (t := t) (u := u) (p ++ [group.qualify f.label]) rest
    have target := Text.swapLead_flat (t := t) (u := u) (p ++ [group.qualify f.label])
    simp only [List.cons_append, notes_cons, notes_append, List.map_append, ih, inner, here, there,
      apply_ite (List.map _), List.map_cons, List.map_nil, Note.retarget, Instance.retarget, target]
  | group f c inner fs hc ihInner ih =>
    rw [fieldRecords_group hc, fieldRecords_group hc, notes_append, notes_append, List.map_append,
      ih, ihInner]

end Notes

/-- A note about a module whose key is the top name and something behind it, or about the nameless
entry, which has no code. -/
structure Led (top : String) (r : String × Note) : Prop where
  key : r.1 = "" ∨ ∃ rest, r.1 = top ++ rest
  target : ∀ i, r.2 = .inst i → ∃ rest, i.target = top ++ rest
  code : ∀ c, r.2 = .code c → r.1 ≠ ""

namespace Block

variable {top : String} (htop : top ≠ "")

theorem led_records (a : Atom) (p : Path) (name : String) :
    ∀ r ∈ a.records (top :: p) name, Led top r := by
  rintro ⟨key, n⟩ hr
  have key := key_of_mem_records hr
  constructor
  · rcases key with key | key
    · obtain rfl | ⟨q, last, rfl⟩ := p.eq_nil_or_concat
      · exact .inl key
      · rw [List.concat_eq_append, ← List.cons_append, Path.parent_concat, Path.flat_top] at key
        exact .inr ⟨_, key⟩
    · exact .inr ⟨_, key.trans (Path.flat_top top p)⟩
  · rintro i rfl
    simp [Atom.records] at hr
  · rintro c rfl
    cases Event.code?_of_mem_records hr

include htop

theorem flat_top_ne_empty (p : Path) : Path.flat (top :: p) ≠ "" := by
  rw [Path.flat_top]
  exact Text.append_ne_empty htop _

theorem led_fieldRecords (p group : Path) (fs : List (Field × Block)) :
    ∀ r ∈ fieldRecords (top :: p) group fs, Led top r := by
  induction fs using induction_boundaries generalizing p group with
  | nil => exact List.forall_mem_nil _
  | atom f a fs ih =>
    rw [fieldRecords_atom, List.forall_mem_append]
    exact ⟨led_records a p _, ih p group⟩
  | scope f c inner fs hc ihInner ih =>
    have deeper := Path.flat_top top (p ++ [group.qualify f.label])
    rw [fieldRecords_scope hc]
    simp only [List.cons_append, List.forall_mem_cons, List.forall_mem_append]
    refine ⟨⟨.inr ⟨_, Path.flat_top top p⟩, ?_, nofun⟩, ⟨.inr ⟨_, deeper⟩, nofun, ?_⟩, ?_⟩
    · rintro i ⟨⟩
      exact ⟨_, deeper⟩
    · exact fun _ _ => flat_top_ne_empty htop _
    · exact ⟨ihInner _ _, ih _ _⟩
  | group f c inner fs hc ihInner ih =>
    rw [fieldRecords_group hc, List.forall_mem_append]
    exact ⟨ihInner _ _, ih _ _⟩

end Block

structure Table.Led (top : String) (a : Table) : Prop where
  keys : ∀ key ∈ a.keys, key = "" ∨ ∃ rest, key = top ++ rest
  targets : ∀ key e, a.get? key = some e → ∀ i ∈ e.instances, ∃ rest, i.target = top ++ rest
  nameless : ∃ e, a.get? "" = some e ∧ e.code = .empty

namespace Block

section Tables

variable {root : Block} (hroot : root.isScope = true) {top : String} (htop : top ≠ "") {a : Table}
  (ha : root.table top = .ok a)

include hroot htop

theorem led_root : ∀ r ∈ root.records [] [] top, Circuitry.Led top r := by
  obtain ⟨c, fs, rfl, hc⟩ := exists_of_isScope hroot
  rw [records_root hc]
  simp only [List.forall_mem_cons]
  refine ⟨⟨.inl rfl, ?_, nofun⟩, ⟨.inr ⟨"", String.append_empty.symm⟩, nofun, fun _ _ => htop⟩,
    led_fieldRecords htop [] [] fs⟩
  rintro i ⟨⟩
  exact ⟨"", String.append_empty.symm⟩

include ha

theorem led_table : a.Led top := by
  have led := led_root hroot htop
  have entry {key : String} {e : Entry} : a.get? key = some e ↔
      notes key (root.records [] [] top) ≠ [] ∧
        e = ({} : Entry).extend (notes key (root.records [] [] top)) := by
    rw [get?_table ha]
    exact Entry.after_none_eq_some
  constructor
  · intro key hkey
    obtain ⟨e, he⟩ := (mem_keys_iff a key).mp hkey
    obtain ⟨n, hn⟩ := List.exists_mem_of_ne_nil _ (entry.mp he).1
    exact (led _ (mem_notes.mp hn)).key
  · intro key e he i hi
    rw [(entry.mp he).2] at hi
    simp only [Entry.extend, List.nil_append, List.mem_filterMap, Note.inst?_eq_some] at hi
    obtain ⟨n, hn, rfl⟩ := hi
    exact (led _ (mem_notes.mp hn)).target i rfl
  · have first : ("", .inst ⟨top, top⟩) ∈ root.records [] [] top := by
      obtain ⟨c, fs, rfl, hc⟩ := exists_of_isScope hroot
      rw [records_root hc]
      exact .head _
    have plain : (notes "" (root.records [] [] top)).filterMap Note.code? = [] := by
      rw [List.filterMap_eq_nil_iff]
      intro n hn
      cases n with
      | code c => exact absurd rfl ((led _ (mem_notes.mp hn)).code c rfl)
      | _ => rfl
    refine ⟨_, entry.mpr ⟨List.ne_nil_of_mem (mem_notes.mpr first), rfl⟩, ?_⟩
    simp only [Entry.extend, plain, List.getLast?_nil, Option.getD_none]

end Tables

section Pair

variable {root : Block} (hroot : root.isScope = true) {t u : String} (ht : t ≠ "") (hu : u ≠ "")
  {a b : Table} (ha : root.table t = .ok a) (hb : root.table u = .ok b)

include hroot ht hu ha hb

theorem get?_top (rest : String) :
    b.get? (u ++ rest) = (a.get? (t ++ rest)).map (·.retarget (Text.swapLead t u)) := by
  rw [get?_table ha, get?_table hb, ← Entry.after_retarget]
  congr 1
  obtain ⟨c, fs, rfl, hc⟩ := exists_of_isScope hroot
  have unnamed {top : String} (h : top ≠ "") : "" ≠ top ++ rest :=
    (Text.append_ne_empty h rest).symm
  have top := Path.flat_top_eq_iff (t := t) (u := u) [] rest
  rw [Path.flat_singleton, Path.flat_singleton] at top
  rw [records_root hc, records_root hc, notes_cons_of_ne (unnamed ht), notes_cons_of_ne (unnamed hu),
    notes_cons, notes_cons, notes_fieldRecords_top ht hu, List.map_append, if_congr top rfl rfl]
  split <;> rfl

end Pair

end Block

namespace Table

def named (a : Table) : List (String × Entry) := a.rows.filter (·.1 ≠ "")

theorem mem_named {a : Table} {key : String} {e : Entry} :
    (key, e) ∈ a.named ↔ key ≠ "" ∧ a.get? key = some e := by
  simp [named, mem_rows_iff, and_comm]

theorem Led.exists_rest {top : String} {a : Table} (led : a.Led top) {key : String} {e : Entry}
    (h : (key, e) ∈ a.named) : ∃ rest, key = top ++ rest := by
  obtain ⟨named, found⟩ := mem_named.mp h
  exact (led.keys key ((Block.mem_keys_iff a key).mpr ⟨e, found⟩)).resolve_left named

theorem Led.rows_eq {top : String} {a : Table} (led : a.Led top) :
    ∃ e : Entry, e.code = .empty ∧ a.rows = ("", e) :: a.named := by
  obtain ⟨e, he, code⟩ := led.nameless
  refine ⟨e, code, eq_of_ordered a.ordered ?_ ?_⟩
  · rw [List.map_cons, List.pairwise_cons]
    refine ⟨?_, a.ordered.sublist (List.filter_sublist.map _)⟩
    intro key hkey
    obtain ⟨⟨key, e⟩, hrow, rfl⟩ := List.mem_map.mp hkey
    obtain ⟨c, cs, text⟩ := List.exists_cons_of_ne_nil
      (mt String.toList_eq_nil_iff.mp (mem_named.mp hrow).1)
    have lt : "".toList < key.toList := text ▸ List.nil_lt_cons c cs
    exact lt
  · rintro ⟨key, e'⟩
    rw [mem_rows_iff, List.mem_cons, mem_named, Prod.mk.injEq]
    by_cases empty : key = ""
    · subst empty
      simp [he, eq_comm]
    · simp [empty]

def sectionsAs (f : String → String) (a : Table) (e : Entry) : List (String × List String) :=
  (a.sections e).map fun (title, ls) =>
    if title = "Sub module instances" then
      (title, e.instances.map fun i => (i.retarget f).text ((a.get? i.target).getD {}))
    else (title, ls)

def moduleTextAs (f : String → String) (a : Table) (key : String) (e : Entry) : String :=
  leadText e ++ page (f key) (e.parameters.map Declaration.name) (a.sectionsAs f e)

def textAs (f : String → String) (a : Table) : String :=
  "\n".intercalate (a.emitted.map fun row => a.moduleTextAs f row.1 row.2) ++ a.externalText

theorem codeSection_title {e : Entry} {group : String × List String} (h : group ∈ e.codeSection) :
    group.1 ≠ "Sub module instances" := by
  have known : group.1 ∈ Entry.codeTitles := e.titles_codeSection (List.mem_map_of_mem h)
  intro same
  exact absurd (same ▸ known) (by decide)

theorem sectionsAs_eq (f : String → String) (a : Table) (e : Entry) :
    a.sectionsAs f e =
      [("Module arguments", e.parameters.map Declaration.text),
        ("Constant declarations", e.constants.map Declaration.text)]
        ++ (if e.code.isWrapper then []
          else [("Enums", e.enums.map EnumConstant.text),
            ("Stub signals", e.stubs.map Declaration.text),
            ("Local signals", e.locals.map Declaration.text),
            ("Sub module instances",
              e.instances.map fun i => (i.retarget f).text ((a.get? i.target).getD {}))])
        ++ e.codeSection := by
  have code : e.codeSection.map (fun (title, ls) =>
      if title = "Sub module instances" then
        (title, e.instances.map fun i => (i.retarget f).text ((a.get? i.target).getD {}))
      else (title, ls)) = e.codeSection :=
    (List.map_congr_left fun group h => if_neg (codeSection_title h)).trans (List.map_id' _)
  rw [sectionsAs, sections, List.map_append, List.map_append, code]
  congr 2
  split <;> rfl

theorem textAs_id (a : Table) : a.textAs id = a.text := by
  have same (e : Entry) : a.sectionsAs id e = a.sections e := by
    rw [sectionsAs_eq, sections]
    rfl
  have texts (key : String) (e : Entry) : a.moduleTextAs id key e = a.moduleText key e := by
    rw [moduleTextAs, same, moduleText_eq]
    rfl
  simp only [textAs, texts, text_eq, modules, List.map_map]
  rfl

section Pair

variable {t u : String} {a b : Table} (ha : a.Led t) (hb : b.Led u)
  (entries : ∀ rest, b.get? (u ++ rest) = (a.get? (t ++ rest)).map (·.retarget (Text.swapLead t u)))

include ha entries

theorem sections_retarget {key : String} {e : Entry} (he : a.get? key = some e) :
    b.sections (e.retarget (Text.swapLead t u)) = a.sectionsAs (Text.swapLead t u) e := by
  have lines : ((e.retarget (Text.swapLead t u)).instances.map fun i =>
      i.text ((b.get? i.target).getD {})) =
        e.instances.map fun i =>
          (i.retarget (Text.swapLead t u)).text ((a.get? i.target).getD {}) := by
    rw [Entry.retarget, List.map_map]
    apply List.map_congr_left
    intro i hi
    obtain ⟨rest, target⟩ := ha.targets key e he i hi
    have child : b.get? (Text.swapLead t u i.target) =
        (a.get? i.target).map (·.retarget (Text.swapLead t u)) := by
      rw [target, Text.swapLead_append, entries]
    change (i.retarget _).text ((b.get? (Text.swapLead t u i.target)).getD {}) = _
    rw [child]
    cases a.get? i.target <;> rfl
  rw [sections, lines, sectionsAs_eq]
  rfl

variable (ht : t ≠ "") (hu : u ≠ "")

include hb ht hu

theorem named_eq :
    b.named = a.named.map fun row =>
      (Text.swapLead t u row.1, row.2.retarget (Text.swapLead t u)) := by
  apply eq_of_ordered
  · exact b.ordered.sublist (List.filter_sublist.map _)
  · have ordered : (a.named.map Prod.fst).Pairwise (· < ·) :=
      a.ordered.sublist (List.filter_sublist.map _)
    rw [List.pairwise_map] at ordered
    rw [List.map_map, List.pairwise_map]
    refine ordered.imp_of_mem fun {x y} hx hy lt => ?_
    obtain ⟨rest, first⟩ := ha.exists_rest hx
    obtain ⟨rest', second⟩ := ha.exists_rest hy
    rw [first, second, Text.append_lt_append_iff] at lt
    simp only [Function.comp_apply, first, second, Text.swapLead_append]
    exact (Text.append_lt_append_iff u).mpr lt
  · rintro ⟨key, e⟩
    rw [List.mem_map]
    constructor
    · intro h
      obtain ⟨rest, rfl⟩ := hb.exists_rest h
      have found := (mem_named.mp h).2
      rw [entries, Option.map_eq_some_iff] at found
      obtain ⟨e, found, rfl⟩ := found
      refine ⟨(t ++ rest, e), mem_named.mpr ⟨Text.append_ne_empty ht rest, found⟩, ?_⟩
      rw [Text.swapLead_append]
    · rintro ⟨⟨key, e⟩, h, ⟨⟩⟩
      obtain ⟨rest, rfl⟩ := ha.exists_rest h
      simp only [Text.swapLead_append]
      refine mem_named.mpr ⟨Text.append_ne_empty hu rest, ?_⟩
      rw [entries, (mem_named.mp h).2]
      rfl

theorem keys_eq : b.keys = a.keys.map (Text.swapLead t u) := by
  obtain ⟨e, -, rows⟩ := ha.rows_eq
  obtain ⟨e', -, rows'⟩ := hb.rows_eq
  rw [keys, keys, rows, rows', named_eq ha hb entries ht hu]
  simp [Text.swapLead_empty ht]

theorem emitted_eq :
    b.emitted = a.emitted.map fun row =>
      (Text.swapLead t u row.1, row.2.retarget (Text.swapLead t u)) := by
  have part (a : Table) : a.emitted = a.named.filter (!·.2.code.isBlackbox) := by
    rw [emitted, named, List.filter_filter]
    congr 1
    funext row
    exact Bool.and_comm ..
  rw [part, part, named_eq ha hb entries ht hu, List.filter_map]
  rfl

theorem modules_eq :
    b.modules = a.emitted.map fun row =>
      (Text.swapLead t u row.1, a.moduleTextAs (Text.swapLead t u) row.1 row.2) := by
  rw [modules, emitted_eq ha hb entries ht hu, List.map_map]
  apply List.map_congr_left
  rintro ⟨key, e⟩ he
  have found := (mem_emitted_iff.mp he).1
  simp only [Function.comp_apply, moduleText_eq, sections_retarget ha entries found]
  rfl

theorem externals_eq : b.externals = a.externals := by
  have part {top : String} {a : Table} (led : a.Led top) : a.externals =
      ((a.named.map fun row => Text.trimNewlines row.2.code.external).filter (· ≠ "")).eraseDups := by
    obtain ⟨e, code, rows⟩ := led.rows_eq
    have none : Text.trimNewlines e.code.external = "" := by rw [code]; rfl
    rw [externals, rows, List.map_cons, List.filter_cons_of_neg (by simp [none])]
  rw [part ha, part hb, named_eq ha hb entries ht hu, List.map_map]
  rfl

theorem text_retarget : b.text = a.textAs (Text.swapLead t u) := by
  rw [text_eq, modules_eq ha hb entries ht hu, textAs, externalText, externalText,
    externals_eq ha hb entries ht hu, List.map_map]
  rfl

theorem complete_eq :
    b.emitted.all (·.2.code.complete) = a.emitted.all (·.2.code.complete) := by
  rw [emitted_eq ha hb entries ht hu, List.all_map]
  rfl

end Pair

end Table

namespace Block

variable {root : Block} {t u : String}

theorem table_eq_error_iff {top : String} {f : Fault} :
    root.table top = .error f ↔ (root.walk top).fault = some f := by
  rw [table, Script.toExcept]
  cases (root.walk top).fault <;> simp [Except.map]

theorem exists_table_top {a : Table} (ha : root.table t = .ok a) (u : String) :
    ∃ b, root.table u = .ok b :=
  ⟨_, table_of_fault ((fault_walk_eq root u t).trans (fault_of_table ha))⟩

end Block

namespace Generation

theorem unchecked_of_table {root : Block} {top : String} {a : Table} (htop : top ≠ "")
    (h : root.table top = .ok a) :
    (unchecked (some root) top).result =
      if a.emitted.all (·.2.code.complete) then .ok a.text else .error (.fault .missingExpr) := by
  simp only [unchecked, if_neg htop, h, Table.render, Block.unresolved_of_table h]
  cases a.emitted.all (·.2.code.complete) <;> rfl

theorem check_top {root : Block} {t u : String} (ht : t ≠ "") (hu : u ≠ "")
    (walks : (root.walk t).fault = none) (st : State) :
    (check (some root) st t).result = .ok () ↔ (check (some root) st u).result = .ok () := by
  have passes {top : String} (htop : top ≠ "") :
      (check (some root) st top).result = .ok () ↔
        (∀ a ∈ root.leaves, a.connected st = true) ∧
          ∀ s ∈ root.scopes, Block.driven s.code s.fields = [] := by
    have spec : root.findings st [] [] top = [] ↔ _ := Block.findings_eq_nil_iff
    rw [check_eq htop ((Block.fault_walk_eq root top t).trans walks), ← spec]
    cases root.findings st [] [] top <;> simp
  rw [passes ht, passes hu]

/-- Another top name changes the text of a circuit at the names of the modules and nowhere else. The
tables have the same keys in the same order and the same entries, if `u` is put for `t` at the start
of the keys and of the modules of the instances; only the nameless entry, which is about the top itself,
is not compared. So the same modules are written in the same order, with other names in their headers,
at their ends and in their instances, and the same external texts after them. -/
theorem top_renamed (root : Block) (hroot : root.isScope = true) (t u : String)
    (ht : t ≠ "") (hu : u ≠ "") :
    (∀ f, root.table t = .error f → root.table u = .error f) ∧
      ∀ a, root.table t = .ok a → ∃ b, root.table u = .ok b ∧
        (∀ key ∈ a.keys, key = "" ∨ ∃ rest, key = t ++ rest) ∧
        (∀ key e, a.get? key = some e → ∀ i ∈ e.instances, ∃ rest, i.target = t ++ rest) ∧
        b.keys = a.keys.map (Text.swapLead t u) ∧
        b.named = a.named.map (fun row =>
          (Text.swapLead t u row.1, row.2.retarget (Text.swapLead t u))) ∧
        b.modules = a.emitted.map (fun row =>
          (Text.swapLead t u row.1, a.moduleTextAs (Text.swapLead t u) row.1 row.2)) ∧
        b.externals = a.externals ∧
        a.text = a.textAs id ∧ b.text = a.textAs (Text.swapLead t u) ∧
        (∀ st, (check (some root) st t).result = .ok () ↔
          (check (some root) st u).result = .ok ()) ∧
        ((unchecked (some root) t).result = .ok a.text ∧
            (unchecked (some root) u).result = .ok b.text ∨
          ∃ e, (unchecked (some root) t).result = .error e ∧
            (unchecked (some root) u).result = .error e) := by
  constructor
  · intro f broken
    rw [Block.table_eq_error_iff] at broken ⊢
    rw [Block.fault_walk_eq root u t, broken]
  · intro a table
    obtain ⟨b, table'⟩ := Block.exists_table_top table u
    have ha := Block.led_table hroot ht table
    have hb := Block.led_table hroot hu table'
    have entries := Block.get?_top hroot ht hu table table'
    refine ⟨b, table', ha.keys, ha.targets, Table.keys_eq ha hb entries ht hu,
      Table.named_eq ha hb entries ht hu, Table.modules_eq ha hb entries ht hu,
      Table.externals_eq ha hb entries ht hu, a.textAs_id.symm,
      Table.text_retarget ha hb entries ht hu, check_top ht hu (Block.fault_of_table table), ?_⟩
    rw [unchecked_of_table ht table, unchecked_of_table hu table',
      Table.complete_eq ha hb entries ht hu]
    split
    · exact .inl ⟨rfl, rfl⟩
    · exact .inr ⟨_, rfl, rfl⟩

def muddled : Block :=
  let bit : Block := .signal { net := 0, kind := .input, width := 1, type := .bits 1 }
  let cell (code : Code) (fs : List (String × Block)) : Block :=
    .named { typeName := "Cell", boundary := .scope, code := some code } fs
  cell .empty
    [("x", bit), ("", cell .empty [("x", bit)]), ("$", cell (.custom "y = x;") []),
      ("m", .named { typeName := "Group", boundary := .group } [("k", cell .empty [("x", bit)])]),
      ("m$k", cell (.blackbox "A" "module A();") [("y", bit)]),
      ("m", cell .empty [("k", cell (.wrapper "" "module B();") [])])]

theorem top_renamed_muddled :
    muddled.isScope = true ∧ "t" ≠ "" ∧ "u$t" ≠ "" ∧
      ∃ a b, muddled.table "t" = .ok a ∧ muddled.table "u$t" = .ok b ∧
        a.keys = ["", "t", "t$", "t$$", "t$m", "t$m$k"] ∧
        b.keys = ["", "u$t", "u$t$", "u$t$$", "u$t$m", "u$t$m$k"] ∧
        b.text = a.textAs (Text.swapLead "t" "u$t") := by
  have hroot : muddled.isScope = true := rfl
  have ht : "t" ≠ "" := by decide
  have hu : "u$t" ≠ "" := by decide
  obtain ⟨-, renamed⟩ := top_renamed muddled hroot "t" "u$t" ht hu
  obtain ⟨b, table, -, -, keys, -, -, -, -, text, -⟩ := renamed _ rfl
  have keys' : b.keys = ["", "u$t", "u$t$", "u$t$$", "u$t$m", "u$t$m$k"] := by
    rw [keys]
    decide +kernel
  exact ⟨hroot, ht, hu, _, b, rfl, table, by decide +kernel, keys', text⟩

end Generation

end Circuitry
