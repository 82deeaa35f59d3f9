namespace Circuitry.Text

def split (sep : Char) : List Char → List (List Char)
  | [] => [[]]
  | c :: cs =>
    if c = sep then [] :: split sep cs
    else match split sep cs with
      | [] => [[c]]
      | l :: ls => (c :: l) :: ls

def splitLines (cs : List Char) : List (List Char) := split '\n' cs

def lines (s : String) : List String := (splitLines s.toList).map String.ofList

def indent : Nat → String
  | 0 => ""
  | n + 1 => "    " ++ indent n

def trimBoth (p : Char → Bool) (cs : List Char) : List Char :=
  ((cs.dropWhile p).reverse.dropWhile p).reverse

def trimNewlines (s : String) : String := String.ofList (trimBoth (· == '\n') s.toList)

def afterLead : List Char → List Char → Option (List Char)
  | [], cs => some cs
  | _ :: _, [] => none
  | p :: ps, c :: cs => if p = c then afterLead ps cs else none

def breakOn (part : List Char) : List Char → Option (List Char × List Char)
  | [] => if part.isEmpty then some ([], []) else none
  | c :: cs =>
    if (afterLead part (c :: cs)).isSome then some ([], c :: cs)
    else (breakOn part cs).map fun (before, rest) => (c :: before, rest)

@[simp] theorem split_nil (sep : Char) : split sep [] = [[]] := rfl

@[simp] theorem split_sep (sep : Char) (cs : List Char) :
    split sep (sep :: cs) = [] :: split sep cs := by
  simp [split]

theorem split_ne_nil (sep : Char) : ∀ cs : List Char, split sep cs ≠ []
  | [] => by simp
  | c :: cs => by
    rw [split]
    split
    · simp
    · split <;> simp

theorem split_cons_of_ne {sep c : Char} (h : c ≠ sep) {cs l : List Char} {ls : List (List Char)}
    (hs : split sep cs = l :: ls) : split sep (c :: cs) = (c :: l) :: ls := by
  rw [split, if_neg h, hs]

theorem split_append_sep (sep : Char) (as bs : List Char) :
    split sep (as ++ sep :: bs) = split sep as ++ split sep bs := by
  induction as with
  | nil => simp
  | cons a as ih =>
    by_cases ha : a = sep
    · subst ha; simp [ih]
    · obtain ⟨l, ls, hl⟩ := List.exists_cons_of_ne_nil (split_ne_nil sep as)
      have hr : split sep (as ++ sep :: bs) = l :: (ls ++ split sep bs) := by simp [ih, hl]
      rw [List.cons_append, split_cons_of_ne ha hl, split_cons_of_ne ha hr]
      rfl

theorem splitLines_append_newline (as bs : List Char) :
    splitLines (as ++ '\n' :: bs) = splitLines as ++ splitLines bs :=
  split_append_sep '\n' as bs

theorem not_mem_of_mem_split {sep : Char} {cs l : List Char} (h : l ∈ split sep cs) : sep ∉ l := by
  induction cs generalizing l with
  | nil => simp [List.mem_singleton.mp h]
  | cons c cs ih =>
    by_cases hc : c = sep
    · subst hc
      rcases List.mem_cons.mp (split_sep c cs ▸ h) with rfl | h
      · simp
      · exact ih h
    · obtain ⟨first, rest, hs⟩ := List.exists_cons_of_ne_nil (split_ne_nil sep cs)
      rw [split_cons_of_ne hc hs] at h
      rw [hs] at ih
      rcases List.mem_cons.mp h with rfl | h
      · simpa [Ne.symm hc] using ih (.head _)
      · exact ih (.tail _ h)

theorem split_of_not_mem {sep : Char} {cs : List Char} (h : sep ∉ cs) : split sep cs = [cs] := by
  induction cs with
  | nil => rfl
  | cons c cs ih =>
    rw [List.mem_cons, not_or] at h
    exact split_cons_of_ne (Ne.symm h.1) (ih h.2)

theorem flatMap_split (sep : Char) (cs : List Char) :
    (split sep cs).flatMap (· ++ [sep]) = cs ++ [sep] := by
  induction cs with
  | nil => rfl
  | cons c cs ih =>
    by_cases hc : c = sep
    · subst hc
      rw [split_sep, List.flatMap_cons, ih]
      rfl
    · obtain ⟨l, ls, hs⟩ := List.exists_cons_of_ne_nil (split_ne_nil sep cs)
      rw [hs, List.flatMap_cons] at ih
      rw [split_cons_of_ne hc hs, List.flatMap_cons, List.cons_append, List.cons_append, ih]
      rfl

theorem newline_not_mem_of_mem_lines {s l : String} (h : l ∈ lines s) : '\n' ∉ l.toList := by
  obtain ⟨cs, hcs, rfl⟩ := List.mem_map.mp h
  rw [String.toList_ofList]
  exact not_mem_of_mem_split hcs

theorem newline_not_mem_indent (level : Nat) : '\n' ∉ (indent level).toList := by
  induction level with
  | zero => simp [indent]
  | succ level ih => simp [indent, ih]

theorem not_mem_intercalate {c : Char} {sep : String} {ss : List String} (hsep : c ∉ sep.toList)
    (h : ∀ s ∈ ss, c ∉ s.toList) : c ∉ (sep.intercalate ss).toList := by
  induction ss with
  | nil => simp
  | cons s ss ih =>
    rw [List.forall_mem_cons] at h
    by_cases last : ss = []
    · simpa [last] using h.1
    · rw [String.intercalate_cons_of_ne_nil last]
      simp only [String.toList_append, List.mem_append, not_or]
      exact ⟨⟨h.1, hsep⟩, ih h.2⟩

theorem lines_intercalate {ls : List String} (ne : ls ≠ []) (h : ∀ l ∈ ls, '\n' ∉ l.toList) :
    lines ("\n".intercalate ls) = ls := by
  induction ls with
  | nil => exact absurd rfl ne
  | cons l ls ih =>
    rw [List.forall_mem_cons] at h
    have single : splitLines l.toList = [l.toList] := split_of_not_mem h.1
    by_cases last : ls = []
    · simp [last, lines, single]
    · have parts : ("\n".intercalate (l :: ls)).toList =
          l.toList ++ '\n' :: ("\n".intercalate ls).toList := by
        simp [String.intercalate_cons_of_ne_nil last]
      rw [lines, parts, splitLines_append_newline, single, List.map_append, ← lines, ih last h.2]
      simp

theorem afterLead_eq_some_iff {lead cs rest : List Char} :
    afterLead lead cs = some rest ↔ cs = lead ++ rest := by
  induction lead generalizing cs with
  | nil => simp [afterLead]
  | cons p ps ih =>
    cases cs with
    | nil => simp [afterLead]
    | cons c cs =>
      by_cases h : p = c
      · subst h; simp [afterLead, ih]
      · simp [afterLead, h, Ne.symm h]

end Circuitry.Text
