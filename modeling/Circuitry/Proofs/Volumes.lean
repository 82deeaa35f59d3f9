import Circuitry.Volume
import Mathlib.Data.List.Basic

namespace Circuitry.Volume

/-! ### Paths -/

/-- A name that stands for itself on a path: it is no step of its own and is not cut in two. -/
structure IsEntry (name : String) : Prop where
  ne_empty : name ≠ ""
  ne_here : name ≠ "."
  ne_above : name ≠ ".."
  whole : '/' ∉ name.toList

variable {base name path content : String}

theorem names_append_slash (a b : String) : names (a ++ "/" ++ b) = names a ++ names b := by
  have parts : (a ++ "/" ++ b).toList = a.toList ++ '/' :: b.toList := by simp
  rw [names, parts, Text.split_append_sep, List.filter_append, List.map_append]
  rfl

@[simp] theorem names_empty : names "" = [] := rfl

theorem IsEntry.names (h : IsEntry name) : names name = [name] := by
  have ne : name.toList ≠ [] := by simpa using h.ne_empty
  simp [Volume.names, Text.split_of_not_mem h.whole, ne]

theorem cleanNames_append (h : IsEntry name) (rooted : Bool) (acc ns : List String) :
    cleanNames rooted acc (ns ++ [name]) = cleanNames rooted acc ns ++ [name] := by
  fun_induction cleanNames rooted acc ns with
  | case1 acc => simp [cleanNames, h.ne_here, h.ne_above]
  | case2 acc ns ih => simpa [cleanNames] using ih
  | case3 ns at_root ih => simpa [cleanNames, at_root] using ih
  | case4 ns below_root ih => simpa [cleanNames, below_root] using ih
  | case5 ns up ih => simpa [cleanNames] using ih
  | case6 ns a up above ih => simpa [cleanNames] using ih
  | case7 acc n ns here above ih => simpa [cleanNames] using ih

def lead (base : String) : String :=
  let ns := cleanNames (isRooted base) [] (names base)
  (if isRooted base then "/" else "") ++ (if ns = [] then "" else "/".intercalate ns ++ "/")

theorem isRooted_append_slash (h : base ≠ "") (s : String) :
    isRooted (base ++ "/" ++ s) = isRooted base := by
  obtain ⟨c, cs, parts⟩ := List.exists_cons_of_ne_nil (mt String.toList_eq_nil_iff.mp h)
  simp [isRooted, parts]

theorem join_eq_lead (hbase : base ≠ "") (h : IsEntry name) : join base name = lead base ++ name := by
  have below : cleanNames (isRooted base) [] (names (base ++ "/" ++ name)) =
      cleanNames (isRooted base) [] (names base) ++ [name] := by
    rw [names_append_slash, h.names, cleanNames_append h]
  rw [join, if_neg hbase, if_neg h.ne_empty, clean, isRooted_append_slash hbase, below, lead]
  generalize cleanNames (isRooted base) [] (names base) = ns
  have text : "/".intercalate (ns ++ [name]) =
      (if ns = [] then "" else "/".intercalate ns ++ "/") ++ name := by
    split
    · simp [*]
    · rw [String.intercalate_append_of_ne_nil ‹_› (List.cons_ne_nil _ _)]
      simp
  have ne : "/".intercalate (ns ++ [name]) ≠ "" := by
    rw [text]
    simp [h.ne_empty]
  simp only [if_neg ne]
  rw [text, String.append_assoc]
  split <;> simp

theorem lead_cases (base : String) : lead base = "" ∨ ∃ s, lead base = s ++ "/" := by
  rw [lead]
  split <;> split
  · exact .inr ⟨"", rfl⟩
  · exact .inr ⟨"/" ++ "/".intercalate (cleanNames (isRooted base) [] (names base)),
      (String.append_assoc ..).symm⟩
  · exact .inl rfl
  · exact .inr ⟨"" ++ "/".intercalate (cleanNames (isRooted base) [] (names base)),
      (String.append_assoc ..).symm⟩

theorem names_lead_append (h : IsEntry name) :
    names (lead base ++ name) = names (lead base) ++ [name] := by
  obtain none | ⟨s, some⟩ := lead_cases base
  · rw [none, String.empty_append, h.names]
    rfl
  · have stem : names (s ++ "/") = names s := by
      simpa using names_append_slash s ""
    rw [some, names_append_slash, h.names, stem]

theorem start_lead_append (v : Volume) (h : IsEntry name) :
    v.start (lead base ++ name) = v.start (lead base) := by
  obtain none | ⟨s, some⟩ := lead_cases base
  · have first : name.toList.head? ≠ some '/' := fun at_head => h.whole (List.mem_of_head? at_head)
    simp [start, isRooted, none, first]
  · have same : isRooted (s ++ "/" ++ name) = isRooted (s ++ "/") := by
      cases parts : s.toList <;> simp [isRooted, parts]
    simp [start, some, same]

/-- The place that a write to a path fills. -/
def slot (v : Volume) (path : String) : Except Failure (List String) :=
  match v.resolveParent path with
  | .error .taken => .error ⟨"open", path, .isDirectory⟩
  | .error e => .error ⟨"open", path, e⟩
  | .ok (place, name) =>
    if name = "." || name = ".." || endsInSlash path || v.isDir (place ++ [name]) then
      .error ⟨"open", path, .isDirectory⟩
    else if name.utf8ByteSize > nameLimit then .error ⟨"open", path, .tooLong⟩
    else .ok (place ++ [name])

theorem write_eq_slot (v : Volume) (path content : String) :
    v.write path content = (v.slot path).map (v.put · content) := by
  rw [write, slot]
  rcases v.resolveParent path with e | ⟨place, name⟩
  · cases e <;> rfl
  · dsimp only
    split
    · rfl
    · split <;> rfl

def folder (v : Volume) (base : String) : Except Error (List String) :=
  match v.follow (v.start (lead base)) (names (lead base)) with
  | .error e => .error e
  | .ok place => if v.isDir place then .ok place else .error .notDirectory

theorem folder_eq_ok {v : Volume} {place : List String} :
    v.folder base = .ok place ↔
      v.follow (v.start (lead base)) (names (lead base)) = .ok place ∧ v.isDir place = true := by
  rw [folder]
  rcases v.follow (v.start (lead base)) (names (lead base)) with e | p
  · simp
  · by_cases there : v.isDir p = true
    · simpa [there] using fun same => same ▸ there
    · simpa [there] using fun same => same ▸ Bool.eq_false_iff.mpr there

theorem resolveParent_join (v : Volume) (hbase : base ≠ "") (h : IsEntry name) :
    v.resolveParent (join base name) = match pathError? (join base name) with
      | some e => .error e
      | none => (v.folder base).map (·, name) := by
  rw [resolveParent, join_eq_lead hbase h, names_lead_append h, List.reverse_concat,
    start_lead_append v h, folder]
  split
  · simp [*]
  · simp_all
  · rename_i last up error parts
    obtain ⟨rfl, rfl⟩ := List.cons.inj parts
    simp only [error, List.reverse_reverse]
    rcases v.follow (v.start (lead base)) (names (lead base)) with e | place
    · rfl
    · dsimp only
      split <;> rfl

/-! ### Volumes that grow -/

/-- The second volume has the directories of the first one, and its files under the same paths. -/
structure Grows (v v' : Volume) : Prop where
  home : v'.home = v.home
  dirs : v'.dirs = v.dirs
  files : ∀ place, (v.file? place).isSome → (v'.file? place).isSome

theorem file?_put (v : Volume) (place q : List String) (content : String) :
    (v.put place content).file? q = if q = place then some content else v.file? q := by
  have others : (v.files.filter (·.1 ≠ place)).lookup q =
      if q = place then none else v.files.lookup q := by
    induction v.files with
    | nil => simp
    | cons f files ih =>
      obtain ⟨p, c⟩ := f
      by_cases same : p = place
      · rw [List.filter_cons_of_neg (by simpa using same), ih, List.lookup_cons, same]
        by_cases here : q = place
        · simp [here]
        · have other : (q == place) = false := by simpa using here
          simp [here, other]
      · rw [List.filter_cons_of_pos (by simpa using same), List.lookup_cons, List.lookup_cons, ih]
        by_cases here : q = p
        · simp [here, same]
        · have other : (q == p) = false := by simpa using here
          simp [other]
  rw [file?, put, List.lookup_append, others]
  by_cases here : q = place
  · simp [here]
  · have other : (q == place) = false := by simpa using here
    simp [here, List.lookup_cons, other, file?]

namespace Grows

variable {v v' v'' : Volume}

theorem put (v : Volume) (place : List String) (content : String) : Grows v (v.put place content) where
  home := rfl
  dirs := rfl
  files q there := by
    rw [file?_put]
    split <;> simp [there]

theorem trans (h : Grows v v') (h' : Grows v' v'') : Grows v v'' where
  home := h'.home.trans h.home
  dirs := h'.dirs.trans h.dirs
  files place there := h'.files place (h.files place there)

theorem isDir (h : Grows v v') (place : List String) : v'.isDir place = v.isDir place := by
  rw [Volume.isDir, Volume.isDir, h.dirs]

theorem holds (h : Grows v v') {place : List String} (there : v.holds place = true) :
    v'.holds place = true := by
  rw [Volume.holds, Bool.or_eq_true] at there ⊢
  exact there.imp (fun dir => (h.isDir place).trans dir) (h.files place)

theorem follow (h : Grows v v') {start place : List String} {ns : List String}
    (found : v.follow start ns = .ok place) : v'.follow start ns = .ok place := by
  fun_induction Volume.follow v start ns with
  | case1 start => exact found
  | case2 start n ns none => cases found
  | case3 start ns there ih => simpa [Volume.follow, h.isDir, there] using ih found
  | case4 start ns there _ ih => simpa [Volume.follow, h.isDir, there] using ih found
  | case5 start n ns there here above long => cases found
  | case6 start n ns there here above short held ih =>
    simpa [Volume.follow, h.isDir, there, here, above, short, h.holds held] using ih found
  | case7 start n ns there here above short none => cases found

theorem start (h : Grows v v') (path : String) : v'.start path = v.start path := by
  rw [Volume.start, Volume.start, h.home]

theorem folder (h : Grows v v') {place : List String} (found : v.folder base = .ok place) :
    v'.folder base = .ok place := by
  rw [folder_eq_ok] at found ⊢
  rw [h.start, h.isDir]
  exact ⟨h.follow found.1, found.2⟩

theorem slot_join (h : Grows v v') (hbase : base ≠ "") {place : List String}
    (found : v.folder base = .ok place) (hname : IsEntry name) :
    v'.slot (join base name) = v.slot (join base name) := by
  have parent : v'.resolveParent (join base name) = v.resolveParent (join base name) := by
    rw [resolveParent_join v' hbase hname, resolveParent_join v hbase hname, found, h.folder found]
  rw [slot, slot, parent]
  simp only [h.isDir]

end Grows

theorem slot_join_eq_ok {v : Volume} (hbase : base ≠ "") (h : IsEntry name) {q : List String}
    (found : v.slot (join base name) = .ok q) :
    ∃ place, v.folder base = .ok place ∧ q = place ++ [name] ∧ v.isDir q = false ∧
      name.utf8ByteSize ≤ nameLimit ∧ pathError? (join base name) = none := by
  rw [slot, resolveParent_join v hbase h] at found
  cases error : pathError? (join base name) with
  | some e =>
    rw [error] at found
    cases e <;> cases found
  | none =>
    cases dir : v.folder base with
    | error e =>
      rw [error, dir] at found
      cases e <;> cases found
    | ok place =>
      simp only [error, dir, Except.map] at found
      split at found
      · cases found
      · rename_i free
        split at found
        · cases found
        · obtain rfl := Except.ok.inj found
          simp only [Bool.or_eq_true, not_or, Bool.not_eq_true] at free
          exact ⟨place, rfl, rfl, free.2, by omega, rfl⟩

end Circuitry.Volume
