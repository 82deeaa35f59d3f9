import Circuitry.Command
import Circuitry.Proofs.Catalogue
import Circuitry.Proofs.Volumes

namespace Circuitry

namespace Design

/-- Designs that get along in one directory: each names a file there, and no two the same one. -/
structure Apart (designs : List Design) : Prop where
  whole : ∀ d ∈ designs, '/' ∉ d.name.toList
  distinct : ∀ d ∈ designs, ∀ d' ∈ designs, d.name = d'.name → d = d'

theorem exists_instance {d : Design} {top text : String} {unchecked : Bool}
    (h : (d.generate top unchecked).result = .ok text) :
    ∃ b st, d.instantiate = .ok (b, st) ∧
      (if unchecked then Generation.unchecked (some b) top
        else Generation.checked (some b) st top).result = .ok text := by
  rw [generate] at h
  cases fresh : d.instantiate with
  | error f =>
    rw [fresh] at h
    cases h
  | ok ready =>
    rw [fresh] at h
    exact ⟨ready.1, ready.2, rfl, h⟩

end Design

namespace Command

def deliver (s : Settings) (v : Volume) (d : Design) :
    Except Failure String → Volume × List Log.Message × Except Miss String
  | .error e => (v, [], .error (.failure e))
  | .ok text =>
    match v.write (target s d) text with
    | .error f => (v, [], .error (.write f))
    | .ok v =>
      let written : Log.Message :=
        { level := .info, text := "design generated"
          fields := [("design", d.name), ("path", target s d), ("bytes", text.utf8ByteSize.repr)] }
      (v, [written], .ok (target s d))

theorem generateOne_eq (s : Settings) (v : Volume) (d : Design) :
    generateOne s v d =
      let r := d.generate s.top s.unchecked
      let (v', log, result) := deliver s v d r.result
      (v', tagged d r.log ++ log, result) := by
  rw [generateOne]
  dsimp only
  cases (d.generate s.top s.unchecked).result with
  | error e => simp [deliver]
  | ok text =>
    simp only [deliver]
    cases v.write (target s d) text with
    | error f => simp
    | ok v' => rfl

def Fills (s : Settings) (v : Volume) (d : Design) (place : List String) (text : String) : Prop :=
  (d.generate s.top s.unchecked).result = .ok text ∧ v.slot (target s d) = .ok place

theorem deliver_cases (s : Settings) (v : Volume) (d : Design) :
    let delivered := deliver s v d (d.generate s.top s.unchecked).result
    (∃ place text, Fills s v d place text ∧ delivered.1 = v.put place text ∧
        delivered.2.2 = .ok (target s d)) ∨
      (∀ place text, ¬ Fills s v d place text) ∧ delivered.1 = v ∧
        ∃ miss, delivered.2.2 = .error miss := by
  cases made : (d.generate s.top s.unchecked).result with
  | error e => exact .inr ⟨fun _ _ fills => by simp [Fills, made] at fills, rfl, _, rfl⟩
  | ok text =>
    simp only [deliver, Volume.write_eq_slot]
    cases free : v.slot (target s d) with
    | error f => exact .inr ⟨fun _ _ fills => by simp [Fills, free] at fills, rfl, _, rfl⟩
    | ok place => exact .inl ⟨place, text, ⟨made, free⟩, rfl, rfl⟩

theorem deliver_congr {s : Settings} {v v' : Volume} {d : Design}
    (same : v.slot (target s d) = v'.slot (target s d)) (r : Except Failure String) :
    (deliver s v d r).2 = (deliver s v' d r).2 := by
  cases r with
  | error e => rfl
  | ok text =>
    simp only [deliver, Volume.write_eq_slot, same]
    cases v'.slot (target s d) <;> rfl

theorem isEntry_file {name : String} (h : '/' ∉ name.toList) : Volume.IsEntry (name ++ ".v") where
  ne_empty := by simp
  ne_here := fun same => by
    have ends := congrArg (fun s : String => s.toList.getLast?) same
    simp at ends
  ne_above := fun same => by
    have ends := congrArg (fun s : String => s.toList.getLast?) same
    simp at ends
  whole := by simpa using h

/-- The second volume is the first one with the files of some designs written. -/
structure Written (s : Settings) (v₀ v : Volume) (done : Design → Prop) : Prop where
  grows : v₀.Grows v
  slots : ∀ d : Design, '/' ∉ d.name.toList → v.slot (target s d) = v₀.slot (target s d)
  filled : ∀ d, done d → ∀ place text, Fills s v₀ d place text → v.file? place = some text
  kept : ∀ place, (∀ d, done d → ∀ text, ¬ Fills s v₀ d place text) → v.file? place = v₀.file? place

section Written

variable {s : Settings} {v₀ v v' : Volume} {done done' : Design → Prop} {designs : List Design}
  {d : Design}

theorem Fills.name_eq (hs : s.outputDir ≠ "") (apart : Design.Apart designs) {d' : Design}
    (hd : d ∈ designs) (hd' : d' ∈ designs) {place : List String} {text text' : String}
    (h : Fills s v d place text) (h' : Fills s v d' place text') : d = d' := by
  obtain ⟨p, dir, rfl, -⟩ := Volume.slot_join_eq_ok hs (isEntry_file (apart.whole d hd)) h.2
  obtain ⟨p', dir', same, -⟩ := Volume.slot_join_eq_ok hs (isEntry_file (apart.whole d' hd')) h'.2
  obtain rfl : p = p' := Except.ok.inj (dir.symm.trans dir')
  have files : d.name ++ ".v" = d'.name ++ ".v" := by simpa using same
  exact apart.distinct d hd d' hd' (by simpa using files)

theorem Written.refl (s : Settings) (v : Volume) : Written s v v fun _ => False where
  grows := ⟨rfl, rfl, fun _ => id⟩
  slots _ _ := rfl
  filled _ none := none.elim
  kept _ _ := rfl

theorem Written.congr (h : Written s v₀ v done) (same : ∀ d, done d ↔ done' d) :
    Written s v₀ v done' := by
  obtain rfl : done = done' := funext fun d => propext (same d)
  exact h

theorem Written.keep (h : Written s v₀ v done) (none : ∀ place text, ¬ Fills s v₀ d place text) :
    Written s v₀ v fun d' => d' = d ∨ done d' where
  grows := h.grows
  slots := h.slots
  filled := by
    rintro d' (rfl | hd') place text fills
    · exact absurd fills (none place text)
    · exact h.filled d' hd' place text fills
  kept place free := h.kept place fun d' hd' => free d' (.inr hd')

theorem Written.put (h : Written s v₀ v done) (hs : s.outputDir ≠ "") (apart : Design.Apart designs)
    (hdone : ∀ d, done d → d ∈ designs) (hd : d ∈ designs) {place : List String} {text : String}
    (fills : Fills s v₀ d place text) :
    Written s v₀ (v.put place text) fun d' => d' = d ∨ done d' where
  grows := h.grows.trans (.put v place text)
  slots d' whole := by
    have slot := (h.slots d (apart.whole d hd)).trans fills.2
    obtain ⟨p, dir, -⟩ := Volume.slot_join_eq_ok hs (isEntry_file (apart.whole d hd)) slot
    have same := (Volume.Grows.put v place text).slot_join hs dir (isEntry_file whole)
    exact same.trans (h.slots d' whole)
  filled d' hd' place' text' fills' := by
    rw [Volume.file?_put]
    split
    · rename_i same
      subst same
      have hmem : d' ∈ designs := hd'.elim (fun same => same ▸ hd) (hdone d')
      obtain rfl := Fills.name_eq hs apart hmem hd fills' fills
      exact congrArg some (Except.ok.inj (fills.1.symm.trans fills'.1))
    · rename_i other
      obtain rfl | hd' := hd'
      · exact absurd (Except.ok.inj (fills'.2.symm.trans fills.2)) other
      · exact h.filled d' hd' place' text' fills'
  kept place' free := by
    have other : place' ≠ place := by
      rintro rfl
      exact free d (.inl rfl) text fills
    rw [Volume.file?_put, if_neg other]
    exact h.kept place' fun d' hd' => free d' (.inr hd')

theorem Written.deliver (h : Written s v₀ v done) (hs : s.outputDir ≠ "") (apart : Design.Apart designs)
    (hdone : ∀ d, done d → d ∈ designs) (hd : d ∈ designs) :
    Written s v₀ (deliver s v d (d.generate s.top s.unchecked).result).1 (fun d' => d' = d ∨ done d') ∧
      (Command.deliver s v d (d.generate s.top s.unchecked).result).2 =
        (Command.deliver s v₀ d (d.generate s.top s.unchecked).result).2 := by
  have slot := h.slots d (apart.whole d hd)
  refine ⟨?_, deliver_congr slot _⟩
  obtain ⟨place, text, fills, after, -⟩ | ⟨none, after, -⟩ := deliver_cases s v d
  · rw [after]
    exact h.put hs apart hdone hd ⟨fills.1, slot.symm.trans fills.2⟩
  · rw [after]
    exact h.keep fun place text fills => none place text ⟨fills.1, slot.trans fills.2⟩

theorem Written.generateOne (h : Written s v₀ v done) (hs : s.outputDir ≠ "")
    (apart : Design.Apart designs) (hdone : ∀ d, done d → d ∈ designs) (hd : d ∈ designs) :
    Written s v₀ (generateOne s v d).1 (fun d' => d' = d ∨ done d') ∧
      (Command.generateOne s v d).2 = (Command.generateOne s v₀ d).2 := by
  obtain ⟨written, same⟩ := h.deliver hs apart hdone hd
  rw [generateOne_eq, generateOne_eq]
  exact ⟨written, by simp only [same]⟩

theorem Written.generateEach (h : Written s v₀ v done) (hs : s.outputDir ≠ "")
    (apart : Design.Apart designs) (hdone : ∀ d, done d → d ∈ designs) {ds : List Design}
    (hds : ds ⊆ designs) :
    Written s v₀ (generateEach s v ds).1 (fun d => done d ∨ d ∈ ds) ∧
      (Command.generateEach s v ds).2.1 = ds.flatMap (fun d => (Command.generateOne s v₀ d).2.1) ∧
      (Command.generateEach s v ds).2.2 = ds.map fun d => (d, (Command.generateOne s v₀ d).2.2) := by
  induction ds generalizing v done with
  | nil => exact ⟨h.congr (by simp), rfl, rfl⟩
  | cons d ds ih =>
    obtain ⟨hd, hds⟩ := List.cons_subset.mp hds
    obtain ⟨written, same⟩ := h.generateOne hs apart hdone hd
    have inside : ∀ d', d' = d ∨ done d' → d' ∈ designs := fun d' hd' =>
      hd'.elim (fun same => same ▸ hd) (hdone d')
    obtain ⟨all, logs, results⟩ := ih written inside hds
    refine ⟨all.congr fun d' => ?_, ?_, ?_⟩
    · rw [List.mem_cons, or_assoc, or_left_comm]
    · rw [Command.generateEach]
      simp only [same, logs, List.flatMap_cons]
    · rw [Command.generateEach]
      simp only [same, results, List.map_cons]

end Written

end Command

end Circuitry
