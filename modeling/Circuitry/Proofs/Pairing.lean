import Circuitry.Block.Member
import Circuitry.Proofs.Duplex

namespace Circuitry

namespace Block

variable {α : Type} {wire : Signal → Signal → List α} {fs gs : List (Field × Block)}

def linkable (x : Field × Block) : Bool := x.1.direct && x.2.isDuplex

def linked (fs gs : List (Field × Block)) : List ((Field × Block) × (Field × Block)) :=
  (fs.zip gs).filter fun p => linkable p.1

theorem linked_cons (x y : Field × Block) :
    linked (x :: fs) (y :: gs) = if linkable x then (x, y) :: linked fs gs else linked fs gs := by
  rw [linked, List.zip_cons_cons, List.filter_cons]
  rfl

theorem linkPairs_eq (h : (linkPairs wire fs gs).fault = none) :
    linkPairs wire fs gs =
      .flatten ((linked fs gs).map fun p => p.1.2.linkWith wire p.2.2) := by
  induction fs generalizing gs with
  | nil => simp [linkPairs, linked, Script.flatten]
  | cons x fs ih =>
    cases gs with
    | nil => simp [linkPairs, linked, Script.flatten]
    | cons y gs =>
      obtain ⟨f, x⟩ := x
      obtain ⟨g, y⟩ := y
      rw [linkPairs_cons, Script.append_eq, Script.fault_append, Option.or_eq_none_iff] at h
      rw [linkPairs_cons, ih h.2, linked_cons, linkable]
      cases hx : (f.direct && x.isDuplex) with
      | false => simp
      | true =>
        cases hy : (g.direct && decide (x.typeName = y.typeName)) with
        | false => simp [hx, hy, Script.fail] at h
        | true => simp [Script.flatten]

theorem linkFields_eq {c d : Composite}
    (h : (linkFields wire (.composite c fs) (.composite d gs)).fault = none) :
    fs.length = gs.length ∧
      linkFields wire (.composite c fs) (.composite d gs) = linkPairs wire fs gs := by
  rw [linkFields] at h ⊢
  split at h
  · cases h
  · split at h
    · cases h
    · split at h
      · cases h
      · next type closed count => simp_all

theorem member_of_mem_linked (same : fs.map (·.1.member) = gs.map (·.1.member))
    {p : (Field × Block) × (Field × Block)} (hp : p ∈ linked fs gs) :
    p.1.1.member = p.2.1.member := by
  induction fs generalizing gs with
  | nil => simp [linked] at hp
  | cons x fs ih =>
    cases gs with
    | nil => simp [linked] at hp
    | cons y gs =>
      obtain ⟨first, rest⟩ := List.cons.inj same
      have paired : p = (x, y) ∨ p ∈ linked fs gs := by
        rw [linked_cons] at hp
        split at hp
        · exact List.mem_cons.mp hp
        · exact .inr hp
      rcases paired with rfl | hp
      · exact first
      · exact ih rest hp

theorem members_eq_of_linked (all : ∀ x ∈ fs, linkable x = true) (count : fs.length = gs.length)
    (same : ∀ p ∈ linked fs gs, p.1.1.member = p.2.1.member) :
    fs.map (·.1.member) = gs.map (·.1.member) := by
  induction fs generalizing gs with
  | nil =>
    obtain rfl := List.length_eq_zero_iff.mp count.symm
    rfl
  | cons x fs ih =>
    cases gs with
    | nil => cases count
    | cons y gs =>
      obtain ⟨hx, hfs⟩ := List.forall_mem_cons.mp all
      rw [linked_cons, if_pos hx, List.forall_mem_cons] at same
      rw [List.map_cons, List.map_cons, same.1, ih hfs (Nat.succ.inj count) same.2]

/-- Linking that runs to its end has gone through as many fields on either side, in order, and has
linked each field that can be linked to the one at its place. Where all fields can be linked, that
is the field of the same name exactly if the two sides have the same names. -/
theorem linked_by_position {c d : Composite}
    (h : (linkFields wire (.composite c fs) (.composite d gs)).fault = none) :
    fs.length = gs.length ∧
      linkFields wire (.composite c fs) (.composite d gs) =
        .flatten ((linked fs gs).map fun p => p.1.2.linkWith wire p.2.2) ∧
      (fs.map (·.1.member) = gs.map (·.1.member) →
        ∀ p ∈ linked fs gs, p.1.1.member = p.2.1.member) ∧
      ((∀ x ∈ fs, linkable x = true) → (∀ p ∈ linked fs gs, p.1.1.member = p.2.1.member) →
        fs.map (·.1.member) = gs.map (·.1.member)) := by
  obtain ⟨count, pairs⟩ := linkFields_eq h
  have fault : (linkPairs wire fs gs).fault = none := pairs ▸ h
  refine ⟨count, pairs.trans (linkPairs_eq fault), ?_, ?_⟩
  · exact fun same p hp => member_of_mem_linked same hp
  · exact fun all same => members_eq_of_linked all count same

end Block

namespace Value

mutual

/-- Two values of one type that hold blocks at the same places. -/
inductive Alike : Value → Value → Prop
  | missing (d e : Bool) : Alike (.block none d) (.block none e)
  | present (a b : Block) (d e : Bool) : Alike (.block (some a) d) (.block (some b) e)
  | array {vs ws : List Value} (elements : AllAlike vs ws) : Alike (.array vs) (.array ws)
  | other : Alike .other .other

inductive AllAlike : List Value → List Value → Prop
  | nil : AllAlike [] []
  | cons {v w : Value} {vs ws : List Value} (first : Alike v w) (rest : AllAlike vs ws) :
    AllAlike (v :: vs) (w :: ws)

end

mutual

theorem Alike.names_collect (name : String) : ∀ {v w : Value}, v.Alike w →
    (v.collect name).map (·.1) = (w.collect name).map (·.1)
  | _, _, .missing d e => by simp [collect]
  | _, _, .present a b d e => by simp [collect]
  | _, _, .array elements => by rw [collect, collect, elements.names_collectFrom]
  | _, _, .other => rfl

theorem AllAlike.names_collectFrom (name : String) (i : Nat) : ∀ {vs ws : List Value},
    AllAlike vs ws → (collectFrom name i vs).map (·.1) = (collectFrom name i ws).map (·.1)
  | _, _, .nil => rfl
  | _, _, .cons first rest => by
    rw [collectFrom, collectFrom, List.map_append, List.map_append, first.names_collect,
      rest.names_collectFrom]

end

end Value

structure Member.Alike (m n : Member) : Prop where
  name : m.name = n.name
  tag : m.tag = n.tag
  hidden : m.hidden = n.hidden
  value : m.value.Alike n.value

namespace Member

def fields (m : Member) : List (Field × Block) :=
  m.collect.map fun (name, direct, b) => ({ member := name, label := name, direct }, b)

theorem members_fields (m : Member) : m.fields.map (·.1.member) = m.collect.map (·.1) := by
  rw [fields, List.map_map]
  rfl

theorem Alike.members_eq {m n : Member} (h : m.Alike n) :
    m.fields.map (·.1.member) = n.fields.map (·.1.member) := by
  have label : m.label = n.label := by rw [Member.label, Member.label, h.name, h.tag, h.hidden]
  rw [members_fields, members_fields, collect, collect, label]
  split
  · rfl
  · exact h.value.names_collect _

end Member

namespace Block

theorem record_eq (c : Composite) (ms : List Member) :
    record c ms = .composite c (ms.flatMap Member.fields) := rfl

theorem linked_of_alike {ms ns : List Member} (h : List.Forall₂ Member.Alike ms ns)
    {p : (Field × Block) × (Field × Block)}
    (hp : p ∈ linked (ms.flatMap Member.fields) (ns.flatMap Member.fields)) :
    p.1.1.member = p.2.1.member := by
  refine member_of_mem_linked ?_ hp
  clear hp
  induction h with
  | nil => rfl
  | cons first _ ih =>
    rw [List.flatMap_cons, List.flatMap_cons, List.map_append, List.map_append, first.members_eq,
      ih]

section Halves

def halfType : Composite := { typeName := "*pair", boundary := .group, duplex := true }

def half (net : Nat) : Signal := { net, kind := .input, width := 1, type := .bits 1 }

def halves (lo hi : Option Nat) : Block :=
  record halfType [{ name := "Lo", value := .block (lo.map fun n => signal (half n)) },
    { name := "Hi", value := .block (hi.map fun n => signal (half n)) }]

theorem lower_halves : Text.lower "Lo" = "lo" ∧ Text.lower "Hi" = "hi" := by
  rw [← String.toList_inj, ← String.toList_inj, Text.lower, Text.lower, String.toList_map,
    String.toList_map]
  decide +kernel

theorem halves_eq (lo hi : Option Nat) :
    halves lo hi = .composite halfType
      ((lo.map fun n => ({ member := "lo", label := "lo" }, signal (half n))).toList ++
        (hi.map fun n => ({ member := "hi", label := "hi" }, signal (half n))).toList) := by
  rw [halves, record_eq]
  cases lo <;> cases hi <;>
    simp [Member.fields, Member.collect, Member.label, Value.collect, lower_halves]

theorem linked_by_position_halves :
    (linkFields Signal.linkDrives (halves (some 0) (some 1)) (halves (some 2) (some 3))).fault =
        none ∧
      ∀ p ∈ linked (halves (some 0) (some 1)).fields (halves (some 2) (some 3)).fields,
        p.1.1.member = p.2.1.member := by
  have runs : (linkFields Signal.linkDrives (halves (some 0) (some 1))
      (halves (some 2) (some 3))).fault = none := by
    rw [halves_eq, halves_eq]
    rfl
  exact ⟨runs, (linked_by_position runs).2.2.1 rfl⟩

theorem linked_across_names :
    (linked (halves (some 0) none).fields (halves none (some 1)).fields).map
        (fun p => (p.1.1.member, p.2.1.member)) = [("lo", "hi")] ∧
      linkFields Signal.linkDrives (halves (some 0) none) (halves none (some 1)) =
        .ofList [.put (half 1) (.var 0)] ∧
      linkFields Signal.linkMarks (halves (some 0) none) (halves none (some 1)) = .ofList [1] := by
  rw [halves_eq, halves_eq]
  exact ⟨rfl, rfl, rfl⟩

end Halves

end Block

end Circuitry
