namespace Circuitry

abbrev Path := List String

namespace Path

def join (base name : String) : String := if base = "" then name else base ++ "$" ++ name

def push (p : Path) (name : String) : Path := p ++ [name]

def pop (p : Path) : Path := p.dropLast

def flatWith (sep : String) (p : Path) : String := sep.intercalate p

def flat (p : Path) : String := p.flatWith "$"

def last (p : Path) : String := p.getLast?.getD ""

def parent (p : Path) : String := p.pop.flat

def qualify (p : Path) (name : String) : String := join p.flat name

@[simp] theorem pop_push (p : Path) (name : String) : (p.push name).pop = p := by
  simp [push, pop]

@[simp] theorem flat_nil : flat [] = "" := rfl

@[simp] theorem qualify_nil (name : String) : qualify [] name = name := rfl

theorem flat_cons {u : Path} (h : u ≠ []) (name : String) :
    flat (name :: u) = name ++ "$" ++ flat u :=
  String.intercalate_cons_of_ne_nil h

theorem flat_append {u v : Path} (hu : u ≠ []) (hv : v ≠ []) :
    flat (u ++ v) = flat u ++ "$" ++ flat v :=
  String.intercalate_append_of_ne_nil hu hv

@[simp] theorem flat_singleton (name : String) : flat [name] = name := by
  simp [flat, flatWith]

theorem flat_flat_cons {u : Path} (hu : u ≠ []) (v : Path) : flat (flat u :: v) = flat (u ++ v) := by
  cases v with
  | nil => simp
  | cons x v => rw [flat_cons (List.cons_ne_nil x v), flat_append hu (List.cons_ne_nil x v)]

/-- A name that cannot be taken for several, or for none. -/
def IsSegment (s : String) : Prop := s ≠ "" ∧ '$' ∉ s.toList

instance (s : String) : Decidable (IsSegment s) := inferInstanceAs (Decidable (_ ∧ _))

theorem isSegment_of_mem_concat {u : Path} {name : String} (hu : ∀ s ∈ u, IsSegment s)
    (hname : IsSegment name) : ∀ s ∈ u ++ [name], IsSegment s := by
  simpa [or_imp, forall_and] using ⟨hu, hname⟩

theorem ne_empty_of_segments {u : Path} (hu : ∀ s ∈ u, IsSegment s) : ∀ s ∈ u, s ≠ "" :=
  fun s hs => (hu s hs).1

theorem flat_eq_empty_iff {u : Path} (hu : ∀ s ∈ u, s ≠ "") : flat u = "" ↔ u = [] := by
  cases u with
  | nil => simp
  | cons x u =>
    cases u with
    | nil => simpa using hu x (by simp)
    | cons y u => simp [flat_cons]

end Path

end Circuitry
