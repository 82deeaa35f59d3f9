import Circuitry.Block.Walk

namespace Circuitry

def Event.atom? : Event → Option Atom
  | .atom _ a => some a
  | _ => none

namespace Block

@[elab_as_elim]
theorem induction_fields {motive : List (Field × Block) → Prop} (nil : motive [])
    (atom : ∀ f a fs, motive fs → motive ((f, .atom a) :: fs))
    (composite : ∀ f c inner fs, motive inner → motive fs →
      motive ((f, .composite c inner) :: fs)) : ∀ fs, motive fs
  | [] => nil
  | (f, .atom a) :: fs => atom f a fs (induction_fields nil atom composite fs)
  | (f, .composite c inner) :: fs =>
    composite f c inner fs (induction_fields nil atom composite inner)
      (induction_fields nil atom composite fs)

@[elab_as_elim]
theorem induction_boundaries {motive : List (Field × Block) → Prop} (nil : motive [])
    (atom : ∀ f a fs, motive fs → motive ((f, .atom a) :: fs))
    (scope : ∀ f c inner fs, c.boundary = .scope → motive inner → motive fs →
      motive ((f, .composite c inner) :: fs))
    (group : ∀ f c inner fs, c.boundary = .group → motive inner → motive fs →
      motive ((f, .composite c inner) :: fs)) (fs : List (Field × Block)) : motive fs := by
  induction fs using induction_fields with
  | nil => exact nil
  | atom f a fs ih => exact atom f a fs ih
  | composite f c inner fs ihInner ih =>
    cases h : c.boundary with
    | scope => exact scope f c inner fs h ihInner ih
    | group => exact group f c inner fs h ihInner ih

mutual

def leaves : Block → List Atom
  | .atom a => [a]
  | .composite _ fs => fieldLeaves fs

def fieldLeaves : List (Field × Block) → List Atom
  | [] => []
  | (_, b) :: fs => b.leaves ++ fieldLeaves fs

end

theorem fieldLeaves_eq (fs : List (Field × Block)) :
    fieldLeaves fs = fs.flatMap fun x => x.2.leaves := by
  induction fs with
  | nil => rfl
  | cons x fs ih => rw [fieldLeaves, ih, List.flatMap_cons]

@[simp] theorem walkFields_nil : walkFields [] = .done := by simp [walkFields]

@[simp] theorem walkFields_singleton (f : Field) (b : Block) :
    walkFields [(f, b)] = b.walk f.label := by
  simp [walkFields]

@[simp] theorem fault_walkFields_atom (f : Field) (a : Atom) (fs : List (Field × Block)) :
    (walkFields ((f, .atom a) :: fs)).fault = (walkFields fs).fault := by
  simp [walkFields, walk, Script.ofList]

@[simp] theorem steps_walkFields_atom (f : Field) (a : Atom) (fs : List (Field × Block)) :
    (walkFields ((f, .atom a) :: fs)).steps = .atom f.label a :: (walkFields fs).steps := by
  simp [walkFields, walk, Script.ofList, Script.append]

theorem fault_walkFields_composite {f : Field} {c : Composite} {inner fs : List (Field × Block)} :
    (walkFields ((f, .composite c inner) :: fs)).fault = none ↔
      c.isClosed = false ∧ (walkFields inner).fault = none ∧ (walkFields fs).fault = none := by
  cases h : c.isClosed <;> simp [walkFields, walk, Script.ofList, Script.fail, h]

theorem fault_walkFields_of_forall {fs : List (Field × Block)}
    (h : ∀ x ∈ fs, (x.2.walk x.1.label).fault = none) : (walkFields fs).fault = none := by
  induction fs with
  | nil => rfl
  | cons x fs ih =>
    obtain ⟨first, rest⟩ := List.forall_mem_cons.mp h
    simp [walkFields, first, ih rest]

theorem steps_walkFields_composite {f : Field} {c : Composite} {inner fs : List (Field × Block)}
    (h : (walkFields ((f, .composite c inner) :: fs)).fault = none) :
    (walkFields ((f, .composite c inner) :: fs)).steps =
      c.opening f.label :: (walkFields inner).steps ++ c.closing f.label :: (walkFields fs).steps := by
  obtain ⟨opened, hinner, -⟩ := fault_walkFields_composite.mp h
  simp [walkFields, walk, Script.ofList, Script.append, opened, hinner]

theorem atom?_opening (c : Composite) (name : String) : (c.opening name).atom? = none := by
  rw [Composite.opening]
  split <;> rfl

theorem atom?_closing (c : Composite) (name : String) : (c.closing name).atom? = none := by
  rw [Composite.closing]
  split <;> rfl

theorem atoms_walkFields {fs : List (Field × Block)} (h : (walkFields fs).fault = none) :
    (walkFields fs).steps.filterMap Event.atom? = fieldLeaves fs := by
  induction fs using induction_fields with
  | nil => rfl
  | atom f a fs ih =>
    rw [fault_walkFields_atom] at h
    rw [steps_walkFields_atom, fieldLeaves, leaves, List.filterMap_cons, ih h]
    rfl
  | composite f c inner fs ihInner ih =>
    obtain ⟨-, hinner, hfs⟩ := fault_walkFields_composite.mp h
    rw [steps_walkFields_composite h, fieldLeaves, leaves]
    simp [List.filterMap_append, atom?_opening, atom?_closing, ihInner hinner, ih hfs]

theorem atoms_walk {b : Block} {name : String} (h : (b.walk name).fault = none) :
    (b.walk name).steps.filterMap Event.atom? = b.leaves := by
  let field : Field := { member := name, label := name }
  have walked : (walkFields [(field, b)]).steps.filterMap Event.atom? = fieldLeaves [(field, b)] :=
    atoms_walkFields (by simpa using h)
  simpa [fieldLeaves] using walked

end Block

end Circuitry
