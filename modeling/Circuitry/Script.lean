import Circuitry.Failure

namespace Circuitry

structure Script (α : Type) where
  steps : List α := []
  fault : Option Fault := none

namespace Script

variable {α β σ : Type}

def done : Script α := {}

def ofList (xs : List α) : Script α := { steps := xs }

def fail (f : Fault) : Script α := { fault := some f }

def append (s t : Script α) : Script α :=
  match s.fault with
  | some _ => s
  | none => { steps := s.steps ++ t.steps, fault := t.fault }

instance : Append (Script α) := ⟨append⟩

def flatten : List (Script α) → Script α
  | [] => done
  | s :: ss => s ++ flatten ss

def map (f : α → β) (s : Script α) : Script β := { steps := s.steps.map f, fault := s.fault }

def ofExcept (r : Except Fault (Script α)) : Script α :=
  match r with
  | .ok s => s
  | .error f => fail f

def toExcept (s : Script α) : Except Fault (List α) :=
  match s.fault with
  | some f => .error f
  | none => .ok s.steps

def perform (s : Script α) (act : σ → α → σ) (init : σ) : σ × Option Fault :=
  (s.steps.foldl act init, s.fault)

@[simp] theorem append_eq (s t : Script α) : s ++ t = append s t := rfl

@[simp] theorem append_done (s : Script α) : append s done = s := by
  cases s with | mk xs f => cases f <;> simp [append, done]

@[simp] theorem done_append (s : Script α) : append done s = s := rfl

theorem append_assoc (s t u : Script α) :
    append (append s t) u = append s (append t u) := by
  cases s with | mk xs f =>
  cases f <;> cases t with | mk ys g => cases g <;> simp [append]

@[simp] theorem fault_append (s t : Script α) : (append s t).fault = s.fault.or t.fault := by
  cases s with | mk xs f => cases f <;> rfl

theorem steps_append_of_fault_eq_none {s t : Script α} (h : s.fault = none) :
    (append s t).steps = s.steps ++ t.steps := by
  simp [append, h]

end Script

end Circuitry
