import Circuitry.Atom

namespace Circuitry

structure Store (α : Type) where
  cells : Array α := #[]

namespace Store

variable {α : Type} [Inhabited α]

instance : Inhabited (Store α) := ⟨{}⟩

def get (s : Store α) (i : Nat) : α := s.cells.getD i default

def set (s : Store α) (i : Nat) (v : α) : Store α :=
  if i < s.cells.size then { cells := s.cells.setIfInBounds i v }
  else { cells := (s.cells ++ Array.replicate (i - s.cells.size) default).push v }

@[simp] theorem get_empty (i : Nat) : ({} : Store α).get i = default := by
  simp [get]

theorem get_set (s : Store α) (i j : Nat) (v : α) :
    (s.set i v).get j = if i = j then v else s.get j := by
  unfold get set
  by_cases hi : i < s.cells.size
  · by_cases hij : i = j
    · subst hij; simp [hi]
    · simp [hi, hij, Array.getD_eq_getD_getElem?]
  · simp only [hi, if_false, Array.getD_eq_getD_getElem?, Array.getElem?_push,
      Array.getElem?_append, Array.size_append, Array.size_replicate, Array.getElem?_replicate]
    by_cases hij : i = j
    · subst hij
      rw [if_pos (by omega), if_pos rfl]
      rfl
    · rw [if_neg (by omega), if_neg hij]
      by_cases hj : j < s.cells.size
      · simp [hj]
      · have hn : s.cells[j]? = none := Array.getElem?_eq_none (by omega)
        simp only [hj, if_false, hn, Option.getD_none]
        split <;> rfl

@[simp] theorem get_set_self (s : Store α) (i : Nat) (v : α) : (s.set i v).get i = v := by
  simp [get_set]

theorem get_set_of_ne {i j : Nat} (h : i ≠ j) (s : Store α) (v : α) :
    (s.set i v).get j = s.get j := by
  simp [get_set, h]

def size (s : Store α) : Nat := s.cells.size

theorem size_set (s : Store α) (i : Nat) (v : α) : (s.set i v).size = max s.size (i + 1) := by
  unfold size set
  split
  · simp only [Array.size_setIfInBounds]; omega
  · simp only [Array.size_push, Array.size_append, Array.size_replicate]; omega

theorem ext_get {s t : Store α} (hsize : s.size = t.size) (h : ∀ i, s.get i = t.get i) : s = t := by
  cases s with | mk xs =>
  cases t with | mk ys =>
  congr 1
  apply Array.ext hsize
  intro i hi hi'
  simpa [get, Array.getD, hi, hi'] using h i

theorem set_eq_self {s : Store α} {i : Nat} {v : α} (hi : i < s.size) (h : s.get i = v) :
    s.set i v = s := by
  apply ext_get
  · rw [size_set]; omega
  · intro j
    rw [get_set]
    split
    · next hj => rw [← hj, h]
    · rfl

end Store

structure State where
  val : Store UInt64 := {}
  next : Store UInt64 := {}
  marked : Store Bool := {}
  clock : Store Bool := {}
  deriving Inhabited

namespace State

def mark (st : State) (net : Nat) : State := { st with marked := st.marked.set net true }

def setNext (st : State) (s : Signal) (v : UInt64) : State :=
  { st with next := st.next.set s.net (Width.truncate s.width v) }

def setFlag (st : State) (s : Signal) (b : Bool) : State :=
  { st with next := st.next.set s.net (if b then 1 else 0) }

def changes (st : State) (s : Signal) : Bool := st.val.get s.net != st.next.get s.net

def commit (st : State) (s : Signal) : State :=
  { st with val := st.val.set s.net (st.next.get s.net) }

end State

def Atom.connected (st : State) : Atom → Bool
  | .signal s => st.marked.get s.net
  | .constant _ => true
  | .foreign f => f.driven || st.marked.get f.net

def Atom.val? (st : State) : Atom → Option UInt64
  | .signal s => some (st.val.get s.net)
  | .constant c => some c.value
  | .foreign _ => none

def Atom.next? (st : State) : Atom → Option UInt64
  | .signal s => some (st.next.get s.net)
  | _ => none

end Circuitry
