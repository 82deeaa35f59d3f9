import Circuitry.Hdl.Inspect
import Circuitry.Proofs.Bytes
import Circuitry.Proofs.Layout

namespace Circuitry

namespace Inspect

/-- Reading goes on after such a text as if it were not there. -/
def Silent (s : String) : Prop := ∀ rest, moduleNames (s ++ rest) = moduleNames rest

theorem Silent.empty : Silent "" := fun rest => by rw [String.empty_append]

theorem Silent.append {s t : String} (hs : Silent s) (ht : Silent t) : Silent (s ++ t) := by
  intro rest
  rw [String.append_assoc, hs, ht]

theorem Silent.join {ss : List String} (h : ∀ s ∈ ss, Silent s) : Silent (String.join ss) := by
  induction ss with
  | nil => exact .empty
  | cons s ss ih =>
    rw [String.join_cons]
    exact (h s (.head _)).append (ih fun s hs => h s (.tail _ hs))

end Inspect

namespace Writer

end Writer

section Order

variable {α : Type} [DecidableEq α] {x y : α}

theorem idxOf_cons_of_ne {a : α} (h : a ≠ x) (l : List α) :
    (a :: l).idxOf x = l.idxOf x + 1 := by
  rw [List.idxOf_cons, beq_false_of_ne h]
  rfl

theorem idxOf_lt_of_filter {p : α → Bool} (hy : p y = true) {l : List α}
    (h : (l.filter p).idxOf x < (l.filter p).idxOf y) : l.idxOf x < l.idxOf y := by
  induction l with
  | nil => exact absurd h (Nat.lt_irrefl _)
  | cons a l ih =>
    have hay : a ≠ y := by
      rintro rfl
      simp [hy] at h
    rw [idxOf_cons_of_ne hay]
    by_cases hax : a = x
    · subst hax
      simp
    · rw [idxOf_cons_of_ne hax]
      refine Nat.succ_lt_succ (ih ?_)
      by_cases ha : p a = true
      · rw [List.filter_cons_of_pos ha, idxOf_cons_of_ne hax, idxOf_cons_of_ne hay] at h
        exact Nat.lt_of_succ_lt_succ h
      · rwa [List.filter_cons_of_neg ha] at h

theorem eraseDups_ordered (l : List α) :
    l.eraseDups.Pairwise (fun x y => l.idxOf x < l.idxOf y) := by
  match l with
  | [] => simp
  | a :: l =>
    have others {y : α} (hy : y ∈ (l.filter fun b => !b == a).eraseDups) : (!y == a) = true :=
      (List.mem_filter.mp (List.mem_eraseDups.mp hy)).2
    rw [List.eraseDups_cons, List.pairwise_cons]
    constructor
    · intro y hy
      have hay : a ≠ y := fun same => by simpa [same] using others hy
      simp [idxOf_cons_of_ne hay]
    · refine (eraseDups_ordered (l.filter fun b => !b == a)).imp_of_mem fun hx hy lt => ?_
      refine idxOf_lt_of_filter (p := fun b => !b == a) (others hy) ?_
      rw [List.filter_cons_of_neg (by simp)]
      exact lt
termination_by l.length
decreasing_by exact Nat.lt_succ_of_le (List.length_filter_le _ _)

end Order

namespace Table

variable {t : Table} {key : String} {e : Entry}

/-- Keys and port names that leave the header of a module on one line and its name in one piece. -/
structure Plain (t : Table) : Prop where
  key : ∀ key ∈ t.keys, '(' ∉ key.toList ∧ '\n' ∉ key.toList
  port : ∀ row ∈ t.rows, ∀ a ∈ row.2.atoms, a.kind.isParameter = true → '\n' ∉ a.name.toList

def mentions (t : Table) : List String :=
  t.rows.map fun (_, e) => Text.trimNewlines e.code.external

theorem render_ok_iff (resolved : t.unresolved = none) :
    (∃ text, t.render = .ok text) ↔ ∀ row ∈ t.emitted, row.2.code.complete = true := by
  rw [render, resolved, ← List.all_eq_true]
  simp only
  split
  · next h => simp [h]
  · next h => simp [h]

end Table

end Circuitry
