import Circuitry.Block.Member
import Circuitry.Proofs.Numerals
import Mathlib.Data.List.Nodup

namespace Circuitry

namespace Value

def at? : Value → List Nat → Option Value
  | v, [] => some v
  | .array elements, i :: place => elements[i]?.bind (·.at? place)
  | .block .., _ :: _ | .other, _ :: _ => none

def vacant : Value → Value
  | .block _ direct => .block none direct
  | .array _ => .array []
  | .other => .other

def clear : List Nat → Value → Value
  | [], v => v.vacant
  | i :: place, .array elements => .array (elements.modify i (clear place))
  | _ :: _, v => v

def placeName (name : String) (place : List Nat) : String :=
  "_".intercalate (name :: place.map Nat.repr)

mutual

def leaves : Value → List (List Nat × Bool × Block)
  | .block none _ => []
  | .block (some b) direct => [([], direct, b)]
  | .array elements => leavesFrom 0 elements
  | .other => []

def leavesFrom (i : Nat) : List Value → List (List Nat × Bool × Block)
  | [] => []
  | v :: vs => v.leaves.map (fun x => (i :: x.1, x.2)) ++ leavesFrom (i + 1) vs

end

@[simp] theorem placeName_nil (name : String) : placeName name [] = name := by
  simp [placeName]

theorem placeName_cons (name : String) (i : Nat) (place : List Nat) :
    placeName name (i :: place) = placeName (indexed name i) place := by
  have step (first second : String) (rest : List String) :
      "_".intercalate (first :: second :: rest) =
        first ++ "_" ++ "_".intercalate (second :: rest) :=
    String.intercalate_cons_of_ne_nil (List.cons_ne_nil second rest)
  cases place with
  | nil => simp [placeName, indexed, step]
  | cons j place => simp only [placeName, indexed, List.map_cons, step, String.append_assoc]

mutual

theorem collect_eq (name : String) :
    ∀ v : Value, v.collect name = v.leaves.map fun x => (placeName name x.1, x.2)
  | .block none _ => rfl
  | .block (some _) _ => by simp [collect, leaves]
  | .array elements => collectFrom_eq name 0 elements
  | .other => rfl

theorem collectFrom_eq (name : String) (i : Nat) :
    ∀ vs : List Value, collectFrom name i vs =
      (leavesFrom i vs).map fun x => (placeName name x.1, x.2)
  | [] => rfl
  | v :: vs => by
    rw [collectFrom, leavesFrom, collect_eq (indexed name i) v, collectFrom_eq name (i + 1) vs,
      List.map_append, List.map_map]
    simp only [Function.comp_def, placeName_cons]

end

theorem underscore_not_mem_repr (n : Nat) : '_' ∉ n.repr.toList := fun mem =>
  absurd (Numeral.isNumeric_of_mem_repr mem) (by decide)

theorem split_placeName (name : String) (place : List Nat) :
    Text.split '_' (placeName name place).toList =
      Text.split '_' name.toList ++ place.map (·.repr.toList) := by
  induction place generalizing name with
  | nil => simp
  | cons i place ih =>
    have parts : (indexed name i).toList = name.toList ++ '_' :: i.repr.toList := by simp [indexed]
    rw [placeName_cons, ih, parts, Text.split_append_sep,
      Text.split_of_not_mem (underscore_not_mem_repr i), List.append_assoc]
    rfl

theorem placeName_injective (name : String) : Function.Injective (placeName name) := by
  intro p q same
  have pieces : p.map (·.repr.toList) = q.map (·.repr.toList) := by
    apply (List.append_right_inj (Text.split '_' name.toList)).mp
    rw [← split_placeName, same, split_placeName]
  refine List.map_injective_iff.mpr (fun m n digits => ?_) pieces
  exact Numeral.repr_injective (String.toList_injective digits)

section Places

variable {v : Value} {vs : List Value} {i : Nat} {place : List Nat} {x : Bool × Block}

theorem mem_leavesFrom :
    (place, x) ∈ leavesFrom i vs ↔
      ∃ j rest, place = (i + j) :: rest ∧ ∃ v, vs[j]? = some v ∧ (rest, x) ∈ v.leaves := by
  induction vs generalizing i with
  | nil => simp [leavesFrom]
  | cons v vs ih =>
    rw [leavesFrom, List.mem_append, ih]
    constructor
    · rintro (first | ⟨j, rest, rfl, found⟩)
      · obtain ⟨⟨rest, y⟩, hy, same⟩ := List.mem_map.mp first
        cases same
        exact ⟨0, rest, rfl, v, rfl, hy⟩
      · exact ⟨j + 1, rest, by rw [Nat.add_right_comm, Nat.add_assoc], found⟩
    · rintro ⟨j, rest, rfl, w, hw, hx⟩
      cases j with
      | zero =>
        cases hw
        exact .inl (List.mem_map.mpr ⟨_, hx, rfl⟩)
      | succ j => exact .inr ⟨j, rest, by rw [Nat.add_right_comm, Nat.add_assoc], w, hw, hx⟩

theorem mem_leaves {direct : Bool} {b : Block} :
    (place, direct, b) ∈ v.leaves ↔ v.at? place = some (.block (some b) direct) := by
  -- A place is followed by its indices: the recursion is on them and not on the value.
  induction place generalizing v with
  | nil =>
    cases v with
    | block held own => cases held <;> simp [leaves, at?, eq_comm, and_comm]
    | array elements => simp [leaves, at?, mem_leavesFrom]
    | other => simp [leaves, at?]
  | cons i place ih =>
    cases v with
    | block held own => cases held <;> simp [leaves, at?]
    | array elements => simp [leaves, at?, mem_leavesFrom, Option.bind_eq_some_iff, ih]
    | other => simp [leaves, at?]

mutual

theorem leaves_ordered : ∀ v : Value, (v.leaves.map Prod.fst).Pairwise (· < ·)
  | .block none _ => .nil
  | .block (some _) _ => List.pairwise_singleton _ _
  | .array elements => leavesFrom_ordered 0 elements
  | .other => .nil

theorem leavesFrom_ordered (i : Nat) :
    ∀ vs : List Value, ((leavesFrom i vs).map Prod.fst).Pairwise (· < ·)
  | [] => .nil
  | v :: vs => by
    have own := List.pairwise_map.mp (leaves_ordered v)
    have later := leavesFrom_ordered (i + 1) vs
    rw [leavesFrom, List.map_append, List.map_map, List.pairwise_append, List.pairwise_map]
    refine ⟨own.imp fun lt => List.cons_lt_cons_iff.mpr (.inr ⟨rfl, lt⟩), later, ?_⟩
    intro p hp q hq
    obtain ⟨x, -, rfl⟩ := List.mem_map.mp hp
    obtain ⟨⟨q, y⟩, hy, rfl⟩ := List.mem_map.mp hq
    obtain ⟨j, rest, rfl, -⟩ := mem_leavesFrom.mp hy
    exact List.cons_lt_cons_iff.mpr (.inl (by omega))

end

theorem leaves_vacant (v : Value) : v.vacant.leaves = [] := by
  cases v <;> rfl

theorem filter_eq_self_of_index {k : Nat} {l : List (List Nat × Bool × Block)}
    (h : ∀ x ∈ l, ∃ j rest, x.1 = j :: rest ∧ k ≠ j) :
    l.filter (fun x => ¬ (k :: place) <+: x.1) = l := by
  rw [List.filter_eq_self]
  intro x hx
  obtain ⟨j, rest, starts, other⟩ := h x hx
  simp [starts, List.cons_prefix_cons, other]

theorem leavesFrom_modify {f : Value → Value}
    (hf : ∀ v : Value, (f v).leaves = v.leaves.filter (fun x => ¬ place <+: x.1)) (j : Nat) :
    leavesFrom i (vs.modify j f) =
      (leavesFrom i vs).filter (fun x => ¬ ((i + j) :: place) <+: x.1) := by
  induction vs generalizing i j with
  | nil => simp [leavesFrom]
  | cons v vs ih =>
    cases j with
    | zero =>
      have later : (leavesFrom (i + 1) vs).filter (fun x => ¬ ((i + 0) :: place) <+: x.1) =
          leavesFrom (i + 1) vs := by
        refine filter_eq_self_of_index ?_
        rintro ⟨p, x⟩ hx
        obtain ⟨k, rest, rfl, -⟩ := mem_leavesFrom.mp hx
        exact ⟨i + 1 + k, rest, rfl, by omega⟩
      rw [List.modify_zero_cons, leavesFrom, leavesFrom, hf, List.filter_append, List.filter_map,
        later]
      simp [Function.comp_def, List.cons_prefix_cons]
    | succ j =>
      have first : (v.leaves.map fun x => (i :: x.1, x.2)).filter
          (fun x => ¬ ((i + (j + 1)) :: place) <+: x.1) = v.leaves.map fun x => (i :: x.1, x.2) := by
        refine filter_eq_self_of_index fun x hx => ?_
        obtain ⟨y, -, rfl⟩ := List.mem_map.mp hx
        exact ⟨i, y.1, rfl, by omega⟩
      rw [List.modify_succ_cons, leavesFrom, leavesFrom, List.filter_append, first, ih,
        Nat.add_right_comm, Nat.add_assoc]

theorem leaves_clear (place : List Nat) (v : Value) :
    (v.clear place).leaves = v.leaves.filter (fun x => ¬ place <+: x.1) := by
  induction place generalizing v with
  | nil => simp [clear, leaves_vacant]
  | cons i place ih =>
    cases v with
    | block held own => cases held <;> simp [clear, leaves]
    | array elements =>
      have elementwise : leavesFrom 0 (elements.modify i (clear place)) =
          (leavesFrom 0 elements).filter (fun x => ¬ ((0 + i) :: place) <+: x.1) :=
        leavesFrom_modify ih i
      rwa [Nat.zero_add] at elementwise
    | other => simp [clear, leaves]

end Places

/-- The blocks that a value holds are found in the order of their places, each under the name that its
place gives it, and no two under one name. Where an element is taken away, all others are found as
before. -/
theorem elements_named (name : String) (v : Value) :
    ∃ found : List (List Nat × Bool × Block),
      v.collect name =
          found.map (fun (place, x) => ("_".intercalate (name :: place.map Nat.repr), x)) ∧
        (∀ place direct b,
          (place, direct, b) ∈ found ↔ v.at? place = some (.block (some b) direct)) ∧
        (found.map Prod.fst).Pairwise (· < ·) ∧
        ((v.collect name).map Prod.fst).Nodup ∧
        ∀ place, (v.clear place).collect name =
          (found.filter fun x => ¬ place <+: x.1).map
            (fun (place, x) => ("_".intercalate (name :: place.map Nat.repr), x)) := by
  refine ⟨v.leaves, collect_eq name v, fun _ _ _ => mem_leaves, leaves_ordered v, ?_, fun place => ?_⟩
  · have places : (v.leaves.map Prod.fst).Nodup := by
      refine (leaves_ordered v).imp ?_
      rintro p _ lt rfl
      exact List.lt_irrefl p lt
    have names : (v.collect name).map Prod.fst = (v.leaves.map Prod.fst).map (placeName name) := by
      rw [collect_eq, List.map_map, List.map_map]
      rfl
    rw [names]
    exact places.map (placeName_injective name)
  · rw [collect_eq, leaves_clear]
    rfl

example :
    let rows : Value := .array [.array [.block none, .block (some default)], .array [],
      .array [.block (some default)]]
    (rows.collect "grid").map Prod.fst = ["grid_0_1", "grid_2_0"] ∧
      ((rows.clear [0, 1]).collect "grid").map Prod.fst = ["grid_2_0"] := by
  decide

end Value

end Circuitry
