import Circuitry.Proofs.Walk
import Circuitry.Simulation.Bench
import Mathlib.Data.Finset.Card
import Mathlib.Logic.Function.Iterate

namespace Circuitry

namespace Drive

/-- The next value that a drive gives to a net, where `v` holds the current values. What a latch
does also depends on its clock, and is left out. -/
def write? (v : Nat → UInt64) (n : Nat) : Drive → Option UInt64
  | .put t x => if t.net = n then some (Width.truncate t.width (x.eval v)) else none
  | .putIf test t x =>
    if t.net = n ∧ test.eval v ≠ 0 then some (Width.truncate t.width (x.eval v)) else none
  | .flag t x => if t.net = n then some (if x.eval v = 0 then 0 else 1) else none
  | .latch .. => none

def isLatch : Drive → Bool
  | .latch .. => true
  | _ => false

theorem target_of_write? {v : Nat → UInt64} {n : Nat} {d : Drive}
    (h : (d.write? v n).isSome = true) : d.target.net = n := by
  cases d with
  | put t x => simp_all [write?, target]
  | putIf test t x => simp_all [write?, target]
  | flag t x => simp_all [write?, target]
  | latch => cases h

theorem next_run_cases (d : Drive) (st : State) :
    (d.run st).next = st.next ∧ d.write? st.val.get d.target.net = none ∨
      ∃ x, (d.run st).next = st.next.set d.target.net x ∧
        (d.isLatch = true ∨ d.write? st.val.get d.target.net = some x) := by
  cases d with
  | put t x => exact .inr ⟨_, rfl, .inr (if_pos rfl)⟩
  | putIf test t x =>
    by_cases off : test.eval st.val.get = 0
    · exact .inl ⟨by simp [run, off], by simp [write?, off]⟩
    · exact .inr ⟨_, by simp only [run, off, if_false]; rfl, .inr (if_pos ⟨rfl, off⟩)⟩
  | flag t x =>
    refine .inr ⟨_, rfl, .inr ?_⟩
    by_cases off : x.eval st.val.get = 0 <;> simp [write?, target, off]
  | latch cell clock x q =>
    simp only [run]
    split
    · exact .inr ⟨_, rfl, .inl rfl⟩
    · exact .inl ⟨rfl, rfl⟩

theorem get_next_run {d : Drive} {n : Nat} (h : d.isLatch = true → d.target.net ≠ n) (st : State) :
    (d.run st).next.get n = (d.write? st.val.get n).getD (st.next.get n) := by
  by_cases hn : d.target.net = n
  · subst hn
    rcases next_run_cases d st with ⟨next, write⟩ | ⟨x, next, latch | write⟩
    · rw [next, write]
      rfl
    · exact absurd rfl (h latch)
    · rw [next, write, Store.get_set_self]
      rfl
  · have write : d.write? st.val.get n = none := by
      rw [← Option.not_isSome_iff_eq_none]
      exact fun some => hn (target_of_write? some)
    rcases next_run_cases d st with ⟨next, -⟩ | ⟨x, next, -⟩
    · rw [next, write]
      rfl
    · rw [next, write, Store.get_set_of_ne hn]
      rfl

theorem val_foldl_run (ds : List Drive) (st : State) : (ds.foldl run st).val = st.val := by
  induction ds generalizing st with
  | nil => rfl
  | cons d ds ih => rw [List.foldl_cons, ih, val_run]

theorem marked_foldl_run (ds : List Drive) (st : State) :
    (ds.foldl run st).marked = st.marked := by
  induction ds generalizing st with
  | nil => rfl
  | cons d ds ih => rw [List.foldl_cons, ih, marked_run]

theorem get_next_foldl_run {ds : List Drive} {n : Nat}
    (h : ∀ d ∈ ds, d.isLatch = true → d.target.net ≠ n) (st : State) :
    (ds.foldl run st).next.get n =
      (ds.filterMap (write? st.val.get n)).getLast?.getD (st.next.get n) := by
  induction ds generalizing st with
  | nil => rfl
  | cons d ds ih =>
    obtain ⟨first, rest⟩ := List.forall_mem_cons.mp h
    rw [List.foldl_cons, ih rest, val_run, get_next_run first, List.filterMap_cons]
    cases d.write? st.val.get n with
    | none => rfl
    | some x => simp [List.getLast?_cons]

end Drive

def State.commitNet (acc : State × Nat) (n : Nat) : State × Nat :=
  ({ acc.1 with val := acc.1.val.set n (acc.1.next.get n) },
    if acc.1.val.get n = acc.1.next.get n then acc.2 else acc.2 + 1)

def Event.net? : Event → Option Nat
  | .atom _ (.signal s) => some s.net
  | _ => none

namespace State

theorem foldl_commitCounted (es : List Event) (acc : State × Nat) :
    es.foldl commitCounted acc = (es.filterMap Event.net?).foldl commitNet acc := by
  induction es generalizing acc with
  | nil => rfl
  | cons e es ih =>
    rw [List.foldl_cons, ih, List.filterMap_cons]
    cases e with
    | atom name a =>
      cases a with
      | signal s =>
        have same : commitCounted acc (.atom name (.signal s)) = commitNet acc s.net := by
          by_cases h : acc.1.val.get s.net = acc.1.next.get s.net <;>
            simp [commitCounted, commitNet, commit, changes, h]
        rw [same]
        rfl
      | constant c => rfl
      | foreign f => rfl
    | enter name code => rfl
    | openGroup name => rfl
    | closeGroup name => rfl
    | leave name => rfl

variable (ns : List Nat) (acc : State × Nat)

theorem next_commitAll : (ns.foldl commitNet acc).1.next = acc.1.next := by
  induction ns generalizing acc with
  | nil => rfl
  | cons n ns ih => rw [List.foldl_cons, ih]; rfl

theorem clock_commitAll : (ns.foldl commitNet acc).1.clock = acc.1.clock := by
  induction ns generalizing acc with
  | nil => rfl
  | cons n ns ih => rw [List.foldl_cons, ih]; rfl

theorem get_val_commitNet (n m : Nat) :
    (commitNet acc n).1.val.get m = if n = m then acc.1.next.get m else acc.1.val.get m := by
  simp only [commitNet, Store.get_set]
  split
  · next h => rw [h]
  · rfl

theorem get_val_commitAll (m : Nat) :
    (ns.foldl commitNet acc).1.val.get m =
      if m ∈ ns then acc.1.next.get m else acc.1.val.get m := by
  induction ns generalizing acc with
  | nil => simp
  | cons n ns ih =>
    rw [List.foldl_cons, ih, get_val_commitNet]
    by_cases hm : m ∈ ns
    · simp [hm, commitNet]
    · by_cases hn : n = m
      · simp [hm, hn]
      · simp [hm, hn, Ne.symm hn]

theorem count_commitAll :
    (ns.foldl commitNet acc).2 =
      acc.2 + (ns.toFinset.filter fun n => acc.1.val.get n ≠ acc.1.next.get n).card := by
  induction ns generalizing acc with
  | nil => simp
  | cons n ns ih =>
    have later : (ns.toFinset.filter fun m =>
        (commitNet acc n).1.val.get m ≠ (commitNet acc n).1.next.get m) =
          (ns.toFinset.filter fun m => acc.1.val.get m ≠ acc.1.next.get m).erase n := by
      ext m
      rw [Finset.mem_erase, Finset.mem_filter, Finset.mem_filter, get_val_commitNet]
      by_cases hm : n = m
      · simp [hm, commitNet]
      · simp [hm, Ne.symm hm, commitNet]
    rw [List.foldl_cons, ih, later, List.toFinset_cons, Finset.filter_insert]
    by_cases same : acc.1.val.get n = acc.1.next.get n
    · simp [commitNet, same]
    · have counted := Finset.card_erase_add_one (Finset.mem_insert_self n
        (ns.toFinset.filter fun m => acc.1.val.get m ≠ acc.1.next.get m))
      rw [Finset.erase_insert_eq_erase] at counted
      rw [if_pos same, ← counted]
      simp only [commitNet, if_neg same]
      omega

theorem count_commitAll_eq_iff :
    (ns.foldl commitNet acc).2 = acc.2 ↔ ∀ n ∈ ns, acc.1.val.get n = acc.1.next.get n := by
  rw [count_commitAll]
  simp [Finset.filter_eq_empty_iff]

end State

def Atom.net? : Atom → Option Nat
  | .signal s => some s.net
  | _ => none

theorem Event.net?_eq (e : Event) : e.net? = e.atom?.bind Atom.net? := by
  cases e with
  | atom name a => cases a <;> rfl
  | _ => rfl

namespace Block

def nets (b : Block) : List Nat := (b.walk "").steps.filterMap Event.net?

theorem nets_eq {b : Block} (h : (b.walk "").fault = none) :
    b.nets = b.leaves.filterMap Atom.net? := by
  rw [nets, ← atoms_walk h, List.filterMap_filterMap]
  congr 1
  funext e
  exact e.net?_eq

theorem mem_nets {b : Block} (h : (b.walk "").fault = none) {n : Nat} :
    n ∈ b.nets ↔ ∃ s, Atom.signal s ∈ b.leaves ∧ s.net = n := by
  rw [nets_eq h, List.mem_filterMap]
  constructor
  · rintro ⟨a, ha, hn⟩
    cases a with
    | signal s => exact ⟨s, ha, Option.some.inj hn⟩
    | constant c => cases hn
    | foreign f => cases hn
  · rintro ⟨s, hs, rfl⟩
    exact ⟨_, hs, rfl⟩

def updated (b : Block) (st : State) : State := b.updateAll.steps.foldl Drive.run st

def advance (b : Block) (st : State) : State := (b.step st).1

variable {b : Block} {st st' : State}

theorem step_eq (updates : b.updateAll.fault = none) (walks : (b.walk "").fault = none)
    (st : State) :
    b.step st = ((b.nets.foldl State.commitNet (b.updated st, 0)).1,
      .ok (b.nets.foldl State.commitNet (b.updated st, 0)).2) := by
  simp [step, Script.perform, updates, walks, State.foldl_commitCounted, nets, updated]

theorem step_ok {k : Nat} (h : (b.step st).2 = .ok k) :
    b.updateAll.fault = none ∧ (b.walk "").fault = none := by
  simp only [step, Script.perform] at h
  cases updates : b.updateAll.fault with
  | some f => simp [updates] at h
  | none =>
    cases walks : (b.walk "").fault with
    | some f => simp [updates, walks] at h
    | none => exact ⟨rfl, rfl⟩

section Faultless

variable (updates : b.updateAll.fault = none) (walks : (b.walk "").fault = none)

include updates walks

theorem next_advance (st : State) : (b.advance st).next = (b.updated st).next := by
  rw [advance, step_eq updates walks, State.next_commitAll]

theorem clock_advance (st : State) : (b.advance st).clock = (b.updated st).clock := by
  rw [advance, step_eq updates walks, State.clock_commitAll]

theorem get_val_advance (st : State) (n : Nat) :
    (b.advance st).val.get n = if n ∈ b.nets then (b.advance st).next.get n else st.val.get n := by
  rw [next_advance updates walks, advance, step_eq updates walks, State.get_val_commitAll, updated,
    Drive.val_foldl_run]

theorem step_eq_zero_iff :
    (b.step st).2 = .ok 0 ↔ ∀ n, (b.advance st).val.get n = st.val.get n := by
  have count := State.count_commitAll_eq_iff b.nets (b.updated st, 0)
  rw [step_eq updates walks]
  simp only [Except.ok.injEq, count]
  constructor
  · intro same n
    rw [get_val_advance updates walks, next_advance updates walks]
    split
    · next hn => rw [← same n hn, updated, Drive.val_foldl_run]
    · rfl
  · intro same n hn
    have := same n
    rw [get_val_advance updates walks, next_advance updates walks, if_pos hn] at this
    rw [this, updated, Drive.val_foldl_run]

end Faultless

theorem exists_changed {k : Nat} (h : (b.step st).2 = .ok (k + 1)) :
    ∃ s, Atom.signal s ∈ b.leaves ∧ (b.advance st).val.get s.net ≠ st.val.get s.net := by
  obtain ⟨updates, walks⟩ := step_ok h
  have moved : ¬ ∀ n, (b.advance st).val.get n = st.val.get n := by
    rw [← step_eq_zero_iff updates walks, h]
    simp
  obtain ⟨n, hn⟩ := not_forall.mp moved
  have inside : n ∈ b.nets := by
    by_contra outside
    rw [get_val_advance updates walks, if_neg outside] at hn
    exact hn rfl
  obtain ⟨s, hs, rfl⟩ := (mem_nets walks).mp inside
  exact ⟨s, hs, hn⟩

def Moves (b : Block) (st : State) (i : Nat) : Prop :=
  ∃ k, (b.step (b.advance^[i] st)).2 = .ok (k + 1)

theorem moves_succ (i : Nat) : b.Moves st (i + 1) ↔ b.Moves (b.advance st) i := Iff.rfl

theorem settleWithin_eq_settled_iff (n : Nat) :
    b.settleWithin n st = (st', .settled) ↔
      ∃ i < n, (∀ j < i, b.Moves st j) ∧ b.step (b.advance^[i] st) = (st', .ok 0) := by
  induction n generalizing st with
  | zero => simp [settleWithin]
  | succ n ih =>
    rw [settleWithin]
    split
    · next s h =>
      constructor
      · intro same
        cases same
        exact ⟨0, by omega, by simp, h⟩
      · rintro ⟨i, -, moves, quiet⟩
        cases i with
        | zero => simp_all
        | succ i =>
          obtain ⟨k, hk⟩ := moves 0 (by omega)
          simp [h] at hk
    · next s k h =>
      have next : b.advance st = s := by rw [advance, h]
      rw [ih, ← next]
      constructor
      · rintro ⟨i, hi, moves, quiet⟩
        refine ⟨i + 1, by omega, ?_, quiet⟩
        intro j hj
        cases j with
        | zero => exact ⟨k, by rw [Function.iterate_zero, id, h]⟩
        | succ j => exact moves j (by omega)
      · rintro ⟨i, hi, moves, quiet⟩
        cases i with
        | zero => simp [h] at quiet
        | succ i => exact ⟨i, by omega, fun j hj => moves (j + 1) (by omega), quiet⟩
    · next s f h =>
      simp only [Prod.mk.injEq, reduceCtorEq, and_false, false_iff]
      rintro ⟨i, -, moves, quiet⟩
      cases i with
      | zero => simp [h] at quiet
      | succ i =>
        obtain ⟨k, hk⟩ := moves 0 (by omega)
        simp [h] at hk

theorem moves_of_unsettled {n : Nat} (h : b.settleWithin n st = (st', .unsettled)) :
    ∀ i < n, b.Moves st i := by
  induction n generalizing st with
  | zero => simp
  | succ n ih =>
    rw [settleWithin] at h
    split at h
    · cases h
    · next s k hstep =>
      intro i hi
      cases i with
      | zero => exact ⟨k, by rw [Function.iterate_zero, id, hstep]⟩
      | succ i =>
        have next : b.advance st = s := by rw [advance, hstep]
        rw [moves_succ, next]
        exact ih h i (by omega)
    · cases h

theorem settle_eq_none_iff (limit : Int) :
    b.settle limit st = (st', none) ↔
      b.settleWithin (stepLimit limit) st = (st', .settled) := by
  rw [settle]
  split
  · next s h => simp [h]
  · next s h => simp [h]
  · next s f h => simp [h]

theorem settleWithin_of_settle {limit k : Int}
    (h : b.settle limit st = (st', some (.unsettled k))) :
    b.settleWithin (stepLimit limit) st = (st', .unsettled) := by
  rw [settle] at h
  split at h
  · cases h
  · next s hs =>
    cases h
    exact hs
  · cases h

end Block

end Circuitry
