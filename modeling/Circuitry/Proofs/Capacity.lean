import Circuitry.Proofs.Duplex
import Circuitry.Proofs.Independence
import Circuitry.Proofs.Parts
import Mathlib.Algebra.Group.Nat.Defs

namespace Circuitry

namespace Width

def Holds (w : Int) (v : UInt64) : Prop := w < 64 → v.toNat ≤ 2 ^ w.toNat - 1

theorem holds_truncate {w : Int} (h : 0 ≤ w) (v : UInt64) : Holds w (truncate w v) := by
  intro _
  have low : v.toNat % 2 ^ w.toNat < 2 ^ w.toNat := Nat.mod_lt _ (Nat.two_pow_pos _)
  have cut : (truncate w v).toNat = v.toNat % 2 ^ w.toNat := toNat_truncate h v
  omega

theorem holds_zero (w : Int) : Holds w 0 := fun _ => Nat.zero_le _

theorem holds_bit {w : Int} (h : 0 < w) (b : Bool) : Holds w (if b then 1 else 0) := by
  cases b with
  | false => exact holds_zero w
  | true =>
    intro _
    have two : 2 ^ 1 ≤ 2 ^ w.toNat := Nat.pow_le_pow_right (by decide) (by omega)
    change 1 ≤ 2 ^ w.toNat - 1
    omega

end Width

open Width (Holds)

def Signal.Made (s : Signal) : Prop :=
  typed s.net s.kind s.width s.type = .ok { s with signed := false }

theorem Signal.made_iff {s : Signal} : s.Made ↔ s.kind.isSignal = true ∧ 0 < s.width := by
  rw [Made, typed]
  cases role : s.kind.isSignal with
  | false => simp
  | true =>
    by_cases narrow : s.width ≤ 0
    · simp [narrow]
    · simp [narrow, Int.not_le.mp narrow]

instance (s : Signal) : Decidable s.Made := decidable_of_iff _ Signal.made_iff.symm

theorem Constant.holds_unsigned {width : Int} {v : UInt64} {c : Constant}
    (h : unsigned width v = .ok c) : Holds c.width c.value := by
  rw [unsigned] at h
  split at h
  · cases h
  · next wide =>
    cases h
    exact Width.holds_truncate (show (0 : Int) ≤ width by omega) v

theorem Constant.holds_ofInt {width v : Int} {c : Constant} (h : ofInt width v = .ok c) :
    Holds c.width c.value := by
  rw [ofInt] at h
  cases made : unsigned width (UInt64.ofInt v) with
  | error f => rw [made] at h; cases h
  | ok plain =>
    rw [made] at h
    cases h
    exact (holds_unsigned made : Holds plain.width plain.value)

theorem Script.mem_steps_append {α : Type} {s t : Script α} {x : α}
    (h : x ∈ (s.append t).steps) : x ∈ s.steps ∨ x ∈ t.steps := by
  rw [append] at h
  split at h
  · exact .inl h
  · exact List.mem_append.mp h

namespace Block

def signals (b : Block) : List Signal :=
  b.leaves.filterMap fun
    | .signal s => some s
    | _ => none

theorem mem_signals {b : Block} {s : Signal} : s ∈ b.signals ↔ .signal s ∈ b.leaves := by
  rw [signals, List.mem_filterMap]
  constructor
  · rintro ⟨a, ha, hs⟩
    cases a with
    | signal t => cases hs; exact ha
    | constant c => cases hs
    | foreign f => cases hs
  · exact fun h => ⟨_, h, rfl⟩

variable {α : Type} {wire : Signal → Signal → List α}

theorem mem_linkPairs_cons {x y : Field × Block} {fs gs : List (Field × Block)} {a : α}
    (h : a ∈ (linkPairs wire (x :: fs) (y :: gs)).steps) :
    a ∈ (x.2.linkWith wire y.2).steps ∨ a ∈ (linkPairs wire fs gs).steps := by
  rw [linkPairs_cons] at h
  rcases Script.mem_steps_append h with first | rest
  · split at first
    · cases first
    · split at first
      · cases first
      · exact .inl first
  · exact .inr rest

theorem exists_wired_of_atom {a : Atom} {b : Block} {x : α}
    (h : x ∈ ((Block.atom a).linkWith wire b).steps) :
    ∃ s t, a = .signal s ∧ b = .atom (.signal t) ∧ x ∈ wire s t := by
  unfold linkWith at h
  split at h
  · next s t signal =>
    cases signal
    exact ⟨s, t, rfl, rfl, h⟩
  · rw [linkFields] at h
    split at h <;> cases h

theorem exists_pairs_of_composite {c : Composite} {fs : List (Field × Block)} {b : Block} {x : α}
    (h : x ∈ ((Block.composite c fs).linkWith wire b).steps) :
    ∃ d gs, b = .composite d gs ∧ x ∈ (linkPairs wire fs gs).steps := by
  rw [linkWith] at h
  · cases b with
    | atom a => rw [linkFields] at h; cases h
    | composite d gs =>
      rw [linkFields] at h
      split at h
      · cases h
      · split at h
        · cases h
        · split at h
          · cases h
          · exact ⟨d, gs, rfl, h⟩
  · intro s t same
    cases same

theorem exists_wired_of_mem_linkPairs {fs gs : List (Field × Block)} {x : α}
    (h : x ∈ (linkPairs wire fs gs).steps) :
    ∃ s t, .signal s ∈ fieldLeaves fs ∧ .signal t ∈ fieldLeaves gs ∧ x ∈ wire s t := by
  induction fs using induction_fields generalizing gs with
  | nil => simp [linkPairs, Script.done] at h
  | atom f a fs ih =>
    cases gs with
    | nil => simp [linkPairs, Script.done] at h
    | cons y gs =>
      rcases mem_linkPairs_cons h with first | rest
      · obtain ⟨s, t, rfl, hy, hx⟩ := exists_wired_of_atom first
        exact ⟨s, t, by simp [fieldLeaves, leaves], by simp [fieldLeaves, hy, leaves], hx⟩
      · obtain ⟨s, t, hs, ht, hx⟩ := ih rest
        exact ⟨s, t, by simp [fieldLeaves, hs], by simp [fieldLeaves, ht], hx⟩
  | composite f c inner fs ihInner ih =>
    cases gs with
    | nil => simp [linkPairs, Script.done] at h
    | cons y gs =>
      rcases mem_linkPairs_cons h with first | rest
      · obtain ⟨d, others, hy, pairs⟩ := exists_pairs_of_composite first
        obtain ⟨s, t, hs, ht, hx⟩ := ihInner pairs
        exact ⟨s, t, by simp [fieldLeaves, leaves, hs], by simp [fieldLeaves, hy, leaves, ht], hx⟩
      · obtain ⟨s, t, hs, ht, hx⟩ := ih rest
        exact ⟨s, t, by simp [fieldLeaves, hs], by simp [fieldLeaves, ht], hx⟩

theorem target_of_mem_link {parent child : Block} {d : Drive} (h : d ∈ (parent.link child).steps) :
    d.target ∈ parent.signals ++ child.signals := by
  have wired : ∃ s t, .signal s ∈ parent.leaves ∧ .signal t ∈ child.leaves ∧
      d ∈ Signal.linkDrives s t := by
    cases parent with
    | atom a =>
      obtain ⟨s, t, rfl, rfl, hd⟩ := exists_wired_of_atom h
      exact ⟨s, t, .head _, .head _, hd⟩
    | composite c fs =>
      obtain ⟨d, gs, rfl, pairs⟩ := exists_pairs_of_composite h
      exact exists_wired_of_mem_linkPairs pairs
  obtain ⟨s, t, hs, ht, hd⟩ := wired
  rw [List.mem_append, mem_signals, mem_signals]
  rw [Signal.linkDrives] at hd
  split at hd
  · obtain rfl := List.mem_singleton.mp hd
    exact .inr ht
  · obtain rfl := List.mem_singleton.mp hd
    exact .inl hs
  · cases hd

end Block

/-- The signal can be made, and is as wide as its net, where one net has one width. -/
def Signal.Declared (widths : Nat → Int) (s : Signal) : Prop := s.Made ∧ s.width = widths s.net

instance (widths : Nat → Int) (s : Signal) : Decidable (s.Declared widths) :=
  inferInstanceAs (Decidable (_ ∧ _))

theorem Signal.Declared.positive {widths : Nat → Int} {s : Signal} (h : s.Declared widths) :
    0 < s.width :=
  (made_iff.mp h.1).2

def State.Fits (widths : Nat → Int) (st : State) : Prop :=
  ∀ s : Signal, s.Declared widths →
    Holds s.width (st.val.get s.net) ∧ Holds s.width (st.next.get s.net)

section Values

variable {widths : Nat → Int} {st : State}

namespace State

theorem fits_fresh (widths : Nat → Int) : ({} : State).Fits widths := by
  intro s _
  constructor
  · rw [Store.get_empty]
    exact Width.holds_zero s.width
  · rw [Store.get_empty]
    exact Width.holds_zero s.width

theorem Fits.put (h : st.Fits widths) {t : Signal} (ht : t.Declared widths) {v : UInt64}
    (hv : Holds t.width v) : ({ st with next := st.next.set t.net v } : State).Fits widths := by
  intro s hs
  refine ⟨(h s hs).1, ?_⟩
  rw [Store.get_set]
  split
  · next same =>
    have width : t.width = s.width := by rw [ht.2, hs.2, same]
    exact width ▸ hv
  · exact (h s hs).2

theorem Fits.setNext (h : st.Fits widths) {t : Signal} (ht : t.Declared widths) (v : UInt64) :
    (st.setNext t v).Fits widths :=
  h.put ht (Width.holds_truncate ht.positive.le v)

theorem Fits.setFlag (h : st.Fits widths) {t : Signal} (ht : t.Declared widths) (b : Bool) :
    (st.setFlag t b).Fits widths :=
  h.put ht (Width.holds_bit ht.positive b)

theorem Fits.run (h : st.Fits widths) {d : Drive} (hd : d.target.Declared widths) :
    (d.run st).Fits widths := by
  cases d with
  | put t x => exact h.setNext hd _
  | putIf test t x =>
    rw [Drive.run]
    split
    · exact h
    · exact h.setNext hd _
  | flag t x => exact h.setFlag hd _
  | latch cell clock x q =>
    -- The clock level that is remembered is no value.
    have latched : (if st.val.get clock.net != 0 && !st.clock.get cell then
        st.setNext q (st.val.get x.net) else st).Fits widths := by
      split
      · exact h.setNext hd _
      · exact h
    exact latched

theorem Fits.runAll (h : st.Fits widths) {ds : List Drive}
    (hds : ∀ d ∈ ds, d.target.Declared widths) : (ds.foldl Drive.run st).Fits widths := by
  induction ds generalizing st with
  | nil => exact h
  | cons d ds ih =>
    rw [List.forall_mem_cons] at hds
    exact ih (h.run hds.1) hds.2

theorem Fits.commitAll (acc : State × Nat) (h : acc.1.Fits widths) (ns : List Nat) :
    (ns.foldl commitNet acc).1.Fits widths := by
  intro s hs
  rw [next_commitAll, get_val_commitAll]
  refine ⟨?_, (h s hs).2⟩
  split
  · exact (h s hs).2
  · exact (h s hs).1

theorem Fits.markAll (h : st.Fits widths) (ns : List Nat) : (ns.foldl mark st).Fits widths := by
  rw [foldl_mark_eq]
  exact h

section Steps

variable {b : Block} (hb : ∀ d ∈ b.updateAll.steps, d.target.Declared widths)

include hb

theorem Fits.step (h : st.Fits widths) : (b.step st).1.Fits widths := by
  have updated := h.runAll hb
  have committed := Fits.commitAll (b.updateAll.steps.foldl Drive.run st, 0) updated
    ((b.walk "").steps.filterMap Event.net?)
  rw [← foldl_commitCounted] at committed
  simp only [Block.step, Script.perform]
  cases b.updateAll.fault with
  | some f => exact updated
  | none => cases (b.walk "").fault <;> exact committed

theorem Fits.settleWithin (h : st.Fits widths) (n : Nat) : (b.settleWithin n st).1.Fits widths := by
  induction n generalizing st with
  | zero => exact h
  | succ n ih =>
    have first := h.step hb
    rw [Block.settleWithin]
    split
    · next st' step => rwa [step] at first
    · next st' k step =>
      rw [step] at first
      exact ih first
    · next st' f step => rwa [step] at first

theorem Fits.settle (h : st.Fits widths) (limit : Int) : (b.settle limit st).1.Fits widths := by
  have within := h.settleWithin hb (stepLimit limit)
  rw [Block.settle]
  split <;> simp_all

end Steps

end State

def Operation.writes (root : Block) : Operation → List Signal
  | .set s _ | .flag s _ => [s]
  | .step | .settle _ => root.updateAll.steps.map Drive.target
  | .link parent child => parent.signals ++ child.signals
  | .connectAll | .connectInputs | .linkConnect .. => []

theorem Operation.fits_act (root : Block) {op : Operation} (h : st.Fits widths)
    (known : ∀ s ∈ op.writes root, s.Declared widths) : (op.act root st).Fits widths := by
  cases op with
  | set s v => exact h.setNext (known s (.head _)) v
  | flag s b => exact h.setFlag (known s (.head _)) b
  | step => exact h.step (List.forall_mem_map.mp known)
  | settle limit => exact h.settle (List.forall_mem_map.mp known) limit
  | link parent child => exact h.runAll fun d hd => known _ (Block.target_of_mem_link hd)
  | connectAll => exact h.markAll root.connectAll.steps
  | connectInputs => exact h.markAll root.connectInputs.steps
  | linkConnect parent child => exact h.markAll (parent.linkConnect child).steps

/-- What can be done with circuits: an operation on one of them, joining two streams, or running a hook,
be it that of a single block or those of a whole tree. -/
inductive Action where
  | on (root : Block) (op : Operation)
  | join (src snk : Stream)
  | update (hook : Script Drive)

namespace Action

def act (st : State) : Action → State
  | .on root op => op.act root st
  | .join src snk => (Stream.joinDrives src snk).foldl Drive.run st
  | .update hook => (hook.perform Drive.run st).1

def writes : Action → List Signal
  | .on root op => op.writes root
  | .join src snk => (Stream.joinDrives src snk).map Drive.target
  | .update hook => hook.steps.map Drive.target

theorem fits_act {a : Action} (h : st.Fits widths) (known : ∀ s ∈ a.writes, s.Declared widths) :
    (a.act st).Fits widths := by
  cases a with
  | on root op => exact Operation.fits_act root h known
  | join src snk => exact h.runAll (List.forall_mem_map.mp known)
  | update hook => exact h.runAll (List.forall_mem_map.mp known)

theorem fits_run {actions : List Action} (h : st.Fits widths)
    (known : ∀ a ∈ actions, ∀ s ∈ a.writes, s.Declared widths) :
    (actions.foldl act st).Fits widths := by
  induction actions generalizing st with
  | nil => exact h
  | cons a actions ih =>
    rw [List.forall_mem_cons] at known
    exact ih (fits_act h known.1) known.2

end Action

end Values

/-- Whatever is done with circuits that start afresh, no signal ever holds a value beyond its width, and
no constant does. What is put for a signal is kept modulo the number of values of its width. -/
theorem State.values_fit (widths : Nat → Int) (actions : List Action)
    (known : ∀ a ∈ actions, ∀ s ∈ a.writes, s.Declared widths) :
    (∀ s : Signal, s.Declared widths →
      Holds s.width ((actions.foldl Action.act {}).val.get s.net) ∧
        Holds s.width ((actions.foldl Action.act {}).next.get s.net)) ∧
      (∀ width v c, Constant.unsigned width v = .ok c → Holds c.width c.value) ∧
      (∀ width v c, Constant.ofInt width v = .ok c → Holds c.width c.value) ∧
      ∀ (st : State) (s : Signal) (v : UInt64), 1 ≤ s.width →
        ((st.setNext s v).next.get s.net).toNat = v.toNat % 2 ^ s.width.toNat := by
  refine ⟨Action.fits_run (fits_fresh widths) known, fun _ _ _ => Constant.holds_unsigned,
    fun _ _ _ => Constant.holds_ofInt, fun st s v wide => ?_⟩
  rw [setNext, Store.get_set_self]
  exact Width.toNat_truncate (by omega) v

def mixedWidths (net : Nat) : Int := [1, 1, 2, 1, 2, 2, 70, 4].getD net 1

def mixedActions : List Action :=
  let counter := (Part.counter 2).placed 0 0
  let wide : Signal := .placed 6 .input 70
  let narrow : Signal := .placed 7 .input 4
  [.on counter (.set wide 0xfffffffffffffff1), .on counter (.flag (.placed 1 .input 1) true),
    .on (.signal wide) .step, .on counter (.settle 0),
    .update (.ofList [.put (.placed 4 .input 2) (.compl (.var 6))]),
    .on counter (.link (.signal wide) (.signal narrow)), .on (.signal narrow) .step]

theorem State.values_fit_mixed :
    let narrow : Signal := .placed 7 .input 4
    let st := mixedActions.foldl Action.act {}
    (∀ a ∈ mixedActions, ∀ s ∈ a.writes, s.Declared mixedWidths) ∧ narrow.Declared mixedWidths ∧
      Holds narrow.width (st.val.get 7) ∧ Holds narrow.width (st.next.get 7) ∧
      (st.val.get 6, st.val.get 7, st.next.get 4) = (0xfffffffffffffff1, 1, 2) := by
  intro narrow st
  have known : ∀ a ∈ mixedActions, ∀ s ∈ a.writes, s.Declared mixedWidths := by decide +kernel
  have own : narrow.Declared mixedWidths := by decide
  obtain ⟨fits, -⟩ := values_fit mixedWidths mixedActions known
  exact ⟨known, own, (fits narrow own).1, (fits narrow own).2, by decide +kernel⟩

end Circuitry
