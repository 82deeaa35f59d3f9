import Circuitry.Simulation.State
import Mathlib.Algebra.Order.Ring.Int

namespace Circuitry

namespace Width

theorem one_le_ofLabelCount (n : Int) : 1 ≤ ofLabelCount n := by
  rw [ofLabelCount]
  split
  · exact Int.le_refl 1
  · omega

theorem ofLabelCount_le_iff {n w : Int} (h : 1 ≤ w) : ofLabelCount n ≤ w ↔ n ≤ 2 ^ w.toNat := by
  have two : (2 : Int) ^ 1 ≤ 2 ^ w.toNat := by
    exact_mod_cast Nat.pow_le_pow_right (by decide : 0 < 2) (by omega : 1 ≤ w.toNat)
  rw [ofLabelCount]
  split
  · next few => exact iff_of_true h (by omega)
  · next many =>
    -- The last ordinal needs as many bits as its logarithm says, and one more.
    obtain ⟨last, rfl⟩ : ∃ last : Nat, n = last + 1 := ⟨(n - 1).toNat, by omega⟩
    have bits : last.log2 < w.toNat ↔ last < 2 ^ w.toNat := Nat.log2_lt (by omega)
    have size : ((2 ^ w.toNat : Nat) : Int) = 2 ^ w.toNat := by push_cast; rfl
    rw [Int.add_sub_cancel, Int.toNat_natCast]
    omega

theorem le_two_pow_ofLabelCount (n : Int) : n ≤ 2 ^ (ofLabelCount n).toNat :=
  (ofLabelCount_le_iff (one_le_ofLabelCount n)).mp (Int.le_refl _)

theorem two_pow_lt_of_several {n : Int} (h : 2 < n) :
    2 ≤ ofLabelCount n ∧ 2 ^ (ofLabelCount n - 1).toNat < n := by
  have several : ¬ ofLabelCount n ≤ 1 := fun one =>
    Int.not_lt.mpr ((ofLabelCount_le_iff (Int.le_refl 1)).mp one) h
  refine ⟨by omega, Int.not_le.mp fun enough => ?_⟩
  have least := (ofLabelCount_le_iff (by omega)).mpr enough
  omega

end Width

theorem State.toNat_val_commit_setNext (st : State) {s : Signal} (h : 1 ≤ s.width) {i : Nat}
    (word : i < 2 ^ 64) :
    (((st.setNext s (.ofNat i)).commit s).val.get s.net).toNat = i % 2 ^ s.width.toNat := by
  rw [commit, setNext, Store.get_set_self, Store.get_set_self, Width.toNat_truncate (by omega),
    UInt64.toNat_ofNat_of_lt' word]
  rfl

namespace Signal

theorem exists_typed (net : Nat) {kind : Kind} {width : Int} (type : Descriptor)
    (role : kind.isSignal = true) (h : 1 ≤ width) :
    ∃ s, typed net kind width type = .ok s ∧ s.width = width := by
  refine ⟨{ net, kind, width, type }, ?_, rfl⟩
  rw [typed, role, if_neg (by decide), if_neg (by omega)]

theorem exists_ofEnum (net : Nat) {kind : Kind} (name : String) {labels : List String}
    (role : kind.isSignal = true) (h : labels ≠ []) :
    ∃ s, ofEnum net kind (.enum name labels) = .ok s ∧
      s.width = Width.ofLabelCount labels.length := by
  obtain ⟨first, rest, rfl⟩ := List.exists_cons_of_ne_nil h
  exact exists_typed net _ role (Width.one_le_ofLabelCount _)

/-- The width of an enum type is the least one, of at least one bit, that has a value for each label. A
signal of the type holds each ordinal that is put for it, and if there are more than two labels, a signal
of one bit less does not. -/
theorem enum_width_exact :
    (∀ n : Int, 1 ≤ n →
      1 ≤ Width.ofLabelCount n ∧ n ≤ 2 ^ (Width.ofLabelCount n).toNat ∧
        ∀ w : Int, 1 ≤ w → n ≤ 2 ^ w.toNat → Width.ofLabelCount n ≤ w) ∧
    ∀ (net : Nat) (kind : Kind) (name : String) (labels : List String),
      kind.isSignal = true → labels ≠ [] → labels.length ≤ 2 ^ 64 →
        ∃ s, ofEnum net kind (.enum name labels) = .ok s ∧
          s.width = Width.ofLabelCount labels.length ∧
          (∀ (st : State) (i : Nat), i < labels.length →
            (((st.setNext s (.ofNat i)).commit s).val.get s.net).toNat = i) ∧
          (2 < labels.length → ∃ narrow,
            typed net kind (s.width - 1) (.enum name labels) = .ok narrow ∧
              ∃ i < labels.length, ∀ st : State,
                (((st.setNext narrow (.ofNat i)).commit narrow).val.get narrow.net).toNat ≠ i) := by
  constructor
  · intro n _
    exact ⟨Width.one_le_ofLabelCount n, Width.le_two_pow_ofLabelCount n,
      fun w wide enough => (Width.ofLabelCount_le_iff wide).mpr enough⟩
  · intro net kind name labels role ne words
    obtain ⟨s, made, width⟩ := exists_ofEnum net name role ne
    refine ⟨s, made, width, fun st i hi => ?_, fun several => ?_⟩
    · have wide : 1 ≤ s.width := width ▸ Width.one_le_ofLabelCount _
      have room : labels.length ≤ 2 ^ s.width.toNat := by
        rw [width]
        exact_mod_cast Width.le_two_pow_ofLabelCount labels.length
      rw [State.toNat_val_commit_setNext st wide (Nat.lt_of_lt_of_le hi words)]
      exact Nat.mod_eq_of_lt (Nat.lt_of_lt_of_le hi room)
    · obtain ⟨two, few⟩ := Width.two_pow_lt_of_several (n := labels.length) (by omega)
      have left : 1 ≤ s.width - 1 := by omega
      obtain ⟨narrow, made', width'⟩ := exists_typed net (.enum name labels) role left
      have tight : 2 ^ narrow.width.toNat < labels.length := by
        rw [width', width]
        exact_mod_cast few
      refine ⟨narrow, made', labels.length - 1, by omega, fun st => ?_⟩
      rw [State.toNat_val_commit_setNext st (by omega) (by omega)]
      have cut : (labels.length - 1) % 2 ^ narrow.width.toNat < 2 ^ narrow.width.toNat :=
        Nat.mod_lt _ (Nat.two_pow_pos _)
      omega

theorem enum_width_exact_five :
    let phase : Descriptor := .ofVariants "Phase" ["New", "Waxing", "Full", "Waning", "Dark"]
    (1 : Int) ≤ 5 ∧ (5 : Int) ≤ 2 ^ 3 ∧ Width.ofLabelCount 5 ≤ 3 ∧
      ∃ s, ofEnum 7 .inner phase = .ok s ∧ s.width = 3 ∧
        (∀ st : State, (((st.setNext s 4).commit s).val.get s.net).toNat = 4) ∧
        ∃ narrow, typed 7 .inner 2 phase = .ok narrow ∧ ∃ i < 5, ∀ st : State,
          (((st.setNext narrow (.ofNat i)).commit narrow).val.get narrow.net).toNat ≠ i := by
  intro phase
  obtain ⟨exact, holds⟩ := enum_width_exact
  obtain ⟨-, -, least⟩ := exact 5 (by decide)
  obtain ⟨s, made, width, kept, short⟩ :=
    holds 7 .inner "Phase" (["New", "Waxing", "Full", "Waning", "Dark"].map ("Phase." ++ ·)) rfl
      (by decide) (by decide)
  have three : s.width = 3 := width
  obtain ⟨narrow, made', lost⟩ := short (by decide)
  rw [three] at made'
  exact ⟨by decide, by decide, least 3 (by decide) (by decide), s, made, three,
    fun st => kept st 4 (by decide), narrow, made', lost⟩

end Signal

end Circuitry
