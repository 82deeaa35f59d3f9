import Circuitry.Text.Format

namespace Circuitry

namespace Width

/-- The representative of `n` modulo `2 ^ 64` closest to zero. -/
def wrap (n : Int) : Int := n.bmod (Nat.pow 2 64)

def mask (w : Int) : UInt64 :=
  if 0 ≤ w ∧ w < 64 then UInt64.ofNat (Nat.pow 2 w.toNat - 1) else UInt64.ofNat (Nat.pow 2 64 - 1)

def truncate (w : Int) (v : UInt64) : UInt64 := v &&& mask w

def ofLabelCount (n : Int) : Int :=
  if n ≤ 2 then 1 else ((n - 1).toNat.log2 + 1 : Nat)

/-- A sized literal: width, radix and digits. One bit is written in binary and carries no sign. -/
def literal (w : Int) (v : UInt64) (signed : Bool) : String :=
  if w = 1 then if truncate w v = 0 then "1'b0" else "1'b1"
  else Numeral.decimal w ++ "'" ++ (if signed then "sh" else "h") ++ Numeral.hex (truncate w v).toNat

theorem wrap_eq_self {n : Int} (low : -9223372036854775808 ≤ n) (high : n < 9223372036854775808) :
    wrap n = n := by
  have size : Nat.pow 2 64 = 18446744073709551616 := rfl
  rw [wrap, size]
  apply Int.bmod_eq_of_le
  · omega
  · omega

theorem toNat_mask_of_lt {w : Int} (h₀ : 0 ≤ w) (h : w < 64) :
    (mask w).toNat = Nat.pow 2 w.toNat - 1 := by
  have hw : Nat.pow 2 w.toNat ≤ Nat.pow 2 63 := Nat.pow_le_pow_right (by decide) (by omega)
  rw [mask, if_pos ⟨h₀, h⟩, UInt64.toNat_ofNat']
  apply Nat.mod_eq_of_lt
  calc Nat.pow 2 w.toNat - 1 ≤ Nat.pow 2 w.toNat := Nat.sub_le _ _
    _ ≤ Nat.pow 2 63 := hw
    _ < Nat.pow 2 64 := by decide

theorem toNat_mask_of_ge {w : Int} (h : 64 ≤ w) : (mask w).toNat = Nat.pow 2 64 - 1 := by
  rw [mask, if_neg (by omega)]; rfl

theorem toNat_truncate {w : Int} (h₀ : 0 ≤ w) (v : UInt64) :
    (truncate w v).toNat = v.toNat % Nat.pow 2 w.toNat := by
  rw [truncate, UInt64.toNat_and]
  by_cases h : w < 64
  · rw [toNat_mask_of_lt h₀ h]
    exact Nat.and_two_pow_sub_one_eq_mod _ _
  · have hw : Nat.pow 2 64 ≤ Nat.pow 2 w.toNat := Nat.pow_le_pow_right (by decide) (by omega)
    have hv : v.toNat < Nat.pow 2 64 := v.toNat_lt
    rw [toNat_mask_of_ge (by omega), Nat.mod_eq_of_lt (Nat.lt_of_lt_of_le hv hw)]
    exact (Nat.and_two_pow_sub_one_eq_mod _ _).trans (Nat.mod_eq_of_lt hv)

theorem toNat_truncate_min {w : Int} (h : 0 ≤ w) (v : UInt64) :
    (truncate w v).toNat = v.toNat % Nat.pow 2 (min w 64).toNat := by
  rw [toNat_truncate h]
  rcases Int.le_total w 64 with narrow | wide
  · rw [Int.min_eq_left narrow]
  · have room : Nat.pow 2 64 ≤ Nat.pow 2 w.toNat := Nat.pow_le_pow_right (by decide) (by omega)
    rw [Int.min_eq_right wide]
    exact (Nat.mod_eq_of_lt (Nat.lt_of_lt_of_le v.toNat_lt room)).trans
      (Nat.mod_eq_of_lt v.toNat_lt).symm

theorem toNat_truncate_add {w : Int} (low : 0 ≤ w) (high : w ≤ 64) (a b : UInt64) :
    (truncate w (a + b)).toNat = (a.toNat + b.toNat) % Nat.pow 2 w.toNat := by
  have divides : Nat.pow 2 w.toNat ∣ Nat.pow 2 64 := Nat.pow_dvd_pow 2 (by omega)
  rw [toNat_truncate low, UInt64.toNat_add]
  exact Nat.mod_mod_of_dvd _ divides

@[simp] theorem truncate_truncate (w : Int) (v : UInt64) :
    truncate w (truncate w v) = truncate w v := by
  simp [truncate, UInt64.and_assoc]

end Width

end Circuitry
