import Circuitry.Width
import Mathlib.Data.List.Basic
import Mathlib.Data.Nat.Basic

namespace Circuitry

namespace Numeral

theorem digitChar_injective {m n : Nat} (hm : m < 16) (hn : n < 16)
    (h : Nat.digitChar m = Nat.digitChar n) : m = n := by
  have all : ∀ m < 16, ∀ n < 16, Nat.digitChar m = Nat.digitChar n → m = n := by decide
  exact all m hm n hn h

section Base

variable {b : Nat} (hb : 1 < b)

include hb

theorem toDigits_eq (n : Nat) :
    Nat.toDigits b n =
      (if n < b then [] else Nat.toDigits b (n / b)) ++ [Nat.digitChar (n % b)] := by
  split
  · next hn => rw [Nat.toDigits_of_lt_base hn, Nat.mod_eq_of_lt hn, List.nil_append]
  · next hn => exact Nat.toDigits_of_base_le hb (Nat.not_lt.mp hn)

theorem exists_digit_of_mem_toDigits {n : Nat} {c : Char} (h : c ∈ Nat.toDigits b n) :
    ∃ d < b, c = Nat.digitChar d := by
  induction n using Nat.strongRecOn with
  | ind n ih =>
    rw [toDigits_eq hb, List.mem_append, List.mem_singleton] at h
    rcases h with h | h
    · split at h
      · cases h
      · next hn => exact ih (n / b) (Nat.div_lt_self (by omega) hb) h
    · exact ⟨n % b, Nat.mod_lt n (by omega), h⟩

theorem toDigits_injective (hb' : b ≤ 16) {m n : Nat} (h : Nat.toDigits b m = Nat.toDigits b n) :
    m = n := by
  induction m using Nat.strongRecOn generalizing n with
  | ind m ih =>
    rw [toDigits_eq hb m, toDigits_eq hb n] at h
    obtain ⟨high, low⟩ := List.append_inj' h rfl
    have digit (k : Nat) : k % b < 16 := Nat.lt_of_lt_of_le (Nat.mod_lt k (by omega)) hb'
    have low : m % b = n % b :=
      digitChar_injective (digit m) (digit n) (List.head_eq_of_cons_eq low)
    have high : m / b = n / b := by
      split at high <;> split at high
      · next hm hn => rw [Nat.div_eq_of_lt hm, Nat.div_eq_of_lt hn]
      · exact absurd high.symm Nat.toDigits_ne_nil
      · exact absurd high Nat.toDigits_ne_nil
      · exact ih _ (Nat.div_lt_self (by omega) hb) high
    rw [← Nat.div_add_mod m b, high, low, Nat.div_add_mod]

end Base

theorem repr_injective {m n : Nat} (h : m.repr = n.repr) : m = n := by
  have digits : Nat.toDigits 10 m = Nat.toDigits 10 n := by
    rw [← Nat.toList_repr, h, Nat.toList_repr]
  exact toDigits_injective (by decide) (by decide) digits

theorem hex_injective {m n : Nat} (h : hex m = hex n) : m = n :=
  toDigits_injective (by decide) (by decide) (String.ofList_injective h)

theorem decimal_injective {m n : Int} (h : decimal m = decimal n) : m = n := by
  have sign (k l : Nat) : k.repr ≠ "-" ++ l.repr := by
    intro same
    have mem : '-' ∈ k.repr.toList := by simp [same]
    rw [Nat.toList_repr] at mem
    exact absurd (Nat.isDigit_of_mem_toDigits (by decide) (by decide) mem) (by decide)
  cases m <;> cases n
  · exact congrArg Int.ofNat (repr_injective h)
  · exact absurd h (sign _ _)
  · exact absurd h.symm (sign _ _)
  · have h := repr_injective ((String.append_right_inj "-").mp h)
    rw [Nat.succ.inj h]

def isNumeric (c : Char) : Bool := c.isAlphanum || c = '-'

theorem isNumeric_of_isDigit {c : Char} (h : c.isDigit = true) : isNumeric c = true := by
  simp [isNumeric, Char.isAlphanum, h]

theorem isNumeric_of_mem_repr {n : Nat} {c : Char} (h : c ∈ n.repr.toList) : isNumeric c = true :=
  isNumeric_of_isDigit
    (Nat.isDigit_of_mem_toDigits (by decide) (by decide) (Nat.toList_repr ▸ h))

theorem isNumeric_of_mem_decimal {n : Int} {c : Char} (h : c ∈ (decimal n).toList) :
    isNumeric c = true := by
  cases n with
  | ofNat n => exact isNumeric_of_mem_repr h
  | negSucc n =>
    rw [decimal, String.toList_append, List.mem_append] at h
    rcases h with h | h
    · obtain rfl : c = '-' := by simpa using h
      rfl
    · exact isNumeric_of_mem_repr h

theorem not_mem_decimal {c : Char} (h : isNumeric c = false) (n : Int) :
    c ∉ (decimal n).toList := by
  intro mem
  simp [isNumeric_of_mem_decimal mem] at h

theorem isNumeric_of_mem_hex {n : Nat} {c : Char} (h : c ∈ (hex n).toList) :
    isNumeric c = true := by
  rw [hex, String.toList_ofList] at h
  obtain ⟨d, hd, rfl⟩ := exists_digit_of_mem_toDigits (by decide) h
  have all : ∀ d < 16, isNumeric (Nat.digitChar d) = true := by decide
  exact all d hd

end Numeral

namespace Width

open Numeral

def radixDigits (w : Int) (v : UInt64) (signed : Bool) : String :=
  if w = 1 then if truncate w v = 0 then "b0" else "b1"
  else (if signed then "sh" else "h") ++ hex (truncate w v).toNat

theorem literal_eq (w : Int) (v : UInt64) (signed : Bool) :
    literal w v signed = decimal w ++ "'" ++ radixDigits w v signed := by
  rw [literal, radixDigits]
  split
  · next h =>
    subst h
    split <;> decide
  · simp [String.append_assoc]

theorem isNumeric_of_mem_radixDigits {w : Int} {v : UInt64} {signed : Bool} {c : Char}
    (h : c ∈ (radixDigits w v signed).toList) : isNumeric c = true := by
  have mark (t : String) (ht : t.toList.all isNumeric = true) (hc : c ∈ t.toList) :
      isNumeric c = true := List.all_eq_true.mp ht c hc
  rw [radixDigits] at h
  split at h
  · split at h
    · exact mark "b0" (by decide) h
    · exact mark "b1" (by decide) h
  · rw [String.toList_append, List.mem_append] at h
    rcases h with h | h
    · cases signed
      · exact mark "h" (by decide) h
      · exact mark "sh" (by decide) h
    · exact isNumeric_of_mem_hex h

theorem isNumeric_of_mem_literal {w : Int} {v : UInt64} {signed : Bool} {c : Char}
    (h : c ∈ (literal w v signed).toList) : c = '\'' ∨ isNumeric c = true := by
  rw [literal_eq, String.toList_append, String.toList_append, List.mem_append, List.mem_append] at h
  rcases h with (h | h) | h
  · exact .inr (isNumeric_of_mem_decimal h)
  · exact .inl (by simpa using h)
  · exact .inr (isNumeric_of_mem_radixDigits h)

theorem radixDigits_injective {w : Int} {v v' : UInt64} {s s' : Bool}
    (h : radixDigits w v s = radixDigits w v' s') :
    truncate w v = truncate w v' ∧ (w ≠ 1 → s = s') := by
  by_cases hw : w = 1
  · subst hw
    refine ⟨?_, fun ne => absurd rfl ne⟩
    have bit (v : UInt64) : (truncate 1 v).toNat < 2 := by
      rw [toNat_truncate (by decide)]
      exact Nat.mod_lt _ (by decide)
    have zero : truncate 1 v = 0 ↔ truncate 1 v' = 0 := by
      simp only [radixDigits, if_pos] at h
      split at h <;> split at h <;> simp_all
    have bits := bit v
    have bits' := bit v'
    simp only [← UInt64.toNat_inj, UInt64.toNat_zero] at zero ⊢
    omega
  · simp only [radixDigits, if_neg hw] at h
    have signs : s = s' := by
      cases s <;> cases s' <;> simp [← String.toList_inj] at h ⊢
    subst signs
    exact ⟨UInt64.toNat_inj.mp (hex_injective ((String.append_right_inj _).mp h)), fun _ => rfl⟩

theorem literal_injective {w w' : Int} {v v' : UInt64} {s s' : Bool}
    (h : literal w v s = literal w' v' s') :
    w = w' ∧ truncate w v = truncate w v' ∧ (w ≠ 1 → s = s') := by
  have chars (w : Int) (v : UInt64) (s : Bool) : (literal w v s).toList =
      (decimal w).toList ++ '\'' :: (radixDigits w v s).toList := by
    simp [literal_eq]
  have digits : '\'' ∉ (radixDigits w v s).toList := fun mem =>
    absurd (isNumeric_of_mem_radixDigits mem) (by decide)
  have h := congrArg String.toList h
  rw [chars, chars, List.append_cons_inj_of_notMem (not_mem_decimal rfl w) digits] at h
  obtain ⟨width, -, rest⟩ := h
  obtain rfl := decimal_injective (String.toList_injective width)
  exact ⟨rfl, radixDigits_injective (String.toList_injective rest)⟩

end Width

end Circuitry
