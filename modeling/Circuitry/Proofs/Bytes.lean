import Mathlib.Tactic.SplitIfs

namespace Circuitry.Text

def bytes (s : String) : List UInt8 := s.toUTF8.data.toList

theorem bytes_eq (s : String) : bytes s = s.toList.flatMap String.utf8EncodeChar := by
  rw [bytes, ← String.ofList_toList (s := s), String.toUTF8_eq_toByteArray,
    String.toByteArray_ofList, List.utf8Encode, List.toList_data_toByteArray, String.toList_ofList]

theorem digits_lt {v w : Nat} (n : Nat) (h : v < w) :
    v / n < w / n ∨ v / n = w / n ∧ v % n < w % n := by
  have hv := Nat.div_add_mod v n
  have hw := Nat.div_add_mod w n
  rcases Nat.lt_or_eq_of_le (Nat.div_le_div_right (c := n) (Nat.le_of_lt h)) with lt | same
  · exact .inl lt
  · rw [same] at hv
    exact .inr ⟨same, by omega⟩

theorem toNat_lt (c : Char) : c.val.toNat < 0x110000 := by
  rcases c.valid with h | h
  · omega
  · exact h.2

theorem encode_lt {c d : Char} (h : c < d) (xs ys : List UInt8) :
    String.utf8EncodeChar c ++ xs < String.utf8EncodeChar d ++ ys := by
  have lt : c.val.toNat < d.val.toNat := h
  have bound := toNat_lt d
  simp only [String.utf8EncodeChar]
  generalize c.val.toNat = v at lt
  generalize d.val.toNat = w at lt bound
  by_cases long : v ≤ 0xffff
  · by_cases tail : xs < ys <;> split_ifs <;>
      simp only [List.cons_append, List.nil_append, List.cons_lt_cons_iff, UInt8.lt_iff_toNat_lt,
        ← UInt8.toNat_inj, UInt8.toNat_ofNat', tail, and_true, and_false, or_false] <;>
      omega
  · -- Four bytes against four: none of them is cut short, so they are the digits to base 64.
    have lead {x : Nat} (hx : x < 0x110000) :
        (x / 262144 % 8 + 240) % 2 ^ 8 = x / 262144 + 240 := by omega
    have next (x : Nat) : (x % 64 + 128) % 2 ^ 8 = x % 64 + 128 := by omega
    have digits := digits_lt 64 lt
    rw [if_neg (by omega), if_neg (by omega), if_neg long, if_neg (by omega), if_neg (by omega),
      if_neg (by omega)]
    by_cases tail : xs < ys <;>
      simp only [List.cons_append, List.nil_append, List.cons_lt_cons_iff, UInt8.lt_iff_toNat_lt,
        ← UInt8.toNat_inj, UInt8.toNat_ofNat', lead (Nat.lt_trans lt bound), lead bound, next, tail,
        and_true, and_false, or_false] <;>
      clear lead next tail <;>
      omega

theorem encode_ne_nil (c : Char) : String.utf8EncodeChar c ≠ [] := by
  simp only [String.utf8EncodeChar]
  split_ifs <;> exact List.cons_ne_nil _ _

theorem flatMap_encode_lt {cs ds : List Char} (h : cs < ds) :
    cs.flatMap String.utf8EncodeChar < ds.flatMap String.utf8EncodeChar := by
  induction cs generalizing ds with
  | nil =>
    cases ds with
    | nil => exact absurd h (List.lt_irrefl _)
    | cons d ds =>
      obtain ⟨b, bs, encoded⟩ := List.exists_cons_of_ne_nil (encode_ne_nil d)
      rw [List.flatMap_cons, encoded]
      exact List.nil_lt_cons _ _
  | cons c cs ih =>
    cases ds with
    | nil => exact absurd h (List.not_lt_nil _)
    | cons d ds =>
      rw [List.flatMap_cons, List.flatMap_cons]
      rcases List.cons_lt_cons_iff.mp h with lt | ⟨rfl, lt⟩
      · exact encode_lt lt _ _
      · exact List.append_left_lt (ih lt)

theorem bytes_lt {s t : String} (h : s < t) : bytes s < bytes t := by
  rw [bytes_eq, bytes_eq]
  exact flatMap_encode_lt (String.lt_iff.mp h)

end Circuitry.Text
