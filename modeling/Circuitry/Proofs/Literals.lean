import Circuitry.Atom
import Circuitry.Proofs.Numerals
import Mathlib.Algebra.Order.Ring.Int

namespace Circuitry

namespace Numeral

def digit? (b : Nat) (c : Char) : Option Nat := (List.range b).find? (Nat.digitChar · = c)

def readDigits (b : Nat) : List Char → Option Nat
  | [] => none
  | cs => cs.foldlM (fun n c => (digit? b c).map (b * n + ·)) 0

theorem digit?_digitChar {b d : Nat} (hb : b ≤ 16) (hd : d < b) :
    digit? b (Nat.digitChar d) = some d := by
  rw [digit?, List.find?_range_eq_some]
  refine ⟨decide_eq_true rfl, List.mem_range.mpr hd, ?_⟩
  intro i hi
  have ne : Nat.digitChar i ≠ Nat.digitChar d :=
    fun same => Nat.ne_of_lt hi (digitChar_injective (by omega) (by omega) same)
  simpa using ne

theorem readDigits_toDigits {b : Nat} (hb : 1 < b) (hb' : b ≤ 16) (n : Nat) :
    readDigits b (Nat.toDigits b n) = some n := by
  have fold : (Nat.toDigits b n).foldlM (fun n c => (digit? b c).map (b * n + ·)) 0 = some n := by
    induction n using Nat.strongRecOn with
    | ind n ih =>
      have last : digit? b (Nat.digitChar (n % b)) = some (n % b) :=
        digit?_digitChar hb' (Nat.mod_lt n (by omega))
      have high : (if n < b then [] else Nat.toDigits b (n / b)).foldlM
          (fun n c => (digit? b c).map (b * n + ·)) 0 = some (n / b) := by
        split
        · next hn => rw [Nat.div_eq_of_lt hn]; rfl
        · next hn => exact ih (n / b) (Nat.div_lt_self (by omega) hb)
      rw [toDigits_eq hb, List.foldlM_append, high]
      simp [last, Nat.div_add_mod]
  cases h : Nat.toDigits b n with
  | nil => exact absurd h Nat.toDigits_ne_nil
  | cons c cs => rw [readDigits, ← h, fold]; exact List.cons_ne_nil c cs

end Numeral

structure SizedLiteral where
  width : Nat
  signed : Bool
  value : Nat
  deriving DecidableEq

namespace SizedLiteral

def base? : Char → Option Nat
  | 'b' => some 2
  | 'h' => some 16
  | _ => none

def ofParts (width : List Char) (signed : Bool) (radix : Char) (digits : List Char) :
    Option SizedLiteral := do
  return { width := ← Numeral.readDigits 10 width, signed
           value := ← Numeral.readDigits (← base? radix) digits }

/-- Width and value stand around a quote; after it, an `s` marks a signed literal, and a letter names
the base of the value. -/
def ofChars (text : List Char) : Option SizedLiteral :=
  let width := text.takeWhile (· ≠ '\'')
  match text.dropWhile (· ≠ '\'') with
  | '\'' :: 's' :: radix :: digits => ofParts width true radix digits
  | '\'' :: radix :: digits => ofParts width false radix digits
  | _ => none

def read (text : String) : Option SizedLiteral := ofChars text.toList

/-- The integer whose two's complement of the width has the bits of the value. -/
def toInt (l : SizedLiteral) : Int := (BitVec.ofNat l.width l.value).toInt

theorem toInt_eq {l : SizedLiteral} {x : Int}
    (bits : (l.value : Int) % (2 ^ l.width : Nat) = x % (2 ^ l.width : Nat))
    (low : -(2 ^ l.width : Nat) ≤ x * 2) (high : x * 2 < (2 ^ l.width : Nat)) : l.toInt = x := by
  calc l.toInt = (l.value : Int).bmod (2 ^ l.width) := BitVec.toInt_ofNat _
    _ = (x % (2 ^ l.width : Nat)).bmod (2 ^ l.width) := by rw [← bits, Int.emod_bmod]
    _ = x.bmod (2 ^ l.width) := Int.emod_bmod x _
    _ = x := Int.bmod_eq_of_le_mul_two low high

theorem ofChars_append {width rest : List Char} (h : '\'' ∉ width) (signed : Bool) {radix : Char}
    (hradix : radix ≠ 's') :
    ofChars (width ++ '\'' :: ((if signed then ['s'] else []) ++ radix :: rest)) =
      ofParts width signed radix rest := by
  have before : ∀ c ∈ width, decide (c ≠ '\'') = true := by
    intro c hc
    exact decide_eq_true fun same => h (same ▸ hc)
  rw [ofChars, List.takeWhile_append_of_pos before, List.dropWhile_append_of_pos before]
  cases signed with
  | false => simp [hradix]
  | true => simp

end SizedLiteral

namespace Width

theorem toList_decimal {w : Int} (h : 0 ≤ w) : (Numeral.decimal w).toList = Nat.toDigits 10 w.toNat := by
  obtain ⟨n, rfl⟩ := Int.eq_ofNat_of_zero_le h
  exact Nat.toList_repr

theorem read_literal_one (v : UInt64) (signed : Bool) :
    SizedLiteral.read (literal 1 v signed) =
      some { width := 1, signed := false, value := v.toNat % 2 } := by
  have bit : (truncate 1 v).toNat = v.toNat % 2 := toNat_truncate (by decide) v
  rw [literal, if_pos rfl, ← bit]
  split
  · next low =>
    rw [low]
    decide
  · next high =>
    have one : (truncate 1 v).toNat = 1 := by
      have ne : (truncate 1 v).toNat ≠ 0 := fun zero => high (UInt64.toNat_inj.mp zero)
      omega
    rw [one]
    decide

theorem read_literal {w : Int} (h : 1 ≤ w) (v : UInt64) (signed : Bool) :
    SizedLiteral.read (literal w v signed) =
      some { width := w.toNat, signed := signed && decide (w ≠ 1), value := v.toNat % 2 ^ w.toNat } := by
  by_cases one : w = 1
  · subst one
    rw [read_literal_one, show decide ((1 : Int) ≠ 1) = false from rfl, Bool.and_false]
    rfl
  · have quote : '\'' ∉ (Numeral.decimal w).toList := Numeral.not_mem_decimal rfl w
    have width : Numeral.readDigits 10 (Numeral.decimal w).toList = some w.toNat := by
      rw [toList_decimal (by omega)]
      exact Numeral.readDigits_toDigits (by decide) (by decide) w.toNat
    have digits : Numeral.readDigits 16 (Numeral.hex (truncate w v).toNat).toList =
        some (v.toNat % 2 ^ w.toNat) := by
      rw [Numeral.hex, String.toList_ofList, Numeral.readDigits_toDigits (by decide) (by decide)]
      exact congrArg some (toNat_truncate (by omega) v)
    have text : (literal w v signed).toList =
        (Numeral.decimal w).toList ++ '\'' :: ((if signed then ['s'] else []) ++
          'h' :: (Numeral.hex (truncate w v).toNat).toList) := by
      rw [literal, if_neg one]
      cases signed <;> simp
    rw [SizedLiteral.read, text, SizedLiteral.ofChars_append quote signed (by decide),
      SizedLiteral.ofParts]
    simp [SizedLiteral.base?, width, digits, one]

theorem truncate_eq_iff {w : Int} (h : 0 ≤ w) {v v' : UInt64} :
    truncate w v = truncate w v' ↔ v.toNat % 2 ^ w.toNat = v'.toNat % 2 ^ w.toNat := by
  rw [← UInt64.toNat_inj, toNat_truncate h, toNat_truncate h]
  rfl

/-- A literal is read back as the width that it was made for and the value that this width holds, marked
as signed if it was signed and has more than one bit. Beyond one bit a literal therefore has the text of
another one only if they agree in all three. -/
theorem literal_reads_back (w : Int) (v : UInt64) (signed : Bool) (wide : 1 ≤ w) :
    (∃ l, SizedLiteral.read (literal w v signed) = some l ∧ (l.width : Int) = w ∧
      l.value = v.toNat % 2 ^ w.toNat ∧ (l.signed = true ↔ signed = true ∧ 2 ≤ w)) ∧
      ∀ (w' : Int) (v' : UInt64) (signed' : Bool), 2 ≤ w → 1 ≤ w' →
        (literal w v signed = literal w' v' signed' ↔
          w = w' ∧ signed = signed' ∧ v.toNat % 2 ^ w.toNat = v'.toNat % 2 ^ w'.toNat) := by
  refine ⟨⟨_, read_literal wide v signed, Int.toNat_of_nonneg (by omega), rfl, ?_⟩, ?_⟩
  · rw [Bool.and_eq_true, decide_eq_true_iff]
    exact and_congr_right fun _ => by omega
  · intro w' v' signed' several wide'
    constructor
    · intro same
      have read := congrArg SizedLiteral.read same
      rw [read_literal wide, read_literal wide', Option.some.injEq, SizedLiteral.mk.injEq] at read
      obtain ⟨width, sign, value⟩ := read
      obtain rfl : w = w' := by omega
      have several : decide (w ≠ 1) = true := decide_eq_true (by omega)
      rw [several, Bool.and_true, Bool.and_true] at sign
      exact ⟨rfl, sign, value⟩
    · rintro ⟨rfl, rfl, value⟩
      have kept := (truncate_eq_iff (by omega)).mpr value
      simp only [literal, kept]

theorem literal_reads_back_nibble :
    (1 : Int) ≤ 4 ∧ (2 : Int) ≤ 4 ∧ (1 : Int) ≤ 4 ∧
      (∃ l, SizedLiteral.read (literal 4 0xfa true) = some l ∧ (l.width : Int) = 4 ∧ l.value = 10 ∧
        l.signed = true) ∧
      literal 4 0xfa true = literal 4 0x1a true ∧ literal 4 0xfa true ≠ literal 4 0xfa false := by
  obtain ⟨⟨l, read, width, value, sign⟩, same⟩ := literal_reads_back 4 0xfa true (by decide)
  refine ⟨by decide, by decide, by decide, ⟨l, read, width, value, sign.mpr ⟨rfl, by decide⟩⟩, ?_, ?_⟩
  · exact (same 4 0x1a true (by decide) (by decide)).mpr ⟨rfl, rfl, by decide⟩
  · intro equal
    obtain ⟨-, sign, -⟩ := (same 4 0xfa false (by decide) (by decide)).mp equal
    cases sign

end Width

namespace Constant

theorem ofInt_eq {width : Int} (h : 1 ≤ width) (v : Int) :
    ofInt width v =
      .ok { width, value := Width.truncate width (UInt64.ofInt v), signed := true } := by
  rw [ofInt, unsigned, if_neg (by omega)]
  rfl

theorem toNat_ofInt (v : Int) : ((UInt64.ofInt v).toNat : Int) = v % 2 ^ 64 := by
  have nonneg : 0 ≤ v % 2 ^ 64 := Int.emod_nonneg v (by decide)
  have small : v % 2 ^ 64 < 2 ^ 64 := Int.emod_lt_of_pos v (by decide)
  rw [UInt64.ofInt, UInt64.toNat_ofNat', Nat.mod_eq_of_lt (by omega), Int.toNat_of_nonneg nonneg]

theorem read_ofInt {width : Int} (h : 1 ≤ width) (v : Int) :
    ∃ c, ofInt width v = .ok c ∧ SizedLiteral.read c.literal =
      some { width := width.toNat, signed := decide (width ≠ 1)
             value := (UInt64.ofInt v).toNat % 2 ^ width.toNat } := by
  refine ⟨_, ofInt_eq h v, ?_⟩
  have cut : (Width.truncate width (UInt64.ofInt v)).toNat % 2 ^ width.toNat =
      (UInt64.ofInt v).toNat % 2 ^ width.toNat := by
    rw [Width.toNat_truncate (by omega)]
    exact Nat.mod_mod _ _
  rw [literal, Width.read_literal h, cut, Bool.true_and]

/-- A signed constant that fits its width is written as a literal of that width. In two's complement it
denotes the constant, unless that is negative and the width more than 64 bits: the sign is then not
carried on above the word, and the literal denotes an integer that is too large by the size of a word. -/
theorem literal_denotes (width v : Int) (wide : 1 ≤ width) (word : -2 ^ 63 ≤ v ∧ v < 2 ^ 63)
    (range : -2 ^ (width.toNat - 1) ≤ v ∧ v < 2 ^ (width.toNat - 1)) :
    ∃ c l, ofInt width v = .ok c ∧ SizedLiteral.read c.literal = some l ∧
      (l.width : Int) = width ∧ l.toInt = if width ≤ 64 ∨ 0 ≤ v then v else v + 2 ^ 64 := by
  obtain ⟨c, made, read⟩ := read_ofInt wide v
  refine ⟨c, _, made, read, Int.toNat_of_nonneg (by omega), ?_⟩
  obtain ⟨n, rfl⟩ : ∃ n : Nat, width = n + 1 := ⟨(width - 1).toNat, by omega⟩
  have size : ((2 ^ (n + 1) : Nat) : Int) = 2 * 2 ^ n := by push_cast; exact Int.pow_succ' 2 n
  have held : ((UInt64.ofInt v).toNat : Int) = v % 2 ^ 64 := toNat_ofInt v
  simp only [Int.toNat_natCast_add_one, Nat.add_sub_cancel] at range ⊢
  split
  · next kept =>
    have bits : ((UInt64.ofInt v).toNat : Int) % (2 ^ (n + 1) : Nat) = v % (2 ^ (n + 1) : Nat) := by
      rcases kept with narrow | nonneg
      · have divides : 2 ^ (n + 1) ∣ 2 ^ 64 := Nat.pow_dvd_pow 2 (by omega)
        rw [held]
        exact Int.emod_emod_of_dvd v (Int.natCast_dvd_natCast.mpr divides)
      · rw [held, Int.emod_eq_of_lt nonneg (by omega)]
    apply SizedLiteral.toInt_eq
    · rw [Int.natCast_mod, Int.emod_emod, bits]
    · rw [size]; omega
    · rw [size]; omega
  · next lost =>
    have room : (2 : Int) ^ 64 ≤ 2 ^ n := by
      exact_mod_cast Nat.pow_le_pow_right (by decide : 0 < 2) (by omega : 64 ≤ n)
    have bits : ((UInt64.ofInt v).toNat : Int) = v + 2 ^ 64 := by omega
    apply SizedLiteral.toInt_eq
    · rw [Int.natCast_mod, Int.emod_emod, bits]
    · rw [size]; omega
    · rw [size]; omega

theorem literal_denotes_least :
    1 ≤ (64 : Int) ∧ ∃ c l, ofInt 64 (-2 ^ 63) = .ok c ∧ SizedLiteral.read c.literal = some l ∧
      (l.width : Int) = 64 ∧ l.toInt = -2 ^ 63 :=
  ⟨by decide, literal_denotes 64 (-2 ^ 63) (by decide) (by decide) (by decide)⟩

theorem minus_one_beyond_word :
    -2 ^ (65 - 1) ≤ (-1 : Int) ∧ (-1 : Int) < 2 ^ (65 - 1) ∧
      ∃ c l, ofInt 65 (-1) = .ok c ∧ SizedLiteral.read c.literal = some l ∧
        l.toInt = 2 ^ 64 - 1 ∧ l.toInt ≠ -1 :=
  ⟨by decide, by decide, _, ⟨65, true, 2 ^ 64 - 1⟩, rfl, by decide, by decide, by decide⟩

end Constant

end Circuitry
