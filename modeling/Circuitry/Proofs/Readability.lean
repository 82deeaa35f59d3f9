import Circuitry.Hdl.Expr
import Circuitry.Proofs.Numerals

/-!
Unique readability of expressions. Parentheses stand around operators that are operands and nowhere
else, so the text of an expression is cut at the marks outside of all brackets: a blank shows an
infix operator, a comma the parts of a concatenation. What stands at either end tells the other forms
apart. From its form and the texts of its parts an expression is known, up to the ways of writing a
literal and the source of a name.
-/

namespace Circuitry

namespace Text

def isOpening (c : Char) : Bool := c = '(' || c = '[' || c = '\x7b'

def isClosing (c : Char) : Bool := c = ')' || c = ']' || c = '\x7d'

def isMark (c : Char) : Bool := c = ' ' || c = ','

def isDelimiter (c : Char) : Bool := isMark c || isOpening c || isClosing c

def isWord (c : Char) : Bool := c.isAlphanum || c = '_' || c = '$'

def isIdentifier (s : String) : Bool := s ≠ "" && s.toList.all isWord

def isSign (c : Char) : Bool :=
  c = '~' || c = '!' || c = '-' || c = '&' || c = '|' || c = '^'

section Classes

variable {c : Char}

theorem isDelimiter_of_isNumeric (h : Numeral.isNumeric c = true) :
    isDelimiter c = false := by
  cases hc : isDelimiter c with
  | false => rfl
  | true =>
    simp only [isDelimiter, isMark, isOpening, isClosing, Bool.or_eq_true, decide_eq_true_eq] at hc
    rcases hc with ((rfl | rfl) | (rfl | rfl) | rfl) | (rfl | rfl) | rfl <;>
      exact absurd h (by decide)

theorem isDelimiter_of_mem_literal {w : Int} {v : UInt64} {s : Bool}
    (h : c ∈ (Width.literal w v s).toList) : isDelimiter c = false := by
  rcases Width.isNumeric_of_mem_literal h with rfl | numeric
  · decide
  · exact isDelimiter_of_isNumeric numeric

theorem isDelimiter_of_isSign (h : isSign c = true) : isDelimiter c = false := by
  simp only [isSign, Bool.or_eq_true, decide_eq_true_eq] at h
  rcases h with ((((rfl | rfl) | rfl) | rfl) | rfl) | rfl <;> decide

theorem isSign_of_isWord (h : isWord c = true) : isSign c = false := by
  cases hc : isSign c with
  | false => rfl
  | true =>
    simp only [isSign, Bool.or_eq_true, decide_eq_true_eq] at hc
    rcases hc with ((((rfl | rfl) | rfl) | rfl) | rfl) | rfl <;> exact absurd h (by decide)

theorem isSign_of_isDigit (h : c.isDigit = true) : isSign c = false :=
  isSign_of_isWord (by simp [isWord, Char.isAlphanum, h])

end Classes

/-- The number of open brackets after a text that starts inside `depth` of them, provided that the
text closes no others and has no `sep` outside of all brackets. -/
def scan (sep : Char) : Nat → List Char → Option Nat
  | depth, [] => some depth
  | depth, c :: cs =>
    if isOpening c then scan sep (depth + 1) cs
    else if isClosing c then if depth = 0 then none else scan sep (depth - 1) cs
    else if c = sep ∧ depth = 0 then none
    else scan sep depth cs

variable {sep c : Char} {depth : Nat} {us vs rs ss : List Char}

theorem scan_append (us vs : List Char) :
    scan sep depth (us ++ vs) = (scan sep depth us).bind fun depth => scan sep depth vs := by
  induction us generalizing depth with
  | nil => rfl
  | cons u us ih =>
    simp only [List.cons_append, scan]
    split
    · exact ih
    · split
      · split
        · rfl
        · exact ih
      · split
        · rfl
        · exact ih

theorem scan_opening (h : isOpening c = true) (cs : List Char) :
    scan sep depth (c :: cs) = scan sep (depth + 1) cs := by
  rw [scan, if_pos h]

theorem scan_closing (h : isClosing c = true) (cs : List Char) :
    scan sep (depth + 1) (c :: cs) = scan sep depth cs := by
  have closes : isOpening c = false := by
    simp only [isClosing, Bool.or_eq_true, decide_eq_true_eq] at h
    rcases h with (rfl | rfl) | rfl <;> decide
  simp [scan, closes, h]

theorem scan_mark (h : isMark c = true) (cs : List Char) :
    scan sep depth (c :: cs) = if c = sep ∧ depth = 0 then none else scan sep depth cs := by
  have plain : isOpening c = false ∧ isClosing c = false := by
    simp only [isMark, Bool.or_eq_true, decide_eq_true_eq] at h
    rcases h with rfl | rfl <;> decide
  simp [scan, plain]

theorem scan_plain (hsep : isMark sep = true) {cs : List Char}
    (h : ∀ c ∈ cs, isDelimiter c = false) : scan sep depth cs = some depth := by
  induction cs with
  | nil => rfl
  | cons c cs ih =>
    obtain ⟨plain, rest⟩ := List.forall_mem_cons.mp h
    simp only [isDelimiter, Bool.or_eq_false_iff] at plain
    have ne : c ≠ sep := by
      rintro rfl
      simp [hsep] at plain
    simp [scan, plain, ne, ih rest]

/-- A text without `sep` outside of brackets, all of which it closes. -/
def Sealed (sep : Char) (us : List Char) : Prop := scan sep 0 us = some 0

theorem Sealed.not_extended (hsep : isMark sep = true) (hu : Sealed sep us) (rs : List Char) :
    ¬ Sealed sep (us ++ sep :: rs) := by
  rw [Sealed, scan_append, hu, Option.bind_some, scan_mark hsep]
  simp

theorem Sealed.split (hsep : isMark sep = true) (hu : Sealed sep us) (hv : Sealed sep vs)
    (h : us ++ sep :: rs = vs ++ sep :: ss) : us = vs ∧ rs = ss := by
  rcases List.append_eq_append_iff.mp h with ⟨more, rfl, rest⟩ | ⟨more, rfl, rest⟩
  · cases more with
    | nil => exact ⟨(List.append_nil us).symm, List.tail_eq_of_cons_eq rest⟩
    | cons c more =>
      obtain rfl := List.head_eq_of_cons_eq rest
      exact absurd hv (hu.not_extended hsep more)
  · cases more with
    | nil => exact ⟨List.append_nil vs, (List.tail_eq_of_cons_eq rest).symm⟩
    | cons c more =>
      obtain rfl := List.head_eq_of_cons_eq rest
      exact absurd hu (hv.not_extended hsep more)

theorem split_last {a : Char} (hr : a ∉ rs) (hs : a ∉ ss) (h : us ++ a :: rs = vs ++ a :: ss) :
    us = vs ∧ rs = ss := by
  rcases List.append_eq_append_iff.mp h with ⟨more, rfl, rest⟩ | ⟨more, rfl, rest⟩
  · cases more with
    | nil => exact ⟨(List.append_nil us).symm, List.tail_eq_of_cons_eq rest⟩
    | cons c more => exact absurd (by simp [List.tail_eq_of_cons_eq rest]) hr
  · cases more with
    | nil => exact ⟨List.append_nil vs, (List.tail_eq_of_cons_eq rest).symm⟩
    | cons c more => exact absurd (by simp [List.tail_eq_of_cons_eq rest]) hs

theorem flatMap_injective {ps qs : List (List Char)} (hp : ∀ p ∈ ps, Sealed ',' p)
    (hq : ∀ q ∈ qs, Sealed ',' q)
    (h : ps.flatMap (· ++ [',', ' ']) = qs.flatMap (· ++ [',', ' '])) : ps = qs := by
  induction ps generalizing qs with
  | nil =>
    cases qs with
    | nil => rfl
    | cons q qs => simp at h
  | cons p ps ih =>
    cases qs with
    | nil => simp at h
    | cons q qs =>
      obtain ⟨sealedP, hps⟩ := List.forall_mem_cons.mp hp
      obtain ⟨sealedQ, hqs⟩ := List.forall_mem_cons.mp hq
      simp only [List.flatMap_cons, List.append_assoc, List.cons_append, List.nil_append] at h
      obtain ⟨rfl, rest⟩ := sealedP.split rfl sealedQ h
      rw [ih hps hqs (List.tail_eq_of_cons_eq rest)]

theorem intercalate_append {ps : List (List Char)} (h : ps ≠ []) :
    [',', ' '].intercalate ps ++ [',', ' '] = ps.flatMap (· ++ [',', ' ']) := by
  induction ps with
  | nil => exact absurd rfl h
  | cons p ps ih =>
    cases ps with
    | nil => simp
    | cons q ps =>
      rw [List.intercalate_cons_cons, List.append_assoc, ih (List.cons_ne_nil q ps)]
      simp

theorem intercalate_injective {ps qs : List (List Char)} (hp : ∀ p ∈ ps, p ≠ [] ∧ Sealed ',' p)
    (hq : ∀ q ∈ qs, q ≠ [] ∧ Sealed ',' q)
    (h : [',', ' '].intercalate ps = [',', ' '].intercalate qs) : ps = qs := by
  have empty {ps : List (List Char)} (hp : ∀ p ∈ ps, p ≠ [] ∧ Sealed ',' p) :
      [',', ' '].intercalate ps = [] ↔ ps = [] := by
    cases ps with
    | nil => simp
    | cons p ps => cases ps <;> simp [(hp p (.head _)).1]
  by_cases hnil : ps = []
  · subst hnil
    exact ((empty hq).mp h.symm).symm
  · have hnil' : qs ≠ [] := mt (empty hq).mpr (h ▸ mt (empty hp).mp hnil)
    refine flatMap_injective (fun p mem => (hp p mem).2) (fun q mem => (hq q mem).2) ?_
    rw [← intercalate_append hnil, h, intercalate_append hnil']

end Text

namespace Expr

open Text

/-- A name has no delimiter in it and does not start like a literal or a unary operator. -/
def isName (s : String) : Bool :=
  match s.toList with
  | [] => false
  | c :: cs => !c.isDigit && !isSign c && (c :: cs).all (!isDelimiter ·)

def isUnaryOperator (op : String) : Bool :=
  match op.toList with
  | [c] => isSign c
  | _ => false

def isInfixOperator (op : String) : Bool := op.toList.all (!isDelimiter ·)

mutual

/-- Names and operators are such, and literals have a width. -/
def wellFormed : Expr → Bool
  | .hole => false
  | .ref name => isName name
  | .lit w _ _ => decide (1 ≤ w)
  | .enum label => isName (Descriptor.identifier label)
  | .unary op x => isUnaryOperator op && x.wellFormed
  | .binary op x y => isInfixOperator op && x.wellFormed && y.wellFormed
  | .index x _ | .slice x _ _ => x.wellFormed
  | .concat parts => partsWellFormed parts

def partsWellFormed : List Expr → Bool
  | [] => true
  | x :: xs => x.wellFormed && partsWellFormed xs

end

theorem plain_of_isName {name : String} (h : isName name = true) :
    ∀ c ∈ name.toList, isDelimiter c = false := by
  rw [isName] at h
  split at h
  · cases h
  · next c cs chars =>
    rw [chars]
    simpa using (Bool.and_eq_true_iff.mp h).2

theorem exists_cons_of_isName {name : String} (h : isName name = true) :
    ∃ c cs, name.toList = c :: cs ∧ c.isDigit = false ∧ isSign c = false := by
  rw [isName] at h
  split at h
  · cases h
  · next c cs chars =>
    simp only [Bool.and_eq_true, Bool.not_eq_true'] at h
    exact ⟨c, cs, chars, h.1.1, h.1.2⟩

theorem exists_sign_of_isUnaryOperator {op : String} (h : isUnaryOperator op = true) :
    ∃ c, op.toList = [c] ∧ isSign c = true := by
  rw [isUnaryOperator] at h
  split at h
  · next c chars => exact ⟨c, chars, h⟩
  · cases h

mutual

/-- Literals hold the value that their width keeps, and no sign at one bit; labels are names. -/
def normal : Expr → Expr
  | .hole => .hole
  | .ref name => .ref name
  | .lit w v s => .lit w (Width.truncate w v) (s && decide (w ≠ 1))
  | .enum label => .ref (Descriptor.identifier label)
  | .unary op x => .unary op x.normal
  | .binary op x y => .binary op x.normal y.normal
  | .index x bit => .index x.normal bit
  | .slice x hi lo => .slice x.normal hi lo
  | .concat parts => .concat (partsNormal parts)

def partsNormal : List Expr → List Expr
  | [] => []
  | x :: xs => x.normal :: partsNormal xs

end

theorem isOperator_normal (x : Expr) : x.normal.isOperator = x.isOperator := by
  cases x <;> rfl

theorem literal_normal (w : Int) (v : UInt64) (s : Bool) :
    Width.literal w (Width.truncate w v) (s && decide (w ≠ 1)) = Width.literal w v s := by
  by_cases h : w = 1 <;> simp [Width.literal, h]

mutual

theorem text_normal : ∀ x : Expr, x.normal.text = x.text
  | .hole | .ref _ | .enum _ => rfl
  | .lit w v s => literal_normal w v s
  | .unary op x => by simp only [normal, text, isOperator_normal, text_normal x]
  | .binary op x y => by
    simp only [normal, text, isOperator_normal, text_normal x, text_normal y]
  | .index x bit => by simp only [normal, text, isOperator_normal, text_normal x]
  | .slice x hi lo => by simp only [normal, text, isOperator_normal, text_normal x]
  | .concat parts => by simp only [normal, text, partTexts_normal parts]

theorem partTexts_normal : ∀ xs : List Expr, partTexts (partsNormal xs) = partTexts xs
  | [] => rfl
  | x :: xs => by rw [partsNormal, partTexts, partTexts, text_normal x, partTexts_normal xs]

end

/-- Well-formed expressions in normal form. -/
inductive Canonical : Expr → Prop
  | ref {name : String} (proper : isName name = true) : Canonical (.ref name)
  | lit {w : Int} {v : UInt64} {s : Bool} (width : 1 ≤ w) (fits : Width.truncate w v = v)
    (sign : s = true → w ≠ 1) : Canonical (.lit w v s)
  | unary {op : String} {x : Expr} (sign : isUnaryOperator op = true) (operand : Canonical x) :
    Canonical (.unary op x)
  | binary {op : String} {x y : Expr} (between : isInfixOperator op = true) (left : Canonical x)
    (right : Canonical y) : Canonical (.binary op x y)
  | index {x : Expr} {bit : Int} (operand : Canonical x) : Canonical (.index x bit)
  | slice {x : Expr} {hi lo : Int} (operand : Canonical x) : Canonical (.slice x hi lo)
  | concat {parts : List Expr} (proper : ∀ x ∈ parts, Canonical x) : Canonical (.concat parts)

mutual

theorem canonical_normal : ∀ x : Expr, x.wellFormed = true → Canonical x.normal
  | .hole, h => by simp [wellFormed] at h
  | .ref _, h => .ref h
  | .lit w v s, h => .lit (of_decide_eq_true h) (Width.truncate_truncate w v) (by simp)
  | .enum _, h => .ref h
  | .unary op x, h => by
    obtain ⟨sign, hx⟩ := Bool.and_eq_true_iff.mp h
    exact .unary sign (canonical_normal x hx)
  | .binary op x y, h => by
    simp only [wellFormed, Bool.and_eq_true] at h
    obtain ⟨⟨between, hx⟩, hy⟩ := h
    exact .binary between (canonical_normal x hx) (canonical_normal y hy)
  | .index x _, h => .index (canonical_normal x h)
  | .slice x _ _, h => .slice (canonical_normal x h)
  | .concat parts, h => .concat (canonical_partsNormal parts h)

theorem canonical_partsNormal : ∀ xs : List Expr, partsWellFormed xs = true →
    ∀ y ∈ partsNormal xs, Canonical y
  | [], _ => by simp [partsNormal]
  | x :: xs, h => by
    obtain ⟨hx, hxs⟩ := Bool.and_eq_true_iff.mp h
    exact List.forall_mem_cons.mpr ⟨canonical_normal x hx, canonical_partsNormal xs hxs⟩

end

def operand (x : Expr) : String := enclose x.isOperator x.text

def bounds (hi lo : Int) : List Char :=
  (Numeral.decimal hi).toList ++ ':' :: (Numeral.decimal lo).toList

inductive Form where
  | name
  | literal
  | unary
  | binary
  | selection
  | concat
  deriving DecidableEq

def form : Expr → Form
  | .hole | .ref _ | .enum _ => .name
  | .lit .. => .literal
  | .unary .. => .unary
  | .binary .. => .binary
  | .index .. | .slice .. => .selection
  | .concat _ => .concat

def Form.ofChars (cs : List Char) : Form :=
  if scan ' ' 0 cs = none then .binary
  else if cs.head?.any isSign then .unary
  else if cs.getLast? = some ']' then .selection
  else if cs.head? = some '\x7b' then .concat
  else if cs.head?.any Char.isDigit then .literal
  else .name

section Characters

variable {op : String} {x y : Expr}

theorem chars_unary (op : String) (x : Expr) :
    (unary op x).text.toList = op.toList ++ x.operand.toList := by
  simp [text, operand]

theorem chars_binary (op : String) (x y : Expr) :
    (binary op x y).text.toList =
      x.operand.toList ++ ' ' :: (op.toList ++ ' ' :: y.operand.toList) := by
  simp [text, operand]

theorem chars_index (x : Expr) (bit : Int) :
    (index x bit).text.toList =
      x.operand.toList ++ '[' :: ((Numeral.decimal bit).toList ++ [']']) := by
  simp [text, operand]

theorem chars_slice (x : Expr) (hi lo : Int) :
    (slice x hi lo).text.toList =
      x.operand.toList ++
        '[' :: (bounds hi lo ++ [']']) := by
  simp [text, operand, bounds]

theorem chars_concat (parts : List Expr) :
    (concat parts).text.toList =
      '\x7b' :: ([',', ' '].intercalate (parts.map (·.text.toList)) ++ ['\x7d']) := by
  simp [text, String.toList_intercalate, Function.comp_def]

theorem chars_operand (h : x.isOperator = true) :
    x.operand.toList = '(' :: (x.text.toList ++ [')']) := by
  simp [operand, enclose, h]

theorem operand_eq_text (h : x.isOperator = false) : x.operand = x.text := by
  simp [operand, enclose, h]

end Characters

section Scanning

variable {sep : Char} {depth : Nat} {x : Expr}

theorem scan_operand
    (h : ∀ depth, (x.form = .binary → sep = ' ' → depth ≠ 0) →
      scan sep depth x.text.toList = some depth) :
    scan sep depth x.operand.toList = some depth := by
  cases hop : x.isOperator with
  | true =>
    rw [chars_operand hop, scan_opening rfl, scan_append, h (depth + 1) (by simp), Option.bind_some,
      scan_closing rfl, scan]
  | false =>
    rw [operand_eq_text hop]
    refine h depth fun binary => ?_
    cases x <;> simp [form, isOperator] at binary hop

theorem scan_intercalate {ps : List (List Char)} (hdepth : depth ≠ 0)
    (h : ∀ p ∈ ps, scan sep depth p = some depth) :
    scan sep depth ([',', ' '].intercalate ps) = some depth := by
  induction ps with
  | nil => rfl
  | cons p ps ih =>
    obtain ⟨first, rest⟩ := List.forall_mem_cons.mp h
    cases ps with
    | nil => simpa using first
    | cons q ps =>
      have passed : scan sep depth [',', ' '] = some depth := by
        rw [scan_mark rfl, if_neg (hdepth ·.2), scan_mark rfl, if_neg (hdepth ·.2), scan]
      rw [List.intercalate_cons_cons, List.append_assoc, scan_append, first, Option.bind_some,
        scan_append, passed, Option.bind_some, ih rest]

theorem scan_text (hsep : isMark sep = true) (hx : Canonical x) :
    ∀ depth, (x.form = .binary → sep = ' ' → depth ≠ 0) →
      scan sep depth x.text.toList = some depth := by
  have numeral (n : Int) (depth : Nat) :
      scan sep depth (Numeral.decimal n).toList = some depth :=
    scan_plain hsep fun c hc => isDelimiter_of_isNumeric (Numeral.isNumeric_of_mem_decimal hc)
  induction hx with
  | ref proper => exact fun depth _ => scan_plain hsep (plain_of_isName proper)
  | lit =>
    exact fun depth _ => scan_plain hsep fun c hc => isDelimiter_of_mem_literal hc
  | unary sign _ ih =>
    intro depth _
    obtain ⟨c, chars, hc⟩ := exists_sign_of_isUnaryOperator sign
    have plain : ∀ d ∈ [c], isDelimiter d = false := by simp [isDelimiter_of_isSign hc]
    rw [chars_unary, chars, scan_append, scan_plain hsep plain, Option.bind_some, scan_operand ih]
  | @binary op _ _ between _ _ ihx ihy =>
    intro depth outside
    have plain : ∀ c ∈ op.toList, isDelimiter c = false := by
      simpa [isInfixOperator] using between
    have passed : ¬ (' ' = sep ∧ depth = 0) := fun h => outside rfl h.1.symm h.2
    rw [chars_binary, scan_append, scan_operand ihx, Option.bind_some, scan_mark rfl, if_neg passed,
      scan_append, scan_plain hsep plain, Option.bind_some, scan_mark rfl, if_neg passed,
      scan_operand ihy]
  | index _ ih =>
    intro depth _
    rw [chars_index, scan_append, scan_operand ih, Option.bind_some, scan_opening rfl, scan_append,
      numeral, Option.bind_some, scan_closing rfl, scan]
  | slice _ ih =>
    intro depth _
    have colon (cs : List Char) : scan sep (depth + 1) (':' :: cs) = scan sep (depth + 1) cs := by
      simp [scan, isOpening, isClosing]
    rw [chars_slice, scan_append, scan_operand ih, Option.bind_some, scan_opening rfl, scan_append,
      bounds, scan_append, numeral, Option.bind_some, colon, numeral, Option.bind_some,
      scan_closing rfl, scan]
  | concat _ ih =>
    intro depth _
    have parts : ∀ p ∈ List.map (fun y : Expr => y.text.toList) _,
        scan sep (depth + 1) p = some (depth + 1) :=
      List.forall_mem_map.mpr fun y hy => ih y hy (depth + 1) fun _ _ => Nat.succ_ne_zero depth
    rw [chars_concat, scan_opening rfl, scan_append, scan_intercalate (Nat.succ_ne_zero depth) parts,
      Option.bind_some, scan_closing rfl, scan]

end Scanning

section Ends

variable {x y : Expr}

theorem head_literal {w : Int} (h : 1 ≤ w) (v : UInt64) (s : Bool) :
    ∃ c cs, (Width.literal w v s).toList = c :: cs ∧ c.isDigit = true := by
  obtain ⟨n, rfl⟩ := Int.eq_ofNat_of_zero_le (show 0 ≤ w by omega)
  obtain ⟨c, cs, digits⟩ := List.exists_cons_of_ne_nil (@Nat.toDigits_ne_nil n 10)
  have digit : c.isDigit = true :=
    Nat.isDigit_of_mem_toDigits (by decide) (by decide) (digits ▸ .head _ : c ∈ Nat.toDigits 10 n)
  refine ⟨c, cs ++ '\'' :: (Width.radixDigits n v s).toList, ?_, digit⟩
  rw [Width.literal_eq, Numeral.decimal_natCast, String.toList_append, String.toList_append,
    Nat.toList_repr, digits]
  simp

theorem head_operand (hx : Canonical x) :
    ∃ c cs, x.operand.toList = c :: cs ∧ isSign c = false := by
  induction hx with
  | ref proper =>
    obtain ⟨c, cs, chars, -, sign⟩ := exists_cons_of_isName proper
    exact ⟨c, cs, chars, sign⟩
  | lit width =>
    obtain ⟨c, cs, chars, digit⟩ := head_literal width _ _
    exact ⟨c, cs, chars, isSign_of_isDigit digit⟩
  | unary | binary => exact ⟨_, _, chars_operand rfl, rfl⟩
  | index _ ih =>
    obtain ⟨c, cs, chars, plain⟩ := ih
    rw [operand_eq_text rfl, chars_index, chars]
    exact ⟨_, _, rfl, plain⟩
  | slice _ ih =>
    obtain ⟨c, cs, chars, plain⟩ := ih
    rw [operand_eq_text rfl, chars_slice, chars]
    exact ⟨_, _, rfl, plain⟩
  | concat =>
    rw [operand_eq_text rfl, chars_concat]
    exact ⟨_, _, rfl, rfl⟩

theorem ofChars_plain {c : Char} {cs : List Char} (plain : ∀ d ∈ c :: cs, isDelimiter d = false)
    (sign : isSign c = false) :
    Form.ofChars (c :: cs) = if c.isDigit then .literal else .name := by
  have last : (c :: cs).getLast? ≠ some ']' := fun last =>
    absurd (plain ']' (List.mem_of_getLast? last)) (by decide)
  have brace : c ≠ '\x7b' := by
    rintro rfl
    exact absurd (plain '\x7b' (.head _)) (by decide)
  have whole : scan ' ' 0 (c :: cs) = some 0 := scan_plain rfl plain
  cases digit : c.isDigit <;> simp [Form.ofChars, whole, sign, last, brace, digit]

theorem ofChars_selection {c : Char} {cs : List Char} (whole : scan ' ' 0 (c :: cs) = some 0)
    (sign : isSign c = false) (last : (c :: cs).getLast? = some ']') :
    Form.ofChars (c :: cs) = .selection := by
  simp [Form.ofChars, whole, sign, last]

theorem ofChars_text (hx : Canonical x) : Form.ofChars x.text.toList = x.form := by
  have whole (hform : x.form ≠ .binary) : scan ' ' 0 x.text.toList = some 0 :=
    scan_text rfl hx 0 fun h => absurd h hform
  -- Only an infix operator has a blank outside of brackets; for the others the ends decide.
  cases hx with
  | ref proper =>
    obtain ⟨c, cs, chars, digit, sign⟩ := exists_cons_of_isName proper
    rw [text, chars, ofChars_plain (chars ▸ plain_of_isName proper) sign, digit]
    rfl
  | @lit w v s width =>
    obtain ⟨c, cs, chars, digit⟩ := head_literal width v s
    have plain : ∀ d ∈ c :: cs, isDelimiter d = false := fun d hd =>
      isDelimiter_of_mem_literal (chars ▸ hd)
    rw [text, chars, ofChars_plain plain (isSign_of_isDigit digit), digit]
    rfl
  | @unary op y sign hy =>
    have whole := whole (by simp [form])
    obtain ⟨c, chars, hc⟩ := exists_sign_of_isUnaryOperator sign
    rw [chars_unary, chars] at whole ⊢
    simp only [List.cons_append, List.nil_append] at whole ⊢
    simp [Form.ofChars, whole, hc, form]
  | @binary op y z between hy hz =>
    have left : scan ' ' 0 y.operand.toList = some 0 := scan_operand (scan_text rfl hy)
    have cut : scan ' ' 0 (binary op y z).text.toList = none := by
      rw [chars_binary, scan_append, left, Option.bind_some, scan_mark rfl, if_pos ⟨rfl, rfl⟩]
    rw [Form.ofChars, if_pos cut, form]
  | @index y bit hy =>
    have whole := whole (by simp [form])
    obtain ⟨c, cs, chars, sign⟩ := head_operand hy
    rw [chars_index, chars] at whole ⊢
    exact ofChars_selection whole sign (by simp [List.getLast?_cons])
  | @slice y hi lo hy =>
    have whole := whole (by simp [form])
    obtain ⟨c, cs, chars, sign⟩ := head_operand hy
    rw [chars_slice, chars] at whole ⊢
    exact ofChars_selection whole sign (by simp [List.getLast?_cons])
  | concat =>
    have whole := whole (by simp [form])
    rw [chars_concat] at whole ⊢
    simp [Form.ofChars, whole, isSign, form, List.getLast?_cons]

theorem getLast?_operand (hx : Canonical x) :
    x.operand.toList.getLast? = some ')' ↔ x.isOperator = true := by
  cases hop : x.isOperator with
  | true => simp [chars_operand hop, List.getLast?_cons]
  | false =>
    rw [operand_eq_text hop]
    simp only [Bool.false_eq_true, iff_false]
    cases hx with
    | ref proper =>
      exact fun last => absurd (plain_of_isName proper ')' (List.mem_of_getLast? last)) (by decide)
    | lit =>
      exact fun last =>
        absurd (isDelimiter_of_mem_literal (List.mem_of_getLast? last)) (by decide)
    | unary | binary => cases hop
    | index => simp [chars_index, List.getLast?_append, List.getLast?_cons]
    | slice => simp [chars_slice, List.getLast?_append, List.getLast?_cons]
    | concat => simp [chars_concat, List.getLast?_cons]

end Ends

section Parts

variable {x y : Expr}

theorem form_eq (hx : Canonical x) (hy : Canonical y) (h : x.text = y.text) : x.form = y.form := by
  rw [← ofChars_text hx, h, ofChars_text hy]

theorem text_eq_of_operand_eq (hx : Canonical x) (hy : Canonical y)
    (h : x.operand.toList = y.operand.toList) : x.text = y.text := by
  have same : x.isOperator = y.isOperator := by
    rw [Bool.eq_iff_iff, ← getLast?_operand hx, h, getLast?_operand hy]
  cases hop : x.isOperator with
  | true =>
    rw [chars_operand hop, chars_operand (same ▸ hop)] at h
    exact String.toList_injective (List.append_cancel_right (List.tail_eq_of_cons_eq h))
  | false =>
    rw [operand_eq_text hop, operand_eq_text (same ▸ hop)] at h
    exact String.toList_injective h

theorem selection_parts (hx : Canonical x) (hy : Canonical y) {bs cs : List Char} (hb : '[' ∉ bs)
    (hc : '[' ∉ cs)
    (h : x.operand.toList ++ '[' :: (bs ++ [']']) = y.operand.toList ++ '[' :: (cs ++ [']'])) :
    x.text = y.text ∧ bs = cs := by
  obtain ⟨operands, bounds⟩ := split_last (by simpa using hb) (by simpa using hc) h
  exact ⟨text_eq_of_operand_eq hx hy operands, List.append_cancel_right bounds⟩

theorem not_mem_bounds (hi lo : Int) : '[' ∉ bounds hi lo := by
  simp [bounds, Numeral.not_mem_decimal (c := '[') rfl]

theorem bounds_ne_decimal (hi lo bit : Int) : bounds hi lo ≠ (Numeral.decimal bit).toList := by
  intro same
  have colon : ':' ∈ (Numeral.decimal bit).toList := by rw [← same]; simp [bounds]
  exact Numeral.not_mem_decimal rfl bit colon

theorem bounds_injective {hi lo hi' lo' : Int} (h : bounds hi lo = bounds hi' lo') :
    hi = hi' ∧ lo = lo' := by
  have colon (n : Int) : ':' ∉ (Numeral.decimal n).toList := Numeral.not_mem_decimal rfl n
  obtain ⟨his, los⟩ := split_last (colon lo) (colon lo') h
  exact ⟨Numeral.decimal_injective (String.toList_injective his),
    Numeral.decimal_injective (String.toList_injective los)⟩

theorem binary_parts {op op' : String} {x' y' : Expr} (between : isInfixOperator op = true)
    (between' : isInfixOperator op' = true) (hx : Canonical x) (hy : Canonical y)
    (hx' : Canonical x') (hy' : Canonical y')
    (h : (binary op x y).text = (binary op' x' y').text) :
    op = op' ∧ x.text = x'.text ∧ y.text = y'.text := by
  have whole {z : Expr} (hz : Canonical z) : Sealed ' ' z.operand.toList :=
    scan_operand (scan_text rfl hz)
  have plain {op : String} (between : isInfixOperator op = true) : Sealed ' ' op.toList :=
    scan_plain rfl (by simpa [isInfixOperator] using between)
  have h := congrArg String.toList h
  rw [chars_binary, chars_binary] at h
  obtain ⟨lefts, rest⟩ := (whole hx).split rfl (whole hx') h
  obtain ⟨ops, rights⟩ := (plain between).split rfl (plain between') rest
  exact ⟨String.toList_injective ops, text_eq_of_operand_eq hx hx' lefts,
    text_eq_of_operand_eq hy hy' rights⟩

theorem text_ne_nil (hx : Canonical x) : x.text.toList ≠ [] := by
  cases hop : x.isOperator with
  | false =>
    obtain ⟨c, cs, chars, -⟩ := head_operand hx
    rw [← operand_eq_text hop, chars]
    exact List.cons_ne_nil c cs
  | true =>
    cases hx with
    | unary sign =>
      obtain ⟨c, chars, -⟩ := exists_sign_of_isUnaryOperator sign
      rw [chars_unary, chars]
      exact List.cons_ne_nil _ _
    | binary =>
      rw [chars_binary]
      exact List.append_ne_nil_of_right_ne_nil _ (List.cons_ne_nil _ _)
    | _ => cases hop

theorem concat_parts {xs ys : List Expr} (hxs : ∀ x ∈ xs, Canonical x) (hys : ∀ y ∈ ys, Canonical y)
    (h : (concat xs).text = (concat ys).text) : xs.map text = ys.map text := by
  have whole {zs : List Expr} (hzs : ∀ z ∈ zs, Canonical z) :
      ∀ p ∈ zs.map (·.text.toList), p ≠ [] ∧ Sealed ',' p :=
    List.forall_mem_map.mpr fun z hz =>
      ⟨text_ne_nil (hzs z hz), scan_text rfl (hzs z hz) 0 fun _ sep => absurd sep (by decide)⟩
  have h := congrArg String.toList h
  rw [chars_concat, chars_concat] at h
  have chars := intercalate_injective (whole hxs) (whole hys)
    (List.append_cancel_right (List.tail_eq_of_cons_eq h))
  have inj : Function.Injective String.toList := fun _ _ => String.toList_injective
  exact inj.list_map (by simpa [Function.comp_def] using chars)

end Parts

theorem map_text_injective {xs ys : List Expr}
    (hxs : ∀ x ∈ xs, ∀ {y}, Canonical y → x.text = y.text → x = y) (hys : ∀ y ∈ ys, Canonical y)
    (h : xs.map text = ys.map text) : xs = ys := by
  induction xs generalizing ys with
  | nil => exact (List.map_eq_nil_iff.mp h.symm).symm
  | cons x xs ih =>
    cases ys with
    | nil => cases h
    | cons y ys =>
      obtain ⟨hx, hxs⟩ := List.forall_mem_cons.mp hxs
      obtain ⟨hy, hys⟩ := List.forall_mem_cons.mp hys
      obtain ⟨first, rest⟩ := List.cons.inj h
      rw [hx hy first, ih hxs hys rest]

theorem Canonical.text_injective {x : Expr} (hx : Canonical x) :
    ∀ {y : Expr}, Canonical y → x.text = y.text → x = y := by
  -- Equal texts show one form; within it they are cut at the same places.
  induction hx with
  | ref proper =>
    intro y hy h
    have same := form_eq (.ref proper) hy h
    cases hy with
    | ref => exact congrArg Expr.ref h
    | _ => cases same
  | lit width fits sign =>
    intro y hy h
    have same := form_eq (.lit width fits sign) hy h
    cases hy with
    | lit _ fits' sign' =>
      obtain ⟨rfl, values, signs⟩ := Width.literal_injective h
      rw [fits, fits'] at values
      grind
    | _ => cases same
  | unary sign operand ih =>
    intro y hy h
    have same := form_eq (.unary sign operand) hy h
    cases hy with
    | unary sign' operand' =>
      obtain ⟨c, chars, -⟩ := exists_sign_of_isUnaryOperator sign
      obtain ⟨c', chars', -⟩ := exists_sign_of_isUnaryOperator sign'
      have h := congrArg String.toList h
      rw [chars_unary, chars_unary] at h
      obtain ⟨ops, operands⟩ := List.append_inj h (by rw [chars, chars']; rfl)
      have parts := text_eq_of_operand_eq operand operand' operands
      rw [String.toList_injective ops, ih operand' parts]
    | _ => cases same
  | binary between left right ihx ihy =>
    intro y hy h
    have same := form_eq (.binary between left right) hy h
    cases hy with
    | binary between' left' right' =>
      obtain ⟨rfl, lefts, rights⟩ := binary_parts between between' left right left' right' h
      rw [ihx left' lefts, ihy right' rights]
    | _ => cases same
  | @index x bit operand ih =>
    intro y hy h
    have same := form_eq (.index operand) hy h
    have h := congrArg String.toList h
    have bracket (n : Int) : '[' ∉ (Numeral.decimal n).toList := Numeral.not_mem_decimal rfl n
    cases hy with
    | @index y bit' operand' =>
      rw [chars_index, chars_index] at h
      obtain ⟨operands, bits⟩ := selection_parts operand operand' (bracket bit) (bracket bit') h
      rw [ih operand' operands, Numeral.decimal_injective (String.toList_injective bits)]
    | @slice y hi lo operand' =>
      rw [chars_index, chars_slice] at h
      obtain ⟨-, bits⟩ := selection_parts operand operand' (bracket bit) (not_mem_bounds hi lo) h
      exact absurd bits.symm (bounds_ne_decimal hi lo bit)
    | _ => cases same
  | @slice x hi lo operand ih =>
    intro y hy h
    have same := form_eq (.slice operand) hy h
    have h := congrArg String.toList h
    cases hy with
    | @index y bit operand' =>
      rw [chars_slice, chars_index] at h
      obtain ⟨-, bits⟩ := selection_parts operand operand' (not_mem_bounds hi lo)
        (Numeral.not_mem_decimal rfl bit) h
      exact absurd bits (bounds_ne_decimal hi lo bit)
    | @slice y hi' lo' operand' =>
      rw [chars_slice, chars_slice] at h
      obtain ⟨operands, bits⟩ := selection_parts operand operand' (not_mem_bounds hi lo)
        (not_mem_bounds hi' lo') h
      obtain ⟨rfl, rfl⟩ := bounds_injective bits
      rw [ih operand' operands]
    | _ => cases same
  | concat proper ih =>
    intro y hy h
    have same := form_eq (.concat proper) hy h
    cases hy with
    | concat proper' => rw [map_text_injective ih proper' (concat_parts proper proper' h)]
    | _ => cases same

/-- Expressions are written alike exactly when they agree up to the value that a literal's width
keeps, the sign of a one-bit literal, and whether a name is that of an enum label: the grouping of
operators is never lost. -/
theorem text_eq_iff {x y : Expr} (hx : x.wellFormed = true) (hy : y.wellFormed = true) :
    x.text = y.text ↔ x.normal = y.normal := by
  constructor
  · intro h
    exact (canonical_normal x hx).text_injective (canonical_normal y hy)
      (by rw [text_normal, text_normal, h])
  · intro h
    rw [← text_normal x, h, text_normal]

theorem text_eq_iff_sample :
    let x : Expr := .binary "+" (.unary "-" (.lit 8 0x1ff true)) (.index (.concat
      [.enum "State.Idle", .binary "&&" (.lit 1 3 true) (.ref "b"), .slice (.ref "c$d") 3 0]) 2)
    let y : Expr := .binary "+" (.unary "-" (.lit 8 0xff true)) (.index (.concat
      [.ref "State$Idle", .binary "&&" (.lit 1 1 false) (.ref "b"), .slice (.ref "c$d") 3 0]) 2)
    let z : Expr := .unary "-" (.binary "+" (.lit 8 0xff true) (.index (.concat
      [.ref "State$Idle", .binary "&&" (.lit 1 1 false) (.ref "b"), .slice (.ref "c$d") 3 0]) 2))
    x.wellFormed = true ∧ y.wellFormed = true ∧ z.wellFormed = true ∧
      x.text = "(-8'shff) + \x7bState$Idle, 1'b1 && b, c$d[3:0]\x7d[2]" ∧
      z.text = "-(8'shff + \x7bState$Idle, 1'b1 && b, c$d[3:0]\x7d[2])" ∧
      (x.text = y.text ↔ x.normal = y.normal) ∧ (x.text = z.text ↔ x.normal = z.normal) := by
  intro x y z
  have hx : x.wellFormed = true := by decide +kernel
  have hy : y.wellFormed = true := by decide
  have hz : z.wellFormed = true := by decide
  exact ⟨hx, hy, hz, by decide +kernel, by decide +kernel, text_eq_iff hx hy,
    text_eq_iff hx hz⟩

end Expr

end Circuitry
