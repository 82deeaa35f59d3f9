import Circuitry.Hdl.Code
import Circuitry.Proofs.Readability

namespace Circuitry

namespace Text

def unindented (line : String) : List Char := line.toList.dropWhile (· = ' ')

def isAssignment (line : String) : Bool :=
  (afterLead "//".toList (unindented line)).isNone && line.toList.getLast? = some ';'

def leftSide (line : String) : String :=
  match breakOn " = ".toList (unindented line) with
  | some (before, _) => String.ofList before
  | none => String.ofList (unindented line)

def leftSides (ls : List String) : List String := (ls.filter isAssignment).map leftSide

def isOneLine (s : String) : Bool := s.toList.all (· ≠ '\n')

theorem isOneLine_iff {s : String} : isOneLine s = true ↔ '\n' ∉ s.toList := by
  simp only [isOneLine, List.all_eq_true, decide_eq_true_eq]
  exact ⟨fun h mem => h '\n' mem rfl, fun h c hc => ne_of_mem_of_not_mem hc h⟩

theorem newline_not_mem_of_isIdentifier {s : String} (h : isIdentifier s = true) :
    '\n' ∉ s.toList := fun mem =>
  absurd (List.all_eq_true.mp (Bool.and_eq_true_iff.mp h).2 '\n' mem) (by decide)

theorem unindented_indent (depth : Nat) (s : String) :
    unindented (indent depth ++ s) = unindented s := by
  induction depth with
  | zero => simp [indent]
  | succ depth ih => simpa [unindented, indent, String.append_assoc] using ih

theorem breakOn_append {p : Char} {as : List Char} (h : p ∉ as) (ps rest : List Char) :
    breakOn (p :: ps) (as ++ (p :: ps ++ rest)) = some (as, p :: ps ++ rest) := by
  induction as with
  | nil =>
    have found : afterLead (p :: ps) (p :: ps ++ rest) = some rest := afterLead_eq_some_iff.mpr rfl
    rw [List.nil_append, List.cons_append, breakOn, ← List.cons_append, found]
    rfl
  | cons a as ih =>
    rw [List.mem_cons, not_or] at h
    have other : afterLead (p :: ps) (a :: (as ++ (p :: ps ++ rest))) = none := by
      simp [afterLead, h.1]
    rw [List.cons_append, breakOn, other, ih h.2]
    rfl

/-- A line that shows no assignment. -/
structure Silent (l : String) : Prop where
  newline : '\n' ∉ l.toList
  other : isAssignment l = false

def isEnding (t : String) : Bool := isOneLine t && t.toList.getLast?.any (· ≠ ';')

theorem Silent.of_ending {s t : String} (hs : '\n' ∉ s.toList) (ht : isEnding t = true) :
    Silent (s ++ t) := by
  obtain ⟨line, ending⟩ := Bool.and_eq_true_iff.mp ht
  refine ⟨by simp [hs, isOneLine_iff.mp line], ?_⟩
  cases last : t.toList.getLast? with
  | none => simp [last] at ending
  | some c =>
    have other : c ≠ ';' := by simpa [last] using ending
    simp [isAssignment, List.getLast?_append, last, other]

theorem Silent.closing (depth : Nat) {t : String} (ht : isEnding t = true) :
    Silent (indent depth ++ t) :=
  .of_ending (newline_not_mem_indent depth) ht

theorem Silent.of_comment (depth : Nat) {s : String} (hs : '\n' ∉ s.toList)
    (lead : ['/', '/'] <+: s.toList) : Silent (indent depth ++ s) := by
  refine ⟨by simp [newline_not_mem_indent, hs], ?_⟩
  obtain ⟨rest, chars⟩ := lead
  rw [isAssignment, unindented_indent]
  simp [unindented, ← chars, afterLead]

/-- Lines show these names, and each of them is one line. -/
structure Shows (ls names : List String) : Prop where
  whole : ∀ l ∈ ls, '\n' ∉ l.toList
  names : leftSides ls = names

namespace Shows

variable {l : String} {ls ms names others : List String}

theorem nil : Shows [] [] := ⟨by simp, rfl⟩

theorem append (hl : Shows ls names) (hm : Shows ms others) :
    Shows (ls ++ ms) (names ++ others) where
  whole := List.forall_mem_append.mpr ⟨hl.whole, hm.whole⟩
  names := by
    rw [← hl.names, ← hm.names, leftSides, List.filter_append, List.map_append]
    rfl

theorem silent (h : Silent l) : Shows [l] [] where
  whole := by simpa using h.newline
  names := by simp [leftSides, h.other]

theorem block {opening closing : String} (hopening : Silent opening) (hclosing : Silent closing)
    (hl : Shows ls names) : Shows (opening :: ls ++ [closing]) names := by
  simpa using ((silent hopening).append hl).append (silent hclosing)

end Shows

end Text

namespace Expr

open Text (isOneLine)

mutual

def isOneLine : Expr → Bool
  | .hole | .lit .. => true
  | .ref name => Text.isOneLine name
  | .enum label => Text.isOneLine label
  | .unary op x => Text.isOneLine op && x.isOneLine
  | .binary op x y => Text.isOneLine op && x.isOneLine && y.isOneLine
  | .index x _ | .slice x _ _ => x.isOneLine
  | .concat parts => partsOneLine parts

def partsOneLine : List Expr → Bool
  | [] => true
  | x :: xs => x.isOneLine && partsOneLine xs

end

theorem newline_not_mem_enclose {text : String} (b : Bool) (h : '\n' ∉ text.toList) :
    '\n' ∉ (enclose b text).toList := by
  cases b <;> simp [enclose, h]

theorem newline_not_mem_decimal (n : Int) : '\n' ∉ (Numeral.decimal n).toList :=
  Numeral.not_mem_decimal rfl n

theorem newline_not_mem_literal (w : Int) (v : UInt64) (s : Bool) :
    '\n' ∉ (Width.literal w v s).toList := by
  intro mem
  rcases Width.isNumeric_of_mem_literal mem with h | h
  · exact absurd h (by decide)
  · exact absurd h (by decide)

theorem newline_not_mem_identifier {label : String} (h : '\n' ∉ label.toList) :
    '\n' ∉ (Descriptor.identifier label).toList := by
  rw [Descriptor.identifier, String.toList_map, List.mem_map]
  rintro ⟨c, hc, same⟩
  split at same
  · exact absurd same (by decide)
  · exact h (same ▸ hc)

mutual

theorem newline_not_mem_text : ∀ x : Expr, x.isOneLine = true → '\n' ∉ x.text.toList
  | .hole, _ => by simp [text]
  | .ref _, h => Text.isOneLine_iff.mp h
  | .lit w v s, _ => newline_not_mem_literal w v s
  | .enum _, h => newline_not_mem_identifier (Text.isOneLine_iff.mp h)
  | .unary op x, h => by
    obtain ⟨hop, hx⟩ := Bool.and_eq_true_iff.mp h
    have operand := newline_not_mem_enclose x.isOperator (newline_not_mem_text x hx)
    simp [text, operand, Text.isOneLine_iff.mp hop]
  | .binary op x y, h => by
    simp only [isOneLine, Bool.and_eq_true] at h
    obtain ⟨⟨hop, hx⟩, hy⟩ := h
    have left := newline_not_mem_enclose x.isOperator (newline_not_mem_text x hx)
    have right := newline_not_mem_enclose y.isOperator (newline_not_mem_text y hy)
    simp [text, left, right, Text.isOneLine_iff.mp hop]
  | .index x bit, h => by
    have operand := newline_not_mem_enclose x.isOperator (newline_not_mem_text x h)
    simp [text, operand, newline_not_mem_decimal]
  | .slice x hi lo, h => by
    have operand := newline_not_mem_enclose x.isOperator (newline_not_mem_text x h)
    simp [text, operand, newline_not_mem_decimal]
  | .concat parts, h => by
    have inner := Text.not_mem_intercalate (show '\n' ∉ ", ".toList by decide)
      (newline_not_mem_partTexts parts h)
    rw [text]
    simp only [String.toList_append, List.mem_append, inner, or_false, not_or]
    decide

theorem newline_not_mem_partTexts : ∀ xs : List Expr, partsOneLine xs = true →
    ∀ s ∈ partTexts xs, '\n' ∉ s.toList
  | [], _ => by simp [partTexts]
  | x :: xs, h => by
    obtain ⟨hx, hxs⟩ := Bool.and_eq_true_iff.mp h
    exact List.forall_mem_cons.mpr ⟨newline_not_mem_text x hx, newline_not_mem_partTexts xs hxs⟩

end

end Expr

/-- Its names break no line; where one end is driven, that is an identifier, and otherwise the link
goes both ways. -/
def Link.isPlain (l : Link) : Bool :=
  Text.isOneLine l.field && Text.isOneLine l.owner && Text.isOneLine l.other &&
    match l.direction with
    | .forward | .backward => Text.isIdentifier l.target
    | .both => true
    | .unlisted _ => false

namespace Stmt

open Text (indent isAssignment leftSide leftSides Shows)

mutual

def isPlain : Stmt → Bool
  | .assign target value => Text.isIdentifier target && value.isOneLine
  | .cond test yes no => test.isOneLine && bodyPlain yes && bodyPlain no
  | .case subject items default => subject.isOneLine && itemsPlain items && bodyPlain default
  | .comment text => Text.isOneLine text
  | .links ls => ls.all Link.isPlain

def bodyPlain : List Stmt → Bool
  | [] => true
  | s :: ss => s.isPlain && bodyPlain ss

def itemsPlain : List (Expr × List Stmt) → Bool
  | [] => true
  | (label, body) :: items => label.isOneLine && bodyPlain body && itemsPlain items

end

theorem shows_assignment (depth : Nat) {target source : String}
    (htarget : Text.isIdentifier target = true) (hsource : '\n' ∉ source.toList) :
    Shows [indent depth ++ (target ++ " = " ++ source ++ ";")] [target] := by
  obtain ⟨nonempty, word⟩ := Bool.and_eq_true_iff.mp htarget
  obtain ⟨c, cs, chars⟩ := List.exists_cons_of_ne_nil
    (mt String.toList_eq_nil_iff.mp (of_decide_eq_true nonempty))
  -- No blank in the target: the first equals sign between blanks is the one after it.
  have other {d : Char} (h : Text.isWord d = false) : d ∉ target.toList := fun mem => by
    simp [List.all_eq_true.mp word d mem] at h
  have first {d : Char} (h : Text.isWord d = false) : c ≠ d := fun same =>
    other h (chars ▸ same ▸ .head _)
  have line : Text.unindented (indent depth ++ (target ++ " = " ++ source ++ ";")) =
      target.toList ++ (' ' :: ['=', ' '] ++ (source.toList ++ [';'])) := by
    rw [Text.unindented_indent]
    simp [Text.unindented, chars, first (d := ' ') rfl]
  have statement :
      isAssignment (indent depth ++ (target ++ " = " ++ source ++ ";")) = true := by
    have noComment : Text.afterLead "//".toList
        (target.toList ++ (' ' :: ['=', ' '] ++ (source.toList ++ [';']))) = none := by
      simp [chars, Text.afterLead, (first (d := '/') rfl).symm]
    have ending (s : String) : (s ++ ";").toList.getLast? = some ';' := by simp
    rw [isAssignment, line, noComment, ← String.append_assoc, ending]
    rfl
  have left : leftSide (indent depth ++ (target ++ " = " ++ source ++ ";")) = target := by
    have sign : " = ".toList = ' ' :: ['=', ' '] := by decide
    rw [leftSide, line, sign, Text.breakOn_append (other rfl)]
    exact String.ofList_toList
  constructor
  · simp [Text.newline_not_mem_indent, Text.newline_not_mem_of_isIdentifier htarget, hsource]
  · simp [leftSides, statement, left]

theorem newline_not_mem_join {base name : String} (hbase : '\n' ∉ base.toList)
    (hname : '\n' ∉ name.toList) : '\n' ∉ (Path.join base name).toList := by
  rw [Path.join]
  split
  · exact hname
  · simp [hbase, hname]

theorem shows_link (depth : Nat) {l : Link} (h : l.isPlain = true) :
    Shows [indent depth ++ l.text] ([l.target].filter (· ≠ "")) := by
  obtain ⟨direction, field, owner, other⟩ := l
  simp only [Link.isPlain, Bool.and_eq_true, Text.isOneLine_iff] at h
  obtain ⟨⟨⟨hfield, howner⟩, hother⟩, hdriven⟩ := h
  have near := newline_not_mem_join howner hfield
  have far := newline_not_mem_join hother hfield
  have nonempty {target : String} (h : Text.isIdentifier target = true) :
      [target].filter (· ≠ "") = [target] := by
    simpa using of_decide_eq_true (Bool.and_eq_true_iff.mp h).1
  cases direction with
  | forward =>
    rw [nonempty hdriven]
    exact shows_assignment depth hdriven near
  | backward =>
    rw [nonempty hdriven]
    exact shows_assignment depth hdriven far
  | both => exact .silent (.of_comment depth (by simp [Link.text, near, far]) (by simp [Link.text]))
  | unlisted => cases hdriven

theorem shows_links (depth : Nat) {ls : List Link} (h : ls.all Link.isPlain = true) :
    Shows (ls.map (indent depth ++ ·.text)) ((ls.map Link.target).filter (· ≠ "")) := by
  induction ls with
  | nil => exact .nil
  | cons l ls ih =>
    obtain ⟨hl, hls⟩ := Bool.and_eq_true_iff.mp h
    have both := (shows_link depth hl).append (ih hls)
    rwa [← List.filter_append] at both

theorem shows_branch (depth : Nat) {opening : String} (hopening : '\n' ∉ opening.toList)
    {inner : Nat} {body : List Stmt}
    (h : Shows (bodyLines inner body) ((bodyAssigned body).filter (· ≠ ""))) :
    Shows (branch depth opening body (bodyLines inner body))
      ((bodyAssigned body).filter (· ≠ "")) := by
  cases body with
  | nil => exact .nil
  | cons s body =>
    have start : '\n' ∉ (indent depth ++ opening).toList := by
      simp [Text.newline_not_mem_indent, hopening]
    exact .block (.of_ending start (by decide)) (.closing depth (by decide)) h

-- Every list of statements that is written is collected in the same place, at any depth.
mutual

theorem shows_lines : ∀ (s : Stmt) (depth : Nat), s.isPlain = true →
    Shows (s.lines depth) (s.assigned.filter (· ≠ ""))
  | .assign target value, depth, h => by
    obtain ⟨htarget, hvalue⟩ := Bool.and_eq_true_iff.mp h
    have nonempty : target ≠ "" := of_decide_eq_true (Bool.and_eq_true_iff.mp htarget).1
    have shown := shows_assignment depth htarget (value.newline_not_mem_text hvalue)
    simpa [lines, assigned, nonempty, String.append_assoc] using shown
  | .cond test yes no, depth, h => by
    simp only [isPlain, Bool.and_eq_true] at h
    obtain ⟨⟨htest, hyes⟩, hno⟩ := h
    have start : '\n' ∉ (indent depth ++ "if (" ++ test.text).toList := by
      simp [Text.newline_not_mem_indent, test.newline_not_mem_text htest]
    rw [lines, assigned, List.filter_append]
    exact .append
      (.block (.of_ending start (by decide)) (.closing depth (by decide))
        (shows_bodyLines yes (depth + 1) hyes))
      (shows_branch depth (by decide) (shows_bodyLines no (depth + 1) hno))
  | .case subject items default, depth, h => by
    simp only [isPlain, Bool.and_eq_true] at h
    obtain ⟨⟨hsubject, hitems⟩, hdefault⟩ := h
    have start : '\n' ∉ (indent depth ++ "case (" ++ subject.text).toList := by
      simp [Text.newline_not_mem_indent, subject.newline_not_mem_text hsubject]
    rw [lines, assigned, List.filter_append, List.cons_append]
    exact .block (.of_ending start (by decide)) (.closing depth (by decide))
      (.append (shows_itemLines items (depth + 1) hitems)
        (shows_branch (depth + 1) (by decide) (shows_bodyLines default (depth + 2) hdefault)))
  | .comment text, depth, h => by
    have line : '\n' ∉ ("// " ++ text).toList := by simp [Text.isOneLine_iff.mp h]
    rw [lines, String.append_assoc]
    exact .silent (.of_comment depth line (by simp))
  | .links _, depth, h => shows_links depth h

theorem shows_bodyLines : ∀ (body : List Stmt) (depth : Nat), bodyPlain body = true →
    Shows (bodyLines depth body) ((bodyAssigned body).filter (· ≠ ""))
  | [], _, _ => .nil
  | s :: body, depth, h => by
    obtain ⟨hs, hbody⟩ := Bool.and_eq_true_iff.mp h
    rw [bodyLines, bodyAssigned, List.filter_append]
    exact .append (shows_lines s depth hs) (shows_bodyLines body depth hbody)

theorem shows_itemLines : ∀ (items : List (Expr × List Stmt)) (depth : Nat),
    itemsPlain items = true →
    Shows (itemLines depth items) ((itemsAssigned items).filter (· ≠ ""))
  | [], _, _ => .nil
  | (label, body) :: items, depth, h => by
    simp only [itemsPlain, Bool.and_eq_true] at h
    obtain ⟨⟨hlabel, hbody⟩, hitems⟩ := h
    have start : '\n' ∉ (indent depth ++ label.text).toList := by
      simp [Text.newline_not_mem_indent, label.newline_not_mem_text hlabel]
    rw [itemLines, itemsAssigned, List.filter_append]
    exact .append
      (.block (.of_ending start (by decide)) (.closing depth (by decide))
        (shows_bodyLines body (depth + 1) hbody))
      (shows_itemLines items depth hitems)

end

/-- The left-hand sides that the text of a body shows, each once and in order of first appearance,
are the targets of the body. -/
theorem leftSides_alwaysText {body : List Stmt} (h : bodyPlain body = true) :
    (leftSides (Text.lines (alwaysText body))).eraseDups = targets body := by
  have shown : Shows (alwaysLines body) ((bodyAssigned body).filter (· ≠ "")) :=
    .block ⟨by decide, by decide⟩ ⟨by decide, by decide⟩ (shows_bodyLines body 1 h)
  have nonempty : alwaysLines body ≠ [] := by simp [alwaysLines]
  rw [alwaysText, Text.lines_intercalate nonempty shown.whole, shown.names, targets]

theorem leftSides_alwaysText_sample :
    let body : List Stmt :=
      [.comment "x = y;",
        .cond (.binary "==" (.ref "a") (.lit 4 7 false))
          [.assign "q" (.ref "a"),
            .case (.ref "s")
              [(.lit 1 0 false, [.assign "bus$data" (.index (.ref "a") 2)]),
                (.enum "State.Run", [.cond (.ref "en") [.assign "q" (.ref "b")] []])]
              [.links [⟨.forward, "data", "src", "dst"⟩, ⟨.both, "pad", "src", "dst"⟩,
                ⟨.backward, "ready", "src", "dst"⟩]]]
          [.assign "r" (.concat [.ref "a", .ref "b"]), .assign "bus$data" (.ref "b")]]
    bodyPlain body = true ∧
      targets body = ["q", "bus$data", "dst$data", "src$ready", "r"] ∧
      (leftSides (Text.lines (alwaysText body))).eraseDups = targets body := by
  intro body
  exact ⟨by decide, by decide, leftSides_alwaysText (by decide)⟩

end Stmt

end Circuitry
