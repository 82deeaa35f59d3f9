import Circuitry.Proofs.Assignments

/-!
The statements that the text of a code body shows. Each line is the start or the end of a block, an
assignment or a comment, and with the blocks that are open kept on a stack the text is read back line
by line: an end line closes the innermost block, and an else belongs to the conditional that was
closed just before it. What is read has texts in the place of expressions; these are known from their
texts one by one.
-/

namespace Circuitry

namespace Text

def beforeEnd (tail cs : List Char) : Option (List Char) :=
  (afterLead tail.reverse cs.reverse).map List.reverse

theorem beforeEnd_append (cs tail : List Char) : beforeEnd tail (cs ++ tail) = some cs := by
  have read : afterLead tail.reverse (cs ++ tail).reverse = some cs.reverse := by
    rw [afterLead_eq_some_iff, List.reverse_append]
  rw [beforeEnd, read, Option.map_some, List.reverse_reverse]

def between (lead tail cs : List Char) : Option (List Char) :=
  (beforeEnd tail cs).bind (afterLead lead)

theorem between_append (lead cs tail : List Char) :
    between lead tail (lead ++ cs ++ tail) = some cs := by
  rw [between, beforeEnd_append, Option.bind_some, afterLead_eq_some_iff]

end Text

open Text (indent unindented)

inductive Token where
  | assign (target value : String)
  | comment (text : String)
  | openCond (test : String)
  | openElse
  | openCase (subject : String)
  | openItem (label : String)
  | openDefault
  | close
  | closeCase
  deriving DecidableEq

namespace Token

open Text (afterLead beforeEnd between breakOn)

def ofChars (cs : List Char) : Token :=
  match afterLead "// ".toList cs with
  | some text => .comment (String.ofList text)
  | none => match beforeEnd ": begin".toList cs with
    | some label =>
      if label = "default".toList then .openDefault else .openItem (String.ofList label)
    | none => match between "if (".toList ") begin".toList cs with
      | some test => .openCond (String.ofList test)
      | none => match between "case (".toList ")".toList cs with
        | some subject => .openCase (String.ofList subject)
        | none => match breakOn " = ".toList cs with
          | some (target, rest) =>
            .assign (String.ofList target) (String.ofList (rest.drop 3).dropLast)
          | none =>
            if cs = "else begin".toList then .openElse
            else if cs = "endcase".toList then .closeCase
            else .close

def ofLine (line : String) : Token := ofChars (unindented line)

theorem ofLine_indent (depth : Nat) {s : String} (h : s.toList.head? ≠ some ' ') :
    ofLine (indent depth ++ s) = ofChars s.toList := by
  have first : s.toList.dropWhile (· = ' ') = s.toList := by
    cases hs : s.toList with
    | nil => rfl
    | cons c cs =>
      have : c ≠ ' ' := by
        rintro rfl
        simp [hs] at h
      simp [this]
  rw [ofLine, Text.unindented_indent, unindented, first]

theorem ofChars_comment (text : String) : ofChars ("// " ++ text).toList = .comment text := by
  have read : afterLead "// ".toList ("// " ++ text).toList = some text.toList := by
    rw [Text.afterLead_eq_some_iff, String.toList_append]
  rw [ofChars, read]
  exact congrArg comment String.ofList_toList

theorem ofChars_openItem {label : String} (noComment : label.toList.head? ≠ some '/')
    (proper : label ≠ "default") (nonempty : label.toList ≠ []) :
    ofChars (label ++ ": begin").toList = .openItem label := by
  have other : afterLead "// ".toList (label ++ ": begin").toList = none := by
    obtain ⟨c, cs, chars⟩ := List.exists_cons_of_ne_nil nonempty
    have : c ≠ '/' := by simpa [chars] using noComment
    simp [chars, afterLead, this.symm]
  have read : beforeEnd ": begin".toList (label ++ ": begin").toList = some label.toList := by
    rw [String.toList_append, Text.beforeEnd_append]
  have named : label.toList ≠ "default".toList := mt String.toList_inj.mp proper
  rw [ofChars, other, read]
  simp only [if_neg named, String.ofList_toList]

theorem ofChars_openCond (test : String) :
    ofChars ("if (" ++ test ++ ") begin").toList = .openCond test := by
  have noItem : beforeEnd ": begin".toList ("if (" ++ test ++ ") begin").toList = none := by
    simp [beforeEnd, afterLead]
  have noComment : afterLead "// ".toList ("if (" ++ test ++ ") begin").toList = none := by
    simp [afterLead]
  have read : between "if (".toList ") begin".toList ("if (" ++ test ++ ") begin").toList =
      some test.toList := by
    rw [String.toList_append, String.toList_append, Text.between_append]
  rw [ofChars, noComment, noItem, read]
  exact congrArg openCond String.ofList_toList

theorem ofChars_openCase (subject : String) :
    ofChars ("case (" ++ subject ++ ")").toList = .openCase subject := by
  have noComment : afterLead "// ".toList ("case (" ++ subject ++ ")").toList = none := by
    simp [afterLead]
  have noItem : beforeEnd ": begin".toList ("case (" ++ subject ++ ")").toList = none := by
    simp [beforeEnd, afterLead]
  have noCond : between "if (".toList ") begin".toList ("case (" ++ subject ++ ")").toList =
      none := by
    simp [between, beforeEnd, afterLead]
  have read : between "case (".toList ")".toList ("case (" ++ subject ++ ")").toList =
      some subject.toList := by
    rw [String.toList_append, String.toList_append, Text.between_append]
  rw [ofChars, noComment, noItem, noCond, read]
  exact congrArg openCase String.ofList_toList

theorem ofChars_assign {target : String} (h : Text.isIdentifier target = true) (value : String) :
    ofChars (target ++ " = " ++ value ++ ";").toList = .assign target value := by
  obtain ⟨nonempty, word⟩ := Bool.and_eq_true_iff.mp h
  have other {d : Char} (hd : Text.isWord d = false) : d ∉ target.toList := fun mem => by
    simp [List.all_eq_true.mp word d mem] at hd
  have noComment : afterLead "// ".toList (target ++ " = " ++ value ++ ";").toList = none := by
    obtain ⟨c, cs, chars⟩ := List.exists_cons_of_ne_nil
      (mt String.toList_eq_nil_iff.mp (of_decide_eq_true nonempty))
    have first : '/' ≠ c := fun same => other (d := '/') rfl (chars ▸ same ▸ .head _)
    simp [chars, afterLead, first]
  have noItem : beforeEnd ": begin".toList (target ++ " = " ++ value ++ ";").toList = none := by
    simp [beforeEnd, afterLead]
  have noCond : between "if (".toList ") begin".toList
      (target ++ " = " ++ value ++ ";").toList = none := by
    simp [between, beforeEnd, afterLead]
  have noCase : between "case (".toList ")".toList
      (target ++ " = " ++ value ++ ";").toList = none := by
    simp [between, beforeEnd, afterLead]
  have read : breakOn " = ".toList (target ++ " = " ++ value ++ ";").toList =
      some (target.toList, ' ' :: ['=', ' '] ++ (value.toList ++ [';'])) := by
    have parts : (target ++ " = " ++ value ++ ";").toList =
        target.toList ++ (' ' :: ['=', ' '] ++ (value.toList ++ [';'])) := by simp
    rw [parts]
    exact Text.breakOn_append (other rfl) _ _
  rw [ofChars, noComment, noItem, noCond, noCase, read]
  simp

end Token

namespace Expr

mutual

def isNamed : Expr → Bool
  | .hole | .lit .. => true
  | .ref name => Text.isIdentifier name
  | .enum label => Text.isIdentifier (Descriptor.identifier label)
  | .unary _ x | .index x _ | .slice x _ _ => x.isNamed
  | .binary _ x y => x.isNamed && y.isNamed
  | .concat parts => partsNamed parts

def partsNamed : List Expr → Bool
  | [] => true
  | x :: xs => x.isNamed && partsNamed xs

end

def isLead (c : Char) : Bool := Text.isWord c || Text.isSign c || c = '(' || c = '\x7b'

def Leads (s : String) : Prop := ∃ c cs, s.toList = c :: cs ∧ isLead c = true

theorem leads_of_isIdentifier {s : String} (h : Text.isIdentifier s = true) : Leads s := by
  obtain ⟨nonempty, word⟩ := Bool.and_eq_true_iff.mp h
  obtain ⟨c, cs, chars⟩ := List.exists_cons_of_ne_nil
    (mt String.toList_eq_nil_iff.mp (of_decide_eq_true nonempty))
  have first : Text.isWord c = true := List.all_eq_true.mp word c (chars ▸ .head _)
  exact ⟨c, cs, chars, by simp [isLead, first]⟩

theorem leads_operand {x : Expr} (h : Leads x.text) : Leads x.operand := by
  cases hop : x.isOperator with
  | true => exact ⟨_, _, chars_operand hop, rfl⟩
  | false => rwa [operand_eq_text hop]

theorem leads_text : ∀ x : Expr, x.wellFormed = true → x.isNamed = true → Leads x.text
  | .hole, h, _ => by simp [wellFormed] at h
  | .ref _, _, h => leads_of_isIdentifier h
  | .lit w v s, h, _ => by
    obtain ⟨c, cs, chars, digit⟩ := head_literal (of_decide_eq_true h) v s
    exact ⟨c, cs, chars, by simp [isLead, Text.isWord, Char.isAlphanum, digit]⟩
  | .enum _, _, h => leads_of_isIdentifier h
  | .unary op x, h, _ => by
    obtain ⟨c, chars, sign⟩ := exists_sign_of_isUnaryOperator (Bool.and_eq_true_iff.mp h).1
    exact ⟨c, x.operand.toList, by rw [chars_unary, chars]; rfl, by simp [isLead, sign]⟩
  | .binary op x y, h, hn => by
    simp only [wellFormed, Bool.and_eq_true] at h
    obtain ⟨c, cs, chars, lead⟩ :=
      leads_operand (leads_text x h.1.2 (Bool.and_eq_true_iff.mp hn).1)
    exact ⟨c, _, by rw [chars_binary, chars]; rfl, lead⟩
  | .index x bit, h, hn => by
    obtain ⟨c, cs, chars, lead⟩ := leads_operand (leads_text x h hn)
    exact ⟨c, _, by rw [chars_index, chars]; rfl, lead⟩
  | .slice x hi lo, h, hn => by
    obtain ⟨c, cs, chars, lead⟩ := leads_operand (leads_text x h hn)
    exact ⟨c, _, by rw [chars_slice, chars]; rfl, lead⟩
  | .concat parts, _, _ => ⟨_, _, chars_concat parts, rfl⟩

def isProper (x : Expr) : Bool := x.wellFormed && x.isNamed

end Expr

def Link.statement (f : Expr → Expr) (l : Link) : Stmt :=
  if l.direction = .both then
    .comment ("inout " ++ Path.join l.owner l.field ++ " <-> " ++ Path.join l.other l.field)
  else .assign l.target (f (.ref l.source))

namespace Stmt

mutual

/-- The statements that a statement is written as, with `f` applied to their expressions: links are
assignments or comments, one for each wire. -/
def expand (f : Expr → Expr) : Stmt → List Stmt
  | .assign target value => [.assign target (f value)]
  | .cond test yes no => [.cond (f test) (expandBody f yes) (expandBody f no)]
  | .case subject items default =>
    [.case (f subject) (expandItems f items) (expandBody f default)]
  | .comment text => [.comment text]
  | .links ls => ls.map (·.statement f)

def expandBody (f : Expr → Expr) : List Stmt → List Stmt
  | [] => []
  | s :: ss => s.expand f ++ expandBody f ss

def expandItems (f : Expr → Expr) : List (Expr × List Stmt) → List (Expr × List Stmt)
  | [] => []
  | (label, body) :: items => (f label, expandBody f body) :: expandItems f items

end

inductive Open where
  | yes (before : List Stmt) (test : Expr)
  | no (before : List Stmt) (test : Expr) (yes : List Stmt)
  | case (before : List Stmt) (subject : Expr) (items : List (Expr × List Stmt))
    (default : List Stmt)
  | item (label : Expr)
  | default

/-- The blocks that are open, innermost first, and what was read of the innermost, in reverse. -/
structure Reader where
  done : List Stmt := []
  stack : List Open := []

namespace Reader

def step : Reader → Token → Reader
  | ⟨done, stack⟩, .assign target value => ⟨.assign target (.ref value) :: done, stack⟩
  | ⟨done, stack⟩, .comment text => ⟨.comment text :: done, stack⟩
  | ⟨done, stack⟩, .openCond test => ⟨[], .yes done (.ref test) :: stack⟩
  | ⟨done, .yes before test :: stack⟩, .close => ⟨.cond test done.reverse [] :: before, stack⟩
  | ⟨.cond test yes _ :: before, stack⟩, .openElse => ⟨[], .no before test yes :: stack⟩
  | ⟨done, .no before test yes :: stack⟩, .close =>
    ⟨.cond test yes done.reverse :: before, stack⟩
  | ⟨done, stack⟩, .openCase subject => ⟨[], .case done (.ref subject) [] [] :: stack⟩
  | ⟨_, stack⟩, .openItem label => ⟨[], .item (.ref label) :: stack⟩
  | ⟨done, .item label :: .case before subject items default :: stack⟩, .close =>
    ⟨[], .case before subject (items ++ [(label, done.reverse)]) default :: stack⟩
  | ⟨_, stack⟩, .openDefault => ⟨[], .default :: stack⟩
  | ⟨done, .default :: .case before subject items _ :: stack⟩, .close =>
    ⟨[], .case before subject items done.reverse :: stack⟩
  | ⟨_, .case before subject items default :: stack⟩, .closeCase =>
    ⟨.case subject items default :: before, stack⟩
  | r, _ => r

def read (r : Reader) (ls : List String) : Reader :=
  ls.foldl (fun r l => r.step (.ofLine l)) r

def ofText (s : String) : List Stmt :=
  (({} : Reader).read (Text.lines s).tail.dropLast).done.reverse

@[simp] theorem read_nil (r : Reader) : r.read [] = r := rfl

@[simp] theorem read_cons (r : Reader) (l : String) (ls : List String) :
    r.read (l :: ls) = (r.step (.ofLine l)).read ls := rfl

@[simp] theorem read_append (r : Reader) (ls ms : List String) :
    r.read (ls ++ ms) = (r.read ls).read ms :=
  List.foldl_append

end Reader

def asText (x : Expr) : Expr := .ref x.text

mutual

/-- Expressions are proper, wires have a name at their driving end, and no label is the word for the
default branch. -/
def isReadable : Stmt → Bool
  | .assign _ value => value.isProper
  | .cond test yes no => test.isProper && bodyReadable yes && bodyReadable no
  | .case subject items default =>
    subject.isProper && itemsReadable items && bodyReadable default
  | .comment _ => true
  | .links ls => ls.all fun l => l.direction = .both || (Expr.ref l.source).isProper

def bodyReadable : List Stmt → Bool
  | [] => true
  | s :: ss => s.isReadable && bodyReadable ss

def itemsReadable : List (Expr × List Stmt) → Bool
  | [] => true
  | (label, body) :: items =>
    label.isProper && label.text ≠ "default" && bodyReadable body && itemsReadable items

end

end Stmt

namespace Token

section Lines

variable (depth : Nat)

theorem ofLine_comment (text : String) :
    ofLine (indent depth ++ ("// " ++ text)) = .comment text := by
  rw [ofLine_indent depth (by simp), ofChars_comment]

theorem ofLine_openCond (test : String) :
    ofLine (indent depth ++ "if (" ++ test ++ ") begin") = .openCond test := by
  have parts : indent depth ++ "if (" ++ test ++ ") begin" =
      indent depth ++ ("if (" ++ test ++ ") begin") := by simp only [String.append_assoc]
  rw [parts, ofLine_indent depth (by simp), ofChars_openCond]

theorem ofLine_openCase (subject : String) :
    ofLine (indent depth ++ "case (" ++ subject ++ ")") = .openCase subject := by
  have parts : indent depth ++ "case (" ++ subject ++ ")" =
      indent depth ++ ("case (" ++ subject ++ ")") := by simp only [String.append_assoc]
  rw [parts, ofLine_indent depth (by simp), ofChars_openCase]

theorem ofLine_openItem {label : String} (lead : Expr.Leads label) (proper : label ≠ "default") :
    ofLine (indent depth ++ label ++ ": begin") = .openItem label := by
  obtain ⟨c, cs, chars, hc⟩ := lead
  have other {d : Char} (hd : Expr.isLead d = false) : c ≠ d := by
    rintro rfl
    simp [hc] at hd
  have first : (label ++ ": begin").toList.head? ≠ some ' ' := by
    simp [chars, other (d := ' ') rfl]
  have noComment : label.toList.head? ≠ some '/' := by simp [chars, other (d := '/') rfl]
  rw [String.append_assoc, ofLine_indent depth first,
    ofChars_openItem noComment proper (by simp [chars])]

theorem ofLine_assign {target : String} (h : Text.isIdentifier target = true) (value : String) :
    ofLine (indent depth ++ (target ++ " = " ++ value ++ ";")) = .assign target value := by
  obtain ⟨c, cs, chars, hc⟩ := Expr.leads_of_isIdentifier h
  have ne : c ≠ ' ' := by
    rintro rfl
    exact absurd hc (by decide)
  have first : (target ++ " = " ++ value ++ ";").toList.head? ≠ some ' ' := by simp [chars, ne]
  rw [ofLine_indent depth first, ofChars_assign h]

theorem ofLine_close : ofLine (indent depth ++ "end") = .close :=
  ofLine_indent depth (by simp)

theorem ofLine_closeCase : ofLine (indent depth ++ "endcase") = .closeCase :=
  ofLine_indent depth (by simp)

theorem ofLine_openElse : ofLine (indent depth ++ "else" ++ " begin") = .openElse := by
  rw [String.append_assoc]
  exact ofLine_indent depth (by simp)

theorem ofLine_openDefault : ofLine (indent depth ++ "default:" ++ " begin") = .openDefault := by
  rw [String.append_assoc]
  exact ofLine_indent depth (by simp)

end Lines

end Token

namespace Stmt

namespace Reader

def add (r : Reader) (ss : List Stmt) : Reader := { r with done := ss.reverse ++ r.done }

theorem add_append (r : Reader) (ss ts : List Stmt) : r.add (ss ++ ts) = (r.add ss).add ts := by
  simp [add]

theorem read_assign (depth : Nat) (r : Reader) {target : String}
    (h : Text.isIdentifier target = true) (value : String) :
    r.read [indent depth ++ (target ++ " = " ++ value ++ ";")] =
      r.add [.assign target (.ref value)] := by
  rw [read_cons, read_nil, Token.ofLine_assign depth h, step]
  rfl

theorem read_comment (depth : Nat) (r : Reader) (text : String) :
    r.read [indent depth ++ ("// " ++ text)] = r.add [.comment text] := by
  rw [read_cons, read_nil, Token.ofLine_comment, step]
  rfl

theorem read_link (depth : Nat) (r : Reader) {l : Link} (h : l.isPlain = true) :
    r.read [indent depth ++ l.text] = r.add [l.statement asText] := by
  obtain ⟨direction, field, owner, other⟩ := l
  have driven := (Bool.and_eq_true_iff.mp h).2
  cases direction with
  | forward => exact read_assign depth r driven _
  | backward => exact read_assign depth r driven _
  | both =>
    have text : Link.text ⟨.both, field, owner, other⟩ =
        "// " ++ ("inout " ++ Path.join owner field ++ " <-> " ++ Path.join other field) := by
      simp [Link.text, ← String.append_assoc]
    rw [text, read_comment]
    rfl
  | unlisted => cases driven

theorem read_links (depth : Nat) (r : Reader) {ls : List Link} (h : ls.all Link.isPlain = true) :
    r.read (ls.map (indent depth ++ ·.text)) = r.add (ls.map (·.statement asText)) := by
  induction ls generalizing r with
  | nil => rfl
  | cons l ls ih =>
    obtain ⟨hl, hls⟩ := Bool.and_eq_true_iff.mp h
    rw [List.map_cons, List.map_cons, ← List.singleton_append, read_append, read_link depth r hl,
      ih _ hls, ← add_append, List.singleton_append]

theorem read_block (depth : Nat) (r : Reader) (opening : String) (ls : List String) :
    r.read (opening :: ls ++ [indent depth ++ "end"]) =
      ((r.step (.ofLine opening)).read ls).step .close := by
  rw [List.cons_append, read_cons, read_append, read_cons, Token.ofLine_close, read_nil]

end Reader

open Reader

-- What is open around a statement does not matter, so each statement is read by itself; the lines
-- of a block are read on an empty list and closed by the line after them.
mutual

theorem read_lines : ∀ (s : Stmt) (depth : Nat) (r : Reader), s.isPlain = true →
    s.isReadable = true → r.read (s.lines depth) = r.add (s.expand asText)
  | .assign target value, depth, r, plain, _ => by
    have whole : indent depth ++ target ++ " = " ++ value.text ++ ";" =
        indent depth ++ (target ++ " = " ++ value.text ++ ";") := by
      simp only [String.append_assoc]
    rw [lines, whole, read_assign depth r (Bool.and_eq_true_iff.mp plain).1]
    rfl
  | .cond test yes no, depth, ⟨done, stack⟩, plain, readable => by
    simp only [isPlain, isReadable, Bool.and_eq_true] at plain readable
    obtain ⟨⟨-, hyes⟩, hno⟩ := plain
    obtain ⟨⟨-, hyes'⟩, hno'⟩ := readable
    have closed : Reader.read ⟨done, stack⟩
        ((indent depth ++ "if (" ++ test.text ++ ") begin") :: bodyLines (depth + 1) yes ++
          [indent depth ++ "end"]) =
        ⟨.cond (asText test) (expandBody asText yes) [] :: done, stack⟩ := by
      rw [read_block, Token.ofLine_openCond, step, read_bodyLines yes (depth + 1) _ hyes hyes']
      simp [add, step, asText]
    rw [lines, read_append, closed]
    cases no with
    | nil => rfl
    | cons s no =>
      rw [branch, if_neg (by simp), read_block, Token.ofLine_openElse, step,
        read_bodyLines (s :: no) (depth + 1) _ hno hno']
      simp [add, step, expand]
  | .case subject items default, depth, ⟨done, stack⟩, plain, readable => by
    simp only [isPlain, isReadable, Bool.and_eq_true] at plain readable
    obtain ⟨⟨-, hitems⟩, hdefault⟩ := plain
    obtain ⟨⟨-, hitems'⟩, hdefault'⟩ := readable
    have opened : Reader.read ⟨done, stack⟩
        ((indent depth ++ "case (" ++ subject.text ++ ")") :: itemLines (depth + 1) items) =
        ⟨[], .case done (asText subject) (expandItems asText items) [] :: stack⟩ := by
      rw [read_cons, Token.ofLine_openCase, step,
        read_itemLines items (depth + 1) _ _ _ _ _ hitems hitems']
      rfl
    rw [lines, read_append, read_append, opened, read_cons, Token.ofLine_closeCase, read_nil]
    cases default with
    | nil => rfl
    | cons s default =>
      rw [branch, if_neg (by simp), read_block, Token.ofLine_openDefault, step,
        read_bodyLines (s :: default) (depth + 2) _ hdefault hdefault']
      simp [add, step, expand]
  | .comment text, depth, r, _, _ => by
    rw [lines, String.append_assoc, read_comment]
    rfl
  | .links ls, depth, r, plain, _ => read_links depth r plain

theorem read_bodyLines : ∀ (body : List Stmt) (depth : Nat) (r : Reader), bodyPlain body = true →
    bodyReadable body = true → r.read (bodyLines depth body) = r.add (expandBody asText body)
  | [], _, _, _, _ => rfl
  | s :: body, depth, r, plain, readable => by
    obtain ⟨hs, hbody⟩ := Bool.and_eq_true_iff.mp plain
    obtain ⟨hs', hbody'⟩ := Bool.and_eq_true_iff.mp readable
    rw [bodyLines, expandBody, read_append, read_lines s depth r hs hs',
      read_bodyLines body depth _ hbody hbody', add_append]

theorem read_itemLines : ∀ (items : List (Expr × List Stmt)) (depth : Nat) (before : List Stmt)
    (subject : Expr) (found : List (Expr × List Stmt)) (default : List Stmt) (stack : List Open),
    itemsPlain items = true → itemsReadable items = true →
    Reader.read ⟨[], .case before subject found default :: stack⟩ (itemLines depth items) =
      ⟨[], .case before subject (found ++ expandItems asText items) default :: stack⟩
  | [], _, _, _, _, _, _, _, _ => by simp [itemLines, expandItems]
  | (label, body) :: items, depth, before, subject, found, default, stack, plain, readable => by
    simp only [itemsPlain, itemsReadable, Bool.and_eq_true] at plain readable
    obtain ⟨⟨-, hbody⟩, hitems⟩ := plain
    obtain ⟨⟨⟨proper, word⟩, hbody'⟩, hitems'⟩ := readable
    have lead := label.leads_text (Bool.and_eq_true_iff.mp proper).1
      (Bool.and_eq_true_iff.mp proper).2
    have closed : Reader.read ⟨[], .case before subject found default :: stack⟩
        ((indent depth ++ label.text ++ ": begin") :: bodyLines (depth + 1) body ++
          [indent depth ++ "end"]) =
        ⟨[], .case before subject (found ++ [(asText label, expandBody asText body)]) default ::
          stack⟩ := by
      rw [read_block, Token.ofLine_openItem depth lead (of_decide_eq_true word), step,
        read_bodyLines body (depth + 1) _ hbody hbody']
      simp [add, step, asText]
    rw [itemLines, read_append, closed,
      read_itemLines items depth _ _ _ _ _ hitems hitems', List.append_assoc]
    rfl

end

theorem ofText_alwaysText {body : List Stmt} (plain : bodyPlain body = true)
    (readable : bodyReadable body = true) :
    Reader.ofText (alwaysText body) = expandBody asText body := by
  have whole : ∀ l ∈ alwaysLines body, '\n' ∉ l.toList :=
    (Text.Shows.block ⟨by decide, by decide⟩ ⟨by decide, by decide⟩
      (shows_bodyLines body 1 plain)).whole
  rw [Reader.ofText, alwaysText, Text.lines_intercalate (by simp [alwaysLines]) whole, alwaysLines,
    List.cons_append, List.tail_cons, List.dropLast_concat, read_bodyLines body 1 _ plain readable]
  simp [add]

section Expand

variable {f g : Expr → Expr}

theorem expandBody_append (f : Expr → Expr) (ss ts : List Stmt) :
    expandBody f (ss ++ ts) = expandBody f ss ++ expandBody f ts := by
  induction ss with
  | nil => rfl
  | cons s ss ih => rw [List.cons_append, expandBody, expandBody, ih, List.append_assoc]

theorem expandBody_links (f g : Expr → Expr) (ls : List Link) :
    expandBody f (ls.map (·.statement g)) = ls.map (·.statement (f ∘ g)) := by
  induction ls with
  | nil => rfl
  | cons l ls ih =>
    rw [List.map_cons, expandBody, ih, List.map_cons, Link.statement, Link.statement]
    split <;> rfl

mutual

theorem expandBody_expand (f g : Expr → Expr) :
    ∀ s : Stmt, expandBody f (s.expand g) = s.expand (f ∘ g)
  | .assign .. | .comment _ => rfl
  | .cond test yes no => by
    simp [expand, expandBody, expandBody_expandBody f g yes, expandBody_expandBody f g no]
  | .case subject items default => by
    simp [expand, expandBody, expandItems_expandItems f g items,
      expandBody_expandBody f g default]
  | .links ls => expandBody_links f g ls

theorem expandBody_expandBody (f g : Expr → Expr) :
    ∀ body : List Stmt, expandBody f (expandBody g body) = expandBody (f ∘ g) body
  | [] => rfl
  | s :: body => by
    rw [expandBody, expandBody_append, expandBody_expand f g s, expandBody_expandBody f g body,
      expandBody]

theorem expandItems_expandItems (f g : Expr → Expr) :
    ∀ items : List (Expr × List Stmt), expandItems f (expandItems g items) = expandItems (f ∘ g) items
  | [] => rfl
  | (label, body) :: items => by
    simp [expandItems, expandBody_expandBody f g body, expandItems_expandItems f g items]

end

mutual

theorem expand_congr (h : ∀ x : Expr, x.isProper = true → f x = g x) :
    ∀ s : Stmt, s.isReadable = true → s.expand f = s.expand g
  | .assign target value, hs => by rw [expand, expand, h value hs]
  | .cond test yes no, hs => by
    simp only [isReadable, Bool.and_eq_true] at hs
    rw [expand, expand, h test hs.1.1, expandBody_congr h yes hs.1.2, expandBody_congr h no hs.2]
  | .case subject items default, hs => by
    simp only [isReadable, Bool.and_eq_true] at hs
    rw [expand, expand, h subject hs.1.1, expandItems_congr h items hs.1.2,
      expandBody_congr h default hs.2]
  | .comment _, _ => rfl
  | .links ls, hs => by
    rw [expand, expand]
    refine List.map_congr_left fun l hl => ?_
    have hl := List.all_eq_true.mp hs l hl
    rw [Link.statement, Link.statement]
    split
    · rfl
    · next driven =>
      rw [h _ (by simpa [driven] using hl)]

theorem expandBody_congr (h : ∀ x : Expr, x.isProper = true → f x = g x) :
    ∀ body : List Stmt, bodyReadable body = true → expandBody f body = expandBody g body
  | [], _ => rfl
  | s :: body, hs => by
    obtain ⟨hs, hbody⟩ := Bool.and_eq_true_iff.mp hs
    rw [expandBody, expandBody, expand_congr h s hs, expandBody_congr h body hbody]

theorem expandItems_congr (h : ∀ x : Expr, x.isProper = true → f x = g x) :
    ∀ items : List (Expr × List Stmt), itemsReadable items = true →
      expandItems f items = expandItems g items
  | [], _ => rfl
  | (label, body) :: items, hs => by
    simp only [itemsReadable, Bool.and_eq_true] at hs
    rw [expandItems, expandItems, h label hs.1.1.1, expandBody_congr h body hs.1.2,
      expandItems_congr h items hs.2]

end

end Expand

theorem exists_normal_of_text :
    ∃ known : Expr → Expr, ∀ x : Expr, x.isProper = true → known (asText x) = x.normal := by
  classical
  refine ⟨fun y => if h : ∃ x : Expr, x.isProper = true ∧ asText x = y then h.choose.normal else y,
    fun x hx => ?_⟩
  have found : ∃ z : Expr, z.isProper = true ∧ asText z = asText x := ⟨x, hx, rfl⟩
  obtain ⟨proper, same⟩ := found.choose_spec
  have canonical {z : Expr} (hz : z.isProper = true) : z.normal.Canonical :=
    z.canonical_normal (Bool.and_eq_true_iff.mp hz).1
  refine (dif_pos found).trans ((canonical proper).text_injective (canonical hx) ?_)
  rw [Expr.text_normal, Expr.text_normal]
  exact Expr.ref.inj same

/-- A body as it is written: links as assignments and comments, literals with the value that their
width keeps, labels as names. -/
def bodyNormal (body : List Stmt) : List Stmt := expandBody Expr.normal body

/-- Bodies that are written alike are the same statements in the same blocks. -/
theorem bodyNormal_eq_of_text_eq {a b : List Stmt} (plain : bodyPlain a = true)
    (readable : bodyReadable a = true) (plain' : bodyPlain b = true)
    (readable' : bodyReadable b = true) (h : alwaysText a = alwaysText b) :
    bodyNormal a = bodyNormal b := by
  obtain ⟨known, hknown⟩ := exists_normal_of_text
  have normal {body : List Stmt} (readable : bodyReadable body = true) :
      bodyNormal body = expandBody known (expandBody asText body) := by
    rw [expandBody_expandBody]
    exact expandBody_congr (fun x hx => (hknown x hx).symm) body readable
  rw [normal readable, normal readable', ← ofText_alwaysText plain readable, h,
    ofText_alwaysText plain' readable']

theorem bodyNormal_eq_of_text_eq_sample :
    let body (run : Expr) (value : UInt64) (inner outer : List Stmt) : List Stmt :=
      [.case (.ref "m")
        [(.lit 1 0 false,
          [.cond (.binary "==" (.ref "s") run)
            [.cond (.ref "en") [.comment "end", .assign "q" (.lit 4 value true)] inner] outer])]
        [.comment "endcase"]]
    let links : List Stmt :=
      [.links [⟨.both, "pad", "src", "dst"⟩, ⟨.forward, "data", "src", "dst"⟩]]
    let wires : List Stmt :=
      [.comment "inout src$pad <-> dst$pad", .assign "dst$data" (.ref "src$data")]
    let a := body (.enum "State.Run") 0x17 [] links
    let b := body (.ref "State$Run") 7 [] wires
    let c := body (.ref "State$Run") 7 wires []
    bodyPlain a = true ∧ bodyReadable a = true ∧ bodyPlain b = true ∧ bodyReadable b = true ∧
      alwaysText a = alwaysText b ∧ bodyNormal a = bodyNormal b ∧ alwaysText a ≠ alwaysText c := by
  intro body links wires a b c
  have plain : bodyPlain a = true := by decide
  have readable : bodyReadable a = true := by decide +kernel
  have plain' : bodyPlain b = true := by decide
  have readable' : bodyReadable b = true := by decide
  have same : alwaysText a = alwaysText b := by decide +kernel
  exact ⟨plain, readable, plain', readable', same,
    bodyNormal_eq_of_text_eq plain readable plain' readable' same, by decide +kernel⟩

end Stmt

end Circuitry
