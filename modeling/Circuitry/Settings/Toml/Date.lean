import Circuitry.Settings.Value

namespace Circuitry

namespace Settings

namespace Toml

inductive Moment where
  | date
  | time
  | dateTime
  | offset
  deriving DecidableEq

namespace Moment

structure Signs where
  date : Bool := false
  time : Bool := false
  zone : Bool := false

def Signs.kind (s : Signs) : Moment :=
  match s.time, s.date, s.zone with
  | false, _, _ => .date
  | true, false, _ => .time
  | true, true, false => .dateTime
  | true, true, true => .offset

def starts : List Char → Bool
  | a :: b :: c :: d :: '-' :: _ => [a, b, c, d].all Char.isDigit
  | a :: b :: ':' :: _ => [a, b].all Char.isDigit
  | _ => false

/-- How many characters make up the moment at the start of a text, and what they show. One blank
may stand between a date and a time; the two characters after it belong to the time. `i` counts the
characters before. -/
def scan (i : Nat) (blank : Bool) (s : Signs) : List Char → Nat × Signs
  | [] => (i, s)
  | [' ', c] => if !blank && c.isDigit then (i + 2, { s with time := true }) else (i, s)
  | ' ' :: c :: _ :: cs =>
    if !blank && c.isDigit then scan (i + 3) true { s with time := true } cs else (i, s)
  | c :: cs =>
    if c.isDigit then scan (i + 1) blank s cs
    else if c = '-' then scan (i + 1) blank { s with date := true, zone := s.zone || i ≥ 8 } cs
    else if c ∈ ['T', 't', ':', '.'] then scan (i + 1) blank { s with time := true } cs
    else if c ∈ ['+', 'Z', 'z'] then scan (i + 1) blank { s with zone := true } cs
    else (i, s)

def twoDigits (a b : Char) : Option Nat :=
  if a.isDigit && b.isDigit then some (digitValue a * 10 + digitValue b) else none

def isLeap (year : Nat) : Bool := year % 4 == 0 && (year % 100 != 0 || year % 400 == 0)

def daysIn (year month : Nat) : Nat :=
  if month = 2 then (if isLeap year then 29 else 28)
  else if month ∈ [4, 6, 9, 11] then 30
  else 31

def afterDate : List Char → Option (List Char)
  | y₁ :: y₂ :: y₃ :: y₄ :: '-' :: m₁ :: m₂ :: '-' :: d₁ :: d₂ :: cs =>
    match twoDigits y₁ y₂, twoDigits y₃ y₄, twoDigits m₁ m₂, twoDigits d₁ d₂ with
    | some century, some year, some month, some day =>
      if 1 ≤ month ∧ month ≤ 12 ∧ 1 ≤ day ∧ day ≤ daysIn (century * 100 + year) month then some cs
      else none
    | _, _, _, _ => none
  | _ => none

def afterFraction : List Char → Option (List Char)
  | '.' :: cs => if (cs.takeWhile Char.isDigit).isEmpty then none else some (cs.dropWhile Char.isDigit)
  | cs => some cs

def afterTime : List Char → Option (List Char)
  | h₁ :: h₂ :: ':' :: m₁ :: m₂ :: ':' :: s₁ :: s₂ :: cs =>
    match twoDigits h₁ h₂, twoDigits m₁ m₂, twoDigits s₁ s₂ with
    | some h, some m, some s => if h ≤ 23 ∧ m ≤ 59 ∧ s ≤ 60 then afterFraction cs else none
    | _, _, _ => none
  | _ => none

def afterDateTime (cs : List Char) : Option (List Char) :=
  match afterDate cs with
  | some (c :: cs) => if c ∈ ['T', 't', ' '] then afterTime cs else none
  | _ => none

def isOffset : List Char → Bool
  | ['Z'] | ['z'] => true
  | [sign, h₁, h₂, ':', m₁, m₂] =>
    match twoDigits h₁ h₂, twoDigits m₁ m₂ with
    | some h, some m => (sign == '+' || sign == '-') && h ≤ 23 && m ≤ 59
    | _, _ => false
  | _ => false

def isValid (kind : Moment) (cs : List Char) : Bool :=
  match kind with
  | .date => afterDate cs == some []
  | .time => afterTime cs == some []
  | .dateTime => afterDateTime cs == some []
  | .offset => (afterDateTime cs).any isOffset

def read (cs : List Char) : Option (List Char) :=
  let (n, signs) := scan 0 false {} cs
  if signs.kind.isValid (cs.take n) then some (cs.drop n) else none

end Moment

end Toml

end Settings

end Circuitry
