import SheetGraph.Data.Value
import SheetGraph.Toml.Text

/-!
# Bare values of TOML

What a run of letters, digits and signs stands for outside quotes: a truth value, a number in one of
four bases, a number with a fraction or an exponent, or a moment in time.
-/

namespace SheetGraph.Toml

/-- Whether the character may be part of a bare value. -/
def isBare (c : Char) : Bool :=
  c.isAlphanum || c == '+' || c == '-' || c == '_' || c == '.' || c == ':'

/-! ### Numbers -/

/-- The digits of a number without the underscores, each of which has to stand between two. -/
def digits? (p : Char → Bool) (cs : List Char) : Option (List Char) :=
  let groups := cs.splitOn '_'
  if groups.all fun g => !g.isEmpty && g.all p then some groups.flatten else none

/-- The sign in front of a number, and the rest. -/
def splitSign : List Char → Bool × List Char
  | '-' :: rest => (true, rest)
  | '+' :: rest => (false, rest)
  | cs => (false, cs)

/-- Whether the text is a whole number in decimal digits. -/
def wholeDigits? (cs : List Char) : Option (List Char) :=
  (digits? Char.isDigit cs).filter fun ds => ds == ['0'] || ds.head? != some '0'

/-- A whole number of 64 bits. -/
def integer? (cs : List Char) : Option Int :=
  let based (base : Nat) (ds : List Char) : Option Int :=
    let isDigitOfBase (c : Char) := ((hexDigit? c).filter (· < base)).isSome
    ((digits? isDigitOfBase ds).bind (number? base)).bind fun n =>
      if n < 9223372036854775808 then some n else none
  match cs with
  | '0' :: 'x' :: ds => based 16 ds
  | '0' :: 'o' :: ds => based 8 ds
  | '0' :: 'b' :: ds => based 2 ds
  | cs =>
    let (negative, ds) := splitSign cs
    ((wholeDigits? ds).bind (number? 10)).bind fun n =>
      if negative then (if n ≤ 9223372036854775808 then some (-n) else none)
      else if n < 9223372036854775808 then some n else none

/-- Whether the text is an exponent, its letter aside. -/
def isExponent (cs : List Char) : Bool :=
  (digits? Char.isDigit (splitSign cs).2).isSome

/-- Whether the text is a number with a fraction or an exponent, infinite or no number at all. -/
def isFloat (cs : List Char) : Bool :=
  let (_, body) := splitSign cs
  if body = "inf".toList ∨ body = "nan".toList then true
  else
    let isE (c : Char) := c == 'e' || c == 'E'
    let mantissa := body.takeWhile fun c => !isE c
    let exponent := body.dropWhile fun c => !isE c
    match mantissa.splitOn '.' with
    | [whole] => !exponent.isEmpty && (wholeDigits? whole).isSome && isExponent (exponent.drop 1)
    | [whole, fraction] =>
      (wholeDigits? whole).isSome && (digits? Char.isDigit fraction).isSome &&
        (exponent.isEmpty || isExponent (exponent.drop 1))
    | _ => false

/-! ### Moments -/

/-- The number that exactly `count` digits write. -/
def exactly? (count : Nat) (cs : List Char) : Option Nat :=
  if cs.length = count ∧ cs.all Char.isDigit then number? 10 cs else none

/-- The number of days of a month. -/
def daysOf (year month : Nat) : Nat :=
  if month = 2 then
    if year % 4 = 0 ∧ (year % 100 ≠ 0 ∨ year % 400 = 0) then 29 else 28
  else if month = 4 ∨ month = 6 ∨ month = 9 ∨ month = 11 then 30
  else 31

/-- Whether the text is a day of the calendar. -/
def isDate (cs : List Char) : Bool :=
  match cs.splitOn '-' with
  | [year, month, day] =>
    match exactly? 4 year, exactly? 2 month, exactly? 2 day with
    | some year, some month, some day =>
      1 ≤ month && month ≤ 12 && 1 ≤ day && day ≤ daysOf year month
    | _, _, _ => false
  | _ => false

/-- Whether the text is hours and minutes. -/
def isHourMinute (hour minute : List Char) : Bool :=
  (exactly? 2 hour).any (· ≤ 23) && (exactly? 2 minute).any (· ≤ 59)

/-- Whether the text is a time of day. -/
def isTime (cs : List Char) : Bool :=
  match cs.splitOn ':' with
  | [hour, minute, second] =>
    isHourMinute hour minute &&
      match second.splitOn '.' with
      | [second] => (exactly? 2 second).any (· ≤ 60)
      | [second, fraction] =>
        (exactly? 2 second).any (· ≤ 60) && !fraction.isEmpty && fraction.all Char.isDigit
      | _ => false
  | _ => false

/-- Whether the text is an offset from universal time. -/
def isOffset : List Char → Bool
  | ['Z'] | ['z'] => true
  | sign :: rest =>
    (sign == '+' || sign == '-') &&
      match rest.splitOn ':' with
      | [hour, minute] => isHourMinute hour minute
      | _ => false
  | [] => false

/-- Whether the text is a time of day, perhaps with an offset. -/
def isTimeWithOffset (cs : List Char) : Bool :=
  let isStart (c : Char) := c == 'Z' || c == 'z' || c == '+' || c == '-'
  let time := cs.takeWhile fun c => !isStart c
  let offset := cs.dropWhile fun c => !isStart c
  isTime time && (offset.isEmpty || isOffset offset)

/-- Whether the text is a day with a time of day behind a letter `T`. -/
def isDateTime (cs : List Char) : Bool :=
  isDate (cs.take 10) &&
    match cs.drop 10 with
    | t :: time => (t == 'T' || t == 't') && isTimeWithOffset time
    | [] => false

/-! ### Bare values -/

/-- The value that a run of bare characters stands for. -/
def bareValue? (cs : List Char) : Option Value :=
  if cs = "true".toList then some (.bool true)
  else if cs = "false".toList then some (.bool false)
  else if isDate cs || isTime cs || isDateTime cs then some (.moment (String.ofList cs))
  else match integer? cs with
    | some i => some (.integer i)
    | none => if isFloat cs then some (.decimal (String.ofList cs)) else none

/-- A bare value at the start of a text, and what follows.  A day may be followed by a time of day
behind a space. -/
def scalar (cs : List Char) : Option (Value × List Char) :=
  let bare := cs.takeWhile isBare
  let rest := cs.dropWhile isBare
  match isDate bare, rest with
  | true, ' ' :: more =>
    let time := more.takeWhile isBare
    if time = [] then some (.moment (String.ofList bare), rest)
    else if isTimeWithOffset time then
      some (.moment (String.ofList (bare ++ ' ' :: time)), more.dropWhile isBare)
    else none
  | _, _ => (bareValue? bare).map fun v => (v, rest)

end SheetGraph.Toml
