import SheetGraph.Data.Value

/-!
# Reading JSON

`Json.read?` reads a text that is one JSON value between blanks.  The grammar is strict: no comment,
no trailing comma, no leading zero, no control character in a text.
-/

namespace SheetGraph.Json

open Value (null bool integer decimal text brokenText array table)

/-! ### Texts -/

/-- The value of a hexadecimal digit. -/
def hexDigit? (c : Char) : Option Nat :=
  if c.isDigit then some (c.toNat - 48)
  else if 'a' ≤ c ∧ c ≤ 'f' then some (c.toNat - 87)
  else if 'A' ≤ c ∧ c ≤ 'F' then some (c.toNat - 55)
  else none

/-- The number that hexadecimal digits write. -/
def hexNumber? (cs : List Char) : Option Nat :=
  cs.foldl (fun acc c => acc.bind fun n => (hexDigit? c).map (16 * n + ·)) (some 0)

/-- The character that a single letter behind a backslash stands for. -/
def escape? : Char → Option Char
  | '"' => some '"'
  | '\\' => some '\\'
  | '/' => some '/'
  | 'b' => some '\x08'
  | 'f' => some '\x0c'
  | 'n' => some '\n'
  | 'r' => some '\r'
  | 't' => some '\t'
  | _ => none

/-- The code units of a text up to its closing quote, and what follows. -/
def readUnits? : List Char → Option (List Nat × List Char)
  | [] => none
  | '"' :: rest => some ([], rest)
  | '\\' :: 'u' :: a :: b :: c :: d :: rest =>
    match hexNumber? [a, b, c, d], readUnits? rest with
    | some unit, some (units, rest) => some (unit :: units, rest)
    | _, _ => none
  | '\\' :: c :: rest =>
    match escape? c, readUnits? rest with
    | some e, some (units, rest) => some (e.toNat :: units, rest)
    | _, _ => none
  | c :: rest =>
    if c.toNat < 0x20 then none
    else (readUnits? rest).map fun (units, rest) => (c.toNat :: units, rest)

/-- The characters that code units stand for, surrogates taken in pairs; none if half of a pair is
missing. -/
def joinUnits? : List Nat → Option (List Char)
  | [] => some []
  | high :: low :: rest =>
    if 0xD800 ≤ high ∧ high < 0xDC00 ∧ 0xDC00 ≤ low ∧ low < 0xE000 then
      (joinUnits? rest).map
        (Char.ofNat (0x10000 + 1024 * (high - 0xD800) + (low - 0xDC00)) :: ·)
    else if 0xD800 ≤ high ∧ high < 0xE000 then none
    else (joinUnits? (low :: rest)).map (Char.ofNat high :: ·)
  | [unit] => if 0xD800 ≤ unit ∧ unit < 0xE000 then none else some [Char.ofNat unit]

/-! ### Numbers -/

/-- The digits at the start of a text, and the rest. -/
def spanDigits (cs : List Char) : List Char × List Char :=
  (cs.takeWhile Char.isDigit, cs.dropWhile Char.isDigit)

/-- The fraction at the start of a text, and the rest; none for a point without digits. -/
def fraction? : List Char → Option (List Char × List Char)
  | '.' :: rest =>
    match spanDigits rest with
    | ([], _) => none
    | (digits, rest) => some ('.' :: digits, rest)
  | cs => some ([], cs)

/-- The exponent at the start of a text, and the rest; none for one without digits. -/
def exponent? : List Char → Option (List Char × List Char)
  | e :: rest =>
    if e = 'e' ∨ e = 'E' then
      let (sign, rest) : List Char × List Char :=
        match rest with
        | '+' :: rest => (['+'], rest)
        | '-' :: rest => (['-'], rest)
        | rest => ([], rest)
      match spanDigits rest with
      | ([], _) => none
      | (digits, rest) => some (e :: sign ++ digits, rest)
    else some ([], e :: rest)
  | [] => some ([], [])

/-- The number that decimal digits write. -/
def decimalNumber (digits : List Char) : Nat :=
  digits.foldl (fun n c => 10 * n + (c.toNat - 48)) 0

/-- A number at the start of a text, and the rest. -/
def number? (cs : List Char) : Option (Value × List Char) :=
  let (negative, cs) : Bool × List Char :=
    match cs with
    | '-' :: rest => (true, rest)
    | cs => (false, cs)
  match spanDigits cs with
  | ([], _) => none
  | (digits, rest) =>
    if digits.head? = some '0' ∧ digits ≠ ['0'] then none
    else match fraction? rest with
      | none => none
      | some (fraction, rest) =>
        match exponent? rest with
        | none => none
        | some (exponent, rest) =>
          let n := decimalNumber digits
          if fraction = [] ∧ exponent = [] ∧ (negative = false ∨ n ≠ 0) then
            some (integer (if negative then -n else n), rest)
          else
            let sign := if negative then ['-'] else []
            some (decimal (String.ofList (sign ++ digits ++ fraction ++ exponent)), rest)

/-! ### Values -/

/-- Whether the character may stand between the parts of a value. -/
def isSpace (c : Char) : Bool :=
  c == ' ' || c == '\n' || c == '\t' || c == '\r'

/-- The text without the blanks at its start. -/
def skipSpace (cs : List Char) : List Char :=
  cs.dropWhile isSpace

/-- The rest of a text that begins with a word. -/
def word? : (word cs : List Char) → Option (List Char)
  | [], cs => some cs
  | w :: word, c :: cs => if w = c then word? word cs else none
  | _ :: _, [] => none

mutual

/-- A value at the start of a text, and the rest. -/
def value? : (fuel : Nat) → List Char → Option (Value × List Char)
  | 0, _ => none
  | fuel + 1, cs =>
    match skipSpace cs with
    | 'n' :: rest => (word? "ull".toList rest).map fun rest => (null, rest)
    | 't' :: rest => (word? "rue".toList rest).map fun rest => (bool true, rest)
    | 'f' :: rest => (word? "alse".toList rest).map fun rest => (bool false, rest)
    | '"' :: rest =>
      (readUnits? rest).map fun (units, rest) =>
        (match joinUnits? units with
          | some chars => text (String.ofList chars)
          | none => brokenText, rest)
    | '[' :: rest =>
      match skipSpace rest with
      | ']' :: rest => some (array [], rest)
      | rest => (items? fuel rest).map fun (items, rest) => (array items, rest)
    | '\x7b' :: rest =>
      match skipSpace rest with
      | '\x7d' :: rest => some (table [], rest)
      | rest => (fields? fuel rest).map fun (fields, rest) => (table fields, rest)
    | cs => number? cs

/-- The items of an array up to its closing bracket, and the rest. -/
def items? : (fuel : Nat) → List Char → Option (List Value × List Char)
  | 0, _ => none
  | fuel + 1, cs =>
    match value? fuel cs with
    | none => none
    | some (item, rest) =>
      match skipSpace rest with
      | ']' :: rest => some ([item], rest)
      | ',' :: rest => (items? fuel rest).map fun (items, rest) => (item :: items, rest)
      | _ => none

/-- The fields of an object up to its closing brace, and the rest. -/
def fields? : (fuel : Nat) → List Char → Option (List (String × Value) × List Char)
  | 0, _ => none
  | fuel + 1, cs =>
    match skipSpace cs with
    | '"' :: rest =>
      match readUnits? rest with
      | none => none
      | some (units, rest) =>
        match joinUnits? units, skipSpace rest with
        | some key, ':' :: rest =>
          match value? fuel rest with
          | none => none
          | some (value, rest) =>
            let field := (String.ofList key, value)
            match skipSpace rest with
            | '\x7d' :: rest => some ([field], rest)
            | ',' :: rest => (fields? fuel rest).map fun (fields, rest) => (field :: fields, rest)
            | _ => none
        | _, _ => none
    | _ => none

end

/-- **The value that a text writes**, if it is JSON. -/
def read? (cs : List Char) : Option Value :=
  match value? (2 * cs.length + 2) cs with
  | some (value, rest) => if skipSpace rest = [] then some value else none
  | none => none

end SheetGraph.Json
