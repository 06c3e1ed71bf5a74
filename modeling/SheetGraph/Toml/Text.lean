/-!
# Blanks, comments and texts of TOML

The reading of what stands between and inside quotes: texts on one line and on several, with
escapes between double quotes and without between single ones.
-/

namespace SheetGraph.Toml

/-- Whether the character may stand in a comment or a text: no control character but a tab. -/
def isPlain (c : Char) : Bool :=
  c == '\t' || (0x20 ≤ c.toNat && c.toNat != 0x7F)

/-- Whether the character is a blank within a line. -/
def isGap (c : Char) : Bool :=
  c == ' ' || c == '\t'

/-- The text without the blanks at its start. -/
def skipGap (cs : List Char) : List Char :=
  cs.dropWhile isGap

/-- What follows a newline at the start of a text. -/
def afterNewline? : List Char → Option (List Char)
  | '\n' :: rest => some rest
  | '\r' :: '\n' :: rest => some rest
  | _ => none

/-- What follows the end of a line: blanks, perhaps a comment, and a newline or the end. -/
def afterLineEnd? (cs : List Char) : Option (List Char) :=
  let rest := match skipGap cs with
    | '#' :: comment => comment.dropWhile isPlain
    | rest => rest
  match rest with
  | [] => some []
  | rest => afterNewline? rest

/-- What follows blanks, comments and newlines, of which there are less than `steps`. -/
def skipLines? : (steps : Nat) → List Char → Option (List Char)
  | 0, _ => none
  | steps + 1, cs =>
    match skipGap cs with
    | '#' :: comment => (afterNewline? (comment.dropWhile isPlain)).bind (skipLines? steps)
    | rest =>
      match afterNewline? rest with
      | some rest => skipLines? steps rest
      | none => some rest

/-! ### Escapes -/

/-- The value of a hexadecimal digit. -/
def hexDigit? (c : Char) : Option Nat :=
  if c.isDigit then some (c.toNat - 48)
  else if 'a' ≤ c ∧ c ≤ 'f' then some (c.toNat - 87)
  else if 'A' ≤ c ∧ c ≤ 'F' then some (c.toNat - 55)
  else none

/-- The number that digits of a base write. -/
def number? (base : Nat) (cs : List Char) : Option Nat :=
  cs.foldl
    (fun acc c => acc.bind fun n => ((hexDigit? c).filter (· < base)).map (base * n + ·)) (some 0)

/-- The character with the code that hexadecimal digits write; surrogates are none. -/
def scalar? (cs : List Char) : Option Char :=
  (number? 16 cs).bind fun n =>
    if n < 0xD800 ∨ (0xE000 ≤ n ∧ n < 0x110000) then some (Char.ofNat n) else none

/-- The character that a letter behind a backslash stands for. -/
def escape? : Char → Option Char
  | 'b' => some '\x08'
  | 't' => some '\t'
  | 'n' => some '\n'
  | 'f' => some '\x0c'
  | 'r' => some '\r'
  | '"' => some '"'
  | '\\' => some '\\'
  | _ => none

/-- A character in front of the text that has been read. -/
def prepend (c : Char) : Option (List Char × List Char) → Option (List Char × List Char)
  | some (text, rest) => some (c :: text, rest)
  | none => none

/-! ### Texts on one line -/

/-- A text up to its closing double quote, and what follows. -/
def basicText? : List Char → Option (List Char × List Char)
  | [] => none
  | '"' :: rest => some ([], rest)
  | '\\' :: 'u' :: a :: b :: c :: d :: rest =>
    (scalar? [a, b, c, d]).bind (prepend · (basicText? rest))
  | '\\' :: 'U' :: a :: b :: c :: d :: e :: f :: g :: h :: rest =>
    (scalar? [a, b, c, d, e, f, g, h]).bind (prepend · (basicText? rest))
  | '\\' :: c :: rest => (escape? c).bind (prepend · (basicText? rest))
  | c :: rest => if isPlain c then prepend c (basicText? rest) else none

/-- A text up to its closing single quote, and what follows. -/
def literalText? : List Char → Option (List Char × List Char)
  | [] => none
  | '\'' :: rest => some ([], rest)
  | c :: rest => if isPlain c then prepend c (literalText? rest) else none

/-! ### Texts on several lines -/

/-- What a backslash at the end of a line still takes away. -/
inductive Fold where
  | none
  | line
  | lines
  deriving DecidableEq

/-- A text up to three closing double quotes, and what follows; up to two more quotes in front of
these belong to the text. -/
def basicLines? (fold : Fold) : List Char → Option (List Char × List Char)
  | [] => none
  | '"' :: '"' :: '"' :: '"' :: '"' :: rest =>
    if fold = .line then none else some (['"', '"'], rest)
  | '"' :: '"' :: '"' :: '"' :: rest => if fold = .line then none else some (['"'], rest)
  | '"' :: '"' :: '"' :: rest => if fold = .line then none else some ([], rest)
  | '\r' :: '\n' :: rest =>
    match fold with
    | .none => prepend '\n' (basicLines? .none rest)
    | _ => basicLines? .lines rest
  | '\n' :: rest =>
    match fold with
    | .none => prepend '\n' (basicLines? .none rest)
    | _ => basicLines? .lines rest
  | '\\' :: 'u' :: a :: b :: c :: d :: rest =>
    if fold = .line then none
    else (scalar? [a, b, c, d]).bind (prepend · (basicLines? .none rest))
  | '\\' :: 'U' :: a :: b :: c :: d :: e :: f :: g :: h :: rest =>
    if fold = .line then none
    else (scalar? [a, b, c, d, e, f, g, h]).bind (prepend · (basicLines? .none rest))
  | '\\' :: '\r' :: '\n' :: rest => if fold = .line then none else basicLines? .lines rest
  | '\\' :: c :: rest =>
    if fold = .line then none
    else if c = '\n' then basicLines? .lines rest
    else if isGap c then basicLines? .line rest
    else (escape? c).bind (prepend · (basicLines? .none rest))
  | c :: rest =>
    if isGap c && fold != .none then basicLines? fold rest
    else if isPlain c && fold != .line then prepend c (basicLines? .none rest)
    else none

/-- A text up to three closing single quotes, and what follows; up to two more quotes in front of
these belong to the text. -/
def literalLines? : List Char → Option (List Char × List Char)
  | [] => none
  | '\'' :: '\'' :: '\'' :: '\'' :: '\'' :: rest => some (['\'', '\''], rest)
  | '\'' :: '\'' :: '\'' :: '\'' :: rest => some (['\''], rest)
  | '\'' :: '\'' :: '\'' :: rest => some ([], rest)
  | '\r' :: '\n' :: rest => prepend '\n' (literalLines? rest)
  | '\n' :: rest => prepend '\n' (literalLines? rest)
  | c :: rest => if isPlain c then prepend c (literalLines? rest) else none

/-- The text without the newline it starts with. -/
def dropNewline (cs : List Char) : List Char :=
  (afterNewline? cs).getD cs

/-- A text at the start of a text, quotes of either kind included, and what follows. -/
def text? : List Char → Option (List Char × List Char)
  | '"' :: '"' :: '"' :: rest => basicLines? .none (dropNewline rest)
  | '\'' :: '\'' :: '\'' :: rest => literalLines? (dropNewline rest)
  | '"' :: rest => basicText? rest
  | '\'' :: rest => literalText? rest
  | _ => none

end SheetGraph.Toml
