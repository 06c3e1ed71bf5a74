import SheetGraph.Data.Value

/-!
# Writing JSON

`Json.compact` writes a value without blanks, `Json.pretty` one item or field a line, indented by
two spaces a level; empty lists and objects stay on their line in both.
-/

namespace SheetGraph.Json

/-- The lower-case hexadecimal digit of a number below 16. -/
def hexChar (n : Nat) : Char :=
  if n < 10 then Char.ofNat (48 + n) else Char.ofNat (87 + n)

/-- A character as it is written in a text. -/
def escapeChar (c : Char) : List Char :=
  match c with
  | '"' => ['\\', '"']
  | '\\' => ['\\', '\\']
  | '\n' => ['\\', 'n']
  | '\r' => ['\\', 'r']
  | '\t' => ['\\', 't']
  | '\x08' => ['\\', 'b']
  | '\x0c' => ['\\', 'f']
  | c =>
    if c.toNat < 0x20 then
      ['\\', 'u', '0', '0', hexChar (c.toNat / 16), hexChar (c.toNat % 16)]
    else [c]

/-- A text with its quotes. -/
def quoted (s : String) : String :=
  String.ofList ('"' :: s.toList.flatMap escapeChar ++ ['"'])

/-- Strings with a comma after all but the last. -/
def commaSeparated (separator : String) : List String → String
  | [] => ""
  | [s] => s
  | s :: ss => s ++ separator ++ commaSeparated separator ss

mutual

/-- A value without blanks. -/
def compact : Value → String
  | .null => "null"
  | .bool b => if b then "true" else "false"
  | .integer i => toString i
  | .decimal digits => digits
  | .text s => quoted s
  | .brokenText => quoted "\ufffd"
  | .moment s => quoted s
  | .array items => "[" ++ commaSeparated "," (compactItems items) ++ "]"
  | .table fields => "\x7b" ++ commaSeparated "," (compactFields fields) ++ "\x7d"

/-- The items of a list, each without blanks. -/
def compactItems : List Value → List String
  | [] => []
  | item :: items => compact item :: compactItems items

/-- The fields of an object, each without blanks. -/
def compactFields : List (String × Value) → List String
  | [] => []
  | (key, value) :: fields => (quoted key ++ ":" ++ compact value) :: compactFields fields

end

/-- The start of a line that is `level` levels deep. -/
def newLine (level : Nat) : String :=
  "\n" ++ String.ofList (List.replicate (2 * level) ' ')

mutual

/-- A value at a level, one item or field a line. -/
def prettyAt (level : Nat) : Value → String
  | .array [] => "[]"
  | .table [] => "\x7b\x7d"
  | .array items =>
    let start := newLine (level + 1)
    "[" ++ start ++ commaSeparated ("," ++ start) (prettyItems (level + 1) items)
      ++ newLine level ++ "]"
  | .table fields =>
    let start := newLine (level + 1)
    "\x7b" ++ start ++ commaSeparated ("," ++ start) (prettyFields (level + 1) fields)
      ++ newLine level ++ "\x7d"
  | value => compact value

/-- The items of a list at a level. -/
def prettyItems (level : Nat) : List Value → List String
  | [] => []
  | item :: items => prettyAt level item :: prettyItems level items

/-- The fields of an object at a level. -/
def prettyFields (level : Nat) : List (String × Value) → List String
  | [] => []
  | (key, value) :: fields =>
    (quoted key ++ ": " ++ prettyAt level value) :: prettyFields level fields

end

/-- A value, one item or field a line. -/
def pretty (v : Value) : String :=
  prettyAt 0 v

end SheetGraph.Json
