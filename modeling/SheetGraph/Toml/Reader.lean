import SheetGraph.Toml.Node
import SheetGraph.Toml.Scalar

/-!
# Reading TOML

`Toml.read?` reads a text that is a TOML document.  A document is a run of statements, each on its
line: a key with its value, a header that opens a table, or nothing but a comment.
-/

namespace SheetGraph.Toml

/-- How deep values may be nested. -/
def nestingLimit : Nat := 79

/-! ### Keys -/

/-- Whether the character may be part of a key outside quotes. -/
def isKeyChar (c : Char) : Bool :=
  c.isAlphanum || c == '_' || c == '-'

/-- One part of a key, and what follows. -/
def simpleKey? : List Char → Option (String × List Char)
  | '"' :: rest => (basicText? rest).map fun (text, rest) => (String.ofList text, rest)
  | '\'' :: rest => (literalText? rest).map fun (text, rest) => (String.ofList text, rest)
  | cs =>
    match cs.takeWhile isKeyChar with
    | [] => none
    | key => some (String.ofList key, cs.dropWhile isKeyChar)

/-- The parts of a key between dots, blanks around them passed over, and what follows. -/
def keyParts? : (steps : Nat) → List Char → Option (List String × List Char)
  | 0, _ => none
  | steps + 1, cs =>
    match simpleKey? (skipGap cs) with
    | none => none
    | some (key, rest) =>
      match skipGap rest with
      | '.' :: rest => (keyParts? steps rest).map fun (keys, rest) => (key :: keys, rest)
      | rest => some ([key], rest)

/-- A key: the parts in front of its last one, the last one, and what follows. -/
def key? (cs : List Char) : Option (List String × String × List Char) :=
  match keyParts? (cs.length + 1) cs with
  | some (keys, rest) => keys.getLast?.map fun last => (keys.dropLast, last, rest)
  | none => none

/-! ### Values -/

mutual

/-- A value at the start of a text, and what follows. -/
def value? : (fuel levels : Nat) → List Char → Option (Value × List Char)
  | 0, _, _ => none
  | fuel + 1, levels, cs =>
    match cs, levels with
    | '[' :: _, 0 => none
    | '\x7b' :: _, 0 => none
    | '[' :: rest, levels + 1 =>
      (items? fuel levels rest).map fun (items, rest) => (.array items, rest)
    | '\x7b' :: rest, levels + 1 =>
      match skipGap rest with
      | '\x7d' :: rest => some (.table [], rest)
      | rest =>
        (fields? fuel levels [] rest).map fun (fields, rest) =>
          (.table (Node.fieldValues fields), rest)
    | '"' :: _, _ => (text? cs).map fun (text, rest) => (.text (String.ofList text), rest)
    | '\'' :: _, _ => (text? cs).map fun (text, rest) => (.text (String.ofList text), rest)
    | _, _ => scalar cs

/-- The items of an array up to its closing bracket, and what follows. -/
def items? : (fuel levels : Nat) → List Char → Option (List Value × List Char)
  | 0, _, _ => none
  | fuel + 1, levels, cs =>
    match skipLines? (cs.length + 1) cs with
    | none => none
    | some (']' :: rest) => some ([], rest)
    | some rest =>
      match value? fuel levels rest with
      | none => none
      | some (item, rest) =>
        match skipLines? (rest.length + 1) rest with
        | some (']' :: rest) => some ([item], rest)
        | some (',' :: rest) =>
          (items? fuel levels rest).map fun (items, rest) => (item :: items, rest)
        | _ => none

/-- The fields of a table on one line up to its closing brace, behind those in `known`, and what
follows. -/
def fields? : (fuel levels : Nat) → (known : Node.Fields) → List Char →
    Option (Node.Fields × List Char)
  | 0, _, _, _ => none
  | fuel + 1, levels, known, cs =>
    match key? cs with
    | some (path, key, '=' :: rest) =>
      match value? fuel levels (skipGap rest) with
      | none => none
      | some (v, rest) =>
        match Node.addValue path key v .header known with
        | none => none
        | some known =>
          match skipGap rest with
          | '\x7d' :: rest => some (known, rest)
          | ',' :: rest => fields? fuel levels known rest
          | _ => none
    | _ => none

end

/-! ### Documents -/

/-- A document of which a part has been read. -/
structure Document where
  fields : Node.Fields
  header : List String

namespace Document

/-- The document of which nothing has been read. -/
def empty : Document := ⟨[], []⟩

/-- The document with one more value in the table of the last header. -/
def addValue (doc : Document) (path : List String) (key : String) (v : Value) : Option Document :=
  (Node.change false (Node.addValue path key v) doc.header .header doc.fields).map
    fun fields => { doc with fields }

/-- The document behind the header of a table. -/
def openTable (doc : Document) (path : List String) (key : String) : Option Document :=
  (Node.openTable path key doc.fields).map fun fields => ⟨fields, path ++ [key]⟩

/-- The document behind a header that opens one of many tables. -/
def openTables (doc : Document) (path : List String) (key : String) : Option Document :=
  (Node.openTables path key doc.fields).map fun fields => ⟨fields, path ++ [key]⟩

end Document

/-- The document behind a header, its first bracket aside, and what follows. -/
def header? (doc : Document) : List Char → Option (Document × List Char)
  | '[' :: cs =>
    match key? cs with
    | some (path, key, ']' :: ']' :: rest) =>
      match doc.openTables path key, afterLineEnd? rest with
      | some doc, some rest => some (doc, rest)
      | _, _ => none
    | _ => none
  | cs =>
    match key? cs with
    | some (path, key, ']' :: rest) =>
      match doc.openTable path key, afterLineEnd? rest with
      | some doc, some rest => some (doc, rest)
      | _, _ => none
    | _ => none

/-- The document behind a key with its value, and what follows. -/
def assignment? (doc : Document) (cs : List Char) : Option (Document × List Char) :=
  match key? cs with
  | some (path, key, '=' :: rest) =>
    match value? (2 * rest.length + 2) nestingLimit (skipGap rest) with
    | none => none
    | some (v, rest) =>
      match doc.addValue path key v, afterLineEnd? rest with
      | some doc, some rest => some (doc, rest)
      | _, _ => none
  | _ => none

/-- The document at the end of a text, which has less than `steps` lines. -/
def statements? : (steps : Nat) → Document → List Char → Option Document
  | 0, _, _ => none
  | steps + 1, doc, cs =>
    match skipGap cs with
    | [] => some doc
    | '[' :: rest => (header? doc rest).bind fun (doc, rest) => statements? steps doc rest
    | '#' :: rest => (afterLineEnd? ('#' :: rest)).bind (statements? steps doc)
    | '\n' :: rest => statements? steps doc rest
    | '\r' :: '\n' :: rest => statements? steps doc rest
    | cs => (assignment? doc cs).bind fun (doc, rest) => statements? steps doc rest

/-- **The table that a text writes**, if it is TOML. -/
def read? (cs : List Char) : Option Value :=
  let cs := match cs with
    | '\ufeff' :: rest => rest
    | cs => cs
  (statements? (cs.length + 1) .empty cs).map fun doc => .table (Node.fieldValues doc.fields)

end SheetGraph.Toml
