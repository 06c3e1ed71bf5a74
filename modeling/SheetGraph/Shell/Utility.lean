import SheetGraph.FileTree.Disk
import SheetGraph.Text.Utf8

/-!
# Utilities

The small programs that scripts call: they print texts, show files and look for words in them.
-/

namespace SheetGraph.Shell

/-- What a program leaves behind. -/
structure Reply where
  status : Nat := 0
  out : ByteArray := .empty
  err : ByteArray := .empty

namespace Reply

/-- The reply of a program that complains and fails. -/
def complaint (status : Nat) (message : String) : Reply :=
  { status := status, err := (message ++ "\n").toUTF8 }

/-- Two replies one behind the other; the status is that of a failure, if there is one. -/
def followedBy (a b : Reply) : Reply where
  status := if a.status = 0 then b.status else a.status
  out := a.out ++ b.out
  err := a.err ++ b.err

/-- Replies one behind the other. -/
def joined (rs : List Reply) : Reply :=
  rs.foldl followedBy {}

end Reply

/-! ### Printing -/

/-- The value of an octal digit. -/
def octalDigit? (c : Char) : Option Nat :=
  if '0' ≤ c ∧ c ≤ '7' then some (c.toNat - 48) else none

/-- The byte that octal digits write, of which `value` have been read, and what follows. -/
def octalByte (value : Nat) : (digits : Nat) → List Char → UInt8 × List Char
  | digits + 1, c :: rest =>
    match octalDigit? c with
    | some d => octalByte (8 * value + d) digits rest
    | none => (value.toUInt8, c :: rest)
  | _, rest => (value.toUInt8, rest)

/-- The byte that a letter behind a backslash stands for. -/
def escapedByte? : Char → Option UInt8
  | 'n' => some 10
  | 't' => some 9
  | 'r' => some 13
  | 'a' => some 7
  | 'b' => some 8
  | 'f' => some 12
  | 'v' => some 11
  | '\\' => some 92
  | _ => none

/-- The bytes of a character. -/
def charBytes (c : Char) : List UInt8 :=
  c.toString.toUTF8.toList

/-- The bytes of a text in which backslashes mean something. -/
def unescape : (fuel : Nat) → List Char → List UInt8
  | fuel + 1, '\\' :: c :: rest =>
    match escapedByte? c, octalDigit? c with
    | some b, _ => b :: unescape fuel rest
    | none, some _ =>
      let (b, rest) := octalByte 0 3 (c :: rest)
      b :: unescape fuel rest
    | none, none => 92 :: charBytes c ++ unescape fuel rest
  | fuel + 1, c :: rest => charBytes c ++ unescape fuel rest
  | _, _ => []

/-- The bytes of a text in which backslashes mean something. -/
def unescaped (s : String) : ByteArray :=
  ⟨(unescape s.toList.length s.toList).toArray⟩

/-- The arguments with blanks between them on a line. -/
def echo (args : List String) : Reply :=
  match args with
  | "-n" :: args => { out := unescaped (" ".intercalate args) }
  | args => { out := unescaped (" ".intercalate args ++ "\n") }

/-- A format with its places filled by arguments, and the arguments that are left. -/
def fillFormat : (fuel : Nat) → (format : List Char) → List String → List UInt8 × List String
  | fuel + 1, '%' :: c :: rest, args =>
    if c = '%' then
      let (bytes, left) := fillFormat fuel rest args
      (37 :: bytes, left)
    else if c = 'b' then
      let (bytes, left) := fillFormat fuel rest args.tail
      ((unescaped (args.headD "")).toList ++ bytes, left)
    else
      let value := if c = 'd' ∧ args.headD "" = "" then "0" else args.headD ""
      let (bytes, left) := fillFormat fuel rest args.tail
      (value.toUTF8.toList ++ bytes, left)
  | fuel + 1, '\\' :: c :: rest, args =>
    match escapedByte? c, octalDigit? c with
    | some b, _ =>
      let (bytes, left) := fillFormat fuel rest args
      (b :: bytes, left)
    | none, some _ =>
      let (b, rest) := octalByte 0 3 (c :: rest)
      let (bytes, left) := fillFormat fuel rest args
      (b :: bytes, left)
    | none, none =>
      let (bytes, left) := fillFormat fuel rest args
      (92 :: charBytes c ++ bytes, left)
  | fuel + 1, c :: rest, args =>
    let (bytes, left) := fillFormat fuel rest args
    (charBytes c ++ bytes, left)
  | _, _, args => ([], args)

/-- A format filled again and again, until no arguments are left or none is taken. -/
def fillAll : (rounds : Nat) → (format : List Char) → List String → List UInt8
  | 0, _, _ => []
  | rounds + 1, format, args =>
    let (bytes, left) := fillFormat format.length format args
    if left = [] ∨ left.length = args.length then bytes else bytes ++ fillAll rounds format left

/-- The arguments printed by a format. -/
def printf (args : List String) : Reply :=
  match args with
  | [] => .complaint 2 "printf: usage: printf format [arg ...]"
  | format :: args => { out := ⟨(fillAll (args.length + 1) format.toList args).toArray⟩ }

/-! ### Files -/

/-- The reason why a file cannot be used, as the utilities word it. -/
def reason : FileError → String
  | .notFound => "No such file or directory"
  | .permissionDenied => "Permission denied"
  | .alreadyExists => "File exists"
  | .notDirectory => "Not a directory"
  | .isDirectory => "Is a directory"
  | .tooManyLinks => "Too many levels of symbolic links"
  | e => e.message

/-- The contents of files. -/
def cat (d : Disk) (args : List String) : Reply :=
  match args.find? fun a => "--".toList.isPrefixOf a.toList with
  | some a => { status := 1
                err := ("cat: unrecognized option '" ++ a ++
                  "'\nTry 'cat --help' for more information.\n").toUTF8 }
  | none => .joined <| (args.filter (· != "-")).map fun a =>
    match d.readBytes ⟨a⟩ with
    | .ok content => { out := content }
    | .error e => .complaint 1 s!"cat: {a}: {reason e}"

/-- Whether a text has `word` in it. -/
def holds (word : List Char) : List Char → Bool
  | [] => word.isEmpty
  | c :: cs => word.isPrefixOf (c :: cs) || holds word cs

/-- The lines of a text; no empty line follows the last newline. -/
def textLines (cs : List Char) : List (List Char) :=
  match (cs.splitOn '\n').reverse with
  | [] :: lines => lines.reverse
  | lines => lines.reverse

/-- The lines of files that have a text in them, unless `quiet`; the status tells whether there are
any. -/
def grep (d : Disk) (args : List String) : Reply :=
  let quiet := args.contains "-q"
  match args.filter fun a => ["-q", "-F", "-s", "-e", "--"].all (· != a) with
  | [] => .complaint 2 "Usage: grep [OPTION]... PATTERNS [FILE]..."
  | word :: files =>
    let replies := files.map fun f =>
      match d.readBytes ⟨f⟩ with
      | .error e => ((Reply.complaint 2 s!"grep: {f}: {reason e}"), false)
      | .ok content =>
        let found := (textLines (Text.ofBytesLossy content).toList).filter (holds word.toList)
        let label := if files.length ≤ 1 then "" else f ++ ":"
        let lines := found.map fun line => label ++ String.ofList line ++ "\n"
        ({ out := if quiet then .empty else (String.join lines).toUTF8 }, !found.isEmpty)
    let all := Reply.joined (replies.map (·.1))
    let found := replies.any (·.2)
    { all with status := if found && (quiet || all.status == 0) then 0
                         else if all.status = 0 then 1 else all.status }

/-- The status of a test. -/
def test (d : Disk) (args : List String) : Reply :=
  let answer := match args with
    | ["-f", a] => d.isFile ⟨a⟩
    | ["-d", a] => d.isDir ⟨a⟩
    | ["-e", a] => d.contains ⟨a⟩
    | ["-n", a] => a != ""
    | ["-z", a] => a == ""
    | [a, "=", b] => a == b
    | [a, "!=", b] => a != b
    | [a] => a != ""
    | _ => false
  { status := if answer then 0 else 1 }

/-- The utility with the given name. -/
def utility? (d : Disk) (args : List String) : (name : String) → Option Reply
  | "true" | ":" => some {}
  | "false" => some { status := 1 }
  | "echo" => some (echo args)
  | "printf" => some (printf args)
  | "cat" => some (cat d args)
  | "grep" => some (grep d args)
  | "test" => some (test d args)
  | "[" => some (test d (if args.getLast? = some "]" then args.dropLast else args))
  | "sleep" => some {}
  | _ => none

end SheetGraph.Shell
