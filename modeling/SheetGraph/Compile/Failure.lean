import SheetGraph.Path.Basic
import SheetGraph.Text.Blank
import SheetGraph.Text.DecimalDigit
import SheetGraph.Text.Line

/-!
# Failures of a compilation

A `CompileError` says what went wrong in which file, and where in it if that is known.
`CompileError.ofReport` reads one out of the report of a Sass compiler: the message is its first
line, and the place is that of the first trailer line, a file name with a line and a column.
-/

namespace SheetGraph

open Text (isBlank isDecimalDigit)

/-- What went wrong in a compilation. -/
structure CompileError where
  file : Path
  line : Option Nat := none
  column : Option Nat := none
  message : String
  deriving DecidableEq

namespace CompileError

/-- The place in the file, as it follows the name of the file. -/
def place (e : CompileError) : String :=
  match e.line, e.column with
  | none, _ => ""
  | some line, none => s!":{line}"
  | some line, some column => s!":{line}:{column}"

/-- The wording of the error. -/
def display (e : CompileError) : String :=
  let file := e.file
  let place := e.place
  let message := e.message
  s!"Error in {file}{place}: {message}"

instance : ToString CompileError := ⟨display⟩

/-! ### Reports of a compiler -/

/-- A digit run at the start of a text, and the rest. -/
def digitRun? (cs : List Char) : Option (List Char × List Char) :=
  match cs.takeWhile isDecimalDigit with
  | [] => none
  | digits => some (digits, cs.dropWhile isDecimalDigit)

/-- Whether a word is the name of a stylesheet with something in front of the dot. -/
def isSheetName (word : List Char) : Bool :=
  [".scss", ".sass", ".css"].any fun ending =>
    ending.toList.isSuffixOf word && ending.toList.length < word.length

/-- The trailer that a text begins with: blanks, the name of a stylesheet, blanks, and two numbers
with a colon between them and a blank behind. -/
def trailer? (cs : List Char) : Option (List Char × List Char × List Char) :=
  if (cs.head?.any isBlank) = false then none
  else
    let body := cs.dropWhile isBlank
    let word := body.takeWhile fun c => !isBlank c
    let rest := body.dropWhile fun c => !isBlank c
    if isSheetName word = false then none
    else match digitRun? (rest.dropWhile isBlank) with
      | some (line, ':' :: rest) =>
        match digitRun? rest with
        | some (column, c :: _) => if isBlank c then some (word, line, column) else none
        | _ => none
      | _ => none

/-- The first trailer at the start of a line; `fresh` tells whether the text is at one. -/
def firstTrailer? (fresh : Bool) : List Char → Option (List Char × List Char × List Char)
  | [] => none
  | c :: cs =>
    match if fresh then trailer? (c :: cs) else none with
    | some found => some found
    | none => firstTrailer? (c == '\n') cs

/-- The message of a report: its first line that is not blank, without the word `Error:`. -/
def reportMessage (report : List Char) : String :=
  match ((Text.lines report).map Text.trim).find? (!·.isEmpty) with
  | none => "compiler exited with an error"
  | some line =>
    let word := "Error:".toList
    String.ofList (Text.trim (if word.isPrefixOf line then line.drop word.length else line))

/-- **The error that the report of a compiler tells about.**  Numbers that do not fit into 64 bits
and numbers in digits of other scripts tell no place. -/
def ofReport (source : Path) (report : List Char) : CompileError :=
  let message := reportMessage report
  match firstTrailer? true report with
  | some (file, line, column) =>
    match Text.readNat64? line, Text.readNat64? column with
    | some line, some column =>
      { file := Path.ofChars file, line := some line, column := some column, message := message }
    | _, _ => { file := source, message := message }
  | none => { file := source, message := message }

end CompileError

end SheetGraph
