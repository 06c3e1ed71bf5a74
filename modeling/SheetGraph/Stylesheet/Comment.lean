import SheetGraph.Text.Blank
import SheetGraph.Text.Letters

/-!
# Comments of a stylesheet

`removeComments` takes `/* */` and `//` comments out of a text and leaves the newlines of the
former.  Comment marks inside quotes and inside `url(...)` are ordinary text.  The scanner goes
through the text character by character (`CommentScanner.step`), so reading two texts one after
the other is reading the first and going on with the second.
-/

namespace SheetGraph

open Text (trimEnd)

/-- Where the scanner is. -/
inductive ScanMode where
  | text
  | slash
  | quoted (quote : Char)
  | escaped (quote : Char)
  | block (star : Bool)
  | line
  deriving DecidableEq

/-- The scanner between two characters. -/
structure CommentScanner where
  mode : ScanMode
  inUrl : Bool
  kept : List Char
  deriving DecidableEq

namespace CommentScanner

/-- The scanner in front of a text. -/
def start : CommentScanner := ⟨.text, false, []⟩

/-- The scanner with one more character kept. -/
def keep (s : CommentScanner) (c : Char) : CommentScanner :=
  { s with kept := c :: s.kept }

/-- Whether what has been kept ends in `url`, blanks aside. -/
def endsWithUrl (s : CommentScanner) : Bool :=
  (Text.dropWord? ['l', 'r', 'u'] (s.kept.dropWhile Text.isBlank)).isSome

/-- One character in the text of the sheet. -/
def stepText (s : CommentScanner) (c : Char) : CommentScanner :=
  if c = '"' ∨ c = '\'' then { s.keep c with mode := .quoted c }
  else if c = '(' then { s.keep c with inUrl := s.inUrl || s.endsWithUrl }
  else if c = ')' ∨ c = '\n' then { s.keep c with inUrl := false }
  else if c = '/' ∧ s.inUrl = false then { s with mode := .slash }
  else s.keep c

/-- One character. -/
def step (s : CommentScanner) (c : Char) : CommentScanner :=
  match s.mode with
  | .text => s.stepText c
  | .slash =>
    if c = '*' then { s with mode := .block false }
    else if c = '/' then { s with mode := .line }
    else stepText { s.keep '/' with mode := .text } c
  | .quoted q =>
    if c = '\\' then { s.keep c with mode := .escaped q }
    else if c = q ∨ c = '\n' then { s.keep c with mode := .text }
    else s.keep c
  | .escaped q => { s.keep c with mode := .quoted q }
  | .block star =>
    if star = true ∧ c = '/' then { s with mode := .text }
    else if c = '\n' then { s.keep c with mode := .block false }
    else { s with mode := .block (c == '*') }
  | .line => if c = '\n' then stepText { s with mode := .text } c else s

/-- The scanner after a text. -/
def scan (s : CommentScanner) (cs : List Char) : CommentScanner :=
  cs.foldl step s

/-- What has been kept, at the end of the text. -/
def finish (s : CommentScanner) : List Char :=
  match s.mode with
  | .slash => ('/' :: s.kept).reverse
  | _ => s.kept.reverse

/-- **Scanning goes on where it stopped.** -/
theorem scan_append (s : CommentScanner) (a b : List Char) :
    s.scan (a ++ b) = (s.scan a).scan b := by
  simp [scan]

end CommentScanner

/-- The text without its comments. -/
def removeComments (cs : List Char) : List Char :=
  (CommentScanner.start.scan cs).finish

end SheetGraph
