import SheetGraph.Stylesheet.Comment
import SheetGraph.Stylesheet.ImportError
import SheetGraph.Stylesheet.Kind

/-!
# Import directives

`imports mode text` are the targets of the `@import` directives of a stylesheet, in the order of
the text.  In the syntax with braces a directive reaches up to the next semicolon; in the indented
syntax it is a line.  Directives that wrap their argument in `url(...)` and remote targets are
left out, since they stand for no file.
-/

namespace SheetGraph

open Text (isBlank isSpaceOrTab trim trimEnd)

/-- The word that opens a directive. -/
def importWord : List Char := "@import".toList

/-! ### The argument of a directive -/

/-- What follows the opening of a `url(`, if the text begins with one; `gap` are the characters
allowed in front of the parenthesis. -/
def afterUrl? (gap : Char → Bool) (cs : List Char) : Option (List Char) :=
  match Text.dropWord? "url".toList cs with
  | none => none
  | some rest =>
    match rest.dropWhile gap with
    | '(' :: inner => some inner
    | _ => none

/-- The text without its trailing blanks and one closing parenthesis before them, as long as
something is left. -/
def closeArgument (cs : List Char) : List Char :=
  match (trimEnd cs).getLast? with
  | some ')' => if (trimEnd cs).dropLast = [] then trimEnd cs else (trimEnd cs).dropLast
  | _ => trimEnd cs

/-- The argument between `@import` and the semicolon; none for a `url(...)`. -/
def bracesArgument (cs : List Char) : Option (List Char) :=
  let body := Text.trimStart cs
  match afterUrl? isBlank body with
  | some (_ :: _) => none
  | _ =>
    match body with
    | '(' :: c :: rest => some (closeArgument (c :: rest))
    | _ => some (closeArgument body)

/-- The arguments of the directives in the syntax with braces: in each part that a semicolon ends,
what follows the first `@import`. -/
def bracesArguments (cs : List Char) : List (List Char) :=
  (cs.splitOn ';').dropLast.filterMap fun part =>
    (Text.afterWord? importWord part).bind bracesArgument

/-- The text without the characters at its end that `p` holds of. -/
def dropEndWhile (p : Char → Bool) (cs : List Char) : List Char :=
  (cs.reverse.dropWhile p).reverse

/-- The text without `c` at its end. -/
def dropEnd (c : Char) (cs : List Char) : List Char :=
  if cs.getLast? = some c then cs.dropLast else cs

/-- The text without what may close a directive on a line: a parenthesis, a semicolon, and blanks
around them. -/
def closeLine (cs : List Char) : List Char :=
  let body := dropEndWhile (fun c => isSpaceOrTab c || c == '\r') cs
  let body := dropEndWhile isSpaceOrTab (dropEnd ';' body)
  dropEndWhile isSpaceOrTab (dropEnd ')' body)

/-- The argument of the directive that a line of the indented syntax is, if it is one. -/
def lineArgument? (line : List Char) : Option (List Char) :=
  match Text.dropWord? importWord (line.dropWhile isSpaceOrTab) with
  | none => none
  | some rest =>
    if (rest.head?.any isSpaceOrTab) = false then none
    else
      let body := rest.dropWhile isSpaceOrTab
      let isUrl := (afterUrl? isSpaceOrTab body).isSome
      let argument := closeLine body
      if isUrl || argument.contains '\r' then none else some argument

/-- The arguments of the directives in the indented syntax. -/
def indentedArguments (cs : List Char) : List (List Char) :=
  (cs.splitOn '\n').filterMap lineArgument?

/-! ### Targets -/

/-- A single or a double quote. -/
def isQuote (c : Char) : Bool :=
  c == '"' || c == '\''

/-- The text between matching quotes, or the text itself if it has none at its ends. -/
def stripQuotes (cs : List Char) : Except ImportError (List Char) :=
  let first := cs.head?.any isQuote
  let last := cs.getLast?.any isQuote
  if first = false ∧ last = false then .ok cs
  else if 2 ≤ cs.length ∧ first ∧ cs.head? = cs.getLast? then .ok (cs.drop 1).dropLast
  else .error (.badlyQuoted (String.ofList cs) none)

/-- Whether a target is the address of something on another machine. -/
def isRemote (cs : List Char) : Bool :=
  "//".toList.isPrefixOf cs || "http://".toList.isPrefixOf cs || "https://".toList.isPrefixOf cs

/-- The target that one piece of an argument names, if it names one. -/
def targetOf (piece : List Char) : Except ImportError (Option String) :=
  let fragment := trim piece
  if fragment.isEmpty || (Text.dropWord? "url(".toList fragment).isSome then .ok none
  else match stripQuotes fragment with
    | .error e => .error e
    | .ok inner =>
      let target := trim inner
      if target.isEmpty || isRemote target then .ok none else .ok (some (String.ofList target))

/-- The targets that an argument lists, between commas. -/
def targetsOf (argument : List Char) : Except ImportError (List String) :=
  match (argument.splitOn ',').mapM targetOf with
  | .error e => .error e
  | .ok targets => .ok (targets.filterMap id)

/-- The arguments of the directives of a text without comments. -/
def directiveArguments : SyntaxMode → List Char → List (List Char)
  | .braces => bracesArguments
  | .indented => indentedArguments

/-- **The targets that a stylesheet imports**, in the order of the text. -/
def imports (mode : SyntaxMode) (text : List Char) : Except ImportError (List String) :=
  match (directiveArguments mode (removeComments text)).mapM targetsOf with
  | .error e => .error e
  | .ok targets => .ok targets.flatten

end SheetGraph
