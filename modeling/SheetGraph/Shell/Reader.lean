import SheetGraph.Shell.Script

/-!
# Reading shell scripts

`Script.read?` reads a script from its text: tokens first, then the commands that they make up.
-/

namespace SheetGraph.Shell

/-! ### Words -/

/-- Whether the character may be part of the name of a variable. -/
def isNameChar (c : Char) : Bool :=
  c.isAlphanum || c == '_'

/-- The name of the parameter behind a dollar sign, and what follows. -/
def parameterName? : List Char → Option (List Char × List Char)
  | [] => none
  | c :: rest =>
    if c = '\x7b' then
      match rest.dropWhile (· != '\x7d') with
      | _ :: after => some (rest.takeWhile (· != '\x7d'), after)
      | [] => none
    else if c.isDigit || ['@', '*', '#', '?', '$'].contains c then some ([c], rest)
    else if isNameChar c then
      some (c :: rest.takeWhile isNameChar, rest.dropWhile isNameChar)
    else none

/-- The pieces of a text in double quotes, and what follows. -/
def doubleQuoted? : (fuel : Nat) → List Char → Option (Word × List Char)
  | 0, _ | _, [] => none
  | _ + 1, '"' :: rest => some ([], rest)
  | fuel + 1, '\\' :: c :: rest =>
    let cs := if ['$', '`', '"', '\\'].contains c then [c] else if c = '\n' then [] else ['\\', c]
    (doubleQuoted? fuel rest).map fun (word, rest) => (.text cs true :: word, rest)
  | fuel + 1, c :: rest =>
    match if c = '$' then parameterName? rest else none with
    | some (name, rest) =>
      (doubleQuoted? fuel rest).map fun (word, rest) => (.parameter name true :: word, rest)
    | none => (doubleQuoted? fuel rest).map fun (word, rest) => (.text [c] true :: word, rest)

/-- Whether an unquoted character ends a word. -/
def endsWord (c : Char) : Bool :=
  [' ', '\t', '\n', ';', '&', '|', '<', '>', '(', ')'].contains c

/-- The pieces of the word at the start of a text, and what follows. -/
def word? : (fuel : Nat) → List Char → Option (Word × List Char)
  | 0, _ => none
  | _, [] => some ([], [])
  | fuel + 1, c :: rest =>
    if endsWord c then some ([], c :: rest)
    else if c = '"' then
      match doubleQuoted? fuel rest with
      | none => none
      | some (quoted, rest) =>
        (word? fuel rest).map fun (word, rest) => (.text [] true :: quoted ++ word, rest)
    else if c = '\'' then
      match rest.dropWhile (· != '\'') with
      | [] => none
      | _ :: after =>
        (word? fuel after).map fun (word, rest') =>
          (.text (rest.takeWhile (· != '\'')) true :: word, rest')
    else if c = '\\' then
      match rest with
      | [] => some ([.text ['\\'] true], [])
      | '\n' :: rest => word? fuel rest
      | c :: rest => (word? fuel rest).map fun (word, rest) => (.text [c] true :: word, rest)
    else match if c = '$' then parameterName? rest else none with
      | some (name, rest) =>
        (word? fuel rest).map fun (word, rest) => (.parameter name false :: word, rest)
      | none => (word? fuel rest).map fun (word, rest) => (.text [c] false :: word, rest)

/-! ### Tokens -/

/-- A token of a script. -/
inductive Token where
  | word (w : Word)
  | separator
  | andAlso
  | orElse
  | redirection (r : Redirection)
  deriving DecidableEq

/-- The redirection of a stream behind its arrow, and what follows. -/
def redirection? (stream : Stream) (cs : List Char) : Option (Redirection × List Char) :=
  match cs with
  | '&' :: '1' :: rest => some (⟨stream, some .out⟩, rest)
  | '&' :: '2' :: rest => some (⟨stream, some .err⟩, rest)
  | cs =>
    let cs := cs.dropWhile (· == ' ')
    let nowhere := "/dev/null".toList
    if nowhere.isPrefixOf cs then some (⟨stream, none⟩, cs.drop nowhere.length) else none

/-- The tokens of a text. -/
def tokens? : (fuel : Nat) → List Char → Option (List Token)
  | 0, _ => none
  | _, [] => some []
  | fuel + 1, ' ' :: rest | fuel + 1, '\t' :: rest => tokens? fuel rest
  | fuel + 1, '\n' :: rest | fuel + 1, ';' :: rest => (.separator :: ·) <$> tokens? fuel rest
  | fuel + 1, '#' :: rest => tokens? fuel (rest.dropWhile (· != '\n'))
  | fuel + 1, '&' :: '&' :: rest => (.andAlso :: ·) <$> tokens? fuel rest
  | fuel + 1, '|' :: '|' :: rest => (.orElse :: ·) <$> tokens? fuel rest
  | fuel + 1, cs =>
    let arrow : Option (Redirection × List Char) :=
      match cs with
      | '>' :: rest | '1' :: '>' :: rest => redirection? .out rest
      | '2' :: '>' :: rest => redirection? .err rest
      | _ => none
    match arrow with
    | some (r, rest) => (.redirection r :: ·) <$> tokens? fuel rest
    | none =>
      match word? (cs.length + 1) cs with
      | none | some ([], _) => none
      | some (w, rest) => (.word w :: ·) <$> tokens? fuel rest

/-! ### Commands -/

/-- The characters of a word with nothing to be replaced and without quotes. -/
def bareWord? (w : Word) : Option (List Char) :=
  List.flatten <$> w.mapM fun piece =>
    match piece with
    | .text cs false => some cs
    | _ => none

/-- Whether the token is the word that opens, divides or closes a command. -/
def Token.isWord (s : String) : Token → Bool
  | .word w => bareWord? w == some s.toList
  | _ => false

/-- The tokens behind the given word. -/
def behind? (s : String) : List Token → Option (List Token)
  | t :: rest => if t.isWord s then some rest else none
  | [] => none

/-- The tokens without the separators at their start. -/
def skipSeparators (ts : List Token) : List Token :=
  ts.dropWhile (· == .separator)

/-- Whether the tokens go on with a word that ends a list of commands. -/
def atEnd (ts : List Token) : Bool :=
  match ts with
  | [] => true
  | t :: _ => ["then", "else", "elif", "fi", "do", "done", "\x7d"].any fun s => t.isWord s

/-- The words and the redirections at the start of tokens, and what follows. -/
def spanCommand : List Token → List Word × List Redirection × List Token
  | .word w :: rest =>
    let (words, redirections, rest) := spanCommand rest
    (w :: words, redirections, rest)
  | .redirection r :: rest =>
    let (words, redirections, rest) := spanCommand rest
    (words, r :: redirections, rest)
  | rest => ([], [], rest)

/-- The name and the value of an assignment. -/
def assignment? (w : Word) : Option (List Char × Word) :=
  let name := (w.takeWhile (· != .text ['='] false))
  match bareWord? name, w.dropWhile (· != .text ['='] false) with
  | some cs, _ :: value =>
    if cs ≠ [] ∧ cs.all isNameChar ∧ (cs.head?.any Char.isDigit) = false then some (cs, value)
    else none
  | _, _ => none

/-- A command that is made up of words. -/
def Script.ofWords : List Word → Script
  | [] => .nothing
  | w :: words =>
    match assignment? w with
    | some (name, value) => .both (.assign name value) (ofWords words)
    | none => .run (w :: words)

/-- The script with its redirections, if it has any. -/
def Script.redirectedBy (s : Script) : List Redirection → Script
  | [] => s
  | redirections => .redirected s redirections

/-- The redirections at the start of tokens, and what follows. -/
def spanRedirections : List Token → List Redirection × List Token
  | .redirection r :: rest =>
    let (redirections, rest) := spanRedirections rest
    (r :: redirections, rest)
  | rest => ([], rest)

/-- A script that is closed by its last word, with the redirections behind that. -/
def closing (read : Script × List Token) : Script × List Token :=
  let (redirections, ts) := spanRedirections read.2
  (read.1.redirectedBy redirections, ts)

/-- The words of a loop, if it lists any, and what follows. -/
def loopItems (ts : List Token) : Option (List Word) × List Token :=
  match behind? "in" ts with
  | none => (none, ts)
  | some rest =>
    let (words, _, rest) := spanCommand rest
    (some words, rest)

mutual

/-- The commands at the start of tokens, up to a word that ends their list, and what follows. -/
def commands? : (fuel : Nat) → List Token → Option (Script × List Token)
  | 0, _ => none
  | fuel + 1, ts =>
    let ts := skipSeparators ts
    if atEnd ts then some (.nothing, ts)
    else match chain? fuel ts with
      | none => none
      | some (first, ts) =>
        match ts with
        | .separator :: rest =>
          (commands? fuel rest).map fun (second, ts) => (.both first second, ts)
        | ts => some (first, ts)

/-- Commands that hang on the success or the failure of each other, and what follows. -/
def chain? : (fuel : Nat) → List Token → Option (Script × List Token)
  | 0, _ => none
  | fuel + 1, ts => (command? fuel ts).bind fun (first, ts) => links? fuel first ts

/-- The links behind the first command of a chain, and what follows. -/
def links? : (fuel : Nat) → Script → List Token → Option (Script × List Token)
  | 0, _, _ => none
  | fuel + 1, first, .andAlso :: rest =>
    (command? fuel (skipSeparators rest)).bind fun (second, ts) =>
      links? fuel (.andThen first second) ts
  | fuel + 1, first, .orElse :: rest =>
    (command? fuel (skipSeparators rest)).bind fun (second, ts) =>
      links? fuel (.orElse first second) ts
  | _, first, ts => some (first, ts)

/-- One command, and what follows. -/
def command? : (fuel : Nat) → List Token → Option (Script × List Token)
  | 0, _ => none
  | fuel + 1, ts =>
    match behind? "!" ts, behind? "if" ts, behind? "for" ts, behind? "\x7b" ts with
    | some rest, _, _, _ => (command? fuel rest).map fun (body, ts) => (.negated body, ts)
    | none, some rest, _, _ => (choice? fuel rest).map closing
    | none, none, some rest, _ => (loop? fuel rest).map closing
    | none, none, none, some rest => do
      let (body, ts) ← commands? fuel rest
      return closing (body, ← behind? "\x7d" ts)
    | none, none, none, none =>
      match spanCommand ts with
      | ([], [], _) => none
      | (words, redirections, ts) => some ((Script.ofWords words).redirectedBy redirections, ts)

/-- A condition behind its first word, and what follows. -/
def choice? : (fuel : Nat) → List Token → Option (Script × List Token)
  | 0, _ => none
  | fuel + 1, ts => do
    let (test, ts) ← commands? fuel ts
    let (yes, ts) ← commands? fuel (← behind? "then" ts)
    match behind? "elif" ts, behind? "else" ts with
    | some rest, _ =>
      let (no, ts) ← choice? fuel rest
      return (.choice test yes no, ts)
    | none, some rest =>
      let (no, ts) ← commands? fuel rest
      return (.choice test yes no, ← behind? "fi" ts)
    | none, none => return (.choice test yes .nothing, ← behind? "fi" ts)

/-- A loop behind its first word, and what follows. -/
def loop? : (fuel : Nat) → List Token → Option (Script × List Token)
  | fuel + 1, .word w :: ts => do
    let name ← bareWord? w
    let (items, ts) := loopItems (skipSeparators ts)
    let (body, ts) ← commands? fuel (← behind? "do" (skipSeparators ts))
    return (.each name items body, ← behind? "done" ts)
  | _, _ => none

end

/-- **The script that a text writes**, if it writes one. -/
def Script.read? (cs : List Char) : Option Script := do
  let ts ← tokens? (cs.length + 1) cs
  match ← commands? (4 * ts.length + 4) ts with
  | (script, []) => some script
  | _ => none

end SheetGraph.Shell
