/-!
# Glob patterns

A glob is a text with wildcards: `?` for any character, `*` for any run of characters, `[...]` for
a character of a class and `[!...]` for one outside it, and `**` for whole directories.  All of
them match a slash too.  `Glob.parse` reads one; `**` must fill a component of the pattern.
-/

namespace SheetGraph

/-- A part of a character class. -/
inductive CharRange where
  | single (c : Char)
  | span (first last : Char)
  deriving DecidableEq

/-- Whether the part holds the character. -/
def CharRange.holds : CharRange → Char → Bool
  | single a, c => a == c
  | span first last, c => first.toNat ≤ c.toNat && c.toNat ≤ last.toNat

/-- A piece of a glob. -/
inductive GlobToken where
  | char (c : Char)
  | anyChar
  | within (ranges : List CharRange)
  | without (ranges : List CharRange)
  | anyText
  | anyDirectories
  deriving DecidableEq

/-- A pattern with wildcards. -/
structure Glob where
  text : String
  tokens : List GlobToken
  deriving DecidableEq

/-- What is wrong with a pattern. -/
inductive GlobFault where
  | wildcards
  | directories
  | range
  deriving DecidableEq

/-- Why a text is no glob, and at which of its characters. -/
structure GlobError where
  position : Nat
  fault : GlobFault
  deriving DecidableEq

namespace GlobError

/-- The wording of the error. -/
def message (e : GlobError) : String :=
  let fault := match e.fault with
    | .wildcards => "wildcards are either regular `*` or recursive `**`"
    | .directories => "recursive wildcards must form a single path component"
    | .range => "invalid range pattern"
  let position := toString e.position
  s!"Pattern syntax error near position {position}: {fault}"

end GlobError

namespace Glob

/-! ### Reading a pattern -/

/-- The parts of a class: a dash between two characters spans from one to the other. -/
def classRanges : List Char → List CharRange
  | a :: '-' :: b :: rest => .span a b :: classRanges rest
  | a :: rest => .single a :: classRanges rest
  | [] => []

/-- The class behind an opening bracket, and what follows its closing bracket; a closing bracket in
the first place belongs to the class. -/
def readClass? (cs : List Char) : Option (GlobToken × List Char) :=
  match cs with
  | '!' :: first :: rest =>
    match rest.dropWhile (· != ']') with
    | _ :: after => some (.without (classRanges (first :: rest.takeWhile (· != ']'))), after)
    | [] => none
  | '!' :: [] => none
  | first :: rest =>
    match rest.dropWhile (· != ']') with
    | _ :: after => some (.within (classRanges (first :: rest.takeWhile (· != ']'))), after)
    | [] => none
  | [] => none

/-- The pieces of a pattern, of which `position` characters have been read, `last` being the last of
them. -/
def tokensFrom : (fuel position : Nat) → (last : Option Char) → List Char →
    Except GlobError (List GlobToken)
  | 0, _, _, _ => .ok []
  | _, _, _, [] => .ok []
  | fuel + 1, position, _, '?' :: rest =>
    (.anyChar :: ·) <$> tokensFrom fuel (position + 1) (some '?') rest
  | _ + 1, position, _, '*' :: '*' :: '*' :: _ => .error ⟨position + 2, .wildcards⟩
  | fuel + 1, position, last, '*' :: '*' :: rest =>
    if last ≠ none ∧ last ≠ some '/' then .error ⟨position - 1, .directories⟩
    else match rest with
      | [] => .ok [.anyDirectories]
      | '/' :: rest =>
        (.anyDirectories :: ·) <$> tokensFrom fuel (position + 3) (some '/') rest
      | _ => .error ⟨position + 2, .directories⟩
  | fuel + 1, position, _, '*' :: rest =>
    (.anyText :: ·) <$> tokensFrom fuel (position + 1) (some '*') rest
  | fuel + 1, position, _, '[' :: rest =>
    match readClass? rest with
    | none => .error ⟨position, .range⟩
    | some (token, after) =>
      (token :: ·) <$> tokensFrom fuel (position + 1 + rest.length - after.length) (some ']') after
  | fuel + 1, position, _, c :: rest =>
    (.char c :: ·) <$> tokensFrom fuel (position + 1) (some c) rest

/-- The glob that a text writes. -/
def parse (text : String) : Except GlobError Glob :=
  (⟨text, ·⟩) <$> tokensFrom (text.toList.length + 1) 0 none text.toList

/-! ### Matching -/

/-- The ends of a text, the text itself first and the empty one last. -/
def ends : List Char → List (List Char)
  | [] => [[]]
  | c :: cs => (c :: cs) :: ends cs

/-- The ends of a text that follow a slash. -/
def endsAfterSlash : List Char → List (List Char)
  | [] => []
  | c :: cs => if c = '/' then cs :: endsAfterSlash cs else endsAfterSlash cs

/-- The rests of a text that a piece can leave. -/
def rests : GlobToken → List Char → List (List Char)
  | .anyText, cs => ends cs
  | .anyDirectories, cs => cs :: [] :: endsAfterSlash cs
  | _, [] => []
  | .char a, c :: cs => if a = c then [cs] else []
  | .anyChar, _ :: cs => [cs]
  | .within ranges, c :: cs => if ranges.any (·.holds c) then [cs] else []
  | .without ranges, c :: cs => if ranges.any (·.holds c) then [] else [cs]

/-- **Whether the pieces match all of a text.** -/
def accepts (tokens : List GlobToken) (cs : List Char) : Bool :=
  (tokens.foldl (fun left token => (left.flatMap (rests token)).eraseDups) [cs]).contains []

/-- Whether the glob matches a text. -/
def matchesText (g : Glob) (text : String) : Bool :=
  accepts g.tokens text.toList

end Glob

end SheetGraph
