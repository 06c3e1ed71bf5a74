/-!
# Shell scripts

The scripts with which small compilers are written: commands in sequence, conditions, loops over
words, redirections of the two output streams, and words with quotes and parameters.
-/

namespace SheetGraph.Shell

/-- A piece of a word; what is not quoted may still be cut at blanks. -/
inductive Piece where
  | text (cs : List Char) (quoted : Bool)
  | parameter (name : List Char) (quoted : Bool)
  deriving DecidableEq

/-- A word of a command. -/
abbrev Word := List Piece

/-- One of the two output streams. -/
inductive Stream where
  | out
  | err
  deriving DecidableEq

/-- A redirection of one stream to where another goes at that point, or to nowhere. -/
structure Redirection where
  stream : Stream
  target : Option Stream
  deriving DecidableEq

/-- A script. -/
inductive Script where
  | nothing
  | run (words : List Word)
  | assign (name : List Char) (value : Word)
  | both (first second : Script)
  | andThen (first second : Script)
  | orElse (first second : Script)
  | negated (body : Script)
  | choice (test yes no : Script)
  | each (name : List Char) (items : Option (List Word)) (body : Script)
  | redirected (body : Script) (redirections : List Redirection)

end SheetGraph.Shell
