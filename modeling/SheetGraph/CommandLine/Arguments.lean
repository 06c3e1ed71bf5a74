import SheetGraph.Settings.Basic

/-!
# Arguments of the command line

What a call of the program asks for: one of five commands with its options, a settings file, and
how much is to be told.
-/

namespace SheetGraph.CommandLine

/-- The options that override settings. -/
structure OverrideOptions where
  source : Option Path := none
  target : Option Path := none
  style : Option OutputStyle := none
  sourceMap : Bool := false
  noSourceMap : Bool := false
  libraryPaths : List Path := []
  deriving DecidableEq

/-- The overrides that the options stand for. -/
def OverrideOptions.overrides (o : OverrideOptions) : Overrides where
  source := o.source
  target := o.target
  style := o.style
  sourceMap := if o.sourceMap then some true else if o.noSourceMap then some false else none
  libraryPaths := o.libraryPaths

/-- What the program is to do. -/
inductive Command where
  | compile (overrides : OverrideOptions) (dryRun failFast : Bool) (jobs : Option Nat)
  | watch (overrides : OverrideOptions)
  | inspect (overrides : OverrideOptions) (files : List Path) (direct json : Bool)
  | sources (overrides : OverrideOptions) (json : Bool)
  | init (path : Option Path) (name : Option String)
  deriving DecidableEq

/-- What a call of the program asks for. -/
structure Arguments where
  config : Option Path := none
  verbosity : Nat := 0
  command : Command
  deriving DecidableEq

/-- Why a call asks for nothing that the program does. -/
inductive UsageError where
  /-- An argument that has no place here. -/
  | unknownArgument
  /-- A value that is missing, empty or none of those there are. -/
  | invalidValue
  /-- A value that is no number. -/
  | invalidNumber
  /-- Arguments that do not go together, or one given twice. -/
  | conflict
  /-- A value for an option that takes none. -/
  | unexpectedValue
  /-- A command that there is not. -/
  | unknownCommand
  /-- No command, though there are options. -/
  | missingCommand
  /-- No arguments at all. -/
  | nothing
  /-- Not an error: the program is to tell how it is used. -/
  | helpWanted
  /-- Not an error: the program is to tell its version. -/
  | versionWanted
  deriving DecidableEq

end SheetGraph.CommandLine
