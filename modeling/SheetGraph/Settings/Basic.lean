import SheetGraph.Path.Basic
import SheetGraph.Text.Blank

/-!
# Settings of a project

What a project can choose: where its sources and outputs are, how the outputs look, which compiler
makes them and how edits are watched for.  `Settings.faults` lists what is wrong with a choice, and
`Settings.override` puts choices from elsewhere in the place of the settings.
-/

namespace SheetGraph

/-- How an output looks. -/
inductive OutputStyle where
  | nested
  | expanded
  | compact
  | compressed
  deriving DecidableEq

namespace OutputStyle

/-- All styles. -/
def all : List OutputStyle := [nested, expanded, compact, compressed]

/-- The name of the style. -/
def name : OutputStyle → String
  | nested => "nested"
  | expanded => "expanded"
  | compact => "compact"
  | compressed => "compressed"

/-- The style with the name. -/
def ofName? (s : String) : Option OutputStyle :=
  all.find? fun style => style.name == s

/-- The style a compiler is asked for, which knows but two. -/
def compilerName : OutputStyle → String
  | nested | expanded => "expanded"
  | compact | compressed => "compressed"

end OutputStyle

/-- Where sources and outputs are. -/
structure ProjectSettings where
  /-- The directory of the sources. -/
  source : Path := ⟨"scss"⟩
  /-- The directory of the outputs. -/
  target : Path := ⟨"css"⟩
  /-- More directories in which imports are looked up, in order. -/
  libraryPaths : List Path := []
  /-- Patterns of sources that are not compiled. -/
  excludes : List String := []
  deriving DecidableEq

/-- How outputs look. -/
structure OutputSettings where
  style : OutputStyle := .expanded
  sourceMap : Bool := false
  hashSuffix : Option String := none
  deriving DecidableEq

/-- The compiler that is run. -/
structure CompilerSettings where
  program : String := "sass"
  args : List String := []
  deriving DecidableEq

/-- How edits are watched for. -/
structure WatchSettings where
  /-- How long edits are gathered, in milliseconds. -/
  debounceMs : Nat := 200
  /-- Whether the screen is cleared for each build. -/
  clearScreen : Bool := false
  deriving DecidableEq

/-- The settings of a project. -/
structure Settings where
  project : ProjectSettings := {}
  output : OutputSettings := {}
  compiler : CompilerSettings := {}
  watch : WatchSettings := {}
  deriving DecidableEq

/-! ### Faults -/

/-- What can be wrong with settings. -/
inductive SettingsFault where
  | emptySource
  | emptyTarget
  | sameDirectories
  | emptyLibrary (index : Nat)
  | badSuffix
  | noProgram
  | noDebounce
  deriving DecidableEq

namespace SettingsFault

/-- The field at fault. -/
def field : SettingsFault → String
  | emptySource => "project.source"
  | emptyTarget | sameDirectories => "project.target"
  | emptyLibrary index => s!"project.library_paths[{index}]"
  | badSuffix => "output.hash_suffix"
  | noProgram => "compiler.program"
  | noDebounce => "watch.debounce_ms"

/-- What the field has to be. -/
def demand : SettingsFault → String
  | emptySource | emptyTarget | emptyLibrary _ => "must be a non-empty path"
  | sameDirectories => "must differ from project.source"
  | badSuffix => "must be non-empty and contain no path separators"
  | noProgram => "must name an executable"
  | noDebounce => "must be a positive integer"

/-- The wording of the fault. -/
def message (f : SettingsFault) : String :=
  let field := f.field
  let demand := f.demand
  s!"settings: '{field}' {demand}"

end SettingsFault

/-- Whether a text can stand in front of the extension of outputs. -/
def isSuffix (s : String) : Bool :=
  !s.toList.isEmpty && !s.toList.contains '/' && !s.toList.contains '\\'

namespace Settings

/-- The faults of the two directories. -/
def directoryFaults (p : ProjectSettings) : List SettingsFault :=
  (if p.source.isEmpty then [.emptySource] else []) ++
    (if p.target.isEmpty then [.emptyTarget]
      else if p.target.same p.source then [.sameDirectories] else [])

/-- The faults of the library directories, of which the first has the number `index`. -/
def libraryFaults (index : Nat) : List Path → List SettingsFault
  | [] => []
  | p :: ps => (if p.isEmpty then [.emptyLibrary index] else []) ++ libraryFaults (index + 1) ps

/-- **What is wrong with the settings.** -/
def faults (s : Settings) : List SettingsFault :=
  directoryFaults s.project ++ libraryFaults 0 s.project.libraryPaths ++
    (if s.output.hashSuffix.all isSuffix then [] else [.badSuffix]) ++
    (if (Text.trim s.compiler.program.toList).isEmpty then [.noProgram] else []) ++
    (if s.watch.debounceMs = 0 then [.noDebounce] else [])

/-- Whether nothing is wrong with the settings. -/
def isValid (s : Settings) : Bool :=
  s.faults.isEmpty

end Settings

/-! ### Overrides -/

/-- Choices that are put in the place of settings. -/
structure Overrides where
  source : Option Path := none
  target : Option Path := none
  style : Option OutputStyle := none
  sourceMap : Option Bool := none
  libraryPaths : List Path := []
  deriving DecidableEq

/-- The paths with those of `more` behind them that are not the same as one before. -/
def appendPaths (known : List Path) : (more : List Path) → List Path
  | [] => known
  | p :: more => appendPaths (if known.any p.same then known else known ++ [p]) more

/-- The settings with the overrides in their place. -/
def Settings.override (s : Settings) (o : Overrides) : Settings :=
  { s with
    project := { s.project with
      source := o.source.getD s.project.source
      target := o.target.getD s.project.target
      libraryPaths := appendPaths s.project.libraryPaths o.libraryPaths }
    output := { s.output with
      style := o.style.getD s.output.style
      sourceMap := o.sourceMap.getD s.output.sourceMap } }

end SheetGraph
