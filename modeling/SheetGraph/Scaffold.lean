import SheetGraph.Settings.File

/-!
# New projects

`scaffold` lays out a new project: a settings file, a directory of sources with a main stylesheet
and a partial, and an empty directory for outputs.  A directory that holds a settings file is left
as it is, and so is every stylesheet that is there already.
-/

namespace SheetGraph

/-- Why a project could not be laid out. -/
inductive ScaffoldError where
  | alreadyInitialized (file : Path)
  | createDir (dir : Path) (cause : FileError)
  | writeFile (file : Path) (cause : FileError)
  deriving DecidableEq

namespace ScaffoldError

/-- The wording of the error. -/
def message : ScaffoldError → String
  | alreadyInitialized file => s!"Project already initialized: {file} exists"
  | createDir dir cause => s!"Failed to create directory '{dir}': {cause}"
  | writeFile file cause => s!"Failed to write file '{file}': {cause}"

instance : ToString ScaffoldError := ⟨message⟩

end ScaffoldError

namespace Scaffold

/-- The settings of a new project, which are the defaults. -/
def settingsText (name : String) : String :=
  "\n".intercalate
    ["# stylegraph settings for " ++ name,
      "",
      "[project]",
      "source = \"scss\"",
      "target = \"css\"",
      "library_paths = []",
      "excludes = []",
      "",
      "[output]",
      "style = \"expanded\"",
      "source_map = false",
      "",
      "[compiler]",
      "program = \"sass\"",
      "",
      "[watch]",
      "debounce_ms = 200",
      "clear_screen = false",
      ""]

/-- The main stylesheet of a new project. -/
def mainText (name : String) : String :=
  "\n".intercalate
    ["// " ++ name,
      "@import \"variables\";",
      "",
      "body \x7b",
      "  color: $text-color;",
      "  font-family: $font-stack;",
      "\x7d",
      ""]

/-- The partial that the main stylesheet imports. -/
def variablesText : String :=
  "\n".intercalate
    ["$text-color: #222;",
      "$font-stack: system-ui, sans-serif;",
      ""]

/-- The settings file that keeps a directory from being laid out. -/
def existing? (d : Disk) (path : Path) : Option Path :=
  (settingsFileNames.map path.child).find? d.contains

/-- Directories made one after the other, each with those above it. -/
def makeDirs (d : Disk) : List Path → Disk × Except ScaffoldError Unit
  | [] => (d, .ok ())
  | dir :: dirs =>
    match d.createDirAll dir with
    | (d, .error e) => (d, .error (.createDir dir e))
    | (d, .ok ()) => makeDirs d dirs

/-- A file that is laid out. -/
structure Item where
  file : Path
  content : String
  replaces : Bool := false

/-- Files written one after the other, and their paths; what is there stays unless it is to be
replaced. -/
def writeItems (d : Disk) : List Item → Disk × Except ScaffoldError (List Path)
  | [] => (d, .ok [])
  | item :: items =>
    if !item.replaces && d.contains item.file then writeItems d items
    else match d.write item.file item.content.toUTF8 with
      | .error e => (d, .error (.writeFile item.file e))
      | .ok d =>
        let (d, written) := writeItems d items
        (d, (item.file :: ·) <$> written)

/-- The directories of a project. -/
def dirs (path : Path) : List Path :=
  [path, path.child "scss", path.child "css"]

/-- The files of a project. -/
def items (path : Path) (name : String) : List Item :=
  [{ file := path.child "stylegraph.toml", content := settingsText name, replaces := true },
    { file := path.child "scss/main.scss", content := mainText name },
    { file := path.child "scss/_variables.scss", content := variablesText },
    { file := path.child "css/.gitkeep", content := "" }]

end Scaffold

open Scaffold in
/-- **A project laid out** in a directory: the files that were written, in their order. -/
def scaffold (d : Disk) (path : Path) (name : String) :
    Disk × Except ScaffoldError (List Path) :=
  match existing? d path with
  | some file => (d, .error (.alreadyInitialized file))
  | none =>
    match makeDirs d (dirs path) with
    | (d, .error e) => (d, .error e)
    | (d, .ok ()) => writeItems d (items path name)

end SheetGraph
