import SheetGraph.FileTree.Disk
import SheetGraph.Json.Reader
import SheetGraph.Settings.Decoder
import SheetGraph.Toml.Reader

/-!
# Settings files

A project keeps its settings in `stylegraph.toml` or `stylegraph.json`.  `findSettings?` looks for
one in a directory and in those above it, `loadSettings` reads one and refuses settings with
faults.
-/

namespace SheetGraph

/-- Why a project cannot be set up from its settings. -/
inductive ConfigError where
  /-- The file cannot be read. -/
  | unreadable (cause : FileError)
  /-- The file is no TOML, or its values are no settings. -/
  | badToml
  /-- The file is no JSON, or its values are no settings. -/
  | badJson
  /-- The name of the file does not tell its format. -/
  | unknownFormat (path : Path)
  /-- The settings have faults. -/
  | invalid (faults : List SettingsFault)
  /-- A directory of the settings is not there. -/
  | missingPath (field : String) (path : Path)
  deriving DecidableEq

namespace ConfigError

/-- The wording of the error. -/
def message : ConfigError → String
  | unreadable cause => s!"Failed to read settings: {cause}"
  | badToml => "Failed to parse stylegraph.toml: not the settings of a project"
  | badJson => "Failed to parse stylegraph.json: not the settings of a project"
  | unknownFormat path => s!"Unsupported settings format: {path}"
  | invalid faults =>
    "Settings validation failed:\n" ++ "\n".intercalate (faults.map fun f => "  - " ++ f.message)
  | missingPath field path => s!"{field} does not exist: {path}"

instance : ToString ConfigError := ⟨message⟩

end ConfigError

/-- The names of settings files; of two in one directory the first is taken. -/
def settingsFileNames : List String :=
  ["stylegraph.toml", "stylegraph.json"]

/-- The settings file in `dir` or in one of the `steps - 1` paths in front of it. -/
def settingsFileFrom? (d : Disk) : (steps : Nat) → (dir : Path) → Option Path
  | 0, _ => none
  | steps + 1, dir =>
    match (settingsFileNames.map dir.child).find? d.isFile with
    | some file => some file
    | none => dir.parent?.bind (settingsFileFrom? d steps)

/-- The settings file nearest to a directory, in it or in a path in front of it. -/
def findSettingsFrom? (d : Disk) (dir : Path) : Option Path :=
  settingsFileFrom? d (dir.chars.length + 2) dir

/-- The settings file nearest to the working directory. -/
def findSettings? (d : Disk) : Option Path :=
  findSettingsFrom? d d.cwd.path

/-- The settings that a text of a format writes. -/
def parseSettings (format : DataFormat) (text : String) : Except ConfigError Settings :=
  match format with
  | .toml =>
    match (Toml.read? text.toList).bind (Settings.decode? .toml) with
    | some s => .ok s
    | none => .error .badToml
  | .json =>
    match (Json.read? text.toList).bind (Settings.decode? .json) with
    | some s => .ok s
    | none => .error .badJson

/-- The format that the extension of a settings file tells. -/
def formatOf? (file : Path) : Option DataFormat :=
  match file.extension? with
  | some ext =>
    if ext = "toml".toList then some .toml
    else if ext = "json".toList then some .json
    else none
  | none => none

/-- The settings, if they have no faults. -/
def checkSettings (s : Settings) : Except ConfigError Settings :=
  if s.isValid then .ok s else .error (.invalid s.faults)

/-- The settings in a file. -/
def loadSettingsFile (d : Disk) (file : Path) : Except ConfigError Settings :=
  match d.readText file with
  | .error e => .error (.unreadable e)
  | .ok text =>
    match formatOf? file with
    | none => .error (.unknownFormat file)
    | some format =>
      match parseSettings format text with
      | .error e => .error e
      | .ok s => checkSettings s

/-- **The settings in the given file**, or in the nearest one, or those of a project that has no
such file. -/
def loadSettings (d : Disk) (file? : Option Path) : Except ConfigError Settings :=
  match file? <|> findSettings? d with
  | some file => loadSettingsFile d file
  | none => .ok {}

/-- The directory of a settings file. -/
def projectRoot? (file : Path) : Option Path :=
  file.parent?

end SheetGraph
