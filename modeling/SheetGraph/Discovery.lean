import SheetGraph.FileTree.Disk
import SheetGraph.Glob.Basic
import SheetGraph.Stylesheet.Kind

/-!
# Discovery of sources

The main sources of a project are the stylesheets below its source directory that are no partials
and that no exclude pattern matches.  Each one compiles to a file of the same relative path in the
target directory.  Real directories are searched, links to directories are not, and excluded
directories are left out as a whole.
-/

namespace SheetGraph

/-- Why the sources of a project could not be listed. -/
inductive DiscoveryError where
  /-- An exclude pattern is no glob. -/
  | invalidPattern (pattern : String) (cause : GlobError)
  /-- A path that was to be matched against exclude patterns is absolute. -/
  | absolutePath (path : Path)
  /-- A directory could not be read. -/
  | unreadable (dir : Path) (cause : FileError)
  /-- A suffix for output names holds a slash. -/
  | slashInSuffix (suffix : String)
  deriving DecidableEq

namespace DiscoveryError

/-- The wording of the error. -/
def message : DiscoveryError → String
  | invalidPattern pattern cause =>
    let cause := cause.message
    s!"Invalid exclude pattern '{pattern}': {cause}"
  | absolutePath path => s!"Expected a path relative to the source directory, got '{path}'"
  | unreadable dir cause => s!"IO error reading '{dir}': {cause}"
  | slashInSuffix suffix => s!"extension cannot contain path separators: {suffix}"

instance : ToString DiscoveryError := ⟨message⟩

end DiscoveryError

/-- How sources are searched for. -/
structure FinderOptions where
  /-- Whether subdirectories are searched. -/
  recursive : Bool := true
  /-- Whether sources are given as absolute paths, and not relative to the directory searched. -/
  absolute : Bool := false
  /-- Patterns of relative paths that are left out. -/
  excludes : List Glob := []
  /-- Directories that are not searched. -/
  excludedDirs : List Location := []
  /-- What stands in front of the extension of outputs. -/
  hashSuffix : Option String := none
  deriving DecidableEq

/-- The globs that patterns write. -/
def compileExcludes (patterns : List String) : Except DiscoveryError (List Glob) :=
  patterns.mapM fun p =>
    match Glob.parse p with
    | .ok g => .ok g
    | .error e => .error (.invalidPattern p e)

/-- Whether no exclude pattern matches a relative path. -/
def isAllowed (relative : Path) (excludes : List Glob) : Except DiscoveryError Bool :=
  if relative.isAbsolute then .error (.absolutePath relative)
  else .ok (!excludes.any (·.matchesText relative.text))

/-! ### Outputs -/

/-- The extension of outputs: `css`, behind the suffix if there is one. -/
def outputExtension : Option String → List Char
  | none => "css".toList
  | some suffix => suffix.toList ++ ".css".toList

/-- The output for a source that is given relative to the source directory. -/
def destination (relative : Path) (target? : Option Path) (suffix? : Option String) :
    Except DiscoveryError Path :=
  match suffix?.filter (·.toList.contains '/') with
  | some suffix => .error (.slashInSuffix suffix)
  | none =>
    let output := relative.withExtension (outputExtension suffix?)
    .ok (match target? with
      | some target => target.join output
      | none => output)

/-- The path of a location relative to the first of the directories that holds it. -/
def relativeFrom? (l : Location) (bases : List Location) : Option Path :=
  bases.findSome? fun base => (base.from? l).map Path.ofNames

/-! ### Sources -/

/-- Whether the file at `l` is a main source of the directory `root`. -/
def isListed (root : Location) (options : FinderOptions) (l : Location) :
    Except DiscoveryError Bool :=
  if !l.isStylesheet || l.isPartial then .ok false
  else isAllowed (((root.from? l).map Path.ofNames).getD l.path) options.excludes

/-- The main sources in a directory and the `levels - 1` levels of directories below it. -/
def gatherSources (d : Disk) (root : Location) (options : FinderOptions) :
    (levels : Nat) → Location → Except DiscoveryError (List Location)
  | 0, _ => .ok []
  | levels + 1, dir =>
    match d.readDir dir.path with
    | .error e => .error (.unreadable dir.path e)
    | .ok entries => List.flatten <$> entries.mapM fun (n, e) =>
      let l := dir.entry n
      if e = .directory then
        if options.recursive && !options.excludedDirs.contains l then
          gatherSources d root options levels l
        else .ok []
      else if d.isDir l.path then .ok []
      else (fun listed => if listed then [l] else []) <$> isListed root options l

/-- The main sources below a directory, in order. -/
def sourcesUnder (d : Disk) (root : Location) (options : FinderOptions) :
    Except DiscoveryError (List Location) :=
  gatherSources d root options (d.tree.depth + 1) root

/-- The paths of the main sources below a directory, in order. -/
def compilableSources (d : Disk) (root : Location) (options : FinderOptions) :
    Except DiscoveryError (List Path) :=
  (fun sources =>
    if options.absolute then sources.map Location.path
    else sources.filterMap fun l => (root.from? l).map Path.ofNames)
  <$> sourcesUnder d root options

/-- The main sources below a directory with their outputs.  With a target directory both are below
their directories, without one both are relative. -/
def mirrorSources (d : Disk) (root : Path) (target? : Option Path) (options : FinderOptions) :
    Except DiscoveryError (List (Path × Path)) :=
  match compilableSources d (d.locate root) { options with absolute := false } with
  | .error e => .error e
  | .ok sources => sources.mapM fun relative =>
    (fun output => (if target?.isSome then root.join relative else relative, output))
      <$> destination relative target? options.hashSuffix

end SheetGraph
