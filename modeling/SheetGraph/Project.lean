import SheetGraph.Discovery
import SheetGraph.Settings.File

/-!
# Projects

A `Project` is a directory with its settings.  The paths of the settings are read from that
directory.  A main source of the project lies in the source directory but in no library directory,
and is neither a partial nor excluded.
-/

namespace SheetGraph

/-- What a compilation is asked for. -/
structure CompileOptions where
  /-- The style of the output. -/
  style : OutputStyle := .expanded
  /-- Whether a source map is put into the output. -/
  sourceMap : Bool := false
  /-- More directories in which imports are looked up. -/
  libraryPaths : List Path := []
  deriving DecidableEq

/-- A directory with settings. -/
structure Project where
  settings : Settings
  root : Location
  verbose : Bool := false
  deriving DecidableEq

namespace Project

/-- The location of a path of the settings. -/
def resolvePath (p : Project) (path : Path) : Location :=
  path.locateFrom p.root

/-- The directory of the sources. -/
def sourceDir (p : Project) : Location :=
  p.resolvePath p.settings.project.source

/-- The directory of the outputs. -/
def targetDir (p : Project) : Location :=
  p.resolvePath p.settings.project.target

/-- The library directories, in order. -/
def libraryDirs (p : Project) : List Location :=
  p.settings.project.libraryPaths.map p.resolvePath

/-- The first library directory that is not there, and its number, counted from `index`. -/
def missingLibrary? (d : Disk) (index : Nat) : List Location → Option (Nat × Location)
  | [] => none
  | l :: ls => if d.isDir l.path then missingLibrary? d (index + 1) ls else some (index, l)

/-- Whether the source directory and the library directories are there. -/
def verifyPaths (p : Project) (d : Disk) : Except ConfigError Unit :=
  if !d.isDir p.sourceDir.path then .error (.missingPath "project.source" p.sourceDir.path)
  else match missingLibrary? d 0 p.libraryDirs with
    | some (index, l) => .error (.missingPath s!"project.library_paths[{index}]" l.path)
    | none => .ok ()

/-- How the main sources of the project are searched for. -/
def finderOptions (p : Project) : Except DiscoveryError FinderOptions :=
  match compileExcludes p.settings.project.excludes with
  | .error e => .error e
  | .ok excludes => .ok {
      recursive := true
      absolute := true
      excludes := excludes
      excludedDirs := p.libraryDirs
      hashSuffix := p.settings.output.hashSuffix }

/-- What the compilations of the project are asked for. -/
def compileOptions (p : Project) : CompileOptions where
  style := p.settings.output.style
  sourceMap := p.settings.output.sourceMap
  libraryPaths := p.libraryDirs.map Location.path

/-- **Whether the location is one of a main source.** -/
def isMainSource (p : Project) (options : FinderOptions) (l : Location) : Bool :=
  match p.sourceDir.from? l with
  | none => false
  | some names =>
    if options.excludedDirs.any l.isWithin then false
    else if !l.isStylesheet || l.isPartial then false
    else match isAllowed (Path.ofNames names) options.excludes with
      | .ok allowed => allowed
      | .error _ => false

/-- The output for a source, if it lies in the source directory. -/
def destinationFor (p : Project) (source : Location) : Except DiscoveryError (Option Path) :=
  match relativeFrom? source [p.sourceDir] with
  | none => .ok none
  | some relative =>
    some <$> destination relative (some p.targetDir.path) p.settings.output.hashSuffix

end Project

end SheetGraph
