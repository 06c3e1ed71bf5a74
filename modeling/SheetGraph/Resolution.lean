import SheetGraph.FileTree.Disk
import SheetGraph.Stylesheet.ImportError
import SheetGraph.Stylesheet.Kind

/-!
# Resolution of imports

A target names a file without saying its extension, or whether it is a partial.  `candidatePaths`
are the paths it may stand for.  They are looked up in the directory of the importing file first
and then in each library directory; the first directory that holds any of them decides, and it must
hold exactly one.
-/

namespace SheetGraph

/-- A target up to its last slash, and the name behind it. -/
def splitTarget (target : List Char) : List Char × List Char :=
  ((target.reverse.dropWhile (· != '/')).reverse, (target.reverse.takeWhile (· != '/')).reverse)

/-- The paths that a target may stand for, in order of preference: the name with and without an
underscore in front, under each source extension unless it has one. -/
def candidatePaths (target : String) : List Path :=
  let (dir, name) := splitTarget target.toList
  let variants := [dir ++ name, dir ++ '_' :: name]
  if (extension? name).any isSourceExtension then variants.map Path.ofChars
  else sourceExtensions.flatMap fun ext =>
    variants.map fun v => Path.ofChars (v ++ '.' :: ext.toList)

/-- What the candidates for a target come to in one directory. -/
inductive CandidateMatch where
  | none
  | one (l : Location)
  | many (ls : List Location)
  deriving DecidableEq

/-- The candidates that are files when they are read from `base`. -/
def existingCandidates (d : Disk) (base : Location) (candidates : List Path) : List Location :=
  (candidates.map (·.locateFrom base)).filter fun l => d.isFile l.path

/-- What candidates come to when they are read from `base`. -/
def matchCandidates (d : Disk) (base : Location) (candidates : List Path) : CandidateMatch :=
  match existingCandidates d base candidates with
  | [] => .none
  | [l] => .one l
  | ls => .many ls

/-- A directory in which targets are looked up, with the path that an error shows for it. -/
structure SearchBase where
  directory : Location
  shown : Path

/-- A directory that is shown by its own path. -/
def SearchBase.of (l : Location) : SearchBase :=
  ⟨l, l.path⟩

/-- Where the targets of a source are looked up first: the directory that holds it.  No directory
holds the root, and its targets are read from the working directory, shown by an empty path. -/
def Disk.baseOf (d : Disk) (source : Location) : SearchBase :=
  if source = .root then ⟨d.cwd, ⟨""⟩⟩ else .of source.parent

/-- The directories in which the targets of a source are looked up, in order. -/
def Disk.searchBases (d : Disk) (source : Location) (libraries : List Location) :
    List SearchBase :=
  d.baseOf source :: libraries.map .of

/-- The file for a target, looked up in one base directory after the other. -/
def resolveTarget (d : Disk) (source : Location) (target : String) :
    List SearchBase → Except ImportError Location
  | [] => .error (.unresolvable target source.path)
  | base :: bases =>
    match matchCandidates d base.directory (candidatePaths target) with
    | .none => resolveTarget d source target bases
    | .one l => .ok l
    | .many ls => .error (.ambiguous target source.path base.shown (ls.map Location.path))

/-- **The files for all targets of a source**, or the first failure. -/
def resolve (d : Disk) (source : Location) (targets : List String) (libraries : List Location) :
    Except ImportError (List Location) :=
  targets.mapM fun target => resolveTarget d source target (d.searchBases source libraries)

end SheetGraph
