import SheetGraph.Build.Pipeline
import SheetGraph.Graph.Index

/-!
# Rebuilding what an edit affects

A `WatchHandler` keeps the import graph of a project.  For a batch of edited files it indexes the
project anew and compiles the main sources among the files and those that import them; for a removed
file, the main sources that imported it before.  When indexing fails nothing is compiled and the
graph stays as it was.
-/

namespace SheetGraph

/-- Why a project cannot be watched. -/
inductive WatchError where
  | unwatchable (path : Path)
  | sourceNotFound (path : Path)
  | index (e : ImportError)
  | discovery (e : DiscoveryError)
  | build (e : BuildError)
  deriving DecidableEq

namespace WatchError

/-- The wording of the error. -/
def message : WatchError → String
  | unwatchable path => s!"Failed to watch '{path}': No path was found."
  | sourceNotFound path => s!"Source directory not found: {path}"
  | index e => s!"Indexing failed: {e}"
  | discovery e => e.message
  | build e => e.message

instance : ToString WatchError := ⟨message⟩

end WatchError

/-- Where an edited file lies. -/
inductive Role where
  | project
  | library
  deriving DecidableEq

/-- An edited file. -/
structure Change where
  file : Location
  role : Role
  previous : Option (List Location)
  deriving DecidableEq

/-- What a batch of edits led to. -/
inductive ChangeOutcome where
  | ignored
  | indexFailed (e : ImportError)
  | rebuilt (result : BuildResult)
  deriving DecidableEq

/-- A project with its import graph. -/
structure WatchHandler where
  pipeline : Pipeline
  options : FinderOptions
  graph : Graph := .empty
  indexError : Option String := none

namespace WatchHandler

/-- The handler for a project, before it is indexed. -/
def ofPipeline (p : Pipeline) : Except WatchError WatchHandler :=
  match p.project.finderOptions with
  | .error e => .error (.discovery e)
  | .ok options => .ok { pipeline := p, options := options }

/-- The project. -/
def project (h : WatchHandler) : Project :=
  h.pipeline.project

/-- **The handler with the import graph of all main sources**; on failure it stays as it is. -/
def index (h : WatchHandler) (d : Disk) : Except WatchError WatchHandler :=
  match sourcesUnder d h.project.sourceDir h.options with
  | .error e => .error (.discovery e)
  | .ok sources =>
    match Graph.empty.inspect d h.project.libraryDirs sources with
    | .error e => .error (.index e)
    | .ok graph => .ok { h with graph := graph, indexError := none }

/-- All main sources built. -/
def buildAll (h : WatchHandler) (c : Compiler) (d : Disk) : Disk × Except WatchError BuildResult :=
  match h.pipeline.build c d with
  | (d, .error e) => (d, .error (.build e))
  | (d, .ok result) => (d, .ok result)

/-- Where a file lies, if it is one of the project. -/
def role? (h : WatchHandler) (l : Location) : Option Role :=
  if h.project.libraryDirs.any l.isWithin then some .library
  else if l.isWithin h.project.sourceDir then some .project
  else none

/-- **Whether edits of a file are of interest**: it is a stylesheet of the project. -/
def isRelevant (h : WatchHandler) (d : Disk) (path : Path) : Bool :=
  path.isStylesheet && (h.role? (d.locate path)).isSome

/-- Whether the file is a main source. -/
def isMain (h : WatchHandler) (l : Location) : Bool :=
  h.project.isMainSource h.options l

/-- The main sources that import a file, behind the file itself if it is one and is asked for. -/
def affectedSources (h : WatchHandler) (l : Location) (includeSelf : Bool) :
    Except ImportError (List Location) :=
  match h.graph.parents l with
  | .error e => .error e
  | .ok parents =>
    .ok (collect (if includeSelf && h.isMain l then [l] else []) (parents.filter h.isMain))

/-- What importing files are remembered of a file that is gone. -/
def previousParents (h : WatchHandler) (l : Location) : List Location :=
  match h.graph.parents l with
  | .ok parents => parents
  | .error _ => []

/-- The edits of a batch that are of interest, each file once, behind those in `known`. -/
def changesOf (h : WatchHandler) (d : Disk) (known : List Change) : List Location → List Change
  | [] => known
  | l :: ls =>
    if !l.isStylesheet || known.any (·.file == l) then changesOf h d known ls
    else match h.role? l with
      | none => changesOf h d known ls
      | some role =>
        let previous := if d.contains l.path then none else some (h.previousParents l)
        changesOf h d (known ++ [⟨l, role, previous⟩]) ls

/-- The main sources that an edit affects. -/
def sourcesFor (h : WatchHandler) (d : Disk) (change : Change) :
    Except ImportError (List Location) :=
  match change.previous with
  | some previous => .ok (previous.filter fun l => d.contains l.path && h.isMain l)
  | none => h.affectedSources change.file (change.role = .project)

/-- The main sources that edits affect, each once, behind those in `known`. -/
def sourcesForAll (h : WatchHandler) (d : Disk) (known : List Location) :
    List Change → Except ImportError (List Location)
  | [] => .ok known
  | change :: changes =>
    match h.sourcesFor d change with
    | .error e => .error e
    | .ok sources => sourcesForAll h d (collect known sources) changes

/-- The handler that has failed to index the project. -/
def indexFailed (h : WatchHandler) (e : ImportError) : WatchHandler :=
  { h with indexError := some e.message }

/-- **A batch of edits handled** with one indexing and one build. -/
def handleChanges (h : WatchHandler) (c : Compiler) (d : Disk) (files : List Location) :
    WatchHandler × Disk × Except WatchError ChangeOutcome :=
  match h.changesOf d [] files with
  | [] => (h, d, .ok .ignored)
  | changes =>
    match h.index d with
    | .error (.index e) => (h.indexFailed e, d, .ok (.indexFailed e))
    | .error e => (h, d, .error e)
    | .ok h =>
      match h.sourcesForAll d [] changes with
      | .error e => (h.indexFailed e, d, .ok (.indexFailed e))
      | .ok sources =>
        match h.pipeline.buildSources c d (sources.map Location.path) with
        | (d, .error e) => (h, d, .error (.build e))
        | (d, .ok result) => (h, d, .ok (.rebuilt result))

/-- The directories that are watched: the source directory, and the library directories that are
not in it, each once. -/
def watchRoots (p : Project) : List Location :=
  collect [p.sourceDir] (p.libraryDirs.filter fun l => !l.isWithin p.sourceDir)

end WatchHandler

end SheetGraph
