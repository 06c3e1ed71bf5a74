import SheetGraph.Console
import SheetGraph.Watch.Handler
import SheetGraph.Watch.Tracker

/-!
# Watch sessions

A session indexes and builds a project once (`WatchSession.start`) and then again what each batch of
edits affects (`WatchSession.react`).  Both tell what they do, line by line, each line with the time
of day.  How edits are noticed and gathered into batches is left out: a batch is a list of paths.
-/

namespace SheetGraph

/-- The time of day of a number of seconds. -/
def timeOfDay (seconds : Nat) : String :=
  let two := fun n => String.ofList (padded 2 n)
  let seconds := seconds % 86400
  ":".intercalate [two (seconds / 3600), two (seconds / 60 % 60), two (seconds % 60)]

/-- When something is told, and how long a build has taken until then. -/
structure Moment where
  seconds : Nat := 0
  nanos : Nat := 0

namespace Moment

/-- The time in front of a line. -/
def stamp (now : Moment) : String :=
  "[" ++ timeOfDay now.seconds ++ "] "

/-- A line with the time in front of it. -/
def told (now : Moment) (text : String) : Message :=
  .line (now.stamp ++ text)

/-- A complaint with the time in front of it. -/
def complained (now : Moment) (text : String) : Message :=
  .errorLine (now.stamp ++ text)

end Moment

/-- A project that is watched. -/
structure WatchSession where
  handler : WatchHandler
  tracker : ErrorTracker

namespace WatchSession

/-- What clears a screen. -/
def clearScreen (h : WatchHandler) : List Message :=
  if h.project.settings.watch.clearScreen then [.told "\x1b[2J\x1b[1;1H"] else []

/-- The line that tells that the session waits for edits. -/
def waiting (now : Moment) (h : WatchHandler) : Message :=
  let source := h.project.sourceDir
  now.told s!"Watching {source} for changes..."

/-- The complaint about a source that failed. -/
def errorMessage (now : Moment) (e : CompileError) : Message :=
  match e.file.fileName? with
  | none => now.complained e.display
  | some name =>
    let name := String.ofList name.chars
    let place := match e.line with
      | some line => s!"\n          Line {line}: "
      | none => " "
    let message := e.message
    now.complained s!"Error in {name}:{place}{message}"

/-- The line that tells that a source is mended. -/
def mendedMessage? (now : Moment) (source : Path) : Option Message :=
  source.fileName?.map fun name => now.told ("Fixed: " ++ String.ofList name.chars)

/-- What is told about a build and the sources that it has mended. -/
def resultMessages (now : Moment) (b : BuildResult) (mended : List Path) : List Message :=
  let duration := roundedDuration now.nanos
  let compiled := b.compiledCount
  let failed := b.failedCount
  let errors := if failed = 1 then "error" else "errors"
  mended.filterMap (mendedMessage? now) ++
    if b.isSuccess then [now.told s!"Build complete ({duration}) - Compiled: {compiled}"]
    else now.told s!"Build failed ({duration}) - {failed} {errors}" ::
      b.errors.map (errorMessage now)

/-- What is told about the sources of a build before they are compiled. -/
def planMessages (p : Pipeline) (d : Disk) : List Message :=
  match p.project.verbose, p.plan d with
  | true, .ok plan =>
    let total := plan.length
    .line s!"Build plan: {total} sources" ::
      plan.map fun (source, destination) => .line s!"  - {source} -> {destination}"
  | _, _ => []

/-- Why the directories of a project cannot be watched. -/
def obstacle? (h : WatchHandler) (d : Disk) : Option WatchError :=
  let source := h.project.sourceDir
  if !d.isDir source.path then some (.sourceNotFound source.path)
  else ((WatchHandler.watchRoots h.project).find? fun l => !d.contains l.path).map
    fun l => .unwatchable l.path

/-- The first indexing of a project, and what is told about it. -/
def firstIndex (now : Moment) (h : WatchHandler) (d : Disk) :
    List Message × Except WatchError WatchHandler :=
  match h.index d with
  | .ok h =>
    let files := h.graph.order.length
    ([now.told s!"Indexed {files} files"], .ok h)
  | .error (.index e) => ([], .ok (h.indexFailed e))
  | .error e => ([], .error e)

/-- A session up to its first build: what is told, and the handler with its index.  A project that
cannot be indexed is built all the same. -/
def opening (now : Moment) (h : WatchHandler) (d : Disk) :
    List Message × Except WatchError WatchHandler :=
  match obstacle? h d with
  | some e => ([], .error e)
  | none =>
    let messages := clearScreen h ++ [now.told "Indexing..."]
    match firstIndex now h d with
    | (_, .error e) => (messages, .error e)
    | (indexed, .ok h) =>
      (messages ++ indexed ++ now.told "Building..." :: planMessages h.pipeline d, .ok h)

/-- A session behind its first build. -/
def opened (now : Moment) (h : WatchHandler) (messages : List Message) :
    Disk × Except WatchError BuildResult →
      Disk × List Message × Except WatchError WatchSession
  | (d, .error e) => (d, messages, .error e)
  | (d, .ok result) =>
    let (tracker, mended) := ErrorTracker.empty.update result
    (d, messages ++ resultMessages now result mended ++ [waiting now h], .ok ⟨h, tracker⟩)

/-- **A session started**: the project is indexed and built. -/
def start (now : Moment) (h : WatchHandler) (c : Compiler) (d : Disk) :
    Disk × List Message × Except WatchError WatchSession :=
  match opening now h d with
  | (messages, .error e) => (d, messages, .error e)
  | (messages, .ok h) => opened now h messages (h.buildAll c d)

/-- The paths of a batch that are of interest, each once. -/
def relevantPaths (h : WatchHandler) (d : Disk) (known : List Path) : List Path → List Path
  | [] => known
  | p :: ps =>
    relevantPaths h d (if h.isRelevant d p && !known.any p.same then known ++ [p] else known) ps

/-- The line that tells that a file has been edited. -/
def changedMessage? (now : Moment) (p : Path) : Option Message :=
  p.fileName?.map fun name => now.told ("Changed: " ++ String.ofList name.chars)

/-- **A session after a batch of edits**, and what is told about it. -/
def react (s : WatchSession) (now : Moment) (c : Compiler) (d : Disk) (edited : List Path) :
    WatchSession × Disk × List Message :=
  match relevantPaths s.handler d [] edited with
  | [] => (s, d, [])
  | changed =>
    let opening := changed.filterMap (changedMessage? now) ++ clearScreen s.handler
    let (h, d, outcome) := s.handler.handleChanges c d (changed.map d.locate)
    let (tracker, told) : ErrorTracker × List Message :=
      match outcome with
      | .ok (.rebuilt result) =>
        let (tracker, mended) := s.tracker.update result
        (tracker, resultMessages now result mended)
      | .ok (.indexFailed e) => (s.tracker, [now.complained s!"Error: {e}"])
      | .ok .ignored => (s.tracker, [])
      | .error e => (s.tracker, [now.complained s!"Error: {e}"])
    (⟨h, tracker⟩, d, opening ++ told ++ [waiting now h])

end WatchSession

end SheetGraph
