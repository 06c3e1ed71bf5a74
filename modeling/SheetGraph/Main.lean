import Std.Time.DateTime.Timestamp
import SheetGraph.CommandLine.Run
import SheetGraph.Shell.Runner

/-!
# The program

Files are read into a disk, the call is run on it, and what has changed is written back.  A session
that waits for edits reads the files again and again and takes the differences for edits.  Compilers
are run by the shell of this library.
-/

namespace SheetGraph.Program

open CommandLine (Arguments Outcome)

/-! ### Reading files -/

/-- A path where nothing is. -/
def nowhere : Path := ⟨"/dev/null/nothing"⟩

/-- Where a link leads to.  The standard library does not read the text of a link, so it is told by
the path of what it leads to, and for one that leads nowhere by a path where nothing is. -/
def linkTarget (path : String) : IO Path := do
  try return ⟨(← IO.FS.realPath path).toString⟩
  catch _ => return nowhere

/-- The disk with what is at a path and below it; what cannot be read is left out. -/
partial def readInto (d : Disk) (path : String) : IO Disk := do
  let cwd ← IO.currentDir
  let file := cwd / path
  try
    match (← file.symlinkMetadata).type with
    | .dir =>
      let mut d := (d.createDirAll ⟨path⟩).1
      for entry in ← file.readDir do
        d ← readInto d entry.path.toString
      return d
    | .file =>
      return match d.write ⟨path⟩ (← IO.FS.readBinFile file) with
        | .ok d => d
        | .error _ => d
    | .symlink =>
      return match d.createLink ⟨path⟩ (← linkTarget file.toString) with
        | .ok d => d
        | .error _ => d
    | .other => return d
  catch _ => return d

/-- The locations that hold a location, itself first. -/
def selfAndAbove (l : Location) : List Location :=
  (List.range (l.names.length + 1)).map fun n => ⟨l.names.take (l.names.length - n)⟩

/-- Whether a directory holds a settings file. -/
def holdsSettings (l : Location) : IO Bool := do
  let cwd ← IO.currentDir
  settingsFileNames.anyM fun name => (cwd / (l.path.child name).text).pathExists

/-- The disk with the directory of a location on it, and what is there. -/
def readLocation (d : Disk) (l : Location) : IO Disk := do
  if d.contains l.path then return d
  else readInto (d.createDirAll l.parent.path).1 l.path.text

/-- The locations that the settings of a call name. -/
def namedLocations (d : Disk) (words : List String) : List Location :=
  match Arguments.ofWords words with
  | .error _ => []
  | .ok a =>
    let file? := CommandLine.settingsFile? d a.config
    match loadSettings d file? with
    | .error _ => []
    | .ok settings =>
      let root := CommandLine.rootFor d file?
      (settings.project.source :: settings.project.target :: settings.project.libraryPaths).map
        (·.locateFrom root)

/-- The disk that a call needs: the working directory, the directory of the settings, and what the
words of the call and the settings name. -/
def readDisk (words : List String) : IO Disk := do
  let cwd := (Path.mk (← IO.currentDir).toString).locateFrom .root
  let mut d : Disk := ⟨.empty, cwd⟩
  for l in selfAndAbove cwd do
    if ← holdsSettings l then
      d ← readLocation d l
      break
  d ← readLocation d cwd
  for word in words do
    d ← readLocation d (d.locate ⟨word⟩)
    d ← readLocation d (d.locate ⟨word⟩).parent
  for l in namedLocations d words do
    d ← readLocation d l
  return d

/-! ### Writing files -/

/-- What is new or different on a disk, directories before what is in them. -/
def differences (before after : Disk) : List (Location × Entry) :=
  (after.tree.entries.filter fun (l, e) => before.tree.get? l != some e).mergeSort
    fun a b => a.1.le b.1

/-- The differences written to the files. -/
def writeBack (before after : Disk) : IO Unit := do
  let cwd ← IO.currentDir
  for (l, e) in differences before after do
    let file := cwd / l.path.text
    match e with
    | .directory => IO.FS.createDirAll file
    | .file content => IO.FS.writeBinFile file content
    | .link _ => pure ()

/-- The messages printed. -/
def say (messages : List Message) : IO Unit := do
  for m in messages do
    match m with
    | .told text =>
      let out ← IO.getStdout
      out.putStr text
      out.flush
    | .complained text => IO.eprint text

/-! ### Watching -/

/-- The present time of day. -/
def now : IO Moment := do
  let time ← Std.Time.Timestamp.now
  return { seconds := time.toSecondsSinceUnixEpoch.val.toNat }

/-- The paths of files that are on one of two disks only, or not the same on both. -/
def editedPaths (before after : Disk) : List Path :=
  let gone := before.tree.entries.filter fun (l, _) => (after.tree.get? l).isNone
  (differences before after ++ gone).map fun (l, _) => l.path

/-- A session that goes on until the program is stopped. -/
partial def waitForEdits (words : List String) (s : WatchSession) (d : Disk) : IO Unit := do
  IO.sleep (s.handler.project.settings.watch.debounceMs).toUInt32
  let fresh ← readDisk words
  match editedPaths d fresh with
  | [] => waitForEdits words s d
  | edited =>
    let compiler := CommandLine.compilerOf Shell.runProgram s.handler.project
    let (s, after, messages) := s.react (← now) compiler fresh edited
    writeBack fresh after
    say messages
    waitForEdits words s after

/-- A call of the program. -/
def call (words : List String) : IO UInt32 := do
  let d ← readDisk words
  let outcome := CommandLine.run Shell.runProgram (← now) d words
  writeBack d outcome.disk
  say outcome.messages
  match outcome.next with
  | .exit code => return code.number.toUInt32
  | .watching session =>
    waitForEdits words session outcome.disk
    return 0

end SheetGraph.Program

/-- The program `stylegraph`. -/
def main (words : List String) : IO UInt32 :=
  SheetGraph.Program.call words
