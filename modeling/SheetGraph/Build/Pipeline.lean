import SheetGraph.Build.Result
import SheetGraph.Compile.Command

/-!
# Builds

A build compiles the main sources of a project, or some of them, and writes the outputs.  Sources do
not depend on each other, so they may be compiled at the same time.

Compilations at the same time overlap.  Each goes through four steps (`Stage`): the compiler is
asked, the directory of the output is made, the output is opened, which empties it, and it is
written.  One step is done at a time, and a `Schedule` says which compilation does the next one, so
between two steps of one compilation there may be steps of any others.  Nothing overlaps within a
step: the compiler reads one disk, and the content of an output is written at once.  The schedule is
not bound to the number of jobs, so it may keep more compilations going than there are jobs.
Whatever the schedule, the results come in the order of the plan.
-/

namespace SheetGraph

/-- Why a build could not run. -/
inductive BuildError where
  | discovery (e : DiscoveryError)
  | io (e : FileError)
  deriving DecidableEq

namespace BuildError

/-- The wording of the error. -/
def message : BuildError → String
  | discovery e => s!"Discovery error: {e}"
  | io e => s!"IO error: {e}"

instance : ToString BuildError := ⟨message⟩

end BuildError

/-- A source with its output. -/
abbrev PlanEntry := Path × Path

/-- How far a compilation has come. -/
inductive Stage where
  /-- Nothing has been done. -/
  | waiting
  /-- The source has been compiled. -/
  | compiled (css : String)
  /-- The directory of the output is there. -/
  | placed (css : String)
  /-- The output is open, and was empty when it was opened. -/
  | opened (file : Location) (css : String)
  /-- The output has been written. -/
  | written (file : Location) (css : String)
  /-- The output cannot be written. -/
  | refused (e : FileError)
  /-- It has ended without anything to write. -/
  | ended (outcome : CompileOutcome)
  deriving DecidableEq

/-- The number of steps that are left at most. -/
def Stage.stepsLeft : Stage → Nat
  | waiting => 4
  | compiled _ => 3
  | placed _ => 2
  | opened _ _ => 1
  | written _ _ | refused _ | ended _ => 0

/-- The compilation of an entry of a plan. -/
structure Compilation where
  entry : PlanEntry
  stage : Stage
  deriving DecidableEq

/-- A compilation before its first step. -/
def Compilation.start (entry : PlanEntry) : Compilation := ⟨entry, .waiting⟩

/-- Which compilation does its next step, when a number of them run at the same time.  A turn is the
number of a compilation; each has as many turns as it has steps, and maybe more. -/
structure Schedule where
  turns : Nat → List Nat
  fair : ∀ n i, i < n → Stage.waiting.stepsLeft ≤ (turns n).count i

namespace Schedule

theorem stepsLeft_le_count_flatMap {order : List Nat} {i : Nat} (hi : i ∈ order) :
    Stage.waiting.stepsLeft
      ≤ (order.flatMap (List.replicate Stage.waiting.stepsLeft)).count i := by
  induction order with
  | nil => cases hi
  | cons j order ih =>
    rw [List.flatMap_cons, List.count_append]
    rcases List.mem_cons.mp hi with rfl | hi
    · rw [List.count_replicate_self]
      exact Nat.le_add_right _ _
    · exact Nat.le_trans (ih hi) (Nat.le_add_left _ _)

/-- The schedule that does one compilation after the other, all the steps of each in a row. -/
def ofOrder (order : Nat → List Nat) (h : ∀ n i, i < n → i ∈ order n) : Schedule where
  turns n := (order n).flatMap (List.replicate Stage.waiting.stepsLeft)
  fair n i hi := stepsLeft_le_count_flatMap (h n i hi)

/-- The schedule that keeps the order. -/
def inOrder : Schedule := ofOrder List.range fun _ _ => List.mem_range.mpr

instance : Inhabited Schedule := ⟨inOrder⟩

end Schedule

/-- How the sources of a project are built. -/
structure Pipeline where
  project : Project
  failFast : Bool := false
  dryRun : Bool := false
  jobs : Nat := 1
  schedule : Schedule := .inOrder

namespace Pipeline

/-- The pipeline with another number of jobs, at least one. -/
def withJobs (p : Pipeline) (jobs : Nat) : Pipeline :=
  { p with jobs := max jobs 1 }

/-- **The main sources of the project with their outputs.** -/
def plan (p : Pipeline) (d : Disk) : Except BuildError (List PlanEntry) :=
  match p.project.finderOptions with
  | .error e => .error (.discovery e)
  | .ok options =>
    match mirrorSources d p.project.sourceDir.path (some p.project.targetDir.path) options with
    | .error e => .error (.discovery e)
    | .ok plan => .ok plan

/-- The disk with the directory of an output. -/
def makeDirectory (d : Disk) (destination : Path) : Disk × Except FileError Unit :=
  match destination.parent? with
  | some dir => d.createDirAll dir
  | none => (d, .ok ())

/-- The disk with an output on it and the directories above it. -/
def writeOutput (d : Disk) (destination : Path) (css : String) : Disk × Except FileError Unit :=
  match makeDirectory d destination with
  | (d, .error e) => (d, .error e)
  | (d, .ok ()) =>
    match d.write destination css.toUTF8 with
    | .error e => (d, .error e)
    | .ok d => (d, .ok ())

/-- The outcome of a source whose output cannot be written. -/
def notWritten (destination : Path) (e : FileError) : CompileOutcome :=
  .failed { file := destination, message := s!"failed to write output: {e}" }

/-- One source compiled and its output written. -/
def compileOne (p : Pipeline) (c : Compiler) (d : Disk) (entry : PlanEntry) :
    Disk × CompileResult :=
  let (source, destination) := entry
  if p.dryRun then (d, ⟨source, destination, .skipped⟩)
  else match c d source p.project.compileOptions with
    | .error e => (d, ⟨source, destination, .failed e⟩)
    | .ok css =>
      match writeOutput d destination css with
      | (d, .ok ()) => (d, ⟨source, destination, .success⟩)
      | (d, .error e) => (d, ⟨source, destination, notWritten destination e⟩)

/-- The entries of a plan compiled one after the other, up to the first failure if it ends the
build. -/
def compileInTurn (p : Pipeline) (c : Compiler) : Disk → List PlanEntry → Disk × List CompileResult
  | d, [] => (d, [])
  | d, entry :: plan =>
    let (d, result) := p.compileOne c d entry
    if p.failFast && result.isFailure then (d, [result])
    else
      let (d, results) := compileInTurn p c d plan
      (d, result :: results)

/-! ### Compilations at the same time -/

/-- How far a compilation has come when the compiler has been asked, which it is not in a dry
run. -/
def compileStage (p : Pipeline) (c : Compiler) (d : Disk) (source : Path) : Stage :=
  if p.dryRun then .ended .skipped
  else match c d source p.project.compileOptions with
    | .error e => .ended (.failed e)
    | .ok css => .compiled css

/-- The next step on the way to an output. -/
def outputStep (d : Disk) (destination : Path) : Stage → Disk × Stage
  | .compiled css =>
    match makeDirectory d destination with
    | (d, .error e) => (d, .refused e)
    | (d, .ok ()) => (d, .placed css)
  | .placed css =>
    match d.openEmpty destination with
    | .error e => (d, .refused e)
    | .ok (d, file) => (d, .opened file css)
  | .opened file css => (d.writeAt file css.toUTF8, .written file css)
  | stage => (d, stage)

/-- The next step of a compilation. -/
def advance (p : Pipeline) (c : Compiler) (d : Disk) (x : Compilation) : Disk × Compilation :=
  match x.stage with
  | .waiting => (d, { x with stage := p.compileStage c d x.entry.1 })
  | stage =>
    let (d, stage) := outputStep d x.entry.2 stage
    (d, { x with stage := stage })

/-- Compilations that take their turns. -/
def interleave (p : Pipeline) (c : Compiler) :
    (turns : List Nat) → Disk → List Compilation → Disk × List Compilation
  | [], d, xs => (d, xs)
  | i :: turns, d, xs =>
    match xs[i]? with
    | none => interleave p c turns d xs
    | some x =>
      let (d, x) := p.advance c d x
      interleave p c turns d (xs.set i x)

/-- The outcome of a compilation that has come to its end. -/
def outcome? (destination : Path) : Stage → Option CompileOutcome
  | .written _ _ => some .success
  | .refused e => some (notWritten destination e)
  | .ended outcome => some outcome
  | _ => none

/-- The result of a compilation that has come to its end. -/
def result? (x : Compilation) : Option CompileResult :=
  (outcome? x.entry.2 x.stage).map fun outcome => ⟨x.entry.1, x.entry.2, outcome⟩

/-- The entries of a plan compiled at the same time, a whole step of one of them at each turn, with
the results in the order of the plan. -/
def compileTogether (p : Pipeline) (c : Compiler) (s : Schedule) (d : Disk)
    (plan : List PlanEntry) : Disk × List CompileResult :=
  let (d, xs) := p.interleave c (s.turns plan.length) d (plan.map .start)
  (d, xs.filterMap result?)

/-! ### Builds -/

/-- Whether the entries of a plan are compiled one after the other. -/
def isSequential (p : Pipeline) (plan : List PlanEntry) : Bool :=
  p.failFast || p.jobs == 1 || plan.length == 1

/-- The entries of a plan compiled, one after the other or at the same time. -/
def compileAll (p : Pipeline) (c : Compiler) (d : Disk) (plan : List PlanEntry) :
    Disk × List CompileResult :=
  if p.isSequential plan then p.compileInTurn c d plan else p.compileTogether c p.schedule d plan

/-- A plan carried out: the target directory is made, and the entries are compiled. -/
def execute (p : Pipeline) (c : Compiler) (d : Disk) (plan : List PlanEntry) :
    Disk × Except BuildError BuildResult :=
  if plan.isEmpty then (d, .ok ⟨[]⟩)
  else
    let (d, made) := if p.dryRun then (d, .ok ()) else d.createDirAll p.project.targetDir.path
    match made with
    | .error e => (d, .error (.io e))
    | .ok () =>
      let (d, results) := p.compileAll c d plan
      (d, .ok ⟨results⟩)

/-- **All main sources built.** -/
def build (p : Pipeline) (c : Compiler) (d : Disk) : Disk × Except BuildError BuildResult :=
  match p.plan d with
  | .error e => (d, .error e)
  | .ok plan => p.execute c d plan

/-- The result of a source that lies outside the source directory. -/
def outside (source : Path) : CompileResult :=
  ⟨source, ⟨""⟩, .failed { file := source, message := "not under the source directory" }⟩

/-- The results of the sources outside the source directory, and the plan for the others. -/
def planSources (p : Pipeline) (d : Disk) :
    List Path → Except BuildError (List CompileResult × List PlanEntry)
  | [] => .ok ([], [])
  | source :: sources =>
    match p.project.destinationFor (d.locate source), planSources p d sources with
    | .error e, _ => .error (.discovery e)
    | _, .error e => .error e
    | .ok none, .ok (outsiders, plan) => .ok (outside source :: outsiders, plan)
    | .ok (some destination), .ok (outsiders, plan) =>
      .ok (outsiders, (source, destination) :: plan)

/-- **The given sources built**; those outside the source directory fail and come first. -/
def buildSources (p : Pipeline) (c : Compiler) (d : Disk) (sources : List Path) :
    Disk × Except BuildError BuildResult :=
  match p.planSources d sources with
  | .error e => (d, .error e)
  | .ok (outsiders, plan) =>
    match p.execute c d plan with
    | (d, .error e) => (d, .error e)
    | (d, .ok compiled) => (d, .ok ⟨outsiders ++ compiled.results⟩)

end Pipeline

end SheetGraph
