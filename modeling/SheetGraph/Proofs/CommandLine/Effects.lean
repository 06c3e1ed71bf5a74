import SheetGraph.CommandLine.Run
import SheetGraph.Proofs.Build.Calls

/-!
# Runs with effects

The programs that compile stylesheets may have effects when they are run (`ProgramRunnerM`).
`CommandLine.runArgumentsM` is a run that starts such programs, and with programs that have no
effects it is the run as it is (`runArgumentsM_lift`).  So it is an equation to say that a run
starts no program: whatever the effects would be, it comes to `pure` of its outcome.
-/

namespace SheetGraph

/-- A way to run a program with effects. -/
abbrev ProgramRunnerM (m : Type → Type) := Disk → (program : String) → (args : List String) →
    m (Except FileError ProgramOutput)

section Effects

variable {m : Type → Type} [Monad m]

/-- A way to run programs that have no effects. -/
def ProgramRunner.lift (runner : ProgramRunner) : ProgramRunnerM m := fun d program args =>
  pure (runner d program args)

/-- The compiler that runs the program, which is run once for each source. -/
def CompilerCommand.compilerM (c : CompilerCommand) (runner : ProgramRunnerM m) : CompilerM m :=
  fun d source options => do
    let answer ← runner d c.program (c.commandArgs source options)
    pure (c.compiler (fun _ _ _ => answer) d source options)

/-- All main sources built. -/
def Pipeline.buildM (p : Pipeline) (c : CompilerM m) (d : Disk) :
    m (Disk × Except BuildError BuildResult) :=
  match p.plan d with
  | .error e => pure (d, .error e)
  | .ok plan => p.executeM c d plan

/-- All main sources built for a session. -/
def WatchHandler.buildAllM (h : WatchHandler) (c : CompilerM m) (d : Disk) :
    m (Disk × Except WatchError BuildResult) := do
  match ← h.pipeline.buildM c d with
  | (d, .error e) => pure (d, .error (.build e))
  | (d, .ok result) => pure (d, .ok result)

/-- A session started: the project is indexed and built. -/
def WatchSession.startM (now : Moment) (h : WatchHandler) (c : CompilerM m) (d : Disk) :
    m (Disk × List Message × Except WatchError WatchSession) :=
  match opening now h d with
  | (messages, .error e) => pure (d, messages, .error e)
  | (messages, .ok h) => opened now h messages <$> h.buildAllM c d

end Effects

namespace CommandLine

section Effects

variable {m : Type → Type} [Monad m]

/-- A run that needs a project. -/
def withProjectM (d : Disk) (config : Option Path) (o : OverrideOptions) (verbose : Bool)
    (body : List Message → Project → m Outcome) : m Outcome :=
  let file? := settingsFile? d config
  let messages := settingsMessages verbose file?
  match setUp d file? o.overrides verbose with
  | .error e => pure (fails d messages s!"Error: {e}" (configExit e))
  | .ok project => body messages project

/-- The compiler of a project. -/
def compilerOfM (runner : ProgramRunnerM m) (p : Project) : CompilerM m :=
  (CompilerCommand.ofSettings p.settings.compiler).compilerM runner

/-- Main sources compiled. -/
def runCompileM (d : Disk) (c : CompilerM m) (nanos : Nat) (p : Pipeline)
    (messages : List Message) : m Outcome :=
  compileOutcome nanos p (messages ++ compileMessages p d) <$> p.buildM c d

/-- A session started. -/
def runWatchM (d : Disk) (c : CompilerM m) (now : Moment) (p : Pipeline)
    (messages : List Message) : m Outcome :=
  match WatchHandler.ofPipeline p with
  | .error e => pure (fails d messages s!"Error: {e}" .failure)
  | .ok h => watchOutcome (messages ++ watchMessages) <$> WatchSession.startM now h c d

/-- What a call asks for, done with programs that may have effects. -/
def runArgumentsM (runner : ProgramRunnerM m) (now : Moment) (d : Disk) (a : Arguments) :
    m Outcome :=
  let verbose := a.verbosity != 0
  match a.command with
  | .compile o dryRun failFast jobs =>
    withProjectM d a.config o verbose fun messages project =>
      runCompileM d (compilerOfM runner project) now.nanos
        (pipelineFor project dryRun failFast jobs) messages
  | .watch o =>
    withProjectM d a.config o verbose fun messages project =>
      runWatchM d (compilerOfM runner project) now { project := project } messages
  | .inspect o files direct json =>
    withProjectM d a.config o false fun _ project => pure (runInspect d project files direct json)
  | .sources o json =>
    withProjectM d a.config o false fun _ project => pure (runSources d project json)
  | .init path name => pure (runInit d path name)

end Effects

end CommandLine

/-! ### Programs without effects -/

section Lift

variable {m : Type → Type} [Monad m] [LawfulMonad m]

theorem Pipeline.buildM_lift (p : Pipeline) (c : Compiler) (d : Disk) :
    (p.buildM c.lift d : m _) = pure (p.build c d) := by
  unfold buildM build
  cases p.plan d with
  | error e => rfl
  | ok plan => exact executeM_lift d plan

theorem CompilerCommand.compilerM_lift (c : CompilerCommand) (runner : ProgramRunner) :
    (c.compilerM runner.lift : CompilerM m) = (c.compiler runner).lift := by
  funext d source options
  rw [compilerM, ProgramRunner.lift, pure_bind]
  rfl

theorem WatchHandler.buildAllM_lift (h : WatchHandler) (c : Compiler) (d : Disk) :
    (h.buildAllM c.lift d : m _) = pure (h.buildAll c d) := by
  rw [buildAllM, Pipeline.buildM_lift, pure_bind, buildAll]
  obtain ⟨d', e | result⟩ := h.pipeline.build c d <;> rfl

theorem WatchSession.startM_lift (now : Moment) (h : WatchHandler) (c : Compiler) (d : Disk) :
    (startM now h c.lift d : m _) = pure (start now h c d) := by
  unfold startM start
  obtain ⟨messages, e | h⟩ := opening now h d
  · rfl
  · dsimp only
    rw [WatchHandler.buildAllM_lift, map_pure]

namespace CommandLine

variable {d : Disk}

theorem runCompileM_lift (c : Compiler) (nanos : Nat) (p : Pipeline) (messages : List Message) :
    (runCompileM d c.lift nanos p messages : m _) = pure (runCompile d c nanos p messages) := by
  rw [runCompileM, Pipeline.buildM_lift, map_pure, runCompile]

theorem runWatchM_lift (c : Compiler) (now : Moment) (p : Pipeline) (messages : List Message) :
    (runWatchM d c.lift now p messages : m _) = pure (runWatch d c now p messages) := by
  unfold runWatchM runWatch
  cases WatchHandler.ofPipeline p with
  | error e => rfl
  | ok h =>
    dsimp only
    rw [WatchSession.startM_lift, map_pure]

omit [LawfulMonad m] in
theorem withProjectM_lift (config : Option Path) (o : OverrideOptions) (verbose : Bool)
    {body : List Message → Project → Outcome} {bodyM : List Message → Project → m Outcome}
    (h : ∀ messages project, bodyM messages project = pure (body messages project)) :
    withProjectM d config o verbose bodyM = pure (withProject d config o verbose body) := by
  unfold withProjectM withProject
  dsimp only
  cases setUp d (settingsFile? d config) o.overrides verbose with
  | error e => rfl
  | ok project => exact h _ project

theorem compilerOfM_lift (runner : ProgramRunner) (p : Project) :
    (compilerOfM runner.lift p : CompilerM m) = (compilerOf runner p).lift :=
  CompilerCommand.compilerM_lift _ runner

/-- **With programs that have no effects** a run is as it is. -/
theorem runArgumentsM_lift (runner : ProgramRunner) (now : Moment) (d : Disk) (a : Arguments) :
    (runArgumentsM runner.lift now d a : m _) = pure (runArguments runner now d a) := by
  obtain ⟨config, verbosity, command⟩ := a
  unfold runArgumentsM runArguments
  cases command with
  | compile o dryRun failFast jobs =>
    refine withProjectM_lift config o _ fun messages project => ?_
    rw [compilerOfM_lift, runCompileM_lift]
  | watch o =>
    refine withProjectM_lift config o _ fun messages project => ?_
    rw [compilerOfM_lift, runWatchM_lift]
  | inspect o files direct json => exact withProjectM_lift config o _ fun _ _ => rfl
  | sources o json => exact withProjectM_lift config o _ fun _ _ => rfl
  | init path name => rfl

end CommandLine

end Lift

end SheetGraph
