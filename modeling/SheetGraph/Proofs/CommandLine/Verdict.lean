import SheetGraph.Proofs.CommandLine.Effects
import SheetGraph.Proofs.CommandLine.SettingUp

/-!
# Verdicts on the settings of a project

Every command that needs a project ends with the exit code 2 if the settings are unusable, has not
written anything by then and has run no program (`judges_runArguments`).  The commands differ only
about exclude patterns that are no globs: with such a pattern they stop as early, but `inspect` with
the exit code 2 and the others with 1 (`bad_pattern_divides`).
-/

namespace SheetGraph.CommandLine

variable {d : Disk}

/-! ### How a run ends -/

/-- The number with which a run ends, if it ends. -/
def Outcome.exitNumber? (outcome : Outcome) : Option Nat :=
  match outcome.next with
  | .exit code => some code.number
  | .watching _ => none

@[simp]
theorem exitNumber?_ends (d : Disk) (messages : List Message) (code : ExitCode) :
    (ends d messages code).exitNumber? = some code.number :=
  rfl

@[simp]
theorem exitNumber?_fails (d : Disk) (messages : List Message) (error : String) (code : ExitCode) :
    (fails d messages error code).exitNumber? = some code.number :=
  rfl

/-- The run has ended on a disk that is as it was, and said what is wrong. -/
def Outcome.Stops (outcome : Outcome) (d : Disk) (code : ExitCode) : Prop :=
  ∃ messages error, outcome = fails d messages error code

theorem exitNumber?_compileOutcome_ne (nanos : Nat) (p : Pipeline) (messages : List Message)
    (built : Disk × Except BuildError BuildResult) :
    (compileOutcome nanos p messages built).exitNumber? ≠ some 2 := by
  obtain ⟨d, e | result⟩ := built
  · simp [compileOutcome, ExitCode.number]
  · unfold compileOutcome
    dsimp only
    split <;> simp [ExitCode.number]

theorem exitNumber?_watchOutcome_ne (messages : List Message)
    (started : Disk × List Message × Except WatchError WatchSession) :
    (watchOutcome messages started).exitNumber? ≠ some 2 := by
  obtain ⟨d, told, e | session⟩ := started
  · simp [watchOutcome, ExitCode.number]
  · simp [watchOutcome, Outcome.exitNumber?]

/-! ### Verdicts -/

/-- **The verdict of a command on settings**: how its run ends, and what it has done until then.
`started` is the run with programs that may have effects. -/
structure Judges (d : Disk) (file? : Option Path) (o : Overrides) (inspects : Bool)
    (outcome : Outcome) (started : ∀ (m : Type → Type) [Monad m], ProgramRunnerM m → m Outcome) :
    Prop where
  /-- Unusable settings are an error in the call. -/
  unusable : Unusable d o file? → outcome.exitNumber? = some 2
  /-- A bad pattern is one only for a command that inspects. -/
  badPattern : ¬ Unusable d o file? → HasBadPattern d file? →
    outcome.exitNumber? = some (if inspects then 2 else 1)
  /-- Nothing else is an error in the call. -/
  only : outcome.exitNumber? = some 2 → Unusable d o file? ∨ HasBadPattern d file?
  /-- Nothing is written. -/
  disk_eq : Unusable d o file? ∨ HasBadPattern d file? → outcome.disk = d
  /-- No program is run, whatever effects that would have. -/
  runs_nothing : Unusable d o file? ∨ HasBadPattern d file? →
    ∀ (m : Type → Type) [Monad m] [LawfulMonad m] (effects : ProgramRunnerM m),
      started m effects = pure outcome

/-- Settings with which nothing is wrong are no error in the call. -/
theorem judges_of_usable {file? : Option Path} {o : Overrides} {inspects : Bool} {outcome : Outcome}
    {started : ∀ (m : Type → Type) [Monad m], ProgramRunnerM m → m Outcome}
    (husable : ¬ Unusable d o file?) (hpattern : ¬ HasBadPattern d file?)
    (hexit : outcome.exitNumber? ≠ some 2) : Judges d file? o inspects outcome started := by
  have hneither := not_or.mpr ⟨husable, hpattern⟩
  exact {
    unusable := fun h => absurd h husable
    badPattern := fun _ h => absurd h hpattern
    only := fun h => absurd h hexit
    disk_eq := fun h => absurd h hneither
    runs_nothing := fun h => absurd h hneither }

/-- **A run that needs a project** gives its verdict if the command does not take anything else for
an error in the call, and stops at a bad pattern. -/
theorem judges_withProject (config : Option Path) (o : OverrideOptions) (verbose inspects : Bool)
    {body : List Message → Project → Outcome}
    {bodyM : ∀ (m : Type → Type) [Monad m], ProgramRunnerM m → List Message → Project → m Outcome}
    (hgood : ∀ messages p options, p.finderOptions = .ok options →
      (body messages p).exitNumber? ≠ some 2)
    (hbad : ∀ messages p e, p.finderOptions = .error e →
      (body messages p).Stops d (if inspects then .misuse else .failure) ∧
      ∀ (m : Type → Type) [Monad m] [LawfulMonad m] (effects : ProgramRunnerM m),
        bodyM m effects messages p = pure (body messages p)) :
    Judges d (settingsFile? d config) o.overrides inspects (withProject d config o verbose body)
      fun m _ effects => withProjectM d config o verbose (bodyM m effects) := by
  unfold withProject withProjectM
  obtain ⟨husable, hgoodPattern, e, hsetUp, hexit⟩ | ⟨hunusable, e, hsetUp, hexit⟩ |
      ⟨husable, p, hsetUp, hpattern⟩ := setUp_cases d (settingsFile? d config) o.overrides verbose
  · -- The file cannot be read, so it is not known what is wrong with its settings.
    simp only [hsetUp, hexit]
    exact judges_of_usable husable hgoodPattern (by simp [ExitCode.number])
  · -- The run ends before the command comes into play.
    simp only [hsetUp, hexit]
    exact {
      unusable := fun _ => rfl
      badPattern := fun h => absurd hunusable h
      only := fun _ => .inl hunusable
      disk_eq := fun _ => rfl
      runs_nothing := fun _ _ _ _ _ => rfl }
  · simp only [hsetUp]
    cases hoptions : p.finderOptions with
    | ok options =>
      have hgoodPattern : ¬ HasBadPattern d (settingsFile? d config) := by
        simp [hpattern, hoptions]
      exact judges_of_usable husable hgoodPattern (hgood _ p options hoptions)
    | error e =>
      have hbadPattern : HasBadPattern d (settingsFile? d config) := hpattern.mpr ⟨e, hoptions⟩
      obtain ⟨⟨told, error, hstops⟩, hnothing⟩ :=
        hbad (settingsMessages verbose (settingsFile? d config)) p e hoptions
      exact {
        unusable := fun h => absurd h husable
        badPattern := fun _ _ => by rw [hstops]; cases inspects <;> rfl
        only := fun _ => .inr hbadPattern
        disk_eq := fun _ => by rw [hstops]; rfl
        runs_nothing := fun _ => hnothing }

/-! ### Commands -/

/-- The options of a command that override settings, if it needs a project. -/
def Command.overrides? : Command → Option OverrideOptions
  | .compile o _ _ _ | .watch o | .inspect o _ _ _ | .sources o _ => some o
  | .init _ _ => none

/-- Whether the command shows imports. -/
def Command.isInspect : Command → Bool
  | .inspect _ _ _ _ => true
  | _ => false

theorem pipelineFor_project (project : Project) (dryRun failFast : Bool) (jobs : Option Nat) :
    (pipelineFor project dryRun failFast jobs).project = project := by
  cases jobs <;> rfl

section BadPattern

variable {p : Pipeline} {e : DiscoveryError} {messages : List Message}

theorem stops_runCompile (h : p.project.finderOptions = .error e) (c : Compiler) (nanos : Nat) :
    (runCompile d c nanos p messages).Stops d .failure := by
  unfold runCompile Pipeline.build Pipeline.plan
  rw [h]
  exact ⟨_, _, rfl⟩

theorem stops_runWatch (h : p.project.finderOptions = .error e) (c : Compiler) (now : Moment) :
    (runWatch d c now p messages).Stops d .failure := by
  unfold runWatch WatchHandler.ofPipeline
  rw [h]
  exact ⟨_, _, rfl⟩

theorem stops_runInspect {p : Project} (h : p.finderOptions = .error e) (files : List Path)
    (direct json : Bool) : (runInspect d p files direct json).Stops d .misuse := by
  unfold runInspect
  rw [h]
  exact ⟨_, _, rfl⟩

theorem stops_runSources {p : Project} (h : p.finderOptions = .error e) (json : Bool) :
    (runSources d p json).Stops d .failure := by
  unfold runSources
  rw [h]
  exact ⟨_, _, rfl⟩

variable {m : Type → Type} [Monad m]

theorem runCompileM_of_badPattern [LawfulMonad m] (h : p.project.finderOptions = .error e)
    (cM : CompilerM m) (c : Compiler) (nanos : Nat) :
    runCompileM d cM nanos p messages = pure (runCompile d c nanos p messages) := by
  unfold runCompileM runCompile Pipeline.buildM Pipeline.build Pipeline.plan
  rw [h]
  exact map_pure _ _

theorem runWatchM_of_badPattern (h : p.project.finderOptions = .error e) (cM : CompilerM m)
    (c : Compiler) (now : Moment) :
    runWatchM d cM now p messages = pure (runWatch d c now p messages) := by
  unfold runWatchM runWatch WatchHandler.ofPipeline
  rw [h]

end BadPattern

theorem exitNumber?_runWatch_ne (c : Compiler) (now : Moment) (p : Pipeline)
    (messages : List Message) : (runWatch d c now p messages).exitNumber? ≠ some 2 := by
  unfold runWatch
  split
  · simp [ExitCode.number]
  · exact exitNumber?_watchOutcome_ne _ _

theorem exitNumber?_runInspect_ne {p : Project} {options : FinderOptions}
    (h : p.finderOptions = .ok options) (files : List Path) (direct json : Bool) :
    (runInspect d p files direct json).exitNumber? ≠ some 2 := by
  unfold runInspect
  rw [h]
  dsimp only
  split
  · simp [ExitCode.number]
  · split
    · simp [ExitCode.number]
    · have hcode : ∀ failed : Bool, (if failed then .failure else .success : ExitCode).number ≠ 2 :=
        by decide
      rw [exitNumber?_ends]
      exact fun htwo => hcode _ (Option.some.inj htwo)

theorem exitNumber?_runSources_ne (p : Project) (json : Bool) :
    (runSources d p json).exitNumber? ≠ some 2 := by
  unfold runSources
  dsimp only
  split <;> simp [ExitCode.number]

/-- **All commands judge settings alike**, but for exclude patterns that are no globs. -/
theorem judges_runArguments {a : Arguments} {o : OverrideOptions}
    (h : a.command.overrides? = some o) (runner : ProgramRunner) (now : Moment) (d : Disk) :
    Judges d (settingsFile? d a.config) o.overrides a.command.isInspect
      (runArguments runner now d a) fun _ _ effects => runArgumentsM effects now d a := by
  obtain ⟨config, verbosity, command⟩ := a
  unfold runArguments runArgumentsM
  cases command with
  | compile o' dryRun failFast jobs =>
    obtain rfl := Option.some.inj h
    refine judges_withProject config o' _ false
      (fun _ _ _ _ => exitNumber?_compileOutcome_ne _ _ _ _) fun messages p e he => ?_
    -- The options of a build do not touch the project, so its plan fails at the same pattern.
    rw [← pipelineFor_project p dryRun failFast jobs] at he
    exact ⟨stops_runCompile he _ _, fun _ _ _ _ => runCompileM_of_badPattern he _ _ _⟩
  | watch o' =>
    obtain rfl := Option.some.inj h
    exact judges_withProject config o' _ false (fun _ _ _ _ => exitNumber?_runWatch_ne _ _ _ _)
      fun _ p e he => ⟨stops_runWatch he _ _, fun _ _ _ _ => runWatchM_of_badPattern he _ _ _⟩
  | inspect o' files direct json =>
    obtain rfl := Option.some.inj h
    exact judges_withProject config o' _ true
      (fun _ _ _ hoptions => exitNumber?_runInspect_ne hoptions _ _ _)
      fun _ p e he => ⟨stops_runInspect he _ _ _, fun _ _ _ _ => rfl⟩
  | sources o' json =>
    obtain rfl := Option.some.inj h
    exact judges_withProject config o' _ false (fun _ _ _ _ => exitNumber?_runSources_ne _ _)
      fun _ p e he => ⟨stops_runSources he _, fun _ _ _ _ => rfl⟩
  | init path name => cases h

/-! ### A pattern that is no glob -/

/-- The settings file of a project in the root directory. -/
def patternFile : Path :=
  ⟨"/stylegraph.toml"⟩

/-- Its text. -/
def patternText : String :=
  "[project]\nexcludes = [\"***\"]\n"

/-- The settings that it writes. -/
def patternSettings : Settings where
  project := { excludes := ["***"] }

/-- A disk with the project, its directory of sources and a source. -/
def patternDisk : Disk where
  tree := ((FileTree.empty.put ((⟨"scss"⟩ : Path).locateFrom .root) .directory).put
    ((⟨"scss/main.scss"⟩ : Path).locateFrom .root) (.file "p\n".toUTF8)).put
      (patternFile.locateFrom .root) (.file patternText.toUTF8)
  cwd := .root

theorem settingsFile?_patternDisk : settingsFile? patternDisk none = some patternFile := by
  decide +kernel

theorem reads_patternDisk : Reads patternDisk (some patternFile) patternSettings := by
  have hread : patternDisk.readText patternFile = .ok patternText := by
    decide +kernel
  have hparse : parseSettings .toml patternText = .ok patternSettings := by
    decide +kernel
  exact .file hread (by decide) hparse

/-- Programs that do nothing. -/
def idleRunner : ProgramRunner := fun _ _ _ => .ok ⟨true, .empty, .empty⟩

/-- Programs that count their runs. -/
def countingRunner : ProgramRunnerM (StateM Nat) := fun d program args => do
  modify (· + 1)
  pure (idleRunner d program args)

/-- A call for a session with a library directory that is not there. -/
def libraryCall : Arguments where
  command := .watch { libraryPaths := [⟨"lib"⟩] }

/-- The session does not start, and no program is run. -/
theorem judges_runArguments_library :
    libraryCall.command.overrides? = some { libraryPaths := [⟨"lib"⟩] } ∧
    Unusable patternDisk { libraryPaths := [⟨"lib"⟩] } (settingsFile? patternDisk none) ∧
    (runArguments idleRunner {} patternDisk libraryCall).exitNumber? = some 2 ∧
    (runArguments idleRunner {} patternDisk libraryCall).disk = patternDisk ∧
    ((runArgumentsM countingRunner {} patternDisk libraryCall).run 0).2 = 0 := by
  have hoptions : libraryCall.command.overrides? = some { libraryPaths := [⟨"lib"⟩] } := rfl
  have hunusable :
      Unusable patternDisk { libraryPaths := [⟨"lib"⟩] } (settingsFile? patternDisk none) := by
    rw [settingsFile?_patternDisk]
    exact .missingDirectory reads_patternDisk (List.mem_cons_of_mem _ List.mem_cons_self)
      (by decide +kernel)
  have hjudged := judges_runArguments hoptions idleRunner {} patternDisk
  have hnothing := hjudged.runs_nothing (.inl hunusable) (StateM Nat) countingRunner
  refine ⟨hoptions, hunusable, hjudged.unusable hunusable, hjudged.disk_eq (.inl hunusable), ?_⟩
  rw [hnothing]
  rfl

/-- **A bad pattern is judged in two ways**: for `inspect` it is an error in the call, but the other
commands take it for one of the run. -/
theorem bad_pattern_divides :
    HasBadPattern patternDisk (settingsFile? patternDisk none) ∧
    (∀ command ∈ [.sources {} false, .compile {} false false none, .watch {}],
      (runArguments idleRunner {} patternDisk { command := command }).exitNumber? = some 1) ∧
    (runArguments idleRunner {} patternDisk
      { command := .inspect {} [] false false }).exitNumber? = some 2 := by
  have hpattern : ∀ g, Glob.parse "***" ≠ .ok g := by
    have hparse : (Glob.parse "***").isOk = false := by
      decide +kernel
    exact fun g hg => by rw [hg] at hparse; cases hparse
  rw [settingsFile?_patternDisk]
  exact ⟨⟨patternSettings, reads_patternDisk, "***", List.mem_cons_self, hpattern⟩,
    by decide +kernel, by decide +kernel⟩

end SheetGraph.CommandLine
