import SheetGraph.CommandLine.Listing
import SheetGraph.CommandLine.Usage
import SheetGraph.Scaffold
import SheetGraph.Watch.Session

/-!
# Runs of the program

`run` does what a call asks for: it returns the disk after it, what is said, and how the run ends.
A call that watches a project does not end by itself; it returns the session that goes on.

Whatever is wrong with the settings of a project is found by `setUp`, in the same way for every
command that needs one.
-/

namespace SheetGraph.CommandLine

/-- How a run goes on. -/
inductive Continuation where
  | exit (code : ExitCode)
  | watching (session : WatchSession)

/-- What a run comes to. -/
structure Outcome where
  disk : Disk
  messages : List Message
  next : Continuation

/-- The outcome of a run that ends. -/
def ends (d : Disk) (messages : List Message) (code : ExitCode) : Outcome :=
  ⟨d, messages, .exit code⟩

/-- The outcome of a run that ends with an error. -/
def fails (d : Disk) (messages : List Message) (error : String) (code : ExitCode) : Outcome :=
  ends d (messages ++ [.errorLine error]) code

/-! ### Projects -/

/-- The settings with overrides, if they have no faults then. -/
def overrideSettings (s : Settings) (o : Overrides) : Except ConfigError Settings :=
  checkSettings (s.override o)

/-- The directory from which the paths of a settings file are read. -/
def rootFor (d : Disk) (file? : Option Path) : Location :=
  match (file?.bind projectRoot?).filter (!·.isEmpty) with
  | some root => d.locate root
  | none => d.cwd

/-- The project of settings that were read from a file, with overrides. -/
def projectOf (d : Disk) (file? : Option Path) (o : Overrides) (verbose : Bool)
    (settings : Settings) : Except ConfigError Project := do
  let settings ← overrideSettings settings o
  let project : Project := { settings := settings, root := rootFor d file?, verbose := verbose }
  project.verifyPaths d
  return project

/-- **The project of a settings file** with overrides: its settings have no faults and its
directories are there. -/
def setUp (d : Disk) (file? : Option Path) (o : Overrides) (verbose : Bool) :
    Except ConfigError Project := do
  let settings ← match file? with
    | some file => loadSettingsFile d file
    | none => .ok {}
  projectOf d file? o verbose settings

/-- The settings file of a call: the one that is given, or the nearest one. -/
def settingsFile? (d : Disk) (config : Option Path) : Option Path :=
  config <|> findSettings? d

/-- What is told about the settings file. -/
def settingsMessages (verbose : Bool) (file? : Option Path) : List Message :=
  if !verbose then []
  else [.line (match file? with
    | some file => "Using settings: " ++ file.text
    | none => "No stylegraph.toml found, using defaults")]

/-- How a run ends that finds something wrong with the settings. -/
def configExit : ConfigError → ExitCode
  | .unreadable _ => .failure
  | _ => .misuse

/-- A run that needs a project. -/
def withProject (d : Disk) (config : Option Path) (o : OverrideOptions) (verbose : Bool)
    (body : List Message → Project → Outcome) : Outcome :=
  let file? := settingsFile? d config
  let messages := settingsMessages verbose file?
  match setUp d file? o.overrides verbose with
  | .error e => fails d messages s!"Error: {e}" (configExit e)
  | .ok project => body messages project

/-- The compiler of a project. -/
def compilerOf (runner : ProgramRunner) (p : Project) : Compiler :=
  (CompilerCommand.ofSettings p.settings.compiler).compiler runner

/-! ### Commands -/

/-- What is told before a build. -/
def compileMessages (p : Pipeline) (d : Disk) : List Message :=
  let source := p.project.sourceDir
  let target := p.project.targetDir
  (if p.dryRun then [.line "Dry run - would compile:", .line s!"  Source: {source}",
    .line s!"  Target: {target}"] else []) ++ WatchSession.planMessages p d

/-- How a run ends behind a build. -/
def compileOutcome (nanos : Nat) (p : Pipeline) (messages : List Message) :
    Disk × Except BuildError BuildResult → Outcome
  | (d, .error e) => fails d messages s!"Build error: {e}" .failure
  | (d, .ok result) =>
    let messages := messages ++
      if p.dryRun then result.results.map fun r =>
        .line ("    - " ++ r.source.text ++ " -> " ++ r.destination.text)
      else []
    let summary := result.summary nanos
    if result.isSuccess then ends d (messages ++ [.line summary]) .success
    else
      ends d (messages ++ result.errors.map (fun e => .errorLine e.display) ++ [.errorLine summary])
        .failure

/-- Main sources compiled. -/
def runCompile (d : Disk) (c : Compiler) (nanos : Nat) (p : Pipeline) (messages : List Message) :
    Outcome :=
  compileOutcome nanos p (messages ++ compileMessages p d) (p.build c d)

/-- What is told before a session. -/
def watchMessages : List Message :=
  [.line "Starting watch mode...", .line "Press Ctrl+C to stop", .line ""]

/-- How a run goes on behind the start of a session. -/
def watchOutcome (messages : List Message) :
    Disk × List Message × Except WatchError WatchSession → Outcome
  | (d, told, .error e) => fails d (messages ++ told) s!"Watch error: {e}" .failure
  | (d, told, .ok session) => ⟨d, messages ++ told, .watching session⟩

/-- A session started. -/
def runWatch (d : Disk) (c : Compiler) (now : Moment) (p : Pipeline) (messages : List Message) :
    Outcome :=
  match WatchHandler.ofPipeline p with
  | .error e => fails d messages s!"Error: {e}" .failure
  | .ok h => watchOutcome (messages ++ watchMessages) (WatchSession.start now h c d)

/-- The imports of files shown, or those of all main sources. -/
def runInspect (d : Disk) (p : Project) (files : List Path) (direct json : Bool) : Outcome :=
  match p.finderOptions with
  | .error e => fails d [] s!"Error: {e}" .misuse
  | .ok options =>
    match sourcesUnder d p.sourceDir options with
    | .error e => fails d [] s!"Error: {e}" .failure
    | .ok sources =>
      let requested := files.map d.locate
      match Graph.empty.inspect d p.libraryDirs sources
        >>= (·.inspect d p.libraryDirs requested) with
      | .error e => fails d [] s!"Error: {e}" .failure
      | .ok graph =>
        let listed := if requested.isEmpty then sources else requested
        let reports := listed.map (FileReport.ofFile p graph direct)
        ends d ((reportLines json reports).map .line)
          (if reports.any (·.error.isSome) then .failure else .success)

/-- The main sources listed. -/
def runSources (d : Disk) (p : Project) (json : Bool) : Outcome :=
  let listed : Except DiscoveryError (List (Path × Path)) :=
    p.finderOptions >>= mirrorSources d p.sourceDir.path (some p.targetDir.path)
  match listed with
  | .error e => fails d [] s!"Error: {e}" .failure
  | .ok entries => ends d ((sourceLines p json entries).map .line) .success

/-- A new project laid out. -/
def runInit (d : Disk) (path? : Option Path) (name? : Option String) : Outcome :=
  let path := path?.getD d.cwd.path
  let name := name?.getD ((path.fileName?.map fun n => String.ofList n.chars).getD "my-site")
  match scaffold d path name with
  | (d, .error (.alreadyInitialized file)) =>
    ends d [.errorLine s!"Error: {file} already exists",
      .errorLine "Use a different directory or edit the existing settings"] .failure
  | (d, .error e) => fails d [] s!"Error: {e}" .failure
  | (d, .ok written) =>
    ends d ([.line s!"Created stylegraph project '{name}' at {path}", .line ""] ++
      written.map (fun file => .line ("  " ++ ((Path.relativeTo? path file).getD file).text)) ++
      [.line "", .line "Next steps:", .line s!"  cd {path}", .line "  stylegraph compile"]) .success

/-- How the sources of a project are built for a call. -/
def pipelineFor (project : Project) (dryRun failFast : Bool) (jobs : Option Nat) : Pipeline :=
  let p : Pipeline := { project := project, dryRun := dryRun, failFast := failFast }
  match jobs with
  | some jobs => p.withJobs jobs
  | none => p

/-- What a call asks for, done. -/
def runArguments (runner : ProgramRunner) (now : Moment) (d : Disk) (a : Arguments) : Outcome :=
  let verbose := a.verbosity != 0
  match a.command with
  | .compile o dryRun failFast jobs =>
    withProject d a.config o verbose fun messages project =>
      runCompile d (compilerOf runner project) now.nanos
        (pipelineFor project dryRun failFast jobs) messages
  | .watch o =>
    withProject d a.config o verbose fun messages project =>
      runWatch d (compilerOf runner project) now { project := project } messages
  | .inspect o files direct json =>
    withProject d a.config o false fun _ project => runInspect d project files direct json
  | .sources o json =>
    withProject d a.config o false fun _ project => runSources d project json
  | .init path name => runInit d path name

/-! ### Calls -/

/-- How the program is called. -/
def usageText : String :=
  "\n".intercalate
    ["stylegraph - Compile Sass/SCSS projects and rebuild only what an edit affects",
      "",
      "Usage: stylegraph [OPTIONS] <COMMAND>",
      "",
      "Commands:",
      "  compile  Compile every main source into the target directory",
      "  watch    Watch sources and library paths, recompiling what each change affects",
      "  inspect  Show the import graph of stylesheets",
      "  sources  List main sources with their output paths",
      "  init     Initialize a new stylegraph project",
      "  help     Print this message",
      ""]

/-- The name and the version of the program. -/
def versionText : String := "stylegraph 0.2.0"

/-- What is wrong with a call, in words. -/
def UsageError.message : UsageError → String
  | unknownArgument => "unexpected argument found"
  | invalidValue => "invalid or missing value for an option"
  | invalidNumber => "invalid number for an option"
  | conflict => "options that cannot be used together"
  | unexpectedValue => "unexpected value for an option"
  | unknownCommand => "unrecognized command"
  | missingCommand | nothing => "a command is required but was not given"
  | helpWanted => usageText
  | versionWanted => versionText

/-- **A run of the program**, called with these words. -/
def run (runner : ProgramRunner) (now : Moment) (d : Disk) (words : List String) : Outcome :=
  match Arguments.ofWords words with
  | .ok a => runArguments runner now d a
  | .error .helpWanted => ends d [.told usageText] .success
  | .error .versionWanted => ends d [.line versionText] .success
  | .error e =>
    ends d [.errorLine ("error: " ++ e.message), .errorLine "", .complained usageText] .misuse

end SheetGraph.CommandLine
