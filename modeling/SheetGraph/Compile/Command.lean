import SheetGraph.Compile.Failure
import SheetGraph.Project
import SheetGraph.Text.Utf8

/-!
# Compilers

A `Compiler` makes CSS from a source on a disk, which it leaves as it is.  A `CompilerCommand` is a
program with its own arguments; given a way to run programs it is a compiler, which takes what the
program prints for the output and what it complains about for the report of an error.
-/

namespace SheetGraph

/-- A way to make CSS from a source. -/
abbrev Compiler := Disk → Path → CompileOptions → Except CompileError String

/-- What a program has left behind. -/
structure ProgramOutput where
  success : Bool
  stdout : ByteArray
  stderr : ByteArray

/-- A way to run a program with arguments. -/
abbrev ProgramRunner := Disk → (program : String) → (args : List String) →
    Except FileError ProgramOutput

/-- A program that compiles stylesheets. -/
structure CompilerCommand where
  program : String := "sass"
  args : List String := []
  deriving DecidableEq

namespace CompilerCommand

/-- The program of the settings. -/
def ofSettings (s : CompilerSettings) : CompilerCommand :=
  ⟨s.program, s.args⟩

/-- The arguments for compiling a source to what the program prints. -/
def commandArgs (c : CompilerCommand) (source : Path) (o : CompileOptions) : List String :=
  c.args ++ ["--style=" ++ o.style.compilerName] ++
    o.libraryPaths.map (fun p => "--load-path=" ++ p.text) ++
    [if o.sourceMap then "--embed-source-map" else "--no-source-map", source.text]

/-- The compiler that runs the program. -/
def compiler (c : CompilerCommand) (run : ProgramRunner) : Compiler := fun d source o =>
  match run d c.program (c.commandArgs source o) with
  | .error e =>
    let program := c.program
    .error { file := source, message := s!"failed to run '{program}': {e}" }
  | .ok output =>
    if output.success then .ok (Text.ofBytesLossy output.stdout)
    else .error (.ofReport source (Text.ofBytesLossy output.stderr).toList)

end CompilerCommand

end SheetGraph
