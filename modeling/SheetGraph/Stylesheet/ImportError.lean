import SheetGraph.Path.Basic
import SheetGraph.FileTree.Failure

/-!
# Failures of imports

An `ImportError` is the reason why the imports of a stylesheet could not be read, found or followed.
-/

namespace SheetGraph

/-- Why the imports of a stylesheet failed. -/
inductive ImportError where
  /-- A target with a quote that has no partner; the file is known once one is being read. -/
  | badlyQuoted (rule : String) (file : Option Path)
  /-- No file for a target in any base directory. -/
  | unresolvable (target : String) (source : Path)
  /-- Several files for a target in one base directory. -/
  | ambiguous (target : String) (source : Path) (base : Path) (candidates : List Path)
  /-- A file that reaches itself through its imports. -/
  | circular (path : Path)
  /-- A stylesheet that could not be read. -/
  | unreadable (path : Path) (cause : FileError)
  deriving DecidableEq

namespace ImportError

/-- The error with the file it arose in, unless it has one already or needs none. -/
def inFile (file : Path) : ImportError → ImportError
  | badlyQuoted rule none => badlyQuoted rule (some file)
  | e => e

/-- The file the error is about. -/
def path? : ImportError → Option Path
  | badlyQuoted _ file => file
  | unresolvable _ source => some source
  | ambiguous _ source _ _ => some source
  | circular path => some path
  | unreadable path _ => some path

/-- The wording of the error. -/
def message : ImportError → String
  | badlyQuoted rule none => s!"Import rule is badly quoted: {rule}"
  | badlyQuoted rule (some file) => s!"Import rule is badly quoted: {rule} (in {file})"
  | unresolvable target source => s!"Imported path '{target}' from '{source}' could not be resolved"
  | ambiguous target source base candidates =>
    let listed := ", ".intercalate (candidates.map toString)
    s!"Import '{target}' from '{source}' is ambiguous in '{base}': {listed}"
  | circular path => s!"Circular import involving '{path}'"
  | unreadable path cause => s!"Failed to read '{path}': {cause}"

instance : ToString ImportError := ⟨message⟩

end ImportError

end SheetGraph
