import SheetGraph.Graph.Index
import SheetGraph.Json.Printer
import SheetGraph.Project

/-!
# Listings

What the program shows of a project: the imports of its files, and its main sources with their
outputs.  Both come as lines of text or as JSON, with paths relative to the project where they lie
in it.
-/

namespace SheetGraph.CommandLine

/-- A path as it is shown. -/
def shown (p : Project) (path : Path) : String :=
  ((Path.relativeTo? p.root.path path).getD path).text

/-! ### Imports -/

/-- What is shown of one file. -/
structure FileReport where
  file : String
  imports : List String := []
  importedBy : List String := []
  error : Option String := none
  deriving DecidableEq

namespace FileReport

/-- The report on a file: on its own imports if `direct`, else also on theirs. -/
def ofFile (p : Project) (g : Graph) (direct : Bool) (l : Location) : FileReport :=
  let file := shown p l.path
  let all := fun (ls : List Location) => ls.map fun l => shown p l.path
  if direct then
    { file := file, imports := all (g.directChildren l), importedBy := all (g.directParents l) }
  else match g.children l, g.parents l with
    | .ok children, .ok parents =>
      { file := file, imports := all children, importedBy := all parents }
    | .error e, _ | _, .error e => { file := file, error := some e.message }

/-- The lines for one direction of imports. -/
def block (title : String) (files : List String) : List String :=
  let total := files.length
  s!"  {title} ({total}):" :: files.map ("    " ++ ·)

/-- The lines of a report. -/
def lines (r : FileReport) : List String :=
  r.file :: match r.error with
    | some e => ["  error: " ++ e]
    | none => block "imports" r.imports ++ block "imported by" r.importedBy

/-- The value of a report. -/
def toValue (r : FileReport) : Value :=
  .table <| [("file", .text r.file), ("imports", .texts r.imports),
    ("imported_by", .texts r.importedBy)] ++ (r.error.map fun e => ("error", .text e)).toList

end FileReport

/-- The lines of reports. -/
def reportLines (json : Bool) (reports : List FileReport) : List String :=
  if json then [Json.pretty (.array (reports.map FileReport.toValue))]
  else reports.flatMap FileReport.lines

/-! ### Sources -/

/-- The line for a source and its output. -/
def sourceLine (p : Project) (entry : Path × Path) : String :=
  shown p entry.1 ++ " -> " ++ shown p entry.2

/-- The value for a source and its output. -/
def sourceValue (p : Project) (entry : Path × Path) : Value :=
  .table [("source", .text (shown p entry.1)), ("destination", .text (shown p entry.2))]

/-- The lines for the sources of a project. -/
def sourceLines (p : Project) (json : Bool) (entries : List (Path × Path)) : List String :=
  if json then [Json.pretty (.array (entries.map (sourceValue p)))]
  else
    let total := entries.length
    entries.map (sourceLine p) ++ [s!"{total} sources"]

end SheetGraph.CommandLine
