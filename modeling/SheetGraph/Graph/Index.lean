import SheetGraph.Graph.Basic
import SheetGraph.Resolution
import SheetGraph.Stylesheet.Import

/-!
# Indexing

`Graph.inspect` adds files and all that they import to a graph.  The files that are not indexed yet
are read depth first, each once, and staged with their imports; only when all of them could be read,
parsed and resolved does the graph change.
-/

namespace SheetGraph

/-- The files that a stylesheet imports, each once. -/
def readImports (d : Disk) (libraries : List Location) (l : Location) :
    Except ImportError (List Location) :=
  match d.readText l.path with
  | .error e => .error (.unreadable l.path e)
  | .ok text =>
    match imports l.path.syntaxMode text.toList with
    | .error e => .error (e.inFile l.path)
    | .ok targets =>
      match resolve d l targets libraries with
      | .error e => .error e
      | .ok files => .ok (collect [] files)

/-- Upper bound of the number of locations that lead to a file: between two links, a location goes
down at most as deep as the tree, and each of its names is one in the tree. -/
def FileTree.locationBound (t : FileTree) : Nat :=
  Nat.pow (t.entries.length + 1) ((linkLimit + 1) * t.depth)

/-- Files with their imports, ready to be added to a graph. -/
abbrev Staged := List (Location × List Location)

namespace Graph

/-- The files that are staged when those in `todo` are visited in turn, and the imports of each
before the next.  Files that are `known` or staged are passed over. -/
def stage (read : Location → Except ImportError (List Location)) (known : Location → Bool) :
    (steps : Nat) → (todo : List Location) → Staged → Except ImportError Staged
  | 0, _, staged => .ok staged
  | steps + 1, todo, staged =>
    match todo.dropWhile fun l => known l || staged.any (·.1 == l) with
    | [] => .ok staged
    | l :: rest =>
      match read l with
      | .error e => .error e
      | .ok ls => stage read known steps (ls ++ rest) (staged ++ [(l, ls)])

/-- The graph with staged files in it. -/
def commit (g : Graph) (staged : Staged) : Graph :=
  (staged.foldl (fun g file => g.addFile file.1 file.2) g).close

/-- **The graph with `files` and all that they import**, or the first failure on the way. -/
def inspect (g : Graph) (d : Disk) (libraries files : List Location) : Except ImportError Graph :=
  match stage (readImports d libraries) g.isIndexed (d.tree.locationBound + 1) files [] with
  | .error e => .error e
  | .ok [] => .ok g
  | .ok staged => .ok (g.commit staged)

end Graph

end SheetGraph
