import SheetGraph.Graph.EdgeMap
import SheetGraph.Stylesheet.ImportError

/-!
# Import graphs

A `Graph` holds the indexed stylesheets of a project in the order of indexing, the edges between
them in both directions, and for each file all that it imports and all that imports it, directly or
through others.  Files that reach themselves are `cyclic`, and have no such lists to show.
-/

namespace SheetGraph

/-- Stylesheets and their imports. -/
structure Graph where
  /-- The indexed files in the order of indexing. -/
  order : List Location
  /-- What each file imports itself, in the order of its directives. -/
  imports : EdgeMap
  /-- What imports each file itself, in the order of indexing. -/
  importers : EdgeMap
  /-- What each file imports, directly or through others. -/
  allImports : EdgeMap
  /-- What imports each file, directly or through others. -/
  allImporters : EdgeMap
  /-- The files that import themselves, directly or through others. -/
  cyclic : List Location
  deriving DecidableEq

namespace Graph

/-- The graph without files. -/
def empty : Graph := ⟨[], .empty, .empty, .empty, .empty, []⟩

instance : Inhabited Graph := ⟨empty⟩

/-- Whether the file is indexed. -/
def isIndexed (g : Graph) (l : Location) : Bool :=
  g.imports.contains l

/-- Whether the file imports itself, directly or through others. -/
def isCyclic (g : Graph) (l : Location) : Bool :=
  g.cyclic.contains l

/-- What the file imports itself. -/
def directChildren (g : Graph) (l : Location) : List Location :=
  g.imports.targets l

/-- What imports the file itself. -/
def directParents (g : Graph) (l : Location) : List Location :=
  g.importers.targets l

/-- The list of a file in one of the closed edge maps, which a cyclic file does not have. -/
def closure (g : Graph) (m : EdgeMap) (l : Location) : Except ImportError (List Location) :=
  if g.isCyclic l then .error (.circular l.path) else .ok (m.targets l)

/-- **What the file imports**, directly or through others. -/
def children (g : Graph) (l : Location) : Except ImportError (List Location) :=
  g.closure g.allImports l

/-- **What imports the file**, directly or through others. -/
def parents (g : Graph) (l : Location) : Except ImportError (List Location) :=
  g.closure g.allImporters l

/-- The graph with one more file and its imports; the closures are left as they were. -/
def addFile (g : Graph) (l : Location) (ls : List Location) : Graph :=
  { g with
    order := g.order ++ [l]
    imports := g.imports.insert l ls
    importers := ls.foldl (fun m child => m.addTarget child l) g.importers }

/-- The graph with its closures computed from its edges. -/
def close (g : Graph) : Graph :=
  { g with
    allImports := ⟨g.order.map fun l => (l, g.imports.reachable l)⟩
    allImporters := ⟨g.order.map fun l => (l, g.importers.reachable l)⟩
    cyclic := g.order.filter fun l => (g.imports.reachable l).contains l }

end Graph

end SheetGraph
