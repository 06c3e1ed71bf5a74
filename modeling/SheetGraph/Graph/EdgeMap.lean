import SheetGraph.Collect
import SheetGraph.Path.Location

/-!
# Edges between files

An `EdgeMap` gives each file a list of files.  `reachable` are the files at the end of one edge or
more, in the order in which a breadth-first search comes to them.
-/

namespace SheetGraph

/-- A list of files for each file of a finite set. -/
structure EdgeMap where
  pairs : List (Location × List Location)
  deriving DecidableEq

namespace EdgeMap

/-- The map of the empty set. -/
def empty : EdgeMap := ⟨[]⟩

/-- Whether the file is one of the set. -/
def contains (m : EdgeMap) (l : Location) : Bool :=
  m.pairs.any fun p => p.1 == l

/-- The list of a file; empty for a file outside the set. -/
def targets (m : EdgeMap) (l : Location) : List Location :=
  (m.pairs.lookup l).getD []

/-- The map that gives `l` the list `ls`. -/
def insert (m : EdgeMap) (l : Location) (ls : List Location) : EdgeMap :=
  if m.contains l then ⟨m.pairs.map fun p => if p.1 = l then (l, ls) else p⟩
  else ⟨m.pairs ++ [(l, ls)]⟩

/-- The map with `target` at the end of the list of `l`, unless it is in it. -/
def addTarget (m : EdgeMap) (l target : Location) : EdgeMap :=
  m.insert l (collect (m.targets l) [target])

/-- The number of files in all lists together. -/
def edgeCount (m : EdgeMap) : Nat :=
  (m.pairs.flatMap (·.2)).length

/-- The search that has found `found`, of which `queue` are still to be left; each step leaves one
of them. -/
def search (m : EdgeMap) : (steps : Nat) → (queue found : List Location) → List Location
  | 0, _, found => found
  | _ + 1, [], found => found
  | steps + 1, l :: queue, found =>
    let more := collect found (m.targets l)
    search m steps (queue ++ more.drop found.length) more

/-- **The files that can be reached from a file**, by one edge or more, nearest first.  The file
itself is among them only when it can be reached. -/
def reachable (m : EdgeMap) (l : Location) : List Location :=
  m.search (m.edgeCount + 1) [l] []

end EdgeMap

end SheetGraph
