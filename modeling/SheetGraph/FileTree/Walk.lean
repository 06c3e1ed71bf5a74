import SheetGraph.FileTree.Basic
import SheetGraph.FileTree.Failure

/-!
# Walking a file tree

A walk follows the texts between the slashes of a path through the tree: an empty text and a `.`
stay, a `..` goes up, a name goes down.  A link is replaced by the path it stands for, at most
`linkLimit` times.  Where only the last name is missing, the walk says where it would be.
-/

namespace SheetGraph

/-- Where a walk ends. -/
inductive Landing where
  | found (l : Location)
  | vacant (l : Location)
  deriving DecidableEq

namespace FileTree

/-- How many links one walk follows. -/
def linkLimit : Nat := 40

/-- The walk from a directory up to the first link, where `follow` goes on. -/
def walkWith (t : FileTree) (follow : Location → List (List Char) → Except FileError Landing) :
    Location → List (List Char) → Except FileError Landing
  | dir, [] => .ok (.found dir)
  | dir, segment :: rest =>
    match Component.ofSegment? segment with
    | some .up => walkWith t follow dir.parent rest
    | some (.name n) =>
      match t.get? (dir.entry n) with
      | none => if rest = [] then .ok (.vacant (dir.entry n)) else .error .notFound
      | some .directory => walkWith t follow (dir.entry n) rest
      | some (.file _) =>
        if rest = [] then .ok (.found (dir.entry n)) else .error .notDirectory
      | some (.link target) =>
        follow (if target.isAbsolute then .root else dir) (target.segments ++ rest)
    | _ => walkWith t follow dir rest

/-- The walk from a directory that follows at most `links` links. -/
def walk (t : FileTree) : (links : Nat) → Location → List (List Char) → Except FileError Landing
  | 0 => t.walkWith fun _ _ => .error .tooManyLinks
  | links + 1 => t.walkWith (walk t links)

end FileTree

end SheetGraph
