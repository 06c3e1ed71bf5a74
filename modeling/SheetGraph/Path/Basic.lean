import SheetGraph.Path.Name
import SheetGraph.Text.Letters

/-!
# Paths

A `Path` is the text of a path as it was written.  Its meaning is its list of `components`:
repeated slashes, a trailing slash and an inner `.` do not count, while a leading `.` and every
`..` do.  Two paths are the `same` when their components agree.
-/

namespace SheetGraph

/-- One step of a path. -/
inductive Component where
  | root
  | here
  | up
  | name (n : Name)
  deriving DecidableEq

namespace Component

/-- The component that a text between slashes stands for; an empty text and a `.` stand for none. -/
def ofSegment? (cs : List Char) : Option Component :=
  if cs = ['.', '.'] then some .up else (Name.ofChars? cs).map .name

/-- Position of the kinds of components in the order of paths. -/
def rank : Component → Nat
  | root => 0
  | here => 1
  | up => 2
  | name _ => 3

/-- The text of the component. -/
def text : Component → List Char
  | root => ['/']
  | here => ['.']
  | up => ['.', '.']
  | name n => n.chars

/-- Components are ordered by kind, and names among themselves. -/
def compare : Component → Component → Ordering
  | .name a, .name b => Name.compare a b
  | a, b => Ord.compare a.rank b.rank

end Component

/-- A path as it was written. -/
structure Path where
  text : String
  deriving DecidableEq

namespace Path

instance : ToString Path := ⟨Path.text⟩

/-- The path with these characters. -/
def ofChars (cs : List Char) : Path :=
  ⟨String.ofList cs⟩

/-- The characters of the path. -/
def chars (p : Path) : List Char :=
  p.text.toList

/-- The texts between the slashes. -/
def segments (p : Path) : List (List Char) :=
  p.chars.splitOn '/'

/-- Whether the path starts at the root. -/
def isAbsolute (p : Path) : Bool :=
  p.chars.head? == some '/'

/-- Whether the path has no text. -/
def isEmpty (p : Path) : Bool :=
  p.chars.isEmpty

/-- What the first of the texts between the slashes stands for; `more` tells whether others
follow. -/
def leading (first : List Char) (more : Bool) : List Component :=
  if first = [] then (if more then [.root] else [])
  else if first = ['.'] then [.here]
  else (Component.ofSegment? first).toList

/-- The components that a list of texts between slashes stands for. -/
def componentsOf : List (List Char) → List Component
  | [] => []
  | first :: rest => leading first (!rest.isEmpty) ++ rest.filterMap Component.ofSegment?

/-- The components of the path. -/
def components (p : Path) : List Component :=
  componentsOf p.segments

/-- Whether two paths have the same components. -/
def same (p q : Path) : Bool :=
  p.components == q.components

/-- Paths are ordered component by component. -/
def compare (p q : Path) : Ordering :=
  List.compareLex Component.compare p.components q.components

/-- The path `q` seen from `p`: an absolute `q` replaces `p`, any other is written behind it. -/
def join (p q : Path) : Path :=
  if q.isAbsolute then q
  else if p.chars = [] ∨ p.chars.getLast? = some '/' then ofChars (p.chars ++ q.chars)
  else ofChars (p.chars ++ '/' :: q.chars)

/-- The path `p` with the relative path `text` behind it. -/
def child (p : Path) (text : String) : Path :=
  p.join ⟨text⟩

/-- What is left of `p` behind the components of `base`, if it begins with them. -/
def relativeTo? (base p : Path) : Option Path :=
  (List.isPrefixOf? base.components p.components).map fun rest =>
    ofChars (['/'].intercalate (rest.map Component.text))

/-- Whether a text between slashes is passed over: an empty one, or a `.`. -/
def isIdle (segment : List Char) : Bool :=
  segment == [] || segment == ['.']

/-- The path in front of the last component: none for the root and for an empty path. -/
def parent? (p : Path) : Option Path :=
  match p.segments.reverse.dropWhile isIdle with
  | [] => if p.segments.head? = some ['.'] then some ⟨""⟩ else none
  | _ :: before =>
    match before.dropWhile isIdle with
    | [] =>
      if p.isAbsolute then some ⟨"/"⟩
      else if before.isEmpty then some ⟨""⟩
      else some ⟨"."⟩
    | kept => some (ofChars (['/'].intercalate kept.reverse))

/-- The name at the end of the path, if its last component is a name. -/
def fileName? (p : Path) : Option Name :=
  match p.components.getLast? with
  | some (.name n) => some n
  | _ => none

/-- The extension of the name at the end. -/
def extension? (p : Path) : Option (List Char) :=
  p.fileName?.bind fun n => SheetGraph.extension? n.chars

/-- Whether the extension is `ext`, up to the case of ASCII letters. -/
def hasExtension (p : Path) (ext : String) : Bool :=
  p.extension?.any (Text.sameLetters ext.toList)

/-- The path with `ext` for the extension of its last name.  A path that ends in no name is left
alone.  When the stem is a single dot and nothing follows the name, the old extension is taken
away and none is put in its place, since what is left is no name. -/
def withExtension (p : Path) (ext : List Char) : Path :=
  match p.fileName?, p.segments.reverse.dropWhile isIdle with
  | some n, last :: before =>
    let renamed := ofChars (['/'].intercalate
      ((if ext = [] then stem last else stem last ++ '.' :: ext) :: before).reverse)
    if stem last = ['.'] ∧ SheetGraph.extension? last ≠ none ∧ p.segments.getLast? = some n.chars
    then ofChars (['/'].intercalate (['.', '.'] :: before).reverse)
    else renamed
  | _, _ => p

end Path

end SheetGraph
