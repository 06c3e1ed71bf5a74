import SheetGraph.Path.Basic

/-!
# Locations

A `Location` is an absolute path with nothing left to fold: the names from the root down.  A path
read from a location is folded without a look at any file: `.` stays, `..` goes one name up and
stays at the root when there is none (`Path.locateFrom`).  Two paths are the same node of an import
graph exactly when they have the same location.
-/

namespace SheetGraph

/-- An absolute path in normal form. -/
structure Location where
  names : List Name
  deriving DecidableEq

namespace Location

/-- The root directory. -/
def root : Location := ⟨[]⟩

/-- The entry `n` of the directory. -/
def entry (l : Location) (n : Name) : Location :=
  ⟨l.names ++ [n]⟩

/-- The directory that holds the location; the root holds itself. -/
def parent (l : Location) : Location :=
  ⟨l.names.dropLast⟩

/-- What is behind `rest` names further down. -/
def below (l : Location) (rest : List Name) : Location :=
  ⟨l.names ++ rest⟩

/-- Where one component leads. -/
def step (l : Location) : Component → Location
  | .root => root
  | .here => l
  | .up => l.parent
  | .name n => l.entry n

/-- The names as they are written one below the other. -/
def joinNames (names : List Name) : List Char :=
  ['/'].intercalate (names.map Name.chars)

/-- The path of the location. -/
def path (l : Location) : Path :=
  Path.ofChars ('/' :: joinNames l.names)

instance : ToString Location := ⟨fun l => l.path.text⟩

/-- The last name. -/
def fileName? (l : Location) : Option Name :=
  l.names.getLast?

/-- The names from `base` down to the location, if it lies at or below `base`. -/
def from? (base l : Location) : Option (List Name) :=
  List.isPrefixOf? base.names l.names

/-- Whether the location lies at or below `base`. -/
def isWithin (l base : Location) : Bool :=
  (base.from? l).isSome

/-- Locations are ordered name by name. -/
def compare (a b : Location) : Ordering :=
  List.compareLex Name.compare a.names b.names

/-- The order of locations as a test. -/
def le (a b : Location) : Bool :=
  (a.compare b).isLE

end Location

/-- The relative path that these names make up. -/
def Path.ofNames (names : List Name) : Path :=
  Path.ofChars (Location.joinNames names)

/-- The location of a path that is read from `base`. -/
def Path.locateFrom (base : Location) (p : Path) : Location :=
  p.components.foldl Location.step base

/-! ### Laws -/

namespace Location

@[simp] theorem names_entry (l : Location) (n : Name) : (l.entry n).names = l.names ++ [n] := rfl

@[simp] theorem parent_entry (l : Location) (n : Name) : (l.entry n).parent = l := by
  simp [parent, entry]

@[simp] theorem parent_root : root.parent = root := rfl

/-- Every location but the root is an entry of its parent. -/
theorem exists_entry_parent {l : Location} (h : l ≠ root) : ∃ n, l = l.parent.entry n := by
  obtain ⟨names⟩ := l
  have hne : names ≠ [] := fun hn => h (by simp [root, hn])
  exact ⟨names.getLast hne, by simp [parent, entry, List.dropLast_concat_getLast]⟩

@[simp] theorem below_nil (l : Location) : l.below [] = l := by
  simp [below]

theorem below_below (l : Location) (a b : List Name) : (l.below a).below b = l.below (a ++ b) := by
  simp [below]

private theorem isPrefixOf?_eq_some_iff {a b rest : List Name} :
    List.isPrefixOf? a b = some rest ↔ b = a ++ rest := by
  induction a generalizing b with
  | nil =>
    show some b = some rest ↔ _
    simp
  | cons x xs ih =>
    cases b with
    | nil =>
      show none = some rest ↔ _
      simp
    | cons y ys =>
      show (if x == y then List.isPrefixOf? xs ys else none) = some rest ↔ _
      by_cases h : x = y
      · simp [h, ih]
      · simp [h, Ne.symm h]

theorem from?_eq_some_iff {base l : Location} {rest : List Name} :
    base.from? l = some rest ↔ l = base.below rest := by
  cases base; cases l
  simp only [from?, isPrefixOf?_eq_some_iff, below, Location.mk.injEq]

theorem isWithin_iff {base l : Location} :
    l.isWithin base = true ↔ ∃ rest, l = base.below rest := by
  simp [isWithin, Option.isSome_iff_exists, from?_eq_some_iff]

/-- What lies in a directory lies wherever the directory lies. -/
theorem isWithin_of_parent {base l : Location} (h : l ≠ root)
    (hp : l.parent.isWithin base = true) : l.isWithin base = true := by
  obtain ⟨n, hn⟩ := exists_entry_parent h
  obtain ⟨rest, hrest⟩ := isWithin_iff.1 hp
  refine isWithin_iff.2 ⟨rest ++ [n], ?_⟩
  rw [hn, hrest]
  simp [entry, below]

end Location

end SheetGraph
