import SheetGraph.Stylesheet.Kind

/-!
# The path of a location

The path that is written for a location leads back to it: its components are the root and the names
(`components_path`), so reading it from anywhere gives the location (`locateFrom_path`), and no two
locations have the same path (`path_injective`).
-/

namespace SheetGraph

/-- The name of an entry is read as that name. -/
theorem Component.ofSegment?_chars (n : Name) : ofSegment? n.chars = some (.name n) := by
  have hdots : n.chars ≠ ['.', '.'] := by
    intro h
    have hvalid := n.valid
    rw [show n.text.toList = ['.', '.'] from h] at hvalid
    exact absurd hvalid (by decide)
  rw [ofSegment?, if_neg hdots, Name.ofChars?_chars, Option.map_some]

/-- No text between slashes is the root. -/
theorem Component.ofSegment?_ne_root (s : List Char) : ofSegment? s ≠ some .root := by
  unfold ofSegment?
  split
  · simp
  · cases Name.ofChars? s <;> simp

theorem filterMap_chars (names : List Name) :
    (names.map Name.chars).filterMap Component.ofSegment? = names.map Component.name := by
  rw [List.filterMap_map, ← List.filterMap_eq_map]
  congr 1
  funext n
  exact Component.ofSegment?_chars n

theorem Name.chars_ne_nil (n : Name) : n.chars ≠ [] := by
  intro hnil
  have hvalid := n.valid
  rw [show n.text.toList = [] from hnil] at hvalid
  exact absurd hvalid (by decide)

namespace Path

@[simp] theorem chars_ofChars (cs : List Char) : (ofChars cs).chars = cs :=
  String.toList_ofList

theorem splitOn_slash_cons (cs : List Char) : ('/' :: cs).splitOn '/' = [] :: cs.splitOn '/' := by
  simp [List.splitOn_cons_eq_if_modifyHead]

/-- An absolute path begins with an empty text, behind which there is another one. -/
theorem exists_segments_of_isAbsolute {p : Path} (hp : p.isAbsolute = true) :
    ∃ rest, p.segments = [] :: rest ∧ rest ≠ [] := by
  rw [isAbsolute, beq_iff_eq] at hp
  obtain ⟨cs, hcs⟩ := List.head?_eq_some_iff.mp hp
  refine ⟨cs.splitOn '/', ?_, List.splitOn_ne_nil '/' cs⟩
  rw [segments, hcs, splitOn_slash_cons]

/-- **An absolute path** is read from the root, wherever it is. -/
theorem locateFrom_of_isAbsolute {p : Path} (hp : p.isAbsolute = true) (base : Location) :
    p.locateFrom base = (p.segments.filterMap Component.ofSegment?).foldl Location.step .root := by
  obtain ⟨rest, hrest, hne⟩ := exists_segments_of_isAbsolute hp
  have hmore : (!rest.isEmpty) = true := by simpa using hne
  rw [locateFrom, components, hrest, componentsOf, leading, if_pos rfl, hmore, if_pos rfl]
  rfl

theorem segments_ofNames {names : List Name} (hne : names ≠ []) :
    (ofNames names).segments = names.map Name.chars := by
  rw [segments, ofNames, chars_ofChars, Location.joinNames, List.splitOn_intercalate]
  · intro cs hcs
    obtain ⟨m, -, rfl⟩ := List.mem_map.mp hcs
    exact m.slash_not_mem_chars
  · simpa using hne

/-- What starts with a name starts with no slash. -/
theorem isAbsolute_ofNames (names : List Name) : (ofNames names).isAbsolute = false := by
  have hhead : (Location.joinNames names).head? ≠ some '/' := by
    cases names with
    | nil => simp [Location.joinNames]
    | cons n names =>
      obtain ⟨first, rest, hn⟩ := List.exists_cons_of_ne_nil n.chars_ne_nil
      have hslash : first ≠ '/' := by
        rintro rfl
        exact n.slash_not_mem_chars (hn ▸ List.mem_cons_self)
      cases names with
      | nil => simpa [Location.joinNames, hn] using hslash
      | cons m names => simpa [Location.joinNames, List.intercalate, hn] using hslash
  rw [isAbsolute, ofNames, chars_ofChars]
  simpa using hhead

end Path

namespace Location

variable {l : Location}

/-- The texts behind the first slash in the path of a location: its names, or an empty text. -/
def segments (l : Location) : List (List Char) :=
  if l.names = [] then [[]] else l.names.map Name.chars

theorem segments_path (l : Location) : l.path.segments = [] :: l.segments := by
  rw [Path.segments, path, Path.chars_ofChars, Path.splitOn_slash_cons, segments]
  split
  · rename_i h
    rw [joinNames, h]
    rfl
  · rename_i h
    rw [joinNames, List.splitOn_intercalate]
    · intro cs hcs
      obtain ⟨n, -, rfl⟩ := List.mem_map.mp hcs
      exact n.slash_not_mem_chars
    · simpa using h

theorem filterMap_segments (l : Location) :
    l.segments.filterMap Component.ofSegment? = l.names.map Component.name := by
  unfold segments
  split
  · rename_i h
    rw [h]
    rfl
  · exact filterMap_chars l.names

theorem segments_ne_nil (l : Location) : l.segments ≠ [] := by
  unfold segments
  split
  · exact List.cons_ne_nil _ _
  · simpa

/-- **The components of the path are the root and the names.** -/
theorem components_path (l : Location) :
    l.path.components = .root :: l.names.map Component.name := by
  rw [Path.components, segments_path, Path.componentsOf, filterMap_segments, Path.leading,
    if_pos rfl]
  simp [segments_ne_nil]

@[simp] theorem isAbsolute_path (l : Location) : l.path.isAbsolute = true := by
  simp [Path.isAbsolute, path]

@[simp] theorem isEmpty_path (l : Location) : l.path.isEmpty = false := by
  simp [Path.isEmpty, path]

theorem foldl_step_names (base : Location) (names : List Name) :
    (names.map Component.name).foldl step base = base.below names := by
  induction names generalizing base with
  | nil => rw [below_nil]; rfl
  | cons n names ih =>
    rw [List.map_cons, List.foldl_cons, ih]
    simp [step, entry, below]

/-- **The path of a location leads to it**, wherever it is read from. -/
@[simp] theorem locateFrom_path (base l : Location) : l.path.locateFrom base = l := by
  rw [Path.locateFrom, components_path, List.foldl_cons, foldl_step_names]
  rfl

/-- **No two locations have the same path.** -/
theorem path_injective : Function.Injective path := by
  intro a b h
  rw [← locateFrom_path root a, h, locateFrom_path]

theorem fileName?_path (l : Location) : l.path.fileName? = l.fileName? := by
  rw [Path.fileName?, components_path, fileName?]
  rcases List.eq_nil_or_concat l.names with h | ⟨names, n, h⟩
  · rw [h]
    rfl
  · rw [h]
    simp [List.getLast?_cons]

@[simp] theorem isStylesheet_path (l : Location) : l.path.isStylesheet = l.isStylesheet := by
  rw [Path.isStylesheet, fileName?_path, isStylesheet]

/-! ### Directories of a location -/

@[simp] theorem names_below (l : Location) (names : List Name) :
    (l.below names).names = l.names ++ names := rfl

@[simp] theorem names_root : root.names = [] := rfl

theorem below_concat (l : Location) (names : List Name) (n : Name) :
    l.below (names ++ [n]) = (l.below names).entry n := by
  simp [below, entry]

theorem below_cons (l : Location) (n : Name) (names : List Name) :
    l.below (n :: names) = (l.entry n).below names := by
  simp [below, entry]

@[simp] theorem isWithin_self (l : Location) : l.isWithin l = true :=
  isWithin_iff.mpr ⟨[], (below_nil l).symm⟩

theorem isWithin_trans {a b c : Location} (hab : a.isWithin b = true)
    (hbc : b.isWithin c = true) : a.isWithin c = true := by
  obtain ⟨more, rfl⟩ := isWithin_iff.mp hab
  obtain ⟨rest, rfl⟩ := isWithin_iff.mp hbc
  exact isWithin_iff.mpr ⟨rest ++ more, below_below _ _ _⟩

theorem isWithin_entry {dir base : Location} (hdir : dir.isWithin base = true) (n : Name) :
    (dir.entry n).isWithin base = true := by
  obtain ⟨names, rfl⟩ := isWithin_iff.mp hdir
  exact isWithin_iff.mpr ⟨names ++ [n], (below_concat _ _ _).symm⟩

/-- Of two directories that hold a location one holds the other. -/
theorem isWithin_total {a b c : Location} (hb : a.isWithin b = true) (hc : a.isWithin c = true) :
    b.isWithin c = true ∨ c.isWithin b = true := by
  obtain ⟨rest, rfl⟩ := isWithin_iff.mp hb
  obtain ⟨rest', h⟩ := isWithin_iff.mp hc
  have hnames : b.names ++ rest = c.names ++ rest' := congrArg names h
  rcases List.append_eq_append_iff.mp hnames with ⟨more, hmore, -⟩ | ⟨more, hmore, -⟩
  · exact Or.inr (isWithin_iff.mpr ⟨more, by cases c; simp_all [below]⟩)
  · exact Or.inl (isWithin_iff.mpr ⟨more, by cases b; simp_all [below]⟩)

end Location

end SheetGraph
