import Mathlib.Data.Set.List
import SheetGraph.Proofs.Discovery.MainSource
import SheetGraph.Proofs.Discovery.Sorted
import SheetGraph.Proofs.Path.Components

/-!
# The sources of a directory

`compilableSources_spec` tells what a search gives without the search.  An entry is a source
(`IsSource`) if real directories that may be searched lead down to it, it is no directory and no
link to one, and its name and its relative path pass.  The absolute paths of all sources are listed
in strictly increasing order, and the relative ones are what is left of them behind the directory.

All that is listed is `root.below way` for some names `way` (`exists_ways`), so both lists of paths
are maps of one list of ways, and in the order of these.
-/

namespace SheetGraph

variable {d : Disk} {root dir real : Location} {options : FinderOptions} {sources : List Location}
  {dirs : List Name} {n : Name}

/-- The entry `n` behind the directories `dirs` is one of the sources below `root`, whose path leads
to `real`. -/
structure IsSource (d : Disk) (options : FinderOptions) (root real : Location) (dirs : List Name)
    (n : Name) : Prop where
  /-- What lies in between are real directories that are searched, and none is an excluded one. -/
  searched : ∀ front, front <+: dirs → front ≠ [] → options.recursive = true ∧
    d.tree.get? (real.below front) = some .directory ∧ root.below front ∉ options.excludedDirs
  /-- It is there and is no directory. -/
  exists_entry : ∃ e, d.tree.get? ((real.below dirs).entry n) = some e ∧ e ≠ .directory
  /-- It is no link to a directory. -/
  isDir_eq : d.isDir ((root.below dirs).entry n).path = false
  isStylesheet_eq : ((root.below dirs).entry n).isStylesheet = true
  isPartial_eq : ((root.below dirs).entry n).isPartial = false
  /-- No exclude pattern matches its relative path. -/
  matchesText_eq : ∀ g ∈ options.excludes,
    g.matchesText (Path.ofNames (dirs ++ [n])).text = false

theorem isFound_iff :
    IsFound d root options real root dirs n ↔ IsSource d options root real dirs n := by
  rw [IsFound, isSearched_iff, ← Location.below_concat root, isListed_below_iff]
  constructor
  · rintro ⟨hsearched, hentry, hisdir, hstyle, hpartial, hexcludes⟩
    rw [Location.below_concat] at hisdir hstyle hpartial
    exact ⟨hsearched, hentry, hisdir, hstyle, hpartial, hexcludes⟩
  · rintro ⟨hsearched, hentry, hisdir, hstyle, hpartial, hexcludes⟩
    rw [Location.below_concat]
    exact ⟨hsearched, hentry, hisdir, hstyle, hpartial, hexcludes⟩

/-! ### The order of paths -/

theorem Path.ne_of_compare {p q : Path} (h : p.compare q = .lt) : p ≠ q := by
  rintro rfl
  have hself : List.compareLex Component.compare p.components p.components = .eq :=
    Std.ReflCmp.compare_self
  rw [compare, hself] at h
  cases h

/-! ### Searches -/

/-- How the paths are to be given does not show in the search. -/
theorem gatherSources_absolute (absolute : Bool) (levels : Nat) (dir : Location) :
    gatherSources d root { options with absolute := absolute } levels dir
      = gatherSources d root options levels dir := by
  induction levels generalizing dir with
  | zero => rfl
  | succ levels ih =>
    have hentry : gatherEntry d root { options with absolute := absolute } levels dir
        = gatherEntry d root options levels dir := by
      funext entry
      rw [gatherEntry, gatherEntry, ih]
      rfl
    rw [gatherSources_succ, gatherSources_succ, hentry]

/-- **A search fails only where a directory cannot be read.** -/
theorem exists_of_gatherSources_eq_error (levels : Nat) {e : DiscoveryError}
    (hdir : dir.isWithin root = true) (h : gatherSources d root options levels dir = .error e) :
    ∃ path cause, e = .unreadable path cause := by
  induction levels generalizing dir with
  | zero => cases h
  | succ levels ih =>
    rw [gatherSources_succ] at h
    split at h
    · cases h
      exact ⟨_, _, rfl⟩
    · rename_i entries _
      have hmap : entries.mapM (gatherEntry d root options levels dir) = .error e := by
        cases hmap : entries.mapM (gatherEntry d root options levels dir) with
        | error cause =>
          rw [hmap] at h
          exact congrArg _ (Except.error.inj h)
        | ok lists =>
          rw [hmap] at h
          cases h
      obtain ⟨-, ⟨n, entry⟩, -, -, -, hentry⟩ := mapM_eq_error_iff.mp hmap
      have hwithin := Location.isWithin_entry hdir n
      unfold gatherEntry at hentry
      split at hentry
      · split at hentry
        · exact ih hwithin hentry
        · cases hentry
      · split at hentry
        · cases hentry
        · -- Below the root a path is relative, so matching it does not fail.
          obtain ⟨listed, hlisted⟩ : ∃ listed, isListed root options (dir.entry n) = .ok listed :=
            exists_isListed hwithin
          rw [hlisted] at hentry
          cases hentry

/-- What is listed lies below the directory that is searched. -/
theorem exists_ways (h : sourcesUnder d root options = .ok sources) :
    ∃ ways : List (List Name), ways.map root.below = sources := by
  rw [← Set.mem_range, Set.range_list_map]
  intro l hl
  obtain ⟨way, hway⟩ := Location.isWithin_iff.mp (isWithin_of_mem_gatherSources _ h hl)
  exact ⟨way, hway.symm⟩

/-- **The ways to what is listed** are in the order of their names. -/
theorem pairwise_ways {ways : List (List Name)}
    (h : sourcesUnder d root options = .ok (ways.map root.below)) :
    ways.Pairwise fun v w => List.compareLex Name.compare v w = .lt := by
  refine (List.pairwise_map.mp (pairwise_sourcesUnder h)).imp fun {v w} hvw => ?_
  rwa [Location.compare, Location.names_below, Location.names_below, compareLex_append_left] at hvw

theorem compilableSources_of_ways {ways : List (List Name)}
    (h : sourcesUnder d root options = .ok (ways.map root.below)) :
    compilableSources d root { options with absolute := true }
      = .ok (ways.map fun way => (root.below way).path) ∧
    compilableSources d root { options with absolute := false }
      = .ok (ways.map Path.ofNames) := by
  have hsame : ∀ absolute, sourcesUnder d root { options with absolute := absolute }
      = .ok (ways.map root.below) :=
    fun absolute => (gatherSources_absolute absolute _ root).trans h
  constructor
  · rw [compilableSources, hsame]
    show Except.ok ((ways.map root.below).map Location.path) = _
    rw [List.map_map]
    rfl
  · have hfrom : ∀ way, root.from? (root.below way) = some way := fun way =>
      Location.from?_eq_some_iff.mpr rfl
    rw [compilableSources, hsame]
    show Except.ok ((ways.map root.below).filterMap fun l => (root.from? l).map Path.ofNames) = _
    rw [List.filterMap_map, ← List.filterMap_eq_map]
    congr 2
    funext way
    exact congrArg (Option.map Path.ofNames) (hfrom way)

/-- No search asks for the exclude patterns that match an absolute path. -/
theorem compilableSources_ne_absolutePath (path : Path) :
    compilableSources d root options ≠ .error (.absolutePath path) := by
  intro h
  cases hsources : sourcesUnder d root options with
  | error e =>
    obtain ⟨dir, cause, rfl⟩ :=
      exists_of_gatherSources_eq_error _ (Location.isWithin_self root) hsources
    rw [compilableSources, hsources] at h
    cases h
  | ok sources =>
    rw [compilableSources, hsources] at h
    cases h

/-! ### What is listed -/

/-- **The main sources of a directory.**  The search of a directory that is there succeeds.  The
absolute paths that it gives are those of the sources, each once and in strictly increasing order.
The relative paths are what is left of these behind the directory, in the same order, which is
strictly increasing for them too.  No search fails because of an absolute path. -/
theorem compilableSources_spec (d : Disk) (root : Location) (options : FinderOptions) :
    (∀ path, compilableSources d root options ≠ .error (.absolutePath path)) ∧
    ∀ real, d.find root.path = .ok (real, .directory) → ∃ absolutes relatives,
      compilableSources d root { options with absolute := true } = .ok absolutes ∧
      compilableSources d root { options with absolute := false } = .ok relatives ∧
      absolutes.Pairwise (fun p q => p.compare q = .lt) ∧
      relatives.Pairwise (fun p q => p.compare q = .lt) ∧ absolutes.Nodup ∧ relatives.Nodup ∧
      (∀ p, p ∈ absolutes ↔ ∃ dirs n, p = ((root.below dirs).entry n).path ∧
        IsSource d options root real dirs n) ∧
      List.Forall₂ (fun p q => root.path.relativeTo? p = some q) absolutes relatives := by
  refine ⟨compilableSources_ne_absolutePath, fun real hroot => ?_⟩
  obtain ⟨sources, hsources⟩ := exists_sourcesUnder options hroot
  obtain ⟨ways, rfl⟩ := exists_ways hsources
  obtain ⟨habsolute, hrelative⟩ := compilableSources_of_ways hsources
  -- Both lists are in the order of the ways.
  have hways := pairwise_ways hsources
  have habsolutes : (ways.map fun way => (root.below way).path).Pairwise
      fun p q => p.compare q = .lt := by
    refine List.pairwise_map.mpr (hways.imp fun {v w} hvw => ?_)
    rwa [Location.compare_path, Location.compare, Location.names_below, Location.names_below,
      compareLex_append_left]
  have hrelatives : (ways.map Path.ofNames).Pairwise fun p q => p.compare q = .lt := by
    refine List.pairwise_map.mpr (hways.imp fun {v w} hvw => ?_)
    rwa [Path.compare_ofNames]
  refine ⟨_, _, habsolute, hrelative, habsolutes, hrelatives, habsolutes.imp Path.ne_of_compare,
    hrelatives.imp Path.ne_of_compare, fun p => ?_, ?_⟩
  · have hmap : (ways.map fun way => (root.below way).path)
        = (ways.map root.below).map Location.path := by
      rw [List.map_map]
      rfl
    rw [hmap, List.mem_map]
    constructor
    · rintro ⟨l, hl, rfl⟩
      obtain ⟨dirs, n, rfl, hfound⟩ := (mem_sourcesUnder hroot hsources).mp hl
      exact ⟨dirs, n, rfl, isFound_iff.mp hfound⟩
    · rintro ⟨dirs, n, rfl, hsource⟩
      exact ⟨_, (mem_sourcesUnder hroot hsources).mpr ⟨dirs, n, rfl, isFound_iff.mpr hsource⟩, rfl⟩
  · rw [List.forall₂_map_left_iff, List.forall₂_map_right_iff, List.forall₂_same]
    exact fun way _ => Location.relativeTo?_path root way

/-- A link to the directory of `nestedA`. -/
def linkedRoot : Location :=
  Location.root.entry ⟨"site", by decide⟩

/-- The name of a link to a file. -/
def copyName : Name := ⟨"copy.scss", by decide⟩

/-- The name of a link to a directory. -/
def themeName : Name := ⟨"theme.scss", by decide⟩

/-- The disk of `nestedDisk` with some links. -/
def themedDisk : Disk where
  tree := ((nestedDisk.tree.put linkedRoot (.link ⟨"styles"⟩)).put
    (nestedA.parent.entry copyName) (.link ⟨"page.scss"⟩)).put
    (nestedA.parent.entry themeName) (.link ⟨"vendor"⟩)
  cwd := .root

/-- A link to the directory of the search is followed.  In it a link to a file is a source, and a
link to a directory is none. -/
theorem compilableSources_spec_linked :
    themedDisk.find linkedRoot.path = .ok (nestedA.parent, .directory) ∧
    ∃ absolutes, compilableSources themedDisk linkedRoot { absolute := true } = .ok absolutes ∧
      (linkedRoot.entry copyName).path ∈ absolutes ∧
      ((linkedRoot.entry ⟨"vendor", by decide⟩).entry ⟨"grid.scss", by decide⟩).path ∈ absolutes ∧
      (linkedRoot.entry themeName).path ∉ absolutes := by
  have hroot : themedDisk.find linkedRoot.path = .ok (nestedA.parent, .directory) := by
    decide +kernel
  obtain ⟨absolutes, -, habsolutes, -, -, -, -, -, hmem, -⟩ :=
    (compilableSources_spec themedDisk linkedRoot {}).2 _ hroot
  refine ⟨hroot, absolutes, habsolutes, ?_, ?_, ?_⟩
  · refine (hmem _).mpr ⟨[], copyName, rfl, ?_⟩
    exact isFound_iff.mp ⟨trivial, ⟨_, rfl, by decide⟩, by decide +kernel, by decide +kernel⟩
  · refine (hmem _).mpr ⟨[⟨"vendor", by decide⟩], ⟨"grid.scss", by decide⟩, rfl, ?_⟩
    exact isFound_iff.mp ⟨⟨rfl, by decide +kernel, by decide, trivial⟩, ⟨_, rfl, by decide⟩,
      by decide +kernel, by decide +kernel⟩
  · intro htheme
    obtain ⟨dirs, n, hpath, hsource⟩ := (hmem _).mp htheme
    have hisdir := hsource.isDir_eq
    rw [← hpath] at hisdir
    exact absurd hisdir (by decide +kernel)

end SheetGraph
