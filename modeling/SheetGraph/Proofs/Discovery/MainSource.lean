import SheetGraph.Proofs.Discovery.Listing

/-!
# Listed files and main sources

Two tests say which files a project compiles: the search lists them on its way down the directories,
and `isMainSource` looks at the location of a single one.  Both leave out what lies in a library
directory, the search by not entering it.  But no search enters the directory that it starts from,
or what is around it.  So it takes no notice of a library directory there, although nothing below
that is a main source.

* `exists_gatherSources`: a search of a directory that is there succeeds.
* `mem_sourcesUnder_iff`: what it lists of a tree without links, said without the search.
* `listed_iff_isMainSource`: the two tests disagree about nothing but what is listed below a library
  directory around the source directory; `listed_in_library` is a file of that kind.
-/

namespace SheetGraph

variable {d : Disk} {root dir real l lib : Location} {options : FinderOptions}
  {sources : List Location} {names : List Name} {n : Name} {e : Entry} {p : Project}

/-! ### Searches that succeed -/

/-- Below the root of a search there is always an answer. -/
theorem exists_isListed (hl : l.isWithin root = true) :
    ∃ listed, isListed root options l = .ok listed := by
  obtain ⟨names, hfrom⟩ := Option.isSome_iff_exists.mp hl
  unfold isListed isAllowed
  rw [hfrom, Option.map_some, Option.getD_some, Path.isAbsolute_ofNames]
  split
  · exact ⟨false, rfl⟩
  · exact ⟨_, rfl⟩

/-- **A search of a directory that is there succeeds.** -/
theorem exists_gatherSources (levels : Nat) (hdir : d.find dir.path = .ok (real, .directory))
    (hroot : dir.isWithin root = true) :
    ∃ sources, gatherSources d root options levels dir = .ok sources := by
  induction levels generalizing dir real with
  | zero => exact ⟨[], rfl⟩
  | succ levels ih =>
    have hread := Disk.readDir_of_find hdir rfl
    rw [gatherSources_succ, hread]
    dsimp only
    have hentries : ∀ entry ∈ (d.tree.namesIn real).filterMap fun n =>
        (d.tree.get? (real.entry n)).map fun e => (n, e),
        ∃ ls, gatherEntry d root options levels dir entry = .ok ls := by
      rintro ⟨n, e⟩ hmem
      have hget := (Disk.mem_readDir hdir hread).mp hmem
      unfold gatherEntry
      dsimp only
      split
      · rename_i he
        subst he
        split
        · exact ih (Disk.find_entry hdir hget Entry.directory_ne_link)
            (Location.isWithin_entry hroot n)
        · exact ⟨[], rfl⟩
      · split
        · exact ⟨[], rfl⟩
        · obtain ⟨listed, hlisted⟩ : ∃ listed, isListed root options (dir.entry n) = .ok listed :=
            exists_isListed (Location.isWithin_entry hroot n)
          rw [hlisted]
          exact ⟨_, rfl⟩
    obtain ⟨lists, hlists⟩ := exists_mapM_eq_ok_iff.mpr hentries
    rw [hlists]
    exact ⟨_, rfl⟩

theorem exists_sourcesUnder (options : FinderOptions)
    (hroot : d.find root.path = .ok (real, .directory)) :
    ∃ sources, sourcesUnder d root options = .ok sources :=
  exists_gatherSources _ hroot (Location.isWithin_self root)

/-! ### Ways that are searched -/

/-- **A way is searched** if no directory on it is excluded. -/
theorem isSearched_of_notMem {t : FileTree} (hrec : options.recursive = true)
    (hget : t.get? ((dir.below names).entry n) = some e)
    (hnew : ∀ before after, names = before ++ after → before ≠ [] →
      dir.below before ∉ options.excludedDirs) : IsSearched t options dir dir names := by
  refine isSearched_iff.mpr fun front hfront hne => ?_
  obtain ⟨after, rfl⟩ := hfront
  rw [← Location.below_below] at hget
  exact ⟨hrec, FileTree.isDirectory_iff.mp (FileTree.isDirectory_of_below hget),
    hnew front after rfl hne⟩

/-- A file below the root of a search is in some directory below it. -/
theorem exists_entry_of_isWithin (hlinks : d.tree.LinkFree) (hroot : d.isDir root.path = true)
    (hfile : d.isFile l.path = true) (hl : l.isWithin root = true) :
    ∃ names n content, l = (root.below names).entry n ∧ d.tree.get? l = some (.file content) := by
  obtain ⟨k, content, hfind⟩ := Disk.isFile_iff.mp hfile
  obtain ⟨k', hdir⟩ := Disk.isDir_iff.mp hroot
  rw [Disk.find_path_iff hlinks] at hfind hdir
  obtain ⟨all, rfl⟩ := Location.isWithin_iff.mp hl
  rcases List.eq_nil_or_concat all with rfl | ⟨names, n, rfl⟩
  · rw [Location.below_nil, hdir.2] at hfind
    cases hfind.2
  · rw [List.concat_eq_append, Location.below_concat] at hfind ⊢
    exact ⟨names, n, content, rfl, hfind.2⟩

/-- **Which files are listed** in a tree without links, when the excluded directories are there:
those that pass `isListed` and lie in no excluded directory, except for one that is around the root
of the search. -/
theorem mem_sourcesUnder_iff (hlinks : d.tree.LinkFree) (hroot : d.isDir root.path = true)
    (hdirs : ∀ lib ∈ options.excludedDirs, d.isDir lib.path = true)
    (hrec : options.recursive = true) (hsources : sourcesUnder d root options = .ok sources)
    (hfile : d.isFile l.path = true) (hl : l.isWithin root = true) :
    l ∈ sources ↔ (∀ lib ∈ options.excludedDirs, root.isWithin lib = false →
      l.isWithin lib = false) ∧ isListed root options l = .ok true := by
  obtain ⟨names, n, content, rfl, hget⟩ := exists_entry_of_isWithin hlinks hroot hfile hl
  obtain ⟨real, hfind⟩ := Disk.isDir_iff.mp hroot
  have hreal := ((Disk.find_path_iff hlinks).mp hfind).1
  subst hreal
  have hisdir : d.isDir ((real.below names).entry n).path = false := by
    rw [Disk.isDir, Disk.find_path hget Entry.file_ne_link]
  rw [mem_sourcesUnder hfind hsources]
  constructor
  · rintro ⟨names', n', heq, hfound⟩
    rw [heq]
    refine ⟨fun lib hlib hout => ?_, hfound.2.2.2⟩
    apply isWithin_eq_false_of_isFound hfound hlib hout
    -- An excluded directory is not the file.
    rintro rfl
    rw [heq, hdirs _ hlib] at hisdir
    cases hisdir
  · rintro ⟨hout, hlisted⟩
    refine ⟨names, n, rfl, ?_, ⟨_, hget, by simp⟩, hisdir, hlisted⟩
    -- A directory on the way holds the file and is not around the root.
    apply isSearched_of_notMem hrec hget
    rintro before after rfl hne hlib
    have hwithin : ((real.below (before ++ after)).entry n).isWithin (real.below before)
        = true := by
      apply Location.isWithin_entry
      exact Location.isWithin_iff.mpr ⟨after, (Location.below_below _ _ _).symm⟩
    have hbelow : real.isWithin (real.below before) = false := by
      by_contra habove
      rw [Bool.not_eq_false] at habove
      obtain ⟨rest, hrest⟩ := Location.isWithin_iff.mp habove
      have hnames := congrArg Location.names hrest
      rw [Location.names_below, Location.names_below, List.append_assoc] at hnames
      have hnil := List.append_eq_nil_iff.mp (List.self_eq_append_right.mp hnames)
      exact hne hnil.1
    rw [hout _ hlib hbelow] at hwithin
    cases hwithin

/-! ### Main sources -/

/-- What `verifyPaths` passes is there. -/
theorem isDir_of_missingLibrary? {index : Nat} {libs : List Location}
    (h : Project.missingLibrary? d index libs = none) : ∀ lib ∈ libs, d.isDir lib.path = true := by
  induction libs generalizing index with
  | nil => simp
  | cons lib libs ih =>
    rw [Project.missingLibrary?] at h
    split at h
    · rename_i hlib
      exact List.forall_mem_cons.mpr ⟨hlib, ih h⟩
    · cases h

theorem isDir_of_verifyPaths (h : p.verifyPaths d = .ok ()) :
    d.isDir p.sourceDir.path = true ∧ ∀ lib ∈ p.libraryDirs, d.isDir lib.path = true := by
  unfold Project.verifyPaths at h
  split at h
  · cases h
  · rename_i hsource
    split at h
    · cases h
    · rename_i hlibs
      exact ⟨by simpa using hsource, isDir_of_missingLibrary? hlibs⟩

/-- The options without the excluded directories that are around a directory, which a search of it
does not come to. -/
def FinderOptions.inner (options : FinderOptions) (root : Location) : FinderOptions :=
  { options with excludedDirs := options.excludedDirs.filter fun lib => !root.isWithin lib }

theorem isMainSource_inner_iff (hl : l.isWithin p.sourceDir = true) :
    p.isMainSource (options.inner p.sourceDir) l = true ↔
      (∀ lib ∈ options.excludedDirs, p.sourceDir.isWithin lib = false → l.isWithin lib = false) ∧
        isListed p.sourceDir options l = .ok true := by
  rw [isMainSource_iff hl]
  show (∀ lib ∈ options.excludedDirs.filter fun lib => !p.sourceDir.isWithin lib, _) ∧
    isListed p.sourceDir options l = .ok true ↔ _
  simp only [List.mem_filter, Bool.not_eq_true', and_imp]

theorem finderOptions_recursive {p : Project} (h : p.finderOptions = .ok options) :
    options.recursive = true := by
  unfold Project.finderOptions at h
  split at h <;> cases h
  rfl

/-- **What is listed of a project** whose directories are there, in a tree without links: the main
sources, as they are when no notice is taken of library directories around the source directory. -/
theorem exists_compilableSources (hoptions : p.finderOptions = .ok options)
    (hverified : p.verifyPaths d = .ok ()) (hlinks : d.tree.LinkFree) :
    ∃ sources, compilableSources d p.sourceDir options = .ok sources ∧
      ∀ l, d.isFile l.path = true → l.isWithin p.sourceDir = true →
        (l.path ∈ sources ↔ p.isMainSource (options.inner p.sourceDir) l = true) := by
  obtain ⟨hroot, hlibs⟩ := isDir_of_verifyPaths hverified
  obtain ⟨real, hfind⟩ := Disk.isDir_iff.mp hroot
  obtain ⟨sources, hsources⟩ := exists_sourcesUnder options hfind
  refine ⟨sources.map Location.path, ?_, ?_⟩
  · rw [compilableSources, hsources, finderOptions_absolute hoptions]
    rfl
  · intro l hfile hl
    rw [List.mem_map_of_injective Location.path_injective, isMainSource_inner_iff hl]
    rw [← finderOptions_excludedDirs hoptions] at hlibs
    exact mem_sourcesUnder_iff hlinks hroot hlibs (finderOptions_recursive hoptions) hsources hfile
      hl

/-! ### A library directory in the source directory -/

/-- A project with some library directories. -/
def nestedProject (libraryPaths : List Path) : Project where
  settings := { project := { source := ⟨"styles"⟩, libraryPaths := libraryPaths } }
  root := .root

/-- A file of the source directory. -/
def nestedA : Location :=
  (Location.root.entry ⟨"styles", by decide⟩).entry ⟨"page.scss", by decide⟩

/-- A file of a directory in it. -/
def nestedB : Location :=
  (nestedA.parent.entry ⟨"vendor", by decide⟩).entry ⟨"grid.scss", by decide⟩

/-- A disk with both files. -/
def nestedDisk : Disk where
  tree := (((FileTree.empty.put nestedA.parent .directory).put nestedB.parent .directory).put
    nestedA (.file "".toUTF8)).put nestedB (.file "".toUTF8)
  cwd := .root

theorem linkFree_nestedDisk : nestedDisk.tree.LinkFree :=
  FileTree.linkFree_of_all (by decide +kernel)

/-! ### Two tests -/

/-- **Listed files and main sources.**  The search for the sources of a project succeeds when its
directories are there.  A file is listed when it is a main source, as far as library directories
around the source directory are left out of account.  So the two tests agree on all files if there
is no such directory, and otherwise just on those that are not listed. -/
theorem listed_iff_isMainSource (hoptions : p.finderOptions = .ok options)
    (hverified : p.verifyPaths d = .ok ()) (hlinks : d.tree.LinkFree) :
    ∃ sources, compilableSources d p.sourceDir options = .ok sources ∧
      ∀ l, d.isFile l.path = true → l.isWithin p.sourceDir = true →
        (l.path ∈ sources ↔ p.isMainSource (options.inner p.sourceDir) l = true) ∧
        ((l.path ∈ sources ↔ p.isMainSource options l = true) ↔
          (∀ lib ∈ p.libraryDirs, p.sourceDir.isWithin lib = false) ∨ l.path ∉ sources) := by
  obtain ⟨sources, hsources, hlisted⟩ := exists_compilableSources hoptions hverified hlinks
  refine ⟨sources, hsources, fun l hfile hl => ⟨hlisted l hfile hl, ?_⟩⟩
  rw [hlisted l hfile hl, isMainSource_inner_iff hl, isMainSource_iff hl,
    finderOptions_excludedDirs hoptions]
  by_cases hnone : ∀ lib ∈ p.libraryDirs, p.sourceDir.isWithin lib = false
  · have hsame : (∀ lib ∈ p.libraryDirs, p.sourceDir.isWithin lib = false →
        l.isWithin lib = false) ↔ ∀ lib ∈ p.libraryDirs, l.isWithin lib = false :=
      forall₂_congr fun lib hlib => forall_prop_of_true (hnone lib hlib)
    rw [hsame]
    exact iff_of_true Iff.rfl (Or.inl hnone)
  · -- Below such a directory nothing is a main source.
    have hcovered : ¬ ∀ lib ∈ p.libraryDirs, l.isWithin lib = false := by
      intro hout
      apply hnone
      intro lib hlib
      by_contra habove
      rw [Bool.not_eq_false] at habove
      have hwithin := Location.isWithin_trans hl habove
      rw [hout lib hlib] at hwithin
      cases hwithin
    rw [or_iff_right hnone]
    exact iff_false_right fun hmain => hcovered hmain.1

/-- A library directory in the source directory is left out by both tests. -/
theorem listed_iff_isMainSource_nested :
    (nestedProject [⟨"styles/vendor"⟩]).verifyPaths nestedDisk = .ok () ∧
    ∃ options sources, (nestedProject [⟨"styles/vendor"⟩]).finderOptions = .ok options ∧
      compilableSources nestedDisk (nestedProject [⟨"styles/vendor"⟩]).sourceDir options
        = .ok sources ∧
      nestedA.path ∈ sources ∧ nestedB.path ∉ sources ∧
      (nestedProject [⟨"styles/vendor"⟩]).isMainSource options nestedA = true ∧
      (nestedProject [⟨"styles/vendor"⟩]).isMainSource options nestedB = false := by
  have hverified : (nestedProject [⟨"styles/vendor"⟩]).verifyPaths nestedDisk = .ok () := by
    decide +kernel
  obtain ⟨sources, hsources, hlisted⟩ :=
    listed_iff_isMainSource (p := nestedProject [⟨"styles/vendor"⟩]) rfl hverified
      linkFree_nestedDisk
  refine ⟨hverified, _, sources, rfl, hsources, ?_, ?_, by decide +kernel, by decide +kernel⟩
  · rw [(hlisted nestedA (by decide +kernel) (by decide +kernel)).1]
    decide +kernel
  · rw [(hlisted nestedB (by decide +kernel) (by decide +kernel)).1]
    decide +kernel

/-- A library directory around the source directory does not keep the search from a file that is no
main source for it. -/
theorem listed_in_library :
    (nestedProject [⟨"."⟩]).settings.isValid = true ∧
    (nestedProject [⟨"."⟩]).verifyPaths nestedDisk = .ok () ∧ nestedDisk.tree.LinkFree ∧
    nestedDisk.isFile nestedA.path = true ∧
    nestedA.isWithin (nestedProject [⟨"."⟩]).sourceDir = true ∧
    ∃ options sources, (nestedProject [⟨"."⟩]).finderOptions = .ok options ∧
      compilableSources nestedDisk (nestedProject [⟨"."⟩]).sourceDir options = .ok sources ∧
      nestedA.path ∈ sources ∧ (nestedProject [⟨"."⟩]).isMainSource options nestedA = false := by
  have hverified : (nestedProject [⟨"."⟩]).verifyPaths nestedDisk = .ok () := by decide +kernel
  have hfile : nestedDisk.isFile nestedA.path = true := by decide +kernel
  have hwithin : nestedA.isWithin (nestedProject [⟨"."⟩]).sourceDir = true := by decide +kernel
  obtain ⟨sources, hsources, hlisted⟩ :=
    exists_compilableSources (p := nestedProject [⟨"."⟩]) rfl hverified linkFree_nestedDisk
  refine ⟨by decide +kernel, hverified, linkFree_nestedDisk, hfile, hwithin, _, sources, rfl,
    hsources, ?_, by decide +kernel⟩
  rw [hlisted nestedA hfile hwithin]
  decide +kernel

end SheetGraph
