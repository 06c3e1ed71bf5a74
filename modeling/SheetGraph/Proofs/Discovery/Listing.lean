import SheetGraph.Project
import SheetGraph.Proofs.FileTree.Bound
import SheetGraph.Proofs.FileTree.Edit
import SheetGraph.Proofs.Traversal

/-!
# What is listed

The search for main sources enters real directories that are not excluded (`IsSearched`), and lists
what it finds there under a name that passes `isListed`, unless it is a directory or a link to one.
`mem_sourcesUnder` says so for a whole search: the number of levels that `sourcesUnder` allows is
enough for any tree.

Locations are counted twice here, since the directory that is searched may itself be reached by a
link: `dir` is the directory as it is written and `real` the one that its path leads to.
-/

namespace SheetGraph

variable {d : Disk} {root dir real l : Location} {options : FinderOptions}
  {sources : List Location} {n : Name} {e : Entry}

/-! ### The entries of a directory -/

theorem FileTree.mem_namesIn {t : FileTree} :
    n ∈ t.namesIn dir ↔ ∃ e, t.get? (dir.entry n) = some e := by
  have hne : dir.entry n ≠ .root := by
    intro h
    have hnames := congrArg Location.names h
    simp at hnames
  rw [namesIn, List.mem_mergeSort, List.mem_filterMap]
  constructor
  · rintro ⟨⟨k, e⟩, hk, hname⟩
    dsimp only at hname
    split at hname
    · rename_i hparent
      have hkroot := (t.closed _ hk).1
      obtain ⟨n', hn'⟩ := Location.exists_entry_parent hkroot
      dsimp only at hkroot hn'
      rw [hn', Location.fileName?, Location.names_entry, List.getLast?_concat] at hname
      cases hname
      refine ⟨e, (get?_eq_some_iff hne).mpr ?_⟩
      rw [← hparent, ← hn']
      exact hk
    · cases hname
  · rintro ⟨e, he⟩
    refine ⟨(dir.entry n, e), (get?_eq_some_iff hne).mp he, ?_⟩
    rw [if_pos (Location.parent_entry dir n), Location.fileName?, Location.names_entry,
      List.getLast?_concat]

/-- Names that are kept in order are listed as they are kept. -/
theorem FileTree.namesIn_of_pairwise {t : FileTree} {names : List Name}
    (hnames : (t.entries.filterMap fun e =>
      if e.1.parent = dir then e.1.fileName? else none) = names)
    (hsorted : names.Pairwise fun a b => (a.compare b).isLE = true) : t.namesIn dir = names := by
  rw [namesIn, hnames]
  exact List.mergeSort_of_pairwise hsorted

theorem Disk.readDir_of_find (hdir : d.find dir.path = .ok (real, .directory)) {names : List Name}
    (hnames : d.tree.namesIn real = names) :
    d.readDir dir.path
      = .ok (names.filterMap fun n => (d.tree.get? (real.entry n)).map fun e => (n, e)) := by
  rw [readDir, hdir, ← hnames]

theorem Disk.mem_readDir {entries : List (Name × Entry)}
    (hdir : d.find dir.path = .ok (real, .directory)) (h : d.readDir dir.path = .ok entries) :
    (n, e) ∈ entries ↔ d.tree.get? (real.entry n) = some e := by
  rw [readDir_of_find hdir rfl] at h
  cases h
  rw [List.mem_filterMap]
  constructor
  · rintro ⟨n', -, hn'⟩
    obtain ⟨e', he', heq⟩ := Option.map_eq_some_iff.mp hn'
    cases heq
    exact he'
  · intro he
    refine ⟨n, FileTree.mem_namesIn.mpr ⟨e, he⟩, ?_⟩
    rw [he]
    rfl

theorem Disk.exists_find_of_readDir {entries : List (Name × Entry)}
    (h : d.readDir dir.path = .ok entries) : ∃ real, d.find dir.path = .ok (real, .directory) := by
  unfold readDir at h
  split at h
  · cases h
  · rename_i real hfind
    exact ⟨real, hfind⟩
  · cases h

/-! ### Directories that are searched -/

/-- The names lead from a directory down through real directories that are searched. -/
def IsSearched (t : FileTree) (options : FinderOptions) (real dir : Location) : List Name → Prop
  | [] => True
  | n :: names => options.recursive = true ∧ t.get? (real.entry n) = some .directory ∧
      dir.entry n ∉ options.excludedDirs ∧
      IsSearched t options (real.entry n) (dir.entry n) names

/-- What is found under the name `n` behind `names` is a main source of `root`. -/
def IsFound (d : Disk) (root : Location) (options : FinderOptions) (real dir : Location)
    (names : List Name) (n : Name) : Prop :=
  IsSearched d.tree options real dir names ∧
  (∃ e, d.tree.get? ((real.below names).entry n) = some e ∧ e ≠ .directory) ∧
  d.isDir ((dir.below names).entry n).path = false ∧
  isListed root options ((dir.below names).entry n) = .ok true

/-- **A way is searched** if each directory on it is a real one that is not excluded, and there is
none on it unless subdirectories are searched. -/
theorem isSearched_iff {t : FileTree} {names : List Name} :
    IsSearched t options real dir names ↔ ∀ front, front <+: names → front ≠ [] →
      options.recursive = true ∧ t.get? (real.below front) = some .directory ∧
        dir.below front ∉ options.excludedDirs := by
  induction names generalizing real dir with
  | nil =>
    exact ⟨fun _ front hfront hne => absurd (List.prefix_nil.mp hfront) hne, fun _ => trivial⟩
  | cons n names ih =>
    constructor
    · rintro ⟨hrec, hget, hnew, hrest⟩ front hfront hne
      obtain ⟨m, front, rfl⟩ := List.exists_cons_of_ne_nil hne
      obtain ⟨rfl, hmore⟩ := List.cons_prefix_cons.mp hfront
      rw [Location.below_cons, Location.below_cons]
      by_cases hlast : front = []
      · rw [hlast, Location.below_nil, Location.below_nil]
        exact ⟨hrec, hget, hnew⟩
      · exact ih.mp hrest front hmore hlast
    · intro h
      have hfirst := h [n] (List.prefix_append [n] names) (List.cons_ne_nil _ _)
      rw [Location.below_cons, Location.below_cons, Location.below_nil,
        Location.below_nil] at hfirst
      refine ⟨hfirst.1, hfirst.2.1, hfirst.2.2, ih.mpr fun front hfront hne => ?_⟩
      have hmore := h (n :: front) (List.cons_prefix_cons.mpr ⟨rfl, hfront⟩) (List.cons_ne_nil _ _)
      rwa [Location.below_cons, Location.below_cons] at hmore

/-! ### The search -/

/-- What the search does with one entry of a directory. -/
def gatherEntry (d : Disk) (root : Location) (options : FinderOptions) (levels : Nat)
    (dir : Location) (entry : Name × Entry) : Except DiscoveryError (List Location) :=
  if entry.2 = .directory then
    if options.recursive && !options.excludedDirs.contains (dir.entry entry.1) then
      gatherSources d root options levels (dir.entry entry.1)
    else .ok []
  else if d.isDir (dir.entry entry.1).path then .ok []
  else (fun listed => if listed then [dir.entry entry.1] else []) <$>
    isListed root options (dir.entry entry.1)

theorem gatherSources_succ (levels : Nat) (dir : Location) :
    gatherSources d root options (levels + 1) dir =
      match d.readDir dir.path with
      | .error e => .error (.unreadable dir.path e)
      | .ok entries => List.flatten <$> entries.mapM (gatherEntry d root options levels dir) :=
  rfl

theorem gatherEntry_of_directory {levels : Nat} (hrec : options.recursive = true)
    (hdir : dir.entry n ∉ options.excludedDirs) :
    gatherEntry d root options levels dir (n, .directory)
      = gatherSources d root options levels (dir.entry n) := by
  have hcond : (options.recursive && !options.excludedDirs.contains (dir.entry n)) = true := by
    simp [hrec, hdir]
  rw [gatherEntry, if_pos rfl, if_pos hcond]

theorem mem_gatherEntry_of_directory {levels : Nat} {ls : List Location}
    (h : gatherEntry d root options levels dir (n, .directory) = .ok ls) (hl : l ∈ ls) :
    options.recursive = true ∧ dir.entry n ∉ options.excludedDirs := by
  rw [gatherEntry, if_pos rfl] at h
  split at h
  · rename_i hcond
    simpa using hcond
  · cases h
    exact absurd hl List.not_mem_nil

theorem mem_gatherEntry_of_ne {levels : Nat} {ls : List Location} (he : e ≠ .directory)
    (h : gatherEntry d root options levels dir (n, e) = .ok ls) :
    l ∈ ls ↔ l = dir.entry n ∧ d.isDir l.path = false ∧ isListed root options l = .ok true := by
  rw [gatherEntry, if_neg he] at h
  split at h
  · rename_i hisdir
    cases h
    constructor
    · exact fun hl => absurd hl List.not_mem_nil
    · rintro ⟨rfl, hnot, -⟩
      rw [hisdir] at hnot
      cases hnot
  · rename_i hisdir
    rw [Bool.not_eq_true] at hisdir
    cases hlisted : isListed root options (dir.entry n) with
    | error cause =>
      rw [hlisted] at h
      cases h
    | ok listed =>
      rw [hlisted] at h
      cases h
      cases listed with
      | false =>
        constructor
        · exact fun hl => absurd hl List.not_mem_nil
        · rintro ⟨rfl, -, hl⟩
          rw [hlisted] at hl
          cases hl
      | true =>
        show l ∈ [dir.entry n] ↔ _
        rw [List.mem_singleton]
        constructor
        · rintro rfl
          exact ⟨rfl, hisdir, hlisted⟩
        · exact fun hl => hl.1

theorem gatherEntry_of_ne {levels : Nat} (he : e ≠ .directory)
    (hisdir : d.isDir (dir.entry n).path = false)
    (hlisted : isListed root options (dir.entry n) = .ok true) :
    gatherEntry d root options levels dir (n, e) = .ok [dir.entry n] := by
  rw [gatherEntry, if_neg he, hisdir, if_neg Bool.false_ne_true, hlisted]
  rfl

theorem Disk.isDir_of_file {content : ByteArray} (h : d.tree.get? l = some (.file content)) :
    d.isDir l.path = false := by
  rw [isDir, find_path h Entry.file_ne_link]

/-- **What a search of some levels finds**: the induction is on the levels, each of which takes one
name off the way to what is found. -/
theorem mem_gatherSources (levels : Nat) (hdir : d.find dir.path = .ok (real, .directory))
    (h : gatherSources d root options levels dir = .ok sources) :
    l ∈ sources ↔ ∃ names n, names.length < levels ∧ l = (dir.below names).entry n ∧
      IsFound d root options real dir names n := by
  induction levels generalizing l real dir sources with
  | zero =>
    cases h
    simp
  | succ levels ih =>
    rw [gatherSources_succ] at h
    cases hread : d.readDir dir.path with
    | error cause =>
      rw [hread] at h
      cases h
    | ok entries =>
      rw [hread] at h
      dsimp only at h
      have hentries : ∀ n e, (n, e) ∈ entries ↔ d.tree.get? (real.entry n) = some e :=
        fun n e => Disk.mem_readDir hdir hread
      rw [mem_flatten_mapM h]
      constructor
      · rintro ⟨⟨n, e⟩, hmem, ls, hls, hl⟩
        have hget := (hentries n e).mp hmem
        by_cases he : e = .directory
        · subst he
          -- What is found in a directory has its name in front of the way.
          obtain ⟨hrec, hnew⟩ := mem_gatherEntry_of_directory hls hl
          rw [gatherEntry_of_directory hrec hnew] at hls
          have hsub := Disk.find_entry hdir hget Entry.directory_ne_link
          obtain ⟨names, m, hlen, rfl, hs, hf⟩ := (ih hsub hls).mp hl
          refine ⟨n :: names, m, Nat.succ_lt_succ hlen, ?_, ⟨hrec, hget, hnew, hs⟩, ?_⟩
          · rw [Location.below_cons]
          · rw [Location.below_cons, Location.below_cons]
            exact hf
        · obtain ⟨rfl, hisdir, hlisted⟩ := (mem_gatherEntry_of_ne he hls).mp hl
          refine ⟨[], n, Nat.succ_pos _, ?_, trivial, ?_⟩
          · rw [Location.below_nil]
          · rw [Location.below_nil, Location.below_nil]
            exact ⟨⟨e, hget, he⟩, hisdir, hlisted⟩
      · rintro ⟨names, n, hlen, rfl, hs, ⟨e, hget, he⟩, hisdir, hlisted⟩
        cases names with
        | nil =>
          rw [Location.below_nil] at hget hisdir hlisted ⊢
          have hmem := (hentries n e).mpr hget
          obtain ⟨ls, hls⟩ := exists_of_flatten_mapM h hmem
          exact ⟨(n, e), hmem, ls, hls, (mem_gatherEntry_of_ne he hls).mpr ⟨rfl, hisdir, hlisted⟩⟩
        | cons m names =>
          -- The first name of the way tells in which directory the search goes on.
          obtain ⟨hrec, hgetm, hnew, hs⟩ := hs
          rw [Location.below_cons] at hget hisdir hlisted ⊢
          have hmem := (hentries m .directory).mpr hgetm
          obtain ⟨ls, hls⟩ := exists_of_flatten_mapM h hmem
          have hsub := Disk.find_entry hdir hgetm Entry.directory_ne_link
          refine ⟨(m, .directory), hmem, ls, hls, ?_⟩
          rw [gatherEntry_of_directory hrec hnew] at hls
          exact (ih hsub hls).mpr
            ⟨names, n, Nat.lt_of_succ_lt_succ hlen, rfl, hs, ⟨e, hget, he⟩, hisdir, hlisted⟩

theorem sourcesUnder_of_readDir {entries : List (Name × Entry)}
    (h : d.readDir root.path = .ok entries) :
    sourcesUnder d root options
      = List.flatten <$> entries.mapM (gatherEntry d root options d.tree.depth root) := by
  rw [sourcesUnder, gatherSources_succ, h]

/-- **A directory of nothing but main sources** is listed as it is. -/
theorem sourcesUnder_of_flat {names : List Name} (hroot : d.tree.get? root = some .directory)
    (hnames : d.tree.namesIn root = names)
    (hentries : ∀ n ∈ names, ∃ e, d.tree.get? (root.entry n) = some e ∧ e ≠ .directory ∧
      d.isDir (root.entry n).path = false)
    (hlisted : ∀ n ∈ names, isListed root options (root.entry n) = .ok true) :
    sourcesUnder d root options = .ok (names.map root.entry) := by
  have hread := Disk.readDir_of_find (Disk.find_path hroot Entry.directory_ne_link) hnames
  rw [sourcesUnder_of_readDir hread]
  clear hread hnames
  induction names with
  | nil => rfl
  | cons n names ih =>
    obtain ⟨⟨e, hget, he, hisdir⟩, hentries⟩ := List.forall_mem_cons.mp hentries
    obtain ⟨hn, hlisted⟩ := List.forall_mem_cons.mp hlisted
    have hrest := ih hentries hlisted
    rw [List.filterMap_cons, hget, Option.map_some]
    dsimp only
    rw [mapM_cons_eq, gatherEntry_of_ne he hisdir hn]
    cases hmap : (names.filterMap fun n => (d.tree.get? (root.entry n)).map fun e => (n, e)).mapM
        (gatherEntry d root options d.tree.depth root) with
    | error e =>
      rw [hmap] at hrest
      cases hrest
    | ok lists =>
      rw [hmap] at hrest
      have hflat : lists.flatten = names.map root.entry := Except.ok.inj hrest
      show Except.ok (root.entry n :: lists.flatten) = _
      rw [hflat]
      rfl

/-- The directory of a search that succeeds is there. -/
theorem exists_find_of_sourcesUnder (h : sourcesUnder d root options = .ok sources) :
    ∃ real, d.find root.path = .ok (real, .directory) := by
  rw [sourcesUnder, gatherSources_succ] at h
  cases hread : d.readDir root.path with
  | error cause =>
    rw [hread] at h
    cases h
  | ok entries => exact Disk.exists_find_of_readDir hread

/-- **What is listed**: everything below real directories that are not excluded which is no
directory and passes `isListed`. -/
theorem mem_sourcesUnder (hroot : d.find root.path = .ok (real, .directory))
    (h : sourcesUnder d root options = .ok sources) :
    l ∈ sources ↔ ∃ names n, l = (root.below names).entry n ∧
      IsFound d root options real root names n := by
  rw [mem_gatherSources _ hroot h]
  constructor
  · rintro ⟨names, n, -, hl⟩
    exact ⟨names, n, hl⟩
  · rintro ⟨names, n, hl, hs, ⟨e, he, hne⟩, hrest⟩
    have hlen := FileTree.length_names_le_depth he
    rw [Location.names_entry, Location.names_below, List.length_append, List.length_append] at hlen
    refine ⟨names, n, ?_, hl, hs, ⟨e, he, hne⟩, hrest⟩
    rw [List.length_singleton] at hlen
    omega

/-! ### Edited disks -/

theorem IsSearched.find {names : List Name} (h : IsSearched d.tree options real dir names)
    (hdir : d.find dir.path = .ok (real, .directory)) :
    d.find (dir.below names).path = .ok (real.below names, .directory) := by
  induction names generalizing real dir with
  | nil =>
    rw [Location.below_nil, Location.below_nil]
    exact hdir
  | cons n names ih =>
    obtain ⟨-, hget, -, hrest⟩ := h
    rw [Location.below_cons, Location.below_cons]
    exact ih hrest (Disk.find_entry hdir hget Entry.directory_ne_link)

theorem IsSearched.of_filesApart {d' : Disk} {names : List Name} (hap : FilesApart d d')
    (h : IsSearched d.tree options real dir names) : IsSearched d'.tree options real dir names := by
  induction names generalizing real dir with
  | nil => exact trivial
  | cons n names ih =>
    obtain ⟨hrec, hget, hnew, hrest⟩ := h
    exact ⟨hrec, hap.directory hget, hnew, ih hrest⟩

/-- **What is listed on a disk is listed on another** that differs from it in files only, if the
disks agree on what is listed. -/
theorem mem_sourcesUnder_of_filesApart {d' : Disk} {sources' : List Location}
    (hap : FilesApart d d') (h : sourcesUnder d root options = .ok sources)
    (h' : sourcesUnder d' root options = .ok sources') (hl : l ∈ sources)
    (hsame : d.tree.get? l = d'.tree.get? l) : l ∈ sources' := by
  obtain ⟨real, hroot⟩ := exists_find_of_sourcesUnder h
  have hdir := (Disk.find_eq_ok_iff.mp hroot).2
  have hroot' : d'.find root.path = .ok (real, .directory) :=
    hap.find_of_eq (hdir.trans (hap.directory hdir).symm) hroot
  obtain ⟨names, n, rfl, hs, ⟨e, he, hne⟩, hisdir, hlisted⟩ := (mem_sourcesUnder hroot h).mp hl
  have hreal : d.tree.get? ((real.below names).entry n)
      = d'.tree.get? ((real.below names).entry n) := by
    by_contra hdiff
    -- A file that is not the same is found at its own path only, which is that of the source.
    obtain ⟨content, rfl⟩ := (hap.plain _ hdiff).1 e he
    have hfind := Disk.find_entry (hs.find hroot) he Entry.file_ne_link
    have hown := hap.own _ hdiff _ _ (Or.inl hfind)
    exact hdiff (hown ▸ hsame)
  refine (mem_sourcesUnder hroot' h').mpr
    ⟨names, n, rfl, hs.of_filesApart hap, ⟨e, ?_, hne⟩, ?_, hlisted⟩
  · rw [← hreal]
    exact he
  · rw [← hap.isDir_eq hsame]
    exact hisdir

/-! ### Main sources -/

/-- No directory on a searched way is excluded. -/
theorem IsSearched.notMem_excludedDirs {t : FileTree} {before after : List Name}
    (h : IsSearched t options real dir (before ++ after)) (hne : before ≠ []) :
    dir.below before ∉ options.excludedDirs :=
  (isSearched_iff.mp h before (List.prefix_append before after) hne).2.2

theorem finderOptions_excludedDirs {p : Project} (h : p.finderOptions = .ok options) :
    options.excludedDirs = p.libraryDirs := by
  unfold Project.finderOptions at h
  split at h <;> cases h
  rfl

theorem finderOptions_absolute {p : Project} (h : p.finderOptions = .ok options) :
    options.absolute = true := by
  unfold Project.finderOptions at h
  split at h <;> cases h
  rfl

/-- What is listed lies in no library directory, unless that is around the source directory or the
file itself. -/
theorem isWithin_eq_false_of_isFound {names : List Name} {lib : Location}
    (hfound : IsFound d root options real root names n) (hlib : lib ∈ options.excludedDirs)
    (hroot : root.isWithin lib = false) (hself : lib ≠ (root.below names).entry n) :
    ((root.below names).entry n).isWithin lib = false := by
  by_contra hwithin
  rw [Bool.not_eq_false] at hwithin
  have hdown : ((root.below names).entry n).isWithin root = true :=
    Location.isWithin_iff.mpr ⟨names ++ [n], (Location.below_concat _ _ _).symm⟩
  rcases Location.isWithin_total hwithin hdown with hbelow | habove
  · obtain ⟨before, rfl⟩ := Location.isWithin_iff.mp hbelow
    obtain ⟨rest, hrest⟩ := Location.isWithin_iff.mp hwithin
    rw [← Location.below_concat, Location.below_below] at hrest
    have hnames : names ++ [n] = before ++ rest := by
      have h := congrArg Location.names hrest
      rw [Location.names_below, Location.names_below] at h
      exact List.append_cancel_left h
    -- The library directory is the file, or one of the directories on the way.
    rcases List.eq_nil_or_concat rest with rfl | ⟨after, m, rfl⟩
    · rw [List.append_nil] at hnames
      apply hself
      rw [← hnames, Location.below_concat]
    · rw [List.concat_eq_append, ← List.append_assoc] at hnames
      obtain ⟨rfl, -⟩ := List.append_inj' hnames rfl
      have hbefore : before ≠ [] := by
        rintro rfl
        rw [Location.below_nil, Location.isWithin_self] at hroot
        cases hroot
      exact hfound.1.notMem_excludedDirs hbefore hlib
  · rw [habove] at hroot
    cases hroot

/-- **A main source** is a file that passes `isListed` and lies in no excluded directory. -/
theorem isMainSource_iff {p : Project} (hl : l.isWithin p.sourceDir = true) :
    p.isMainSource options l = true ↔
      (∀ lib ∈ options.excludedDirs, l.isWithin lib = false) ∧
        isListed p.sourceDir options l = .ok true := by
  obtain ⟨names, hfrom⟩ := Option.isSome_iff_exists.mp hl
  unfold Project.isMainSource isListed
  rw [hfrom, Option.map_some, Option.getD_some]
  dsimp only
  by_cases hlib : ∀ lib ∈ options.excludedDirs, l.isWithin lib = false
  · have hany : options.excludedDirs.any l.isWithin = false := by simpa using hlib
    rw [hany, if_neg Bool.false_ne_true, and_iff_right hlib]
    split
    · simp
    · cases isAllowed (Path.ofNames names) options.excludes <;> simp
  · have hany : options.excludedDirs.any l.isWithin = true := by simpa using hlib
    rw [if_pos hany]
    simp [hlib]

/-- What `isListed` asks of a file in the directory. -/
theorem isListed_below_iff {names : List Name} :
    isListed root options (root.below names) = .ok true ↔
      (root.below names).isStylesheet = true ∧ (root.below names).isPartial = false ∧
        ∀ g ∈ options.excludes, g.matchesText (Path.ofNames names).text = false := by
  have hfrom : root.from? (root.below names) = some names := Location.from?_eq_some_iff.mpr rfl
  unfold isListed isAllowed
  rw [hfrom, Option.map_some, Option.getD_some, Path.isAbsolute_ofNames]
  cases (root.below names).isStylesheet with
  | false => simp
  | true => cases (root.below names).isPartial <;> simp

/-- **A main source** lies in the source directory and in no library directory, and is a stylesheet
but no partial, and no exclude pattern matches it. -/
theorem isMainSource_iff_exists {p : Project} :
    p.isMainSource options l = true ↔ ∃ names, l = p.sourceDir.below names ∧
      (∀ lib ∈ options.excludedDirs, l.isWithin lib = false) ∧ l.isStylesheet = true ∧
      l.isPartial = false ∧
      ∀ g ∈ options.excludes, g.matchesText (Path.ofNames names).text = false := by
  constructor
  · intro hmain
    have hwithin : l.isWithin p.sourceDir = true := by
      unfold Project.isMainSource at hmain
      split at hmain
      · cases hmain
      · rename_i hfrom
        rw [Location.isWithin, hfrom, Option.isSome_some]
    obtain ⟨hlibs, hlisted⟩ := (isMainSource_iff hwithin).mp hmain
    obtain ⟨names, rfl⟩ := Location.isWithin_iff.mp hwithin
    exact ⟨names, rfl, hlibs, isListed_below_iff.mp hlisted⟩
  · rintro ⟨names, rfl, hlibs, hlisted⟩
    exact (isMainSource_iff (Location.isWithin_iff.mpr ⟨names, rfl⟩)).mpr
      ⟨hlibs, isListed_below_iff.mpr hlisted⟩

/-- **What is listed is a main source**, unless a library directory is around the source directory
or the file itself. -/
theorem isMainSource_of_mem_sourcesUnder {p : Project} (hoptions : p.finderOptions = .ok options)
    (hlibs : ∀ lib ∈ p.libraryDirs, p.sourceDir.isWithin lib = false)
    (h : sourcesUnder d p.sourceDir options = .ok sources) (hl : l ∈ sources)
    (hself : l ∉ p.libraryDirs) : p.isMainSource options l = true := by
  obtain ⟨real, hroot⟩ := exists_find_of_sourcesUnder h
  obtain ⟨names, n, rfl, hfound⟩ := (mem_sourcesUnder hroot h).mp hl
  have hwithin : ((p.sourceDir.below names).entry n).isWithin p.sourceDir = true :=
    Location.isWithin_iff.mpr ⟨names ++ [n], (Location.below_concat _ _ _).symm⟩
  rw [isMainSource_iff hwithin]
  refine ⟨fun lib hlib => ?_, hfound.2.2.2⟩
  have hlib' : lib ∈ p.libraryDirs := by rwa [← finderOptions_excludedDirs hoptions]
  exact isWithin_eq_false_of_isFound hfound hlib (hlibs lib hlib') fun h => hself (h ▸ hlib')

end SheetGraph
