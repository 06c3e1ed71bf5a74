import SheetGraph.Proofs.Watch.Rebuild

/-!
# Nothing that an edit changes is left out

A batch names the files that were edited since the project was indexed (`Edits`).  What it does not
compile is as it was: `handleChanges_complete` says that a main source without a result was a main
source before, and that it and all that it depends on have the same contents and the same imports as
before.

The argument is about one main source that no edit of the batch calls for (`Spared`).  It depends on
no file that was edited and is there (`Spared.get?_eq`), and it depended on none that is gone
(`Spared.isFile`).  An import can only be resolved anew when a file has come or gone, so by
induction along imports the source depends on the same files on both disks.
-/

namespace SheetGraph.WatchHandler

/-- The file is one of the main sources that are listed on the disk. -/
def Lists (h : WatchHandler) (d : Disk) (m : Location) : Prop :=
  ∃ sources, compilableSources d h.project.sourceDir h.options = .ok sources ∧ m.path ∈ sources

/-- The disks differ only in files of the project that the batch names. -/
structure Edits (h : WatchHandler) (d₀ d₁ : Disk) (files : List Location) : Prop
    extends FilesApart d₀ d₁ where
  /-- Where the disks differ, there is a file that is of interest and named. -/
  named : ∀ l, d₀.tree.get? l ≠ d₁.tree.get? l → l ∈ files ∧ h.isRelevant d₁ l.path = true

variable {h h' : WatchHandler} {c : Compiler} {d d₀ d₁ d' : Disk}
  {sources₀ sources₁ files : List Location} {l m x : Location} {r : BuildResult}

theorem lists_iff (hoptions : h.project.finderOptions = .ok h.options) :
    h.Lists d m ↔ ∃ sources, sourcesUnder d h.project.sourceDir h.options = .ok sources ∧
      m ∈ sources := by
  unfold Lists compilableSources
  simp only [finderOptions_absolute hoptions, if_true]
  cases sourcesUnder d h.project.sourceDir h.options with
  | error e =>
    constructor
    · rintro ⟨_, hlist, -⟩
      cases hlist
    · rintro ⟨_, hlist, -⟩
      cases hlist
  | ok sources =>
    constructor
    · rintro ⟨_, hlist, hm⟩
      cases hlist
      exact ⟨sources, rfl, (List.mem_map_of_injective Location.path_injective).mp hm⟩
    · rintro ⟨_, hlist, hm⟩
      cases hlist
      exact ⟨_, rfl, List.mem_map_of_mem hm⟩

theorem role?_of_isMain (hoptions : h.project.finderOptions = .ok h.options)
    (hm : h.isMain m = true) : h.role? m = some .project := by
  obtain ⟨names, hbelow, hlibs, -⟩ := isMainSource_iff_exists.mp hm
  rw [finderOptions_excludedDirs hoptions] at hlibs
  have hlib : h.project.libraryDirs.any m.isWithin = false := by simpa using hlibs
  have hwithin : m.isWithin h.project.sourceDir = true :=
    Location.isWithin_iff.mpr ⟨names, hbelow⟩
  rw [role?, hlib, if_neg Bool.false_ne_true, if_pos hwithin]

theorem isRelevant_path_iff :
    h.isRelevant d l.path = true ↔ l.isStylesheet = true ∧ ∃ role, h.role? l = some role := by
  rw [isRelevant, Bool.and_eq_true, Location.isStylesheet_path, Disk.locate_path,
    Option.isSome_iff_exists]

/-- **An edit of a main source calls for it**, and so does one of a file that it depends on. -/
theorem affects_of_dependsOn (hafter : h'.graph.Indexes d₁ h.project.libraryDirs sources₁)
    (hmain : h.isMain m = true) (hrole : h.role? m = some .project) (hlisted : m ∈ sources₁)
    (hrelevant : h.isRelevant d₁ x.path = true)
    (hx : x = m ∨ DependsOn d₁ h.project.libraryDirs m x) : Affects h h' d₁ x m := by
  obtain ⟨hname, role, hrolex⟩ := isRelevant_path_iff.mp hrelevant
  have hm : m ∈ h'.graph.order := (hafter.mem_order_iff m).mpr (Or.inl hlisted)
  have horder : x ∈ h'.graph.order := by
    rcases hx with rfl | hx
    · exact hm
    · exact hafter.mem_order_of_dependsOn hm hx
  obtain ⟨k, content, hfind⟩ := Disk.isFile_iff.mp (hafter.isFile horder)
  have hthere : d₁.contains x.path = true := Disk.contains_iff.mpr ⟨k, _, hfind⟩
  refine ⟨hname, hmain, role, hrolex, Or.inl ⟨hthere, ?_⟩⟩
  rcases hx with rfl | hx
  · rw [hrole] at hrolex
    cases hrolex
    exact Or.inl ⟨rfl, rfl⟩
  · exact Or.inr ((hafter.reaches_iff hm).mpr hx)

/-! ### A main source that is spared -/

/-- A main source of the edited disk that no edit calls for. -/
structure Spared (h h' : WatchHandler) (d₀ d₁ : Disk) (sources₀ sources₁ files : List Location)
    (m : Location) : Prop where
  /-- The batch names the edits. -/
  edits : h.Edits d₀ d₁ files
  /-- The old graph is that of the old disk. -/
  before : h.graph.Indexes d₀ h.project.libraryDirs sources₀
  /-- The new graph is that of the new disk. -/
  after : h'.graph.Indexes d₁ h.project.libraryDirs sources₁
  /-- No file that is gone was cyclic. -/
  acyclic : ∀ l ∈ files, d₀.contains l.path = true → d₁.contains l.path = false →
    h.graph.isCyclic l = false
  /-- The source is a main source. -/
  main : h.isMain m = true
  /-- It lies in the source directory. -/
  role : h.role? m = some .project
  /-- It is listed. -/
  listed : m ∈ sources₁
  /-- No edit calls for it. -/
  spared : ∀ l ∈ files, ¬ Affects h h' d₁ l m

namespace Spared

variable (hs : Spared h h' d₀ d₁ sources₀ sources₁ files m)
include hs

theorem mem_order_after (hx : x = m ∨ DependsOn d₁ h.project.libraryDirs m x) :
    x ∈ h'.graph.order := by
  have hm : m ∈ h'.graph.order := (hs.after.mem_order_iff m).mpr (Or.inl hs.listed)
  rcases hx with rfl | hx
  · exact hm
  · exact hs.after.mem_order_of_dependsOn hm hx

/-- **The source and what it depends on are not edited.** -/
theorem get?_eq (hx : x = m ∨ DependsOn d₁ h.project.libraryDirs m x) :
    d₀.tree.get? x = d₁.tree.get? x := by
  by_contra hdiff
  obtain ⟨hfiles, hrelevant⟩ := hs.edits.named x hdiff
  exact hs.spared x hfiles
    (affects_of_dependsOn hs.after hs.main hs.role hs.listed hrelevant hx)

/-- **What the source depended on before is still there.** -/
theorem isFile (hm : m ∈ h.graph.order) (hx : DependsOn d₀ h.project.libraryDirs m x) :
    d₁.isFile x.path = true := by
  by_contra hgone
  have hfile := hs.before.isFile (hs.before.mem_order_of_dependsOn hm hx)
  -- The disks differ at the file, so it is nowhere now.
  have hdiff : d₀.tree.get? x ≠ d₁.tree.get? x := by
    intro heq
    rw [hs.edits.isFile_eq heq] at hfile
    exact hgone hfile
  have hnone : d₁.tree.get? x = none := by
    rw [Option.eq_none_iff_forall_ne_some]
    intro e he
    obtain ⟨content, rfl⟩ := (hs.edits.plain x hdiff).2 e he
    exact hgone (Disk.isFile_iff.mpr ⟨x, content, Disk.find_path he Entry.file_ne_link⟩)
  obtain ⟨hfiles, hrelevant⟩ := hs.edits.named x hdiff
  obtain ⟨hname, role, hrole⟩ := isRelevant_path_iff.mp hrelevant
  obtain ⟨k, content, hfind⟩ := Disk.isFile_iff.mp hfile
  have hwas : d₀.contains x.path = true := Disk.contains_iff.mpr ⟨k, _, hfind⟩
  have hgone' : d₁.contains x.path = false := hs.edits.contains_eq_false hdiff hnone
  have hmain : d₁.isFile m.path = true := hs.after.isFile (hs.mem_order_after (Or.inl rfl))
  obtain ⟨k', content', hfind'⟩ := Disk.isFile_iff.mp hmain
  have hthere : d₁.contains m.path = true := Disk.contains_iff.mpr ⟨k', _, hfind'⟩
  -- The removal of the file would have called for the source.
  have hreaches : h.graph.Reaches m x := (hs.before.reaches_iff hm).mpr hx
  exact hs.spared x hfiles ⟨hname, hs.main, role, hrole,
    Or.inr ⟨hgone', hthere, hs.acyclic x hfiles hwas hgone', hreaches⟩⟩

/-- **The imports of what the source depends on are resolved as before.** -/
theorem readImports_eq (hm : m ∈ h.graph.order)
    (hx : x = m ∨ DependsOn d₁ h.project.libraryDirs m x)
    (hx₀ : x = m ∨ DependsOn d₀ h.project.libraryDirs m x) :
    ∃ ls, readImports d₀ h.project.libraryDirs x = .ok ls ∧
      readImports d₁ h.project.libraryDirs x = .ok ls := by
  have horder : x ∈ h.graph.order := by
    rcases hx₀ with rfl | hx₀
    · exact hm
    · exact hs.before.mem_order_of_dependsOn hm hx₀
  have hread₀ := hs.before.readImports_eq x horder
  have hread₁ := hs.after.readImports_eq x (hs.mem_order_after hx)
  have hext₀ : ∀ k ∈ h.graph.directChildren x, DependsOn d₀ h.project.libraryDirs m k := by
    intro k hk
    rw [← nextOf_of_ok hread₀] at hk
    rcases hx₀ with rfl | hx₀
    · exact Relation.TransGen.single hk
    · exact hx₀.tail hk
  have hext₁ : ∀ k ∈ h'.graph.directChildren x, DependsOn d₁ h.project.libraryDirs m k := by
    intro k hk
    rw [← nextOf_of_ok hread₁] at hk
    rcases hx with rfl | hx
    · exact Relation.TransGen.single hk
    · exact hx.tail hk
  refine ⟨_, hread₀, ?_⟩
  rcases readImports_eq_or hread₀ hread₁ fun text => hs.edits.readText_eq_ok_iff (hs.get?_eq hx)
    with heq | ⟨k, hk, hgone⟩ | ⟨k, hk, hcome⟩
  · rw [heq]
    exact hread₁
  · -- An import has gone, but all that the source depended on is still there.
    rw [hs.isFile hm (hext₀ k hk)] at hgone
    cases hgone
  · -- An import has come, but nothing that the source depends on is new.
    have hsame := hs.get?_eq (Or.inr (hext₁ k hk))
    have hfile := hs.after.isFile (hs.mem_order_after (Or.inr (hext₁ k hk)))
    rw [hs.edits.isFile_eq hsame, hfile] at hcome
    cases hcome

/-- **The source depends on the same files as before**; the induction is along the imports on one
disk, and what has been reached is reached on the other. -/
theorem dependsOn_iff (hm : m ∈ h.graph.order) :
    DependsOn d₀ h.project.libraryDirs m x ↔ DependsOn d₁ h.project.libraryDirs m x := by
  -- As long as the two ways agree, the next step is the same on both disks.
  have hnext : ∀ y, y = m ∨ DependsOn d₁ h.project.libraryDirs m y →
      y = m ∨ DependsOn d₀ h.project.libraryDirs m y →
      nextOf (readImports d₀ h.project.libraryDirs) y
        = nextOf (readImports d₁ h.project.libraryDirs) y := by
    intro y hy hy₀
    obtain ⟨ls, h₀, h₁⟩ := hs.readImports_eq hm hy hy₀
    rw [nextOf_of_ok h₀, nextOf_of_ok h₁]
  constructor
  · intro hx
    induction hx with
    | single hb =>
      rw [hnext m (Or.inl rfl) (Or.inl rfl)] at hb
      exact Relation.TransGen.single hb
    | @tail b x hmb hb ih =>
      rw [hnext b (Or.inr ih) (Or.inr hmb)] at hb
      exact ih.tail hb
  · intro hx
    induction hx with
    | single hb =>
      rw [← hnext m (Or.inl rfl) (Or.inl rfl)] at hb
      exact Relation.TransGen.single hb
    | @tail b x hmb hb ih =>
      rw [← hnext b (Or.inr hmb) (Or.inr ih)] at hb
      exact ih.tail hb

/-- **The source and what it depends on have the contents and the imports that they had.** -/
theorem unchanged (hm : m ∈ h.graph.order)
    (hx : x = m ∨ DependsOn d₁ h.project.libraryDirs m x) :
    ∃ content ls, d₀.readBytes x.path = .ok content ∧ d₁.readBytes x.path = .ok content ∧
      readImports d₀ h.project.libraryDirs x = .ok ls ∧
      readImports d₁ h.project.libraryDirs x = .ok ls := by
  have hx₀ : x = m ∨ DependsOn d₀ h.project.libraryDirs m x :=
    hx.imp_right (hs.dependsOn_iff hm).mpr
  obtain ⟨ls, h₀, h₁⟩ := hs.readImports_eq hm hx hx₀
  obtain ⟨k, content, hfind⟩ := Disk.isFile_iff.mp (hs.after.isFile (hs.mem_order_after hx))
  have hbytes : d₁.readBytes x.path = .ok content := Disk.readBytes_eq_ok_iff.mpr ⟨k, hfind⟩
  exact ⟨content, ls, (hs.edits.readBytes_eq_ok_iff (hs.get?_eq hx)).mpr hbytes, hbytes, h₀, h₁⟩

end Spared

/-! ### Edits one after the other -/

/-- The disk with a text in the file at a location. -/
def save (d : Disk) (l : Location) (text : String) : Disk :=
  { d with tree := d.tree.put l (.file text.toUTF8) }

theorem Edits.refl (h : WatchHandler) (d : Disk) (files : List Location) : h.Edits d d files where
  toFilesApart := FilesApart.refl d
  named _ hl := absurd rfl hl

/-- One more file of the batch can be written. -/
theorem Edits.save (hedits : h.Edits d₀ d₁ files) (text : String) (h₀ : d₀.tree.LinkFree)
    (h₁ : d₁.tree.LinkFree) (hplain : IsPlain (d₀.tree.get? l)) (hl : l ∈ files)
    (hrelevant : h.isRelevant d₁ l.path = true) : h.Edits d₀ (save d₁ l text) files where
  toFilesApart := hedits.toFilesApart.put _ h₀ h₁ hplain
  named k hk := by
    rw [isRelevant_path_iff, ← isRelevant_path_iff (d := d₁)]
    by_cases hkl : k = l
    · rw [hkl]
      exact ⟨hl, hrelevant⟩
    · rw [WatchHandler.save, FileTree.get?_put_of_ne hkl] at hk
      exact hedits.named k hk

/-! ### A project of two sources -/

/-- The source directory. -/
def pairDir : Location := Location.root.entry ⟨"scss", by decide⟩

/-- The name of the first source. -/
def nameA : Name := ⟨"a.scss", by decide⟩

/-- The name of the second source. -/
def nameB : Name := ⟨"b.scss", by decide⟩

/-- The first source. -/
def pairA : Location := pairDir.entry nameA

/-- The second source. -/
def pairB : Location := pairDir.entry nameB

/-- A disk with both sources, which are empty. -/
def pairDisk : Disk :=
  save (save ⟨FileTree.empty.put pairDir .directory, .root⟩ pairB "") pairA ""

/-- The disk after an edit of the first source. -/
def pairEdited : Disk := save pairDisk pairA "x"

/-- The graph of the sources, which import nothing. -/
def pairGraph : Graph where
  order := [pairA, pairB]
  imports := ⟨[(pairA, []), (pairB, [])]⟩
  importers := .empty
  allImports := ⟨[(pairA, []), (pairB, [])]⟩
  allImporters := ⟨[(pairA, []), (pairB, [])]⟩
  cyclic := []

/-- The handler of the project with some library directories. -/
def pairHandler (libraryPaths : List Path) (failFast : Bool) : WatchHandler where
  pipeline := {
    project := { settings := { project := { libraryPaths := libraryPaths } }, root := .root }
    failFast := failFast }
  options := { absolute := true, excludedDirs := libraryPaths.map (·.locateFrom .root) }
  graph := pairGraph

/-- A compiler that makes empty outputs. -/
def blankCompiler : Compiler := fun _ _ _ => .ok ""

theorem linkFree_pairDisk : pairDisk.tree.LinkFree :=
  FileTree.linkFree_of_all (by decide +kernel)

/-- A search that comes to the two sources and nothing else lists them. -/
theorem sourcesUnder_pair_of_entries {options : FinderOptions}
    (hnames : (d.tree.entries.filterMap fun e =>
      if e.1.parent = pairDir then e.1.fileName? else none) = [nameA, nameB])
    (hentries : ∀ n ∈ [nameA, nameB], ∃ e, d.tree.get? (pairDir.entry n) = some e ∧
      e ≠ .directory ∧ d.isDir (pairDir.entry n).path = false)
    (hexcludes : options.excludes = []) : sourcesUnder d pairDir options = .ok [pairA, pairB] := by
  have hdir : d.tree.get? pairDir = some .directory := by
    obtain ⟨e, hget, -⟩ := hentries nameA List.mem_cons_self
    exact FileTree.isDirectory_iff.mp (FileTree.isDirectory_parent hget)
  have hsorted := FileTree.namesIn_of_pairwise hnames (by decide)
  have hlisted : ∀ n ∈ [nameA, nameB], isListed pairDir options (pairDir.entry n) = .ok true := by
    unfold isListed
    rw [hexcludes]
    decide +kernel
  exact sourcesUnder_of_flat hdir hsorted hentries hlisted

/-- The two sources are listed when they are files. -/
theorem sourcesUnder_pair {options : FinderOptions} {a b : ByteArray}
    (hnames : (d.tree.entries.filterMap fun e =>
      if e.1.parent = pairDir then e.1.fileName? else none) = [nameA, nameB])
    (ha : d.tree.get? pairA = some (.file a)) (hb : d.tree.get? pairB = some (.file b))
    (hexcludes : options.excludes = []) : sourcesUnder d pairDir options = .ok [pairA, pairB] := by
  refine sourcesUnder_pair_of_entries hnames (fun n hn => ?_) hexcludes
  rw [List.mem_cons, List.mem_singleton] at hn
  rcases hn with rfl | rfl
  · exact ⟨_, ha, Entry.file_ne_directory, Disk.isDir_of_file ha⟩
  · exact ⟨_, hb, Entry.file_ne_directory, Disk.isDir_of_file hb⟩

theorem sourceDir_pairHandler (libraryPaths : List Path) (failFast : Bool) :
    (pairHandler libraryPaths failFast).project.sourceDir = pairDir := by
  show (⟨"scss"⟩ : Path).locateFrom .root = pairDir
  decide

/-- An indexing gives the graph of the two sources. -/
theorem index_pair {a b : ByteArray} {libraryPaths : List Path} {failFast : Bool} {g : Graph}
    (hnames : (d.tree.entries.filterMap fun e =>
      if e.1.parent = pairDir then e.1.fileName? else none) = [nameA, nameB])
    (ha : d.tree.get? pairA = some (.file a)) (hb : d.tree.get? pairB = some (.file b))
    (hgraph : Graph.empty.inspect d (pairHandler libraryPaths failFast).project.libraryDirs
      [pairA, pairB] = .ok g) : (pairHandler libraryPaths failFast).index d
        = .ok { pairHandler libraryPaths failFast with graph := g } := by
  have hsources : sourcesUnder d (pairHandler libraryPaths failFast).project.sourceDir
      (pairHandler libraryPaths failFast).options = .ok [pairA, pairB] := by
    rw [sourceDir_pairHandler]
    exact sourcesUnder_pair hnames ha hb rfl
  exact index_eq_ok_iff.mpr ⟨_, _, hsources, hgraph, rfl⟩

/-- Both sources are listed whatever the library directories are. -/
theorem index_pairHandler {a b : ByteArray} {libraryPaths : List Path} {failFast : Bool}
    (hnames : (d.tree.entries.filterMap fun e =>
      if e.1.parent = pairDir then e.1.fileName? else none) = [nameA, nameB])
    (ha : d.tree.get? pairA = some (.file a)) (hb : d.tree.get? pairB = some (.file b))
    (hgraph : Graph.empty.inspect d (pairHandler libraryPaths failFast).project.libraryDirs
      [pairA, pairB] = .ok pairGraph) :
    (pairHandler libraryPaths failFast).index d = .ok (pairHandler libraryPaths failFast) ∧
      ∀ l ∈ [pairA, pairB], (pairHandler libraryPaths failFast).Lists d l := by
  have hindex : (pairHandler libraryPaths failFast).index d
      = .ok (pairHandler libraryPaths failFast) := index_pair hnames ha hb hgraph
  refine ⟨hindex, fun l hl => (lists_iff rfl).mpr ⟨[pairA, pairB], ?_, hl⟩⟩
  rw [sourceDir_pairHandler]
  exact sourcesUnder_pair hnames ha hb rfl

theorem index_pairDisk (libraryPaths : List Path) (failFast : Bool)
    (hgraph : Graph.empty.inspect pairDisk (pairHandler libraryPaths failFast).project.libraryDirs
      [pairA, pairB] = .ok pairGraph) :
    (pairHandler libraryPaths failFast).index pairDisk = .ok (pairHandler libraryPaths failFast) ∧
      ∀ l ∈ [pairA, pairB], (pairHandler libraryPaths failFast).Lists pairDisk l :=
  index_pairHandler (a := "".toUTF8) (b := "".toUTF8) (by decide +kernel) (by decide +kernel)
    (by decide +kernel) hgraph

theorem index_pairEdited (libraryPaths : List Path) (failFast : Bool)
    (hgraph : Graph.empty.inspect pairEdited (pairHandler libraryPaths failFast).project.libraryDirs
      [pairA, pairB] = .ok pairGraph) :
    (pairHandler libraryPaths failFast).index pairEdited = .ok (pairHandler libraryPaths failFast) ∧
      ∀ l ∈ [pairA, pairB], (pairHandler libraryPaths failFast).Lists pairEdited l :=
  index_pairHandler (a := "x".toUTF8) (b := "".toUTF8) (by decide +kernel) (by decide +kernel)
    (by decide +kernel) hgraph

theorem edits_pairA (libraryPaths : List Path) (failFast : Bool)
    (hrelevant : (pairHandler libraryPaths failFast).isRelevant pairDisk pairA.path = true) :
    (pairHandler libraryPaths failFast).Edits pairDisk pairEdited [pairA] := by
  have hget : pairDisk.tree.get? pairA = some (.file "".toUTF8) := by
    rfl
  refine (Edits.refl _ pairDisk [pairA]).save "x" linkFree_pairDisk linkFree_pairDisk ?_
    List.mem_cons_self hrelevant
  rw [hget]
  exact isPlain_file _

/-! ### A project with libraries -/

/-- The file that is imported from the library directory of this name. -/
def libraryFile (name : Name) : Location :=
  (Location.root.entry name).entry ⟨"_x.scss", by decide⟩

/-- The file of the first library directory. -/
def frontX : Location := libraryFile ⟨"one", by decide⟩

/-- The file of the second library directory. -/
def backX : Location := libraryFile ⟨"two", by decide⟩

/-- A disk with two sources, of which the first one imports a library file. -/
def layeredDisk (text : String) : Disk :=
  let dirs := ((FileTree.empty.put pairDir .directory).put frontX.parent .directory).put
    backX.parent .directory
  save (save (save ⟨dirs, .root⟩ backX "") pairB text) pairA "@import 'x';\n"

/-- A disk where the second source imports a library file, which imports another one. -/
def chainDisk : Disk :=
  save (save (layeredDisk "@import 'x';\n") frontX "@import '../two/x';\n") pairA ""

/-- The disk after an edit of the first source. -/
def chainEdited : Disk := save chainDisk pairA "x"

/-- The handler of the project, which has indexed it. -/
def chainHandler : WatchHandler :=
  { pairHandler [⟨"one"⟩, ⟨"two"⟩] false with
    graph := {
      order := [pairA, pairB, frontX, backX]
      imports := ⟨[(pairA, []), (pairB, [frontX]), (frontX, [backX]), (backX, [])]⟩
      importers := ⟨[(frontX, [pairB]), (backX, [frontX])]⟩
      allImports := ⟨[(pairA, []), (pairB, [frontX, backX]), (frontX, [backX]), (backX, [])]⟩
      allImporters := ⟨[(pairA, []), (pairB, []), (frontX, [pairB]), (backX, [frontX, pairB])]⟩
      cyclic := [] } }

/-- The sources are listed, and the handler comes to its graph, whatever the first source holds. -/
theorem index_chain {a : ByteArray}
    (hnames : (d.tree.entries.filterMap fun e =>
      if e.1.parent = pairDir then e.1.fileName? else none) = [nameA, nameB])
    (ha : d.tree.get? pairA = some (.file a))
    (hb : d.tree.get? pairB = some (.file "@import 'x';\n".toUTF8))
    (hgraph : Graph.empty.inspect d chainHandler.project.libraryDirs [pairA, pairB]
      = .ok chainHandler.graph) :
    chainHandler.index d = .ok chainHandler ∧ chainHandler.Lists d pairB :=
  ⟨(index_congr rfl rfl).trans (index_pair hnames ha hb hgraph),
    (lists_iff rfl).mpr ⟨[pairA, pairB], sourcesUnder_pair hnames ha hb rfl, by simp⟩⟩

/-! ### Batches -/

/-- **Nothing that an edit changes is left out.**  A batch names what was edited since the project
was indexed, and no file that is gone was cyclic.  When it is answered with a build, any main source
without a result was a main source before, and it and all that it depends on have the contents and
the imports that they had.  No library directory may be around the source directory or be a file. -/
theorem handleChanges_complete {k : WatchHandler}
    (hoptions : h.project.finderOptions = .ok h.options) (hindex : h.index d₀ = .ok k)
    (hgraph : h.graph = k.graph) (hedits : h.Edits d₀ d₁ files)
    (hlibs : ∀ lib ∈ h.project.libraryDirs, h.project.sourceDir.isWithin lib = false)
    (hfiles : ∀ lib ∈ h.project.libraryDirs, d₁.isFile lib.path = false)
    (hacyclic : ∀ l ∈ files, d₀.contains l.path = true → d₁.contains l.path = false →
      h.graph.isCyclic l = false)
    (hfail : h.pipeline.failFast = false)
    (hrebuilt : h.handleChanges c d₁ files = (h', d', .ok (.rebuilt r)))
    (hlists : h.Lists d₁ m) (hnone : ∀ x ∈ r.results, x.source ≠ m.path) :
    h.Lists d₀ m ∧
    (∀ x, DependsOn d₀ h.project.libraryDirs m x ↔ DependsOn d₁ h.project.libraryDirs m x) ∧
    ∀ x, x = m ∨ DependsOn d₁ h.project.libraryDirs m x →
      ∃ content ls, d₀.readBytes x.path = .ok content ∧ d₁.readBytes x.path = .ok content ∧
        readImports d₀ h.project.libraryDirs x = .ok ls ∧
        readImports d₁ h.project.libraryDirs x = .ok ls := by
  obtain ⟨-, -, sources₀, hsources₀, hbefore⟩ := indexes_of_index hindex
  obtain ⟨-, -, sources₁, hsources₁, hafter⟩ := indexes_of_index
    (handleChanges_eq_rebuilt_iff.mp hrebuilt).2.1
  rw [← hgraph] at hbefore
  have hlisted : m ∈ sources₁ := by
    obtain ⟨sources, hsources, hm⟩ := (lists_iff hoptions).mp hlists
    rw [hsources₁] at hsources
    cases hsources
    exact hm
  -- The source is a file, so it is no library directory.
  have hself : m ∉ h.project.libraryDirs := by
    intro hlib
    have hfile := hafter.isFile ((hafter.mem_order_iff m).mpr (Or.inl hlisted))
    rw [hfiles m hlib] at hfile
    cases hfile
  have hmain : h.isMain m = true :=
    isMainSource_of_mem_sourcesUnder hoptions hlibs hsources₁ hlisted hself
  have hfull : h.pipeline.failFast = true → ∀ x ∈ r.results, x.isFailure = false := by
    intro hfast
    rw [hfail] at hfast
    cases hfast
  have hspared : ∀ l ∈ files, ¬ Affects h h' d₁ l m := by
    intro l hl haffects
    obtain ⟨x, hx, hxm⟩ := (handleChanges_results hbefore.wellFormed hrebuilt hfull).mpr
      ⟨l, hl, haffects⟩
    exact hnone x hx hxm
  have hs : Spared h h' d₀ d₁ sources₀ sources₁ files m := {
    edits := hedits
    before := hbefore
    after := hafter
    acyclic := hacyclic
    main := hmain
    role := role?_of_isMain hoptions hmain
    listed := hlisted
    spared := hspared }
  have hlisted₀ : m ∈ sources₀ := by
    have happart := hedits.toFilesApart.symm
    exact mem_sourcesUnder_of_filesApart happart hsources₁ hsources₀ hlisted
      (hs.get?_eq (Or.inl rfl)).symm
  have horder : m ∈ h.graph.order := (hbefore.mem_order_iff m).mpr (Or.inl hlisted₀)
  exact ⟨(lists_iff hoptions).mpr ⟨sources₀, hsources₀, hlisted₀⟩,
    fun x => hs.dependsOn_iff horder, fun x hx => hs.unchanged horder hx⟩

/-- The edit of one of two sources spares the other, which imports a library file through
another. -/
theorem handleChanges_complete_chain : ∃ d' r,
    chainHandler.handleChanges blankCompiler chainEdited [pairA]
      = (chainHandler, d', .ok (.rebuilt r)) ∧
    (∀ x ∈ r.results, x.source ≠ pairB.path) ∧
    DependsOn chainEdited chainHandler.project.libraryDirs pairB backX ∧
    chainHandler.Lists chainDisk pairB ∧
    (∀ x, DependsOn chainDisk chainHandler.project.libraryDirs pairB x ↔
      DependsOn chainEdited chainHandler.project.libraryDirs pairB x) ∧
    ∀ x, x = pairB ∨ DependsOn chainEdited chainHandler.project.libraryDirs pairB x →
      ∃ content ls, chainDisk.readBytes x.path = .ok content ∧
        chainEdited.readBytes x.path = .ok content ∧
        readImports chainDisk chainHandler.project.libraryDirs x = .ok ls ∧
        readImports chainEdited chainHandler.project.libraryDirs x = .ok ls := by
  obtain ⟨hindex, -⟩ := index_chain (d := chainDisk) (a := "".toUTF8) (by decide +kernel)
    (by decide +kernel) (by decide +kernel) (by decide +kernel)
  obtain ⟨hindex', hlists⟩ := index_chain (d := chainEdited) (a := "x".toUTF8) (by decide +kernel)
    (by decide +kernel) (by decide +kernel) (by decide +kernel)
  have hsources : chainHandler.sourcesForAll chainEdited []
      (chainHandler.changesOf chainEdited [] [pairA]) = .ok [pairA] := by
    decide +kernel
  have hrebuilt := handleChanges_eq_rebuilt (c := blankCompiler)
    (r := ⟨[⟨pairA.path, ⟨"/css/a.css"⟩, .success⟩]⟩) hindex' (by decide +kernel) hsources
    (by decide +kernel)
  have hnone : ∀ x ∈ [(⟨pairA.path, ⟨"/css/a.css"⟩, .success⟩ : CompileResult)],
      x.source ≠ pairB.path := by
    decide +kernel
  have hlinks : chainDisk.tree.LinkFree := FileTree.linkFree_of_all (by decide +kernel)
  have hedits : chainHandler.Edits chainDisk chainEdited [pairA] := by
    have hget : chainDisk.tree.get? pairA = some (.file "".toUTF8) := by
      decide +kernel
    refine (Edits.refl _ chainDisk [pairA]).save "x" hlinks hlinks ?_ List.mem_cons_self
      (by decide +kernel)
    rw [hget]
    exact isPlain_file _
  have hchain : DependsOn chainEdited chainHandler.project.libraryDirs pairB backX :=
    .tail (.single (b := frontX) (by decide +kernel)) (by decide +kernel)
  refine ⟨_, _, hrebuilt, hnone, hchain, ?_⟩
  exact handleChanges_complete rfl hindex rfl hedits (by decide +kernel) (by decide +kernel)
    (by decide +kernel) rfl hrebuilt hlists hnone

/-- A library directory can be the very file that is edited.  A file of a library is not compiled,
but the search lists this one, so it is listed, edited and left out. -/
theorem library_file_left_out : ∃ (h : WatchHandler) (d' : Disk) (r : BuildResult),
    h.project.finderOptions = .ok h.options ∧ h.index pairDisk = .ok h ∧
    h.Edits pairDisk pairEdited [pairA] ∧
    (∀ lib ∈ h.project.libraryDirs, h.project.sourceDir.isWithin lib = false) ∧
    (∀ l ∈ [pairA], pairDisk.contains l.path = true → pairEdited.contains l.path = false →
      h.graph.isCyclic l = false) ∧
    h.pipeline.failFast = false ∧
    h.handleChanges blankCompiler pairEdited [pairA] = (h, d', .ok (.rebuilt r)) ∧
    h.Lists pairEdited pairA ∧ (∀ x ∈ r.results, x.source ≠ pairA.path) ∧
    pairDisk.readBytes pairA.path ≠ pairEdited.readBytes pairA.path := by
  obtain ⟨hindex, -⟩ := index_pairDisk [⟨"scss/a.scss"⟩] false (by decide +kernel)
  obtain ⟨hindex', hlists⟩ := index_pairEdited [⟨"scss/a.scss"⟩] false (by decide +kernel)
  have hsources : (pairHandler [⟨"scss/a.scss"⟩] false).sourcesForAll pairEdited []
      ((pairHandler [⟨"scss/a.scss"⟩] false).changesOf pairEdited [] [pairA]) = .ok [] := by
    decide +kernel
  have hrebuilt := handleChanges_eq_rebuilt (c := blankCompiler) (r := ⟨[]⟩) hindex'
    (by decide +kernel) hsources (by decide +kernel)
  have hedits := edits_pairA [⟨"scss/a.scss"⟩] false (by decide +kernel)
  refine ⟨pairHandler [⟨"scss/a.scss"⟩] false, _, _, rfl, hindex, hedits, ?_, ?_, rfl, hrebuilt,
    hlists pairA (by decide +kernel), ?_, ?_⟩
  · decide +kernel
  · decide +kernel
  · decide +kernel
  · decide +kernel

end SheetGraph.WatchHandler
