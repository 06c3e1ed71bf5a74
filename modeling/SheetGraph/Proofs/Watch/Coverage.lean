import SheetGraph.Proofs.Build.Outputs
import SheetGraph.Proofs.Candidates
import SheetGraph.Proofs.Watch.InTurn
import SheetGraph.Proofs.Watch.States

/-!
# What is indexed is watched

Imports are looked up by candidates, edits are let in by `isRelevant`, and directories are watched
by `watchRoots`, so three rules have to agree for every edit of an indexed file to be seen.  They do
for the files of the source directory and of the library directories that are stylesheet sources
(`indexed_is_watched`).  A file with `.part` in front of its extension is no such source: it can be
imported, and so be indexed, but its edits are ignored (`part_file_ignored`).
-/

namespace SheetGraph

open WatchHandler (Reached watchRoots)

/-! ### Indexed files -/

/-- **What is indexed** is a stylesheet source, or has `.part` in front of its extension, or is
called like an extension. -/
theorem Graph.Indexes.kind {g : Graph} {d : Disk} {libraries files : List Location} {l : Location}
    (h : g.Indexes d libraries files) (hfiles : ∀ m ∈ files, m.isStylesheet = true)
    (hl : l ∈ g.order) : l.isStylesheet = true ∨ l.isPart = true ∨ l.isBare = true := by
  rcases (h.mem_order_iff l).mp hl with hlisted | ⟨m, -, hdepends⟩
  · exact Or.inl (hfiles l hlisted)
  · -- The last import on the way to the file has been resolved to it.
    obtain ⟨k, -, hk⟩ := Relation.TransGen.tail'_iff.mp hdepends
    cases hread : readImports d libraries k with
    | error e =>
      rw [nextOf, hread] at hk
      exact absurd hk List.not_mem_nil
    | ok ls =>
      rw [nextOf_of_ok hread] at hk
      obtain ⟨-, targets, found, -, -, hfound, rfl⟩ := readImports_eq_ok_iff.mp hread
      have hmem : l ∈ found := by
        simpa using hk
      obtain ⟨target, -, htarget⟩ := exists_of_mem_mapM hfound hmem
      exact kind_of_resolveTarget htarget

namespace WatchHandler

variable {p : Pipeline} {h : WatchHandler} {c : Compiler} {d : Disk} {files : List Location}
  {l : Location}

theorem Reached.kind (hreached : Reached p h) (hl : l ∈ h.graph.order) :
    l.isStylesheet = true ∨ l.isPart = true ∨ l.isBare = true := by
  rcases hreached.graph with hempty | ⟨d, k, hindex, hgraph⟩
  · rw [hempty] at hl
    exact absurd hl List.not_mem_nil
  · obtain ⟨-, -, sources, hsources, hindexes⟩ := indexes_of_index hindex
    rw [hgraph] at hl
    refine hindexes.kind (fun m hm => ?_) hl
    obtain ⟨dirs, n, rfl, hn⟩ := exists_entry_of_mem_sourcesUnder hsources hm
    rw [Location.isStylesheet, Location.fileName?_entry]
    exact hn

/-! ### Edits -/

/-- **A batch is ignored** if and only if none of its files is of interest. -/
theorem handleChanges_eq_ignored_iff :
    (h.handleChanges c d files).2.2 = .ok .ignored ↔
      ∀ l ∈ files, h.isRelevant d l.path = false := by
  constructor
  · intro hignored
    rcases hcall : h.handleChanges c d files with ⟨k, left, outcome⟩
    rw [hcall] at hignored
    obtain rfl : outcome = .ok .ignored := hignored
    rw [← changesOf_eq_nil_iff]
    cases handles_iff.mpr hcall with
    | ignored hchanges => exact hchanges
  · intro hirrelevant
    rw [handleChanges_of_ignored hirrelevant]

/-- **An edit of what is no stylesheet source** is of no interest, and a batch of nothing else is
ignored. -/
theorem handleChanges_of_not_isStylesheet (hname : l.isStylesheet = false) (d : Disk) :
    h.isRelevant d l.path = false ∧ ∀ c, h.handleChanges c d [l] = (h, d, .ok .ignored) := by
  have hirrelevant : h.isRelevant d l.path = false := by
    rw [isRelevant, Location.isStylesheet_path, hname, Bool.false_and]
  refine ⟨hirrelevant, fun c => handleChanges_of_ignored fun k hk => ?_⟩
  rw [List.mem_singleton.mp hk]
  exact hirrelevant

/-- A file of the source directory or of a library directory has a role. -/
theorem exists_role (hin : l.isWithin h.project.sourceDir = true ∨
    ∃ lib ∈ h.project.libraryDirs, l.isWithin lib = true) : ∃ role, h.role? l = some role := by
  unfold role?
  split
  · exact ⟨_, rfl⟩
  · rename_i hlibrary
    rcases hin with hsource | hlib
    · exact ⟨_, if_pos hsource⟩
    · exact absurd (List.any_eq_true.mpr hlib) hlibrary

/-- **The source directory and the library directories are watched**, each of them by itself or
together with the source directory around it. -/
theorem exists_watchRoot {p : Project} (hin : l.isWithin p.sourceDir = true ∨
    ∃ lib ∈ p.libraryDirs, l.isWithin lib = true) :
    ∃ root ∈ watchRoots p, l.isWithin root = true := by
  have hroot : ∀ root, root ∈ watchRoots p ↔
      root = p.sourceDir ∨ root ∈ p.libraryDirs ∧ root.isWithin p.sourceDir = false := by
    intro root
    simp [watchRoots]
  rcases hin with hsource | ⟨lib, hlib, hwithin⟩
  · exact ⟨p.sourceDir, (hroot _).mpr (Or.inl rfl), hsource⟩
  · cases hinside : lib.isWithin p.sourceDir with
    | true =>
      have hsource := Location.isWithin_trans hwithin hinside
      exact ⟨p.sourceDir, (hroot _).mpr (Or.inl rfl), hsource⟩
    | false => exact ⟨lib, (hroot _).mpr (Or.inr ⟨hlib, hinside⟩), hwithin⟩

/-! ### Files that are imported but not let in -/

/-- The file that is imported as `x.part`. -/
def partFile : Location := frontX.parent.entry ⟨"x.part.scss", by decide⟩

/-- The file that is imported as a directory. -/
def bareFile : Location := frontX.parent.entry ⟨".scss", by decide⟩

/-- A disk with a source that imports both. -/
def partDisk : Disk :=
  let dirs := (FileTree.empty.put pairDir .directory).put frontX.parent .directory
  save (save (save (save ⟨dirs, .root⟩ bareFile "") partFile "") pairB "") pairA
    "@import 'x.part', './';\n"

/-- The handler that has indexed it. -/
def partHandler : WatchHandler :=
  { pairHandler [⟨"one"⟩] false with
    graph := ((((Graph.empty.addFile pairA [partFile, bareFile]).addFile partFile []).addFile
      bareFile []).addFile pairB []).close }

theorem reached_partHandler : Reached partHandler.pipeline partHandler := by
  have hindex : (pairHandler [⟨"one"⟩] false).index partDisk = .ok partHandler :=
    index_pair (a := "@import 'x.part', './';\n".toUTF8) (b := "".toUTF8) (by decide +kernel)
      (by decide +kernel) (by decide +kernel) (by decide +kernel)
  exact .of_index (h := pairHandler [⟨"one"⟩] false) rfl hindex

/-! ### Indexed files are watched -/

/-- **What is indexed is watched**, in any state of the handler.  A file of the source directory or
of a library directory lies in a directory that is watched.  If it is a stylesheet source by its
name, its edits are of interest and no batch with it is ignored.  If `.part` stands in front of its
extension, its edits are of no interest, and a batch of nothing else is ignored. -/
theorem indexed_is_watched (hreached : Reached p h) (hl : l ∈ h.graph.order)
    (hin : l.isWithin p.project.sourceDir = true ∨
      ∃ lib ∈ p.project.libraryDirs, l.isWithin lib = true) :
    (∃ root ∈ watchRoots p.project, l.isWithin root = true) ∧
    (l.isPart = false → l.isBare = false → ∀ d, h.isRelevant d l.path = true ∧
      ∀ c files, l ∈ files → (h.handleChanges c d files).2.2 ≠ .ok .ignored) ∧
    (l.isPart = true → ∀ d, h.isRelevant d l.path = false ∧
      ∀ c, h.handleChanges c d [l] = (h, d, .ok .ignored)) := by
  obtain ⟨rfl, -⟩ := hreached.project
  refine ⟨exists_watchRoot hin, ?_, ?_⟩
  · intro hpart hbare d
    -- Of the three kinds of names that an import can lead to, only the first is left.
    have hname : l.isStylesheet = true := by
      rcases hreached.kind hl with hname | hpart' | hbare'
      · exact hname
      · rw [hpart] at hpart'
        cases hpart'
      · rw [hbare] at hbare'
        cases hbare'
    have hrelevant : h.isRelevant d l.path = true :=
      isRelevant_path_iff.mpr ⟨hname, exists_role hin⟩
    refine ⟨hrelevant, ?_⟩
    intro c files hfiles hignored
    rw [handleChanges_eq_ignored_iff.mp hignored l hfiles] at hrelevant
    cases hrelevant
  · intro hpart d
    exact handleChanges_of_not_isStylesheet (Location.isStylesheet_of_isPart hpart) d

/-- A library file that a source imports is watched. -/
theorem indexed_is_watched_layered :
    frontX ∈ (layeredHandler frontX).graph.order ∧
    (∃ root ∈ watchRoots (layeredHandler frontX).project, frontX.isWithin root = true) ∧
    ∀ d, (layeredHandler frontX).isRelevant d frontX.path = true ∧
      ∀ c files, frontX ∈ files →
        ((layeredHandler frontX).handleChanges c d files).2.2 ≠ .ok .ignored := by
  have hreached : Reached (layeredHandler frontX).pipeline (layeredHandler frontX) :=
    .of_index (h := layeredHandler frontX) rfl index_layeredBefore
  have hmem : frontX ∈ (layeredHandler frontX).graph.order := by
    decide +kernel
  obtain ⟨hroot, hseen, -⟩ := indexed_is_watched hreached hmem (Or.inr (by decide +kernel))
  exact ⟨hmem, hroot, hseen (by decide +kernel) (by decide +kernel)⟩

/-- Files that a source imports from a library directory, one with `.part` in front of its extension
and one that is called like an extension, are indexed, but their edits are ignored. -/
theorem part_file_ignored : Reached partHandler.pipeline partHandler ∧
    ∀ l ∈ [partFile, bareFile], l ∈ partHandler.graph.order ∧
      (∃ lib ∈ partHandler.project.libraryDirs, l.isWithin lib = true) ∧
      ∀ d, partHandler.isRelevant d l.path = false ∧
        ∀ c, partHandler.handleChanges c d [l] = (partHandler, d, .ok .ignored) := by
  have hindexed : ∀ l ∈ [partFile, bareFile], l ∈ partHandler.graph.order := by
    decide +kernel
  have hlibrary : ∀ l ∈ [partFile, bareFile],
      ∃ lib ∈ partHandler.project.libraryDirs, l.isWithin lib = true := by
    decide +kernel
  have hname : ∀ l ∈ [partFile, bareFile], l.isStylesheet = false := by
    decide +kernel
  exact ⟨reached_partHandler, fun l hl =>
    ⟨hindexed l hl, hlibrary l hl, handleChanges_of_not_isStylesheet (hname l hl)⟩⟩

end WatchHandler

end SheetGraph
