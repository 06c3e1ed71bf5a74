import SheetGraph.Proofs.Graph.Failure
import SheetGraph.Proofs.Watch.States

/-!
# Sources that cannot be read

The search for main sources passes over directories and links to directories, and lists the rest by
name.  A symbolic link that leads to nothing is neither, so it is listed like a link to a file, and
indexing fails to read it (`broken_link_listed`).  On a disk whose files hold valid texts this is
the only way in which an indexing comes upon an unreadable file (`index_unreadable`).
-/

namespace SheetGraph

/-- The entry at the location is a symbolic link, whatever links lead to its directory. -/
def Disk.IsLink (d : Disk) (l : Location) : Prop :=
  ∃ (dir real : Location) (n : Name) (target : Path), l = dir.entry n ∧
    d.find dir.path = .ok (real, .directory) ∧ d.tree.get? (real.entry n) = some (.link target)

namespace WatchHandler

variable {p : Pipeline} {h : WatchHandler} {d : Disk} {l : Location}

/-! ### Listed links -/

/-- **What is listed is a file or a link.** -/
theorem isFile_or_isLink_of_mem_sourcesUnder {root : Location} {options : FinderOptions}
    {sources : List Location} (hsources : sourcesUnder d root options = .ok sources)
    (hl : l ∈ sources) : d.isFile l.path = true ∨ d.IsLink l := by
  obtain ⟨real, hroot⟩ := exists_find_of_sourcesUnder hsources
  obtain ⟨names, n, rfl, hsearched, ⟨e, hget, hne⟩, -⟩ := (mem_sourcesUnder hroot hsources).mp hl
  have hdir := hsearched.find hroot
  cases e with
  | file content =>
    exact Or.inl (Disk.isFile_iff.mpr ⟨_, content, Disk.find_entry hdir hget Entry.file_ne_link⟩)
  | directory => exact absurd rfl hne
  | link target => exact Or.inr ⟨_, _, n, target, rfl, hdir, hget⟩

/-- Once the sources are listed, an indexing ends with a graph or with the failure of an import. -/
theorem index_of_listed {sources : List Location}
    (hsources : sourcesUnder d h.project.sourceDir h.options = .ok sources) :
    (∃ k, h.index d = .ok k) ∨ ∃ e, h.index d = .error (.index e) := by
  unfold index
  rw [hsources]
  dsimp only
  cases Graph.empty.inspect d h.project.libraryDirs sources with
  | error e => exact Or.inr ⟨e, rfl⟩
  | ok graph => exact Or.inl ⟨_, rfl⟩

/-! ### A source that is a link -/

/-- A disk with two sources, of which the second is a link. -/
def linkedDisk (target : Path) : Disk where
  tree := ((FileTree.empty.put pairDir .directory).put pairB (.link target)).put pairA
    (.file "".toUTF8)
  cwd := .root

theorem sourcesUnder_linkedDisk (target : Path)
    (hdir : (linkedDisk target).isDir pairB.path = false) :
    sourcesUnder (linkedDisk target) (pairHandler [] false).project.sourceDir
      (pairHandler [] false).options = .ok [pairA, pairB] := by
  have hentries : ∀ n ∈ [nameA, nameB], ∃ e,
      (linkedDisk target).tree.get? (pairDir.entry n) = some e ∧ e ≠ .directory ∧
        (linkedDisk target).isDir (pairDir.entry n).path = false := by
    intro n hn
    rw [List.mem_cons, List.mem_singleton] at hn
    rcases hn with rfl | rfl
    · have ha : (linkedDisk target).tree.get? pairA = some (.file "".toUTF8) := rfl
      exact ⟨_, ha, Entry.file_ne_directory, Disk.isDir_of_file ha⟩
    · exact ⟨.link target, rfl, (Entry.directory_ne_link target).symm, hdir⟩
  rw [sourceDir_pairHandler]
  exact sourcesUnder_pair_of_entries rfl hentries rfl

theorem reached_pairHandler :
    Reached (pairHandler [] false).pipeline (pairHandler [] false) :=
  .of_index (h := pairHandler [] false) rfl (index_pairDisk [] false (by decide +kernel)).1

/-! ### Indexing -/

/-- **What keeps an indexing from reading a source**, in any state of the handler and on any disk
whose files hold valid texts.  An unreadable file is a listed link that does not lead to a file; so
there is none if all listed links lead to files.  If one does not, the indexing fails. -/
theorem index_unreadable (hreached : Reached p h) (htext : d.tree.HoldsText) :
    (∀ path cause, h.index d = .error (.index (.unreadable path cause)) →
      ∃ l, path = l.path ∧ h.Lists d l ∧ d.IsLink l ∧ d.isFile l.path = false) ∧
    ((∀ l, h.Lists d l → d.IsLink l → d.isFile l.path = true) →
      ∀ path cause, h.index d ≠ .error (.index (.unreadable path cause))) ∧
    (∀ l, h.Lists d l → d.isFile l.path = false → ∃ e, h.index d = .error (.index e)) := by
  have hlists : ∀ l, h.Lists d l ↔ ∃ sources,
      sourcesUnder d h.project.sourceDir h.options = .ok sources ∧ l ∈ sources := by
    intro l
    exact lists_iff hreached.project.2
  have hunreadable : ∀ path cause, h.index d = .error (.index (.unreadable path cause)) →
      ∃ l, path = l.path ∧ h.Lists d l ∧ d.IsLink l ∧ d.isFile l.path = false := by
    intro path cause hindex
    obtain ⟨sources, hsources, hinspect⟩ := index_eq_error_iff.mp hindex
    obtain ⟨l, hl, hpath, hnot⟩ := Graph.mem_of_inspect_unreadable htext hinspect
    refine ⟨l, hpath, (hlists l).mpr ⟨sources, hsources, hl⟩, ?_, hnot⟩
    rcases isFile_or_isLink_of_mem_sourcesUnder hsources hl with hfile | hlink
    · rw [hfile] at hnot
      cases hnot
    · exact hlink
  refine ⟨hunreadable, ?_, ?_⟩
  · intro hlinks path cause hindex
    obtain ⟨l, -, hl, hlink, hnot⟩ := hunreadable path cause hindex
    rw [hlinks l hl hlink] at hnot
    cases hnot
  · intro l hl hnot
    obtain ⟨sources, hsources, hl⟩ := (hlists l).mp hl
    rcases index_of_listed hsources with ⟨k, hindex⟩ | herror
    · -- A graph would hold the source, but what is indexed is a file.
      obtain ⟨-, -, sources', hsources', hindexes⟩ := indexes_of_index hindex
      rw [hsources] at hsources'
      cases hsources'
      rw [hindexes.isFile ((hindexes.mem_order_iff l).mpr (Or.inl hl))] at hnot
      cases hnot
    · exact herror

/-- A listed link that leads to a file can be read. -/
theorem index_unreadable_linked : (pairHandler [] false).Lists (linkedDisk ⟨"a.scss"⟩) pairB ∧
    (linkedDisk ⟨"a.scss"⟩).IsLink pairB ∧ ∀ path cause,
      (pairHandler [] false).index (linkedDisk ⟨"a.scss"⟩)
        ≠ .error (.index (.unreadable path cause)) := by
  have hsources := sourcesUnder_linkedDisk ⟨"a.scss"⟩ (by decide +kernel)
  have hfiles : ∀ l ∈ [pairA, pairB], (linkedDisk ⟨"a.scss"⟩).isFile l.path = true := by
    decide +kernel
  have htext : (linkedDisk ⟨"a.scss"⟩).tree.HoldsText :=
    FileTree.holdsText_of_all (by decide +kernel)
  obtain ⟨-, hreadable, -⟩ := index_unreadable reached_pairHandler htext
  refine ⟨(lists_iff rfl).mpr ⟨_, hsources, by simp⟩, ?_, hreadable fun l hl _ => ?_⟩
  · exact ⟨pairDir, pairDir, nameB, ⟨"a.scss"⟩, rfl, by decide +kernel, rfl⟩
  · obtain ⟨sources, hsources', hl⟩ := (lists_iff rfl).mp hl
    rw [hsources] at hsources'
    cases hsources'
    exact hfiles l hl

/-- A link that leads to nothing is listed, and indexing fails to read it. -/
theorem broken_link_listed : Reached (pairHandler [] false).pipeline (pairHandler [] false) ∧
    (linkedDisk ⟨"gone.scss"⟩).tree.HoldsText ∧
    (pairHandler [] false).Lists (linkedDisk ⟨"gone.scss"⟩) pairB ∧
    (pairHandler [] false).index (linkedDisk ⟨"gone.scss"⟩)
      = .error (.index (.unreadable pairB.path .notFound)) := by
  have hsources := sourcesUnder_linkedDisk ⟨"gone.scss"⟩ (by decide +kernel)
  refine ⟨reached_pairHandler, FileTree.holdsText_of_all (by decide +kernel),
    (lists_iff rfl).mpr ⟨_, hsources, by simp⟩, ?_⟩
  exact index_eq_error_iff.mpr ⟨_, hsources, by decide +kernel⟩

end WatchHandler

end SheetGraph
