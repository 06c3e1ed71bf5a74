import SheetGraph.Proofs.Build.Results
import SheetGraph.Proofs.Discovery.Listing
import SheetGraph.Proofs.Graph.Dependency
import SheetGraph.Watch.Handler

/-!
# What a batch of edits compiles

`Affects` says when an edit of a file calls for a main source: the file is there and is the source
or is reached by it in the new graph, or the file is gone and was reached by it in the old one.  A
batch that is answered with a build compiles exactly the sources that one of its files calls for
(`handleChanges_results`).
-/

namespace SheetGraph.WatchHandler

variable {h h' : WatchHandler} {c : Compiler} {d d' : Disk} {files : List Location}
  {l m : Location} {r : BuildResult}

/-! ### Indexing -/

theorem index_eq_ok_iff :
    h.index d = .ok h' ↔ ∃ sources graph,
      sourcesUnder d h.project.sourceDir h.options = .ok sources ∧
      Graph.empty.inspect d h.project.libraryDirs sources = .ok graph ∧
      h' = { h with graph := graph, indexError := none } := by
  unfold index
  cases sourcesUnder d h.project.sourceDir h.options with
  | error e => simp
  | ok sources =>
    cases hgraph : Graph.empty.inspect d h.project.libraryDirs sources with
    | error e => simp [hgraph]
    | ok graph => simp [hgraph, eq_comm]

theorem index_eq_error_iff {e : ImportError} :
    h.index d = .error (.index e) ↔ ∃ sources,
      sourcesUnder d h.project.sourceDir h.options = .ok sources ∧
      Graph.empty.inspect d h.project.libraryDirs sources = .error e := by
  unfold index
  cases sourcesUnder d h.project.sourceDir h.options with
  | error e => simp
  | ok sources =>
    cases hgraph : Graph.empty.inspect d h.project.libraryDirs sources with
    | error e => simp [hgraph]
    | ok graph => simp [hgraph]

/-- What an indexing gives does not depend on the graph before. -/
theorem index_congr (hpipeline : h'.pipeline = h.pipeline) (hoptions : h'.options = h.options) :
    h'.index d = h.index d := by
  unfold index
  rw [project, project, hpipeline, hoptions]

/-- **What an indexing of the project gives**: the graph knows the main sources and what they depend
on, and nothing but the graph is new. -/
theorem indexes_of_index (hindex : h.index d = .ok h') :
    h'.pipeline = h.pipeline ∧ h'.options = h.options ∧
      ∃ sources, sourcesUnder d h.project.sourceDir h.options = .ok sources ∧
        h'.graph.Indexes d h.project.libraryDirs sources := by
  obtain ⟨sources, graph, hsources, hinspect, rfl⟩ := index_eq_ok_iff.mp hindex
  exact ⟨rfl, rfl, sources, hsources, Graph.indexes_of_inspect hinspect⟩

/-! ### The edits of a batch -/

/-- The edit that a batch makes of a file, if it is one of the project. -/
def changeOf? (h : WatchHandler) (d : Disk) (l : Location) : Option Change :=
  if l.isStylesheet then (h.role? l).map fun role =>
    ⟨l, role, if d.contains l.path then none else some (h.previousParents l)⟩
  else none

theorem file_of_changeOf? {change : Change} (hchange : h.changeOf? d l = some change) :
    change.file = l := by
  unfold changeOf? at hchange
  split at hchange
  · obtain ⟨role, -, rfl⟩ := Option.map_eq_some_iff.mp hchange
    rfl
  · cases hchange

theorem changesOf_cons (known : List Change) (l : Location) (ls : List Location) :
    h.changesOf d known (l :: ls) =
      if known.any (·.file == l) then h.changesOf d known ls
      else match h.changeOf? d l with
        | none => h.changesOf d known ls
        | some change => h.changesOf d (known ++ [change]) ls := by
  rw [changesOf, changeOf?]
  cases l.isStylesheet with
  | false => simp
  | true =>
    cases known.any (·.file == l) with
    | true => rfl
    | false => cases h.role? l <;> rfl

/-- **The edits of a batch are those of its files.** -/
theorem mem_changesOf {change : Change} (known : List Change) (files : List Location)
    (hknown : ∀ x ∈ known, h.changeOf? d x.file = some x) :
    change ∈ h.changesOf d known files ↔
      change ∈ known ∨ ∃ l ∈ files, h.changeOf? d l = some change := by
  induction files generalizing known with
  | nil => simp [changesOf]
  | cons l files ih =>
    rw [changesOf_cons]
    split
    · rename_i hany
      obtain ⟨x, hx, hxl⟩ := List.any_eq_true.mp hany
      have hxfile : x.file = l := by simpa using hxl
      -- The edit of a file that comes again is known already.
      have hagain : ∀ y, h.changeOf? d l = some y → y ∈ known := by
        intro y hy
        rw [← hxfile, hknown x hx] at hy
        cases hy
        exact hx
      rw [ih known hknown]
      simp only [List.mem_cons, exists_eq_or_imp]
      constructor
      · rintro (hc | hc)
        · exact Or.inl hc
        · exact Or.inr (Or.inr hc)
      · rintro (hc | hc | hc)
        · exact Or.inl hc
        · exact Or.inl (hagain _ hc)
        · exact Or.inr hc
    · cases hchange : h.changeOf? d l with
      | none =>
        rw [ih known hknown]
        simp [hchange]
      | some x =>
        have hknown' : ∀ y ∈ known ++ [x], h.changeOf? d y.file = some y := by
          intro y hy
          rcases List.mem_append.mp hy with hy | hy
          · exact hknown y hy
          · rw [List.mem_singleton.mp hy, file_of_changeOf? hchange]
            exact hchange
        dsimp only
        rw [ih _ hknown']
        simp [hchange, or_assoc, eq_comm]

/-! ### The sources of edits -/

/-- **The sources of edits are those of each of them.** -/
theorem mem_sourcesForAll {changes : List Change} {known sources : List Location}
    (hsources : h.sourcesForAll d known changes = .ok sources) :
    m ∈ sources ↔ m ∈ known ∨
      ∃ change ∈ changes, ∃ ls, h.sourcesFor d change = .ok ls ∧ m ∈ ls := by
  induction changes generalizing known with
  | nil =>
    cases hsources
    simp
  | cons change changes ih =>
    rw [sourcesForAll] at hsources
    cases hfor : h.sourcesFor d change with
    | error e =>
      rw [hfor] at hsources
      cases hsources
    | ok ls =>
      rw [hfor] at hsources
      rw [ih hsources, mem_collect]
      simp [hfor, or_assoc]

theorem nodup_sourcesForAll {changes : List Change} {known sources : List Location}
    (hsources : h.sourcesForAll d known changes = .ok sources) (hknown : known.Nodup) :
    sources.Nodup := by
  induction changes generalizing known with
  | nil =>
    cases hsources
    exact hknown
  | cons change changes ih =>
    rw [sourcesForAll] at hsources
    split at hsources
    · cases hsources
    · rename_i ls _
      exact ih hsources (nodup_collect ls hknown)

/-- A handler that lists the sources of all edits lists those of each. -/
theorem exists_sourcesFor {changes : List Change} {known sources : List Location}
    (hsources : h.sourcesForAll d known changes = .ok sources) :
    ∀ change ∈ changes, ∃ ls, h.sourcesFor d change = .ok ls := by
  induction changes generalizing known with
  | nil => simp
  | cons change changes ih =>
    rw [sourcesForAll] at hsources
    cases hfor : h.sourcesFor d change with
    | error e =>
      rw [hfor] at hsources
      cases hsources
    | ok ls =>
      rw [hfor] at hsources
      exact List.forall_mem_cons.mpr ⟨⟨ls, hfor⟩, ih hsources⟩

/-! ### Affected sources -/

/-- An edit of the file `l` calls for the main source `m`; `h` is the handler before the edit and
`h'` the one that has indexed the project again.  Of a cyclic file no importers are remembered. -/
def Affects (h h' : WatchHandler) (d : Disk) (l m : Location) : Prop :=
  l.isStylesheet = true ∧ h.isMain m = true ∧ ∃ role, h.role? l = some role ∧
    (d.contains l.path = true ∧ (role = .project ∧ m = l ∨ h'.graph.Reaches m l) ∨
      d.contains l.path = false ∧ d.contains m.path = true ∧ h.graph.isCyclic l = false ∧
        h.graph.Reaches m l)

theorem mem_previousParents_iff (hwf : h.graph.WellFormed) :
    m ∈ h.previousParents l ↔ h.graph.isCyclic l = false ∧ h.graph.Reaches m l := by
  unfold previousParents
  cases hparents : h.graph.parents l with
  | error e =>
    have hcyclic := (Graph.closure_eq_error_iff.mp hparents).2
    simp [hcyclic]
  | ok parents =>
    have hcyclic := (hwf.parents_eq_ok_iff.mp hparents).1
    dsimp only
    rw [hwf.mem_of_parents_eq_ok hparents]
    simp [hcyclic]

/-- The sources that a file affects are the main sources that reach it, and the file itself if it is
asked for. -/
theorem mem_affectedSources_iff (hwf : h.graph.WellFormed) {includeSelf : Bool}
    {ls : List Location} (hls : h.affectedSources l includeSelf = .ok ls) :
    m ∈ ls ↔ h.isMain m = true ∧ (includeSelf = true ∧ m = l ∨ h.graph.Reaches m l) := by
  unfold affectedSources at hls
  cases hparents : h.graph.parents l with
  | error e =>
    rw [hparents] at hls
    cases hls
  | ok parents =>
    rw [hparents] at hls
    cases hls
    have hself : m ∈ (if includeSelf && h.isMain l then [l] else []) ↔
        h.isMain m = true ∧ includeSelf = true ∧ m = l := by
      split
      · rename_i hcond
        rw [Bool.and_eq_true] at hcond
        rw [List.mem_singleton]
        constructor
        · rintro rfl
          exact ⟨hcond.2, hcond.1, rfl⟩
        · exact fun hm => hm.2.2
      · rename_i hcond
        rw [Bool.and_eq_true] at hcond
        constructor
        · exact fun hm => absurd hm List.not_mem_nil
        · rintro ⟨hm, hinclude, rfl⟩
          exact absurd ⟨hinclude, hm⟩ hcond
    rw [mem_collect, hself, List.mem_filter, hwf.mem_of_parents_eq_ok hparents, and_or_left,
      and_comm (a := h.graph.Reaches m l)]

/-- **The sources of an edit are those that it calls for.** -/
theorem mem_sourcesFor_iff (hmain : ∀ m, h'.isMain m = h.isMain m) (hwf : h.graph.WellFormed)
    (hwf' : h'.graph.WellFormed) {change : Change} {ls : List Location}
    (hchange : h.changeOf? d l = some change) (hls : h'.sourcesFor d change = .ok ls) :
    m ∈ ls ↔ Affects h h' d l m := by
  unfold changeOf? at hchange
  split at hchange
  swap
  · cases hchange
  rename_i hname
  obtain ⟨role, hrole, rfl⟩ := Option.map_eq_some_iff.mp hchange
  unfold sourcesFor at hls
  dsimp only at hls
  unfold Affects
  rw [hname, hrole]
  cases hcontains : d.contains l.path with
  | false =>
    -- The file is gone, so its importers of before count, as far as they are still there.
    rw [hcontains, if_neg Bool.false_ne_true] at hls
    cases hls
    rw [List.mem_filter, Bool.and_eq_true, hmain, mem_previousParents_iff hwf]
    constructor
    · rintro ⟨⟨hcyclic, hreaches⟩, hthere, hm⟩
      exact ⟨rfl, hm, role, rfl, Or.inr ⟨rfl, hthere, hcyclic, hreaches⟩⟩
    · rintro ⟨-, hm, -, -, ⟨hnot, -⟩ | ⟨-, hthere, hcyclic, hreaches⟩⟩
      · cases hnot
      · exact ⟨⟨hcyclic, hreaches⟩, hthere, hm⟩
  | true =>
    -- The file is there, so its importers of now count.
    rw [hcontains, if_pos rfl] at hls
    rw [mem_affectedSources_iff hwf' hls, hmain, decide_eq_true_eq]
    constructor
    · rintro ⟨hm, hreaches⟩
      exact ⟨rfl, hm, role, rfl, Or.inl ⟨rfl, hreaches⟩⟩
    · rintro ⟨-, hm, role', hrole', ⟨-, hreaches⟩ | ⟨hnot, -⟩⟩
      · cases hrole'
        exact ⟨hm, hreaches⟩
      · cases hnot

/-! ### Batches -/

/-- **What handling a batch can come to**: the handler, the disk and the outcome that it leaves. -/
inductive Handles (h : WatchHandler) (c : Compiler) (d : Disk) (files : List Location) :
    WatchHandler → Disk → Except WatchError ChangeOutcome → Prop
  /-- No file is of interest. -/
  | ignored : h.changesOf d [] files = [] → Handles h c d files h d (.ok .ignored)
  /-- The main sources of the project cannot be listed. -/
  | unlisted {e : DiscoveryError} : h.changesOf d [] files ≠ [] →
      h.index d = .error (.discovery e) → Handles h c d files h d (.error (.discovery e))
  /-- The main sources cannot be indexed. -/
  | unindexed {e : ImportError} : h.changesOf d [] files ≠ [] → h.index d = .error (.index e) →
      Handles h c d files (h.indexFailed e) d (.ok (.indexFailed e))
  /-- The project is indexed, but the sources of the edits cannot be told. -/
  | untold {k : WatchHandler} {e : ImportError} : h.changesOf d [] files ≠ [] → h.index d = .ok k →
      k.sourcesForAll d [] (h.changesOf d [] files) = .error e →
      Handles h c d files (k.indexFailed e) d (.ok (.indexFailed e))
  /-- The sources of the edits cannot be built. -/
  | unbuilt {k : WatchHandler} {sources : List Location} {left : Disk} {e : BuildError} :
      h.changesOf d [] files ≠ [] → h.index d = .ok k →
      k.sourcesForAll d [] (h.changesOf d [] files) = .ok sources →
      k.pipeline.buildSources c d (sources.map Location.path) = (left, .error e) →
      Handles h c d files k left (.error (.build e))
  /-- They are built. -/
  | built {k : WatchHandler} {sources : List Location} {left : Disk} {r : BuildResult} :
      h.changesOf d [] files ≠ [] → h.index d = .ok k →
      k.sourcesForAll d [] (h.changesOf d [] files) = .ok sources →
      k.pipeline.buildSources c d (sources.map Location.path) = (left, .ok r) →
      Handles h c d files k left (.ok (.rebuilt r))

theorem exists_of_index_eq_error {e : WatchError} (hindex : h.index d = .error e) :
    (∃ cause, e = .discovery cause) ∨ ∃ cause, e = .index cause := by
  unfold index at hindex
  split at hindex
  · cases hindex
    exact Or.inl ⟨_, rfl⟩
  · split at hindex
    · cases hindex
      exact Or.inr ⟨_, rfl⟩
    · cases hindex

theorem Handles.handleChanges_eq {outcome : Except WatchError ChangeOutcome}
    (hhandles : Handles h c d files h' d' outcome) :
    h.handleChanges c d files = (h', d', outcome) := by
  unfold handleChanges
  split
  · rename_i hnone
    cases hhandles with
    | ignored => rfl
    | unlisted hchanges => exact absurd hnone hchanges
    | unindexed hchanges => exact absurd hnone hchanges
    | untold hchanges => exact absurd hnone hchanges
    | unbuilt hchanges => exact absurd hnone hchanges
    | built hchanges => exact absurd hnone hchanges
  · rename_i hsome
    cases hhandles with
    | ignored hchanges => exact absurd hchanges hsome
    | unlisted _ hindex => rw [hindex]
    | unindexed _ hindex => rw [hindex]
    | untold _ hindex hsources =>
      rw [hindex]
      dsimp only
      rw [hsources]
    | unbuilt _ hindex hsources hbuild =>
      rw [hindex]
      dsimp only
      rw [hsources]
      dsimp only
      rw [hbuild]
    | built _ hindex hsources hbuild =>
      rw [hindex]
      dsimp only
      rw [hsources]
      dsimp only
      rw [hbuild]

theorem handles_of_handleChanges {outcome : Except WatchError ChangeOutcome}
    (hcall : h.handleChanges c d files = (h', d', outcome)) :
    Handles h c d files h' d' outcome := by
  unfold handleChanges at hcall
  split at hcall
  · rename_i hchanges
    cases hcall
    exact .ignored hchanges
  · rename_i changes hchanges
    split at hcall
    · rename_i hindex
      cases hcall
      exact .unindexed hchanges hindex
    · -- The error is none of the index, so it is one of the listing.
      rename_i hcause hindex
      cases hcall
      rcases exists_of_index_eq_error hindex with ⟨cause, rfl⟩ | ⟨cause, rfl⟩
      · exact .unlisted hchanges hindex
      · exact absurd rfl (hcause cause)
    · rename_i k hindex
      split at hcall
      · rename_i hsources
        cases hcall
        exact .untold hchanges hindex hsources
      · rename_i sources hsources
        split at hcall
        · rename_i hbuild
          cases hcall
          exact .unbuilt hchanges hindex hsources hbuild
        · rename_i hbuild
          cases hcall
          exact .built hchanges hindex hsources hbuild

/-- **A call comes to one of these things, and to no other.** -/
theorem handles_iff {outcome : Except WatchError ChangeOutcome} :
    Handles h c d files h' d' outcome ↔ h.handleChanges c d files = (h', d', outcome) :=
  ⟨Handles.handleChanges_eq, handles_of_handleChanges⟩

theorem handleChanges_of_index {e : ImportError} (hchanges : h.changesOf d [] files ≠ [])
    (hindex : h.index d = .error (.index e)) :
    h.handleChanges c d files = (h.indexFailed e, d, .ok (.indexFailed e)) :=
  handles_iff.mp (.unindexed hchanges hindex)

theorem handleChanges_eq_rebuilt_iff :
    h.handleChanges c d files = (h', d', .ok (.rebuilt r)) ↔
      h.changesOf d [] files ≠ [] ∧ h.index d = .ok h' ∧
      ∃ sources, h'.sourcesForAll d [] (h.changesOf d [] files) = .ok sources ∧
        h'.pipeline.buildSources c d (sources.map Location.path) = (d', .ok r) := by
  rw [← handles_iff]
  constructor
  · intro hhandles
    cases hhandles with
    | built hchanges hindex hsources hbuild => exact ⟨hchanges, hindex, _, hsources, hbuild⟩
  · rintro ⟨hchanges, hindex, sources, hsources, hbuild⟩
    exact .built hchanges hindex hsources hbuild

theorem handleChanges_eq_rebuilt {sources : List Location} (hindex : h.index d = .ok h')
    (hchanges : h.changesOf d [] files ≠ [])
    (hsources : h'.sourcesForAll d [] (h.changesOf d [] files) = .ok sources)
    (hbuild : (h'.pipeline.buildSources c d (sources.map Location.path)).2 = .ok r) :
    h.handleChanges c d files
      = (h', (h'.pipeline.buildSources c d (sources.map Location.path)).1, .ok (.rebuilt r)) := by
  rw [handleChanges_eq_rebuilt_iff]
  refine ⟨hchanges, hindex, sources, hsources, ?_⟩
  rw [← hbuild]

/-- **The sources of a batch are those that one of its files calls for.** -/
theorem mem_sources_iff {sources : List Location} (hwf : h.graph.WellFormed)
    (hindex : h.index d = .ok h')
    (hsources : h'.sourcesForAll d [] (h.changesOf d [] files) = .ok sources) :
    m ∈ sources ↔ ∃ l ∈ files, Affects h h' d l m := by
  obtain ⟨hpipeline, hoptions, _, _, hindexes⟩ := indexes_of_index hindex
  have hmain : ∀ m, h'.isMain m = h.isMain m := by
    intro m
    rw [isMain, isMain, project, project, hpipeline, hoptions]
  have hchanges : ∀ change, change ∈ h.changesOf d [] files ↔
      ∃ l ∈ files, h.changeOf? d l = some change := by
    intro change
    rw [mem_changesOf [] files (by simp)]
    simp
  rw [mem_sourcesForAll hsources]
  constructor
  · rintro (hm | ⟨change, hchange, ls, hls, hm⟩)
    · exact absurd hm List.not_mem_nil
    · obtain ⟨l, hl, hlchange⟩ := (hchanges change).mp hchange
      exact ⟨l, hl, (mem_sourcesFor_iff hmain hwf hindexes.wellFormed hlchange hls).mp hm⟩
  · rintro ⟨l, hl, haffects⟩
    -- The file is one of the project, so there is an edit of it.
    obtain ⟨hname, -, role, hrole, -⟩ := id haffects
    obtain ⟨change, hchange⟩ : ∃ change, h.changeOf? d l = some change := by
      simp [changeOf?, hname, hrole]
    have hmem := (hchanges change).mpr ⟨l, hl, hchange⟩
    obtain ⟨ls, hls⟩ := exists_sourcesFor hsources change hmem
    exact Or.inr ⟨change, hmem, ls, hls,
      (mem_sourcesFor_iff hmain hwf hindexes.wellFormed hchange hls).mpr haffects⟩

/-- **A batch that is answered with a build compiles exactly what one of its files calls for**,
unless a failure ends the build. -/
theorem handleChanges_results (hwf : h.graph.WellFormed)
    (hrebuilt : h.handleChanges c d files = (h', d', .ok (.rebuilt r)))
    (hfull : h.pipeline.failFast = true → ∀ x ∈ r.results, x.isFailure = false) :
    (∃ x ∈ r.results, x.source = m.path) ↔ ∃ l ∈ files, Affects h h' d l m := by
  obtain ⟨-, hindex, sources, hsources, hbuild⟩ := handleChanges_eq_rebuilt_iff.mp hrebuilt
  obtain ⟨hpipeline, -, -⟩ := indexes_of_index hindex
  have hperm := Pipeline.map_source_buildSources hbuild (hpipeline ▸ hfull)
  have hmem : (∃ x ∈ r.results, x.source = m.path) ↔ m.path ∈ r.results.map (·.source) := by
    rw [List.mem_map]
  rw [hmem, hperm.mem_iff, List.mem_map_of_injective Location.path_injective]
  exact mem_sources_iff hwf hindex hsources

theorem handleChanges_results_of_failFast (hwf : h.graph.WellFormed)
    (hrebuilt : h.handleChanges c d files = (h', d', .ok (.rebuilt r)))
    (hfail : h.pipeline.failFast = false) :
    (∃ x ∈ r.results, x.source = m.path) ↔ ∃ l ∈ files, Affects h h' d l m := by
  refine handleChanges_results hwf hrebuilt fun hfast => ?_
  rw [hfail] at hfast
  cases hfast

end SheetGraph.WatchHandler
