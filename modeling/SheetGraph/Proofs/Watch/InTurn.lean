import SheetGraph.Proofs.Watch.Runs

/-!
# A batch in parts

The edits of a batch can also be handled in parts, one after the other (`InTurn`), while the disk
stays as it is.  The parts compile what the whole batch does, but for one thing
(`compiles_inTurn`): the first part that is not ignored has the project indexed, and from then on
the graph is that of the edited disk, in which nothing imports a file that is gone
(`affects_self_iff`).  So a removed file that a later part names first calls for nothing, and what
imported it is not compiled (`removed_file_forgotten`).

What a single call compiles is what its files call for, if a build can run at all
(`compiles_handleChanges_iff`).  Whether it can does not depend on the sources, so it is the same
for the whole batch and for each part that has something to compile.
-/

namespace SheetGraph.WatchHandler

variable {h h' k k₀ : WatchHandler} {c : Compiler} {d d₀ d' : Disk} {files : List Location}
  {batches : List (List Location)} {l m : Location} {r : BuildResult}
  {outcome : Except WatchError ChangeOutcome}
  {outcomes : List (Except WatchError ChangeOutcome)}

/-! ### One call -/

/-- Whether a file is of interest does not depend on the disk. -/
theorem isRelevant_path (d d' : Disk) : h.isRelevant d l.path = h.isRelevant d' l.path := by
  rw [isRelevant, isRelevant, Disk.locate_path, Disk.locate_path]

/-- The outcome is a build with a result for the source. -/
def Compiles (outcome : Except WatchError ChangeOutcome) (m : Location) : Prop :=
  ∃ r, outcome = .ok (.rebuilt r) ∧ ∃ x ∈ r.results, x.source = m.path

theorem changesOf_eq_nil_iff :
    h.changesOf d [] files = [] ↔ ∀ l ∈ files, h.isRelevant d l.path = false := by
  have hchange : ∀ l, (∃ change, h.changeOf? d l = some change) ↔
      h.isRelevant d l.path = true := by
    intro l
    rw [isRelevant_path_iff, changeOf?]
    cases l.isStylesheet <;> cases h.role? l <;> simp
  simp only [List.eq_nil_iff_forall_not_mem, mem_changesOf [] files (by simp), List.not_mem_nil,
    false_or, ← Bool.not_eq_true, ← hchange]
  constructor
  · rintro hnone l hl ⟨change, hlchange⟩
    exact hnone change ⟨l, hl, hlchange⟩
  · rintro hnone change ⟨l, hl, hlchange⟩
    exact hnone l hl ⟨change, hlchange⟩

theorem handleChanges_of_ignored (hignored : ∀ l ∈ files, h.isRelevant d l.path = false) :
    h.handleChanges c d files = (h, d, .ok .ignored) := by
  rw [handleChanges, changesOf_eq_nil_iff.mpr hignored]

/-- A handler that lists the sources of each edit lists those of all of them. -/
theorem exists_sourcesForAll {changes : List Change} (known : List Location)
    (hchanges : ∀ change ∈ changes, ∃ ls, h.sourcesFor d change = .ok ls) :
    ∃ sources, h.sourcesForAll d known changes = .ok sources := by
  induction changes generalizing known with
  | nil => exact ⟨known, rfl⟩
  | cons change changes ih =>
    obtain ⟨⟨ls, hls⟩, hchanges⟩ := List.forall_mem_cons.mp hchanges
    obtain ⟨sources, hsources⟩ := ih (collect known ls) hchanges
    refine ⟨sources, ?_⟩
    rw [sourcesForAll, hls]
    exact hsources

/-- The sources of an edit can be listed unless its file is cyclic. -/
theorem exists_sourcesFor_of_acyclic {change : Change}
    (hcyclic : h.graph.isCyclic change.file = false) : ∃ ls, h.sourcesFor d change = .ok ls := by
  unfold sourcesFor affectedSources
  cases change.previous with
  | some previous => exact ⟨_, rfl⟩
  | none =>
    dsimp only
    cases hparents : h.graph.parents change.file with
    | error e =>
      rw [(Graph.closure_eq_error_iff.mp hparents).2] at hcyclic
      cases hcyclic
    | ok parents => exact ⟨_, rfl⟩

/-- **The sources of a batch can be listed** if none of its files is cyclic. -/
theorem exists_sources_of_acyclic (hacyclic : ∀ l ∈ files, k.graph.isCyclic l = false) :
    ∃ sources, k.sourcesForAll d [] (h.changesOf d [] files) = .ok sources := by
  apply exists_sourcesForAll
  intro change hchange
  rw [mem_changesOf [] files (by simp)] at hchange
  obtain ⟨l, hl, hlchange⟩ := hchange.resolve_left List.not_mem_nil
  apply exists_sourcesFor_of_acyclic
  rw [file_of_changeOf? hlchange]
  exact hacyclic l hl

/-- A file that calls for something is of interest. -/
theorem Affects.isRelevant (haffects : Affects h k d l m) : h.isRelevant d l.path = true := by
  obtain ⟨hname, -, role, hrole, -⟩ := haffects
  exact isRelevant_path_iff.mpr ⟨hname, role, hrole⟩

theorem not_affects_of_ignored (hignored : h.isRelevant d l.path = false) :
    ¬ Affects h k d l m := by
  intro haffects
  rw [haffects.isRelevant] at hignored
  cases hignored

/-- A main source is a stylesheet in the source directory. -/
theorem isStylesheet_of_isMain (hm : h.isMain m = true) :
    m.isStylesheet = true ∧ m.isWithin h.project.sourceDir = true := by
  obtain ⟨names, hbelow, -, hname, -⟩ := isMainSource_iff_exists.mp hm
  exact ⟨hname, Location.isWithin_iff.mpr ⟨names, hbelow⟩⟩

theorem isRelevant_of_isMain (hm : h.isMain m = true) : h.isRelevant d m.path = true := by
  obtain ⟨hname, hwithin⟩ := isStylesheet_of_isMain hm
  refine isRelevant_path_iff.mpr ⟨hname, ?_⟩
  rw [role?, if_pos hwithin]
  split <;> exact ⟨_, rfl⟩

/-- A call that is not ignored ends with the handler that has indexed the disk. -/
theorem fst_handleChanges (hindex : h.index d = .ok k)
    (hacyclic : ∀ l ∈ files, k.graph.isCyclic l = false)
    (hrelevant : ∃ l ∈ files, h.isRelevant d l.path = true) :
    (h.handleChanges c d files).1 = k := by
  obtain ⟨sources, hsources⟩ := exists_sources_of_acyclic (d := d) (h := h) hacyclic
  obtain ⟨l, hl, hlrelevant⟩ := hrelevant
  unfold handleChanges
  cases hchanges : h.changesOf d [] files with
  | nil =>
    rw [changesOf_eq_nil_iff.mp hchanges l hl] at hlrelevant
    cases hlrelevant
  | cons change changes =>
    rw [hchanges] at hsources
    dsimp only
    rw [hindex]
    dsimp only
    rw [hsources]
    dsimp only
    split <;> rfl

/-- **What a call compiles**, if no file is cyclic and no failure ends the build: what its files
call for, if a build can run. -/
theorem compiles_handleChanges_iff (hwf : h.graph.WellFormed) (hindex : h.index d = .ok k)
    (hacyclic : ∀ l ∈ files, k.graph.isCyclic l = false) (hfail : h.pipeline.failFast = false) :
    Compiles (h.handleChanges c d files).2.2 m ↔
      h.pipeline.CanBuild d ∧ ∃ l ∈ files, Affects h k d l m := by
  obtain ⟨sources, hsources⟩ := exists_sources_of_acyclic (d := d) (h := h) hacyclic
  have hmem : ∀ m, m ∈ sources ↔ ∃ l ∈ files, Affects h k d l m :=
    fun m => mem_sources_iff hwf hindex hsources
  have hpipeline : k.pipeline = h.pipeline := (continues_of_index hindex).pipeline
  have hwithin : ∀ m ∈ sources, m.isWithin k.pipeline.project.sourceDir = true := by
    intro m hm
    obtain ⟨l, -, -, hmain, -⟩ := (hmem m).mp hm
    rw [hpipeline]
    exact (isStylesheet_of_isMain hmain).2
  rw [← hpipeline]
  constructor
  · rintro ⟨r, hrebuilt, hx⟩
    obtain ⟨k', d', hcall⟩ : ∃ k' d', h.handleChanges c d files = (k', d', .ok (.rebuilt r)) :=
      ⟨_, _, by rw [← hrebuilt]⟩
    obtain ⟨-, hindex', sources', hsources', hbuild⟩ := handleChanges_eq_rebuilt_iff.mp hcall
    -- The handler and the sources of that build are the ones at hand.
    rw [hindex] at hindex'
    cases hindex'
    rw [hsources] at hsources'
    cases hsources'
    have haffects := (handleChanges_results_of_failFast hwf hcall hfail).mp hx
    have hne : sources ≠ [] := List.ne_nil_of_mem ((hmem m).mpr haffects)
    exact ⟨(Pipeline.exists_buildSources_iff hne hwithin).mp ⟨d', r, hbuild⟩, haffects⟩
  · rintro ⟨hcan, l, hl, haffects⟩
    have hne : sources ≠ [] := List.ne_nil_of_mem ((hmem m).mpr ⟨l, hl, haffects⟩)
    obtain ⟨d', r, hbuild⟩ := (Pipeline.exists_buildSources_iff (c := c) hne hwithin).mpr hcan
    have hchanges : h.changesOf d [] files ≠ [] := by
      intro hnil
      exact not_affects_of_ignored (changesOf_eq_nil_iff.mp hnil l hl) haffects
    have hcall := handleChanges_eq_rebuilt_iff.mpr ⟨hchanges, hindex, sources, hsources, hbuild⟩
    rw [hcall]
    exact ⟨r, rfl, (handleChanges_results_of_failFast hwf hcall hfail).mpr ⟨l, hl, haffects⟩⟩

/-! ### Disks that are the same to a handler -/

/-- The disks are the same to the handler: it comes to the same graph on them, the same files of the
project are there, and its target directory can be made on both or on neither. -/
structure Alike (h : WatchHandler) (d d' : Disk) : Prop where
  /-- The project is indexed in the same way. -/
  index : h.index d' = h.index d
  /-- The same files of the project are there. -/
  contains : ∀ l : Location, h.isRelevant d l.path = true →
    d'.contains l.path = d.contains l.path
  /-- The target directory can be made on both or on neither. -/
  target : (d'.createDirAll h.project.targetDir.path).2 = .ok () ↔
    (d.createDirAll h.project.targetDir.path).2 = .ok ()

namespace Alike

theorem refl (h : WatchHandler) (d : Disk) : h.Alike d d where
  index := rfl
  contains _ _ := rfl
  target := Iff.rfl

variable {seen left : Disk} (halike : h.Alike d seen)
include halike

theorem affects_iff : Affects h k seen l m ↔ Affects h k d l m := by
  unfold Affects
  refine and_congr_right fun hname => and_congr_right fun hmain =>
    exists_congr fun role => and_congr_right fun hrole => ?_
  have hl := halike.contains l (isRelevant_path_iff.mpr ⟨hname, role, hrole⟩)
  have hm := halike.contains m (isRelevant_of_isMain hmain)
  rw [hl, hm]

theorem canBuild_iff : h.pipeline.CanBuild seen ↔ h.pipeline.CanBuild d := by
  constructor
  · exact fun hcan => ⟨hcan.named, fun hdry => halike.target.mp (hcan.target hdry)⟩
  · exact fun hcan => ⟨hcan.named, fun hdry => halike.target.mpr (hcan.target hdry)⟩

/-- **A call compiles the same** on a disk that is the same to the handler. -/
theorem compiles_handleChanges_iff (hwf : h.graph.WellFormed) (hindex : h.index d = .ok k)
    (hacyclic : ∀ l ∈ files, k.graph.isCyclic l = false) (hfail : h.pipeline.failFast = false) :
    Compiles (h.handleChanges c seen files).2.2 m ↔
      h.pipeline.CanBuild d ∧ ∃ l ∈ files, Affects h k d l m := by
  rw [← halike.index] at hindex
  rw [WatchHandler.compiles_handleChanges_iff hwf hindex hacyclic hfail, halike.canBuild_iff]
  simp only [halike.affects_iff]

/-- **A call either changes nothing or indexes the disk**: the first when it is ignored. -/
theorem step (hindex : h.index d = .ok k) (hacyclic : ∀ l ∈ files, k.graph.isCyclic l = false)
    (hcall : h.handleChanges c seen files = (h', left, outcome)) :
    ((∀ l ∈ files, h.isRelevant d l.path = false) ∧ h' = h) ∨
      (∃ l ∈ files, h.isRelevant d l.path = true) ∧ h' = k := by
  rw [← halike.index] at hindex
  have hsame : ∀ l : Location, h.isRelevant seen l.path = h.isRelevant d l.path := by
    intro l
    exact isRelevant_path seen d
  by_cases hrelevant : ∃ l ∈ files, h.isRelevant d l.path = true
  · have hfst : (h.handleChanges c seen files).1 = k := by
      apply fst_handleChanges hindex hacyclic
      obtain ⟨l, hl, hlrelevant⟩ := hrelevant
      exact ⟨l, hl, (hsame l).trans hlrelevant⟩
    rw [hcall] at hfst
    exact Or.inr ⟨hrelevant, hfst⟩
  · simp only [not_exists, not_and, Bool.not_eq_true] at hrelevant
    have hignored : h.handleChanges c seen files = (h, seen, .ok .ignored) := by
      apply handleChanges_of_ignored
      intro l hl
      rw [hsame, hrelevant l hl]
    rw [hcall] at hignored
    cases hignored
    exact Or.inl ⟨hrelevant, rfl⟩

end Alike

/-! ### Calls one after the other -/

/-- The batches are handled one after the other, each on a disk that is the same to the handler. -/
inductive InTurn (c : Compiler) (d : Disk) :
    WatchHandler → List (List Location) → List (Except WatchError ChangeOutcome) → Prop
  /-- No batch. -/
  | nil (h : WatchHandler) : InTurn c d h [] []
  /-- A batch before others. -/
  | cons {h h' : WatchHandler} {seen left : Disk} {files : List Location}
      {outcome : Except WatchError ChangeOutcome} {batches : List (List Location)}
      {outcomes : List (Except WatchError ChangeOutcome)} (alike : h.Alike d seen)
      (handled : h.handleChanges c seen files = (h', left, outcome))
      (rest : InTurn c d h' batches outcomes) :
      InTurn c d h (files :: batches) (outcome :: outcomes)

/-- Batches can be handled one after the other. -/
theorem exists_inTurn (c : Compiler) (d : Disk) (h : WatchHandler)
    (batches : List (List Location)) : ∃ outcomes, InTurn c d h batches outcomes := by
  induction batches generalizing h with
  | nil => exact ⟨[], .nil h⟩
  | cons files batches ih =>
    obtain ⟨outcomes, hrest⟩ := ih (h.handleChanges c d files).1
    exact ⟨_, .cons (Alike.refl h d) rfl hrest⟩

/-- **What was removed is forgotten**: once the disk is indexed, only files that are there call for
anything. -/
theorem affects_self_iff (hindex : h.index d = .ok k) :
    Affects k k d l m ↔ d.contains l.path = true ∧ Affects h k d l m := by
  obtain ⟨-, -, _, -, hindexes⟩ := indexes_of_index hindex
  have hcontinues := continues_of_index hindex
  unfold Affects
  rw [hcontinues.isMain_eq, hcontinues.role?_eq]
  constructor
  · rintro ⟨hname, hmain, role, hrole, ⟨hthere, hcalls⟩ | ⟨hgone, -, -, hreaches⟩⟩
    · exact ⟨hthere, hname, hmain, role, hrole, Or.inl ⟨hthere, hcalls⟩⟩
    · -- What is imported is indexed, and what is indexed is there.
      obtain ⟨b, -, hb⟩ := Relation.TransGen.tail'_iff.mp hreaches
      have hfile := hindexes.isFile (hindexes.wellFormed.indexed b l hb)
      obtain ⟨x, content, hfind⟩ := Disk.isFile_iff.mp hfile
      rw [Disk.contains_iff.mpr ⟨x, _, hfind⟩] at hgone
      cases hgone
  · rintro ⟨hthere, hname, hmain, role, hrole, ⟨-, hcalls⟩ | ⟨hgone, -⟩⟩
    · exact ⟨hname, hmain, role, hrole, Or.inl ⟨hthere, hcalls⟩⟩
    · rw [hthere] at hgone
      cases hgone

/-- **What calls compile once the disk is indexed**: what any of their files calls for.  The
induction is on the calls, none of which changes the handler. -/
theorem compiles_inTurn_of_indexed (hturn : InTurn c d k batches outcomes)
    (hindex : k.index d = .ok k)
    (hacyclic : ∀ l ∈ batches.flatten, k.graph.isCyclic l = false)
    (hfail : k.pipeline.failFast = false) :
    (∃ outcome ∈ outcomes, Compiles outcome m) ↔
      k.pipeline.CanBuild d ∧ ∃ l ∈ batches.flatten, Affects k k d l m := by
  obtain ⟨-, -, _, -, hindexes⟩ := indexes_of_index hindex
  induction hturn with
  | nil k => simp
  | @cons k k' seen left files outcome batches outcomes halike hcall _ ih =>
    rw [List.flatten_cons, List.forall_mem_append] at hacyclic
    have hone := halike.compiles_handleChanges_iff (c := c) (m := m) hindexes.wellFormed hindex
      hacyclic.1 hfail
    rw [hcall] at hone
    -- Nothing changes on the disk, so indexing anew leaves the graph as it is.
    have hk : k' = k := by
      rcases halike.step hindex hacyclic.1 hcall with ⟨-, hk⟩ | ⟨-, hk⟩
      · exact hk
      · exact hk
    subst hk
    rw [List.exists_mem_cons_iff, hone, ih hindex hacyclic.2 hfail hindexes, ← and_or_left,
      List.flatten_cons]
    simp only [List.mem_append, or_and_right, exists_or]

/-! ### What is remembered -/

/-- The first of the batches that is not ignored. -/
def lead (h : WatchHandler) (d : Disk) : List (List Location) → List Location
  | [] => []
  | files :: batches =>
    if files.any fun l => h.isRelevant d l.path then files else lead h d batches

/-- The files of the batches that are there, and those that are not and are in the first batch that
is not ignored. -/
def remembered (h : WatchHandler) (d : Disk) (batches : List (List Location)) : List Location :=
  batches.flatten.filter fun l => d.contains l.path || (h.lead d batches).contains l

theorem mem_remembered_iff : l ∈ h.remembered d batches ↔
    l ∈ batches.flatten ∧ (d.contains l.path = true ∨ l ∈ h.lead d batches) := by
  rw [remembered, List.mem_filter, Bool.or_eq_true, List.contains_iff_mem]

/-- Nothing that is called for comes from a batch that is ignored. -/
theorem exists_remembered_of_ignored (hignored : ∀ l ∈ files, h.isRelevant d l.path = false) :
    (∃ l ∈ h.remembered d (files :: batches), Affects h k d l m) ↔
      ∃ l ∈ h.remembered d batches, Affects h k d l m := by
  have hany : (files.any fun l => h.isRelevant d l.path) = false := by simpa using hignored
  have hlead : h.lead d (files :: batches) = h.lead d batches := by
    rw [lead, hany, if_neg Bool.false_ne_true]
  refine exists_congr fun l => and_congr_left fun haffects => ?_
  have hl : l ∉ files := fun hl => not_affects_of_ignored (hignored l hl) haffects
  rw [mem_remembered_iff, mem_remembered_iff, hlead, List.flatten_cons, List.mem_append,
    or_iff_right hl]

/-- Behind a batch that is not ignored only files that are there are remembered. -/
theorem exists_remembered_of_relevant {P : Location → Prop}
    (hrelevant : ∃ l ∈ files, h.isRelevant d l.path = true) :
    (∃ l ∈ h.remembered d (files :: batches), P l) ↔
      (∃ l ∈ files, P l) ∨ ∃ l ∈ batches.flatten, d.contains l.path = true ∧ P l := by
  have hany : (files.any fun l => h.isRelevant d l.path) = true := by simpa using hrelevant
  have hlead : h.lead d (files :: batches) = files := by
    rw [lead, if_pos hany]
  simp only [mem_remembered_iff, hlead, List.flatten_cons, List.mem_append]
  constructor
  · rintro ⟨l, ⟨hl, hthere | hfirst⟩, hP⟩
    · exact hl.imp (fun hl => ⟨l, hl, hP⟩) fun hl => ⟨l, hl, hthere, hP⟩
    · exact Or.inl ⟨l, hfirst, hP⟩
  · rintro (⟨l, hl, hP⟩ | ⟨l, hl, hthere, hP⟩)
    · exact ⟨l, ⟨Or.inl hl, Or.inr hl⟩, hP⟩
    · exact ⟨l, ⟨Or.inr hl, Or.inl hthere⟩, hP⟩

/-- **What calls compile one after the other**: what any remembered file calls for.  The induction
ends at the first call that is not ignored, as the disk is indexed then. -/
theorem compiles_inTurn_iff (hturn : InTurn c d h batches outcomes) (hwf : h.graph.WellFormed)
    (hindex : h.index d = .ok k)
    (hacyclic : ∀ l ∈ batches.flatten, k.graph.isCyclic l = false)
    (hfail : h.pipeline.failFast = false) :
    (∃ outcome ∈ outcomes, Compiles outcome m) ↔
      h.pipeline.CanBuild d ∧ ∃ l ∈ h.remembered d batches, Affects h k d l m := by
  induction hturn with
  | nil h => simp [remembered]
  | @cons h h' seen left files outcome batches outcomes halike hcall hrest ih =>
    rw [List.flatten_cons, List.forall_mem_append] at hacyclic
    have hone := halike.compiles_handleChanges_iff (c := c) (m := m) hwf hindex hacyclic.1 hfail
    rw [hcall] at hone
    rw [List.exists_mem_cons_iff, hone]
    rcases halike.step hindex hacyclic.1 hcall with ⟨hignored, rfl⟩ | ⟨hrelevant, rfl⟩
    · have hnone : ¬ ∃ l ∈ files, Affects h' k d l m := by
        rintro ⟨l, hl, haffects⟩
        exact not_affects_of_ignored (hignored l hl) haffects
      rw [or_iff_right fun hboth => hnone hboth.2, ih hwf hindex hacyclic.2 hfail,
        exists_remembered_of_ignored hignored]
    · -- The disk is indexed for all calls behind this one.
      have hcontinues := continues_of_index hindex
      have hself : h'.index d = .ok h' := by rw [hcontinues.index_eq, hindex]
      rw [← hcontinues.pipeline] at hfail ⊢
      rw [compiles_inTurn_of_indexed hrest hself hacyclic.2 hfail, ← and_or_left,
        exists_remembered_of_relevant hrelevant]
      simp only [affects_self_iff hindex]

/-! ### A library file in front of another -/

/-- The graph of the sources when the import is resolved to the given file. -/
def layeredGraph (x : Location) : Graph where
  order := [pairA, x, pairB]
  imports := ⟨[(pairA, [x]), (x, []), (pairB, [])]⟩
  importers := ⟨[(x, [pairA])]⟩
  allImports := ⟨[(pairA, [x]), (x, []), (pairB, [])]⟩
  allImporters := ⟨[(pairA, []), (x, [pairA]), (pairB, [])]⟩
  cyclic := []

/-- The handler of the project with both library directories. -/
def layeredHandler (x : Location) : WatchHandler :=
  { pairHandler [⟨"one"⟩, ⟨"two"⟩] false with graph := layeredGraph x }

theorem index_layered {x : Location} {b : ByteArray}
    (hnames : (d.tree.entries.filterMap fun e =>
      if e.1.parent = pairDir then e.1.fileName? else none) = [nameA, nameB])
    (ha : d.tree.get? pairA = some (.file "@import 'x';\n".toUTF8))
    (hb : d.tree.get? pairB = some (.file b))
    (hgraph : Graph.empty.inspect d (layeredHandler frontX).project.libraryDirs [pairA, pairB]
      = .ok (layeredGraph x)) :
    (layeredHandler frontX).index d = .ok (layeredHandler x) := by
  have hindex : (pairHandler [⟨"one"⟩, ⟨"two"⟩] false).index d = .ok (layeredHandler x) :=
    index_pair hnames ha hb hgraph
  exact (index_congr rfl rfl).trans hindex

/-- The disk before the edits: both libraries hold the file. -/
def layeredBefore : Disk := save (layeredDisk "") frontX ""

theorem index_layeredBefore :
    (layeredHandler frontX).index layeredBefore = .ok (layeredHandler frontX) :=
  index_layered (b := "".toUTF8) (by decide +kernel) (by decide +kernel) (by decide +kernel)
    (by decide +kernel)

/-- The disk after the edits: the first library has lost its file, and a source is edited. -/
def layeredAfter : Disk := layeredDisk "x"

theorem index_layeredAfter :
    (layeredHandler frontX).index layeredAfter = .ok (layeredHandler backX) :=
  index_layered (b := "x".toUTF8) (by decide +kernel) (by decide +kernel) (by decide +kernel)
    (by decide +kernel)

/-! ### A batch in parts -/

/-- **Handling a batch in parts** compiles what one call for the remembered files compiles.  When
every removed file is among those of the first part that is not ignored, it compiles what one call
for the whole batch compiles. -/
theorem compiles_inTurn (hbefore : h.index d₀ = .ok k₀) (hgraph : h.graph = k₀.graph)
    (hindex : h.index d = .ok k) (hacyclic : ∀ l ∈ batches.flatten, k.graph.isCyclic l = false)
    (hfail : h.pipeline.failFast = false) (hturn : InTurn c d h batches outcomes) :
    (∀ m, (∃ outcome ∈ outcomes, Compiles outcome m) ↔
      Compiles (h.handleChanges c d (h.remembered d batches)).2.2 m) ∧
    ((∀ l ∈ batches.flatten, h.isRelevant d l.path = true → d.contains l.path = false →
        l ∈ h.lead d batches) →
      ∀ m, (∃ outcome ∈ outcomes, Compiles outcome m) ↔
        Compiles (h.handleChanges c d batches.flatten).2.2 m) := by
  obtain ⟨-, -, _, -, hindexes⟩ := indexes_of_index hbefore
  have hwf : h.graph.WellFormed := hgraph ▸ hindexes.wellFormed
  have hacyclic' : ∀ l ∈ h.remembered d batches, k.graph.isCyclic l = false :=
    fun l hl => hacyclic l (mem_remembered_iff.mp hl).1
  constructor
  · intro m
    rw [compiles_inTurn_iff hturn hwf hindex hacyclic hfail,
      compiles_handleChanges_iff hwf hindex hacyclic' hfail]
  · intro hremoved m
    rw [compiles_inTurn_iff hturn hwf hindex hacyclic hfail,
      compiles_handleChanges_iff hwf hindex hacyclic hfail]
    refine and_congr_right fun _ => exists_congr fun l => and_congr_left fun haffects => ?_
    rw [mem_remembered_iff]
    constructor
    · exact fun hl => hl.1
    · intro hl
      refine ⟨hl, ?_⟩
      cases hthere : d.contains l.path with
      | true => exact Or.inl rfl
      | false => exact Or.inr (hremoved l hl haffects.isRelevant hthere)

/-- The parts compile what imported the removed file if it is in the first of them. -/
theorem compiles_inTurn_layered : ∃ outcomes,
    InTurn blankCompiler layeredAfter (layeredHandler frontX) [[frontX], [pairB]] outcomes ∧
    ∃ outcome ∈ outcomes, Compiles outcome pairA := by
  obtain ⟨outcomes, hturn⟩ :=
    exists_inTurn blankCompiler layeredAfter (layeredHandler frontX) [[frontX], [pairB]]
  obtain ⟨-, hwhole⟩ := compiles_inTurn index_layeredBefore rfl index_layeredAfter
    (by decide +kernel) rfl hturn
  have hsources : (layeredHandler backX).sourcesForAll layeredAfter []
      ((layeredHandler frontX).changesOf layeredAfter [] [frontX, pairB]) = .ok [pairA, pairB] := by
    decide +kernel
  have hcall := handleChanges_eq_rebuilt (c := blankCompiler)
    (r := ⟨[⟨pairA.path, ⟨"/css/a.css"⟩, .success⟩, ⟨pairB.path, ⟨"/css/b.css"⟩, .success⟩]⟩)
    index_layeredAfter (by decide +kernel) hsources (by decide +kernel)
  refine ⟨outcomes, hturn, (hwhole (by decide +kernel) pairA).mpr ?_⟩
  show Compiles ((layeredHandler frontX).handleChanges blankCompiler layeredAfter
    [frontX, pairB]).2.2 pairA
  rw [hcall]
  exact ⟨_, rfl, _, List.mem_cons_self, rfl⟩

/-- A removed file that only the second part names is forgotten by then, and what imported it is not
compiled.  One call for both files compiles it. -/
theorem removed_file_forgotten :
    (layeredHandler frontX).project.finderOptions = .ok (layeredHandler frontX).options ∧
    (layeredHandler frontX).index layeredBefore = .ok (layeredHandler frontX) ∧
    (layeredHandler frontX).index layeredAfter = .ok (layeredHandler backX) ∧
    (∀ l ∈ [pairB, frontX], (layeredHandler frontX).graph.isCyclic l = false ∧
      (layeredHandler backX).graph.isCyclic l = false) ∧
    (layeredHandler frontX).pipeline.failFast = false ∧
    (∃ outcomes,
      InTurn blankCompiler layeredAfter (layeredHandler frontX) [[pairB], [frontX]] outcomes ∧
      ∀ outcome ∈ outcomes, ¬ Compiles outcome pairA) ∧
    Compiles ((layeredHandler frontX).handleChanges blankCompiler layeredAfter
      [pairB, frontX]).2.2 pairA := by
  have hself : (layeredHandler backX).index layeredAfter = .ok (layeredHandler backX) := by
    rw [(continues_of_index index_layeredAfter).index_eq, index_layeredAfter]
  have hone : (layeredHandler backX).sourcesForAll layeredAfter []
      ((layeredHandler frontX).changesOf layeredAfter [] [pairB]) = .ok [pairB] := by
    decide +kernel
  have htwo : (layeredHandler backX).sourcesForAll layeredAfter []
      ((layeredHandler backX).changesOf layeredAfter [] [frontX]) = .ok [] := by
    decide +kernel
  have hboth : (layeredHandler backX).sourcesForAll layeredAfter []
      ((layeredHandler frontX).changesOf layeredAfter [] [pairB, frontX])
        = .ok [pairB, pairA] := by
    decide +kernel
  have hcall₁ := handleChanges_eq_rebuilt (c := blankCompiler)
    (r := ⟨[⟨pairB.path, ⟨"/css/b.css"⟩, .success⟩]⟩)
    index_layeredAfter (by decide +kernel) hone (by decide +kernel)
  have hcall₂ := handleChanges_eq_rebuilt (c := blankCompiler) (r := ⟨[]⟩)
    hself (by decide +kernel) htwo (by decide +kernel)
  have hcall := handleChanges_eq_rebuilt (c := blankCompiler)
    (r := ⟨[⟨pairB.path, ⟨"/css/b.css"⟩, .success⟩, ⟨pairA.path, ⟨"/css/a.css"⟩, .success⟩]⟩)
    index_layeredAfter (by decide +kernel) hboth (by decide +kernel)
  have hother : ∀ x ∈ [(⟨pairB.path, ⟨"/css/b.css"⟩, .success⟩ : CompileResult)],
      x.source ≠ pairA.path := by
    decide +kernel
  refine ⟨rfl, index_layeredBefore, index_layeredAfter, by decide +kernel, rfl, ?_, ?_⟩
  · refine ⟨_, .cons (Alike.refl _ _) hcall₁ (.cons (Alike.refl _ _) hcall₂ (.nil _)), ?_⟩
    intro outcome houtcome
    rintro ⟨r, rfl, x, hx, hxm⟩
    simp only [List.mem_cons, List.not_mem_nil, or_false, Except.ok.injEq,
      ChangeOutcome.rebuilt.injEq] at houtcome
    rcases houtcome with rfl | rfl
    · exact hother x hx hxm
    · exact absurd hx List.not_mem_nil
  · rw [hcall]
    exact ⟨_, rfl, _, List.mem_cons_of_mem _ List.mem_cons_self, rfl⟩

end SheetGraph.WatchHandler
