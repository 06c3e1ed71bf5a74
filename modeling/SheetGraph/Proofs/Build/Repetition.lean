import SheetGraph.Proofs.Build.Footprint
import SheetGraph.Proofs.Discovery.MainSource
import SheetGraph.Proofs.Discovery.Sorted

/-!
# Builds of a project that nobody edits

Outputs are stylesheets too, so a build may come upon the outputs of the one before.

A build adds directories and outputs and nothing else (`OutputsAdded`).  So whatever is a source of
the plan stays one, and what is new in the source directory is an output in the place of a main
source (`IsFound.takenFor`).  If the plan has all of those already, it is the same after the build
(`Pipeline.plan_of_added`), and all that this rests on is the same too (`Pipeline.steady_build`).
So the plan stays what it is through any number of builds (`Pipeline.plan_after_builds`).

Where the directories are such that outputs are found, the plan is another after a build
(`drifts_of_outputs`).
-/

namespace SheetGraph

variable {d d' : Disk} {root dir real l r : Location} {options : FinderOptions}
  {sources sources' : List Location} {names : List Name} {n : Name} {outputs : List Output}

/-! ### Searches of a tree that has grown -/

theorem IsSearched.of_grows {t t' : FileTree} (h : IsSearched t options real dir names)
    (hgrows : t.Grows t') : IsSearched t' options real dir names := by
  induction names generalizing real dir with
  | nil => exact trivial
  | cons n names ih =>
    obtain ⟨hrec, hget, hnew, hrest⟩ := h
    exact ⟨hrec, hgrows.directory hget, hnew, ih hrest⟩

/-- The directories above something are searched in one tree if they are in another. -/
theorem IsSearched.of_below {t t' : FileTree} {e : Entry}
    (h : IsSearched t' options real dir names)
    (hget : t.get? ((real.below names).entry n) = some e) :
    IsSearched t options real dir names := by
  induction names generalizing real dir with
  | nil => exact trivial
  | cons m names ih =>
    obtain ⟨hrec, -, hnew, hrest⟩ := h
    rw [Location.below_cons] at hget
    exact ⟨hrec, FileTree.isDirectory_iff.mp (FileTree.isDirectory_of_below hget), hnew,
      ih hrest hget⟩

/-- **What was listed is listed again** if it was there. -/
theorem IsFound.of_grows (h : IsFound d root options real dir names n)
    (hgrows : d.tree.Grows d'.tree)
    (hthere : d.contains ((dir.below names).entry n).path = true) :
    IsFound d' root options real dir names n := by
  obtain ⟨hsearched, ⟨e, hget, hne⟩, hisdir, hlisted⟩ := h
  obtain ⟨e', hget', hkind⟩ := hgrows _ e hget
  refine ⟨hsearched.of_grows hgrows, ⟨e', hget', ?_⟩,
    Disk.isDir_eq_false_of_grows hgrows hthere hisdir, hlisted⟩
  rintro rfl
  exact hne hkind.symm.eq_directory

/-- What is listed and has not changed was listed before. -/
theorem IsFound.of_eq (h : IsFound d' root options real dir names n)
    (hgrows : d.tree.Grows d'.tree)
    (hsame : d'.tree.get? ((real.below names).entry n)
      = d.tree.get? ((real.below names).entry n)) :
    IsFound d root options real dir names n := by
  obtain ⟨hsearched, ⟨e, hget, hne⟩, hisdir, hlisted⟩ := h
  rw [hsame] at hget
  refine ⟨hsearched.of_below hget, ⟨e, hget, hne⟩, ?_, hlisted⟩
  by_contra hdir
  rw [Bool.not_eq_false] at hdir
  rw [Disk.isDir_of_grows hgrows hdir] at hisdir
  cases hisdir

/-! ### Outputs in the source directory -/

/-- The output is in the place of the main source `l`, when the source directory is at `s` and the
target directory at `t`. -/
def Project.TakenFor (p : Project) (s t : Location) (output : Path) (l : Location) : Prop :=
  ∃ options names more, p.finderOptions = .ok options ∧
    output = (p.targetDir.below names).path ∧ t.below names = s.below more ∧
    l = p.sourceDir.below more ∧ p.isMainSource (options.inner p.sourceDir) l = true

/-- No output is in the place of a main source if neither directory holds the other. -/
theorem Project.not_takenFor {p : Project} {s t : Location} {output : Path}
    (hst : s.isWithin t = false) (hts : t.isWithin s = false) : ¬ p.TakenFor s t output l := by
  rintro ⟨-, names, more, -, -, hplace, -, -⟩
  have htarget : (s.below more).isWithin t = true := Location.isWithin_iff.mpr ⟨names, hplace.symm⟩
  have hsource : (s.below more).isWithin s = true := Location.isWithin_iff.mpr ⟨more, rfl⟩
  rcases Location.isWithin_total htarget hsource with h | h
  · rw [hts] at h
    cases h
  · rw [hst] at h
    cases h

/-- **What is listed and has changed** is an output that is taken for a main source. -/
theorem IsFound.takenFor {p : Project} {s t : Location}
    (hoptions : p.finderOptions = .ok options)
    (hlibs : ∀ lib ∈ p.libraryDirs, d'.isDir lib.path = true)
    (h : IsFound d' p.sourceDir { options with absolute := false } s p.sourceDir names n)
    (hadded : OutputsAdded d t outputs d')
    (hdiff : d'.tree.get? ((s.below names).entry n) ≠ d.tree.get? ((s.below names).entry n)) :
    ∃ x ∈ outputs, p.TakenFor s t (x.path p.targetDir) ((p.sourceDir.below names).entry n) := by
  rcases hadded.changed _ hdiff with hdir | ⟨x, hx, hname, hplace, -⟩
  · obtain ⟨-, ⟨e, hget, hne⟩, -, -⟩ := h
    rw [hdir] at hget
    cases hget
    exact absurd rfl hne
  · obtain ⟨m, hm⟩ := Option.ne_none_iff_exists'.mp hname
    have hpath : x.path p.targetDir = (p.targetDir.below x.names).path := by
      rw [Output.path_of_name? hm, Output.names_of_name? hm, Location.below_concat]
    have hwithin : ((p.sourceDir.below names).entry n).isWithin p.sourceDir = true :=
      Location.isWithin_iff.mpr ⟨names ++ [n], (Location.below_concat _ _ _).symm⟩
    refine ⟨x, hx, options, x.names, names ++ [n], hoptions, hpath, ?_, ?_, ?_⟩
    · rw [Location.below_concat, hplace]
    · rw [Location.below_concat]
    · rw [isMainSource_inner_iff hwithin]
      refine ⟨fun lib hlib hout => ?_, h.2.2.2⟩
      apply isWithin_eq_false_of_isFound h hlib hout
      -- A library directory is no file.
      rintro rfl
      rw [finderOptions_excludedDirs hoptions] at hlib
      have hisdir := h.2.2.1
      rw [hlibs _ hlib] at hisdir
      cases hisdir

namespace Pipeline

variable {p : Pipeline} {c : Compiler} {plan : List PlanEntry} {result : BuildResult}

/-- The plan depends on nothing but the search. -/
theorem plan_congr (hoptions : p.project.finderOptions = .ok options)
    (hsame : sourcesUnder d' p.project.sourceDir { options with absolute := false }
      = sourcesUnder d p.project.sourceDir { options with absolute := false }) :
    p.plan d' = p.plan d := by
  unfold Pipeline.plan mirrorSources compilableSources
  rw [hoptions]
  dsimp only
  rw [Disk.locate_path, Disk.locate_path, hsame]

/-- **The plan when outputs have come in**: it is what it was if they are no main sources that are
new to it. -/
theorem plan_of_added {s t : Location} {xs : List Planned}
    (hoptions : p.project.finderOptions = .ok options)
    (hsources : sourcesUnder d p.project.sourceDir { options with absolute := false }
      = .ok (xs.map Planned.source))
    (hlibs : ∀ lib ∈ p.project.libraryDirs, d'.isDir lib.path = true)
    (hsource : d.find p.project.sourceDir.path = .ok (s, .directory))
    (hadded : OutputsAdded d t (xs.map Planned.output) d')
    (hthere : ∀ x ∈ xs, d.contains x.source.path = true)
    (hknown : ∀ x ∈ xs, ∀ l, p.project.TakenFor s t (x.output.path p.project.targetDir) l →
      l ∈ xs.map Planned.source) : p.plan d' = p.plan d := by
  have hsource' := Disk.find_directory_of_grows hadded.grows hsource
  obtain ⟨sources', hsources'⟩ : ∃ sources',
      sourcesUnder d' p.project.sourceDir { options with absolute := false } = .ok sources' :=
    exists_gatherSources _ hsource' (Location.isWithin_self _)
  have hmem : ∀ l, l ∈ sources' ↔ l ∈ xs.map Planned.source := by
    intro l
    constructor
    · intro hl
      obtain ⟨names, n, rfl, hfound⟩ := (mem_sourcesUnder hsource' hsources').mp hl
      -- What is found now was there before, or a build has put it there.
      by_cases hsame : d'.tree.get? ((s.below names).entry n)
          = d.tree.get? ((s.below names).entry n)
      · exact (mem_sourcesUnder hsource hsources).mpr
          ⟨names, n, rfl, hfound.of_eq hadded.grows hsame⟩
      · obtain ⟨y, hy, htaken⟩ := hfound.takenFor hoptions hlibs hadded hsame
        obtain ⟨x, hx, rfl⟩ := List.mem_map.mp hy
        exact hknown x hx _ htaken
    · intro hl
      obtain ⟨x, hx, hxl⟩ := List.mem_map.mp hl
      obtain ⟨names, n, hname, hfound⟩ := (mem_sourcesUnder hsource hsources).mp hl
      have hl' : d.contains ((p.project.sourceDir.below names).entry n).path = true := by
        rw [← hname, ← hxl]
        exact hthere x hx
      exact (mem_sourcesUnder hsource' hsources').mpr
        ⟨names, n, hname, hfound.of_grows hadded.grows hl'⟩
  have hsame := sourcesUnder_eq_of_mem_iff hsources' hsources hmem
  apply plan_congr hoptions
  rw [hsources', hsources, hsame]

/-! ### Builds -/

theorem missingLibrary?_eq_none {index : Nat} {libs : List Location}
    (h : ∀ lib ∈ libs, d.isDir lib.path = true) : Project.missingLibrary? d index libs = none := by
  induction libs generalizing index with
  | nil => rfl
  | cons lib libs ih =>
    obtain ⟨hlib, hlibs⟩ := List.forall_mem_cons.mp h
    rw [Project.missingLibrary?, hlib, if_pos rfl, ih hlibs]

/-- Directories that are there stay. -/
theorem verifyPaths_of_grows {p : Project} (h : p.verifyPaths d = .ok ())
    (hgrows : d.tree.Grows d'.tree) : p.verifyPaths d' = .ok () := by
  obtain ⟨hsource, hlibs⟩ := isDir_of_verifyPaths h
  have hlibs' : Project.missingLibrary? d' 0 p.libraryDirs = none :=
    missingLibrary?_eq_none fun lib hlib => Disk.isDir_of_grows hgrows (hlibs lib hlib)
  unfold Project.verifyPaths
  rw [Disk.isDir_of_grows hgrows hsource, hlibs']
  rfl

/-- What keeps the plan of a project as it is: its directories and sources are there, no link is on
the way to an output, and a main source in the place of an output is one of the plan. -/
structure Steady (p : Pipeline) (plan : List PlanEntry) (d : Disk) : Prop where
  plan_eq : p.plan d = .ok plan
  verified : p.project.verifyPaths d = .ok ()
  there : ∀ entry ∈ plan, d.contains entry.1 = true
  links : p.project.NoLinkToOutputs plan d
  known : ∀ s t, d.find p.project.sourceDir.path = .ok (s, .directory) →
    (d.createDirAll p.project.targetDir.path).1.find p.project.targetDir.path
      = .ok (t, .directory) →
    ∀ entry ∈ plan, ∀ l, p.project.TakenFor s t entry.2 l → l.path ∈ plan.map Prod.fst

/-- **A build leaves everything as the next one needs it.** -/
theorem steady_build (h : p.Steady plan d) (hbuild : p.build c d = (d', .ok result)) :
    p.Steady plan d' := by
  rw [build, h.plan_eq] at hbuild
  dsimp only at hbuild
  obtain ⟨options, sources, hoptions, hsources, xs, rfl, rfl, -⟩ := exists_planned h.plan_eq
  -- Nothing happens in a dry run, nor if there is nothing to build.
  by_cases hidle : p.dryRun = true ∨ xs = []
  · have hsame : d' = d := by
      rcases hidle with hdry | rfl
      · rw [execute_of_dryRun hdry] at hbuild
        cases hbuild
        rfl
      · cases hbuild
        rfl
    rw [hsame]
    exact h
  obtain ⟨hdry, hne⟩ := not_or.mp hidle
  rw [Bool.not_eq_true] at hdry
  obtain ⟨made, t, hmade, hready, hready', hadded⟩ := exists_added_execute hdry hne h.links hbuild
  obtain ⟨s, hsource⟩ := exists_find_of_sourcesUnder hsources
  have hsource' := Disk.find_directory_of_grows hadded.grows hsource
  have htarget : (d.createDirAll p.project.targetDir.path).1.find p.project.targetDir.path
      = .ok (t, .directory) := by
    rw [hmade]
    exact hready.find
  have hverified := verifyPaths_of_grows h.verified hadded.grows
  have hplan : p.plan d' = p.plan d := by
    have hentry : ∀ x ∈ xs, x.entry p.project.targetDir
        ∈ xs.map (Planned.entry p.project.targetDir) := fun x hx => List.mem_map_of_mem hx
    refine plan_of_added hoptions hsources (isDir_of_verifyPaths hverified).2 hsource hadded
      (fun x hx => ?_) fun x hx l htaken => ?_
    · have hthere := h.there _ (hentry x hx)
      rwa [Planned.fst_entry] at hthere
    · have hl := h.known s t hsource htarget _ (hentry x hx) l
      rw [Planned.snd_entry, List.map_map] at hl
      obtain ⟨y, hy, hyl⟩ := List.mem_map.mp (hl htaken)
      exact List.mem_map.mpr ⟨y, hy, Location.path_injective hyl⟩
  refine ⟨hplan.trans h.plan_eq, hverified, fun entry hentry => ?_, hready'.noLinkToOutputs,
    fun s' t' hs' ht' => ?_⟩
  · have hthere := h.there entry hentry
    obtain ⟨x, hx, rfl⟩ := List.mem_map.mp hentry
    rw [Planned.fst_entry] at hthere ⊢
    exact Disk.contains_of_grows hadded.grows hthere
  · -- The directories are where they were.
    rw [hsource'] at hs'
    cases hs'
    rw [Disk.createDirAll, Disk.createDirs_of_find hready'.find, hready'.find] at ht'
    cases ht'
    exact h.known s t hsource htarget

/-- The disk after any number of builds that ran. -/
inductive Builds (p : Pipeline) (c : Compiler) (d : Disk) : Disk → Prop
  /-- No build. -/
  | none : Builds p c d d
  /-- One more build. -/
  | more {d' d'' : Disk} {result : BuildResult} (before : Builds p c d d')
    (build : p.build c d' = (d'', .ok result)) : Builds p c d d''

theorem Builds.steady (hbuilds : p.Builds c d d') (h : p.Steady plan d) : p.Steady plan d' := by
  induction hbuilds with
  | none => exact h
  | more _ hbuild ih => exact steady_build ih hbuild

end Pipeline

/-! ### Plans that change -/

section Changes

variable {p : Pipeline} {plan : List PlanEntry} {s : Location}

/-- The sources of a plan are what the search finds. -/
theorem mem_plan_iff (hplan : p.plan d = .ok plan)
    (hsource : d.find p.project.sourceDir.path = .ok (s, .directory)) :
    ∃ options, p.project.finderOptions = .ok options ∧ ∀ l, l.path ∈ plan.map Prod.fst ↔
      ∃ names n, l = (p.project.sourceDir.below names).entry n ∧
        IsFound d p.project.sourceDir { options with absolute := false } s p.project.sourceDir
          names n := by
  obtain ⟨options, sources, hoptions, hsources, xs, rfl, rfl, -⟩ := Pipeline.exists_planned hplan
  refine ⟨options, hoptions, fun l => ?_⟩
  rw [← mem_sourcesUnder hsource hsources, List.map_map, List.mem_map, List.mem_map]
  constructor
  · rintro ⟨x, hx, hxl⟩
    exact ⟨x, hx, Location.path_injective hxl⟩
  · rintro ⟨x, hx, hxl⟩
    exact ⟨x, hx, congrArg Location.path hxl⟩

/-- The plan changes when something new is found. -/
theorem plan_ne_of_isFound (names : List Name) (n : Name)
    (hoptions : p.project.finderOptions = .ok options)
    (hsource : d.find p.project.sourceDir.path = .ok (s, .directory))
    (hfound : IsFound d p.project.sourceDir { options with absolute := false } s
      p.project.sourceDir names n)
    (hnew : ((p.project.sourceDir.below names).entry n).path ∉ plan.map Prod.fst) :
    p.plan d ≠ .ok plan := by
  intro hplan
  obtain ⟨options', hoptions', hmem⟩ := mem_plan_iff hplan hsource
  cases hoptions.symm.trans hoptions'
  exact hnew ((hmem _).mpr ⟨names, n, rfl, hfound⟩)

/-- The plan changes when one of its sources has become a directory. -/
theorem plan_ne_of_isDir (hsource : d.find p.project.sourceDir.path = .ok (s, .directory))
    (hl : l.path ∈ plan.map Prod.fst) (hisdir : d.isDir l.path = true) : p.plan d ≠ .ok plan := by
  intro hplan
  obtain ⟨options, -, hmem⟩ := mem_plan_iff hplan hsource
  obtain ⟨names, n, rfl, -, -, hnot, -⟩ := (hmem l).mp hl
  rw [hisdir] at hnot
  cases hnot

end Changes

/-! ### Projects that find other sources after a build -/

/-- A pipeline with some source and target directory. -/
def loopPipeline (source target : Path) : Pipeline where
  project := { settings := { project := { source := source, target := target } }, root := .root }

/-- The name of a source. -/
def loopName : Name := ⟨"start.scss", by decide⟩

/-- A directory of sources. -/
def loopSource : Location := Location.root.entry ⟨"src", by decide⟩

/-- A directory of outputs. -/
def loopTarget : Location := Location.root.entry ⟨"dist", by decide⟩

/-- A source and nothing else. -/
def loopDisk : Disk :=
  ⟨(FileTree.empty.put loopSource .directory).put (loopSource.entry loopName) (.file "".toUTF8),
    .root⟩

/-- A source in the directory that holds the directory of outputs. -/
def innerDisk : Disk := ⟨FileTree.empty.put (Location.root.entry loopName) (.file "".toUTF8), .root⟩

/-- A source, and a link in the place of its output that leads to a new source. -/
def linkDisk : Disk :=
  ⟨(loopDisk.tree.put loopTarget .directory).put (loopTarget.entry ⟨"start.css", by decide⟩)
    (.link ⟨"../src/extra.scss"⟩), .root⟩

/-- A link to the directory of outputs, which is not there yet. -/
def danglingDisk : Disk :=
  ⟨(FileTree.empty.put loopSource .directory).put (loopSource.entry loopName) (.link ⟨"../dist"⟩),
    .root⟩

/-- The place of an output. -/
def loopOutput : Location := loopTarget.entry ⟨"start.css", by decide⟩

/-- The plan of one source in a directory. -/
def loopPlan (dir : Location) : List PlanEntry := [((dir.entry loopName).path, loopOutput.path)]

/-- The result of a build of one source in a directory. -/
def loopResult (dir : Location) : BuildResult :=
  ⟨[⟨(dir.entry loopName).path, loopOutput.path, .success⟩]⟩

/-- A compiler that prints nothing. -/
def loopCompiler : Compiler := fun _ _ _ => .ok ""

/-- The plan for a directory that holds one source and nothing else. -/
theorem plan_loopPipeline {source target : Path} {dir : Location}
    (h : (loopPipeline source target).project.sourceDir = dir ∧
      (d.tree.entries.filterMap fun e =>
        if e.1.parent = dir then e.1.fileName? else none) = [loopName] ∧
      d.tree.get? dir = some .directory ∧ d.tree.get? (dir.entry loopName) ≠ none ∧
      d.tree.get? (dir.entry loopName) ≠ some .directory ∧
      d.isDir (dir.entry loopName).path = false ∧
      isListed dir {} (dir.entry loopName) = .ok true ∧
      ([dir.entry loopName].filterMap fun l =>
          (dir.from? l).map Path.ofNames).mapM (fun relative =>
        (fun output => (dir.path.join relative, output)) <$>
          destination relative (some (loopPipeline source target).project.targetDir.path) none)
            = .ok (loopPlan dir)) :
    (loopPipeline source target).plan d = .ok (loopPlan dir) := by
  obtain ⟨hdir, hnames, hroot, hthere, hfile, hisdir, hlisted, hplan⟩ := h
  obtain ⟨e, hget⟩ := Option.ne_none_iff_exists'.mp hthere
  have he : e ≠ .directory := by
    rintro rfl
    exact hfile hget
  have hsorted := FileTree.namesIn_of_pairwise hnames (List.pairwise_singleton _ _)
  have hsources : sourcesUnder d (loopPipeline source target).project.sourceDir {}
      = .ok [dir.entry loopName] := by
    rw [hdir]
    refine sourcesUnder_of_flat hroot hsorted (fun n hn => ?_) (fun n hn => ?_)
    · rw [List.mem_singleton.mp hn]
      exact ⟨e, hget, he, hisdir⟩
    · rw [List.mem_singleton.mp hn]
      exact hlisted
  refine Pipeline.plan_of_sourcesUnder rfl hsources ?_
  rw [hdir]
  exact hplan

theorem build_loopPipeline {p : Pipeline} {dir : Location} (hplan : p.plan d = .ok (loopPlan dir))
    (hresult : (p.execute loopCompiler d (loopPlan dir)).2 = .ok (loopResult dir)) :
    p.build loopCompiler d
      = ((p.execute loopCompiler d (loopPlan dir)).1, .ok (loopResult dir)) := by
  rw [Pipeline.build, hplan, ← hresult]

/-! ### Repetition -/

/-- **The plan stays as it is** through any number of builds, and each of them compiles it. -/
theorem Pipeline.plan_after_builds {p : Pipeline} {c : Compiler} {plan : List PlanEntry}
    (h : p.Steady plan d) (hbuilds : p.Builds c d d') :
    p.plan d' = .ok plan ∧
    ∀ d'' result, p.build c d' = (d'', .ok result) →
      (p.failFast = true → ∀ x ∈ result.results, x.isFailure = false) →
      result.results.map CompileResult.entry = plan := by
  have hplan := (hbuilds.steady h).plan_eq
  refine ⟨hplan, fun d'' result hbuild hfull => ?_⟩
  rw [build, hplan] at hbuild
  exact map_entry_execute hbuild hfull

/-- A source directory beside the target directory. -/
theorem plan_after_builds_apart : ∃ d',
    (loopPipeline ⟨"src"⟩ ⟨"dist"⟩).Steady (loopPlan loopSource) loopDisk ∧
    (loopPipeline ⟨"src"⟩ ⟨"dist"⟩).Builds loopCompiler loopDisk d' ∧
    d'.tree.get? loopOutput = some (.file "".toUTF8) ∧
    (loopPipeline ⟨"src"⟩ ⟨"dist"⟩).plan d' = .ok (loopPlan loopSource) := by
  have hplan : (loopPipeline ⟨"src"⟩ ⟨"dist"⟩).plan loopDisk = .ok (loopPlan loopSource) :=
    plan_loopPipeline (by decide +kernel)
  have hlinks : loopDisk.tree.LinkFree := FileTree.linkFree_of_all (by decide +kernel)
  have hsource : loopDisk.find (loopPipeline ⟨"src"⟩ ⟨"dist"⟩).project.sourceDir.path
      = .ok (loopSource, .directory) := by decide +kernel
  have htarget : (loopDisk.createDirAll
      (loopPipeline ⟨"src"⟩ ⟨"dist"⟩).project.targetDir.path).1.find
        (loopPipeline ⟨"src"⟩ ⟨"dist"⟩).project.targetDir.path
      = .ok (loopTarget, .directory) := by decide +kernel
  have hsteady : (loopPipeline ⟨"src"⟩ ⟨"dist"⟩).Steady (loopPlan loopSource) loopDisk := by
    refine ⟨hplan, by decide +kernel, by decide +kernel,
      Project.noLinkToOutputs_of_linkFree _ _ hlinks, fun s t hs ht _ _ l htaken => ?_⟩
    rw [hsource] at hs
    rw [htarget] at ht
    cases hs
    cases ht
    exact absurd htaken (Project.not_takenFor (by decide +kernel) (by decide +kernel))
  have hbuild := build_loopPipeline hplan (by decide +kernel)
  have hbuilds := Pipeline.Builds.more .none hbuild
  exact ⟨_, hsteady, hbuilds, by decide +kernel, (Pipeline.plan_after_builds hsteady hbuilds).1⟩

/-- The project is a good one and its build succeeds, but its plan is another one then. -/
def Pipeline.Drifts (p : Pipeline) (c : Compiler) (d : Disk) : Prop :=
  p.project.settings.isValid = true ∧ p.project.verifyPaths d = .ok () ∧
  ∃ plan d' result, p.plan d = .ok plan ∧ p.build c d = (d', .ok result) ∧
    result.isSuccess = true ∧ p.plan d' ≠ .ok plan

/-- **Outputs that are found**: in a target directory below the source directory, or by a link from
the target directory to the source directory, or where a source leads. -/
theorem drifts_of_outputs :
    (loopPipeline ⟨"."⟩ ⟨"dist"⟩).Drifts loopCompiler innerDisk ∧
    (loopPipeline ⟨"src"⟩ ⟨"dist"⟩).Drifts loopCompiler linkDisk ∧
    (loopPipeline ⟨"src"⟩ ⟨"dist"⟩).Drifts loopCompiler danglingDisk := by
  refine ⟨?inner, ?link, ?dangling⟩
  case inner =>
    have hplan : (loopPipeline ⟨"."⟩ ⟨"dist"⟩).plan innerDisk = .ok (loopPlan .root) :=
      plan_loopPipeline (by decide +kernel)
    have hbuild := build_loopPipeline hplan (by decide +kernel)
    refine ⟨by decide +kernel, by decide +kernel, _, _, _, hplan, hbuild, by decide +kernel, ?_⟩
    -- The output is a source in the directory of outputs.
    exact plan_ne_of_isFound (s := .root) [⟨"dist", by decide⟩] ⟨"start.css", by decide⟩ rfl
      (by decide +kernel)
      ⟨⟨rfl, by decide +kernel, by decide +kernel, trivial⟩,
        ⟨.file "".toUTF8, by decide +kernel, Entry.file_ne_directory⟩, by decide +kernel,
        by decide +kernel⟩
      (by decide +kernel)
  case link =>
    have hplan : (loopPipeline ⟨"src"⟩ ⟨"dist"⟩).plan linkDisk = .ok (loopPlan loopSource) :=
      plan_loopPipeline (by decide +kernel)
    have hbuild := build_loopPipeline hplan (by decide +kernel)
    refine ⟨by decide +kernel, by decide +kernel, _, _, _, hplan, hbuild, by decide +kernel, ?_⟩
    -- The output has been written where the link leads.
    exact plan_ne_of_isFound (s := loopSource) [] ⟨"extra.scss", by decide⟩ rfl
      (by decide +kernel)
      ⟨trivial, ⟨.file "".toUTF8, by decide +kernel, Entry.file_ne_directory⟩, by decide +kernel,
        by decide +kernel⟩
      (by decide +kernel)
  case dangling =>
    have hplan : (loopPipeline ⟨"src"⟩ ⟨"dist"⟩).plan danglingDisk = .ok (loopPlan loopSource) :=
      plan_loopPipeline (by decide +kernel)
    have hbuild := build_loopPipeline hplan (by decide +kernel)
    refine ⟨by decide +kernel, by decide +kernel, _, _, _, hplan, hbuild, by decide +kernel, ?_⟩
    -- The source leads to the target directory, which is there now.
    exact plan_ne_of_isDir (s := loopSource) (l := loopSource.entry loopName) (by decide +kernel)
      (by decide +kernel) (by decide +kernel)

end SheetGraph
