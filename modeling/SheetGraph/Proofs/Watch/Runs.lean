import SheetGraph.Proofs.Watch.Completeness

/-!
# Runs of edits

In a run, files of the project are edited and the batch of them is handled, time after time (`Run`).
A step that is answered with a build compiles the main sources that its own batch calls for, and
only those (`run_rebuilt_compiles`).  It does not make up for the steps before it: what was edited
in a step without a build is forgotten, and so are the sources behind a failure that ends a build
(`update_lost`).
-/

namespace SheetGraph.WatchHandler

variable {h h' h'' : WatchHandler} {c : Compiler} {d d' : Disk} {files : List Location}
  {l m : Location} {r : BuildResult} {outcome : Except WatchError ChangeOutcome}

/-! ### One step -/

/-- The second handler has come from the first by handling batches. -/
structure Continues (h h' : WatchHandler) : Prop where
  /-- The project is the same. -/
  pipeline : h'.pipeline = h.pipeline
  /-- Main sources are searched for in the same way. -/
  options : h'.options = h.options
  /-- The graph stays well formed. -/
  wellFormed : h.graph.WellFormed → h'.graph.WellFormed

theorem Continues.refl (h : WatchHandler) : h.Continues h where
  pipeline := rfl
  options := rfl
  wellFormed hwf := hwf

theorem Continues.trans (hab : h.Continues h') (hbc : h'.Continues h'') : h.Continues h'' where
  pipeline := hbc.pipeline.trans hab.pipeline
  options := hbc.options.trans hab.options
  wellFormed hwf := hbc.wellFormed (hab.wellFormed hwf)

namespace Continues

variable (hcontinues : h.Continues h')
include hcontinues

theorem project_eq : h'.project = h.project := by
  rw [project, project, hcontinues.pipeline]

theorem finderOptions_eq (hoptions : h.project.finderOptions = .ok h.options) :
    h'.project.finderOptions = .ok h'.options := by
  rw [hcontinues.project_eq, hcontinues.options]
  exact hoptions

theorem lists_eq : h'.Lists d m = h.Lists d m := by
  rw [Lists, Lists, hcontinues.project_eq, hcontinues.options]

theorem isMain_eq : h'.isMain m = h.isMain m := by
  rw [isMain, isMain, hcontinues.project_eq, hcontinues.options]

theorem role?_eq : h'.role? l = h.role? l := by
  rw [role?, role?, hcontinues.project_eq]

theorem index_eq : h'.index d = h.index d :=
  index_congr hcontinues.pipeline hcontinues.options

end Continues

theorem continues_indexFailed (h : WatchHandler) (e : ImportError) :
    h.Continues (h.indexFailed e) where
  pipeline := rfl
  options := rfl
  wellFormed hwf := hwf

theorem continues_of_index (hindex : h.index d = .ok h') : h.Continues h' := by
  obtain ⟨hpipeline, hoptions, _, _, hindexes⟩ := indexes_of_index hindex
  exact ⟨hpipeline, hoptions, fun _ => hindexes.wellFormed⟩

theorem index_indexFailed (h : WatchHandler) (e : ImportError) :
    (h.indexFailed e).index d = h.index d :=
  (continues_indexFailed h e).index_eq

/-- **What handling a batch comes to.**  Unless it comes to a build, the disk is left as it is. -/
theorem continues_handleChanges (hstep : h.handleChanges c d files = (h', d', outcome)) :
    h.Continues h' ∧
      (d' = d ∨ (∃ r, outcome = .ok (.rebuilt r)) ∨ ∃ e, outcome = .error (.build e)) := by
  cases handles_iff.mpr hstep with
  | ignored _ => exact ⟨Continues.refl h, Or.inl rfl⟩
  | unlisted _ _ => exact ⟨Continues.refl h, Or.inl rfl⟩
  | unindexed _ _ => exact ⟨continues_indexFailed h _, Or.inl rfl⟩
  | untold _ hindex _ =>
    exact ⟨(continues_of_index hindex).trans (continues_indexFailed _ _), Or.inl rfl⟩
  | unbuilt _ hindex _ _ => exact ⟨continues_of_index hindex, Or.inr (Or.inr ⟨_, rfl⟩)⟩
  | built _ hindex _ _ => exact ⟨continues_of_index hindex, Or.inr (Or.inl ⟨_, rfl⟩)⟩

/-- **A build compiles every main source that is, or depends on, a file of the batch.** -/
theorem handleChanges_compiles (hoptions : h.project.finderOptions = .ok h.options)
    (hwf : h.graph.WellFormed)
    (hrebuilt : h.handleChanges c d files = (h', d', .ok (.rebuilt r)))
    (hfull : h.pipeline.failFast = true → ∀ x ∈ r.results, x.isFailure = false)
    (hlists : h.Lists d m) (hmain : h.isMain m = true) (hl : l ∈ files)
    (hrelevant : h.isRelevant d l.path = true)
    (hdepends : l = m ∨ DependsOn d h.project.libraryDirs m l) :
    ∃ x ∈ r.results, x.source = m.path := by
  obtain ⟨-, -, sources, hsources, hindexes⟩ := indexes_of_index
    (handleChanges_eq_rebuilt_iff.mp hrebuilt).2.1
  have hlisted : m ∈ sources := by
    obtain ⟨sources', hsources', hm⟩ := (lists_iff hoptions).mp hlists
    rw [hsources] at hsources'
    cases hsources'
    exact hm
  have haffects : Affects h h' d l m :=
    affects_of_dependsOn hindexes hmain (role?_of_isMain hoptions hmain) hlisted hrelevant hdepends
  exact (handleChanges_results hwf hrebuilt hfull).mpr ⟨l, hl, haffects⟩

theorem handleChanges_skips_nothing (hdry : h.pipeline.dryRun = false)
    (hrebuilt : h.handleChanges c d files = (h', d', .ok (.rebuilt r))) :
    ∀ x ∈ r.results, x.isSkipped = false := by
  obtain ⟨-, hindex, _, -, hbuild⟩ := handleChanges_eq_rebuilt_iff.mp hrebuilt
  have hpipeline := (continues_of_index hindex).pipeline
  rw [← hpipeline] at hdry
  exact Pipeline.isSkipped_buildSources hdry hbuild

/-! ### Runs -/

/-- A batch that is handled. -/
structure Step where
  /-- The handler that gets it. -/
  before : WatchHandler
  /-- The disk with the edits. -/
  edited : Disk
  /-- The edited files. -/
  batch : List Location
  /-- The handler that has handled it. -/
  after : WatchHandler
  /-- The disk that is left. -/
  left : Disk
  /-- What came of it. -/
  outcome : Except WatchError ChangeOutcome

/-- The steps follow each other from a handler and a disk on.  In each of them the batch names all
that was edited, which are files of the project. -/
inductive Run (c : Compiler) : WatchHandler → Disk → List Step → Prop
  /-- No step. -/
  | nil (h : WatchHandler) (d : Disk) : Run c h d []
  /-- A step before others. -/
  | cons {h h' : WatchHandler} {d edited left : Disk} {batch : List Location}
      {outcome : Except WatchError ChangeOutcome} {steps : List Step}
      (named : ∀ l, d.tree.get? l ≠ edited.tree.get? l → l ∈ batch)
      (relevant : ∀ l ∈ batch, h.isRelevant edited l.path = true)
      (handled : h.handleChanges c edited batch = (h', left, outcome))
      (rest : Run c h' left steps) : Run c h d (⟨h, edited, batch, h', left, outcome⟩ :: steps)

/-- The handler has indexed its project and has built all of it, which leaves the disk. -/
def Starts (c : Compiler) (h : WatchHandler) (d : Disk) : Prop :=
  ∃ (h₀ : WatchHandler) (d₀ : Disk) (r : BuildResult),
    h₀.project.finderOptions = .ok h₀.options ∧ h₀.index d₀ = .ok h ∧
    h.buildAll c d₀ = (d, .ok r)

variable {s : Step} {steps earlier silent later : List Step}

theorem Run.continues (hrun : Run c h d steps) (hs : s ∈ steps) :
    h.Continues s.before ∧ (∀ l ∈ s.batch, s.before.isRelevant s.edited l.path = true) ∧
      s.before.handleChanges c s.edited s.batch = (s.after, s.left, s.outcome) := by
  induction hrun with
  | nil => exact absurd hs List.not_mem_nil
  | cons named relevant handled rest ih =>
    rcases List.mem_cons.mp hs with rfl | hs
    · exact ⟨Continues.refl _, relevant, handled⟩
    · obtain ⟨hcontinues, hbatch⟩ := ih hs
      exact ⟨(continues_handleChanges handled).1.trans hcontinues, hbatch⟩

/-! ### Runs of the project of two sources -/

/-- One more file of the batch can be written. -/
theorem named_save (hnamed : ∀ k, d.tree.get? k ≠ d'.tree.get? k → k ∈ files) (text : String)
    (hl : l ∈ files) : ∀ k, d.tree.get? k ≠ (save d' l text).tree.get? k → k ∈ files := by
  intro k hk
  by_cases hkl : k = l
  · rw [hkl]
    exact hl
  · rw [save, FileTree.get?_put_of_ne hkl] at hk
    exact hnamed k hk

/-- The plan for both sources. -/
def pairPlan : List PlanEntry :=
  [(pairA.path, ⟨"/css/a.css"⟩), (pairB.path, ⟨"/css/b.css"⟩)]

/-- The disk once both sources are built. -/
def pairBuilt (failFast : Bool) (c : Compiler) : Disk :=
  ((pairHandler [] failFast).pipeline.execute c pairDisk pairPlan).1

theorem starts_pair {failFast : Bool}
    (hexecute : ((pairHandler [] failFast).pipeline.execute c pairDisk pairPlan).2 = .ok r) :
    Starts c (pairHandler [] failFast) (pairBuilt failFast c) := by
  obtain ⟨hindex, -⟩ := index_pairDisk [] failFast (by cases failFast <;> decide +kernel)
  have hsources : sourcesUnder pairDisk (pairHandler [] failFast).project.sourceDir
      { absolute := false } = .ok [pairA, pairB] := by
    rw [sourceDir_pairHandler]
    exact sourcesUnder_pair (a := "".toUTF8) (b := "".toUTF8) (by decide +kernel)
      (by decide +kernel) (by decide +kernel) rfl
  have hplan : (pairHandler [] failFast).pipeline.plan pairDisk = .ok pairPlan :=
    Pipeline.plan_of_sourcesUnder rfl hsources (by cases failFast <;> decide +kernel)
  refine ⟨pairHandler [] failFast, pairDisk, r, rfl, hindex, ?_⟩
  have hbuild : (pairHandler [] failFast).pipeline.build c pairDisk
      = (pairBuilt failFast c, .ok r) := by
    rw [Pipeline.build, hplan, pairBuilt, ← hexecute]
  rw [buildAll, hbuild]

/-- The disk after an edit of both sources, of which the first one cannot be indexed. -/
def pairBroken : Disk :=
  save (save (pairBuilt false blankCompiler) pairB "x") pairA "@import 'gone';\n"

/-- The disk after an edit that mends the first source. -/
def pairMended : Disk :=
  save pairBroken pairA ""

/-- The handler that has failed to index the project. -/
def pairFailed : WatchHandler :=
  (pairHandler [] false).indexFailed (.unresolvable "gone" pairA.path)

theorem handleChanges_pairBroken :
    (pairHandler [] false).handleChanges blankCompiler pairBroken [pairA, pairB]
      = (pairFailed, pairBroken, .ok (.indexFailed (.unresolvable "gone" pairA.path))) := by
  have hsources : sourcesUnder pairBroken (pairHandler [] false).project.sourceDir
      (pairHandler [] false).options = .ok [pairA, pairB] := by
    rw [sourceDir_pairHandler]
    exact sourcesUnder_pair (a := "@import 'gone';\n".toUTF8) (b := "x".toUTF8) (by decide +kernel)
      (by decide +kernel) (by decide +kernel) rfl
  have hindex : (pairHandler [] false).index pairBroken
      = .error (.index (.unresolvable "gone" pairA.path)) :=
    index_eq_error_iff.mpr ⟨_, hsources, by decide +kernel⟩
  exact handleChanges_of_index (by decide +kernel) hindex

theorem index_pairMended :
    pairFailed.index pairMended = .ok (pairHandler [] false) ∧
      ∀ l ∈ [pairA, pairB], (pairHandler [] false).Lists pairMended l := by
  rw [pairFailed, index_indexFailed]
  exact index_pairHandler (a := "".toUTF8) (b := "x".toUTF8) (by decide +kernel)
    (by decide +kernel) (by decide +kernel) (by decide +kernel)

theorem handleChanges_pairMended :
    pairFailed.handleChanges blankCompiler pairMended [pairA]
      = (pairHandler [] false,
        ((pairHandler [] false).pipeline.buildSources blankCompiler pairMended
          ([pairA].map Location.path)).1,
        .ok (.rebuilt ⟨[⟨pairA.path, ⟨"/css/a.css"⟩, .success⟩]⟩)) := by
  have hsources : (pairHandler [] false).sourcesForAll pairMended []
      (pairFailed.changesOf pairMended [] [pairA]) = .ok [pairA] := by
    decide +kernel
  exact handleChanges_eq_rebuilt index_pairMended.1 (by decide +kernel) hsources (by decide +kernel)

theorem starts_pairBuilt :
    Starts blankCompiler (pairHandler [] false) (pairBuilt false blankCompiler) :=
  starts_pair (r := ⟨[⟨pairA.path, ⟨"/css/a.css"⟩, .success⟩,
    ⟨pairB.path, ⟨"/css/b.css"⟩, .success⟩]⟩) (by decide +kernel)

/-- The step that cannot be indexed. -/
def brokenStep : Step :=
  ⟨pairHandler [] false, pairBroken, [pairA, pairB], pairFailed, pairBroken,
    .ok (.indexFailed (.unresolvable "gone" pairA.path))⟩

/-- The step that mends the first source. -/
def mendedStep : Step :=
  ⟨pairFailed, pairMended, [pairA], pairHandler [] false,
    ((pairHandler [] false).pipeline.buildSources blankCompiler pairMended
      ([pairA].map Location.path)).1,
    .ok (.rebuilt ⟨[⟨pairA.path, ⟨"/css/a.css"⟩, .success⟩]⟩)⟩

theorem run_mendedStep : Run blankCompiler (pairHandler [] false) (pairBuilt false blankCompiler)
    ([] ++ [brokenStep] ++ [mendedStep]) := by
  have hbroken : ∀ l, (pairBuilt false blankCompiler).tree.get? l ≠ pairBroken.tree.get? l →
      l ∈ [pairA, pairB] :=
    named_save (named_save (fun _ hk => absurd rfl hk) "x" (by simp)) _ (by simp)
  have hmended : ∀ l, pairBroken.tree.get? l ≠ pairMended.tree.get? l → l ∈ [pairA] :=
    named_save (fun _ hk => absurd rfl hk) "" (by simp)
  have hrelevant : ∀ l ∈ [pairA, pairB],
      (pairHandler [] false).isRelevant pairBroken l.path = true := by
    decide +kernel
  have hrelevant' : ∀ l ∈ [pairA], pairFailed.isRelevant pairMended l.path = true := by
    decide +kernel
  have hlast : Run blankCompiler pairFailed pairBroken [mendedStep] :=
    .cons hmended hrelevant' handleChanges_pairMended (.nil _ _)
  exact .cons hbroken hrelevant handleChanges_pairBroken hlast

theorem outcome_of_mem_brokenStep {q : Step} (hq : q ∈ [brokenStep]) :
    q.outcome = .ok (.indexFailed (.unresolvable "gone" pairA.path)) := by
  rw [List.mem_singleton.mp hq]
  rfl

/-- A compiler that makes no output. -/
def brokenCompiler : Compiler := fun _ source _ => .error { file := source, message := "" }

/-- The result of the first source with that compiler. -/
def failedA : CompileResult :=
  ⟨pairA.path, ⟨"/css/a.css"⟩, .failed { file := pairA.path, message := "" }⟩

/-- The disk after an edit of both sources. -/
def pairRetouched : Disk :=
  save (save (pairBuilt true brokenCompiler) pairB "x") pairA "x"

/-- The step that fails at the first source. -/
def failingStep : Step :=
  ⟨pairHandler [] true, pairRetouched, [pairA, pairB], pairHandler [] true,
    ((pairHandler [] true).pipeline.buildSources brokenCompiler pairRetouched
      ([pairA, pairB].map Location.path)).1,
    .ok (.rebuilt ⟨[failedA]⟩)⟩

theorem starts_failing :
    Starts brokenCompiler (pairHandler [] true) (pairBuilt true brokenCompiler) :=
  starts_pair (r := ⟨[failedA]⟩) (by decide +kernel)

theorem index_pairRetouched :
    (pairHandler [] true).index pairRetouched = .ok (pairHandler [] true) ∧
      ∀ l ∈ [pairA, pairB], (pairHandler [] true).Lists pairRetouched l :=
  index_pairHandler (a := "x".toUTF8) (b := "x".toUTF8) (by decide +kernel) (by decide +kernel)
    (by decide +kernel) (by decide +kernel)

theorem run_failingStep :
    Run brokenCompiler (pairHandler [] true) (pairBuilt true brokenCompiler) [failingStep] := by
  have hnamed : ∀ l, (pairBuilt true brokenCompiler).tree.get? l ≠ pairRetouched.tree.get? l →
      l ∈ [pairA, pairB] :=
    named_save (named_save (fun _ hk => absurd rfl hk) "x" (by simp)) "x" (by simp)
  have hrelevant : ∀ l ∈ [pairA, pairB],
      (pairHandler [] true).isRelevant pairRetouched l.path = true := by
    decide +kernel
  have hchanges : (pairHandler [] true).changesOf pairRetouched [] [pairA, pairB] ≠ [] := by
    decide +kernel
  have hsources : (pairHandler [] true).sourcesForAll pairRetouched []
      ((pairHandler [] true).changesOf pairRetouched [] [pairA, pairB]) = .ok [pairA, pairB] := by
    decide +kernel
  have hrebuilt := handleChanges_eq_rebuilt (c := brokenCompiler) (r := ⟨[failedA]⟩)
    index_pairRetouched.1 hchanges hsources (by decide +kernel)
  exact .cons hnamed hrelevant hrebuilt (.nil _ _)

/-! ### Updates -/

/-- **A step with a build compiles what its own batch calls for**, after any steps without one.  It
has a result for every main source that is, or depends on, a file of the batch; it has results only
for main sources that a file of the batch calls for; and the steps without a build have left their
disks as they were, unless a build could not run.  A failure may end the build if that is asked for,
and a dry run skips what it does not compile. -/
theorem run_rebuilt_compiles (hstart : Starts c h d)
    (hrun : Run c h d (earlier ++ silent ++ s :: later))
    (hsilent : ∀ q ∈ silent, ∀ r, q.outcome ≠ .ok (.rebuilt r))
    (hrebuilt : s.outcome = .ok (.rebuilt r))
    (hfull : h.pipeline.failFast = true → ∀ x ∈ r.results, x.isFailure = false) :
    (∀ m, h.Lists s.edited m → h.isMain m = true →
      (∃ l ∈ s.batch, l = m ∨ DependsOn s.edited h.project.libraryDirs m l) →
      ∃ x ∈ r.results, x.source = m.path) ∧
    (∀ m, (∃ x ∈ r.results, x.source = m.path) ↔
      ∃ l ∈ s.batch, Affects s.before s.after s.edited l m) ∧
    (∀ q ∈ silent, q.left = q.edited ∨ ∃ e, q.outcome = .error (.build e)) ∧
    (h.pipeline.dryRun = false → ∀ x ∈ r.results, x.isSkipped = false) := by
  obtain ⟨h₀, d₀, r₀, hoptions₀, hindex, -⟩ := hstart
  obtain ⟨hcontinues, hrelevant, hhandled⟩ := hrun.continues (s := s) (by simp)
  rw [hrebuilt] at hhandled
  -- What the first index has set up is kept up to the step.
  obtain ⟨-, -, _, -, hindexes⟩ := indexes_of_index hindex
  have hwf : s.before.graph.WellFormed := hcontinues.wellFormed hindexes.wellFormed
  have hoptions : s.before.project.finderOptions = .ok s.before.options :=
    ((continues_of_index hindex).trans hcontinues).finderOptions_eq hoptions₀
  rw [← hcontinues.pipeline] at hfull
  refine ⟨?_, ?_, ?_, ?_⟩
  · rintro m hlists hmain ⟨l, hl, hdepends⟩
    rw [← hcontinues.lists_eq] at hlists
    rw [← hcontinues.isMain_eq] at hmain
    rw [← hcontinues.project_eq] at hdepends
    exact handleChanges_compiles hoptions hwf hhandled hfull hlists hmain hl (hrelevant l hl)
      hdepends
  · intro m
    exact handleChanges_results hwf hhandled hfull
  · intro q hq
    obtain ⟨-, -, hq'⟩ := hrun.continues (s := q) (by simp [hq])
    rcases (continues_handleChanges hq').2 with heq | ⟨r', hr'⟩ | herror
    · exact Or.inl heq
    · exact absurd hr' (hsilent q hq r')
    · exact Or.inr herror
  · intro hdry
    rw [← hcontinues.pipeline] at hdry
    exact handleChanges_skips_nothing hdry hhandled

/-- The source that is mended is compiled. -/
theorem run_rebuilt_compiles_pair :
    Starts blankCompiler (pairHandler [] false) (pairBuilt false blankCompiler) ∧
    Run blankCompiler (pairHandler [] false) (pairBuilt false blankCompiler)
      ([] ++ [brokenStep] ++ [mendedStep]) ∧
    ∃ r, mendedStep.outcome = .ok (.rebuilt r) ∧ ∃ x ∈ r.results, x.source = pairA.path := by
  have hsilent : ∀ q ∈ [brokenStep], ∀ r, q.outcome ≠ .ok (.rebuilt r) := by
    intro q hq r hr
    rw [outcome_of_mem_brokenStep hq] at hr
    cases hr
  have hfull : ∀ r : BuildResult, (pairHandler [] false).pipeline.failFast = true →
      ∀ x ∈ r.results, x.isFailure = false := by
    intro r hfast
    cases hfast
  obtain ⟨hall, -⟩ := run_rebuilt_compiles starts_pairBuilt run_mendedStep hsilent rfl (hfull _)
  refine ⟨starts_pairBuilt, run_mendedStep, _, rfl, ?_⟩
  exact hall pairA (index_pairMended.2 pairA (by simp)) (by decide +kernel)
    ⟨pairA, List.mem_singleton_self _, Or.inl rfl⟩

/-- A run loses the update of a main source: it ends with a build, the steps before could not be
indexed, and the source is edited in one of them all but has no result. -/
structure Loses (c : Compiler) (h : WatchHandler) (d : Disk) (silent : List Step) (s : Step)
    (m : Location) : Prop where
  starts : Starts c h d
  run : Run c h d (silent ++ [s])
  failed : ∀ q ∈ silent, ∃ e, q.outcome = .ok (.indexFailed e)
  changed : ∃ q ∈ silent ++ [s], m ∈ q.batch
  edited : d.readBytes m.path ≠ s.edited.readBytes m.path
  listed : h.Lists s.edited m
  main : h.isMain m = true
  left_out : ∃ r, s.outcome = .ok (.rebuilt r) ∧ ∀ x ∈ r.results, x.source ≠ m.path

/-- An update is lost when its batch cannot be indexed and the next one mends another file, and it
is lost behind a failure that ends the build. -/
theorem update_lost :
    Loses blankCompiler (pairHandler [] false) (pairBuilt false blankCompiler)
      [brokenStep] mendedStep pairB ∧
    Loses brokenCompiler (pairHandler [] true) (pairBuilt true brokenCompiler)
      [] failingStep pairB := by
  constructor
  · exact {
      starts := starts_pairBuilt
      run := run_mendedStep
      failed := fun q hq => ⟨_, outcome_of_mem_brokenStep hq⟩
      changed := ⟨brokenStep, by simp, by decide +kernel⟩
      edited := by decide +kernel
      listed := index_pairMended.2 pairB (by simp)
      main := by decide +kernel
      left_out := ⟨_, rfl, by decide +kernel⟩ }
  · exact {
      starts := starts_failing
      run := run_failingStep
      failed := fun q hq => absurd hq List.not_mem_nil
      changed := ⟨failingStep, by simp, by decide +kernel⟩
      edited := by decide +kernel
      listed := index_pairRetouched.2 pairB (by simp)
      main := by decide +kernel
      left_out := ⟨_, rfl, by decide +kernel⟩ }

end SheetGraph.WatchHandler
