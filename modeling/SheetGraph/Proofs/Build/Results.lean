import SheetGraph.Proofs.Build.Interleaving

/-!
# The entries of a plan and their results

A build that is not ended by a failure has one result for each entry of its plan, in the order of
the plan, whether the entries are compiled in turn or together (`map_entry_execute`).  A build of
given sources has one result for each of them (`map_source_buildSources`).  Whether it runs does not
depend on the sources, as long as there are any (`exists_buildSources_iff`).
-/

namespace SheetGraph

/-! ### Outputs -/

/-- Outputs can be named: no slash stands in their suffix. -/
def Project.NamesOutputs (p : Project) : Prop :=
  p.settings.output.hashSuffix.filter (·.toList.contains '/') = none

/-- A source in the source directory has an output, unless outputs cannot be named. -/
theorem Project.destinationFor_of_isWithin {p : Project} {l : Location}
    (hl : l.isWithin p.sourceDir = true) :
    (p.NamesOutputs ∧ ∃ output, p.destinationFor l = .ok (some output)) ∨
      ¬ p.NamesOutputs ∧ ∃ e, p.destinationFor l = .error e := by
  obtain ⟨names, hfrom⟩ := Option.isSome_iff_exists.mp hl
  have hrelative : relativeFrom? l [p.sourceDir] = some (Path.ofNames names) := by
    simp [relativeFrom?, hfrom]
  unfold destinationFor NamesOutputs destination
  rw [hrelative]
  dsimp only
  cases p.settings.output.hashSuffix.filter (·.toList.contains '/') with
  | none => exact Or.inl ⟨rfl, _, rfl⟩
  | some suffix => exact Or.inr ⟨Option.some_ne_none suffix, _, rfl⟩

theorem Path.isAbsolute_join {p : Path} (hp : p.isAbsolute = true) (q : Path) :
    (p.join q).isAbsolute = true := by
  have hhead := beq_iff_eq.mp hp
  obtain ⟨cs, hcs⟩ := List.head?_eq_some_iff.mp hhead
  unfold join
  split
  · assumption
  · split <;> rw [isAbsolute, chars_ofChars, hcs] <;> rfl

/-- Outputs have absolute paths, since the target directory has one. -/
theorem Project.isAbsolute_of_destinationFor {p : Project} {l : Location} {output : Path}
    (h : p.destinationFor l = .ok (some output)) : output.isAbsolute = true := by
  unfold destinationFor at h
  split at h
  · cases h
  · unfold destination at h
    split at h
    · cases h
    · cases h
      exact Path.isAbsolute_join (Location.isAbsolute_path _) _

namespace Pipeline

variable {p : Pipeline} {c : Compiler} {d d' : Disk} {plan : List PlanEntry}

/-! ### Plans -/

/-- The plan has the sources that a search comes to, with their outputs. -/
theorem plan_of_sourcesUnder {options : FinderOptions} {sources : List Location}
    (hoptions : p.project.finderOptions = .ok options)
    (hsources : sourcesUnder d p.project.sourceDir { options with absolute := false } = .ok sources)
    (hplan : (sources.filterMap fun l =>
        (p.project.sourceDir.from? l).map Path.ofNames).mapM (fun relative =>
      (fun output => (p.project.sourceDir.path.join relative, output)) <$>
        destination relative (some p.project.targetDir.path) options.hashSuffix) = .ok plan) :
    p.plan d = .ok plan := by
  have hmirror : mirrorSources d p.project.sourceDir.path (some p.project.targetDir.path) options
      = .ok plan := by
    unfold mirrorSources compilableSources
    rw [Disk.locate_path, hsources, ← hplan]
    rfl
  unfold Pipeline.plan
  rw [hoptions]
  dsimp only
  rw [hmirror]

/-! ### One source -/

theorem compileOne_of_dryRun (hdry : p.dryRun = true) (d : Disk) (entry : PlanEntry) :
    p.compileOne c d entry = (d, ⟨entry.1, entry.2, .skipped⟩) := by
  unfold compileOne
  rw [hdry]
  rfl

theorem compileOne_of_error {entry : PlanEntry} {e : CompileError} (hdry : p.dryRun = false)
    (he : c d entry.1 p.project.compileOptions = .error e) :
    p.compileOne c d entry = (d, ⟨entry.1, entry.2, .failed e⟩) := by
  unfold compileOne
  dsimp only
  rw [hdry, if_neg Bool.false_ne_true, he]

/-- The outcome of a source whose output is written. -/
def outcomeOf (destination : Path) : Except FileError Unit → CompileOutcome
  | .ok () => .success
  | .error e => notWritten destination e

theorem compileOne_of_ok {entry : PlanEntry} {css : String} (hdry : p.dryRun = false)
    (hcss : c d entry.1 p.project.compileOptions = .ok css) :
    p.compileOne c d entry =
      ((writeOutput d entry.2 css).1,
        ⟨entry.1, entry.2, outcomeOf entry.2 (writeOutput d entry.2 css).2⟩) := by
  unfold compileOne
  dsimp only
  rw [hdry, if_neg Bool.false_ne_true, hcss]
  dsimp only
  split
  · rename_i left hwrite
    rw [hwrite]
    rfl
  · rename_i left e hwrite
    rw [hwrite]
    rfl

theorem entry_compileOne (d : Disk) (entry : PlanEntry) :
    (p.compileOne c d entry).2.entry = entry := by
  cases hdry : p.dryRun with
  | true =>
    rw [compileOne_of_dryRun hdry]
    rfl
  | false =>
    cases hcss : c d entry.1 p.project.compileOptions with
    | error e =>
      rw [compileOne_of_error hdry hcss]
      rfl
    | ok css =>
      rw [compileOne_of_ok hdry hcss]
      rfl

theorem source_compileOne (d : Disk) (entry : PlanEntry) :
    (p.compileOne c d entry).2.source = entry.1 :=
  congrArg Prod.fst (entry_compileOne d entry)

theorem destination_compileOne (d : Disk) (entry : PlanEntry) :
    (p.compileOne c d entry).2.destination = entry.2 :=
  congrArg Prod.snd (entry_compileOne d entry)

/-! ### One after the other -/

/-- Only a failure can end a build. -/
theorem map_entry_compileInTurn (plan : List PlanEntry) (d : Disk)
    (hfull : p.failFast = true → ∀ x ∈ (p.compileInTurn c d plan).2, x.isFailure = false) :
    (p.compileInTurn c d plan).2.map CompileResult.entry = plan := by
  induction plan generalizing d with
  | nil => rfl
  | cons entry plan ih =>
    rw [compileInTurn] at hfull ⊢
    dsimp only at hfull ⊢
    split at hfull
    · rename_i hstop
      rw [Bool.and_eq_true] at hstop
      have hgood := hfull hstop.1 _ (List.mem_singleton_self _)
      rw [hstop.2] at hgood
      cases hgood
    · rename_i hgo
      have hrest := ih _ fun hfail x hx => hfull hfail x (List.mem_cons_of_mem _ hx)
      rw [if_neg hgo, List.map_cons, entry_compileOne, hrest]

/-- The entries that are compiled one after the other, each with the disk that it is compiled on. -/
def steps (p : Pipeline) (c : Compiler) : Disk → List PlanEntry → List (Disk × PlanEntry)
  | _, [] => []
  | d, entry :: plan =>
    let (left, result) := p.compileOne c d entry
    (d, entry) :: if p.failFast && result.isFailure then [] else steps p c left plan

theorem snd_compileInTurn (plan : List PlanEntry) (d : Disk) :
    (p.compileInTurn c d plan).2
      = (p.steps c d plan).map fun step => (p.compileOne c step.1 step.2).2 := by
  induction plan generalizing d with
  | nil => rfl
  | cons entry plan ih =>
    rw [compileInTurn, steps]
    dsimp only
    split
    · rfl
    · rw [List.map_cons, ih]

theorem prefix_steps (plan : List PlanEntry) (d : Disk) :
    (p.steps c d plan).map Prod.snd <+: plan := by
  induction plan generalizing d with
  | nil => exact List.prefix_refl _
  | cons entry plan ih =>
    rw [steps, List.map_cons]
    refine List.cons_prefix_cons.mpr ⟨rfl, ?_⟩
    split
    · exact List.nil_prefix
    · exact ih _

/-- **What is compiled in turn** are the first entries of the plan. -/
theorem prefix_compileInTurn (plan : List PlanEntry) (d : Disk) :
    (p.compileInTurn c d plan).2.map CompileResult.entry <+: plan := by
  have hentry : CompileResult.entry ∘ (fun step => (p.compileOne c step.1 step.2).2) = Prod.snd :=
    funext fun step => entry_compileOne step.1 step.2
  rw [snd_compileInTurn, List.map_map, hentry]
  exact prefix_steps plan d

theorem isSequential_of_failFast (h : p.failFast = true) : p.isSequential plan = true := by
  rw [isSequential, h, Bool.true_or, Bool.true_or]

theorem failFast_of_not_isSequential (h : ¬ p.isSequential plan = true) : p.failFast = false := by
  by_contra hfast
  exact h (isSequential_of_failFast (Bool.not_eq_false _ ▸ hfast))

/-! ### Dry runs -/

/-- The result of an entry that is not to be compiled. -/
def skipped (entry : PlanEntry) : CompileResult :=
  ⟨entry.1, entry.2, .skipped⟩

theorem compileInTurn_of_dryRun (hdry : p.dryRun = true) (plan : List PlanEntry) (d : Disk) :
    p.compileInTurn c d plan = (d, plan.map skipped) := by
  induction plan with
  | nil => rfl
  | cons entry plan ih =>
    have hgo : ¬ (p.failFast && (skipped entry).isFailure) = true := by
      rw [Bool.and_eq_true]
      exact fun hstop => Bool.noConfusion hstop.2
    rw [compileInTurn, compileOne_of_dryRun hdry]
    exact (if_neg hgo).trans (by rw [ih]; rfl)

theorem interleave_of_dryRun (hdry : p.dryRun = true) (turns : List Nat) (plan : List PlanEntry)
    (d : Disk) : (p.interleave c turns d (plan.map .start)).1 = d ∧
      ∀ x ∈ (p.interleave c turns d (plan.map .start)).2,
        x.stage = .waiting ∨ x.stage = .ended .skipped := by
  refine interleave_induction (P := fun left xs => left = d ∧
    ∀ x ∈ xs, x.stage = .waiting ∨ x.stage = .ended .skipped) ?_ turns ⟨rfl, ?_⟩
  · rintro left front x back ⟨rfl, hall⟩
    obtain ⟨hfront, hrest⟩ := List.forall_mem_append.mp hall
    obtain ⟨hx, hback⟩ := List.forall_mem_cons.mp hrest
    have hstep : (p.advance c left x).1 = left ∧
        (p.advance c left x).2.stage = .ended .skipped := by
      rcases hx with hwaiting | hended
      · rw [advance_of_waiting hwaiting, compileStage, if_pos hdry]
        exact ⟨rfl, rfl⟩
      · rw [advance_of_ne_waiting (by rw [hended]; exact nofun), hended]
        exact ⟨rfl, rfl⟩
    exact ⟨hstep.1, List.forall_mem_append.mpr
      ⟨hfront, List.forall_mem_cons.mpr ⟨Or.inr hstep.2, hback⟩⟩⟩
  · intro x hx
    obtain ⟨entry, -, rfl⟩ := List.mem_map.mp hx
    exact Or.inl rfl

theorem compileTogether_of_dryRun (hdry : p.dryRun = true) (s : Schedule) (plan : List PlanEntry)
    (d : Disk) : p.compileTogether c s d plan = (d, plan.map skipped) := by
  obtain ⟨hdisk, hstages⟩ := interleave_of_dryRun (c := c) hdry (s.turns plan.length) plan d
  have hresults : ∀ r ∈ (p.compileTogether c s d plan).2, skipped r.entry = r := by
    intro r hr
    obtain ⟨x, hx, hresult⟩ := List.mem_filterMap.mp hr
    rcases hstages x hx with hwaiting | hended
    · rw [result?, hwaiting] at hresult
      cases hresult
    · rw [result?, hended] at hresult
      cases hresult
      rfl
  have hall : (p.compileTogether c s d plan).2 = plan.map skipped :=
    calc (p.compileTogether c s d plan).2
        = (p.compileTogether c s d plan).2.map (fun r => skipped r.entry) :=
          ((List.map_congr_left hresults).trans (List.map_id _)).symm
      _ = ((p.compileTogether c s d plan).2.map CompileResult.entry).map skipped := by
          rw [List.map_map]
          rfl
      _ = plan.map skipped := by rw [map_entry_compileTogether]
  exact Prod.ext hdisk hall

theorem compileAll_of_dryRun (hdry : p.dryRun = true) (plan : List PlanEntry) (d : Disk) :
    p.compileAll c d plan = (d, plan.map skipped) := by
  unfold compileAll
  split
  · exact compileInTurn_of_dryRun hdry plan d
  · exact compileTogether_of_dryRun hdry p.schedule plan d

/-- **A dry run** skips all entries of the plan, and changes nothing. -/
theorem execute_of_dryRun (hdry : p.dryRun = true) (d : Disk) (plan : List PlanEntry) :
    p.execute c d plan = (d, .ok ⟨plan.map skipped⟩) := by
  unfold execute
  rw [hdry, if_pos rfl]
  dsimp only
  rw [compileAll_of_dryRun hdry]
  split
  · rename_i hempty
    rw [List.isEmpty_iff.mp hempty]
    rfl
  · rfl

/-! ### Whole builds -/

/-- **All entries compiled**: each has its result, unless a failure has ended the build. -/
theorem map_entry_compileAll (plan : List PlanEntry) (d : Disk)
    (hfull : p.failFast = true → ∀ x ∈ (p.compileAll c d plan).2, x.isFailure = false) :
    (p.compileAll c d plan).2.map CompileResult.entry = plan := by
  unfold compileAll at hfull ⊢
  split
  · rename_i hsequential
    rw [if_pos hsequential] at hfull
    exact map_entry_compileInTurn plan d hfull
  · exact map_entry_compileTogether p.schedule d plan

theorem prefix_compileAll (plan : List PlanEntry) (d : Disk) :
    (p.compileAll c d plan).2.map CompileResult.entry <+: plan := by
  unfold compileAll
  split
  · exact prefix_compileInTurn plan d
  · rw [map_entry_compileTogether]

theorem compileAll_nil (d : Disk) : p.compileAll c d [] = (d, []) := by
  unfold compileAll
  split
  · rfl
  · have hnone : ∀ turns, p.interleave c turns d [] = (d, []) := by
      intro turns
      induction turns with
      | nil => rfl
      | cons i turns ih => rw [interleave_cons_of_none List.getElem?_nil, ih]
    rw [compileTogether, List.map_nil, hnone]
    rfl

/-- **What carrying out a plan comes to.**  The target directory is made, if anything is to be
written, and then the entries are compiled. -/
theorem exists_compileAll_of_execute {r : BuildResult}
    (h : p.execute c d plan = (d', .ok r)) :
    ∃ made, p.compileAll c made plan = (d', r.results) ∧ d.DirsAdded made ∧
      (p.dryRun = false → plan ≠ [] →
        d.createDirAll p.project.targetDir.path = (made, .ok ())) := by
  unfold execute at h
  split at h
  · rename_i hempty
    obtain rfl := List.isEmpty_iff.mp hempty
    cases h
    exact ⟨d, compileAll_nil d, .refl d, fun _ hne => absurd rfl hne⟩
  · cases hmade : (if p.dryRun then (d, .ok ()) else d.createDirAll p.project.targetDir.path) with
    | mk made outcome =>
      rw [hmade] at h
      cases outcome with
      | error e => cases h
      | ok done =>
        cases h
        refine ⟨made, rfl, ?_, fun hdry _ => ?_⟩
        · have hdirs := Disk.dirsAdded_createDirAll d p.project.targetDir.path
          split at hmade
          · cases hmade
            exact .refl d
          · rw [hmade] at hdirs
            exact hdirs
        · rw [hdry, if_neg Bool.false_ne_true] at hmade
          exact hmade

/-- **Each entry of a plan has its result**, in the order of the plan. -/
theorem map_entry_execute {r : BuildResult} (h : p.execute c d plan = (d', .ok r))
    (hfull : p.failFast = true → ∀ x ∈ r.results, x.isFailure = false) :
    r.results.map CompileResult.entry = plan := by
  obtain ⟨made, hdone, -⟩ := exists_compileAll_of_execute h
  have hentries := map_entry_compileAll (p := p) (c := c) plan made
  rw [hdone] at hentries
  exact hentries hfull

/-- **The results of a build** are those of the first entries of its plan. -/
theorem prefix_execute {r : BuildResult} (h : p.execute c d plan = (d', .ok r)) :
    r.results.map CompileResult.entry <+: plan := by
  obtain ⟨made, hdone, -⟩ := exists_compileAll_of_execute h
  have hprefix := prefix_compileAll (p := p) (c := c) plan made
  rwa [hdone] at hprefix

theorem perm_planSources {sources : List Path} {outsiders : List CompileResult}
    (h : p.planSources d sources = .ok (outsiders, plan)) :
    (outsiders.map (·.source) ++ plan.map (·.1)).Perm sources := by
  induction sources generalizing outsiders plan with
  | nil =>
    cases h
    exact List.Perm.refl _
  | cons source sources ih =>
    rw [planSources] at h
    split at h
    · cases h
    · cases h
    · rename_i outsiders' plan' _ hrest
      cases h
      exact (ih hrest).cons source
    · rename_i outsiders' plan' _ hrest
      cases h
      rw [List.map_cons]
      exact List.perm_middle.trans ((ih hrest).cons source)

/-- What comes into the plan has an output, and what does not come into it has none. -/
theorem destinationFor_of_planSources {sources : List Path} {outsiders : List CompileResult}
    (h : p.planSources d sources = .ok (outsiders, plan)) :
    (∀ x ∈ outsiders, p.project.destinationFor (d.locate x.source) = .ok none) ∧
      ∀ x ∈ plan, p.project.destinationFor (d.locate x.1) = .ok (some x.2) := by
  induction sources generalizing outsiders plan with
  | nil =>
    cases h
    simp
  | cons source sources ih =>
    rw [planSources] at h
    split at h
    · cases h
    · cases h
    · rename_i hnone hrest
      cases h
      obtain ⟨houtsiders, hplan⟩ := ih hrest
      exact ⟨List.forall_mem_cons.mpr ⟨hnone, houtsiders⟩, hplan⟩
    · rename_i hsome hrest
      cases h
      obtain ⟨houtsiders, hplan⟩ := ih hrest
      exact ⟨houtsiders, List.forall_mem_cons.mpr ⟨hsome, hplan⟩⟩

/-- A build of given sources that runs carries a plan out. -/
theorem exists_execute_of_buildSources {sources : List Path} {r : BuildResult}
    (h : p.buildSources c d sources = (d', .ok r)) :
    ∃ outsiders plan compiled, p.planSources d sources = .ok (outsiders, plan) ∧
      p.execute c d plan = (d', .ok compiled) ∧ r.results = outsiders ++ compiled.results := by
  unfold buildSources at h
  split at h
  · cases h
  · rename_i outsiders plan hplan
    split at h
    · cases h
    · rename_i compiled hexecute
      cases h
      exact ⟨outsiders, plan, compiled, hplan, hexecute, rfl⟩

/-- **Each of the given sources has its result**, and no other has one. -/
theorem map_source_buildSources {sources : List Path} {r : BuildResult}
    (h : p.buildSources c d sources = (d', .ok r))
    (hfull : p.failFast = true → ∀ x ∈ r.results, x.isFailure = false) :
    (r.results.map (·.source)).Perm sources := by
  obtain ⟨outsiders, plan, compiled, hplan, hexecute, hresults⟩ := exists_execute_of_buildSources h
  rw [hresults] at hfull
  have hentries := map_entry_execute hexecute fun hfail x hx =>
    hfull hfail x (List.mem_append_right _ hx)
  have hsources : compiled.results.map (·.source) = plan.map (·.1) := by
    rw [← hentries, List.map_map]
    rfl
  rw [hresults, List.map_append, hsources]
  exact perm_planSources hplan

/-- **Sources in the source directory** all come into the plan. -/
theorem planSources_of_isWithin {sources : List Location} {outsiders : List CompileResult}
    (hwithin : ∀ l ∈ sources, l.isWithin p.project.sourceDir = true)
    (h : p.planSources d (sources.map Location.path) = .ok (outsiders, plan)) :
    outsiders = [] ∧ (plan.map (·.1)).Perm (sources.map Location.path) := by
  have hperm := perm_planSources h
  have hnil : outsiders = [] := by
    rw [List.eq_nil_iff_forall_not_mem]
    intro x hx
    have hnone := (destinationFor_of_planSources h).1 x hx
    have hmem : x.source ∈ sources.map Location.path :=
      hperm.mem_iff.mp (List.mem_append_left _ (List.mem_map_of_mem hx))
    obtain ⟨l, hl, hpath⟩ := List.mem_map.mp hmem
    rw [← hpath, Disk.locate_path] at hnone
    rcases Project.destinationFor_of_isWithin (hwithin l hl) with ⟨-, output, hok⟩ | ⟨-, e, herror⟩
    · rw [hok] at hnone
      cases hnone
    · rw [herror] at hnone
      cases hnone
  rw [hnil] at hperm
  exact ⟨hnil, hperm⟩

/-- **What is built of sources in the source directory** are the first entries of a plan for all of
them. -/
theorem exists_plan_of_buildSources {sources : List Location} {r : BuildResult}
    (hwithin : ∀ l ∈ sources, l.isWithin p.project.sourceDir = true)
    (h : p.buildSources c d (sources.map Location.path) = (d', .ok r)) :
    ∃ plan, r.results.map CompileResult.entry <+: plan ∧
      (plan.map (·.1)).Perm (sources.map Location.path) ∧
      ∀ x ∈ plan, p.project.destinationFor (d.locate x.1) = .ok (some x.2) := by
  obtain ⟨outsiders, plan, compiled, hplan, hexecute, hresults⟩ := exists_execute_of_buildSources h
  obtain ⟨rfl, hperm⟩ := planSources_of_isWithin hwithin hplan
  rw [hresults, List.nil_append]
  exact ⟨plan, prefix_execute hexecute, hperm, (destinationFor_of_planSources hplan).2⟩

/-! ### Builds that run -/

/-- Outputs can be named, and there is a directory for them if one is needed. -/
structure CanBuild (p : Pipeline) (d : Disk) : Prop where
  /-- No slash stands in the suffix of outputs. -/
  named : p.project.NamesOutputs
  /-- The target directory can be made. -/
  target : p.dryRun = false → (d.createDirAll p.project.targetDir.path).2 = .ok ()

theorem exists_execute_iff (hplan : plan ≠ []) :
    (∃ d' r, p.execute c d plan = (d', .ok r)) ↔
      (p.dryRun = false → (d.createDirAll p.project.targetDir.path).2 = .ok ()) := by
  have hempty : plan.isEmpty = false := by simpa using hplan
  unfold execute
  rw [hempty, if_neg Bool.false_ne_true]
  cases p.dryRun with
  | true => simp
  | false =>
    obtain ⟨made, result⟩ := d.createDirAll p.project.targetDir.path
    cases result with
    | error e => simp
    | ok => simp

/-- If outputs can be named, all sources in the source directory come into the plan. -/
theorem exists_planSources {sources : List Location} (hnamed : p.project.NamesOutputs)
    (hwithin : ∀ l ∈ sources, l.isWithin p.project.sourceDir = true) :
    ∃ plan, p.planSources d (sources.map Location.path) = .ok ([], plan) := by
  induction sources with
  | nil => exact ⟨[], rfl⟩
  | cons l sources ih =>
    obtain ⟨hl, hwithin⟩ := List.forall_mem_cons.mp hwithin
    obtain ⟨plan, hplan⟩ := ih hwithin
    rcases Project.destinationFor_of_isWithin hl with ⟨-, output, houtput⟩ | ⟨hnot, -⟩
    · refine ⟨(l.path, output) :: plan, ?_⟩
      rw [List.map_cons, planSources, Disk.locate_path, houtput, hplan]
    · exact absurd hnamed hnot

/-- **When some sources in the source directory can be built.** -/
theorem exists_buildSources_iff {sources : List Location} (hne : sources ≠ [])
    (hwithin : ∀ l ∈ sources, l.isWithin p.project.sourceDir = true) :
    (∃ d' r, p.buildSources c d (sources.map Location.path) = (d', .ok r)) ↔ p.CanBuild d := by
  obtain ⟨l, more, rfl⟩ := List.exists_cons_of_ne_nil hne
  rcases Project.destinationFor_of_isWithin (hwithin l List.mem_cons_self) with
    ⟨hnamed, -⟩ | ⟨hnot, e, he⟩
  · obtain ⟨plan, hplan⟩ := exists_planSources (d := d) hnamed hwithin
    have hplan' : plan ≠ [] := by
      rintro rfl
      have hperm := perm_planSources hplan
      exact List.cons_ne_nil _ _ hperm.nil_eq.symm
    have hbuild : (∃ d' r, p.buildSources c d ((l :: more).map Location.path) = (d', .ok r)) ↔
        ∃ d' r, p.execute c d plan = (d', .ok r) := by
      rw [buildSources, hplan]
      dsimp only
      obtain ⟨left, result⟩ := p.execute c d plan
      cases result with
      | error e => simp
      | ok r => simp
    rw [hbuild, exists_execute_iff hplan']
    exact ⟨fun htarget => ⟨hnamed, htarget⟩, CanBuild.target⟩
  · constructor
    · rintro ⟨d', r, hbuild⟩
      have hfail : ∃ e, p.planSources d ((l :: more).map Location.path) = .error e := by
        rw [List.map_cons, planSources, Disk.locate_path, he]
        exact ⟨_, rfl⟩
      obtain ⟨e', he'⟩ := hfail
      rw [buildSources, he'] at hbuild
      cases hbuild
    · exact fun hcan => absurd hcan.named hnot

/-! ### Nothing is skipped -/

theorem isSkipped_compileInTurn (hdry : p.dryRun = false) (plan : List PlanEntry) (d : Disk) :
    ∀ r ∈ (p.compileInTurn c d plan).2, r.isSkipped = false := by
  intro r hr
  rw [snd_compileInTurn] at hr
  obtain ⟨step, -, rfl⟩ := List.mem_map.mp hr
  cases hcss : c step.1 step.2.1 p.project.compileOptions with
  | error e =>
    rw [compileOne_of_error hdry hcss]
    rfl
  | ok css =>
    rw [compileOne_of_ok hdry hcss]
    cases (writeOutput step.1 step.2.2 css).2 <;> rfl

theorem isSkipped_compileTogether (hdry : p.dryRun = false) (s : Schedule) (plan : List PlanEntry)
    (d : Disk) : ∀ r ∈ (p.compileTogether c s d plan).2, r.isSkipped = false := by
  have hnone : ∀ d source, p.compileStage c d source ≠ .ended .skipped := by
    intro d source hskipped
    rcases p.compileStage_cases c d source with ⟨hdry', -⟩ | ⟨e, -, -, hstage⟩ |
      ⟨css, -, -, hstage⟩
    · exact Bool.false_ne_true (hdry.symm.trans hdry')
    · cases hstage.symm.trans hskipped
    · cases hstage.symm.trans hskipped
  have hstages := stage_interleave_ne_ended hnone (s.turns plan.length) plan d
  intro r hr
  obtain ⟨x, hx, hresult⟩ := List.mem_filterMap.mp hr
  rcases result?_cases hresult with ⟨file, css, -, rfl⟩ | ⟨e, -, rfl⟩ | ⟨outcome, hended, rfl⟩
  · rfl
  · rfl
  · have hne : outcome ≠ .skipped := by
      rintro rfl
      exact hstages x hx hended
    exact decide_eq_false hne

theorem isSkipped_execute (hdry : p.dryRun = false) {r : BuildResult}
    (h : p.execute c d plan = (d', .ok r)) : ∀ x ∈ r.results, x.isSkipped = false := by
  obtain ⟨made, hdone, -⟩ := exists_compileAll_of_execute h
  unfold compileAll at hdone
  split at hdone
  · have hturn := isSkipped_compileInTurn (c := c) hdry plan made
    rwa [hdone] at hturn
  · have htogether := isSkipped_compileTogether (c := c) hdry p.schedule plan made
    rwa [hdone] at htogether

theorem isSkipped_planSources {sources : List Path} {outsiders : List CompileResult}
    (h : p.planSources d sources = .ok (outsiders, plan)) :
    ∀ x ∈ outsiders, x.isSkipped = false := by
  induction sources generalizing outsiders plan with
  | nil =>
    cases h
    simp
  | cons source sources ih =>
    rw [planSources] at h
    split at h
    · cases h
    · cases h
    · rename_i hrest
      cases h
      exact List.forall_mem_cons.mpr ⟨rfl, ih hrest⟩
    · rename_i hrest
      cases h
      exact ih hrest

/-- **A build skips nothing**, unless it is a dry run. -/
theorem isSkipped_buildSources (hdry : p.dryRun = false) {sources : List Path} {r : BuildResult}
    (h : p.buildSources c d sources = (d', .ok r)) : ∀ x ∈ r.results, x.isSkipped = false := by
  obtain ⟨outsiders, plan, compiled, hplan, hexecute, hresults⟩ := exists_execute_of_buildSources h
  rw [hresults]
  intro x hx
  rcases List.mem_append.mp hx with hx | hx
  · exact isSkipped_planSources hplan x hx
  · exact isSkipped_execute hdry hexecute x hx

end Pipeline

end SheetGraph
