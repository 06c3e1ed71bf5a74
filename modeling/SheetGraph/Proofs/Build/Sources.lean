import SheetGraph.Proofs.Build.Independence

/-!
# Builds of the sources of a plan

A plan names the output of each of its sources.  Where sources are given instead, their outputs are
looked up one by one, and for a source of a plan the same path is found
(`Pipeline.destinationFor_of_mem_plan`): the search strips the source directory from a location and
puts it back, and the look-up strips it from the location that the path leads to.  So a build of all
main sources is one of the sources of its plan (`Pipeline.buildSources_plan`).
-/

namespace SheetGraph

variable {d : Disk}

namespace Pipeline

variable {p : Pipeline} {c : Compiler} {plan : List PlanEntry}

/-- **The output that is planned for a source** is the one that is looked up for its path. -/
theorem destinationFor_of_mem_plan (h : p.plan d = .ok plan) :
    ∀ x ∈ plan, p.project.destinationFor (d.locate x.1) = .ok (some x.2) := by
  intro x hx
  obtain ⟨options, sources, hoptions, hsources, hplan⟩ := exists_sourcesUnder_of_plan h
  rw [finderOptions_hashSuffix hoptions] at hplan
  obtain ⟨relative, hrelative, hentry⟩ := exists_of_mem_mapM hplan hx
  obtain ⟨l, hl, hfrom⟩ := List.mem_filterMap.mp hrelative
  obtain ⟨names, hnames, rfl⟩ := Option.map_eq_some_iff.mp hfrom
  obtain ⟨dirs, n, rfl, -⟩ := exists_entry_of_mem_sourcesUnder hsources hl
  rw [← Location.below_concat, Location.from?_eq_some_iff] at hnames
  obtain rfl : dirs ++ [n] = names := List.append_cancel_left (congrArg Location.names hnames)
  cases houtput : destination (Path.ofNames (dirs ++ [n])) (some p.project.targetDir.path)
      p.project.settings.output.hashSuffix with
  | error e =>
    rw [houtput] at hentry
    cases hentry
  | ok output =>
    rw [houtput, Location.join_ofNames] at hentry
    obtain rfl := Except.ok.inj hentry
    rw [Disk.locate_path, ← Location.below_concat, Project.destinationFor_below, houtput]
    rfl

/-- **Planning the sources of a plan** gives the plan. -/
theorem planSources_map_fst
    (h : ∀ x ∈ plan, p.project.destinationFor (d.locate x.1) = .ok (some x.2)) :
    p.planSources d (plan.map Prod.fst) = .ok ([], plan) := by
  induction plan with
  | nil => rfl
  | cons x plan ih =>
    obtain ⟨hx, hplan⟩ := List.forall_mem_cons.mp h
    rw [List.map_cons, planSources, hx, ih hplan]

/-- A build of sources that all come into the plan carries the plan out. -/
theorem buildSources_of_planSources {sources : List Path}
    (h : p.planSources d sources = .ok ([], plan)) :
    p.buildSources c d sources = p.execute c d plan := by
  rw [buildSources, h]
  dsimp only
  split <;> rename_i hexecute
  · exact hexecute.symm
  · exact hexecute.symm

/-- **A full build is a build of the sources of its plan**: both look up the same outputs, leave the
same disk and come to the same results, and so do two pipelines that differ in jobs and schedule, as
long as both compile one source after the other. -/
theorem buildSources_plan (hplan : p.plan d = .ok plan) :
    (∀ x ∈ plan, p.project.destinationFor (d.locate x.1) = .ok (some x.2)) ∧
    (∀ c, p.buildSources c d (plan.map Prod.fst) = p.build c d) ∧
    ∀ q : Pipeline, q.project = p.project → q.dryRun = p.dryRun → q.failFast = p.failFast →
      p.isSequential plan = true → q.isSequential plan = true →
      ∀ c, q.buildSources c d (plan.map Prod.fst) = p.build c d := by
  have hlookup := destinationFor_of_mem_plan hplan
  refine ⟨hlookup, fun c => ?_, fun q hproject hdry hfast hp hq c => ?_⟩
  · rw [buildSources_of_planSources (planSources_map_fst hlookup), build, hplan]
  · have hlookup' : ∀ x ∈ plan, q.project.destinationFor (d.locate x.1) = .ok (some x.2) := by
      rw [hproject]
      exact hlookup
    rw [buildSources_of_planSources (planSources_map_fst hlookup'), build, hplan]
    exact execute_congr hproject hdry hfast hp hq d

/-- Two sources that are compiled one after the other, since a failure would end the build. -/
theorem buildSources_plan_cover : ∃ plan,
    sheetPipeline.plan (sheetDisk coverScss indexScss) = .ok plan ∧
    (∀ x ∈ plan, sheetPipeline.project.destinationFor
      ((sheetDisk coverScss indexScss).locate x.1) = .ok (some x.2)) ∧
    { sheetPipeline with failFast := true, schedule := .reversed }.buildSources
        (fun _ => pathCompiler) (sheetDisk coverScss indexScss) (plan.map Prod.fst)
      = { sheetPipeline with failFast := true, jobs := 1 }.build (fun _ => pathCompiler)
          (sheetDisk coverScss indexScss) := by
  obtain ⟨plan, hplan, -⟩ := plan_cover_index
  obtain ⟨hlookup, -, hsame⟩ := buildSources_plan
    (p := { sheetPipeline with failFast := true, jobs := 1 }) hplan
  exact ⟨plan, hplan, hlookup, hsame { sheetPipeline with failFast := true, schedule := .reversed }
    rfl rfl rfl rfl rfl _⟩

end Pipeline

end SheetGraph
