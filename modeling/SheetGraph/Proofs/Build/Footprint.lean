import SheetGraph.Proofs.Build.Overlap
import SheetGraph.Proofs.Build.Results
import SheetGraph.Proofs.Build.Writing

/-!
# What a build changes

Whatever the compiler says and whatever turns the compilations take, a build adds directories and
writes the outputs of the sources that succeed, and changes nothing else.  One source does so
(`Pipeline.afterWrites_compileOne`), so those that are compiled one after the other do
(`Pipeline.afterWrites_compileInTurn`).  Compilations that overlap may leave something else in an
output that they share, but they change no more (`Pipeline.footprint_compileTogether`), and so it is
for a whole build (`Pipeline.footprint_compileAll`, `Pipeline.footprint_buildSources`).

Where no links are on the way to the outputs, the files written are in the places of the outputs
(`OutputsAdded`, `Pipeline.exists_added_execute`).
-/

namespace SheetGraph

namespace Pipeline

variable {p : Pipeline} {c : Compiler} {d d' : Disk} {plan : List PlanEntry} {r : BuildResult}

/-! ### One source -/

/-- **Writing an output** fails with nothing but directories made, or makes some and then writes the
file. -/
theorem writeOutput_cases (d : Disk) (destination : Path) (css : String) :
    (∃ made e, d.DirsAdded made ∧ writeOutput d destination css = (made, .error e)) ∨
      ∃ made left, d.DirsAdded made ∧ made.write destination css.toUTF8 = .ok left ∧
        writeOutput d destination css = (left, .ok ()) := by
  have hadded := dirsAdded_makeDirectory d destination
  rw [writeOutput]
  cases hmade : makeDirectory d destination with
  | mk made done =>
    rw [hmade] at hadded
    cases done with
    | error e => exact Or.inl ⟨made, e, hadded, rfl⟩
    | ok done =>
      dsimp only
      cases hwrite : made.write destination css.toUTF8 with
      | error e => exact Or.inl ⟨made, e, hadded, rfl⟩
      | ok left => exact Or.inr ⟨made, left, hadded, hwrite, rfl⟩

/-- What is written for an entry on a disk, if it succeeds. -/
def written? (p : Pipeline) (c : Compiler) (step : Disk × PlanEntry) : Option (Path × ByteArray) :=
  if (p.compileOne c step.1 step.2).2.isCompiled then
    match c step.1 step.2.1 p.project.compileOptions with
    | .ok css => some (step.2.2, css.toUTF8)
    | .error _ => none
  else none

/-- **One source** adds directories, and writes its output if it succeeds. -/
theorem afterWrites_compileOne {entry : PlanEntry}
    (hstart : d.tree.isDirectory (d.start entry.2) = true) :
    d.AfterWrites (p.written? c (d, entry)).toList (p.compileOne c d entry).1 := by
  unfold written?
  dsimp only
  cases hdry : p.dryRun with
  | true =>
    rw [compileOne_of_dryRun hdry]
    exact .refl d
  | false =>
    cases hcss : c d entry.1 p.project.compileOptions with
    | error e =>
      rw [compileOne_of_error hdry hcss]
      exact .refl d
    | ok css =>
      rw [compileOne_of_ok hdry hcss]
      rcases writeOutput_cases d entry.2 css with
        ⟨made, e, hadded, hwrite⟩ | ⟨made, left, hadded, hleft, hwrite⟩
      · rw [hwrite]
        exact .of_dirsAdded hadded
      · have hdirs := Disk.AfterWrites.of_dirsAdded hadded
        rw [hwrite]
        exact hdirs.trans (.of_write (hdirs.isDirectory_start hstart) hleft)

/-! ### Plans -/

/-- **Whatever ends a build**, it has added directories and written the outputs of the sources that
succeeded. -/
theorem afterWrites_compileInTurn (plan : List PlanEntry) (d : Disk)
    (hstart : ∀ x ∈ plan, d.tree.isDirectory (d.start x.2) = true) :
    d.AfterWrites ((p.steps c d plan).filterMap (p.written? c)) (p.compileInTurn c d plan).1 := by
  induction plan generalizing d with
  | nil => exact .refl d
  | cons entry plan ih =>
    obtain ⟨hentry, hstart⟩ := List.forall_mem_cons.mp hstart
    have hone := afterWrites_compileOne (p := p) (c := c) hentry
    have hwrites : ∀ more, ((d, entry) :: more).filterMap (p.written? c)
        = (p.written? c (d, entry)).toList ++ more.filterMap (p.written? c) := fun more => by
      rw [List.filterMap_cons]
      cases p.written? c (d, entry) <;> rfl
    rw [steps, compileInTurn]
    dsimp only
    rw [hwrites]
    split
    · rw [List.filterMap_nil, List.append_nil]
      exact hone
    · exact hone.trans (ih _ fun x hx => hone.isDirectory_start (hstart x hx))

theorem isCompiled_of_written? {step : Disk × PlanEntry} {w : Path × ByteArray}
    (h : p.written? c step = some w) :
    (p.compileOne c step.1 step.2).2.isCompiled = true ∧ w.1 = step.2.2 := by
  unfold written? at h
  split at h
  · rename_i hcompiled
    split at h
    · cases h
      exact ⟨hcompiled, rfl⟩
    · cases h
  · cases h

theorem footprint_compileInTurn (plan : List PlanEntry) (d : Disk)
    (hstart : ∀ x ∈ plan, d.tree.isDirectory (d.start x.2) = true) :
    d.Footprint (BuildResult.mk (p.compileInTurn c d plan).2).outputs
      (p.compileInTurn c d plan).1 := by
  refine (afterWrites_compileInTurn plan d hstart).footprint.mono fun q hq => ?_
  obtain ⟨w, hw, rfl⟩ := List.mem_map.mp hq
  obtain ⟨step, hstep, hsome⟩ := List.mem_filterMap.mp hw
  obtain ⟨hcompiled, hpath⟩ := isCompiled_of_written? hsome
  refine List.mem_map.mpr ⟨(p.compileOne c step.1 step.2).2, List.mem_filter.mpr
    ⟨?_, hcompiled⟩, ?_⟩
  · rw [snd_compileInTurn]
    exact List.mem_map_of_mem hstep
  · rw [hpath, destination_compileOne]

/-- **Whatever turns compilations take**, they add directories and write the outputs of the sources
that succeed. -/
theorem footprint_compileTogether (s : Schedule) (plan : List PlanEntry) (d : Disk)
    (hstart : ∀ x ∈ plan, d.tree.isDirectory (d.start x.2) = true) :
    d.Footprint (BuildResult.mk (p.compileTogether c s d plan).2).outputs
      (p.compileTogether c s d plan).1 := by
  have hover := overlapping_interleave (p := p) (c := c) (s.turns plan.length) hstart
  refine ⟨hover.cwd_eq, hover.grows, fun k hk => ?_⟩
  by_cases hholds : ∃ x ∈ (p.interleave c (s.turns plan.length) d (plan.map .start)).2,
      x.holds k = true
  · obtain ⟨x, hx, hxk⟩ := hholds
    obtain ⟨f, hf, rfl⟩ := Compilation.holds_iff.mp hxk
    obtain ⟨content, hfind⟩ := hover.leads x hx f hf
    -- It has come to its end, so it has written what it has opened.
    obtain ⟨hresult, -⟩ := result?_of_file? (stepsLeft_of_fair s d plan x hx) hf
    refine Or.inr ⟨x.entry.2, List.mem_map.mpr ⟨_, List.mem_filter.mpr
      ⟨List.mem_filterMap.mpr ⟨x, hx, hresult⟩, rfl⟩, rfl⟩, content, hfind⟩
  · rcases hover.kept k fun x hx => Bool.eq_false_iff.mpr fun hxk => hholds ⟨x, hx, hxk⟩ with
      hsame | hdir
    · exact absurd hsame hk
    · exact Or.inl hdir

/-- **All entries compiled**: directories are added, and the outputs of the sources that succeed are
written. -/
theorem footprint_compileAll (plan : List PlanEntry) (d : Disk)
    (hstart : ∀ x ∈ plan, d.tree.isDirectory (d.start x.2) = true) :
    d.Footprint (BuildResult.mk (p.compileAll c d plan).2).outputs (p.compileAll c d plan).1 := by
  unfold compileAll
  split
  · exact footprint_compileInTurn plan d hstart
  · exact footprint_compileTogether p.schedule plan d hstart

/-! ### Builds -/

/-- A plan that cannot be carried out has made directories at most. -/
theorem dirsAdded_of_execute {e : BuildError} (h : p.execute c d plan = (d', .error e)) :
    d.DirsAdded d' := by
  unfold execute at h
  split at h
  · cases h
  · have hdirs : d.DirsAdded
        (if p.dryRun then (d, .ok ()) else d.createDirAll p.project.targetDir.path).1 := by
      split
      · exact .refl d
      · exact Disk.dirsAdded_createDirAll d _
    dsimp only at h
    split at h
    · cases h
      exact hdirs
    · cases h

/-- **A plan that is carried out** adds directories and writes the outputs of the sources that
succeed. -/
theorem footprint_execute (hstart : ∀ x ∈ plan, d.tree.isDirectory (d.start x.2) = true)
    (h : p.execute c d plan = (d', .ok r)) : d.Footprint r.outputs d' := by
  obtain ⟨made, hdone, hadded, -⟩ := exists_compileAll_of_execute h
  have hfootprint := footprint_compileAll (p := p) (c := c) plan made fun x hx =>
    Disk.isDirectory_start_of_grows hadded.grows hadded.cwd_eq (hstart x hx)
  rw [hdone] at hfootprint
  exact .of_dirsAdded hadded hfootprint

theorem mem_destinations_of_mem_outputs {q : Path} (hq : q ∈ r.outputs) :
    q ∈ r.results.map (·.destination) := by
  obtain ⟨x, hx, rfl⟩ := List.mem_map.mp hq
  exact List.mem_map_of_mem (List.mem_filter.mp hx).1

theorem isDirectory_start_of_isAbsolute {q : Path} (hq : q.isAbsolute = true) (d : Disk) :
    d.tree.isDirectory (d.start q) = true := by
  rw [Disk.start_of_isAbsolute hq]
  exact FileTree.isDirectory_root d.tree

/-- **A build of given sources** adds directories and writes to the destinations of its results. -/
theorem footprint_buildSources {sources : List Path}
    (h : p.buildSources c d sources = (d', .ok r)) :
    d.Footprint (r.results.map (·.destination)) d' := by
  obtain ⟨outsiders, plan, compiled, hplan, hexecute, hresults⟩ := exists_execute_of_buildSources h
  have hstart : ∀ x ∈ plan, d.tree.isDirectory (d.start x.2) = true := fun x hx =>
    isDirectory_start_of_isAbsolute
      (Project.isAbsolute_of_destinationFor ((destinationFor_of_planSources hplan).2 x hx)) d
  refine (footprint_execute hstart hexecute).mono fun q hq => ?_
  rw [hresults, List.map_append]
  exact List.mem_append_right _ (mem_destinations_of_mem_outputs hq)

end Pipeline

/-! ### Outputs in their places -/

variable {d d' : Disk} {r target : Location} {outputs : List Output}

/-- Nothing is lost, and what has changed is a directory or one of the outputs. -/
structure OutputsAdded (d : Disk) (r : Location) (outputs : List Output) (d' : Disk) : Prop where
  grows : d.tree.Grows d'.tree
  changed : ∀ k, d'.tree.get? k ≠ d.tree.get? k →
    d'.tree.get? k = some .directory ∨
      ∃ x ∈ outputs, x.name? ≠ none ∧ k = r.below x.names ∧
        ∃ content, d'.tree.get? k = some (.file content)

/-- **What is written** is in the places of the outputs, if no link is on the way to them. -/
theorem OutputsAdded.of_footprint (hready : d'.Ready target r outputs)
    (h : d.Footprint (outputs.map (Output.path · target)) d') : OutputsAdded d r outputs d' := by
  refine ⟨h.grows, fun k hk => ?_⟩
  rcases h.changed k hk with ⟨-, hdir⟩ | ⟨q, hq, content, hfind⟩
  · exact Or.inl hdir
  · obtain ⟨x, hx, rfl⟩ := List.mem_map.mp hq
    obtain ⟨hname, hplace⟩ := hready.eq_of_find hx hfind
    exact Or.inr ⟨x, hx, hname, hplace, content, (Disk.find_eq_ok_iff.mp hfind).2⟩

theorem Disk.Ready.of_footprint {paths : List Path} (hready : d.Ready target r outputs)
    (h : d.Footprint paths d') : d'.Ready target r outputs :=
  ⟨Disk.find_directory_of_grows h.grows hready.find,
    fun x hx => (hready.links x hx).of_links h.link⟩

namespace Pipeline

variable {p : Pipeline} {c : Compiler}

/-- **A plan that is carried out** makes the target directory, and adds directories and outputs. -/
theorem exists_added_execute {xs : List Planned} {result : BuildResult} (hdry : p.dryRun = false)
    (hne : xs ≠ [])
    (hlinks : p.project.NoLinkToOutputs (xs.map (Planned.entry p.project.targetDir)) d)
    (h : p.execute c d (xs.map (Planned.entry p.project.targetDir)) = (d', .ok result)) :
    ∃ made r, d.createDirAll p.project.targetDir.path = (made, .ok ()) ∧
      made.Ready p.project.targetDir r (xs.map Planned.output) ∧
      d'.Ready p.project.targetDir r (xs.map Planned.output) ∧
      OutputsAdded d r (xs.map Planned.output) d' := by
  have hdests : (xs.map (Planned.entry p.project.targetDir)).map (·.2)
      = (xs.map Planned.output).map (Output.path · p.project.targetDir) := by
    rw [List.map_map, List.map_map]
    rfl
  have hstart : ∀ d : Disk, ∀ x ∈ xs.map (Planned.entry p.project.targetDir),
      d.tree.isDirectory (d.start x.2) = true := by
    intro d x hx
    obtain ⟨y, -, rfl⟩ := List.mem_map.mp hx
    exact isDirectory_start_of_isAbsolute (Location.isAbsolute_pathTo _ _) d
  obtain ⟨made, hdone, hadded, hmade⟩ := exists_compileAll_of_execute h
  have hmade := hmade hdry (by simpa using hne)
  obtain ⟨r, hready⟩ := Disk.exists_ready (fun r => hlinks.noLinkOnWay) hmade
  have hfootprint := footprint_compileAll (p := p) (c := c) _ made (hstart made)
  rw [hdone] at hfootprint
  have hready' := hready.of_footprint hfootprint
  refine ⟨made, r, hmade, hready, hready', .of_footprint hready' ?_⟩
  -- The outputs are those of entries of the plan.
  refine (footprint_execute (hstart d) h).mono fun q hq => ?_
  obtain ⟨x, hx, hpath⟩ := List.mem_map.mp (mem_destinations_of_mem_outputs hq)
  rw [← hdests]
  exact List.mem_map.mpr ⟨x.entry, (prefix_execute h).subset (List.mem_map_of_mem hx), hpath⟩

end Pipeline

end SheetGraph
