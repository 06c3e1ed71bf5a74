import SheetGraph.Proofs.Build.Footprint
import SheetGraph.Proofs.Watch.BrokenLinks

/-!
# Nothing is built without a reason

A batch that is answered with a build compiles no source twice, and none that no file of the batch
calls for (`CalledFor`).  On the disk it makes directories and writes to the outputs of these
sources, and leaves all else as it is (`handleChanges_minimal`).

A write follows links.  So in a tree without links the files written are the outputs themselves; but
where a link stands in the place of an output, the file behind it is written
(`linked_output_written`).
-/

namespace SheetGraph.WatchHandler

variable {p : Pipeline} {h h' : WatchHandler} {c : Compiler} {d d' : Disk} {files : List Location}
  {l m : Location} {r : BuildResult}

/-- Why a batch calls for a source; `h` is the handler before the batch and `h'` the one that has
indexed the project again. -/
inductive CalledFor (h h' : WatchHandler) (d : Disk) (files : List Location) (m : Location) : Prop
  /-- It has been edited itself, and lies in no library directory. -/
  | edited : m ∈ files → d.contains m.path = true →
      (∀ lib ∈ h.project.libraryDirs, m.isWithin lib = false) → CalledFor h h' d files m
  /-- It imports a file that has been edited. -/
  | imports {l : Location} : l ∈ files → d.contains l.path = true → h'.graph.Reaches m l →
      CalledFor h h' d files m
  /-- It is there, and imported a file that is gone. -/
  | imported {l : Location} : l ∈ files → d.contains l.path = false → d.contains m.path = true →
      h.graph.Reaches m l → CalledFor h h' d files m

theorem not_isWithin_of_role? (hrole : h.role? l = some .project) :
    ∀ lib ∈ h.project.libraryDirs, l.isWithin lib = false := by
  unfold role? at hrole
  split at hrole
  · cases hrole
  · rename_i hnone
    simpa using hnone

/-- An edit calls for nothing without such a reason. -/
theorem Affects.calledFor (haffects : Affects h h' d l m) (hl : l ∈ files) :
    h.CalledFor h' d files m := by
  obtain ⟨-, -, role, hrole, ⟨hthere, ⟨rfl, rfl⟩ | hreaches⟩ | ⟨hgone, hthere, -, hreaches⟩⟩ :=
    haffects
  · exact .edited hl hthere (not_isWithin_of_role? hrole)
  · exact .imports hl hthere hreaches
  · exact .imported hl hgone hthere hreaches

/-- **The plan of a batch**: its sources are all different and called for, each has its output, and
the results are those of the first of them. -/
theorem exists_plan_of_rebuilt (hwf : h.graph.WellFormed)
    (hrebuilt : h.handleChanges c d files = (h', d', .ok (.rebuilt r))) :
    ∃ plan : List PlanEntry, r.results.map CompileResult.entry <+: plan ∧
      (plan.map (·.1)).Nodup ∧ ∀ x ∈ plan, ∃ m, x.1 = m.path ∧
        h.project.destinationFor m = .ok (some x.2) ∧ ∃ l ∈ files, Affects h h' d l m := by
  obtain ⟨-, hindex, sources, hsources, hbuild⟩ := handleChanges_eq_rebuilt_iff.mp hrebuilt
  have hmem : ∀ m, m ∈ sources ↔ ∃ l ∈ files, Affects h h' d l m := fun m =>
    mem_sources_iff hwf hindex hsources
  have hwithin : ∀ m ∈ sources, m.isWithin h.project.sourceDir = true := by
    intro m hm
    obtain ⟨l, -, -, hmain, -⟩ := (hmem m).mp hm
    obtain ⟨names, hbelow, -⟩ := isMainSource_iff_exists.mp hmain
    exact Location.isWithin_iff.mpr ⟨names, hbelow⟩
  rw [(continues_of_index hindex).pipeline] at hbuild
  obtain ⟨plan, hfront, hperm, hplan⟩ := Pipeline.exists_plan_of_buildSources hwithin hbuild
  refine ⟨plan, hfront, ?_, fun x hx => ?_⟩
  · exact hperm.nodup_iff.mpr
      ((nodup_sourcesForAll hsources List.nodup_nil).map Location.path_injective)
  · obtain ⟨m, hm, hpath⟩ := List.mem_map.mp (hperm.mem_iff.mp (List.mem_map_of_mem hx))
    have houtput := hplan x hx
    rw [← hpath, Disk.locate_path] at houtput
    exact ⟨m, hpath.symm, houtput, (hmem m).mp hm⟩

theorem footprint_handleChanges
    (hrebuilt : h.handleChanges c d files = (h', d', .ok (.rebuilt r))) :
    d.Footprint (r.results.map (·.destination)) d' := by
  obtain ⟨-, -, sources, -, hbuild⟩ := handleChanges_eq_rebuilt_iff.mp hrebuilt
  exact Pipeline.footprint_buildSources hbuild

/-- **What a batch compiles and what it writes**, in any state of the handler and on any disk.  No
two results are of the same source.  Each is of a main source that the batch calls for, and bears
the output of that source.  What has changed on the disk is a new directory, or the file that one of
these outputs leads to, and that is the output itself if there are no links. -/
theorem handleChanges_minimal (hreached : Reached p h)
    (hrebuilt : h.handleChanges c d files = (h', d', .ok (.rebuilt r))) :
    (r.results.map (·.source)).Nodup ∧
    (∀ x ∈ r.results, ∃ m, x.source = m.path ∧ h.isMain m = true ∧
      (m.isStylesheet = true ∧ m.isPartial = false ∧
        (∀ lib ∈ h.project.libraryDirs, m.isWithin lib = false) ∧
        ∃ names, m = h.project.sourceDir.below names ∧
          ∀ g ∈ h.options.excludes, g.matchesText (Path.ofNames names).text = false) ∧
      h.project.destinationFor m = .ok (some x.destination) ∧ h.CalledFor h' d files m) ∧
    ∀ k, d'.tree.get? k ≠ d.tree.get? k →
      d.tree.get? k = none ∧ d'.tree.get? k = some .directory ∨
        ∃ x ∈ r.results, ∃ content, d'.find x.destination = .ok (k, .file content) ∧
          (d.tree.LinkFree → k = d.locate x.destination) := by
  obtain ⟨plan, hfront, hnodup, hplan⟩ := exists_plan_of_rebuilt hreached.wellFormed hrebuilt
  -- Each result is one of an entry of the plan, and each entry is there because of an edit.
  have hentry : ∀ x ∈ r.results, ∃ m, x.source = m.path ∧
      h.project.destinationFor m = .ok (some x.destination) ∧ ∃ l ∈ files, Affects h h' d l m :=
    fun x hx => hplan x.entry (hfront.subset (List.mem_map_of_mem hx))
  refine ⟨?_, fun x hx => ?_, fun k hk => ?_⟩
  · have hfirst : r.results.map (·.source) <+: plan.map (·.1) := by
      have hmapped := hfront.map Prod.fst
      rwa [List.map_map] at hmapped
    exact hnodup.sublist hfirst.sublist
  · obtain ⟨m, hpath, houtput, l, hl, haffects⟩ := hentry x hx
    have hmain := haffects.2.1
    obtain ⟨names, hbelow, hlibs, hname, hpartial, hallowed⟩ := isMainSource_iff_exists.mp hmain
    rw [finderOptions_excludedDirs hreached.project.2] at hlibs
    exact ⟨m, hpath, hmain, ⟨hname, hpartial, hlibs, names, hbelow, hallowed⟩, houtput,
      haffects.calledFor hl⟩
  · have hfootprint := footprint_handleChanges hrebuilt
    rcases hfootprint.changed k hk with hdir | ⟨q, hq, content, hfind⟩
    · exact Or.inl hdir
    · obtain ⟨x, hx, rfl⟩ := List.mem_map.mp hq
      obtain ⟨m, -, houtput, -⟩ := hentry x hx
      have habsolute := Project.isAbsolute_of_destinationFor houtput
      refine Or.inr ⟨x, hx, content, hfind, fun hlinks => ?_⟩
      have hplace := Disk.eq_locate_of_find (hfootprint.linkFree hlinks) habsolute hfind
      rwa [Disk.locate, hfootprint.cwd_eq] at hplace

/-! ### A batch of one edit -/

/-- The output of the first source. -/
def outputA : Location := ⟨[⟨"css", by decide⟩, ⟨"a.css", by decide⟩]⟩

/-- An edit of one of two sources compiles that one, and what it leaves behind is a directory and
its output. -/
theorem handleChanges_minimal_pair : ∃ d',
    (pairHandler [] false).handleChanges blankCompiler pairEdited [pairA]
      = (pairHandler [] false, d', .ok (.rebuilt ⟨[⟨pairA.path, outputA.path, .success⟩]⟩)) ∧
    (pairHandler [] false).CalledFor (pairHandler [] false) pairEdited [pairA] pairA ∧
    ∀ k, d'.tree.get? k ≠ pairEdited.tree.get? k →
      pairEdited.tree.get? k = none ∧ d'.tree.get? k = some .directory ∨ k = outputA := by
  obtain ⟨hindex, -⟩ := index_pairEdited [] false (by decide +kernel)
  have hsources : (pairHandler [] false).sourcesForAll pairEdited []
      ((pairHandler [] false).changesOf pairEdited [] [pairA]) = .ok [pairA] := by
    decide +kernel
  have hrebuilt := handleChanges_eq_rebuilt (c := blankCompiler)
    (r := ⟨[⟨pairA.path, outputA.path, .success⟩]⟩) hindex (by decide +kernel) hsources
    (by decide +kernel)
  obtain ⟨-, hresults, hchanged⟩ := handleChanges_minimal reached_pairHandler hrebuilt
  refine ⟨_, hrebuilt, ?_, fun k hk => ?_⟩
  · obtain ⟨m, hpath, -, -, -, hcalled⟩ := hresults _ (List.mem_singleton_self _)
    rwa [← Location.path_injective hpath] at hcalled
  · refine (hchanged k hk).imp_right ?_
    rintro ⟨x, hx, content, -, hplace⟩
    rw [List.mem_singleton.mp hx] at hplace
    have hk := hplace (FileTree.linkFree_of_all (by decide +kernel))
    rwa [Disk.locate_path] at hk

/-! ### An output that is a link -/

/-- The file behind the link in the place of the output. -/
def behindA : Location := ⟨[⟨"css", by decide⟩, ⟨"other.css", by decide⟩]⟩

/-- The two sources, and a link to another file of the target directory in the place of the first
output. -/
def linkedOutput : Disk where
  tree := ((pairEdited.tree.put outputA.parent .directory).put behindA (.file "old".toUTF8)).put
    outputA (.link ⟨"other.css"⟩)
  cwd := .root

/-- The write of an output goes through a link, to a file that is the output of no source
compiled. -/
theorem linked_output_written :
    Reached (pairHandler [] false).pipeline (pairHandler [] false) ∧ ∃ d' r,
    (pairHandler [] false).handleChanges blankCompiler linkedOutput [pairA]
      = (pairHandler [] false, d', .ok (.rebuilt r)) ∧
    behindA.isWithin (pairHandler [] false).project.targetDir = true ∧
    (∀ x ∈ r.results, linkedOutput.locate x.destination ≠ behindA) ∧
    linkedOutput.tree.get? behindA = some (.file "old".toUTF8) ∧
    d'.tree.get? behindA = some (.file "".toUTF8) := by
  have hindex : (pairHandler [] false).index linkedOutput = .ok (pairHandler [] false) :=
    (index_pairHandler (a := "x".toUTF8) (b := "".toUTF8) (by decide +kernel) (by decide +kernel)
      (by decide +kernel) (by decide +kernel)).1
  have hsources : (pairHandler [] false).sourcesForAll linkedOutput []
      ((pairHandler [] false).changesOf linkedOutput [] [pairA]) = .ok [pairA] := by
    decide +kernel
  have hrebuilt := handleChanges_eq_rebuilt (c := blankCompiler)
    (r := ⟨[⟨pairA.path, outputA.path, .success⟩]⟩) hindex (by decide +kernel) hsources
    (by decide +kernel)
  refine ⟨reached_pairHandler, _, _, hrebuilt, by decide +kernel, by decide +kernel, rfl, ?_⟩
  decide +kernel

end SheetGraph.WatchHandler
