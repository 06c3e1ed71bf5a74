import SheetGraph.Project
import SheetGraph.Proofs.Graph.Indexing

/-!
# More library directories

The library directories of a project with overrides are its own, with more behind them
(`Project.exists_libraryDirs_override`).  A target that its own directories decide, because one of
them holds a candidate, is not looked up in those behind them (`resolveTarget_append`).  So neither
the files of a list of targets nor an ambiguity among them changes (`resolve_append`).

For an indexing that succeeds this holds of every file on the way: the traversal then reads the same
files, finds the same imports in each, and makes the same graph (`inspect_more_libraries`).
-/

namespace SheetGraph

/-! ### The directories -/

/-- The known paths stay in front. -/
theorem prefix_appendPaths (known more : List Path) : known <+: appendPaths known more := by
  induction more generalizing known with
  | nil => exact List.prefix_refl known
  | cons p more ih =>
    rw [appendPaths]
    split
    · exact ih known
    · exact (List.prefix_append known [p]).trans (ih (known ++ [p]))

/-- The project with overrides in the place of its settings. -/
def Project.override (p : Project) (o : Overrides) : Project :=
  { p with settings := p.settings.override o }

theorem Project.exists_libraryDirs_override (p : Project) (o : Overrides) :
    ∃ more, (p.override o).libraryDirs = p.libraryDirs ++ more := by
  obtain ⟨paths, hpaths⟩ := prefix_appendPaths p.settings.project.libraryPaths o.libraryPaths
  refine ⟨paths.map p.resolvePath, ?_⟩
  calc (p.override o).libraryDirs
      = (appendPaths p.settings.project.libraryPaths o.libraryPaths).map p.resolvePath := rfl
    _ = p.libraryDirs ++ paths.map p.resolvePath := by
      rw [← hpaths, List.map_append]
      rfl

/-! ### Targets -/

section Targets

variable {d : Disk} {source l : Location} {target : String} {targets : List String}
  {bases : List SearchBase} {libraries files : List Location}

/-- **A target that is decided stays so**: it is not looked up in the directories behind. -/
theorem resolveTarget_append (more : List SearchBase)
    (h : resolveTarget d source target bases ≠ .error (.unresolvable target source.path)) :
    resolveTarget d source target (bases ++ more) = resolveTarget d source target bases := by
  induction bases with
  | nil => exact absurd rfl h
  | cons base bases ih =>
    rw [resolveTarget] at h
    rw [List.cons_append, resolveTarget, resolveTarget]
    cases hmatch : matchCandidates d base.directory (candidatePaths target) with
    | none =>
      rw [hmatch] at h
      exact ih h
    | one l => rfl
    | many ls => rfl

theorem searchBases_append (d : Disk) (source : Location) (libraries more : List Location) :
    d.searchBases source (libraries ++ more)
      = d.searchBases source libraries ++ more.map .of := by
  rw [Disk.searchBases, Disk.searchBases, List.map_append, List.cons_append]

/-- **Targets that are decided stay so**, up to the first that is ambiguous. -/
theorem resolve_append (more : List Location)
    (h : ∀ target, resolve d source targets libraries ≠
      .error (.unresolvable target source.path)) :
    resolve d source targets (libraries ++ more) = resolve d source targets libraries := by
  unfold resolve at h ⊢
  induction targets with
  | nil => rfl
  | cons target targets ih =>
    rw [mapM_cons_eq] at h
    rw [mapM_cons_eq, mapM_cons_eq]
    have hhead : resolveTarget d source target (d.searchBases source (libraries ++ more))
        = resolveTarget d source target (d.searchBases source libraries) := by
      rw [searchBases_append]
      refine resolveTarget_append (more.map .of) fun hnone => ?_
      rw [hnone] at h
      exact h target rfl
    rw [hhead]
    cases htarget : resolveTarget d source target (d.searchBases source libraries) with
    | error e => rfl
    | ok l =>
      rw [htarget] at h
      have hrest := ih fun target' hnone => by
        rw [hnone] at h
        exact h target' rfl
      dsimp only
      rw [hrest]

/-- What can be read of a file is read with more directories too. -/
theorem readImports_append (more : List Location) (h : readImports d libraries l = .ok files) :
    readImports d (libraries ++ more) l = .ok files := by
  obtain ⟨text, targets, found, htext, htargets, hfound, rfl⟩ := readImports_eq_ok_iff.mp h
  refine readImports_eq_ok_iff.mpr ⟨text, targets, found, htext, htargets, ?_, rfl⟩
  rw [resolve_append more fun target hnone => ?_, hfound]
  rw [hfound] at hnone
  cases hnone

end Targets

/-! ### Indexings -/

/-- Another way from node to node that is the same at the nodes visited visits the same nodes. -/
theorem Preorder.congr {α : Type} {next next' : α → List α} {known : α → Bool}
    {seen todo visited : List α} (h : Preorder next known seen todo visited)
    (hnext : ∀ a ∈ visited, next' a = next a) : Preorder next' known seen todo visited := by
  induction h with
  | nil => exact Preorder.nil
  | skip ha _ ih => exact Preorder.skip ha (ih hnext)
  | @visit seen todo below visited a hknown ha _ _ ihbelow ihrest =>
    rw [List.forall_mem_cons, List.forall_mem_append] at hnext
    obtain ⟨hself, hbelow, hrest⟩ := hnext
    refine Preorder.visit hknown ha ?_ (ihrest hrest)
    rw [hself]
    exact ihbelow hbelow

namespace Graph

variable {g g' : Graph} {d : Disk} {libraries files : List Location}

/-- **An indexing that succeeds** comes to the same graph with more library directories. -/
theorem inspect_more_libraries (more : List Location)
    (h : g.inspect d libraries files = .ok g') :
    g.inspect d (libraries ++ more) files = .ok g' := by
  obtain ⟨order, horder⟩ := exists_preorder d libraries g.isIndexed files
  -- Every file on the way can be read, so it is read to the same imports.
  have hreadable : ∀ l ∈ order, Readable d libraries l :=
    (exists_inspect_eq_ok_iff horder).mp ⟨g', h⟩
  have hread : ∀ l ∈ order, readImports d (libraries ++ more) l = readImports d libraries l := by
    intro l hl
    obtain ⟨ls, hls⟩ := exists_readImports_eq_ok_iff.mpr (hreadable l hl)
    rw [hls]
    exact readImports_append more hls
  have horder' : Preorder (nextOf (readImports d (libraries ++ more))) g.isIndexed [] files
      order := by
    refine horder.congr fun l hl => ?_
    rw [nextOf, nextOf, hread l hl]
  have hstaged : order.mapM (readEntry (readImports d (libraries ++ more)))
      = order.mapM (readEntry (readImports d libraries)) := by
    refine mapM_congr fun l hl => ?_
    rw [readEntry, readEntry, hread l hl]
  rw [inspect_of_preorder horder', hstaged, ← inspect_of_preorder horder, h]

end Graph

/-! ### Overrides -/

/-- **Overrides change no import that is decided already.**  With the library directories of the
project, each list of targets that is resolved, or ambiguous, stays so when overrides add more
directories, and each call that indexes files makes the same graph. -/
theorem Project.override_keeps_imports (p : Project) (o : Overrides) (d : Disk) :
    (∀ (source : Location) (targets : List String) (files : List Location),
      resolve d source targets p.libraryDirs = .ok files →
      resolve d source targets (p.override o).libraryDirs = .ok files) ∧
    (∀ (source : Location) (targets : List String) (target : String) (file base : Path)
      (candidates : List Path),
      resolve d source targets p.libraryDirs
        = .error (.ambiguous target file base candidates) →
      resolve d source targets (p.override o).libraryDirs
        = .error (.ambiguous target file base candidates)) ∧
    ∀ (g : Graph) (files : List Path),
      (g.call (.inspect d (p.libraryDirs.map Location.path) files)).2 = .ok () →
      g.call (.inspect d ((p.override o).libraryDirs.map Location.path) files)
        = g.call (.inspect d (p.libraryDirs.map Location.path) files) := by
  obtain ⟨more, hmore⟩ := p.exists_libraryDirs_override o
  rw [hmore]
  refine ⟨fun source targets files h => ?_, fun source targets target file base candidates h => ?_,
    fun g files h => ?_⟩
  · rw [resolve_append more fun target hnone => ?_, h]
    rw [h] at hnone
    cases hnone
  · rw [resolve_append more fun target' hnone => ?_, h]
    rw [h] at hnone
    cases hnone
  · -- A call is given paths, which lead to the directories that they were made from.
    have hlocate : ∀ ls : List Location, (ls.map Location.path).map d.locate = ls := by
      intro ls
      rw [List.map_map]
      exact (List.map_congr_left fun l _ => d.locate_path l).trans (List.map_id ls)
    simp only [Graph.call, hlocate] at h ⊢
    cases hinspect : g.inspect d p.libraryDirs (files.map d.locate) with
    | error e =>
      rw [hinspect] at h
      cases h
    | ok g' => rw [Graph.inspect_more_libraries more hinspect]

/-- A project with one library directory. -/
def shadowedProject : Project where
  settings := { project := { libraryPaths := [⟨"one"⟩] } }
  root := .root

/-- Overrides with a second one. -/
def secondLibrary : Overrides where
  libraryPaths := [⟨"two"⟩]

/-- A disk with a file of the same name in both directories, and another file in the second. -/
def shadowedDisk : Disk where
  tree := [(⟨"one"⟩, .directory), (⟨"two"⟩, .directory), (⟨"one/_x.scss"⟩, .file "".toUTF8),
    (⟨"two/_x.scss"⟩, .file "".toUTF8), (⟨"two/_y.scss"⟩, .file "".toUTF8)].foldl
      (fun t (file : Path × Entry) => t.put (file.1.locateFrom .root) file.2) .empty
  cwd := .root

/-- A file of the directory that is added does not take the place of one in front of it.  Only a
target that was not resolved is looked up there. -/
theorem override_keeps_imports_shadowed :
    let source := (⟨"page.scss"⟩ : Path).locateFrom .root
    let before := shadowedProject.libraryDirs
    let after := (shadowedProject.override secondLibrary).libraryDirs
    resolve shadowedDisk source ["x"] before = .ok [(⟨"one/_x.scss"⟩ : Path).locateFrom .root] ∧
    resolve shadowedDisk source ["x"] after = .ok [(⟨"one/_x.scss"⟩ : Path).locateFrom .root] ∧
    resolve shadowedDisk source ["y"] before = .error (.unresolvable "y" source.path) ∧
    resolve shadowedDisk source ["y"] after = .ok [(⟨"two/_y.scss"⟩ : Path).locateFrom .root] := by
  intro source before after
  have hbefore : resolve shadowedDisk source ["x"] before
      = .ok [(⟨"one/_x.scss"⟩ : Path).locateFrom .root] := by
    decide +kernel
  have hafter := (shadowedProject.override_keeps_imports secondLibrary shadowedDisk).1 source ["x"]
    _ hbefore
  exact ⟨hbefore, hafter, by decide +kernel, by decide +kernel⟩

end SheetGraph
