import SheetGraph.CommandLine.Run
import SheetGraph.Proofs.Discovery.MainSource

/-!
# Setting up a project

What is wrong with the settings of a project is said without regard to how they are checked, as the
reasons there are (`Unusable`), and `setUp` finds just that (`setUp_cases`): its error is one in the
call if the settings are unusable, and else only a file that cannot be read keeps a project from
being set up.  Exclude patterns that are no globs (`HasBadPattern`) are not among the reasons; they
are found when sources are searched for.
-/

namespace SheetGraph

variable {d : Disk} {file? : Option Path} {s s' : Settings} {o : Overrides}

/-! ### Settings that are read -/

/-- **The settings of a project as they are read**, before anything about them is checked: those of
its file, and those of a project that has no file. -/
inductive Reads (d : Disk) : Option Path → Settings → Prop
  | default : Reads d none {}
  | file {file : Path} {text : String} {format : DataFormat} {s : Settings}
      (hread : d.readText file = .ok text) (hformat : formatOf? file = some format)
      (hparse : parseSettings format text = .ok s) : Reads d (some file) s

theorem Reads.unique (h : Reads d file? s) (h' : Reads d file? s') : s = s' := by
  cases h with
  | default => cases h'; rfl
  | file hread hformat hparse =>
    cases h' with
    | file hread' hformat' hparse' =>
      obtain rfl := Except.ok.inj (hread.symm.trans hread')
      obtain rfl := Option.some.inj (hformat.symm.trans hformat')
      exact Except.ok.inj (hparse.symm.trans hparse')

theorem Reads.readable {file : Path} (h : Reads d (some file) s) :
    ∃ text, d.readText file = .ok text := by
  cases h with
  | file hread _ _ => exact ⟨_, hread⟩

/-- An exclude pattern of the settings is no glob. -/
def HasBadPattern (d : Disk) (file? : Option Path) : Prop :=
  ∃ s, Reads d file? s ∧ ∃ pattern ∈ s.project.excludes, ∀ g, Glob.parse pattern ≠ .ok g

theorem Project.exists_finderOptions_eq_ok_iff {p : Project} :
    (∃ options, p.finderOptions = .ok options) ↔
      ∀ pattern ∈ p.settings.project.excludes, ∃ g, Glob.parse pattern = .ok g := by
  have hcompiled : (∃ options, p.finderOptions = .ok options) ↔
      ∃ globs, compileExcludes p.settings.project.excludes = .ok globs := by
    rw [finderOptions]
    cases compileExcludes p.settings.project.excludes <;> simp
  rw [hcompiled, compileExcludes, exists_mapM_eq_ok_iff]
  refine forall₂_congr fun pattern _ => ?_
  cases Glob.parse pattern <;> simp

theorem hasBadPattern_iff (hreads : Reads d file? s) {p : Project}
    (hp : p.settings.project.excludes = s.project.excludes) :
    HasBadPattern d file? ↔ ∃ e, p.finderOptions = .error e := by
  have herror : (∃ e, p.finderOptions = .error e) ↔ ¬ ∃ options, p.finderOptions = .ok options := by
    cases p.finderOptions <;> simp
  rw [herror, Project.exists_finderOptions_eq_ok_iff, hp]
  push Not
  constructor
  · rintro ⟨s', hreads', hpattern⟩
    rwa [hreads.unique hreads']
  · exact fun hpattern => ⟨s, hreads, hpattern⟩

/-! ### Directories that are there -/

theorem Project.isDir_of_missingLibrary?_eq_some {index i : Nat} {libs : List Location}
    {dir : Location} (h : missingLibrary? d index libs = some (i, dir)) :
    dir ∈ libs ∧ d.isDir dir.path = false := by
  induction libs generalizing index with
  | nil => cases h
  | cons lib libs ih =>
    rw [missingLibrary?] at h
    split at h
    · exact ⟨List.mem_cons_of_mem lib (ih h).1, (ih h).2⟩
    · rename_i hlib
      cases h
      exact ⟨List.mem_cons_self, Bool.not_eq_true _ ▸ hlib⟩

/-- The directories of a project are all there, or one that is not is reported. -/
theorem Project.verifyPaths_cases (p : Project) (d : Disk) :
    (p.verifyPaths d = .ok () ∧
      ∀ path ∈ p.settings.project.source :: p.settings.project.libraryPaths,
        d.isDir (p.resolvePath path).path = true) ∨
    ∃ field, ∃ path ∈ p.settings.project.source :: p.settings.project.libraryPaths,
      d.isDir (p.resolvePath path).path = false ∧
      p.verifyPaths d = .error (.missingPath field (p.resolvePath path).path) := by
  cases hverified : p.verifyPaths d with
  | ok =>
    obtain ⟨hsource, hlibs⟩ := isDir_of_verifyPaths hverified
    exact .inl ⟨rfl, List.forall_mem_cons.mpr ⟨hsource, List.forall_mem_map.mp hlibs⟩⟩
  | error e =>
    refine .inr ?_
    unfold verifyPaths at hverified
    split at hverified
    · rename_i hsource
      cases hverified
      exact ⟨_, _, List.mem_cons_self, Bool.not_eq_true' _ ▸ hsource, rfl⟩
    · split at hverified
      · rename_i hlib
        cases hverified
        obtain ⟨hmem, hmissing⟩ := isDir_of_missingLibrary?_eq_some hlib
        obtain ⟨path, hpath, rfl⟩ := List.mem_map.mp hmem
        exact ⟨_, path, List.mem_cons_of_mem _ hpath, hmissing, rfl⟩
      · cases hverified

namespace CommandLine

/-- **What can be wrong with the settings of a project**, apart from a file that cannot be read: the
format of the file is unknown, or it is not of that format, or the settings have faults, with the
overrides or without, or a directory is not there. -/
inductive Unusable (d : Disk) (o : Overrides) : Option Path → Prop
  | unknownFormat {file : Path} {text : String} (hread : d.readText file = .ok text)
      (hformat : formatOf? file = none) : Unusable d o (some file)
  | unparsable {file : Path} {text : String} {format : DataFormat} {e : ConfigError}
      (hread : d.readText file = .ok text) (hformat : formatOf? file = some format)
      (hparse : parseSettings format text = .error e) : Unusable d o (some file)
  | faulty {file? : Option Path} {s : Settings} (hreads : Reads d file? s)
      (hfaults : s.faults ≠ [] ∨ (s.override o).faults ≠ []) : Unusable d o file?
  | missingDirectory {file? : Option Path} {s : Settings} {path : Path} (hreads : Reads d file? s)
      (hpath : path ∈ (s.override o).project.source :: (s.override o).project.libraryPaths)
      (hmissing : d.isDir (path.locateFrom (rootFor d file?)).path = false) : Unusable d o file?

theorem Unusable.readable {file : Path} (h : Unusable d o (some file)) :
    ∃ text, d.readText file = .ok text := by
  cases h with
  | unknownFormat hread _ | unparsable hread _ _ => exact ⟨_, hread⟩
  | faulty hreads _ | missingDirectory hreads _ _ => exact hreads.readable

/-- Settings are checked: they are as they were, or they have faults. -/
theorem checkSettings_cases (s : Settings) :
    (s.faults = [] ∧ checkSettings s = .ok s) ∨
      (s.faults ≠ [] ∧ ∃ e, checkSettings s = .error e ∧ configExit e = .misuse) := by
  unfold checkSettings
  split
  · rename_i hvalid
    exact .inl ⟨List.isEmpty_iff.mp hvalid, rfl⟩
  · rename_i hfaults
    exact .inr ⟨fun h => hfaults (List.isEmpty_iff.mpr h), _, rfl, rfl⟩

theorem configExit_of_parseSettings {format : DataFormat} {text : String} {e : ConfigError}
    (h : parseSettings format text = .error e) : configExit e = .misuse := by
  cases format <;>
    · unfold parseSettings at h
      dsimp only at h
      split at h <;> cases h
      rfl

/-! ### Setting up -/

/-- What loading the settings comes to: the file cannot be read, or something is wrong with it, or
they are read and without faults. -/
theorem loadSettingsFile_cases (d : Disk) (file : Path) :
    (∃ cause, d.readText file = .error cause ∧
      loadSettingsFile d file = .error (.unreadable cause)) ∨
    ((∀ o, Unusable d o (some file)) ∧
      ∃ e, loadSettingsFile d file = .error e ∧ configExit e = .misuse) ∨
    ∃ s, Reads d (some file) s ∧ s.faults = [] ∧ loadSettingsFile d file = .ok s := by
  unfold loadSettingsFile
  cases hread : d.readText file with
  | error cause => exact .inl ⟨cause, rfl, rfl⟩
  | ok text =>
    refine .inr ?_
    cases hformat : formatOf? file with
    | none => exact .inl ⟨fun o => .unknownFormat hread hformat, _, rfl, rfl⟩
    | some format =>
      dsimp only
      cases hparse : parseSettings format text with
      | error e =>
        exact .inl ⟨fun o => .unparsable hread hformat hparse, e, rfl,
          configExit_of_parseSettings hparse⟩
      | ok s =>
        have hreads : Reads d (some file) s := .file hread hformat hparse
        obtain ⟨hfaults, hs⟩ | ⟨hfaults, e, he, hexit⟩ := checkSettings_cases s
        · exact .inr ⟨s, hreads, hfaults, hs⟩
        · exact .inl ⟨fun o => .faulty hreads (.inl hfaults), e, he, hexit⟩

/-- Settings that are read, without faults and with all their directories are not unusable. -/
theorem not_unusable (hreads : Reads d file? s) (hfaults : s.faults = [])
    (hoverridden : (s.override o).faults = [])
    (hdirs : ∀ path ∈ (s.override o).project.source :: (s.override o).project.libraryPaths,
      d.isDir (path.locateFrom (rootFor d file?)).path = true) : ¬ Unusable d o file? := by
  intro h
  cases h with
  | unknownFormat hread hformat =>
    cases hreads with
    | file _ hformat' _ => cases hformat.symm.trans hformat'
  | unparsable hread hformat hparse =>
    cases hreads with
    | file hread' hformat' hparse' =>
      obtain rfl := Except.ok.inj (hread.symm.trans hread')
      obtain rfl := Option.some.inj (hformat.symm.trans hformat')
      cases hparse.symm.trans hparse'
  | faulty hreads' hfaults' =>
    obtain rfl := hreads.unique hreads'
    exact hfaults'.elim (· hfaults) (· hoverridden)
  | missingDirectory hreads' hpath hmissing =>
    obtain rfl := hreads.unique hreads'
    cases hmissing.symm.trans (hdirs _ hpath)

theorem projectOf_cases (verbose : Bool) (hreads : Reads d file? s) (hfaults : s.faults = []) :
    (Unusable d o file? ∧ ∃ e, projectOf d file? o verbose s = .error e ∧ configExit e = .misuse) ∨
    (¬ Unusable d o file? ∧ ∃ p, projectOf d file? o verbose s = .ok p ∧
      p.settings.project.excludes = s.project.excludes) := by
  unfold projectOf overrideSettings
  obtain ⟨hoverridden, hs⟩ | ⟨hoverridden, e, he, hexit⟩ := checkSettings_cases (s.override o)
  · rw [hs]
    dsimp only [bind, Except.bind]
    obtain ⟨hverified, hdirs⟩ | ⟨field, path, hpath, hmissing, hverified⟩ :=
      Project.verifyPaths_cases ⟨s.override o, rootFor d file?, verbose⟩ d
    · rw [hverified]
      exact .inr ⟨not_unusable hreads hfaults hoverridden hdirs, _, rfl, rfl⟩
    · rw [hverified]
      exact .inl ⟨.missingDirectory hreads hpath hmissing, _, rfl, rfl⟩
  · rw [he]
    exact .inl ⟨.faulty hreads (.inr hoverridden), e, rfl, hexit⟩

/-- **What setting up a project comes to**: its file cannot be read, or its settings are unusable,
or it is set up. -/
theorem setUp_cases (d : Disk) (file? : Option Path) (o : Overrides) (verbose : Bool) :
    (¬ Unusable d o file? ∧ ¬ HasBadPattern d file? ∧
      ∃ e, setUp d file? o verbose = .error e ∧ configExit e = .failure) ∨
    (Unusable d o file? ∧ ∃ e, setUp d file? o verbose = .error e ∧ configExit e = .misuse) ∨
    (¬ Unusable d o file? ∧ ∃ p, setUp d file? o verbose = .ok p ∧
      (HasBadPattern d file? ↔ ∃ e, p.finderOptions = .error e)) := by
  have hproject {s : Settings} (hreads : Reads d file? s) (hfaults : s.faults = [])
      (hload : setUp d file? o verbose = projectOf d file? o verbose s) :
      (Unusable d o file? ∧ ∃ e, setUp d file? o verbose = .error e ∧ configExit e = .misuse) ∨
      (¬ Unusable d o file? ∧ ∃ p, setUp d file? o verbose = .ok p ∧
        (HasBadPattern d file? ↔ ∃ e, p.finderOptions = .error e)) := by
    rw [hload]
    refine (projectOf_cases verbose hreads hfaults).imp_right ?_
    rintro ⟨husable, p, hp, hexcludes⟩
    exact ⟨husable, p, hp, hasBadPattern_iff hreads hexcludes⟩
  cases file? with
  | none =>
    -- There is nothing to load, and the settings of a project without a file have no faults.
    exact .inr (hproject .default (by decide +kernel) rfl)
  | some file =>
    obtain ⟨cause, hread, hload⟩ | ⟨hunusable, e, hload, hexit⟩ | ⟨s, hreads, hfaults, hload⟩ :=
      loadSettingsFile_cases d file
    · have hunread : ¬ ∃ text, d.readText file = .ok text := by simp [hread]
      exact .inl ⟨fun h => hunread h.readable, fun ⟨_, hreads, _⟩ => hunread hreads.readable,
        .unreadable cause, by rw [setUp, hload]; rfl, rfl⟩
    · exact .inr (.inl ⟨hunusable o, e, by rw [setUp, hload]; rfl, hexit⟩)
    · exact .inr (hproject hreads hfaults (by rw [setUp, hload]; rfl))

end CommandLine

end SheetGraph
