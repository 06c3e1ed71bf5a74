import SheetGraph.Proofs.Build.Outputs
import SheetGraph.Proofs.Discovery.Sources

/-!
# Mirrored sources

With a target directory each listed source (`Sheet`) is paired with an output (`Sheet.mirrored`),
for any two paths of a source and a target directory and any suffix without a slash.  The pair is
told by its components: those of the source stand behind the source directory, and the same
directories stand behind the target, with one more name that has the stem of the source
(`Sheet.mirrors_mirrored`).  So two outputs are the same just if the sources have the same
stem in the same directory (`Sheet.same_output_iff`).

A source called `..scss` has the stem `.`, and what stands in the place of its output is `..`: the
directory around the one that the output belongs to (`mirrorSources_dotted`).
-/

namespace SheetGraph

/-- What stands behind the components of another path leads on from the place of that path. -/
theorem Path.locateFrom_of_components {p q : Path} {cs : List Component}
    (h : p.components = q.components ++ cs) (base : Location) :
    p.locateFrom base = cs.foldl Location.step (q.locateFrom base) := by
  rw [locateFrom, h, List.foldl_append]
  rfl

/-- A stylesheet below a directory: the directories down to it, and its name. -/
structure Sheet where
  dirs : List Name
  name : Name
  isStylesheet : name.isStylesheet = true

namespace Sheet

variable {root target : Path} {suffix? : Option String} {s t : Sheet}

/-- The names down to the stylesheet. -/
def names (s : Sheet) : List Name :=
  s.dirs ++ [s.name]

/-- The path of the stylesheet, seen from the directory. -/
def relative (s : Sheet) : Path :=
  Path.ofNames s.names

/-- The name without its extension. -/
def stem (s : Sheet) : List Char :=
  SheetGraph.stem s.name.chars

/-- The place of the output for the stylesheet. -/
def output (suffix? : Option String) (s : Sheet) : Output :=
  ⟨s.dirs, outputName? suffix? s.name⟩

/-- The stylesheet and its output as they are written. -/
def mirrored (root target : Path) (suffix? : Option String) (s : Sheet) : Path × Path :=
  (root.join s.relative, target.join (s.relative.withExtension (outputExtension suffix?)))

theorem components_output (root target : Path)
    (hsuffix : suffix?.filter (·.toList.contains '/') = none) (s : Sheet) :
    (mirrored root target suffix? s).2.components
      = target.components ++ (s.output suffix?).components := by
  have hrelative : s.relative.withExtension (outputExtension suffix?)
      = (s.output suffix?).relative :=
    Path.withExtension_eq_relative hsuffix s.dirs s.name
  rw [mirrored, hrelative, Output.components_join]

/-! ### Pairs -/

/-- The two paths are those of a stylesheet below `root` and of its output below `target`. -/
structure Mirrors (s : Sheet) (d : Disk) (root target : Path) (suffix? : Option String)
    (source output : Path) : Prop where
  /-- The stylesheet is written behind `root`. -/
  components_source : source.components = root.components ++ s.names.map Component.name
  /-- The output is written behind `target`, in the same directories and with the same stem, and
  that is where it is. -/
  output_of_stem : s.stem ≠ ['.'] → ∃ m : Name,
    m.chars = s.stem ++ '.' :: outputExtension suffix? ∧
    output.components = target.components ++ (s.dirs ++ [m]).map Component.name ∧
    d.locate output = ((d.locate target).below s.dirs).entry m
  /-- If the stem is a single dot, what is written is the directory around these directories. -/
  output_of_dot : s.stem = ['.'] →
    output.components = target.components ++ (s.dirs.map Component.name ++ [.up]) ∧
    d.locate output = ((d.locate target).below s.dirs).parent

theorem mirrors_mirrored (hsuffix : suffix?.filter (·.toList.contains '/') = none) (d : Disk)
    (s : Sheet) : s.Mirrors d root target suffix? (mirrored root target suffix? s).1
      (mirrored root target suffix? s).2 where
  components_source := Path.components_join_ofNames root (by simp [names])
  output_of_stem hdot := by
    obtain ⟨m, hm, hchars⟩ := exists_outputName? hsuffix hdot
    have hname : (s.output suffix?).name? = some m := hm
    have hnames : (s.output suffix?).components = (s.dirs ++ [m]).map Component.name := by
      rw [Output.components_of_name? hname, Output.names_of_name? hname]
      rfl
    have hcomponents := components_output root target hsuffix s
    rw [hnames] at hcomponents
    refine ⟨m, hchars, hcomponents, ?_⟩
    rw [Disk.locate, Path.locateFrom_of_components hcomponents, Location.foldl_step_names,
      Location.below_concat]
    rfl
  output_of_dot hdot := by
    have hname : (s.output suffix?).name? = none :=
      (outputName?_eq_none_iff hsuffix).mpr hdot
    have hcomponents := components_output root target hsuffix s
    rw [Output.components_of_none hname] at hcomponents
    refine ⟨hcomponents, ?_⟩
    -- The last step is the one up.
    rw [Disk.locate, Path.locateFrom_of_components hcomponents, List.foldl_append]
    show ((s.dirs.map Component.name).foldl Location.step (d.locate target)).parent = _
    rw [Location.foldl_step_names]

/-- **Two outputs are the same** just if their stylesheets have the same stem in the same
directory. -/
theorem same_output_iff (hsuffix : suffix?.filter (·.toList.contains '/') = none) (s t : Sheet) :
    (mirrored root target suffix? s).2.same (mirrored root target suffix? t).2 = true ↔
      s.dirs = t.dirs ∧ s.stem = t.stem := by
  -- What stands behind the target tells the directories and the name, and the name tells the stem.
  rw [Path.same, beq_iff_eq, components_output root target hsuffix,
    components_output root target hsuffix, List.append_cancel_left_eq,
    Output.components_injective.eq_iff, output, output, Output.mk.injEq,
    outputName?_eq_iff hsuffix]
  rfl

end Sheet

/-! ### Listed stylesheets -/

variable {d : Disk} {root target : Path} {options : FinderOptions}

/-- What is listed are stylesheets. -/
theorem exists_sheets {root : Location} {sources : List Location}
    (h : sourcesUnder d root options = .ok sources) :
    ∃ sheets : List Sheet, sheets.map (fun s => root.below s.names) = sources := by
  rw [← Set.mem_range, Set.range_list_map]
  intro l hl
  obtain ⟨dirs, n, rfl, hn⟩ := exists_entry_of_mem_sourcesUnder h hl
  exact ⟨⟨dirs, n, hn⟩, root.below_concat dirs n⟩

/-- **Each listed stylesheet has its pair.** -/
theorem mirrorSources_of_sheets (root target : Path) (sheets : List Sheet)
    (hsuffix : options.hashSuffix.filter (·.toList.contains '/') = none)
    (h : compilableSources d (d.locate root) { options with absolute := false }
      = .ok (sheets.map Sheet.relative)) :
    mirrorSources d root (some target) options
      = .ok (sheets.map (Sheet.mirrored root target options.hashSuffix)) := by
  unfold mirrorSources
  rw [h]
  dsimp only
  rw [mapM_eq_ok_iff, List.forall₂_map_left_iff, List.forall₂_map_right_iff, List.forall₂_same]
  intro s _
  rw [destination, hsuffix]
  rfl

theorem mirrorSources_of_sourcesUnder (target : Path) {sources : List Location}
    (hsuffix : options.hashSuffix.filter (·.toList.contains '/') = none)
    (h : sourcesUnder d (d.locate root) options = .ok sources) : ∃ sheets : List Sheet,
      compilableSources d (d.locate root) { options with absolute := false }
        = .ok (sheets.map Sheet.relative) ∧
      mirrorSources d root (some target) options
        = .ok (sheets.map (Sheet.mirrored root target options.hashSuffix)) := by
  obtain ⟨sheets, rfl⟩ := exists_sheets h
  have hways : sourcesUnder d (d.locate root) options
      = .ok ((sheets.map Sheet.names).map (d.locate root).below) := by
    rw [List.map_map]
    exact h
  have hrelatives := (compilableSources_of_ways hways).2
  rw [List.map_map] at hrelatives
  exact ⟨sheets, hrelatives, mirrorSources_of_sheets root target sheets hsuffix hrelatives⟩

/-- Pairs are found just if the directory is there. -/
theorem exists_mirrorSources_iff
    (hsuffix : options.hashSuffix.filter (·.toList.contains '/') = none) :
    (∃ pairs, mirrorSources d root (some target) options = .ok pairs) ↔
      d.isDir (d.locate root).path = true := by
  constructor
  · rintro ⟨pairs, hpairs⟩
    cases hsources : sourcesUnder d (d.locate root) { options with absolute := false } with
    | error e =>
      unfold mirrorSources at hpairs
      rw [compilableSources, hsources] at hpairs
      cases hpairs
    | ok sources => exact Disk.isDir_iff.mpr (exists_find_of_sourcesUnder hsources)
  · intro hdir
    obtain ⟨real, hfind⟩ := Disk.isDir_iff.mp hdir
    obtain ⟨sources, hsources⟩ := exists_sourcesUnder options hfind
    obtain ⟨sheets, -, hpairs⟩ := mirrorSources_of_sourcesUnder target hsuffix hsources
    exact ⟨_, hpairs⟩

/-- **Sources and outputs.**  If the source directory is there, each listed stylesheet is paired
with an output, whatever the paths of the two directories are.  The stylesheet is written behind the
source directory, and its output behind the target directory, in the same directories and under a
name with the same stem; only for the stem `.` there is no such name.  Two outputs are the same just
if their stylesheets lie in the same directory and have the same stem. -/
theorem mirrorSources_spec (d : Disk) (root target : Path) (options : FinderOptions)
    (hsuffix : options.hashSuffix.filter (·.toList.contains '/') = none) :
    ((∃ pairs, mirrorSources d root (some target) options = .ok pairs) ↔
      d.isDir (d.locate root).path = true) ∧
    ∀ pairs, mirrorSources d root (some target) options = .ok pairs → ∃ sheets : List Sheet,
      compilableSources d (d.locate root) { options with absolute := false }
        = .ok (sheets.map Sheet.relative) ∧
      pairs = sheets.map (Sheet.mirrored root target options.hashSuffix) ∧
      (∀ s ∈ sheets, s.Mirrors d root target options.hashSuffix
        (s.mirrored root target options.hashSuffix).1
        (s.mirrored root target options.hashSuffix).2) ∧
      ∀ s ∈ sheets, ∀ t ∈ sheets, (s.mirrored root target options.hashSuffix).2.same
          (t.mirrored root target options.hashSuffix).2 = true ↔
        s.dirs = t.dirs ∧ s.stem = t.stem := by
  refine ⟨exists_mirrorSources_iff hsuffix, fun pairs hpairs => ?_⟩
  obtain ⟨real, hfind⟩ := Disk.isDir_iff.mp ((exists_mirrorSources_iff hsuffix).mp ⟨pairs, hpairs⟩)
  obtain ⟨sources, hsources⟩ := exists_sourcesUnder options hfind
  obtain ⟨sheets, hrelatives, hmirrored⟩ := mirrorSources_of_sourcesUnder target hsuffix hsources
  refine ⟨sheets, hrelatives, Except.ok.inj (hpairs.symm.trans hmirrored), ?_, ?_⟩
  · exact fun s _ => s.mirrors_mirrored hsuffix d
  · exact fun s _ t _ => s.same_output_iff hsuffix t

/-! ### A directory of stylesheets -/

/-- A directory. -/
def flatRoot : Location :=
  Location.root.entry ⟨"pages", by decide⟩

/-- A disk with empty files in the directory. -/
def flatDisk (names : List Name) : Disk where
  tree := names.foldr (fun n t => t.put (flatRoot.entry n) (.file "".toUTF8))
    (FileTree.empty.put flatRoot .directory)
  cwd := .root

theorem compilableSources_flatDisk (options : FinderOptions) (names : List Name)
    (hnames : ((flatDisk names).tree.entries.filterMap fun e =>
      if e.1.parent = flatRoot then e.1.fileName? else none) = names)
    (hsorted : names.Pairwise fun a b => (a.compare b).isLE = true)
    (hroot : (flatDisk names).tree.get? flatRoot = some .directory)
    (hfiles : ∀ n ∈ names,
      (flatDisk names).tree.get? (flatRoot.entry n) = some (.file "".toUTF8))
    (hlisted : ∀ n ∈ names, isListed flatRoot options (flatRoot.entry n) = .ok true) :
    compilableSources (flatDisk names) flatRoot { options with absolute := false }
      = .ok (names.map fun n => Path.ofNames [n]) := by
  have hsources : sourcesUnder (flatDisk names) flatRoot options
      = .ok ((names.map fun n => [n]).map flatRoot.below) := by
    rw [List.map_map]
    exact sourcesUnder_of_flat hroot (FileTree.namesIn_of_pairwise hnames hsorted)
      (fun n hn => ⟨_, hfiles n hn, Entry.file_ne_directory, Disk.isDir_of_file (hfiles n hn)⟩)
      hlisted
  have hrelatives := (compilableSources_of_ways hsources).2
  rwa [List.map_map] at hrelatives

/-- The names of two stylesheets that differ in the extension. -/
def dotsNames : List Name :=
  [⟨"a.b.sass", by decide⟩, ⟨"a.b.scss", by decide⟩]

/-- Stylesheets that differ only in the extension have the same output, which keeps the dot in
front of it. -/
theorem mirrorSources_spec_dots :
    (some "v1").filter (fun suffix : String => suffix.toList.contains '/') = none ∧
    mirrorSources (flatDisk dotsNames) ⟨"pages"⟩ (some ⟨"css"⟩) { hashSuffix := some "v1" }
      = .ok [(⟨"pages/a.b.sass"⟩, ⟨"css/a.b.v1.css"⟩),
        (⟨"pages/a.b.scss"⟩, ⟨"css/a.b.v1.css"⟩)] := by
  have hsuffix : (some "v1").filter (fun suffix : String => suffix.toList.contains '/') = none := by
    decide
  have hlisted := compilableSources_flatDisk { hashSuffix := some "v1" } dotsNames
    (by decide +kernel) (by decide +kernel) (by decide +kernel) (by decide +kernel)
    (by decide +kernel)
  obtain ⟨hiff, hall⟩ := mirrorSources_spec (flatDisk dotsNames) ⟨"pages"⟩ ⟨"css"⟩
    { hashSuffix := some "v1" } hsuffix
  obtain ⟨pairs, hpairs⟩ := hiff.mpr (by decide +kernel)
  obtain ⟨sheets, hsheets, rfl, -, -⟩ := hall pairs hpairs
  have hroot : (flatDisk dotsNames).locate ⟨"pages"⟩ = flatRoot := by decide +kernel
  rw [hroot] at hsheets
  have hrelatives : sheets.map Sheet.relative = [⟨"a.b.sass"⟩, ⟨"a.b.scss"⟩] := by
    rw [Except.ok.inj (hsheets.symm.trans hlisted)]
    decide +kernel
  have hmirrored : sheets.map (Sheet.mirrored ⟨"pages"⟩ ⟨"css"⟩ (some "v1"))
      = (sheets.map Sheet.relative).map fun relative => ((⟨"pages"⟩ : Path).join relative,
        (⟨"css"⟩ : Path).join (relative.withExtension (outputExtension (some "v1")))) := by
    rw [List.map_map]
    rfl
  refine ⟨hsuffix, hpairs.trans ?_⟩
  rw [hmirrored, hrelatives]
  decide +kernel

/-- The name of a stylesheet of which only dots are left without the extension. -/
def dottedName : Name := ⟨"..scss", by decide⟩

/-- What is written for the output of a stylesheet called `..scss` is the directory around the
target. -/
theorem mirrorSources_dotted :
    mirrorSources (flatDisk [dottedName]) ⟨"pages"⟩ (some ⟨"css"⟩) {}
      = .ok [(⟨"pages/..scss"⟩, ⟨"css/.."⟩)] ∧
    (flatDisk [dottedName]).locate ⟨"css/.."⟩ = .root ∧
    ((flatDisk [dottedName]).locate ⟨"css/.."⟩).isWithin ((flatDisk [dottedName]).locate ⟨"css"⟩)
      = false := by
  have hlisted := compilableSources_flatDisk {} [dottedName] (by decide +kernel)
    (by decide +kernel) (by decide +kernel) (by decide +kernel) (by decide +kernel)
  have hroot : (flatDisk [dottedName]).locate ⟨"pages"⟩ = flatRoot := by decide +kernel
  rw [← hroot] at hlisted
  have hmirrored := mirrorSources_of_sheets ⟨"pages"⟩ ⟨"css"⟩
    [⟨[], dottedName, by decide +kernel⟩] rfl hlisted
  refine ⟨hmirrored.trans ?_, by decide +kernel, by decide +kernel⟩
  decide +kernel

end SheetGraph
