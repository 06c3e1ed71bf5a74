import SheetGraph.Proofs.Build.Results
import SheetGraph.Proofs.Discovery.Listing
import SheetGraph.Proofs.FileTree.Create
import SheetGraph.Proofs.Path.Components

/-!
# Outputs

The outputs of a plan lie below the target directory: the directories on the way to an output are
those of its source, and its name is the stem of the source with another extension
(`Pipeline.exists_planned`).

One output is in the way of another (`Output.Covers`) if their sources have the same stem in the
same directory, or if a directory down to the other source is called like the output (`covers_iff`).
-/

namespace SheetGraph

variable {d d' : Disk} {r target : Location} {n : Name}

/-! ### Places for outputs -/

/-- The place of an output below the target directory: the directories down to it, and its name.
There is none for the output of a source called `..scss`, of which only dots are left. -/
structure Output where
  dirs : List Name
  name? : Option Name
  deriving DecidableEq

namespace Output

/-- The text at the end of the path of an output. -/
def last (x : Output) : List Char :=
  match x.name? with
  | some n => n.chars
  | none => ['.', '.']

/-- The path of an output. -/
def path (x : Output) (target : Location) : Path :=
  (target.below x.dirs).pathTo x.last

/-- The names down to an output. -/
def names (x : Output) : List Name :=
  x.dirs ++ x.name?.toList

/-- What comes behind the components of the target directory in the path of an output. -/
def components (x : Output) : List Component :=
  x.dirs.map .name ++ [x.name?.elim .up .name]

/-- The first output is in the place of the second, or in that of a directory above it. -/
def Covers (x y : Output) : Prop :=
  x.name? ≠ none ∧ x.names <+: y.names

variable {x y : Output}

theorem names_of_name? (h : x.name? = some n) : x.names = x.dirs ++ [n] := by
  rw [names, h]
  rfl

theorem dirs_prefix_names (x : Output) : x.dirs <+: x.names :=
  List.prefix_append _ _

theorem last_of_name? (h : x.name? = some n) : x.last = n.chars := by
  rw [last, h]

theorem last_of_none (h : x.name? = none) : x.last = ['.', '.'] := by
  rw [last, h]

theorem slash_not_mem_last (x : Output) : '/' ∉ x.last := by
  unfold last
  split
  · rename_i n _
    exact n.slash_not_mem_chars
  · decide

theorem isIdle_last (x : Output) : Path.isIdle x.last = false := by
  unfold last
  split
  · rename_i n _
    exact isIdle_chars n
  · decide

/-- The path of an output, seen from the target directory. -/
def relative (x : Output) : Path :=
  Path.ofChars (['/'].intercalate (x.dirs.map Name.chars ++ [x.last]))

theorem isAbsolute_relative (x : Output) : x.relative.isAbsolute = false := by
  have hhead : (['/'].intercalate (x.dirs.map Name.chars ++ [x.last])).head? ≠ some '/' := by
    cases x.dirs with
    | nil =>
      rw [List.map_nil, List.nil_append, List.intercalate_singleton]
      exact fun h => x.slash_not_mem_last (List.mem_of_head? h)
    | cons m dirs =>
      rw [List.map_cons, List.cons_append, List.intercalate_cons_of_ne_nil (by simp),
        List.append_assoc, List.head?_append_of_ne_nil _ m.chars_ne_nil]
      exact fun h => m.slash_not_mem_chars (List.mem_of_head? h)
  rw [relative, Path.isAbsolute, Path.chars_ofChars, beq_eq_false_iff_ne]
  exact hhead

theorem join_relative (x : Output) (target : Location) :
    target.path.join x.relative = x.path target :=
  Location.join_path target x.dirs x.isAbsolute_relative

/-- **The directory of an output** is the one that its path lies in. -/
theorem parent?_path (x : Output) (target : Location) :
    (x.path target).parent? = some (target.below x.dirs).path :=
  Location.parent?_pathTo x.slash_not_mem_last x.isIdle_last

theorem path_of_name? (h : x.name? = some n) (target : Location) :
    x.path target = ((target.below x.dirs).entry n).path := by
  rw [path, last_of_name? h, Location.pathTo_chars]

theorem components_of_name? (h : x.name? = some n) :
    x.components = x.names.map Component.name := by
  rw [components, h, names_of_name? h, List.map_append]
  rfl

theorem components_of_none (h : x.name? = none) :
    x.components = x.dirs.map Component.name ++ [.up] := by
  rw [components, h]
  rfl

theorem names_prefix_components (x : Output) : x.names.map Component.name <+: x.components := by
  cases h : x.name? with
  | none =>
    rw [names, h, Option.toList_none, List.append_nil]
    exact List.prefix_append _ _
  | some n => rw [components_of_name? h]

theorem ofSegment?_last (x : Output) :
    Component.ofSegment? x.last = some (x.name?.elim .up .name) := by
  cases h : x.name? with
  | none =>
    rw [last_of_none h]
    rfl
  | some n =>
    rw [last_of_name? h, Component.ofSegment?_chars]
    rfl

theorem components_path (x : Output) (target : Location) : (x.path target).components
    = .root :: (target.names.map Component.name ++ x.components) := by
  rw [path, Location.components_pathTo x.slash_not_mem_last, Location.names_below, ofSegment?_last,
    List.map_append, List.append_assoc]
  rfl

/-- Different outputs have different components. -/
theorem components_injective : Function.Injective components := by
  intro x y hxy
  obtain ⟨hmap, hlast⟩ := List.append_inj' hxy rfl
  have hdirs : x.dirs = y.dirs :=
    List.map_injective_iff.mpr (fun _ _ h => Component.name.inj h) hmap
  have hname : x.name? = y.name? := by
    cases hx : x.name? <;> cases hy : y.name? <;> simp_all
  cases x
  cases y
  cases hdirs
  cases hname
  rfl

/-- Different outputs have different paths. -/
theorem path_injective (target : Location) :
    Function.Injective fun x : Output => x.path target := by
  intro x y hxy
  have hcomponents := congrArg Path.components hxy
  rw [components_path, components_path] at hcomponents
  exact components_injective (List.append_cancel_left (List.cons.inj hcomponents).2)

theorem segments_relative (x : Output) :
    x.relative.segments = x.dirs.map Name.chars ++ [x.last] := by
  rw [relative, Path.segments, Path.chars_ofChars, List.splitOn_intercalate]
  · intro cs hcs
    rcases List.mem_append.mp hcs with hcs | hcs
    · obtain ⟨m, -, rfl⟩ := List.mem_map.mp hcs
      exact m.slash_not_mem_chars
    · rw [List.mem_singleton.mp hcs]
      exact x.slash_not_mem_last
  · simp

/-- **The components of an output** stand behind those of the target directory, however that is
written. -/
theorem components_join (x : Output) (target : Path) :
    (target.join x.relative).components = target.components ++ x.components := by
  have hsegments := x.segments_relative
  -- What comes first is a directory or the end of the output, and neither is passed over.
  obtain ⟨first, rest, hfirst, hidle⟩ : ∃ first rest, x.relative.segments = first :: rest ∧
      Path.isIdle first = false := by
    cases hdirs : x.dirs with
    | nil => exact ⟨x.last, [], by rw [hsegments, hdirs]; rfl, x.isIdle_last⟩
    | cons m dirs => exact ⟨m.chars, _, by rw [hsegments, hdirs]; rfl, isIdle_chars m⟩
  rw [Path.components_join hfirst hidle, Path.components_of_segments hfirst hidle, hsegments,
    List.filterMap_append, filterMap_chars, List.filterMap_cons_some x.ofSegment?_last]
  rfl

end Output

/-- Whether a path names a file and the other path is the same or lies below it. -/
def Path.isAtOrAbove (p q : Path) : Bool :=
  p.fileName?.isSome && p.components.isPrefixOf q.components

theorem Output.Covers.isAtOrAbove {x y : Output} (h : x.Covers y) (target : Location) :
    (x.path target).isAtOrAbove (y.path target) = true := by
  obtain ⟨hname, hpre⟩ := h
  obtain ⟨n, hn⟩ := Option.ne_none_iff_exists'.mp hname
  have hfile : (x.path target).fileName? = some n := by
    rw [path_of_name? hn, Location.fileName?_path, Location.fileName?, Location.names_entry,
      List.getLast?_concat]
  have hnames : x.components <+: y.components := by
    rw [components_of_name? hn]
    exact (hpre.map Component.name).trans y.names_prefix_components
  rw [Path.isAtOrAbove, hfile, Option.isSome_some, Bool.true_and, List.isPrefixOf_iff_prefix,
    components_path, components_path, List.cons_prefix_cons]
  exact ⟨rfl, (List.prefix_append_right_inj _).mpr hnames⟩

/-! ### The output for a source -/

theorem Path.segments_ofNames_concat (dirs : List Name) (n : Name) :
    (Path.ofNames (dirs ++ [n])).segments = dirs.map Name.chars ++ [n.chars] := by
  rw [segments_ofNames (by simp), List.map_append, List.map_singleton]

theorem Path.fileName?_ofNames (dirs : List Name) (n : Name) :
    (Path.ofNames (dirs ++ [n])).fileName? = some n :=
  fileName?_of_segments (segments_ofNames_concat dirs n)

/-- A name whose stem is a dot has an extension, since a dot is no name. -/
theorem Name.extension?_ne_none_of_stem (h : stem n.chars = ['.']) : extension? n.chars ≠ none := by
  intro hnone
  have hvalid := n.valid
  rw [stem_eq_self hnone] at h
  rw [show n.text.toList = ['.'] from h] at hvalid
  exact absurd hvalid (by decide)

theorem Name.slash_not_mem_stem (n : Name) : '/' ∉ stem n.chars := by
  cases hext : extension? n.chars with
  | none =>
    rw [stem_eq_self hext]
    exact n.slash_not_mem_chars
  | some ext =>
    exact fun hmem => n.slash_not_mem_chars
      (stem_append_extension hext ▸ List.mem_append_left _ hmem)

/-- The path of a source with another extension. -/
theorem Path.withExtension_ofNames (dirs : List Name) (n : Name) {ext : List Char}
    (hext : ext ≠ []) : (Path.ofNames (dirs ++ [n])).withExtension ext
      = ofChars (['/'].intercalate (dirs.map Name.chars ++
        [if stem n.chars = ['.'] then ['.', '.'] else stem n.chars ++ '.' :: ext])) := by
  have hsegments := segments_ofNames_concat dirs n
  have hkept : (dirs.map Name.chars ++ [n.chars]).reverse.dropWhile isIdle
      = n.chars :: (dirs.map Name.chars).reverse := by
    rw [List.reverse_append, List.reverse_singleton, List.singleton_append,
      List.dropWhile_cons_of_neg (by rw [isIdle_chars]; exact Bool.false_ne_true)]
  rw [withExtension, fileName?_ofNames, hsegments, hkept]
  dsimp only
  rw [List.getLast?_concat, List.reverse_cons, List.reverse_reverse, List.reverse_cons,
    List.reverse_reverse]
  by_cases hdot : stem n.chars = ['.']
  · rw [if_pos ⟨hdot, Name.extension?_ne_none_of_stem hdot, rfl⟩, if_pos hdot]
  · rw [if_neg fun h => hdot h.1, if_neg hdot, if_neg hext]

/-- The name of the output for a source called `n`. -/
def outputName? (suffix? : Option String) (n : Name) : Option Name :=
  if stem n.chars = ['.'] then none
  else Name.ofChars? (stem n.chars ++ '.' :: outputExtension suffix?)

theorem three_le_length_outputExtension (suffix? : Option String) :
    3 ≤ (outputExtension suffix?).length := by
  cases suffix? with
  | none => decide
  | some suffix =>
    have hcss : (".css".toList).length = 4 := rfl
    rw [outputExtension, List.length_append, hcss]
    omega

theorem slash_not_mem_outputExtension {suffix? : Option String}
    (hsuffix : suffix?.filter (·.toList.contains '/') = none) :
    '/' ∉ outputExtension suffix? := by
  cases suffix? with
  | none => decide
  | some suffix =>
    have hslash : suffix.toList.contains '/' = false := by simpa using hsuffix
    rw [outputExtension, List.mem_append, not_or]
    exact ⟨by simpa using hslash, by decide⟩

theorem outputExtension_ne_nil (suffix? : Option String) : outputExtension suffix? ≠ [] := by
  have hlen := three_le_length_outputExtension suffix?
  intro hnil
  rw [hnil] at hlen
  simp at hlen

/-- A text that is long enough and holds no slash is a name. -/
theorem Name.chars_of_ofChars? {cs : List Char} (hlen : 2 < cs.length) (hslash : '/' ∉ cs) :
    ∃ m, Name.ofChars? cs = some m ∧ m.chars = cs := by
  have hname : isName (String.ofList cs).toList = true := by
    rw [String.toList_ofList]
    simp only [isName, Bool.and_eq_true, bne_iff_ne, Bool.not_eq_true']
    refine ⟨⟨⟨?_, ?_⟩, ?_⟩, by simpa using hslash⟩
    all_goals
      rintro rfl
      simp at hlen
  refine ⟨⟨String.ofList cs, hname⟩, dif_pos hname, String.toList_ofList⟩

theorem exists_outputName? {suffix? : Option String}
    (hsuffix : suffix?.filter (·.toList.contains '/') = none) (hdot : stem n.chars ≠ ['.']) :
    ∃ m, outputName? suffix? n = some m ∧
      m.chars = stem n.chars ++ '.' :: outputExtension suffix? := by
  have hslash : '/' ∉ stem n.chars ++ '.' :: outputExtension suffix? := by
    rw [List.mem_append, List.mem_cons, not_or, not_or]
    exact ⟨n.slash_not_mem_stem, by decide, slash_not_mem_outputExtension hsuffix⟩
  have hlong : 2 < (stem n.chars ++ '.' :: outputExtension suffix?).length := by
    have hlen := three_le_length_outputExtension suffix?
    rw [List.length_append, List.length_cons]
    omega
  obtain ⟨m, hm, hchars⟩ := Name.chars_of_ofChars? hlong hslash
  exact ⟨m, (if_neg hdot).trans hm, hchars⟩

theorem outputName?_eq_none_iff {suffix? : Option String}
    (hsuffix : suffix?.filter (·.toList.contains '/') = none) :
    outputName? suffix? n = none ↔ stem n.chars = ['.'] := by
  constructor
  · intro hnone
    by_contra hdot
    obtain ⟨m, hm, -⟩ := exists_outputName? hsuffix hdot
    rw [hm] at hnone
    cases hnone
  · exact fun hdot => if_pos hdot

/-- The place of the output for a source in some directories. -/
theorem Path.withExtension_eq_relative {suffix? : Option String}
    (hsuffix : suffix?.filter (·.toList.contains '/') = none) (dirs : List Name) (n : Name) :
    (ofNames (dirs ++ [n])).withExtension (outputExtension suffix?)
      = (⟨dirs, outputName? suffix? n⟩ : Output).relative := by
  have hlast : (⟨dirs, outputName? suffix? n⟩ : Output).last
      = if stem n.chars = ['.'] then ['.', '.']
        else stem n.chars ++ '.' :: outputExtension suffix? := by
    by_cases hdot : stem n.chars = ['.']
    · rw [if_pos hdot, Output.last_of_none ((outputName?_eq_none_iff hsuffix).mpr hdot)]
    · obtain ⟨m, hm, hchars⟩ := exists_outputName? hsuffix hdot
      rw [if_neg hdot, Output.last_of_name? hm, hchars]
  rw [withExtension_ofNames dirs n (outputExtension_ne_nil suffix?), Output.relative, hlast]

/-- **The output for a source** in some directories below the source directory. -/
theorem destination_ofNames {suffix? : Option String}
    (hsuffix : suffix?.filter (·.toList.contains '/') = none) (dirs : List Name) (n : Name)
    (target : Path) :
    destination (Path.ofNames (dirs ++ [n])) (some target) suffix?
      = .ok (target.join (⟨dirs, outputName? suffix? n⟩ : Output).relative) := by
  rw [destination, hsuffix]
  dsimp only
  rw [Path.withExtension_eq_relative hsuffix dirs n]

/-- A source below the source directory has the output that its way down gives. -/
theorem Project.destinationFor_below (p : Project) (names : List Name) :
    p.destinationFor (p.sourceDir.below names) =
      some <$> destination (Path.ofNames names) (some p.targetDir.path)
        p.settings.output.hashSuffix := by
  have hfrom : p.sourceDir.from? (p.sourceDir.below names) = some names :=
    Location.from?_eq_some_iff.mpr rfl
  unfold destinationFor relativeFrom?
  rw [List.findSome?_cons, hfrom]
  rfl

/-- **Outputs have the same name** just if their sources have the same stem. -/
theorem outputName?_eq_iff {suffix? : Option String}
    (hsuffix : suffix?.filter (·.toList.contains '/') = none) {n' : Name} :
    outputName? suffix? n = outputName? suffix? n' ↔ stem n.chars = stem n'.chars := by
  constructor
  · intro heq
    by_cases hdot : stem n.chars = ['.']
    · have hnone := (outputName?_eq_none_iff hsuffix).mpr hdot
      rw [hdot, (outputName?_eq_none_iff hsuffix).mp (heq ▸ hnone)]
    · have hdot' : stem n'.chars ≠ ['.'] := by
        rwa [Ne, ← outputName?_eq_none_iff hsuffix, ← heq, outputName?_eq_none_iff hsuffix]
      obtain ⟨m, hm, hchars⟩ := exists_outputName? hsuffix hdot
      obtain ⟨m', hm', hchars'⟩ := exists_outputName? hsuffix hdot'
      rw [hm, hm', Option.some.injEq] at heq
      rw [heq] at hchars
      exact List.append_cancel_right (hchars.symm.trans hchars')
  · intro heq
    rw [outputName?, outputName?, heq]

/-- **When an output is in the way of another**: their sources have the same stem in the same
directory, or the other source lies in directories of which one is called like the output. -/
theorem covers_iff {suffix? : Option String}
    (hsuffix : suffix?.filter (·.toList.contains '/') = none) {dirs dirs' : List Name}
    {n' : Name} :
    Output.Covers ⟨dirs, outputName? suffix? n⟩ ⟨dirs', outputName? suffix? n'⟩ ↔
      stem n.chars ≠ ['.'] ∧ (dirs = dirs' ∧ stem n.chars = stem n'.chars ∨
        ∃ m, outputName? suffix? n = some m ∧ dirs ++ [m] <+: dirs') := by
  unfold Output.Covers
  rw [Ne, outputName?_eq_none_iff hsuffix]
  refine and_congr_right fun hdot => ?_
  obtain ⟨m, hm, -⟩ := exists_outputName? hsuffix hdot
  rw [Output.names_of_name? hm]
  by_cases hdot' : stem n'.chars = ['.']
  · have hne : stem n.chars ≠ stem n'.chars := hdot'.symm ▸ hdot
    have hnone := (outputName?_eq_none_iff hsuffix).mpr hdot'
    rw [Output.names, hnone, Option.toList_none, List.append_nil, hm]
    simp [hne]
  · obtain ⟨m', hm', -⟩ := exists_outputName? hsuffix hdot'
    have hstem : m = m' ↔ stem n.chars = stem n'.chars := by
      rw [← outputName?_eq_iff hsuffix, hm, hm', Option.some.injEq]
    have hlast : dirs ++ [m] = dirs' ++ [m'] ↔ dirs = dirs' ∧ stem n.chars = stem n'.chars := by
      rw [← hstem]
      simp
    rw [Output.names_of_name? hm', List.prefix_concat_iff, hlast, hm]
    simp

/-! ### Plans -/

/-- A source with the place of its output. -/
structure Planned where
  source : Location
  output : Output
  deriving DecidableEq

namespace Planned

/-- The entry of a plan. -/
def entry (target : Location) (x : Planned) : PlanEntry :=
  (x.source.path, x.output.path target)

theorem fst_entry (target : Location) (x : Planned) : (x.entry target).1 = x.source.path := rfl

theorem snd_entry (target : Location) (x : Planned) :
    (x.entry target).2 = x.output.path target := rfl

/-- What is planned for the source called `n` in some directories below the source directory. -/
def ofSource (p : Project) (dirs : List Name) (n : Name) : Planned :=
  ⟨(p.sourceDir.below dirs).entry n, ⟨dirs, outputName? p.settings.output.hashSuffix n⟩⟩

end Planned

/-- No link is on the way from the target directory to an output of the plan. -/
def Project.NoLinkToOutputs (p : Project) (plan : List PlanEntry) (d : Disk) : Prop :=
  ∀ r, d.find p.targetDir.path = .ok (r, .directory) → ∀ entry ∈ plan, ∀ x : Output,
    entry.2 = x.path p.targetDir → d.tree.NoLinkOnWay r x.names

theorem Project.NoLinkToOutputs.noLinkOnWay {p : Project} {xs : List Planned}
    (h : p.NoLinkToOutputs (xs.map (Planned.entry p.targetDir)) d)
    (hfind : d.find p.targetDir.path = .ok (r, .directory)) :
    ∀ y ∈ xs.map Planned.output, d.tree.NoLinkOnWay r y.names := by
  intro y hy
  obtain ⟨x, hx, rfl⟩ := List.mem_map.mp hy
  exact h r hfind _ (List.mem_map_of_mem hx) x.output (x.snd_entry p.targetDir)

/-- A tree without links has none on the way to an output. -/
theorem Project.noLinkToOutputs_of_linkFree (p : Project) (plan : List PlanEntry)
    (h : d.tree.LinkFree) : p.NoLinkToOutputs plan d :=
  fun _ _ _ _ _ _ _ target _ => h _ target

/-- What is listed lies below the root of the search under the name of a stylesheet. -/
theorem exists_entry_of_mem_sourcesUnder {root l : Location} {options : FinderOptions}
    {sources : List Location} (h : sourcesUnder d root options = .ok sources) (hl : l ∈ sources) :
    ∃ dirs n, l = (root.below dirs).entry n ∧ n.isStylesheet = true := by
  obtain ⟨real, hroot⟩ := exists_find_of_sourcesUnder h
  obtain ⟨dirs, n, rfl, -, -, -, hlisted⟩ := (mem_sourcesUnder hroot h).mp hl
  refine ⟨dirs, n, rfl, ?_⟩
  rw [isListed, Location.isStylesheet, Location.fileName?, Location.names_entry,
    List.getLast?_concat, Option.any_some] at hlisted
  by_contra hnot
  rw [Bool.not_eq_true] at hnot
  rw [hnot] at hlisted
  cases hlisted

namespace Pipeline

variable {p : Pipeline} {plan : List PlanEntry}

/-- The sources of a plan come from a search. -/
theorem exists_sourcesUnder_of_plan (h : p.plan d = .ok plan) : ∃ options sources,
    p.project.finderOptions = .ok options ∧
    sourcesUnder d p.project.sourceDir { options with absolute := false } = .ok sources ∧
    (sources.filterMap fun l =>
        (p.project.sourceDir.from? l).map Path.ofNames).mapM (fun relative =>
      (fun output => (p.project.sourceDir.path.join relative, output)) <$>
        destination relative (some p.project.targetDir.path) options.hashSuffix) = .ok plan := by
  unfold Pipeline.plan at h
  split at h
  · cases h
  · rename_i options hoptions
    split at h
    · cases h
    · rename_i plan' hmirror
      cases h
      unfold mirrorSources compilableSources at hmirror
      rw [Disk.locate_path] at hmirror
      cases hsources : sourcesUnder d p.project.sourceDir { options with absolute := false } with
      | error e =>
        rw [hsources] at hmirror
        cases hmirror
      | ok sources =>
        rw [hsources] at hmirror
        exact ⟨options, sources, hoptions, hsources, hmirror⟩

theorem finderOptions_hashSuffix {p : Project} {options : FinderOptions}
    (h : p.finderOptions = .ok options) : options.hashSuffix = p.settings.output.hashSuffix := by
  unfold Project.finderOptions at h
  split at h <;> cases h
  rfl

/-- What is planned for sources that lie in the source directory. -/
theorem exists_planned_of_mapM {sources : List Location}
    (hsources : ∀ l ∈ sources, ∃ dirs n, l = (p.project.sourceDir.below dirs).entry n)
    (h : (sources.filterMap fun l =>
        (p.project.sourceDir.from? l).map Path.ofNames).mapM (fun relative =>
      (fun output => (p.project.sourceDir.path.join relative, output)) <$>
        destination relative (some p.project.targetDir.path) p.project.settings.output.hashSuffix)
      = .ok plan) :
    ∃ planned : List Planned, plan = planned.map (Planned.entry p.project.targetDir) ∧
      planned.map Planned.source = sources ∧
      ∀ x ∈ planned, ∃ dirs n, x = Planned.ofSource p.project dirs n := by
  induction sources generalizing plan with
  | nil =>
    cases h
    exact ⟨[], rfl, rfl, by simp⟩
  | cons l sources ih =>
    obtain ⟨⟨dirs, n, rfl⟩, hrest⟩ := List.forall_mem_cons.mp hsources
    have hfrom : p.project.sourceDir.from? ((p.project.sourceDir.below dirs).entry n)
        = some (dirs ++ [n]) :=
      Location.from?_eq_some_iff.mpr (Location.below_concat _ _ _).symm
    rw [List.filterMap_cons, hfrom, Option.map_some] at h
    dsimp only at h
    rw [mapM_cons_eq] at h
    cases hsuffix : p.project.settings.output.hashSuffix.filter (·.toList.contains '/') with
    | some suffix =>
      -- A suffix with a slash in it lets every destination fail.
      rw [destination, hsuffix] at h
      cases h
    | none =>
      rw [destination_ofNames hsuffix dirs n, Output.join_relative,
        Location.join_ofNames] at h
      split at h
      · cases h
      · rename_i entry hentry
        split at h
        · cases h
        · rename_i plan' hplan
          cases h
          obtain rfl := Except.ok.inj hentry
          obtain ⟨planned, rfl, rfl, hplanned⟩ := ih hrest hplan
          exact ⟨Planned.ofSource p.project dirs n :: planned, rfl, rfl,
            List.forall_mem_cons.mpr ⟨⟨dirs, n, rfl⟩, hplanned⟩⟩

/-- **What a plan is.**  Each source lies in the source directory, and its output has a place below
the target directory. -/
theorem exists_planned (h : p.plan d = .ok plan) : ∃ options sources,
    p.project.finderOptions = .ok options ∧
    sourcesUnder d p.project.sourceDir { options with absolute := false } = .ok sources ∧
    ∃ planned : List Planned, plan = planned.map (Planned.entry p.project.targetDir) ∧
      planned.map Planned.source = sources ∧
      ∀ x ∈ planned, ∃ dirs n, x = Planned.ofSource p.project dirs n := by
  obtain ⟨options, sources, hoptions, hsources, hplan⟩ := exists_sourcesUnder_of_plan h
  rw [finderOptions_hashSuffix hoptions] at hplan
  have hbelow : ∀ l ∈ sources, ∃ dirs n, l = (p.project.sourceDir.below dirs).entry n := by
    intro l hl
    obtain ⟨dirs, n, hln, -⟩ := exists_entry_of_mem_sourcesUnder hsources hl
    exact ⟨dirs, n, hln⟩
  exact ⟨options, sources, hoptions, hsources, exists_planned_of_mapM hbelow hplan⟩

end Pipeline

end SheetGraph
