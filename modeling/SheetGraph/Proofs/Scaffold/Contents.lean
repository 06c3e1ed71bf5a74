import SheetGraph.Proofs.Graph.Dependency
import SheetGraph.Proofs.Graph.Indexing
import SheetGraph.Proofs.Lookup
import SheetGraph.Proofs.Scaffold.NewDirectory
import SheetGraph.Proofs.Stylesheet.Removal
import SheetGraph.Proofs.Toml.Comment
import SheetGraph.Settings.File

/-!
# A new project works

The name of a project stands in a comment in its settings file and in one in its main stylesheet.
As long as it has no newline the comments end where they should.  Then what is behind them is always
the same, and it is read once and for all: the settings are the defaults, and the main stylesheet
imports the partial.  The settings are refused just if the name may not stand in a comment.

`scaffold_works` puts this together with what lies in the directory of the project
(`hasEntries_of_scaffold`).
-/

namespace SheetGraph

open CommentScanner (atText inLine start)

namespace Scaffold

variable {name : String}

/-! ### The texts behind the comments -/

theorem toList_intercalate_append (start name : String) {lines : List String} (hne : lines ≠ []) :
    ("\n".intercalate ((start ++ name) :: lines)).toList
      = start.toList ++ (name.toList ++ '\n' :: ['\n'].intercalate (lines.map String.toList)) := by
  rw [String.toList_intercalate, List.map_cons,
    List.intercalate_cons_of_ne_nil (by simpa using hne), String.toList_append,
    List.append_assoc, List.append_assoc]
  rfl

/-- Behind the comment the settings file of a new project holds the defaults. -/
theorem exists_settingsText : ∃ rest : List Char,
    (∀ name, (settingsText name).toList
      = "# stylegraph settings for ".toList ++ (name.toList ++ '\n' :: rest)) ∧
    (Toml.statements? (rest.length + 1) .empty rest).bind
      (fun doc => Settings.decode? .toml (.table (Toml.Node.fieldValues doc.fields)))
        = some {} := by
  refine ⟨_, fun name => toList_intercalate_append _ name (List.cons_ne_nil _ _), ?_⟩
  simp only [List.map_cons, List.map_nil, String.reduceToList]
  decide +kernel

/-- Behind the comment the main stylesheet of a new project imports the partial. -/
theorem exists_mainText : ∃ rest : List Char,
    (∀ name, (mainText name).toList = "// ".toList ++ (name.toList ++ '\n' :: rest)) ∧
    imports .braces ('\n' :: rest) = .ok ["variables"] := by
  refine ⟨_, fun name => toList_intercalate_append _ name (List.cons_ne_nil _ _), ?_⟩
  simp only [List.map_cons, List.map_nil, String.reduceToList]
  decide +kernel

/-! ### What is read -/

/-- **The settings of a new project** are the defaults, if its name may stand in a comment. -/
theorem parseSettings_settingsText (hname : '\n' ∉ name.toList) :
    parseSettings .toml (settingsText name)
      = if Toml.isCommentText name.toList then .ok {} else .error .badToml := by
  obtain ⟨rest, hrest, hread⟩ := exists_settingsText
  obtain ⟨doc, hdoc, hdecode⟩ := Option.bind_eq_some_iff.mp hread
  have hcomment : '\n' ∉ " stylegraph settings for ".toList ++ name.toList := by
    rw [List.mem_append, not_or]
    exact ⟨by decide, hname⟩
  have hplain : Toml.isCommentText (" stylegraph settings for ".toList ++ name.toList)
      = Toml.isCommentText name.toList := by
    rw [Toml.isCommentText, List.dropWhile_append_of_pos (List.all_eq_true.mp (by decide))]
    rfl
  have htext : (settingsText name).toList
      = '#' :: (" stylegraph settings for ".toList ++ name.toList ++ '\n' :: rest) := by
    rw [hrest, List.append_assoc]
    rfl
  rw [parseSettings, htext, Toml.read?_comment hcomment hdoc, hplain]
  cases Toml.isCommentText name.toList with
  | true => rw [if_pos rfl, if_pos rfl, Option.bind_some, hdecode]
  | false => rfl

/-- **The main stylesheet of a new project** imports the partial. -/
theorem imports_mainText (hname : '\n' ∉ name.toList) :
    imports .braces (mainText name).toList = .ok ["variables"] := by
  obtain ⟨rest, hrest, hread⟩ := exists_mainText
  have hcomment : '\n' ∉ ' ' :: name.toList := by
    rw [List.mem_cons, not_or]
    exact ⟨by decide, hname⟩
  have htext : (mainText name).toList = '/' :: '/' :: (' ' :: name.toList) ++ '\n' :: rest := by
    rw [hrest]
    rfl
  have hremoved : removeComments (mainText name).toList = removeComments ('\n' :: rest) := by
    have hline : start.scan ('/' :: '/' :: (' ' :: name.toList)) = inLine [] :=
      CommentScanner.scan_line hcomment []
    rw [removeComments, removeComments, htext, CommentScanner.scan_append, hline]
    rfl
  rw [imports_of_removeComments_eq hremoved, hread]

theorem imports_variablesText : imports .braces variablesText.toList = .ok [] := by
  decide +kernel

/-! ### The files of a new project -/

section Files

variable {d : Disk} {path : Path} {l r : Location} {n : Name}

/-- The text of a file that a path leads to. -/
theorem readText_of_find {p : Path} {k : Location} {text : String}
    (h : d.find p = .ok (k, .file text.toUTF8)) : d.readText p = .ok text := by
  refine Disk.readText_eq_ok_iff.mpr ⟨text.toUTF8, Disk.readBytes_eq_ok_iff.mpr ⟨k, h⟩, ?_⟩
  rw [String.fromUTF8?]
  exact dif_pos text.isValidUTF8

/-- The files of the directory of sources. -/
theorem lookup_newEntries (hmain : n ≠ mainName) (hvariables : n ≠ variablesName) :
    (newEntries name).lookup [sourceName, n] = none := by
  have htarget : (sourceName == targetName) = false := by
    decide
  rw [← beq_eq_false_iff_ne] at hmain hvariables
  simp [newEntries, List.lookup_cons, htarget, hmain, hvariables]

variable (h : d.HasEntries path r (newEntries name))

include h in
/-- **The settings file of a new project** is read as TOML. -/
theorem loadSettings_eq : loadSettings d (some (path.child "stylegraph.toml"))
    = (parseSettings .toml (settingsText name)).bind checkSettings := by
  have hsegments : (⟨"stylegraph.toml"⟩ : Path).segments = [settingsName.chars] := by
    decide
  have hfile : d.tree.get? (r.entry settingsName) = some (.file (settingsText name).toUTF8) :=
    h.get?_eq [settingsName] (List.cons_ne_nil _ _)
  have htext := readText_of_find (h.dirAt.find_child hsegments hfile Entry.file_ne_link)
  have hformat : formatOf? (path.child "stylegraph.toml") = some .toml := by
    obtain ⟨-, front, hchild, -⟩ := path.exists_segments_child
      (Path.relative_of_segments (List.cons_ne_nil settingsName []) hsegments).1
    rw [hsegments] at hchild
    rw [formatOf?, Path.extension?, Path.fileName?_of_segments hchild]
    decide
  have hload : loadSettings d (some (path.child "stylegraph.toml"))
      = loadSettingsFile d (path.child "stylegraph.toml") := rfl
  rw [hload, loadSettingsFile, htext]
  dsimp only
  rw [hformat]
  dsimp only
  cases parseSettings .toml (settingsText name) with
  | error e => rfl
  | ok s => rfl

/-- What the target of the main stylesheet may stand for. -/
def variablesCandidates : List Name :=
  [⟨"variables.scss", by decide⟩, variablesName, ⟨"variables.sass", by decide⟩,
    ⟨"_variables.sass", by decide⟩, ⟨"variables.css", by decide⟩, ⟨"_variables.css", by decide⟩]

theorem mem_candidatePaths_variables (base : Location) {k : Location} :
    (∃ p ∈ candidatePaths "variables", p.locateFrom base = k) ↔
      ∃ n ∈ variablesCandidates, base.entry n = k := by
  have hcomponents : (candidatePaths "variables").map Path.components
      = variablesCandidates.map fun n => [.name n] := by
    decide +kernel
  have hlocations : (candidatePaths "variables").map (·.locateFrom base)
      = variablesCandidates.map base.entry := by
    have hfolded := congrArg (List.map fun cs => cs.foldl Location.step base) hcomponents
    rw [List.map_map, List.map_map] at hfolded
    exact hfolded
  rw [← List.mem_map, ← List.mem_map, hlocations]

theorem below_source (l : Location) (n : Name) :
    l.below [sourceName, n] = (l.below [sourceName]).entry n :=
  Location.below_concat l [sourceName] n

variable (hl : d.DirAt l.path r)

include h hl in
/-- What a new project holds is found where it is. -/
theorem find_below_of_lookup (n : Name) (names : List Name) {e : Entry}
    (hn : (newEntries name).lookup (n :: names) = some e) (he : ∀ target, e ≠ .link target) :
    d.find (l.below (n :: names)).path = .ok (r.below (n :: names), e) := by
  have hget : d.tree.get? (r.below (n :: names)) = some e :=
    (h.get?_eq _ (List.cons_ne_nil n names)).trans hn
  exact Disk.find_below (hl.find_eq (Location.isEmpty_path l))
    (FileTree.noLinkOnWay_of_get? hget he) hget

include h hl in
/-- **The directory of sources** holds one file for the target of the main stylesheet. -/
theorem holds_variables_iff {k : Location} :
    Holds d (.of (l.below [sourceName])) "variables" k ↔
      k = l.below [sourceName, variablesName] := by
  constructor
  · rintro ⟨p, hp, hk, hfile⟩
    obtain ⟨n, hn, rfl⟩ := (mem_candidatePaths_variables _).mp ⟨p, hp, hk⟩
    have hmain : ∀ n ∈ variablesCandidates, n ≠ mainName := by
      decide
    by_cases hvariables : n = variablesName
    · rw [hvariables, below_source]
      rfl
    · -- No other candidate is there.
      have hsource := find_below_of_lookup h hl sourceName [] rfl Entry.directory_ne_link
      have hnone : d.tree.get? ((r.below [sourceName]).entry n) = none := by
        rw [← Location.below_concat, h.get?_eq _ (by simp)]
        exact lookup_newEntries (hmain n hn) hvariables
      have hmissing := Disk.find_entry_of_none hsource hnone
      obtain ⟨k, content, hfind⟩ := Disk.isFile_iff.mp hfile
      have heq := hmissing.symm.trans hfind
      cases heq
  · rintro rfl
    obtain ⟨p, hp, hk⟩ := (mem_candidatePaths_variables (l.below [sourceName])).mpr
      ⟨variablesName, by decide, (below_source l variablesName).symm⟩
    have hfind := find_below_of_lookup h hl sourceName [variablesName] rfl Entry.file_ne_link
    exact ⟨p, hp, hk, Disk.isFile_iff.mpr ⟨_, _, hfind⟩⟩

/-- What does not have the extension of the indented syntax is read with braces. -/
theorem syntaxMode_path_entry {dir : Location}
    (hn : ¬ (extension? n.chars).any (Text.sameLetters "sass".toList) = true) :
    (dir.entry n).path.syntaxMode = .braces := by
  rw [Path.syntaxMode, Path.hasExtension, Path.extension?, Location.fileName?_path,
    Location.fileName?_entry]
  exact if_neg hn

include h hl in
theorem readImports_main (hname : '\n' ∉ name.toList) :
    readImports d [] (l.below [sourceName, mainName])
      = .ok [l.below [sourceName, variablesName]] := by
  have htext := readText_of_find
    (find_below_of_lookup h hl sourceName [mainName] rfl Entry.file_ne_link)
  have hroot : (l.below [sourceName]).entry mainName ≠ .root := by
    intro hroot
    have hnames := congrArg Location.names hroot
    simp [Location.root] at hnames
  have hbases : d.searchBases (l.below [sourceName, mainName]) []
      = [.of (l.below [sourceName])] := by
    rw [below_source, Disk.searchBases, Disk.baseOf, if_neg hroot, Location.parent_entry]
    rfl
  have hresolve : resolve d (l.below [sourceName, mainName]) ["variables"] []
      = .ok [l.below [sourceName, variablesName]] := by
    rw [resolve, hbases, mapM_eq_ok_iff]
    refine .cons (resolveTarget_eq_ok_iff.mpr (standsFor_cons_iff.mpr (Or.inl ?_))) .nil
    exact fun k => holds_variables_iff h hl
  refine readImports_eq_ok_iff.mpr ⟨_, _, _, htext, ?_, hresolve, rfl⟩
  rw [below_source, syntaxMode_path_entry (by decide)]
  exact imports_mainText hname

include h hl in
theorem readImports_variables :
    readImports d [] (l.below [sourceName, variablesName]) = .ok [] := by
  have htext := readText_of_find
    (find_below_of_lookup h hl sourceName [variablesName] rfl Entry.file_ne_link)
  refine readImports_eq_ok_iff.mpr ⟨_, [], [], htext, ?_, rfl, rfl⟩
  rw [below_source, syntaxMode_path_entry (by decide)]
  exact imports_variablesText

include h hl in
/-- **Inspecting the main stylesheet** of a new project finds the partial. -/
theorem exists_inspect (hname : '\n' ∉ name.toList) :
    ∃ g, Graph.empty.inspect d [] [l.below [sourceName, mainName]] = .ok g ∧
      g.directChildren (l.below [sourceName, mainName])
        = [l.below [sourceName, variablesName]] := by
  have hmain := readImports_main h hl hname
  have hvariables := readImports_variables h hl
  have hne : l.below [sourceName, variablesName] ≠ l.below [sourceName, mainName] := by
    intro heq
    exact absurd (List.append_cancel_left (congrArg Location.names heq)) (by decide)
  -- The partial imports nothing, and the main stylesheet only the partial.
  have hnone : Preorder (nextOf (readImports d [])) Graph.empty.isIndexed
      ([l.below [sourceName, mainName]] ++ [l.below [sourceName, variablesName]])
      (nextOf (readImports d []) (l.below [sourceName, variablesName])) [] := by
    rw [nextOf_of_ok hvariables]
    exact .nil
  have hbelow : Preorder (nextOf (readImports d [])) Graph.empty.isIndexed
      [l.below [sourceName, mainName]]
      (nextOf (readImports d []) (l.below [sourceName, mainName]))
      [l.below [sourceName, variablesName]] := by
    rw [nextOf_of_ok hmain]
    exact .visit rfl (by simpa using hne) hnone .nil
  have horder : Preorder (nextOf (readImports d [])) Graph.empty.isIndexed []
      [l.below [sourceName, mainName]]
      [l.below [sourceName, mainName], l.below [sourceName, variablesName]] :=
    .visit rfl List.not_mem_nil hbelow .nil
  have hreadable : ∀ k ∈ [l.below [sourceName, mainName], l.below [sourceName, variablesName]],
      Readable d [] k := by
    rw [List.forall_mem_cons, List.forall_mem_singleton]
    exact ⟨exists_readImports_eq_ok_iff.mp ⟨_, hmain⟩,
      exists_readImports_eq_ok_iff.mp ⟨_, hvariables⟩⟩
  obtain ⟨g, hg⟩ := (Graph.exists_inspect_eq_ok_iff horder).mpr hreadable
  have hindexes := Graph.indexes_of_inspect hg
  have hmem := (hindexes.mem_order_iff _).mpr (Or.inl List.mem_cons_self)
  have hread := hindexes.readImports_eq _ hmem
  rw [hmain] at hread
  exact ⟨g, hg, (Except.ok.inj hread).symm⟩

end Files

end Scaffold

open Scaffold

/-- **A project that was laid out where nothing is works**, if its name is on one line.  Its
settings are the defaults, as long as the name may stand in a comment, and else they are refused.
However the directory is named, inspecting the main stylesheet in it finds the partial. -/
theorem scaffold_works {d d' : Disk} {path : Path} {name : String} {written : List Path}
    (hcwd : d.tree.isDirectory d.cwd = true) (hnew : d.MakesEmpty path)
    (hname : '\n' ∉ name.toList) (h : scaffold d path name = (d', .ok written)) :
    loadSettings d' (some (path.child "stylegraph.toml"))
      = (if Toml.isCommentText name.toList then .ok {} else .error .badToml) ∧
    ∃ r, d'.DirAt path r ∧ ∀ l : Location, d'.DirAt l.path r →
      ∃ g, Graph.empty.inspect d' [] [l.below [sourceName, mainName]] = .ok g ∧
        g.directChildren (l.below [sourceName, mainName])
          = [l.below [sourceName, variablesName]] := by
  obtain ⟨r, hr⟩ := hasEntries_of_scaffold hcwd hnew h
  refine ⟨?_, r, hr.dirAt, fun l hl => exists_inspect hr hl hname⟩
  have hvalid : checkSettings {} = .ok {} := by
    decide
  rw [loadSettings_eq hr, parseSettings_settingsText hname]
  cases Toml.isCommentText name.toList with
  | true => exact hvalid
  | false => rfl

/-- A disk on which nothing is. -/
def freshDisk : Disk := ⟨.empty, .root⟩

theorem makesEmpty_freshDisk : freshDisk.MakesEmpty ⟨"site"⟩ := by
  have hclimbs : freshDisk.ClimbsWithin ⟨"site"⟩ :=
    Disk.climbsWithin_of_not_mem (by decide) (by decide)
  refine hclimbs.makesEmpty (by decide) fun r hr => ?_
  have hvacant : freshDisk.look ⟨"site"⟩ = .ok (.vacant siteRoot) := by
    decide
  have heq := hvacant.symm.trans hr.1
  cases heq

/-- A project on a disk on which nothing else is. -/
theorem scaffold_works_fresh : ∃ d' written,
    scaffold freshDisk ⟨"site"⟩ "my // site*/" = (d', .ok written) ∧
    loadSettings d' (some ⟨"site/stylegraph.toml"⟩) = .ok {} ∧
    ∃ g, Graph.empty.inspect d' [] [siteRoot.below [sourceName, mainName]] = .ok g ∧
      g.directChildren (siteRoot.below [sourceName, mainName])
        = [siteRoot.below [sourceName, variablesName]] := by
  have hrun : let outcome := scaffold freshDisk ⟨"site"⟩ "my // site*/"
      outcome.2.isOk = true ∧ outcome.1.look ⟨"site"⟩ = outcome.1.look siteRoot.path := by
    decide +kernel
  generalize hscaffold : scaffold freshDisk ⟨"site"⟩ "my // site*/" = outcome at hrun
  obtain ⟨d', result⟩ := outcome
  obtain ⟨hresult, hlook⟩ := hrun
  cases result with
  | error e => cases hresult
  | ok written =>
    obtain ⟨hload, r, hr, hinspect⟩ :=
      scaffold_works (by decide) makesEmpty_freshDisk (by decide) hscaffold
    exact ⟨d', written, rfl, hload, hinspect siteRoot ⟨hlook.symm.trans hr.1, hr.2⟩⟩

/-- **A name on two lines breaks the settings file** of a new project. -/
theorem scaffold_breaks_settings : ∃ d' written,
    scaffold freshDisk ⟨"site"⟩ "a\nb" = (d', .ok written) ∧
    loadSettings d' (some ⟨"site/stylegraph.toml"⟩) = .error .badToml := by
  have hrun : (scaffold freshDisk ⟨"site"⟩ "a\nb").2.isOk = true := by
    decide +kernel
  have hparse : parseSettings .toml (settingsText "a\nb") = .error .badToml := by
    rw [parseSettings, settingsText, String.toList_intercalate]
    simp only [List.map_cons, List.map_nil, String.toList_append, String.reduceToList]
    decide +kernel
  generalize hscaffold : scaffold freshDisk ⟨"site"⟩ "a\nb" = outcome at hrun
  obtain ⟨d', result⟩ := outcome
  cases result with
  | error e => cases hrun
  | ok written =>
    obtain ⟨r, hr⟩ := hasEntries_of_scaffold (by decide) makesEmpty_freshDisk hscaffold
    refine ⟨d', written, rfl, (loadSettings_eq hr).trans ?_⟩
    rw [hparse]
    rfl

end SheetGraph
