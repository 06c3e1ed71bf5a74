import SheetGraph.Scaffold
import SheetGraph.Proofs.FileTree.Directories

/-!
# Laying out a project

However laying out a project ends, what was there before is still there, and what has come are
directories and the files that are told (`scaffold_keeps`).

The stylesheets are looked for right before they are written, so they only come where nothing is
(`Scaffold.creates_writeItems`).  The settings file is looked for before the directories are made.
Nothing comes to its place in between if the path of the project goes up only where something is,
and no link leads out of the project: the directory of the project was there before or is new
(`Disk.dirAt_of_createDirs`).  `scaffold_overwrites_settings` has a path that goes up behind a
directory that is made on the way.
-/

namespace SheetGraph

namespace Disk

variable {d d' d'' : Disk} {p : Path} {ps : List Path} {l : Location} {e : Entry}
  {content : ByteArray}

/-- There is no link in the directory that the path leads to. -/
def NoLinksIn (d : Disk) (p : Path) : Prop :=
  ∀ r, d.DirAt p r → ∀ names target, d.tree.get? (r.below names) ≠ some (.link target)

/-! ### Files that are created -/

/-- Where the path leads there is a file where nothing was, and nothing else has changed. -/
structure FileCreated (d : Disk) (p : Path) (d' : Disk) : Prop where
  cwd_eq : d'.cwd = d.cwd
  absent : d.contains p = false
  created : ∃ l, d.tree.get? l = none ∧ d'.LeadsTo p l ∧
    ∀ k, k ≠ l → d'.tree.get? k = d.tree.get? k

/-- A file has been created for each path, one after the other. -/
inductive CreatedInTurn : Disk → List Path → Disk → Prop
  | nil (d : Disk) : CreatedInTurn d [] d
  | cons {d d' d'' : Disk} {p : Path} {ps : List Path} :
      d.FileCreated p d' → CreatedInTurn d' ps d'' → CreatedInTurn d (p :: ps) d''

/-- All that was there is still there. -/
def Keeps (d d' : Disk) : Prop :=
  ∀ l e, d.tree.get? l = some e → d'.tree.get? l = some e

theorem Keeps.trans (h : d.Keeps d') (h' : d'.Keeps d'') : d.Keeps d'' :=
  fun l e he => h' l e (h l e he)

theorem Keeps.grows (h : d.Keeps d') : d.tree.Grows d'.tree :=
  fun l e he => ⟨e, h l e he, SameKind.refl e⟩

theorem DirsAdded.keeps (h : DirsAdded d d') : d.Keeps d' := by
  intro l e he
  rcases h.get?_eq_or l with hsame | ⟨hnone, -⟩
  · rw [hsame, he]
  · rw [he] at hnone
    cases hnone

theorem FileCreated.keeps (h : d.FileCreated p d') : d.Keeps d' := by
  intro l e he
  obtain ⟨k, hnone, -, hrest⟩ := h.created
  rw [hrest l, he]
  rintro rfl
  rw [he] at hnone
  cases hnone

theorem isDirectory_cwd_of_grows (hgrows : d.tree.Grows d'.tree) (heq : d'.cwd = d.cwd)
    (hcwd : d.tree.isDirectory d.cwd = true) : d'.tree.isDirectory d'.cwd = true := by
  rw [heq]
  exact hgrows.isDirectory hcwd

theorem sound_look {landing : Landing} (hcwd : d.tree.isDirectory d.cwd = true)
    (h : d.look p = .ok landing) : d.tree.Sound landing := by
  unfold look at h
  split at h
  · cases h
  · exact FileTree.sound_walk _ _ _ (isDirectory_start hcwd p) h

/-- **A write to a path that leads to nothing** creates a file. -/
theorem fileCreated_of_write (hcwd : d.tree.isDirectory d.cwd = true)
    (habsent : d.contains p = false) (h : d.write p content = .ok d') : d.FileCreated p d' := by
  obtain ⟨l, hput, hgrows, hfind⟩ := exists_write (isDirectory_start hcwd p) h
  have hnone : d.tree.get? l = none := by
    unfold write at h
    split at h
    · cases h
    · rename_i v hlook
      cases h
      have hvacant := sound_look hcwd hlook
      -- There is a file at both places and nothing was at one of them, so they are the same.
      have hl : l = v := by
        by_contra hne
        have hfile := FileTree.get?_put_self (e := .file content) hvacant.2
        rw [(Disk.mk.inj hput).1, FileTree.get?_put_of_ne (Ne.symm hne), hvacant.1] at hfile
        cases hfile
      rw [hl]
      exact hvacant.1
    · rename_i v hlook
      obtain ⟨e, he, -⟩ := sound_look hcwd hlook
      have hthere := contains_iff.mpr ⟨v, e, find_eq_ok_iff.mpr ⟨hlook, he⟩⟩
      rw [habsent] at hthere
      cases hthere
  refine ⟨by rw [hput], habsent, l, hnone, ⟨content, hfind⟩, fun k hk => ?_⟩
  rw [hput]
  exact FileTree.get?_put_of_ne hk

namespace CreatedInTurn

theorem cwd_eq (h : d.CreatedInTurn ps d') : d'.cwd = d.cwd := by
  induction h with
  | nil => rfl
  | cons hfirst _ ih => rw [ih, hfirst.cwd_eq]

theorem keeps (h : d.CreatedInTurn ps d') : d.Keeps d' := by
  induction h with
  | nil => exact fun _ _ he => he
  | cons hfirst _ ih => exact hfirst.keeps.trans ih

/-- Each path leads to a file. -/
theorem exists_leadsTo (h : d.CreatedInTurn ps d') (hp : p ∈ ps) : ∃ l, d'.LeadsTo p l := by
  induction h with
  | nil => cases hp
  | cons hfirst hrest ih =>
    rcases List.mem_cons.mp hp with rfl | hp
    · obtain ⟨l, -, hleads, -⟩ := hfirst.created
      exact ⟨l, hleads.of_grows hrest.keeps.grows hrest.cwd_eq⟩
    · exact ih hp

/-- **The files that are new** are those that the paths lead to. -/
theorem file_iff (h : d.CreatedInTurn ps d') :
    (d.tree.get? l = none ∧ ∃ content, d'.tree.get? l = some (.file content)) ↔
      ∃ p ∈ ps, d'.LeadsTo p l := by
  induction h with
  | nil =>
    constructor
    · rintro ⟨hnone, content, hfile⟩
      rw [hnone] at hfile
      cases hfile
    · rintro ⟨p, hp, -⟩
      cases hp
  | @cons d made d' p ps hfirst hrest ih =>
    obtain ⟨k, hnone, hleads, hother⟩ := hfirst.created
    have hthere : made.tree.get? k ≠ none := by
      obtain ⟨content, hfind⟩ := hleads
      rw [(find_eq_ok_iff.mp hfind).2]
      exact Option.some_ne_none _
    have hleads' := hleads.of_grows hrest.keeps.grows hrest.cwd_eq
    rw [List.exists_mem_cons_iff, ← ih]
    by_cases hl : l = k
    · subst hl
      refine ⟨fun _ => Or.inl hleads', fun _ => ⟨hnone, ?_⟩⟩
      obtain ⟨content, hfind⟩ := hleads'
      exact ⟨content, (find_eq_ok_iff.mp hfind).2⟩
    · rw [hother l hl, or_iff_right fun h => hl (h.eq hleads')]

end CreatedInTurn

end Disk

namespace Scaffold

variable {d d' : Disk} {path : Path} {name : String}

/-! ### Names -/

/-- The name of the settings file. -/
def settingsName : Name := ⟨"stylegraph.toml", by decide⟩

theorem isName_source : isName "scss".toList = true := by
  decide

/-- The name of the directory of sources. -/
def sourceName : Name := ⟨"scss", isName_source⟩

theorem isName_target : isName "css".toList = true := by
  decide

/-- The name of the directory of outputs. -/
def targetName : Name := ⟨"css", isName_target⟩

theorem isName_main : isName "main.scss".toList = true := by
  decide

/-- The name of the main stylesheet. -/
def mainName : Name := ⟨"main.scss", isName_main⟩

/-- The name of the partial. -/
def variablesName : Name := ⟨"_variables.scss", by decide⟩

/-- The name of the file that keeps the directory of outputs. -/
def keepName : Name := ⟨".gitkeep", by decide⟩

/-! ### One step after the other -/

/-- Directories that were made. -/
theorem dirsAdded_makeDirs (d : Disk) (dirs : List Path) : d.DirsAdded (makeDirs d dirs).1 := by
  induction dirs generalizing d with
  | nil => exact Disk.DirsAdded.refl d
  | cons dir dirs ih =>
    have hadded := Disk.dirsAdded_createDirAll d dir
    rw [makeDirs]
    split
    · rename_i made e hmade
      rwa [hmade] at hadded
    · rename_i made hmade
      rw [hmade] at hadded
      exact hadded.trans (ih made)

theorem exists_of_makeDirs_cons {dir : Path} {dirs : List Path}
    (h : makeDirs d (dir :: dirs) = (d', .ok ())) :
    ∃ first, d.createDirAll dir = (first, .ok ()) ∧ makeDirs first dirs = (d', .ok ()) := by
  rw [makeDirs] at h
  split at h
  · cases h
  · rename_i first hfirst
    exact ⟨first, hfirst, h⟩

/-- A file has been created for each of some paths, and if all went well these are told. -/
def Creates (d : Disk) (outcome : Disk × Except ScaffoldError (List Path)) : Prop :=
  ∃ ps, d.CreatedInTurn ps outcome.1 ∧ ∀ written, outcome.2 = .ok written → written = ps

theorem Creates.error (d : Disk) (e : ScaffoldError) : Creates d (d, .error e) :=
  ⟨[], .nil d, fun written hwritten => by cases hwritten⟩

theorem Creates.cons {p : Path} {made : Disk} {outcome : Disk × Except ScaffoldError (List Path)}
    (hfirst : d.FileCreated p made) (h : Creates made outcome) :
    Creates d (outcome.1, (p :: ·) <$> outcome.2) := by
  obtain ⟨ps, hps, hresult⟩ := h
  refine ⟨p :: ps, .cons hfirst hps, fun written hwritten => ?_⟩
  cases hrest : outcome.2 with
  | error e =>
    rw [hrest] at hwritten
    cases hwritten
  | ok rest =>
    rw [hrest] at hwritten
    rw [← hresult rest hrest]
    exact (Except.ok.inj hwritten).symm

/-- **Files that are written where nothing is** are created, up to the first that cannot be
written. -/
theorem creates_writeItems {items : List Item} (hcwd : d.tree.isDirectory d.cwd = true)
    (hkept : ∀ item ∈ items, item.replaces = false) : Creates d (writeItems d items) := by
  induction items generalizing d with
  | nil => exact ⟨[], .nil d, fun written hwritten => (Except.ok.inj hwritten).symm⟩
  | cons item items ih =>
    obtain ⟨hitem, hrest⟩ := List.forall_mem_cons.mp hkept
    rw [writeItems, hitem]
    split
    · exact ih hcwd hrest
    · rename_i habsent
      simp only [Bool.not_false, Bool.true_and, Bool.not_eq_true] at habsent
      split
      · exact Creates.error d _
      · rename_i made hmade
        have hcreated := Disk.fileCreated_of_write hcwd habsent hmade
        have hcwd' := Disk.isDirectory_cwd_of_grows hcreated.keeps.grows hcreated.cwd_eq hcwd
        exact (ih hcwd' hrest).cons hcreated

/-- A settings file that was not found is not there. -/
theorem contains_eq_false_of_existing? (h : existing? d path = none) :
    d.contains (path.child "stylegraph.toml") = false := by
  rw [existing?, List.find?_eq_none] at h
  exact Bool.eq_false_iff.mpr (h _ List.mem_cons_self)

/-- **Nothing was at the place of the settings file** if it was not found there. -/
theorem settings_eq_none {made : Disk} (hcwd : d.tree.isDirectory d.cwd = true)
    (hclimbs : d.ClimbsWithin path) (hlinks : d.NoLinksIn path)
    (habsent : d.contains (path.child "stylegraph.toml") = false)
    (h : d.createDirAll path = (made, .ok ())) :
    ∃ r, made.DirAt path r ∧ d.tree.get? (r.entry settingsName) = none := by
  obtain ⟨r, hr, hnew⟩ := Disk.dirAt_of_createDirs _ hcwd hclimbs.stepsOf h
  refine ⟨r, hr, ?_⟩
  rw [Option.eq_none_iff_forall_ne_some]
  intro e he
  rcases hnew with rfl | ⟨hnone, -⟩
  · have hlink : ∀ target, e ≠ .link target := by
      rintro target rfl
      exact hlinks r hr [settingsName] target he
    have hthere := Disk.contains_iff.mpr ⟨_, _, hr.find_child (t := "stylegraph.toml") rfl he hlink⟩
    rw [habsent] at hthere
    cases hthere
  · have hparent := FileTree.isDirectory_parent he
    rw [Location.parent_entry, FileTree.isDirectory_iff, hnone] at hparent
    cases hparent

/-- A file that was written where no directory is has been created, if nothing was there before
some directories were made. -/
theorem fileCreated_settings {made : Disk} {r : Location} {content : ByteArray}
    (hcwd : made.tree.isDirectory made.cwd = true) (hadded : d.DirsAdded made)
    (hr : made.DirAt path r) (hnone : d.tree.get? (r.entry settingsName) = none)
    (h : made.write (path.child "stylegraph.toml") content = .ok d') :
    made.FileCreated (path.child "stylegraph.toml") d' := by
  apply Disk.fileCreated_of_write hcwd _ h
  rcases hadded.get?_eq_or (r.entry settingsName) with hsame | ⟨-, hdir⟩
  · exact hr.contains_child_eq_false rfl (hsame.trans hnone)
  · have hlook := (Disk.find_eq_ok_iff.mp
      (hr.find_child (t := "stylegraph.toml") rfl hdir Entry.directory_ne_link)).1
    rw [Disk.write, hlook] at h
    dsimp only at h
    rw [if_pos (FileTree.isDirectory_iff.mpr hdir)] at h
    cases h

/-- **The files of a project** are created, the settings file first. -/
theorem creates_items {made : Disk} {r : Location} (hcwd : made.tree.isDirectory made.cwd = true)
    (hadded : d.DirsAdded made) (hr : made.DirAt path r)
    (hnone : d.tree.get? (r.entry settingsName) = none) :
    Creates made (writeItems made (items path name)) := by
  rw [items, writeItems]
  simp only [Bool.not_true, Bool.false_and, Bool.false_eq_true, if_false]
  split
  · exact Creates.error made _
  · rename_i first hfirst
    have hcreated := fileCreated_settings hcwd hadded hr hnone hfirst
    have hcwd' := Disk.isDirectory_cwd_of_grows hcreated.keeps.grows hcreated.cwd_eq hcwd
    exact (creates_writeItems hcwd' (by simp)).cons hcreated

/-- If all files are written the settings file is one of those that are told. -/
theorem mem_of_writeItems {written : List Path}
    (h : (writeItems d (items path name)).2 = .ok written) :
    path.child "stylegraph.toml" ∈ written := by
  rw [items, writeItems] at h
  simp only [Bool.not_true, Bool.false_and, Bool.false_eq_true, if_false] at h
  split at h
  · cases h
  · generalize (writeItems _ _).2 = rest at h
    cases rest with
    | error e => cases h
    | ok rest =>
      rw [← Except.ok.inj h]
      exact List.mem_cons_self

end Scaffold

open Scaffold

variable {d d' : Disk} {path : Path}

/-- **However laying out a project ends**, directories have come and then files, one after the
other, where nothing was. -/
theorem exists_creates_scaffold (name : String) (hcwd : d.tree.isDirectory d.cwd = true)
    (hclimbs : d.ClimbsWithin path) (hlinks : d.NoLinksIn path) :
    ∃ made, d.DirsAdded made ∧ Creates made (scaffold d path name) := by
  unfold scaffold
  split
  · exact ⟨d, .refl d, Creates.error d _⟩
  rename_i hnone
  have hadded := dirsAdded_makeDirs d (dirs path)
  split
  · rename_i made e hmade
    rw [hmade] at hadded
    exact ⟨made, hadded, Creates.error made e⟩
  rename_i made hmade
  rw [hmade] at hadded
  obtain ⟨first, hfirst, hothers⟩ := exists_of_makeDirs_cons hmade
  have hrest := dirsAdded_makeDirs first [path.child "scss", path.child "css"]
  rw [hothers] at hrest
  obtain ⟨r, hr, hsettings⟩ :=
    settings_eq_none hcwd hclimbs hlinks (contains_eq_false_of_existing? hnone) hfirst
  have hcwd' := Disk.isDirectory_cwd_of_grows hadded.grows hadded.cwd_eq hcwd
  exact ⟨made, hadded,
    creates_items hcwd' hadded (hr.of_grows hrest.grows hrest.cwd_eq) hsettings⟩

theorem mem_of_scaffold {name : String} {written : List Path}
    (h : scaffold d path name = (d', .ok written)) : path.child "stylegraph.toml" ∈ written := by
  unfold scaffold at h
  split at h
  · cases h
  split at h
  · cases h
  · exact mem_of_writeItems (congrArg Prod.snd h)

/-- **Laying out a project keeps what is there.**  All files, directories and links stay as they
are, however it ends.  Where a settings file is, nothing changes.  The paths that are told when it
ends well are those of the files that are new, in the order in which they were created, and from
then on laying out the project is refused. -/
theorem scaffold_keeps (name : String) (hcwd : d.tree.isDirectory d.cwd = true)
    (hclimbs : d.ClimbsWithin path) (hlinks : d.NoLinksIn path)
    {result : Except ScaffoldError (List Path)} (h : scaffold d path name = (d', result)) :
    (∀ l e, d.tree.get? l = some e → d'.tree.get? l = some e) ∧
    ((∃ n ∈ settingsFileNames, d.contains (path.child n) = true) →
      d' = d ∧ ∃ n ∈ settingsFileNames, result = .error (.alreadyInitialized (path.child n))) ∧
    (∀ written, result = .ok written →
      (∃ made, d.DirsAdded made ∧ made.CreatedInTurn written d') ∧
      (∀ l, (d.tree.get? l = none ∧ ∃ content, d'.tree.get? l = some (.file content)) ↔
        ∃ p ∈ written, d'.LeadsTo p l) ∧
      ∀ name', scaffold d' path name'
        = (d', .error (.alreadyInitialized (path.child "stylegraph.toml")))) := by
  obtain ⟨made, hadded, ps, hcreated, hresult⟩ := exists_creates_scaffold name hcwd hclimbs hlinks
  rw [h] at hcreated hresult
  refine ⟨hadded.keeps.trans hcreated.keeps, ?there, fun written hwritten => ?ok⟩
  case there =>
    rintro ⟨n, hn, hthere⟩
    unfold scaffold at h
    split at h
    · rename_i file hfile
      cases h
      obtain ⟨n', hn', rfl⟩ := List.mem_map.mp (List.mem_of_find?_eq_some hfile)
      exact ⟨rfl, n', hn', rfl⟩
    · rename_i hnone
      rw [existing?, List.find?_eq_none] at hnone
      exact absurd hthere (hnone _ (List.mem_map_of_mem hn))
  case ok =>
    obtain rfl := hresult written hwritten
    rw [hwritten] at h
    have hmem := mem_of_scaffold h
    refine ⟨⟨made, hadded, hcreated⟩, fun l => ?_, fun name' => ?_⟩
    · rw [← hcreated.file_iff]
      refine and_congr_left fun hfile => ⟨fun hnone => ?_, hadded.grows.eq_none⟩
      rcases hadded.get?_eq_or l with hsame | ⟨-, hdir⟩
      · exact hsame.trans hnone
      · -- Where a directory was made there is no file.
        obtain ⟨content, hfile⟩ := hfile
        rw [hcreated.keeps l _ hdir] at hfile
        cases hfile
    · obtain ⟨l, content, hfind⟩ := hcreated.exists_leadsTo hmem
      have hthere : d'.contains (path.child "stylegraph.toml") = true :=
        Disk.contains_iff.mpr ⟨l, _, hfind⟩
      have hexisting : existing? d' path = some (path.child "stylegraph.toml") :=
        List.find?_cons_of_pos hthere
      unfold scaffold
      rw [hexisting]

/-- The directory of a project. -/
def siteRoot : Location := (⟨"site"⟩ : Path).locateFrom .root

/-- A directory next to it, from which it is laid out. -/
def siteNeighbour : Location := Location.root.entry ⟨"work", by decide⟩

/-- A main stylesheet that is there already. -/
def siteMain : Location := (siteRoot.entry Scaffold.sourceName).entry Scaffold.mainName

/-- A project that has been started by hand. -/
def startedDisk : Disk where
  tree := (((FileTree.empty.put siteNeighbour .directory).put siteRoot .directory).put
    siteMain.parent .directory).put siteMain (.file "a { b: c }".toUTF8)
  cwd := siteNeighbour

/-- The main stylesheet stays as it was, and the other files come. -/
theorem scaffold_keeps_started :
    ∃ d', scaffold startedDisk ⟨"../site"⟩ "site" = (d', .ok [⟨"../site/stylegraph.toml"⟩,
        ⟨"../site/scss/_variables.scss"⟩, ⟨"../site/css/.gitkeep"⟩]) ∧
      d'.tree.get? siteMain = some (.file "a { b: c }".toUTF8) ∧
      scaffold d' ⟨"../site"⟩ "again"
        = (d', .error (.alreadyInitialized ⟨"../site/stylegraph.toml"⟩)) := by
  have hdir : startedDisk.DirAt ⟨"../site"⟩ siteRoot :=
    ⟨by decide +kernel, by decide +kernel⟩
  have hlinks : startedDisk.NoLinksIn ⟨"../site"⟩ := fun _ _ _ target =>
    FileTree.linkFree_of_all (by decide +kernel) _ target
  have hresult : (scaffold startedDisk ⟨"../site"⟩ "site").2 = .ok [⟨"../site/stylegraph.toml"⟩,
      ⟨"../site/scss/_variables.scss"⟩, ⟨"../site/css/.gitkeep"⟩] := by
    decide +kernel
  generalize hrun : scaffold startedDisk ⟨"../site"⟩ "site" = outcome at hresult
  obtain ⟨d', result⟩ := outcome
  dsimp only at hresult
  subst hresult
  obtain ⟨hkeeps, -, hok⟩ :=
    scaffold_keeps "site" (by decide +kernel) hdir.climbsWithin hlinks hrun
  exact ⟨d', rfl, hkeeps siteMain _ (by decide +kernel), (hok _ rfl).2.2 "again"⟩

/-- A project that is laid out already. -/
def settledDisk : Disk where
  tree := (FileTree.empty.put siteRoot .directory).put (siteRoot.entry Scaffold.settingsName)
    (.file "old".toUTF8)
  cwd := .root

/-- **A settings file is written over** when the path of the project goes up behind a directory that
is not there yet.  The file is not found while the directory is missing. -/
theorem scaffold_overwrites_settings :
    settledDisk.tree.LinkFree ∧
      settledDisk.tree.get? (siteRoot.entry Scaffold.settingsName) = some (.file "old".toUTF8) ∧
      ∃ d' written, scaffold settledDisk ⟨"new/../site"⟩ "site" = (d', .ok written) ∧
        d'.DirAt ⟨"new/../site"⟩ siteRoot ∧
        d'.tree.get? (siteRoot.entry Scaffold.settingsName) ≠ some (.file "old".toUTF8) := by
  have hrun : let outcome := scaffold settledDisk ⟨"new/../site"⟩ "site"
      outcome.2 = .ok [⟨"new/../site/stylegraph.toml"⟩, ⟨"new/../site/scss/main.scss"⟩,
        ⟨"new/../site/scss/_variables.scss"⟩, ⟨"new/../site/css/.gitkeep"⟩] ∧
      outcome.1.look ⟨"new/../site"⟩ = .ok (.found siteRoot) ∧
      outcome.1.tree.isDirectory siteRoot = true ∧
      outcome.1.tree.get? (siteRoot.entry Scaffold.settingsName) ≠ some (.file "old".toUTF8) := by
    decide +kernel
  generalize scaffold settledDisk ⟨"new/../site"⟩ "site" = outcome at hrun ⊢
  obtain ⟨d', result⟩ := outcome
  obtain ⟨hresult, hlook, hdir, hsettings⟩ := hrun
  dsimp only at hresult hlook hdir hsettings
  subst hresult
  exact ⟨FileTree.linkFree_of_all (by decide +kernel), by decide +kernel, d', _, rfl,
    ⟨hlook, hdir⟩, hsettings⟩

end SheetGraph
