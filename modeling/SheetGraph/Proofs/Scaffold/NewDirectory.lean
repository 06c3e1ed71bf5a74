import SheetGraph.Proofs.Scaffold.Layout

/-!
# A project in a new directory

What a project looks like that is laid out where nothing is: below its directory there are the two
directories and the four files, and nothing else (`hasEntries_of_scaffold`).

`Disk.HasEntries` tells all that is below a directory in a list.  Each step of the layout adds one
entry to the list (`HasEntries.put`), so the run is a computation on lists of names.
-/

namespace SheetGraph

namespace FileTree

variable {t : FileTree} {links : Nat} {r : Location} {names : List Name} {n : Name}

/-- No link is on the way to what is no link itself. -/
theorem noLinkOnWay_of_get? {e : Entry} (h : t.get? (r.below names) = some e)
    (he : ∀ target, e ≠ .link target) : t.NoLinkOnWay r names := by
  intro front target hfront hlink
  by_cases hne : front = names
  · rw [hne, h] at hlink
    exact he target (Option.some.inj hlink)
  · rw [isDirectory_below h hfront hne] at hlink
    cases hlink

/-- A walk down to a name that is free in a directory ends there. -/
theorem walk_below_concat (habove : t.get? (r.below names) = some .directory)
    (hnone : t.get? (r.below (names ++ [n])) = none) :
    t.walk links r ((names ++ [n]).map Name.chars) = .ok (.vacant (r.below (names ++ [n]))) := by
  have hwalk : t.walk links r (names.map Name.chars) = .ok (.found (r.below names)) :=
    walk_below (noLinkOnWay_of_get? habove Entry.directory_ne_link) habove
  obtain ⟨left, hleft⟩ := walk_append _ _ _ hwalk (isDirectory_iff.mpr habove)
  rw [Location.below_concat] at hnone ⊢
  rw [List.map_append, hleft, List.map_singleton, walk_cons, Component.ofSegment?_chars]
  dsimp only
  rw [hnone]
  rfl

end FileTree

namespace Disk

variable {d made : Disk} {p : Path} {r : Location} {names : List Name}
  {entries : List (List Name × Entry)}

/-- The path leads to the directory, and below it are these entries and no others. -/
structure HasEntries (d : Disk) (p : Path) (r : Location)
    (entries : List (List Name × Entry)) : Prop where
  dirAt : d.DirAt p r
  get?_eq : ∀ names, names ≠ [] → d.tree.get? (r.below names) = entries.lookup names

/-- Once the directory and those above it are made, nothing is in it. -/
def MakesEmpty (d : Disk) (p : Path) : Prop :=
  ∀ made r, d.createDirAll p = (made, .ok ()) → made.DirAt p r →
    ∀ n, made.tree.get? (r.entry n) = none

/-- **A directory that is empty or not there yet** is empty once it is made. -/
theorem ClimbsWithin.makesEmpty (h : d.ClimbsWithin p) (hcwd : d.tree.isDirectory d.cwd = true)
    (hempty : ∀ r, d.DirAt p r → ∀ n, d.tree.get? (r.entry n) = none) : d.MakesEmpty p := by
  intro made r hmade hr
  obtain ⟨r', hr', hnew⟩ := dirAt_of_createDirs _ hcwd h.stepsOf hmade
  obtain rfl := hr.unique hr'
  rcases hnew with rfl | ⟨-, hnew⟩
  · exact hempty r hr
  · exact hnew

namespace HasEntries

/-- There is nothing below an empty directory. -/
theorem nil (h : d.DirAt p r) (hempty : ∀ n, d.tree.get? (r.entry n) = none) :
    d.HasEntries p r [] := by
  refine ⟨h, fun names hne => ?_⟩
  obtain ⟨n, names, rfl⟩ := List.exists_cons_of_ne_nil hne
  rw [List.lookup_nil, Option.eq_none_iff_forall_ne_some]
  intro e he
  cases names with
  | nil =>
    rw [Location.below_cons, Location.below_nil, hempty n] at he
    cases he
  | cons m names =>
    have hfront : [n] <+: n :: m :: names := ⟨m :: names, rfl⟩
    have hfirst := FileTree.isDirectory_below he hfront (by simp)
    rw [Location.below_cons, Location.below_nil, hempty n] at hfirst
    cases hfirst

variable (h : d.HasEntries p r entries)

include h

theorem get?_above (habove : names = [] ∨ entries.lookup names = some .directory) :
    d.tree.get? (r.below names) = some .directory := by
  by_cases hne : names = []
  · rw [hne, Location.below_nil]
    exact FileTree.isDirectory_iff.mp h.dirAt.2
  · rw [h.get?_eq names hne, habove.resolve_left hne]

theorem get?_free (names : List Name) (n : Name) (hnone : entries.lookup (names ++ [n]) = none) :
    d.tree.get? (r.below (names ++ [n])) = none := by
  rw [h.get?_eq _ (by simp), hnone]

/-- **One more entry** comes into a directory. -/
theorem put (names : List Name) (n : Name)
    (habove : names = [] ∨ entries.lookup names = some .directory)
    (hnone : entries.lookup (names ++ [n]) = none) (e : Entry) :
    HasEntries ⟨d.tree.put (r.below (names ++ [n])) e, d.cwd⟩ p r
      ((names ++ [n], e) :: entries) := by
  have hfree := h.get?_free names n hnone
  have hroom : d.tree.hasRoomAt (r.below (names ++ [n])) = true := by
    rw [Location.below_concat] at hfree ⊢
    exact hasRoomAt_entry (FileTree.isDirectory_iff.mpr (h.get?_above habove)) hfree
  have hgrows : d.tree.Grows (d.tree.put (r.below (names ++ [n])) e) := by
    apply FileTree.grows_put
    intro e' he'
    rw [hfree] at he'
    cases he'
  refine ⟨h.dirAt.of_grows hgrows rfl, fun names' hne => ?_⟩
  rw [List.lookup_cons]
  by_cases heq : names' = names ++ [n]
  · rw [heq, beq_self_eq_true]
    exact FileTree.get?_put_self hroom
  · have hapart : r.below names' ≠ r.below (names ++ [n]) := fun hsame =>
      heq (List.append_cancel_left (congrArg Location.names hsame))
    rw [beq_eq_false_iff_ne.mpr heq]
    exact (FileTree.get?_put_of_ne hapart).trans (h.get?_eq names' hne)

/-- A directory is made. -/
theorem createDirAll (t : String) (n : Name) (ht : (⟨t⟩ : Path).segments = [n.chars])
    (hnone : entries.lookup [n] = none) :
    ∃ made, d.createDirAll (p.child t) = (made, .ok ()) ∧
      made.HasEntries p r (([n], .directory) :: entries) := by
  obtain ⟨hrelative, hempty⟩ := Path.relative_of_segments (List.cons_ne_nil n []) ht
  refine ⟨_, ?_, h.put [] n (Or.inl rfl) hnone .directory⟩
  have hcreate := createDir_child h.dirAt ht (h.get?_free [] n hnone)
  rw [Disk.createDirAll, createDirs, p.isEmpty_child hrelative hempty, if_neg Bool.false_ne_true,
    hcreate]
  rfl

/-- **A file is written** where none is yet. -/
theorem write (t : String) (names : List Name) (n : Name)
    (ht : (⟨t⟩ : Path).segments = (names ++ [n]).map Name.chars)
    (habove : names = [] ∨ entries.lookup names = some .directory)
    (hnone : entries.lookup (names ++ [n]) = none) (content : ByteArray) :
    d.contains (p.child t) = false ∧ ∃ made, d.write (p.child t) content = .ok made ∧
      made.HasEntries p r ((names ++ [n], .file content) :: entries) := by
  obtain ⟨left, hleft⟩ := h.dirAt.exists_look_child (by simp) ht
  rw [ht, FileTree.walk_below_concat (h.get?_above habove) (h.get?_free names n hnone)] at hleft
  refine ⟨?_, _, ?_, h.put names n habove hnone (.file content)⟩
  · rw [contains, find, hleft]
  · rw [Disk.write, hleft]

end HasEntries

end Disk

namespace Scaffold

variable {d d' made : Disk} {path : Path} {r : Location}

/-- All that is below the directory of a new project. -/
def newEntries (name : String) : List (List Name × Entry) :=
  [([targetName, keepName], .file "".toUTF8),
    ([sourceName, variablesName], .file variablesText.toUTF8),
    ([sourceName, mainName], .file (mainText name).toUTF8),
    ([settingsName], .file (settingsText name).toUTF8),
    ([targetName], .directory), ([sourceName], .directory)]

/-- The directories are made in a directory that is empty. -/
theorem hasEntries_makeDirs (h : d.HasEntries path r []) :
    ∃ made, makeDirs d [path.child "scss", path.child "css"] = (made, .ok ()) ∧
      made.HasEntries path r [([targetName], .directory), ([sourceName], .directory)] := by
  obtain ⟨first, hfirst, hsource⟩ := h.createDirAll "scss" sourceName (by decide) rfl
  obtain ⟨second, hsecond, htarget⟩ :=
    hsource.createDirAll "css" targetName (by decide) (by decide)
  refine ⟨second, ?_, htarget⟩
  rw [makeDirs, hfirst]
  dsimp only
  rw [makeDirs, hsecond]
  rfl

/-- A file that is written where none is comes in front of the others. -/
theorem writeItems_of_write {file : Path} {content : String} (replaces : Bool) (items : List Item)
    (habsent : d.contains file = false) (hwrite : d.write file content.toUTF8 = .ok made) :
    writeItems d (⟨file, content, replaces⟩ :: items)
      = ((writeItems made items).1, (file :: ·) <$> (writeItems made items).2) := by
  rw [writeItems, habsent, Bool.and_false, if_neg Bool.false_ne_true, hwrite]

/-- **All files are written** where only the directories are. -/
theorem hasEntries_writeItems (name : String)
    (h : d.HasEntries path r [([targetName], .directory), ([sourceName], .directory)]) :
    (writeItems d (items path name)).1.HasEntries path r (newEntries name) ∧
      (writeItems d (items path name)).2 = .ok ((items path name).map Item.file) := by
  obtain ⟨habsent₁, d₁, hwrite₁, h₁⟩ := h.write "stylegraph.toml" [] settingsName
    (by decide) (Or.inl rfl) (by decide) (settingsText name).toUTF8
  obtain ⟨habsent₂, d₂, hwrite₂, h₂⟩ := h₁.write "scss/main.scss" [sourceName] mainName
    (by decide) (Or.inr rfl) rfl (mainText name).toUTF8
  obtain ⟨habsent₃, d₃, hwrite₃, h₃⟩ := h₂.write "scss/_variables.scss" [sourceName] variablesName
    (by decide) (Or.inr rfl) rfl variablesText.toUTF8
  obtain ⟨habsent₄, d₄, hwrite₄, h₄⟩ := h₃.write "css/.gitkeep" [targetName] keepName
    (by decide) (Or.inr rfl) rfl "".toUTF8
  rw [items, writeItems_of_write true _ habsent₁ hwrite₁,
    writeItems_of_write false _ habsent₂ hwrite₂, writeItems_of_write false _ habsent₃ hwrite₃,
    writeItems_of_write false _ habsent₄ hwrite₄]
  exact ⟨h₄, rfl⟩

end Scaffold

open Scaffold

/-- **A project that was laid out where nothing is** has its directories and files, and nothing
else. -/
theorem hasEntries_of_scaffold {d d' : Disk} {path : Path} {name : String} {written : List Path}
    (hcwd : d.tree.isDirectory d.cwd = true) (hnew : d.MakesEmpty path)
    (h : scaffold d path name = (d', .ok written)) :
    ∃ r, d'.HasEntries path r (newEntries name) := by
  unfold scaffold at h
  split at h
  · cases h
  split at h
  · cases h
  rename_i made hmade
  obtain ⟨first, hfirst, hothers⟩ := exists_of_makeDirs_cons hmade
  obtain ⟨r, hr⟩ := Disk.exists_dirAt_of_createDirs _ hcwd hfirst
  obtain ⟨made', hmade', hentries⟩ :=
    hasEntries_makeDirs (.nil hr (hnew first r hfirst hr))
  rw [hothers] at hmade'
  cases hmade'
  have hwritten := (hasEntries_writeItems name hentries).1
  rw [h] at hwritten
  exact ⟨r, hwritten⟩

end SheetGraph
