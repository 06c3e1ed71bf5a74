import SheetGraph.Proofs.FileTree.Edit

/-!
# Trees that grow

A tree grows when directories and links stay and files stay files, whatever comes in besides.  A
walk that finds something meets nothing but entries that are there, so it finds the same in the tree
that has grown (`Grows.walk`, `Grows.find`).
-/

namespace SheetGraph

/-- Both are regular files, or they are the same. -/
inductive SameKind : Entry → Entry → Prop
  /-- The same. -/
  | refl (e : Entry) : SameKind e e
  /-- Two files. -/
  | file (content content' : ByteArray) : SameKind (.file content) (.file content')

namespace SameKind

variable {e e' e'' : Entry}

theorem trans (h : SameKind e e') (h' : SameKind e' e'') : SameKind e e'' := by
  cases h with
  | refl => exact h'
  | file content content' =>
    cases h' with
    | refl => exact file content content'
    | file _ content'' => exact file content content''

theorem eq_directory (h : SameKind .directory e) : e = .directory := by
  cases h
  rfl

theorem eq_link {target : Path} (h : SameKind (.link target) e) : e = .link target := by
  cases h
  rfl

theorem exists_file {content : ByteArray} (h : SameKind (.file content) e) :
    ∃ content', e = .file content' := by
  cases h with
  | refl => exact ⟨content, rfl⟩
  | file _ content' => exact ⟨content', rfl⟩

theorem symm (h : SameKind e e') : SameKind e' e := by
  cases h with
  | refl => exact refl e
  | file content content' => exact file content' content

end SameKind

namespace FileTree

variable {t t' t'' : FileTree} {l : Location} {e : Entry}

/-- What is in the tree is in the other tree, and of the same kind. -/
def Grows (t t' : FileTree) : Prop :=
  ∀ l e, t.get? l = some e → ∃ e', t'.get? l = some e' ∧ SameKind e e'

namespace Grows

theorem refl (t : FileTree) : t.Grows t :=
  fun _ e he => ⟨e, he, SameKind.refl e⟩

theorem trans (h : t.Grows t') (h' : t'.Grows t'') : t.Grows t'' := by
  intro l e he
  obtain ⟨e', he', hkind⟩ := h l e he
  obtain ⟨e'', he'', hkind'⟩ := h' l e' he'
  exact ⟨e'', he'', hkind.trans hkind'⟩

theorem directory (h : t.Grows t') (hl : t.get? l = some .directory) :
    t'.get? l = some .directory := by
  obtain ⟨e', he', hkind⟩ := h l _ hl
  rw [he', hkind.eq_directory]

theorem link {target : Path} (h : t.Grows t') (hl : t.get? l = some (.link target)) :
    t'.get? l = some (.link target) := by
  obtain ⟨e', he', hkind⟩ := h l _ hl
  rw [he', hkind.eq_link]

theorem file {content : ByteArray} (h : t.Grows t') (hl : t.get? l = some (.file content)) :
    ∃ content', t'.get? l = some (.file content') := by
  obtain ⟨e', he', hkind⟩ := h l _ hl
  obtain ⟨content', rfl⟩ := hkind.exists_file
  exact ⟨content', he'⟩

theorem isDirectory (h : t.Grows t') (hl : t.isDirectory l = true) : t'.isDirectory l = true :=
  isDirectory_iff.mpr (h.directory (isDirectory_iff.mp hl))

/-- **A walk that finds something** finds the same in a tree that has grown. -/
theorem walk (h : t.Grows t') (links : Nat) (segments : List (List Char)) (dir : Location)
    (hfound : t.walk links dir segments = .ok (.found l)) :
    t'.walk links dir segments = .ok (.found l) := by
  match segments with
  | [] =>
    rw [walk_nil] at hfound ⊢
    exact hfound
  | s :: segments =>
    rw [walk_cons] at hfound ⊢
    split at hfound
    · exact walk h links segments dir.parent hfound
    · rename_i n _
      split at hfound
      · split at hfound <;> cases hfound
      · rename_i hget
        rw [h.directory hget]
        exact walk h links segments (dir.entry n) hfound
      · rename_i content hget
        obtain ⟨content', hget'⟩ := h.file hget
        rw [hget']
        exact hfound
      · rename_i target hget
        rw [h.link hget]
        cases links with
        | zero => cases hfound
        | succ links => exact walk h links _ _ hfound
    · exact walk h links segments dir hfound
termination_by (links, segments.length)

end Grows

/-- **A tree grows when something is put** where nothing is yet, or a file in the place of
another. -/
theorem grows_put (h : ∀ e', t.get? l = some e' → SameKind e' e) : t.Grows (t.put l e) := by
  intro k e' hk
  by_cases hkl : k = l
  · subst hkl
    cases hroom : t.hasRoomAt k with
    | true => exact ⟨e, get?_put_self hroom, h e' hk⟩
    | false =>
      rw [put_of_not_hasRoomAt hroom]
      exact ⟨e', hk, SameKind.refl e'⟩
  · rw [get?_put_of_ne hkl]
    exact ⟨e', hk, SameKind.refl e'⟩

end FileTree

namespace Disk

variable {d d' : Disk} {l k : Location} {e : Entry}

/-- **What is found on a disk** is found where it was on a disk that has grown. -/
theorem find_of_grows {p : Path} (h : d.tree.Grows d'.tree) (hstart : d'.start p = d.start p)
    (hfind : d.find p = .ok (k, e)) : ∃ e', d'.find p = .ok (k, e') ∧ SameKind e e' := by
  rw [find_eq_ok_iff] at hfind
  obtain ⟨e', he', hkind⟩ := h k e hfind.2
  refine ⟨e', find_eq_ok_iff.mpr ⟨?_, he'⟩, hkind⟩
  have hlook := hfind.1
  unfold look at hlook ⊢
  rw [hstart]
  split at hlook
  · cases hlook
  · rename_i hempty
    rw [if_neg hempty]
    exact h.walk _ _ _ hlook

theorem start_of_isAbsolute {p : Path} (hp : p.isAbsolute = true) (d : Disk) :
    d.start p = .root := by
  rw [start, if_pos hp]

theorem find_path_of_grows (h : d.tree.Grows d'.tree) (hfind : d.find l.path = .ok (k, e)) :
    ∃ e', d'.find l.path = .ok (k, e') ∧ SameKind e e' :=
  have hstart := start_of_isAbsolute (Location.isAbsolute_path l)
  find_of_grows h ((hstart d').trans (hstart d).symm) hfind

theorem find_directory_of_grows (h : d.tree.Grows d'.tree)
    (hfind : d.find l.path = .ok (k, .directory)) : d'.find l.path = .ok (k, .directory) := by
  obtain ⟨e', he', hkind⟩ := find_path_of_grows h hfind
  rw [he', hkind.eq_directory]

theorem contains_of_grows (h : d.tree.Grows d'.tree) (hthere : d.contains l.path = true) :
    d'.contains l.path = true := by
  obtain ⟨k, e, hk⟩ := contains_iff.mp hthere
  obtain ⟨e', hk', -⟩ := find_path_of_grows h hk
  exact contains_iff.mpr ⟨k, e', hk'⟩

theorem isDir_of_grows (h : d.tree.Grows d'.tree) (hdir : d.isDir l.path = true) :
    d'.isDir l.path = true := by
  obtain ⟨k, hk⟩ := isDir_iff.mp hdir
  exact isDir_iff.mpr ⟨k, find_directory_of_grows h hk⟩

/-- What is no directory, but something, stays no directory. -/
theorem isDir_eq_false_of_grows (h : d.tree.Grows d'.tree) (hthere : d.contains l.path = true)
    (hdir : d.isDir l.path = false) : d'.isDir l.path = false := by
  obtain ⟨k, e, hk⟩ := contains_iff.mp hthere
  obtain ⟨e', he', hkind⟩ := find_path_of_grows h hk
  rw [← Bool.not_eq_true]
  intro hdir'
  obtain ⟨k', hk'⟩ := isDir_iff.mp hdir'
  rw [he'] at hk'
  cases hk'
  have hsame := hkind.symm.eq_directory
  subst hsame
  rw [isDir_iff.mpr ⟨k, hk⟩] at hdir
  cases hdir

end Disk

end SheetGraph
