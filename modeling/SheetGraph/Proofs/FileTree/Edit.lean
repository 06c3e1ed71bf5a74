import SheetGraph.Proofs.FileTree.Walk

/-!
# Disks that differ in files

Two disks are `FilesApart` when there is a regular file or nothing wherever they differ, and no link
leads to such a place.  Directories and links are the same on both, so a walk that ends where the
disks agree ends there on both (`FileTree.walk_of_plain`), and what is found at a location where
they agree is the same (`FilesApart.find_iff`).
-/

namespace SheetGraph

/-- There is a regular file or nothing. -/
def IsPlain (e? : Option Entry) : Prop :=
  ∀ e, e? = some e → ∃ content, e = .file content

theorem isPlain_file (content : ByteArray) : IsPlain (some (.file content)) :=
  fun _ he => ⟨content, (Option.some.inj he).symm⟩

theorem not_isPlain_directory : ¬ IsPlain (some .directory) := by
  intro h
  obtain ⟨content, hc⟩ := h _ rfl
  cases hc

theorem not_isPlain_link {target : Path} : ¬ IsPlain (some (.link target)) := by
  intro h
  obtain ⟨content, hc⟩ := h _ rfl
  cases hc

/-! ### Walks -/

/-- **A walk is the same in another tree** that differs in plain places only, if it ends where the
trees agree. -/
theorem FileTree.walk_of_plain {t t' : FileTree} {l : Location}
    (hplain : ∀ k, t.get? k ≠ t'.get? k → IsPlain (t.get? k)) (hl : t.get? l = t'.get? l)
    (links : Nat) (segments : List (List Char)) (dir : Location)
    (h : t.walk links dir segments = .ok (.found l)) :
    t'.walk links dir segments = .ok (.found l) := by
  -- Only files differ, so what leads on is the same in both.
  have hsame : ∀ k e, t.get? k = some e → ¬ IsPlain (some e) → t'.get? k = some e := by
    intro k e he hnot
    by_contra hne
    have hk : t.get? k ≠ t'.get? k := by
      rw [he]
      exact fun h => hne h.symm
    exact hnot (he ▸ hplain k hk)
  match segments with
  | [] =>
    rw [walk_nil] at h ⊢
    exact h
  | s :: segments =>
    rw [walk_cons] at h ⊢
    split at h
    · exact walk_of_plain hplain hl links segments dir.parent h
    · rename_i n _
      split at h
      · split at h <;> cases h
      · rename_i hget
        rw [hsame _ _ hget not_isPlain_directory]
        exact walk_of_plain hplain hl links segments (dir.entry n) h
      · rename_i content hget
        split at h
        · rename_i hend
          cases h
          rw [← hl, hget]
          exact if_pos hend
        · cases h
      · rename_i target hget
        rw [hsame _ _ hget not_isPlain_link]
        cases links with
        | zero => cases h
        | succ links => exact walk_of_plain hplain hl links _ _ h
    · exact walk_of_plain hplain hl links segments dir h
termination_by (links, segments.length)

/-! ### Disks -/

/-- The disks differ in regular files only, to which no link leads. -/
structure FilesApart (d d' : Disk) : Prop where
  /-- Where the disks differ, each has a regular file or nothing. -/
  plain : ∀ k, d.tree.get? k ≠ d'.tree.get? k →
    IsPlain (d.tree.get? k) ∧ IsPlain (d'.tree.get? k)
  /-- What is there is found at its own path only. -/
  own : ∀ k, d.tree.get? k ≠ d'.tree.get? k →
    ∀ l e, d.find l.path = .ok (k, e) ∨ d'.find l.path = .ok (k, e) → l = k

namespace FilesApart

variable {d d' : Disk} {l k : Location} {e : Entry}

theorem symm (h : FilesApart d d') : FilesApart d' d where
  plain k hk := (h.plain k hk.symm).symm
  own k hk l e hl := h.own k hk.symm l e hl.symm

/-- Without links every file is found at its own path only. -/
theorem of_linkFree (hd : d.tree.LinkFree) (hd' : d'.tree.LinkFree)
    (hplain : ∀ k, d.tree.get? k ≠ d'.tree.get? k →
      IsPlain (d.tree.get? k) ∧ IsPlain (d'.tree.get? k)) : FilesApart d d' where
  plain := hplain
  own k _ l e hl := by
    rcases hl with hl | hl
    · exact ((Disk.find_path_iff hd).mp hl).1.symm
    · exact ((Disk.find_path_iff hd').mp hl).1.symm

theorem directory (h : FilesApart d d') (hk : d.tree.get? k = some .directory) :
    d'.tree.get? k = some .directory := by
  by_contra hne
  have hdiff : d.tree.get? k ≠ d'.tree.get? k := by
    rw [hk]
    exact fun heq => hne heq.symm
  exact not_isPlain_directory (hk ▸ (h.plain k hdiff).1)

theorem find_of_eq (h : FilesApart d d') (hk : d.tree.get? k = d'.tree.get? k)
    (hfind : d.find l.path = .ok (k, e)) : d'.find l.path = .ok (k, e) := by
  rw [Disk.find_eq_ok_iff, Disk.look_path] at hfind ⊢
  obtain ⟨hwalk, he⟩ := hfind
  exact ⟨FileTree.walk_of_plain (fun x hx => (h.plain x hx).1) hk _ _ _ hwalk, hk ▸ he⟩

/-- **At a location where the disks agree they show the same.** -/
theorem find_iff (h : FilesApart d d') (hl : d.tree.get? l = d'.tree.get? l) :
    d.find l.path = .ok (k, e) ↔ d'.find l.path = .ok (k, e) := by
  have hone : ∀ {d d' : Disk}, FilesApart d d' → d.tree.get? l = d'.tree.get? l →
      d.find l.path = .ok (k, e) → d'.find l.path = .ok (k, e) := by
    intro d d' h hl hfind
    by_cases hk : d.tree.get? k = d'.tree.get? k
    · exact h.find_of_eq hk hfind
    · have hlk := h.own k hk l e (Or.inl hfind)
      exact absurd (hlk ▸ hl) hk
  exact ⟨hone h hl, hone h.symm hl.symm⟩

theorem isFile_eq (h : FilesApart d d') (hl : d.tree.get? l = d'.tree.get? l) :
    d.isFile l.path = d'.isFile l.path := by
  rw [Bool.eq_iff_iff, Disk.isFile_iff, Disk.isFile_iff]
  simp only [h.find_iff hl]

theorem isDir_eq (h : FilesApart d d') (hl : d.tree.get? l = d'.tree.get? l) :
    d.isDir l.path = d'.isDir l.path := by
  rw [Bool.eq_iff_iff, Disk.isDir_iff, Disk.isDir_iff]
  simp only [h.find_iff hl]

theorem readBytes_eq_ok_iff (h : FilesApart d d') (hl : d.tree.get? l = d'.tree.get? l)
    {content : ByteArray} :
    d.readBytes l.path = .ok content ↔ d'.readBytes l.path = .ok content := by
  rw [Disk.readBytes_eq_ok_iff, Disk.readBytes_eq_ok_iff]
  simp only [h.find_iff hl]

theorem readText_eq_ok_iff (h : FilesApart d d') (hl : d.tree.get? l = d'.tree.get? l)
    {text : String} : d.readText l.path = .ok text ↔ d'.readText l.path = .ok text := by
  rw [Disk.readText_eq_ok_iff, Disk.readText_eq_ok_iff]
  simp only [h.readBytes_eq_ok_iff hl]

/-- **A file that is not there on the other disk** is not found there at all. -/
theorem contains_eq_false (h : FilesApart d d') (hl : d.tree.get? l ≠ d'.tree.get? l)
    (hnone : d'.tree.get? l = none) : d'.contains l.path = false := by
  cases he : d.tree.get? l with
  | none => exact absurd (he.trans hnone.symm) hl
  | some e =>
    -- Its directory is there on both disks.
    have hparent := h.directory (FileTree.isDirectory_iff.mp (FileTree.isDirectory_parent he))
    have hroot : l ≠ .root := by
      rintro rfl
      rw [FileTree.get?_root] at hnone
      cases hnone
    obtain ⟨n, hn⟩ := Location.exists_entry_parent hroot
    have hfind := Disk.find_path hparent Entry.directory_ne_link
    rw [hn] at hnone ⊢
    rw [Disk.contains, Disk.find_entry_of_none hfind hnone]

end FilesApart

/-! ### Files written one after the other -/

theorem FilesApart.refl (d : Disk) : FilesApart d d where
  plain _ hk := absurd rfl hk
  own _ hk := absurd rfl hk

theorem FileTree.LinkFree.put {t : FileTree} {l : Location} {e : Entry} (ht : t.LinkFree)
    (he : ∀ target, e ≠ .link target) : (t.put l e).LinkFree := by
  intro k target hk
  by_cases hkl : k = l
  · subst hkl
    cases hroom : t.hasRoomAt k with
    | true =>
      rw [get?_put_self hroom] at hk
      exact he target (Option.some.inj hk)
    | false =>
      rw [put_of_not_hasRoomAt hroom] at hk
      exact ht k target hk
  · rw [get?_put_of_ne hkl] at hk
    exact ht k target hk

/-- Whether the entry is a symbolic link. -/
def Entry.isLink : Entry → Bool
  | .link _ => true
  | _ => false

theorem FileTree.linkFree_of_all {t : FileTree} (h : (t.entries.all fun e => !e.2.isLink) = true) :
    t.LinkFree := by
  intro l target hl
  by_cases hroot : l = .root
  · rw [hroot, get?_root] at hl
    cases hl
  · have hmem := (get?_eq_some_iff hroot).mp hl
    have hlink := List.all_eq_true.mp h _ hmem
    cases hlink

/-- **One more file can be written** where the first disk has a file or nothing. -/
theorem FilesApart.put {d d' : Disk} {l : Location} (content : ByteArray) (hd : d.tree.LinkFree)
    (hd' : d'.tree.LinkFree) (h : FilesApart d d') (hl : IsPlain (d.tree.get? l)) :
    FilesApart d { d' with tree := d'.tree.put l (.file content) } := by
  refine FilesApart.of_linkFree hd (hd'.put Entry.file_ne_link) fun k hk => ?_
  dsimp only at hk ⊢
  by_cases hkl : k = l
  · subst hkl
    refine ⟨hl, ?_⟩
    cases hroom : d'.tree.hasRoomAt k with
    | true =>
      rw [FileTree.get?_put_self hroom]
      exact isPlain_file content
    | false =>
      rw [FileTree.put_of_not_hasRoomAt hroom] at hk ⊢
      exact (h.plain k hk).2
  · rw [FileTree.get?_put_of_ne hkl] at hk ⊢
    exact h.plain k hk

end SheetGraph
