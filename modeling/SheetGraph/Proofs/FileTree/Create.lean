import SheetGraph.Proofs.FileTree.Growth
import SheetGraph.Proofs.FileTree.WayDown
import SheetGraph.Proofs.Path.Parent

/-!
# Making directories

What becomes of a disk on which a directory is made with all directories above it.

In general nothing but directories is added (`dirsAdded_createDirs`), and the path leads to one in
the end if all went well (`made_createDirs`).  Below a directory that is there, and with no link on
the way, it can be said in full (`createDirAll_below`): a file on the way is in the way, and then
nothing is made; otherwise the directories on the way are there (`MadeWay`), and nothing else has
changed.
-/

namespace SheetGraph

namespace Disk

variable {d d' : Disk} {l r k : Location} {n : Name} {names : List Name}

/-! ### One directory -/

theorem hasRoomAt_entry {t : FileTree} (hr : t.isDirectory r = true)
    (hnone : t.get? (r.entry n) = none) : t.hasRoomAt (r.entry n) = true := by
  have hroot : r.entry n ≠ .root := by
    intro h
    rw [h, FileTree.get?_root] at hnone
    cases hnone
  have hnot : t.isDirectory (r.entry n) = false := by
    rw [FileTree.isDirectory, hnone]
    rfl
  rw [FileTree.hasRoomAt, Location.parent_entry, hr, hnot]
  simpa using hroot

/-- **What a path names** lies in the directory that the path in front of it leads to. -/
theorem place_entry (d : Disk) (l : Location) (n : Name) :
    d.place (l.entry n).path =
      match d.look l.path with
      | .error e => .error e
      | .ok (.vacant _) => .error .notFound
      | .ok (.found r) =>
        if d.tree.isDirectory r then .ok (some (r.entry n)) else .error .notDirectory := by
  have hsegments : (l.entry n).path.segments.reverse.dropWhile (· == [])
      = n.chars :: ((l.names.map Name.chars).reverse ++ [[]]) := by
    rw [← Location.pathTo_chars, Location.segments_pathTo n.slash_not_mem_chars, List.reverse_cons,
      List.reverse_append, List.reverse_singleton, List.singleton_append, List.cons_append,
      List.dropWhile_cons_of_neg (by simpa using n.chars_ne_nil)]
  have hbefore : ((l.names.map Name.chars).reverse ++ [[]]).reverse
      = [] :: l.names.map Name.chars := by
    rw [List.reverse_append, List.reverse_reverse]
    rfl
  rw [place, hsegments]
  dsimp only
  rw [hbefore, start, Location.isAbsolute_path, if_pos rfl, FileTree.walk_empty_cons,
    ← FileTree.walk_segments, ← look_path, Name.ofChars?_chars]
  rfl

/-- Making a directory fails where something is, and where the directory above is missing. -/
theorem createDir_entry (d : Disk) (l : Location) (n : Name) :
    d.createDir (l.entry n).path =
      match d.look l.path with
      | .error e => .error e
      | .ok (.vacant _) => .error .notFound
      | .ok (.found r) =>
        if d.tree.isDirectory r then
          match d.tree.get? (r.entry n) with
          | some _ => .error .alreadyExists
          | none => .ok { d with tree := d.tree.put (r.entry n) .directory }
        else .error .notDirectory := by
  rw [createDir, createEntry, place_entry]
  cases d.look l.path with
  | error e => rfl
  | ok landing =>
    cases landing with
    | vacant v => rfl
    | found r =>
      dsimp only
      cases d.tree.isDirectory r with
      | false => rfl
      | true => rfl

theorem createDir_root (d : Disk) : d.createDir Location.root.path = .error .alreadyExists := by
  have hplace : d.place Location.root.path = .ok none := by
    rw [place, Location.segments_path, Location.isAbsolute_path]
    rfl
  rw [createDir, createEntry, hplace]

/-- A directory that was just made is found where it was put. -/
theorem find_put_directory (hfind : d.find l.path = .ok (r, .directory))
    (hnone : d.tree.get? (r.entry n) = none) :
    (⟨d.tree.put (r.entry n) .directory, d.cwd⟩ : Disk).find (l.entry n).path
      = .ok (r.entry n, .directory) := by
  have hroom :=
    hasRoomAt_entry (FileTree.isDirectory_iff.mpr (find_eq_ok_iff.mp hfind).2) hnone
  have hgrows : d.tree.Grows (d.tree.put (r.entry n) .directory) := by
    apply FileTree.grows_put
    intro e he
    rw [hnone] at he
    cases he
  exact find_entry (find_directory_of_grows hgrows hfind) (FileTree.get?_put_self hroom)
    Entry.directory_ne_link

/-! ### A directory and those above it -/

theorem createDirs_succ (d : Disk) (steps : Nat) (l : Location) (n : Name) :
    createDirs (steps + 1) d (l.entry n).path =
      match d.createDir (l.entry n).path with
      | .ok made => (made, .ok ())
      | .error .notFound =>
        match createDirs steps d l.path with
        | (made, .error e) => (made, .error e)
        | (made, .ok ()) =>
          match made.createDir (l.entry n).path with
          | .ok made => (made, .ok ())
          | .error e => (made, if made.isDir (l.entry n).path then .ok () else .error e)
      | .error e => (d, if d.isDir (l.entry n).path then .ok () else .error e) := by
  rw [createDirs, Location.isEmpty_path, Location.parent?_entry]
  rfl

/-- A failure other than a missing directory above it is final, unless the directory is there. -/
theorem createDirs_of_error (steps : Nat) {e : FileError}
    (h : d.createDir (l.entry n).path = .error e) (he : e ≠ .notFound) :
    createDirs (steps + 1) d (l.entry n).path
      = (d, if d.isDir (l.entry n).path then .ok () else .error e) := by
  rw [createDirs_succ, h]
  cases e <;> first | rfl | exact absurd rfl he

/-- What leads to a directory names something in a directory. -/
theorem exists_find_of_find_entry {e : Entry} (h : d.find (l.entry n).path = .ok (r, e)) :
    ∃ above e', d.find l.path = .ok (above, .directory) ∧
      d.tree.get? (above.entry n) = some e' := by
  rw [find_eq_ok_iff, look_path, FileTree.walk_segments, Location.names_entry, List.map_append,
    List.map_singleton] at h
  obtain ⟨above, habove, hdir⟩ := FileTree.exists_walk_of_append (List.cons_ne_nil n.chars [])
    FileTree.linkLimit _ Location.root _ (FileTree.isDirectory_root _) h.1
  have hfind : d.find l.path = .ok (above, .directory) := by
    rw [find_eq_ok_iff, look_path, FileTree.walk_segments]
    exact ⟨habove, FileTree.isDirectory_iff.mp hdir⟩
  refine ⟨above, ?_⟩
  cases hget : d.tree.get? (above.entry n) with
  | some e' => exact ⟨e', hfind, rfl⟩
  | none =>
    have hnone := find_entry_of_none hfind hget
    have hsome : d.find (l.entry n).path = .ok (r, e) := by
      rw [find_eq_ok_iff, look_path, FileTree.walk_segments, Location.names_entry,
        List.map_append, List.map_singleton]
      exact h
    rw [hnone] at hsome
    cases hsome

/-- **Nothing is made** where a directory is. -/
theorem createDirs_of_find (h : d.find l.path = .ok (r, .directory)) (steps : Nat) :
    createDirs (steps + 1) d l.path = (d, .ok ()) := by
  have hisdir : d.isDir l.path = true := isDir_iff.mpr ⟨r, h⟩
  by_cases hroot : l = .root
  · subst hroot
    rw [createDirs, Location.isEmpty_path, createDir_root]
    dsimp only
    rw [hisdir]
    rfl
  · obtain ⟨n, hn⟩ := Location.exists_entry_parent hroot
    rw [hn] at h hisdir ⊢
    obtain ⟨above, e', habove, hget⟩ := exists_find_of_find_entry h
    obtain ⟨hlook, hdir⟩ := find_eq_ok_iff.mp habove
    have hcreate : d.createDir (l.parent.entry n).path = .error .alreadyExists := by
      rw [createDir_entry, hlook]
      dsimp only
      rw [if_pos (FileTree.isDirectory_iff.mpr hdir), hget]
    rw [createDirs_of_error steps hcreate (by decide), hisdir, if_pos rfl]

/-- Directories are there that were not, and nothing else has changed. -/
structure DirsAdded (d d' : Disk) : Prop where
  cwd_eq : d'.cwd = d.cwd
  get?_eq_or : ∀ k, d'.tree.get? k = d.tree.get? k ∨
    d.tree.get? k = none ∧ d'.tree.get? k = some .directory

namespace DirsAdded

theorem refl (d : Disk) : DirsAdded d d :=
  ⟨rfl, fun _ => Or.inl rfl⟩

theorem trans {d'' : Disk} (h : DirsAdded d d') (h' : DirsAdded d' d'') : DirsAdded d d'' := by
  refine ⟨h'.cwd_eq.trans h.cwd_eq, fun k => ?_⟩
  rcases h.get?_eq_or k with hk | ⟨hnone, hdir⟩
  · rw [← hk]
    exact h'.get?_eq_or k
  · rcases h'.get?_eq_or k with hk' | ⟨hnone', -⟩
    · rw [hk', hdir]
      exact Or.inr ⟨hnone, rfl⟩
    · rw [hdir] at hnone'
      cases hnone'

theorem grows (h : DirsAdded d d') : d.tree.Grows d'.tree := by
  intro k e he
  rcases h.get?_eq_or k with hk | ⟨hnone, -⟩
  · exact ⟨e, hk.trans he, SameKind.refl e⟩
  · rw [he] at hnone
    cases hnone

/-- Links are where they were. -/
theorem link {target : Path} (h : DirsAdded d d') (hk : d'.tree.get? k = some (.link target)) :
    d.tree.get? k = some (.link target) := by
  rcases h.get?_eq_or k with heq | ⟨-, hdir⟩
  · rw [← heq, hk]
  · rw [hk] at hdir
    cases hdir

end DirsAdded

theorem dirsAdded_put (hnone : d.tree.get? k = none) :
    DirsAdded d ⟨d.tree.put k .directory, d.cwd⟩ := by
  refine ⟨rfl, fun k' => ?_⟩
  by_cases hk : k' = k
  · subst hk
    cases hroom : d.tree.hasRoomAt k' with
    | true => exact Or.inr ⟨hnone, FileTree.get?_put_self hroom⟩
    | false =>
      dsimp only
      rw [FileTree.put_of_not_hasRoomAt hroom]
      exact Or.inl rfl
  · exact Or.inl (FileTree.get?_put_of_ne hk)

theorem dirsAdded_createDir {p : Path} (h : d.createDir p = .ok d') : DirsAdded d d' := by
  unfold createDir createEntry at h
  split at h
  · cases h
  · cases h
  · split at h
    · cases h
    · rename_i hnone
      cases h
      exact dirsAdded_put hnone

/-- **Making a directory with those above it** adds directories only. -/
theorem dirsAdded_createDirs (steps : Nat) (d : Disk) (p : Path) :
    DirsAdded d (createDirs steps d p).1 := by
  induction steps generalizing p with
  | zero => exact DirsAdded.refl d
  | succ steps ih =>
    rw [createDirs]
    split
    · exact DirsAdded.refl d
    · split
      · exact dirsAdded_createDir ‹_›
      · split
        · exact DirsAdded.refl d
        · rename_i above _
          have habove := ih above
          split
          · rename_i hmade
            rwa [hmade] at habove
          · rename_i made hmade
            rw [hmade] at habove
            split
            · exact habove.trans (dirsAdded_createDir ‹_›)
            · exact habove
      · exact DirsAdded.refl d

theorem dirsAdded_createDirAll (d : Disk) (p : Path) : DirsAdded d (d.createDirAll p).1 :=
  dirsAdded_createDirs (p.chars.length + 1) d p

/-- What `createDirs` comes to: directories are added, and if all went well the path leads to one,
which is either the one that it led to before or a new one. -/
structure Made (d : Disk) (l : Location) (d' : Disk) (result : Except FileError Unit) : Prop where
  added : DirsAdded d d'
  find : result = .ok () → ∃ r, d'.find l.path = .ok (r, .directory) ∧
    (d' = d ∨ d.tree.get? r = none)

theorem Made.of_createDir {made : Disk} (h : d.createDir (l.entry n).path = .ok made) :
    Made d (l.entry n) made (.ok ()) := by
  rw [createDir_entry] at h
  split at h
  · cases h
  · cases h
  · rename_i r hlook
    split at h
    · rename_i hdir
      split at h
      · cases h
      · rename_i hnone
        cases h
        have hfind : d.find l.path = .ok (r, .directory) :=
          find_eq_ok_iff.mpr ⟨hlook, FileTree.isDirectory_iff.mp hdir⟩
        exact ⟨dirsAdded_put hnone, fun _ => ⟨r.entry n, find_put_directory hfind hnone,
          Or.inr hnone⟩⟩
    · cases h

theorem Made.of_isDir (d : Disk) (l : Location) (e : FileError) :
    Made d l d (if d.isDir l.path then .ok () else .error e) := by
  refine ⟨DirsAdded.refl d, fun hok => ?_⟩
  cases hdir : d.isDir l.path with
  | true =>
    obtain ⟨r, hr⟩ := isDir_iff.mp hdir
    exact ⟨r, hr, Or.inl rfl⟩
  | false =>
    rw [hdir] at hok
    cases hok

/-- A directory made in a directory that was made. -/
theorem Made.entry {made made' : Disk} {result : Except FileError Unit}
    (habove : Made d l made (.ok ())) (h : Made made (l.entry n) made' result) :
    Made d (l.entry n) made' result := by
  refine ⟨habove.added.trans h.added, fun hok => ?_⟩
  obtain ⟨r, hr, hnew⟩ := h.find hok
  refine ⟨r, hr, ?_⟩
  rcases hnew with rfl | hnone
  · -- It was there already, so either nothing was made, or it lies in what was made.
    obtain ⟨above, hfind, hsame⟩ := habove.find rfl
    rcases hsame with rfl | hnone
    · exact Or.inl rfl
    · right
      obtain ⟨above', e', hfind', hget⟩ := exists_find_of_find_entry hr
      rw [hfind] at hfind'
      cases hfind'
      have hmissing : d.tree.get? (above.entry n) = none := by
        cases hget' : d.tree.get? (above.entry n) with
        | none => rfl
        | some e'' =>
          have hparent := FileTree.isDirectory_parent hget'
          rw [Location.parent_entry, FileTree.isDirectory_iff, hnone] at hparent
          cases hparent
      have hnew : made'.tree.get? (above.entry n) = some .directory := by
        rcases habove.added.get?_eq_or (above.entry n) with heq | ⟨-, hdir⟩
        · rw [hget, hmissing] at heq
          cases heq
        · exact hdir
      have hplace := find_entry hfind hnew Entry.directory_ne_link
      rw [hr] at hplace
      cases hplace
      exact hmissing
  · right
    cases hget : d.tree.get? r with
    | none => rfl
    | some e =>
      obtain ⟨e', he', -⟩ := habove.added.grows r e hget
      rw [hnone] at he'
      cases he'

/-- **Where the path of the directory leads** once it is made, if all went well. -/
theorem made_createDirs (steps : Nat) (d : Disk) (l : Location) :
    Made d l (createDirs steps d l.path).1 (createDirs steps d l.path).2 := by
  induction steps generalizing l with
  | zero =>
    refine ⟨DirsAdded.refl d, fun hok => ?_⟩
    cases hok
  | succ steps ih =>
    by_cases hroot : l = .root
    · have hfind : d.find l.path = .ok (l, .directory) :=
        find_path (by rw [hroot]; exact FileTree.get?_root _) Entry.directory_ne_link
      rw [createDirs_of_find hfind]
      exact ⟨DirsAdded.refl d, fun _ => ⟨l, hfind, Or.inl rfl⟩⟩
    · obtain ⟨n, hn⟩ := Location.exists_entry_parent hroot
      rw [hn]
      cases hcreate : d.createDir (l.parent.entry n).path with
      | ok made =>
        rw [createDirs_succ, hcreate]
        exact Made.of_createDir hcreate
      | error e =>
        by_cases hmissing : e = .notFound
        · subst hmissing
          -- The one above is made first, and then another attempt is made.
          have habove := ih l.parent
          rw [createDirs_succ, hcreate]
          dsimp only
          generalize createDirs steps d l.parent.path = above at habove
          obtain ⟨made, result⟩ := above
          cases result with
          | error e => exact ⟨habove.added, fun hok => by cases hok⟩
          | ok done =>
            dsimp only
            cases hcreate' : made.createDir (l.parent.entry n).path with
            | ok made' => exact habove.entry (Made.of_createDir hcreate')
            | error e => exact habove.entry (Made.of_isDir made _ e)
        · rw [createDirs_of_error steps hcreate hmissing]
          exact Made.of_isDir d _ e

/-! ### Directories below one that is there -/

/-- How a file in the way is told: as itself, or as no directory. -/
def wayError (t : FileTree) (r : Location) (names : List Name) : FileError :=
  match t.get? (r.below names) with
  | some (.file _) => .alreadyExists
  | _ => .notDirectory

/-- The directories on a way down are there, and nothing else has changed. -/
structure MadeWay (d : Disk) (r : Location) (names : List Name) (d' : Disk) : Prop where
  cwd_eq : d'.cwd = d.cwd
  directory : ∀ front, front <+: names → d'.tree.get? (r.below front) = some .directory
  get?_eq : ∀ k, (∀ front, front <+: names → k ≠ r.below front) → d'.tree.get? k = d.tree.get? k

theorem below_ne_below {front : List Name} (h : ¬ front <+: names) :
    ∀ front', front' <+: names → r.below front ≠ r.below front' := by
  intro front' hfront' heq
  have hnames := List.append_cancel_left (congrArg Location.names heq)
  exact h (hnames ▸ hfront')

section Below

variable (hfind : d.find l.path = .ok (r, .directory)) (hlinks : d.tree.NoLinkOnWay r names)

include hfind in
theorem exists_look_below : ∃ left, ∀ (names : List Name) (last : List (List Char)),
    d.tree.walk FileTree.linkLimit .root ((l.below names).names.map Name.chars ++ last)
      = d.tree.walk left r (names.map Name.chars ++ last) := by
  rw [find_eq_ok_iff, look_path, FileTree.walk_segments] at hfind
  obtain ⟨left, hleft⟩ := FileTree.walk_append _ _ _ hfind.1 (FileTree.isDirectory_iff.mpr hfind.2)
  refine ⟨left, fun names last => ?_⟩
  rw [Location.names_below, List.map_append, List.append_assoc, hleft]

include hfind hlinks in
/-- What is below the directory is found where it is. -/
theorem find_below {e : Entry} (h : d.tree.get? (r.below names) = some e) :
    d.find (l.below names).path = .ok (r.below names, e) := by
  obtain ⟨left, hleft⟩ := exists_look_below hfind
  have hwalk := hleft names []
  rw [List.append_nil, List.append_nil, FileTree.walk_below hlinks h] at hwalk
  rw [find_eq_ok_iff, look_path, FileTree.walk_segments, hwalk]
  exact ⟨rfl, h⟩

include hfind hlinks in
theorem look_below_of_none (h : d.tree.get? (r.below names) = none) :
    (d.tree.FileOnWay r names → d.look (l.below names).path = .error .notDirectory) ∧
    (¬ d.tree.FileOnWay r names → d.look (l.below names).path = .error .notFound ∨
      ∃ k, d.look (l.below names).path = .ok (.vacant k)) := by
  obtain ⟨left, hleft⟩ := exists_look_below hfind
  have hwalk := hleft names []
  rw [List.append_nil, List.append_nil] at hwalk
  have hdir := FileTree.isDirectory_iff.mpr (find_eq_ok_iff.mp hfind).2
  rw [look_path, FileTree.walk_segments, hwalk]
  exact FileTree.walk_below_of_none hdir hlinks h

include hfind hlinks in
/-- What is found at the end of the way is where the names say. -/
theorem eq_below_of_find {e : Entry} (h : d.find (l.below names).path = .ok (k, e)) :
    k = r.below names := by
  cases hget : d.tree.get? (r.below names) with
  | none =>
    have hlook := (find_eq_ok_iff.mp h).1
    have hnone := look_below_of_none hfind hlinks hget
    by_cases hway : d.tree.FileOnWay r names
    · rw [hnone.1 hway] at hlook
      cases hlook
    · rcases hnone.2 hway with h | ⟨k', h⟩ <;> rw [h] at hlook <;> cases hlook
  | some e' =>
    rw [find_below hfind hlinks hget] at h
    cases h
    rfl

include hfind hlinks in
theorem isDir_below_iff :
    d.isDir (l.below names).path = true ↔ d.tree.get? (r.below names) = some .directory := by
  constructor
  · intro hdir
    obtain ⟨k, hk⟩ := isDir_iff.mp hdir
    rw [← eq_below_of_find hfind hlinks hk]
    exact (find_eq_ok_iff.mp hk).2
  · exact fun hget => isDir_iff.mpr ⟨_, find_below hfind hlinks hget⟩

/-- The way down ends in a directory that was made last. -/
theorem MadeWay.concat {made : Disk} (h : MadeWay d r names made)
    (hnone : d.tree.get? (r.below (names ++ [n])) = none) :
    MadeWay d r (names ++ [n]) ⟨made.tree.put (r.below (names ++ [n])) .directory, made.cwd⟩ := by
  have hnot : ¬ names ++ [n] <+: names := by
    intro hpre
    have hlen := hpre.length_le
    rw [List.length_append, List.length_singleton] at hlen
    omega
  have hsame := h.get?_eq _ (below_ne_below hnot)
  have hroom : made.tree.hasRoomAt (r.below (names ++ [n])) = true := by
    rw [Location.below_concat]
    apply hasRoomAt_entry
    · exact FileTree.isDirectory_iff.mpr (h.directory names (List.prefix_refl names))
    · rw [← Location.below_concat, hsame, hnone]
  refine ⟨h.cwd_eq, fun front hfront => ?_, fun k hk => ?_⟩
  · rcases List.prefix_concat_iff.mp hfront with rfl | hfront
    · exact FileTree.get?_put_self hroom
    · have hne := below_ne_below (r := r) hnot front hfront
      exact (FileTree.get?_put_of_ne hne.symm).trans (h.directory front hfront)
  · have hlast := hk _ (List.prefix_refl _)
    refine (FileTree.get?_put_of_ne hlast).trans (h.get?_eq k fun front hfront => ?_)
    exact hk front (hfront.trans (List.prefix_append names [n]))

include hfind hlinks in
/-- A directory is made in a directory that is there. -/
theorem createDir_below (habove : d.tree.get? (r.below names) = some .directory)
    (hnone : d.tree.get? (r.below (names ++ [n])) = none) :
    d.createDir ((l.below names).entry n).path
      = .ok ⟨d.tree.put (r.below (names ++ [n])) .directory, d.cwd⟩ := by
  have hlook := (find_eq_ok_iff.mp (find_below hfind hlinks habove)).1
  rw [Location.below_concat] at hnone ⊢
  rw [createDir_entry, hlook]
  dsimp only
  rw [if_pos (FileTree.isDirectory_iff.mpr habove), hnone]

include hfind hlinks in
/-- No directory is made below a file. -/
theorem createDir_of_fileOnWay (hway : d.tree.FileOnWay r names) :
    d.createDir ((l.below names).entry n).path = .error .notDirectory := by
  rw [createDir_entry]
  cases hget : d.tree.get? (r.below names) with
  | none => rw [(look_below_of_none hfind hlinks hget).1 hway]
  | some e =>
    rw [(find_eq_ok_iff.mp (find_below hfind hlinks hget)).1]
    have hnot : d.tree.isDirectory (r.below names) = false := by
      rw [← Bool.not_eq_true, FileTree.isDirectory_iff]
      exact fun hdir => FileTree.not_fileOnWay_of_directory hdir hway
    dsimp only
    rw [hnot]
    rfl

omit hlinks in
include hfind in
/-- The last directory of a way, when the one above it is there. -/
theorem createDirs_concat_of_directory (hlinks : d.tree.NoLinkOnWay r (names ++ [n])) (steps : Nat)
    (habove : d.tree.get? (r.below names) = some .directory)
    (hisdir : d.isDir ((l.below names).entry n).path = true ↔
      d.tree.get? (r.below (names ++ [n])) = some .directory) :
    (d.tree.FileOnWay r (names ++ [n]) → createDirs (steps + 1) d ((l.below names).entry n).path
      = (d, .error (wayError d.tree r (names ++ [n])))) ∧
    (¬ d.tree.FileOnWay r (names ++ [n]) → ∃ made,
      createDirs (steps + 1) d ((l.below names).entry n).path = (made, .ok ()) ∧
        MadeWay d r (names ++ [n]) made) := by
  have hlinks' := hlinks.mono (List.prefix_append names [n])
  have hway : MadeWay d r names d := by
    refine ⟨rfl, fun front hfront => ?_, fun k _ => rfl⟩
    by_cases hne : front = names
    · rwa [hne]
    · exact FileTree.isDirectory_below habove hfront hne
  have hclear : d.tree.FileOnWay r (names ++ [n]) ↔
      ∃ content, d.tree.get? (r.below (names ++ [n])) = some (.file content) := by
    rw [FileTree.fileOnWay_concat_iff, or_iff_right (FileTree.not_fileOnWay_of_directory habove)]
  rw [hclear]
  cases hget : d.tree.get? (r.below (names ++ [n])) with
  | none =>
    refine ⟨nofun, fun _ => ⟨_, ?_, hway.concat hget⟩⟩
    rw [createDirs_succ, createDir_below hfind hlinks' habove hget]
  | some e =>
    have hcreate : d.createDir ((l.below names).entry n).path = .error .alreadyExists := by
      have hlook := (find_eq_ok_iff.mp (find_below hfind hlinks' habove)).1
      rw [Location.below_concat] at hget
      rw [createDir_entry, hlook]
      dsimp only
      rw [if_pos (FileTree.isDirectory_iff.mpr habove), hget]
    rw [createDirs_of_error steps hcreate (by decide)]
    cases e with
    | link target => exact absurd hget (hlinks _ target (List.prefix_refl _))
    | directory =>
      have hisdir' := hisdir.mpr hget
      refine ⟨nofun, fun _ => ⟨d, ?_, rfl, fun front hfront => ?_, fun k _ => rfl⟩⟩
      · rw [hisdir', if_pos rfl]
      · rcases List.prefix_concat_iff.mp hfront with rfl | hfront
        · exact hget
        · exact hway.directory front hfront
    | file content =>
      have hnotdir : d.isDir ((l.below names).entry n).path = false := by
        rw [← Bool.not_eq_true, hisdir, hget]
        exact nofun
      refine ⟨fun _ => ?_, fun hnone => absurd ⟨content, rfl⟩ hnone⟩
      rw [hnotdir, wayError, hget]
      rfl

omit hlinks in
include hfind in
/-- The last directory of a way, when the one above it is to be made first. -/
theorem createDirs_concat_of_missing (hlinks : d.tree.NoLinkOnWay r (names ++ [n])) (steps : Nat)
    (habove : d.tree.get? (r.below names) ≠ some .directory)
    (hrest : ¬ d.tree.FileOnWay r names → ∃ made,
      createDirs steps d (l.below names).path = (made, .ok ()) ∧ MadeWay d r names made)
    (hisdir : d.isDir ((l.below names).entry n).path = true ↔
      d.tree.get? (r.below (names ++ [n])) = some .directory) :
    (d.tree.FileOnWay r (names ++ [n]) → createDirs (steps + 1) d ((l.below names).entry n).path
      = (d, .error (wayError d.tree r (names ++ [n])))) ∧
    (¬ d.tree.FileOnWay r (names ++ [n]) → ∃ made,
      createDirs (steps + 1) d ((l.below names).entry n).path = (made, .ok ()) ∧
        MadeWay d r (names ++ [n]) made) := by
  have hlinks' := hlinks.mono (List.prefix_append names [n])
  have hmissing : d.tree.get? (r.below (names ++ [n])) = none := by
    cases hget : d.tree.get? (r.below (names ++ [n])) with
    | none => rfl
    | some e =>
      have hdir := FileTree.isDirectory_below hget (List.prefix_append names [n]) (by simp)
      exact absurd hdir habove
  have hno : ¬ ∃ content, d.tree.get? (r.below (names ++ [n])) = some (.file content) := by
    rw [hmissing]
    exact nofun
  rw [FileTree.fileOnWay_concat_iff, or_iff_left hno]
  refine ⟨fun hway => ?_, fun hclear => ?_⟩
  · -- Nothing can be made below a file.
    have hcreate : d.createDir ((l.below names).entry n).path = .error .notDirectory :=
      createDir_of_fileOnWay hfind hlinks' hway
    have hnotdir : d.isDir ((l.below names).entry n).path = false := by
      rw [← Bool.not_eq_true, hisdir, hmissing]
      exact nofun
    have herror : wayError d.tree r (names ++ [n]) = .notDirectory := by
      rw [wayError, hmissing]
    rw [createDirs_of_error steps hcreate (by decide), hnotdir, herror]
    rfl
  · have hnone : d.tree.get? (r.below names) = none := by
      cases hget : d.tree.get? (r.below names) with
      | none => rfl
      | some e =>
        cases e with
        | directory => exact absurd hget habove
        | link target => exact absurd hget (hlinks' names target (List.prefix_refl names))
        | file content => exact absurd ⟨names, content, List.prefix_refl names, hget⟩ hclear
    have hcreate : d.createDir ((l.below names).entry n).path = .error .notFound := by
      rw [createDir_entry]
      rcases (look_below_of_none hfind hlinks' hnone).2 hclear with h | ⟨k, h⟩ <;> rw [h]
    obtain ⟨made, hmade, hway⟩ := hrest hclear
    have hadded : DirsAdded d made := by
      have hspec := dirsAdded_createDirs steps d (l.below names).path
      rwa [hmade] at hspec
    -- On what has been made the second attempt finds the directory above.
    have hstill : made.tree.get? (r.below (names ++ [n])) = none := by
      rw [hway.get?_eq _ (below_ne_below fun hpre => ?_), hmissing]
      have hlen := hpre.length_le
      rw [List.length_append, List.length_singleton] at hlen
      omega
    have hcreate' := createDir_below (find_directory_of_grows hadded.grows hfind)
      (hlinks'.of_links hadded.link) (hway.directory names (List.prefix_refl _)) hstill
    refine ⟨_, ?_, hway.concat hmissing⟩
    rw [createDirs_succ, hcreate]
    dsimp only
    rw [hmade]
    dsimp only
    rw [hcreate']

include hfind hlinks in
/-- **Making a directory below one that is there**, one name after the other from the end of the
way. -/
theorem createDirs_below (steps : Nat) (hsteps : names.length < steps) :
    (d.tree.FileOnWay r names →
      createDirs steps d (l.below names).path = (d, .error (wayError d.tree r names))) ∧
    (¬ d.tree.FileOnWay r names → ∃ made,
      createDirs steps d (l.below names).path = (made, .ok ()) ∧ MadeWay d r names made) := by
  induction names using List.reverseRecOn generalizing steps with
  | nil =>
    have hdir : d.tree.get? (r.below []) = some .directory := by
      rw [Location.below_nil]
      exact (find_eq_ok_iff.mp hfind).2
    obtain ⟨steps, rfl⟩ := Nat.exists_eq_succ_of_ne_zero (Nat.ne_zero_of_lt hsteps)
    refine ⟨fun hfile => absurd hfile (FileTree.not_fileOnWay_of_directory hdir), fun _ => ?_⟩
    rw [Location.below_nil]
    refine ⟨d, createDirs_of_find hfind steps, rfl, fun front hfront => ?_, fun k _ => rfl⟩
    rw [List.prefix_nil.mp hfront]
    exact hdir
  | append_singleton names n ih =>
    obtain ⟨steps, rfl⟩ := Nat.exists_eq_succ_of_ne_zero (Nat.ne_zero_of_lt hsteps)
    rw [List.length_append, List.length_singleton] at hsteps
    have hentry : l.below (names ++ [n]) = (l.below names).entry n :=
      Location.below_concat l names n
    have hisdir : d.isDir ((l.below names).entry n).path = true ↔
        d.tree.get? (r.below (names ++ [n])) = some .directory := by
      rw [← hentry]
      exact isDir_below_iff hfind hlinks
    rw [hentry]
    by_cases habove : d.tree.get? (r.below names) = some .directory
    · exact createDirs_concat_of_directory hfind hlinks steps habove hisdir
    · have hrest := (ih (hlinks.mono (List.prefix_append names [n])) steps (by omega)).2
      exact createDirs_concat_of_missing hfind hlinks steps habove hrest hisdir

include hfind hlinks in
/-- **A directory below one that is there** can be made unless a file is in the way. -/
theorem createDirAll_below :
    (d.tree.FileOnWay r names →
      d.createDirAll (l.below names).path = (d, .error (wayError d.tree r names))) ∧
    (¬ d.tree.FileOnWay r names → ∃ made, d.createDirAll (l.below names).path = (made, .ok ()) ∧
      MadeWay d r names made ∧ DirsAdded d made) := by
  have hsteps : names.length < (l.below names).path.chars.length + 1 := by
    have hlen := Location.length_names_lt (l.below names)
    rw [Location.names_below, List.length_append] at hlen
    omega
  obtain ⟨hblocked, hclear⟩ := createDirs_below hfind hlinks _ hsteps
  refine ⟨hblocked, fun hway => ?_⟩
  obtain ⟨made, hmade, hwaymade⟩ := hclear hway
  refine ⟨made, hmade, hwaymade, ?_⟩
  have hadded := dirsAdded_createDirs ((l.below names).path.chars.length + 1) d (l.below names).path
  rwa [hmade] at hadded

end Below

/-- **Below a directory that was made** no link is on a way, if none was on it before. -/
theorem Made.exists_find {result : Except FileError Unit} (h : Made d l d' result)
    (hok : result = .ok ()) : ∃ r, d'.find l.path = .ok (r, .directory) ∧
      ∀ names, (∀ r, d.find l.path = .ok (r, .directory) → d.tree.NoLinkOnWay r names) →
        d'.tree.NoLinkOnWay r names := by
  obtain ⟨r, hr, hnew⟩ := h.find hok
  refine ⟨r, hr, fun names hlinks => ?_⟩
  rcases hnew with rfl | hnone
  · exact hlinks r hr
  · intro front target _ hlink
    have hlink' := h.added.link hlink
    -- What is new holds nothing that is old.
    by_cases hnil : front = []
    · rw [hnil, Location.below_nil, hnone] at hlink'
      cases hlink'
    · have hdir := FileTree.isDirectory_below hlink' List.nil_prefix (Ne.symm hnil)
      rw [Location.below_nil, hnone] at hdir
      cases hdir

end Disk

end SheetGraph
