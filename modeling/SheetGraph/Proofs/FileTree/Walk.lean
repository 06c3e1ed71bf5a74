import Mathlib.Data.List.Induction
import SheetGraph.FileTree.Disk
import SheetGraph.Proofs.Path.Location

/-!
# Walks along the names of a location

What a walk does with the path of a location.

* `FileTree.walk_append`: a walk that has come to a directory goes on from there.
* `Disk.find_path`: what is in the tree is found at its own path.
* `Disk.find_path_iff`: in a tree without links nothing else is found.

Proofs about walks are by recursion on the number of links that may still be followed and then on
the texts that are left, as in `FileTree.walk` itself; `walk_cons` is the one step.
-/

namespace SheetGraph

theorem Entry.file_ne_directory {content : ByteArray} : Entry.file content ≠ .directory := by
  intro h
  cases h

theorem Entry.file_ne_link {content : ByteArray} (target : Path) :
    Entry.file content ≠ .link target := by
  intro h
  cases h

theorem Entry.directory_ne_link (target : Path) : Entry.directory ≠ .link target := by
  intro h
  cases h

namespace FileTree

variable {t : FileTree} {links : Nat} {dir l : Location}

/-! ### One step of a walk -/

/-- How a walk that may follow `links` links goes on behind one. -/
def onLink (t : FileTree) : (links : Nat) → Location → List (List Char) → Except FileError Landing
  | 0 => fun _ _ => .error .tooManyLinks
  | links + 1 => t.walk links

theorem walk_eq_walkWith : t.walk links = t.walkWith (t.onLink links) := by
  cases links with
  | zero => rfl
  | succ links => rfl

@[simp] theorem walk_nil : t.walk links dir [] = .ok (.found dir) := by
  rw [walk_eq_walkWith]
  rfl

theorem walk_cons (s : List Char) (rest : List (List Char)) :
    t.walk links dir (s :: rest) =
      match Component.ofSegment? s with
      | some .up => t.walk links dir.parent rest
      | some (.name n) =>
        match t.get? (dir.entry n) with
        | none => if rest = [] then .ok (.vacant (dir.entry n)) else .error .notFound
        | some .directory => t.walk links (dir.entry n) rest
        | some (.file _) => if rest = [] then .ok (.found (dir.entry n)) else .error .notDirectory
        | some (.link target) =>
          t.onLink links (if target.isAbsolute then .root else dir) (target.segments ++ rest)
      | _ => t.walk links dir rest := by
  rw [walk_eq_walkWith]
  rfl

theorem walk_empty_cons (rest : List (List Char)) :
    t.walk links dir ([] :: rest) = t.walk links dir rest := by
  rw [walk_cons]
  rfl

theorem isDirectory_iff : t.isDirectory l = true ↔ t.get? l = some .directory := by
  simp [isDirectory]

@[simp] theorem isDirectory_root (t : FileTree) : t.isDirectory .root = true := by
  simp [isDirectory]

/-- **What holds something further down is a directory.** -/
theorem isDirectory_of_below {names : List Name} {n : Name} {e : Entry}
    (h : t.get? ((dir.below names).entry n) = some e) : t.isDirectory dir = true := by
  induction names using List.reverseRecOn generalizing n e with
  | nil =>
    have hparent := isDirectory_parent h
    rwa [Location.parent_entry, Location.below_nil] at hparent
  | append_singleton names m ih =>
    have hparent := isDirectory_parent h
    rw [Location.parent_entry, Location.below_concat] at hparent
    exact ih (isDirectory_iff.mp hparent)

/-- What is above something is a directory. -/
theorem isDirectory_below {front names : List Name} {e : Entry}
    (h : t.get? (dir.below names) = some e) (hfront : front <+: names) (hne : front ≠ names) :
    t.get? (dir.below front) = some .directory := by
  obtain ⟨rest, rfl⟩ := hfront
  rcases List.eq_nil_or_concat rest with rfl | ⟨rest, n, rfl⟩
  · exact absurd (List.append_nil front).symm hne
  · rw [List.concat_eq_append, ← List.append_assoc, Location.below_concat,
      ← Location.below_below] at h
    exact isDirectory_iff.mp (isDirectory_of_below h)

/-! ### Walks in parts -/

/-- **A walk that has come to a directory goes on from there**, with the links that are left. -/
theorem walk_append (links : Nat) (segments : List (List Char)) (dir : Location)
    (h : t.walk links dir segments = .ok (.found l)) (hl : t.isDirectory l = true) :
    ∃ left, ∀ rest, t.walk links dir (segments ++ rest) = t.walk left l rest := by
  match segments with
  | [] =>
    rw [walk_nil] at h
    cases h
    exact ⟨links, fun rest => rfl⟩
  | s :: segments =>
    rw [walk_cons] at h
    simp only [List.cons_append, walk_cons]
    split at h
    · exact walk_append links segments dir.parent h hl
    · rename_i n _
      split at h
      · split at h <;> cases h
      · exact walk_append links segments (dir.entry n) h hl
      · rename_i content hfile
        -- The walk ends at a file, which is no directory.
        split at h
        · cases h
          simp [isDirectory, hfile] at hl
        · cases h
      · rename_i target _
        cases links with
        | zero => cases h
        | succ links =>
          obtain ⟨left, hleft⟩ := walk_append links _ _ h hl
          exact ⟨left, fun rest => by rw [← List.append_assoc]; exact hleft rest⟩
    · exact walk_append links segments dir h hl
termination_by (links, segments.length)

/-- A walk from the root along the names of a directory comes to it without a link. -/
theorem walk_names_append {l : Location} (hl : t.isDirectory l = true) (rest : List (List Char)) :
    t.walk links .root (l.names.map Name.chars ++ rest) = t.walk links l rest := by
  obtain ⟨names⟩ := l
  induction names using List.reverseRecOn generalizing rest with
  | nil => rfl
  | append_singleton names n ih =>
    have hentry : (⟨names ++ [n]⟩ : Location) = Location.entry ⟨names⟩ n := rfl
    rw [hentry] at hl ⊢
    have hparent : t.isDirectory ⟨names⟩ = true := by
      have h := isDirectory_parent (isDirectory_iff.mp hl)
      rwa [Location.parent_entry] at h
    rw [Location.names_entry, List.map_append, List.append_assoc, ih _ hparent, List.map_singleton,
      List.singleton_append, walk_cons, Component.ofSegment?_chars]
    simp only [isDirectory_iff.mp hl]

/-- The texts of a location are its names, as far as a walk is concerned. -/
theorem walk_segments (l : Location) :
    t.walk links .root l.segments = t.walk links .root (l.names.map Name.chars) := by
  unfold Location.segments
  split
  · rename_i h
    rw [h, walk_empty_cons]
    rfl
  · rfl

/-- **A walk along the path of what is in the tree comes to it**, unless it is a link. -/
theorem walk_path {e : Entry} (h : t.get? l = some e) (he : ∀ target, e ≠ .link target) :
    t.walk links .root l.segments = .ok (.found l) := by
  rw [walk_segments]
  by_cases hl : l = .root
  · rw [hl]
    exact walk_nil
  · obtain ⟨n, hn⟩ := Location.exists_entry_parent hl
    have hparent := isDirectory_parent h
    rw [hn] at h
    rw [hn, Location.names_entry, List.map_append, walk_names_append hparent, List.map_singleton,
      walk_cons, Component.ofSegment?_chars]
    cases e with
    | file content => simp only [h, if_true]
    | directory => simp only [h, walk_nil]
    | link target => exact absurd rfl (he target)

/-! ### Trees without links -/

/-- There is no symbolic link in the tree. -/
def LinkFree (t : FileTree) : Prop :=
  ∀ l target, t.get? l ≠ some (.link target)

/-- Without links a walk along names goes straight down. -/
theorem eq_below_of_walk_names (ht : t.LinkFree) (names : List Name) (dir : Location)
    (h : t.walk links dir (names.map Name.chars) = .ok (.found l)) : l = dir.below names := by
  induction names generalizing dir with
  | nil =>
    rw [List.map_nil, walk_nil] at h
    cases h
    exact (Location.below_nil _).symm
  | cons n names ih =>
    rw [List.map_cons, walk_cons, Component.ofSegment?_chars] at h
    rw [Location.below_cons]
    dsimp only at h
    split at h
    · split at h <;> cases h
    · exact ih (dir.entry n) h
    · split at h
      · rename_i hrest
        cases h
        rw [List.map_eq_nil_iff.mp hrest, Location.below_nil]
      · cases h
    · exact absurd ‹_› (ht _ _)

end FileTree

namespace Disk

variable {d : Disk} {l k : Location} {e : Entry}

@[simp] theorem locate_path (d : Disk) (l : Location) : d.locate l.path = l :=
  Location.locateFrom_path _ _

/-! ### What is found -/

theorem find_eq_ok_iff {p : Path} :
    d.find p = .ok (k, e) ↔ d.look p = .ok (.found k) ∧ d.tree.get? k = some e := by
  unfold find
  split
  · simp [*]
  · simp [*]
  · rename_i x hx
    split
    · rename_i hget
      simp only [reduceCtorEq, hx, Except.ok.injEq, Landing.found.injEq, false_iff, not_and]
      rintro rfl
      simp [hget]
    · rename_i e' hget
      simp only [Except.ok.injEq, Prod.mk.injEq, hx, Landing.found.injEq]
      constructor
      · rintro ⟨rfl, rfl⟩
        exact ⟨rfl, hget⟩
      · rintro ⟨rfl, he⟩
        exact ⟨rfl, Option.some.inj (hget.symm.trans he)⟩

theorem contains_iff {p : Path} : d.contains p = true ↔ ∃ k e, d.find p = .ok (k, e) := by
  unfold contains
  cases d.find p with
  | error e => simp
  | ok found => exact ⟨fun _ => ⟨found.1, found.2, rfl⟩, fun _ => rfl⟩

theorem isFile_iff {p : Path} :
    d.isFile p = true ↔ ∃ k content, d.find p = .ok (k, .file content) := by
  unfold isFile
  cases d.find p with
  | error e => simp
  | ok found =>
    obtain ⟨k, e⟩ := found
    cases e <;> simp

theorem isDir_iff {p : Path} : d.isDir p = true ↔ ∃ k, d.find p = .ok (k, .directory) := by
  unfold isDir
  cases d.find p with
  | error e => simp
  | ok found =>
    obtain ⟨k, e⟩ := found
    cases e <;> simp

theorem readBytes_eq_ok_iff {p : Path} {content : ByteArray} :
    d.readBytes p = .ok content ↔ ∃ k, d.find p = .ok (k, .file content) := by
  unfold readBytes
  cases d.find p with
  | error e => simp
  | ok found =>
    obtain ⟨k, e⟩ := found
    cases e <;> simp

theorem readText_eq_ok_iff {p : Path} {text : String} :
    d.readText p = .ok text ↔
      ∃ content, d.readBytes p = .ok content ∧ String.fromUTF8? content = some text := by
  unfold readText
  cases d.readBytes p with
  | error e => simp
  | ok content =>
    dsimp only
    cases htext : String.fromUTF8? content <;> simp [htext]

/-! ### Paths of locations -/

/-- The path of a location is walked from the root, wherever the working directory is. -/
theorem look_path (d : Disk) (l : Location) :
    d.look l.path = d.tree.walk FileTree.linkLimit .root l.segments := by
  rw [look, Location.isEmpty_path, start, Location.isAbsolute_path, Location.segments_path,
    FileTree.walk_empty_cons]
  rfl

/-- **What is in the tree is found at its own path**, unless it is a link. -/
theorem find_path (h : d.tree.get? l = some e) (he : ∀ target, e ≠ .link target) :
    d.find l.path = .ok (l, e) := by
  rw [find_eq_ok_iff, look_path]
  exact ⟨FileTree.walk_path h he, h⟩

/-- What a directory holds is looked up in the directory that its path leads to. -/
theorem exists_look_entry {r : Location} (n : Name) (h : d.find l.path = .ok (r, .directory)) :
    ∃ left, d.look (l.entry n).path = d.tree.walk left r [n.chars] := by
  rw [find_eq_ok_iff, look_path, FileTree.walk_segments] at h
  obtain ⟨left, hleft⟩ := FileTree.walk_append _ _ _ h.1 (FileTree.isDirectory_iff.mpr h.2)
  refine ⟨left, ?_⟩
  rw [look_path, FileTree.walk_segments, Location.names_entry, List.map_append, List.map_singleton,
    hleft]

theorem find_entry {r : Location} {n : Name} (h : d.find l.path = .ok (r, .directory))
    (hn : d.tree.get? (r.entry n) = some e) (he : ∀ target, e ≠ .link target) :
    d.find (l.entry n).path = .ok (r.entry n, e) := by
  obtain ⟨left, hleft⟩ := exists_look_entry n h
  rw [find_eq_ok_iff, hleft, FileTree.walk_cons, Component.ofSegment?_chars]
  refine ⟨?_, hn⟩
  cases e with
  | file content => simp only [hn, if_true]
  | directory => simp only [hn, FileTree.walk_nil]
  | link target => exact absurd rfl (he target)

theorem find_entry_of_none {r : Location} {n : Name} (h : d.find l.path = .ok (r, .directory))
    (hn : d.tree.get? (r.entry n) = none) : d.find (l.entry n).path = .error .notFound := by
  obtain ⟨left, hleft⟩ := exists_look_entry n h
  rw [find, hleft, FileTree.walk_cons, Component.ofSegment?_chars]
  simp only [hn, if_true]

/-- **In a tree without links nothing else is found at a path.** -/
theorem find_path_iff (hd : d.tree.LinkFree) :
    d.find l.path = .ok (k, e) ↔ k = l ∧ d.tree.get? l = some e := by
  constructor
  · intro h
    rw [find_eq_ok_iff, look_path, FileTree.walk_segments] at h
    have hk := FileTree.eq_below_of_walk_names hd _ _ h.1
    have hkl : k = l := by
      rw [hk]
      rfl
    exact ⟨hkl, hkl ▸ h.2⟩
  · rintro ⟨rfl, h⟩
    exact find_path h fun target he => hd _ target (he ▸ h)

end Disk

end SheetGraph
