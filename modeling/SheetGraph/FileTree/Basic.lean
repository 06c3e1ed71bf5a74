import SheetGraph.Path.Location

/-!
# File trees

A `FileTree` is a finite tree of files, directories and symbolic links.  It is kept flat, as a list
of locations with what is there; each location occurs once and every entry lies in a directory of
the tree, which both belong to the type.  The root is always a directory.

There are no permissions, no hard links and no special files: what is there can be read, listed and
written, unless it is of the wrong kind.
-/

namespace SheetGraph

/-- What a directory holds under one name. -/
inductive Entry where
  | file (content : ByteArray)
  | directory
  | link (target : Path)

/-- Files are compared by their contents, links by their targets. -/
instance : DecidableEq Entry
  | .file a, .file b =>
    match ByteArray.instDecidableEq a b with
    | isTrue h => isTrue (h ▸ rfl)
    | isFalse h => isFalse fun e => h (Entry.file.inj e)
  | .directory, .directory => isTrue rfl
  | .link a, .link b =>
    if h : a = b then isTrue (h ▸ rfl) else isFalse fun e => h (Entry.link.inj e)
  | .file _, .directory | .file _, .link _ | .directory, .file _ | .directory, .link _
  | .link _, .file _ | .link _, .directory => isFalse nofun

/-- A finite tree of files, directories and symbolic links. -/
structure FileTree where
  /-- The entries below the root, in no particular order. -/
  entries : List (Location × Entry)
  /-- No location is listed twice. -/
  distinct : (entries.map (·.1)).Nodup
  /-- Every entry lies in a directory of the tree. -/
  closed : ∀ e ∈ entries, e.1 ≠ Location.root ∧
    (e.1.parent = Location.root ∨ (e.1.parent, Entry.directory) ∈ entries)

namespace FileTree

/-- The tree that holds nothing but its root. -/
def empty : FileTree := ⟨[], by simp, by simp⟩

instance : Inhabited FileTree := ⟨empty⟩

/-- What is at a location, links not followed. -/
def get? (t : FileTree) (l : Location) : Option Entry :=
  if l = Location.root then some .directory else t.entries.lookup l

/-- Whether the location is a directory, links not followed. -/
def isDirectory (t : FileTree) (l : Location) : Bool :=
  t.get? l == some .directory

/-- Whether an entry can be put at a location: its parent is a directory and it is none itself. -/
def hasRoomAt (t : FileTree) (l : Location) : Bool :=
  l != Location.root && t.isDirectory l.parent && !t.isDirectory l

/-- The names in a directory, in order. -/
def namesIn (t : FileTree) (d : Location) : List Name :=
  (t.entries.filterMap fun e => if e.1.parent = d then e.1.fileName? else none).mergeSort
    fun a b => (a.compare b).isLE

/-- Upper bound of the number of names in a location of the tree. -/
def depth (t : FileTree) : Nat :=
  (t.entries.map fun e => e.1.names.length).foldl max 0

/-! ### Look-up -/

theorem lookup_eq_some_iff {entries : List (Location × Entry)}
    (h : (entries.map (·.1)).Nodup) {l : Location} {e : Entry} :
    entries.lookup l = some e ↔ (l, e) ∈ entries := by
  induction entries with
  | nil => simp
  | cons x xs ih =>
    obtain ⟨k, v⟩ := x
    simp only [List.map_cons, List.nodup_cons] at h
    rw [List.lookup_cons]
    by_cases hk : l = k
    · subst hk
      simp only [BEq.rfl, List.mem_cons, Prod.mk.injEq, true_and]
      constructor
      · intro hv; exact .inl (Option.some.inj hv).symm
      · rintro (rfl | hm)
        · rfl
        · exact absurd (List.mem_map_of_mem hm) h.1
    · have : (l == k) = false := by simpa using hk
      simp [this, ih h.2, hk]

/-- **An entry is there exactly when it is listed.** -/
theorem get?_eq_some_iff {t : FileTree} {l : Location} {e : Entry} (hl : l ≠ Location.root) :
    t.get? l = some e ↔ (l, e) ∈ t.entries := by
  rw [get?, if_neg hl]
  exact lookup_eq_some_iff t.distinct

@[simp] theorem get?_root (t : FileTree) : t.get? Location.root = some .directory := by
  simp [get?]

/-- **What holds an entry is a directory.** -/
theorem isDirectory_parent {t : FileTree} {l : Location} {e : Entry} (h : t.get? l = some e) :
    t.isDirectory l.parent = true := by
  by_cases hl : l = Location.root
  · subst hl; simp [isDirectory]
  · have hm := (get?_eq_some_iff hl).1 h
    obtain ⟨_, hp⟩ := t.closed _ hm
    rcases hp with hp | hp
    · simp only at hp
      simp [isDirectory, hp]
    · by_cases hr : l.parent = Location.root
      · simp [isDirectory, hr]
      · simp [isDirectory, (get?_eq_some_iff hr).2 hp]

/-! ### Change -/

/-- The tree with `e` at `l`, where there is room for it. -/
def put (t : FileTree) (l : Location) (e : Entry) : FileTree :=
  if h : t.hasRoomAt l then
    ⟨(l, e) :: t.entries.filter (·.1 != l), by
      have hd : ((t.entries.filter (·.1 != l)).map (·.1)).Nodup :=
        (List.Sublist.map _ (List.filter_sublist ..)).nodup t.distinct
      simp only [List.map_cons, List.nodup_cons]
      exact ⟨by simp, hd⟩, by
      simp only [hasRoomAt, Bool.and_eq_true, bne_iff_ne, Bool.not_eq_true'] at h
      obtain ⟨⟨hroot, hparent⟩, hnot⟩ := h
      -- A directory of the old tree is kept, since `l` is none.
      have keep : ∀ p : Location, p ≠ Location.root → (p, Entry.directory) ∈ t.entries →
          (p, Entry.directory) ∈ (l, e) :: t.entries.filter (·.1 != l) := by
        intro p hp hm
        refine List.mem_cons_of_mem _ (List.mem_filter.2 ⟨hm, ?_⟩)
        have hpd := (get?_eq_some_iff hp).2 hm
        simp only [bne_iff_ne]
        rintro rfl
        simp [isDirectory, hpd] at hnot
      intro x hx
      rcases List.mem_cons.1 hx with rfl | hx
      · refine ⟨hroot, ?_⟩
        by_cases hp : l.parent = Location.root
        · exact .inl hp
        · refine .inr (keep _ hp ((get?_eq_some_iff hp).1 ?_))
          simpa [isDirectory] using hparent
      · obtain ⟨hx1, hx2⟩ := t.closed x ((List.mem_filter.1 hx).1)
        refine ⟨hx1, ?_⟩
        rcases hx2 with hx2 | hx2
        · exact .inl hx2
        · by_cases hp : x.1.parent = Location.root
          · exact .inl hp
          · exact .inr (keep _ hp hx2)⟩
  else t

/-- The tree without `l` and all that is below it. -/
def erase (t : FileTree) (l : Location) : FileTree :=
  ⟨t.entries.filter fun e => !e.1.isWithin l,
    (List.Sublist.map _ (List.filter_sublist ..)).nodup t.distinct, by
    intro x hx
    simp only [List.mem_filter, Bool.not_eq_true'] at hx
    obtain ⟨hx1, hx2⟩ := t.closed x hx.1
    refine ⟨hx1, hx2.imp_right fun h => List.mem_filter.2 ⟨h, ?_⟩⟩
    simp only [Bool.not_eq_true', Bool.eq_false_iff]
    intro hw
    rw [Location.isWithin_of_parent hx1 hw] at hx
    exact absurd hx.2 (by simp)⟩

theorem get?_put_self {t : FileTree} {l : Location} {e : Entry} (h : t.hasRoomAt l = true) :
    (t.put l e).get? l = some e := by
  have hl : l ≠ Location.root := by
    rintro rfl; simp [hasRoomAt] at h
  simp [put, h, get?, hl]

/-- **Only the given location changes.** -/
theorem get?_put_of_ne {t : FileTree} {l k : Location} {e : Entry} (hk : k ≠ l) :
    (t.put l e).get? k = t.get? k := by
  unfold put
  split
  · by_cases hr : k = Location.root
    · simp [hr]
    · have hkl : (k == l) = false := by simpa using hk
      simp only [get?, hr, ↓reduceIte, List.lookup_cons, hkl]
      generalize t.entries = es
      induction es with
      | nil => rfl
      | cons x xs ih =>
        obtain ⟨m, v⟩ := x
        by_cases hm : m = l
        · subst hm
          simp [List.lookup_cons, hkl, ih]
        · simp [hm, List.lookup_cons, ih]
  · rfl

theorem put_of_not_hasRoomAt {t : FileTree} {l : Location} {e : Entry}
    (h : t.hasRoomAt l = false) : t.put l e = t := by
  simp [put, h]

end FileTree

end SheetGraph
