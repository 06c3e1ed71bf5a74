import SheetGraph.Proofs.Build.Outputs

/-!
# Outputs that are written

What becomes of a disk on which some outputs are written, told by the disk before.

The target directory is found at `r`, and no link is on the way from there to an output
(`Disk.Ready`).  If a file is on the way to an output, nothing happens.  Otherwise the directories
on the way are made (`makeDirectory_path`).  Then the output is opened, unless it has no name or a
directory is in its place (`openEmpty_path`, `Output.Fits`).  `Written` says what is left of any
number of outputs, of which some may only have got so far as their directories.

If no output is in the way of another, the directories of one more can be made after those of some
others as if they were not there (`Written.concat`), and one output can be given another content
while the others stay (`Written.put`).  The disk that they leave does not depend on their order
(`Written.get?_eq`).
-/

namespace SheetGraph

variable {d d' d'' : Disk} {r l k target : Location} {n : Name} {last : List Char} {x y : Output}
  {content : ByteArray} {outputs : List Output}

namespace Disk

/-- The target directory is found at `r`, and no link is on the way from there to an output. -/
structure Ready (d : Disk) (target r : Location) (outputs : List Output) : Prop where
  find : d.find target.path = .ok (r, .directory)
  links : ∀ x ∈ outputs, d.tree.NoLinkOnWay r x.names

/-- Once the target directory is made, no link is on the way if none was before. -/
theorem exists_ready {made : Disk} {done : Unit}
    (hlinks : ∀ r, d.find target.path = .ok (r, .directory) →
      ∀ x ∈ outputs, d.tree.NoLinkOnWay r x.names)
    (hmade : d.createDirAll target.path = (made, .ok done)) :
    ∃ r, made.Ready target r outputs := by
  have hspec := made_createDirs (target.path.chars.length + 1) d target
  rw [createDirAll] at hmade
  rw [hmade] at hspec
  obtain ⟨r, hfind, hways⟩ := hspec.exists_find rfl
  exact ⟨r, hfind, fun x hx => hways x.names fun r hr => hlinks r hr x hx⟩

theorem Ready.noLinkToOutputs {p : Project} {xs : List Planned}
    (h : d.Ready p.targetDir r (xs.map Planned.output)) :
    p.NoLinkToOutputs (xs.map (Planned.entry p.targetDir)) d := by
  intro r' hr' entry hentry x hx
  rw [h.find] at hr'
  cases hr'
  obtain ⟨y, hy, rfl⟩ := List.mem_map.mp hentry
  rw [← Output.path_injective _ hx]
  exact h.links _ (List.mem_map_of_mem hy)

/-! ### One file -/

/-- What is in a directory, under any text, is looked up in the directory that its path leads to. -/
theorem exists_look_pathTo (hfind : d.find l.path = .ok (r, .directory)) (hlast : '/' ∉ last) :
    ∃ left, d.look (l.pathTo last) = d.tree.walk left r [last] := by
  obtain ⟨left, hleft⟩ := exists_look_below hfind
  refine ⟨left, ?_⟩
  have hwalk := hleft [] [last]
  rw [Location.below_nil] at hwalk
  rw [look, Location.isEmpty_pathTo, start, Location.isAbsolute_pathTo,
    Location.segments_pathTo hlast, FileTree.walk_empty_cons]
  exact hwalk

/-- A file in a directory can be opened, unless a directory is in its place. -/
theorem openEmpty_entry (hfind : d.find l.path = .ok (r, .directory))
    (hlink : ∀ target, d.tree.get? (r.entry n) ≠ some (.link target)) :
    d.openEmpty (l.entry n).path =
      if d.tree.get? (r.entry n) = some .directory then .error .isDirectory
      else .ok (⟨d.tree.put (r.entry n) (.file .empty), d.cwd⟩, r.entry n) := by
  obtain ⟨left, hleft⟩ := exists_look_entry n hfind
  rw [FileTree.walk_cons, Component.ofSegment?_chars] at hleft
  dsimp only at hleft
  cases hget : d.tree.get? (r.entry n) with
  | none =>
    rw [hget] at hleft
    dsimp only at hleft
    rw [if_pos rfl] at hleft
    rw [openEmpty, hleft, if_neg (by simp)]
  | some e =>
    cases e with
    | link target => exact absurd hget (hlink target)
    | directory =>
      rw [hget] at hleft
      dsimp only at hleft
      rw [FileTree.walk_nil] at hleft
      rw [openEmpty, hleft, if_pos rfl]
      exact if_pos (FileTree.isDirectory_iff.mpr hget)
    | file old =>
      have hnot : ¬ d.tree.isDirectory (r.entry n) = true := by
        rw [FileTree.isDirectory_iff, hget]
        exact nofun
      rw [hget] at hleft
      dsimp only at hleft
      rw [if_pos rfl] at hleft
      rw [openEmpty, hleft, if_neg (by simp)]
      exact if_neg hnot

/-- A path that goes up again leads to the directory above. -/
theorem look_up (hfind : d.find l.path = .ok (r, .directory)) :
    d.look (l.pathTo ['.', '.']) = .ok (.found r.parent) := by
  have hslash : '/' ∉ ['.', '.'] := by decide
  obtain ⟨left, hleft⟩ := exists_look_pathTo hfind hslash
  have hup : Component.ofSegment? ['.', '.'] = some .up := rfl
  rw [hleft, FileTree.walk_cons, hup]
  exact FileTree.walk_nil

/-- Nothing can be opened where the path goes up again. -/
theorem openEmpty_up (hfind : d.find l.path = .ok (r, .directory)) :
    d.openEmpty (l.pathTo ['.', '.']) = .error .isDirectory := by
  rw [openEmpty, look_up hfind]
  exact if_pos (FileTree.isDirectory_parent (find_eq_ok_iff.mp hfind).2)

/-- What leads to something in a directory leads to the directory. -/
theorem exists_find_of_look_pathTo {landing : Landing} (hlast : '/' ∉ last)
    (h : d.look (l.pathTo last) = .ok landing) :
    ∃ above, d.find l.path = .ok (above, .directory) := by
  rw [look, Location.isEmpty_pathTo, start, Location.isAbsolute_pathTo,
    Location.segments_pathTo hlast, FileTree.walk_empty_cons] at h
  obtain ⟨above, habove, hdir⟩ := FileTree.exists_walk_of_append (List.cons_ne_nil last [])
    FileTree.linkLimit _ Location.root _ (FileTree.isDirectory_root _) h
  refine ⟨above, find_eq_ok_iff.mpr ⟨?_, FileTree.isDirectory_iff.mp hdir⟩⟩
  rw [look_path, FileTree.walk_segments]
  exact habove

/-- **What the path of an output leads to**, if it is a file, is where the names say. -/
theorem Ready.eq_of_find (h : d.Ready target r outputs) (hx : x ∈ outputs)
    (hfind : d.find (x.path target) = .ok (k, .file content)) :
    x.name? ≠ none ∧ k = r.below x.names := by
  cases hname : x.name? with
  | none =>
    rw [Output.path, Output.last_of_none hname] at hfind
    obtain ⟨hlook, hfile⟩ := find_eq_ok_iff.mp hfind
    obtain ⟨above, habove⟩ := exists_find_of_look_pathTo (by decide) hlook
    rw [look_up habove] at hlook
    cases hlook
    -- What is above a directory is no file.
    have hparent := FileTree.isDirectory_parent (find_eq_ok_iff.mp habove).2
    rw [FileTree.isDirectory_iff, hfile] at hparent
    cases hparent
  | some n =>
    refine ⟨Option.some_ne_none n, ?_⟩
    rw [Output.path_of_name? hname, ← Location.below_concat, ← Output.names_of_name? hname] at hfind
    exact eq_below_of_find h.find (h.links x hx) hfind

end Disk

/-! ### Some outputs -/

/-- No output is in the way of the other. -/
def Output.Apart (x y : Output) : Prop :=
  ¬ x.Covers y ∧ ¬ y.Covers x

theorem Output.Apart.symm (h : x.Apart y) : y.Apart x :=
  And.symm h

/-- What becomes of an output: the directories above it are made, and then it may get a content. -/
structure Writing where
  output : Output
  content? : Option ByteArray

/-- The writing has put nothing in the place of the output and is not in its way. -/
def Writing.Spares (w : Writing) (y : Output) : Prop :=
  w = ⟨y, none⟩ ∨ w.output.Apart y

/-- The output can be written: it has a name, and neither is a file on the way to it nor a directory
in its place. -/
def Output.Fits (t : FileTree) (r : Location) (x : Output) : Prop :=
  ¬ t.FileOnWay r x.dirs ∧ x.name? ≠ none ∧ t.get? (r.below x.names) ≠ some .directory

/-- What some outputs leave on a disk: directories, the outputs that have got a content, and all
else as it was. -/
structure Written (d : Disk) (r : Location) (ws : List Writing) (d' : Disk) : Prop where
  cwd_eq : d'.cwd = d.cwd
  directory : ∀ w ∈ ws, ¬ d.tree.FileOnWay r w.output.dirs →
    ∀ front, front <+: w.output.dirs → d'.tree.get? (r.below front) = some .directory
  file : ∀ w ∈ ws, ∀ content, w.content? = some content → w.output.Fits d.tree r →
    d'.tree.get? (r.below w.output.names) = some (.file content)
  rest : ∀ k, (∀ w ∈ ws, ¬ d.tree.FileOnWay r w.output.dirs →
      ∀ front, front <+: w.output.dirs → k ≠ r.below front) →
    (∀ w ∈ ws, w.content? ≠ none → w.output.Fits d.tree r → k ≠ r.below w.output.names) →
    d'.tree.get? k = d.tree.get? k

namespace Written

variable {ws ws' : List Writing} {v w : Writing}

theorem nil (d : Disk) (r : Location) : Written d r [] d :=
  ⟨rfl, by simp, by simp, fun _ _ _ => rfl⟩

theorem congr (h : Written d r ws d') (hsame : ∀ w, w ∈ ws ↔ w ∈ ws') : Written d r ws' d' where
  cwd_eq := h.cwd_eq
  directory w hw := h.directory w ((hsame w).mpr hw)
  file w hw := h.file w ((hsame w).mpr hw)
  rest k hdirs hfiles := h.rest k (fun w hw => hdirs w ((hsame w).mp hw))
    fun w hw => hfiles w ((hsame w).mp hw)

/-- What is at a location afterwards. -/
theorem cases (h : Written d r ws d') (k : Location) :
    (∃ w ∈ ws, ¬ d.tree.FileOnWay r w.output.dirs ∧
      ∃ front, front <+: w.output.dirs ∧ k = r.below front) ∨
    (∃ w ∈ ws, ∃ content, w.content? = some content ∧ w.output.Fits d.tree r ∧
      k = r.below w.output.names) ∨
    d'.tree.get? k = d.tree.get? k := by
  by_cases hdir : ∃ w ∈ ws, ¬ d.tree.FileOnWay r w.output.dirs ∧
      ∃ front, front <+: w.output.dirs ∧ k = r.below front
  · exact Or.inl hdir
  · by_cases hfile : ∃ w ∈ ws, ∃ content, w.content? = some content ∧ w.output.Fits d.tree r ∧
        k = r.below w.output.names
    · exact Or.inr (Or.inl hfile)
    · refine Or.inr (Or.inr (h.rest k ?_ ?_))
      · intro w hw hclear front hfront hk
        exact hdir ⟨w, hw, hclear, front, hfront, hk⟩
      · intro w hw hsome hfits hk
        obtain ⟨content, hcontent⟩ := Option.ne_none_iff_exists'.mp hsome
        exact hfile ⟨w, hw, content, hcontent, hfits, hk⟩

/-- Links are where they were. -/
theorem link (h : Written d r ws d') {k : Location} {path : Path}
    (hk : d'.tree.get? k = some (.link path)) : d.tree.get? k = some (.link path) := by
  rcases h.cases k with ⟨w, hw, hclear, front, hfront, rfl⟩ |
    ⟨w, hw, content, hcontent, hfits, rfl⟩ | hsame
  · rw [h.directory w hw hclear front hfront] at hk
    cases hk
  · rw [h.file w hw content hcontent hfits] at hk
    cases hk
  · rw [← hsame, hk]

/-- **Nothing gets lost**: directories stay, and files are only replaced by files. -/
theorem grows (h : Written d r ws d')
    (hlinks : ∀ w ∈ ws, d.tree.NoLinkOnWay r w.output.names) : d.tree.Grows d'.tree := by
  intro k e he
  rcases h.cases k with ⟨w, hw, hclear, front, hfront, rfl⟩ |
    ⟨w, hw, content, hcontent, hfits, rfl⟩ | hsame
  · refine ⟨.directory, h.directory w hw hclear front hfront, ?_⟩
    cases e with
    | directory => exact SameKind.refl _
    | link path =>
      exact absurd he (hlinks w hw front path (hfront.trans w.output.dirs_prefix_names))
    | file old => exact absurd ⟨front, old, hfront, he⟩ hclear
  · refine ⟨_, h.file w hw content hcontent hfits, ?_⟩
    cases e with
    | directory => exact absurd he hfits.2.2
    | link path => exact absurd he (hlinks w hw _ path (List.prefix_refl _))
    | file old => exact SameKind.file old _
  · exact ⟨e, hsame.trans he, SameKind.refl e⟩

theorem ready (h : Written d r ws d') (hready : d.Ready target r outputs)
    (hws : ∀ w ∈ ws, w.output ∈ outputs) : d'.Ready target r outputs := by
  have hgrows := h.grows fun w hw => hready.links _ (hws w hw)
  exact ⟨Disk.find_directory_of_grows hgrows hready.find,
    fun x hx => (hready.links x hx).of_links h.link⟩

/-- **The same outputs leave the same disk.** -/
theorem get?_eq (h : Written d r ws d') (h' : Written d r ws d'') (k : Location) :
    d'.tree.get? k = d''.tree.get? k := by
  rcases h.cases k with ⟨w, hw, hclear, front, hfront, rfl⟩ |
    ⟨w, hw, content, hcontent, hfits, rfl⟩ | hrest
  · rw [h.directory w hw hclear front hfront, h'.directory w hw hclear front hfront]
  · rw [h.file w hw content hcontent hfits, h'.file w hw content hcontent hfits]
  · rcases h'.cases k with ⟨w, hw, hclear, front, hfront, rfl⟩ |
      ⟨w, hw, content, hcontent, hfits, rfl⟩ | hrest'
    · rw [h.directory w hw hclear front hfront, h'.directory w hw hclear front hfront]
    · rw [h.file w hw content hcontent hfits, h'.file w hw content hcontent hfits]
    · rw [hrest, hrest']

/-! ### One more output -/

section Spares

variable (h : Written d r ws d') (hspares : ∀ w ∈ ws, w.Spares y)

include h hspares in
/-- The files on the way to another output are those that were there before. -/
theorem exists_file_iff {front : List Name} (hfront : front <+: y.dirs) :
    (∃ content, d'.tree.get? (r.below front) = some (.file content)) ↔
      ∃ content, d.tree.get? (r.below front) = some (.file content) := by
  rcases h.cases (r.below front) with ⟨w, hw, hclear, front', hfront', hk⟩ |
    ⟨w, hw, content, hcontent, hfits, hk⟩ | hsame
  · -- A directory was made for an output, and no file was in its place.
    rw [hk, h.directory w hw hclear front' hfront']
    refine iff_of_false nofun ?_
    rintro ⟨content, hfile⟩
    exact hclear ⟨front', content, hfront', hfile⟩
  · rcases hspares w hw with rfl | hapart
    · cases hcontent
    · have hnames : front = w.output.names :=
        List.append_cancel_left (congrArg Location.names hk)
      have hcovers : w.output.Covers y :=
        ⟨hfits.2.1, hnames ▸ hfront.trans y.dirs_prefix_names⟩
      exact absurd hcovers hapart.1
  · rw [hsame]

include h hspares in
theorem fileOnWay_iff : d'.tree.FileOnWay r y.dirs ↔ d.tree.FileOnWay r y.dirs := by
  constructor
  · rintro ⟨front, content, hfront, hfile⟩
    obtain ⟨old, hold⟩ := (h.exists_file_iff hspares hfront).mp ⟨content, hfile⟩
    exact ⟨front, old, hfront, hold⟩
  · rintro ⟨front, content, hfront, hfile⟩
    obtain ⟨new, hnew⟩ := (h.exists_file_iff hspares hfront).mpr ⟨content, hfile⟩
    exact ⟨front, new, hfront, hnew⟩

include h hspares in
theorem wayError_eq : Disk.wayError d'.tree r y.dirs = Disk.wayError d.tree r y.dirs := by
  have hfile := h.exists_file_iff hspares (List.prefix_refl y.dirs)
  unfold Disk.wayError
  split
  · rename_i content hcontent
    obtain ⟨old, hold⟩ := hfile.mp ⟨content, hcontent⟩
    rw [hold]
  · rename_i hnot
    split
    · rename_i content hcontent
      obtain ⟨new, hnew⟩ := hfile.mpr ⟨content, hcontent⟩
      exact absurd hnew (hnot new)
    · rfl

include h hspares in
theorem fits_iff : y.Fits d'.tree r ↔ y.Fits d.tree r := by
  unfold Output.Fits
  rw [h.fileOnWay_iff hspares]
  refine and_congr_right fun _ => and_congr_right fun hname => not_congr ?_
  rcases h.cases (r.below y.names) with ⟨w, hw, hclear, front, hfront, hk⟩ |
    ⟨w, hw, content, hcontent, hfits, hk⟩ | hsame
  · have hnames : y.names = front := List.append_cancel_left (congrArg Location.names hk)
    rcases hspares w hw with rfl | hapart
    · -- The place of an output is not on the way to itself.
      obtain ⟨n, hn⟩ := Option.ne_none_iff_exists'.mp hname
      have hlength : y.names.length ≤ y.dirs.length := hnames ▸ hfront.length_le
      rw [Output.names_of_name? hn, List.length_append, List.length_singleton] at hlength
      omega
    · have hcovers : y.Covers w.output :=
        ⟨hname, hnames ▸ hfront.trans w.output.dirs_prefix_names⟩
      exact absurd hcovers hapart.2
  · rcases hspares w hw with rfl | hapart
    · cases hcontent
    · have hnames : y.names = w.output.names :=
        List.append_cancel_left (congrArg Location.names hk)
      exact absurd ⟨hname, hnames ▸ List.prefix_refl _⟩ hapart.2
  · rw [hsame]

end Spares

/-- **One more output** is written as if those before had not been, if it is in no other's way. -/
theorem concat (h : Written d r ws d') (h' : Written d' r [w] d'')
    (hlinks : d.tree.NoLinkOnWay r w.output.names)
    (hapart : ∀ v ∈ ws, v.output.Apart w.output) : Written d r (ws ++ [w]) d'' := by
  have hspares : ∀ v ∈ ws, v.Spares w.output := fun v hv => Or.inr (hapart v hv)
  have hway := h.fileOnWay_iff hspares
  have hfits := h.fits_iff hspares
  have hgrows := h'.grows fun v hv => by
    rw [List.mem_singleton.mp hv]
    exact hlinks.of_links h.link
  refine ⟨h'.cwd_eq.trans h.cwd_eq, fun v hv hclear front hfront => ?_,
    fun v hv content hcontent hv' => ?_, fun k hdirs hfiles => ?_⟩
  · rcases List.mem_append.mp hv with hv | hv
    · exact hgrows.directory (h.directory v hv hclear front hfront)
    · rw [List.mem_singleton.mp hv] at hclear hfront
      exact h'.directory w (List.mem_singleton_self w) (fun hfile => hclear (hway.mp hfile)) front
        hfront
  · rcases List.mem_append.mp hv with hv | hv
    · -- What was written is not in the place of the last output, nor on the way to it.
      rw [← h.file v hv content hcontent hv']
      apply h'.rest
      · intro w' hw' _ front hfront hk
        rw [List.mem_singleton.mp hw'] at hfront
        have hnames : v.output.names = front := List.append_cancel_left (congrArg Location.names hk)
        exact (hapart v hv).1 ⟨hv'.2.1, hnames ▸ hfront.trans w.output.dirs_prefix_names⟩
      · intro w' hw' _ _ hk
        rw [List.mem_singleton.mp hw'] at hk
        have hnames : v.output.names = w.output.names :=
          List.append_cancel_left (congrArg Location.names hk)
        exact (hapart v hv).1 ⟨hv'.2.1, hnames ▸ List.prefix_refl _⟩
    · rw [List.mem_singleton.mp hv] at hcontent hv' ⊢
      exact h'.file w (List.mem_singleton_self w) content hcontent (hfits.mpr hv')
  · have hlast : d''.tree.get? k = d'.tree.get? k := by
      apply h'.rest
      · intro v hv hclear
        rw [List.mem_singleton.mp hv] at hclear ⊢
        exact hdirs w (by simp) fun hfile => hclear (hway.mpr hfile)
      · intro v hv hsome hv'
        rw [List.mem_singleton.mp hv] at hsome hv' ⊢
        exact hfiles w (by simp) hsome (hfits.mp hv')
    rw [hlast]
    exact h.rest k (fun v hv => hdirs v (List.mem_append_left _ hv))
      fun v hv => hfiles v (List.mem_append_left _ hv)

/-- **An output gets another content**, and the others stay as they are. -/
theorem put (h : Written d r (ws ++ v :: ws') d') (hv : v.output = x) (hfits : x.Fits d.tree r)
    (hnot : d'.tree.get? (r.below x.names) ≠ some .directory)
    (hapart : ∀ w ∈ ws ++ ws', w.output.Apart x) (content : ByteArray) :
    Written d r (ws ++ ⟨x, some content⟩ :: ws')
      ⟨d'.tree.put (r.below x.names) (.file content), d'.cwd⟩ := by
  obtain ⟨n, hn⟩ := Option.ne_none_iff_exists'.mp hfits.2.1
  have hplace : r.below x.names = (r.below x.dirs).entry n := by
    rw [Output.names_of_name? hn, Location.below_concat]
  have hroom : d'.tree.hasRoomAt (r.below x.names) = true := by
    have hparent := h.directory v (by simp) (hv ▸ hfits.1) x.dirs (hv ▸ List.prefix_refl _)
    have hroot : (r.below x.dirs).entry n ≠ .root := by
      intro heq
      have hnames := congrArg Location.names heq
      simp at hnames
    rw [Ne, ← FileTree.isDirectory_iff, Bool.not_eq_true] at hnot
    rw [hplace] at hnot ⊢
    rw [FileTree.hasRoomAt, Location.parent_entry, FileTree.isDirectory_iff.mpr hparent, hnot]
    simpa using hroot
  -- An output in this list is the one itself or apart from it, and was in the list before.
  have hmem : ∀ w ∈ ws ++ ⟨x, some content⟩ :: ws', w = ⟨x, some content⟩ ∨
      w ∈ ws ++ v :: ws' ∧ w.output.Apart x := by
    intro w hw
    rcases List.mem_append.mp hw with hw | hw
    · exact Or.inr ⟨List.mem_append_left _ hw, hapart w (List.mem_append_left _ hw)⟩
    · rcases List.mem_cons.mp hw with rfl | hw
      · exact Or.inl rfl
      · exact Or.inr ⟨List.mem_append_right _ (List.mem_cons_of_mem v hw),
          hapart w (List.mem_append_right _ hw)⟩
  have hself : (⟨x, some content⟩ : Writing) ∈ ws ++ ⟨x, some content⟩ :: ws' := by simp
  refine ⟨h.cwd_eq, fun w hw hclear front hfront => ?_, fun w hw content' hcontent hw' => ?_,
    fun k hdirs hfiles => ?_⟩
  · have hdir : d'.tree.get? (r.below front) = some .directory := by
      rcases hmem w hw with rfl | ⟨hw, -⟩
      · exact h.directory v (by simp) (hv ▸ hclear) front (hv ▸ hfront)
      · exact h.directory w hw hclear front hfront
    have hne : r.below front ≠ r.below x.names := by
      intro heq
      rw [heq] at hdir
      exact hnot hdir
    exact (FileTree.get?_put_of_ne hne).trans hdir
  · rcases hmem w hw with rfl | ⟨hw, hwx⟩
    · cases hcontent
      exact FileTree.get?_put_self hroom
    · have hne : r.below w.output.names ≠ r.below x.names := by
        intro heq
        have hnames : w.output.names = x.names :=
          List.append_cancel_left (congrArg Location.names heq)
        exact hwx.1 ⟨hw'.2.1, hnames ▸ List.prefix_refl _⟩
      exact (FileTree.get?_put_of_ne hne).trans (h.file w hw content' hcontent hw')
  · have hne := hfiles _ hself (Option.some_ne_none content) hfits
    have hother : ∀ w ∈ ws ++ v :: ws', w = v ∨ w ∈ ws ++ ⟨x, some content⟩ :: ws' := by
      intro w hw
      rcases List.mem_append.mp hw with hw | hw
      · exact Or.inr (List.mem_append_left _ hw)
      · rcases List.mem_cons.mp hw with rfl | hw
        · exact Or.inl rfl
        · exact Or.inr (List.mem_append_right _ (List.mem_cons_of_mem _ hw))
    refine (FileTree.get?_put_of_ne hne).trans (h.rest k (fun w hw => ?_) fun w hw => ?_)
    · rcases hother w hw with rfl | hw
      · rw [hv]
        exact hdirs _ hself
      · exact hdirs w hw
    · rcases hother w hw with rfl | hw
      · rw [hv]
        exact fun _ _ => hne
      · exact hfiles w hw

end Written

/-! ### One output -/

/-- Where a file is on the way, nothing is made. -/
theorem written_blocked (hway : d.tree.FileOnWay r x.dirs) : Written d r [⟨x, none⟩] d := by
  refine ⟨rfl, fun w hw hclear => ?_, fun w hw content hcontent => ?_, fun _ _ _ => rfl⟩
  · rw [List.mem_singleton.mp hw] at hclear
    exact absurd hway hclear
  · rw [List.mem_singleton.mp hw] at hcontent
    cases hcontent

/-- Otherwise the directories on the way are made, and nothing else changes. -/
theorem Disk.MadeWay.written {made : Disk} (h : Disk.MadeWay d r x.dirs made)
    (hclear : ¬ d.tree.FileOnWay r x.dirs) : Written d r [⟨x, none⟩] made := by
  refine ⟨h.cwd_eq, fun w hw _ front hfront => ?_, fun w hw content hcontent => ?_,
    fun k hdirs _ => ?_⟩
  · rw [List.mem_singleton.mp hw] at hfront
    exact h.directory front hfront
  · rw [List.mem_singleton.mp hw] at hcontent
    cases hcontent
  · exact h.get?_eq k (hdirs _ (List.mem_singleton_self _) hclear)

namespace Pipeline

/-- **Making the directory of an output**: a file on the way to it is reported. -/
theorem makeDirectory_path (hready : d.Ready target r outputs) (hx : x ∈ outputs) :
    (d.tree.FileOnWay r x.dirs → makeDirectory d (x.path target)
      = (d, .error (Disk.wayError d.tree r x.dirs))) ∧
    (¬ d.tree.FileOnWay r x.dirs → ∃ made, makeDirectory d (x.path target) = (made, .ok ()) ∧
      Disk.MadeWay d r x.dirs made) := by
  have hdirs := (hready.links x hx).mono x.dirs_prefix_names
  obtain ⟨hblocked, hclear⟩ := Disk.createDirAll_below hready.find hdirs
  rw [makeDirectory, x.parent?_path target]
  refine ⟨hblocked, fun hway => ?_⟩
  obtain ⟨made, hmade, hwaymade, -⟩ := hclear hway
  exact ⟨made, hmade, hwaymade⟩

/-- **Opening an output** whose directory is there: a directory in its place is reported. -/
theorem openEmpty_path (hready : d.Ready target r outputs) (hx : x ∈ outputs)
    (hdir : d.tree.get? (r.below x.dirs) = some .directory) :
    (¬ (x.name? ≠ none ∧ d.tree.get? (r.below x.names) ≠ some .directory) →
      d.openEmpty (x.path target) = .error .isDirectory) ∧
    (x.name? ≠ none → d.tree.get? (r.below x.names) ≠ some .directory →
      d.openEmpty (x.path target)
        = .ok (⟨d.tree.put (r.below x.names) (.file .empty), d.cwd⟩, r.below x.names)) := by
  have hlinks := hready.links x hx
  have habove : d.find (target.below x.dirs).path = .ok (r.below x.dirs, .directory) :=
    Disk.find_below hready.find (hlinks.mono x.dirs_prefix_names) hdir
  cases hname : x.name? with
  | none =>
    refine ⟨fun _ => ?_, fun hne => absurd rfl hne⟩
    rw [Output.path, Output.last_of_none hname]
    exact Disk.openEmpty_up habove
  | some n =>
    have hplace : r.below x.names = (r.below x.dirs).entry n := by
      rw [Output.names_of_name? hname, Location.below_concat]
    have hlink : ∀ path, d.tree.get? ((r.below x.dirs).entry n) ≠ some (.link path) := by
      intro path
      rw [← hplace]
      exact hlinks x.names path (List.prefix_refl _)
    rw [Output.path_of_name? hname, hplace, Disk.openEmpty_entry habove hlink]
    refine ⟨fun hnot => if_pos ?_, fun _ hnot => if_neg hnot⟩
    by_contra hne
    exact hnot ⟨Option.some_ne_none n, hne⟩

end Pipeline

end SheetGraph
