import SheetGraph.Proofs.FileTree.Create

/-!
# Writing a file

Where a write goes, whatever links its path runs into.

* `FileTree.sound_walk`: a walk from a directory comes to something that is no link, or to a place
  with room for something new.
* `Disk.exists_write`: a write puts its content in one place, where the path leads afterwards.
* `Disk.openEmpty_eq_ok`, `Disk.write_eq_openEmpty`: what the first of the two steps of a write
  does, and that both are a write when nothing comes in between.
* `Disk.eq_locate_of_find`: in a tree without links a path leads to no other place than its own.

`Disk.AfterWrites` is what any number of such writes comes to, with the directories that are made
for them: each file that was written holds what was written to it last, and all else is as it was.
`Disk.Footprint` is the part of it that does not ask what was written.
-/

namespace SheetGraph

namespace FileTree

variable {t t' : FileTree} {l : Location} {landing : Landing}

/-- Where a walk ends there is something that is no link, or room for something. -/
def Sound (t : FileTree) : Landing → Prop
  | .found l => ∃ e, t.get? l = some e ∧ ∀ target, e ≠ .link target
  | .vacant l => t.get? l = none ∧ t.hasRoomAt l = true

/-- **A walk from a directory** comes to something that is no link, or to where something can be
put. -/
theorem sound_walk (links : Nat) (segments : List (List Char)) (dir : Location)
    (hdir : t.isDirectory dir = true) (h : t.walk links dir segments = .ok landing) :
    t.Sound landing := by
  match segments with
  | [] =>
    rw [walk_nil] at h
    cases h
    exact ⟨.directory, isDirectory_iff.mp hdir, Entry.directory_ne_link⟩
  | s :: segments =>
    rw [walk_cons] at h
    split at h
    · exact sound_walk links segments dir.parent (isDirectory_parent (isDirectory_iff.mp hdir)) h
    · rename_i n _
      split at h
      · rename_i hnone
        split at h
        · cases h
          exact ⟨hnone, Disk.hasRoomAt_entry hdir hnone⟩
        · cases h
      · rename_i hget
        exact sound_walk links segments (dir.entry n) (isDirectory_iff.mpr hget) h
      · rename_i content hget
        split at h
        · cases h
          exact ⟨.file content, hget, Entry.file_ne_link⟩
        · cases h
      · rename_i target _
        cases links with
        | zero => cases h
        | succ links =>
          -- A link is followed from the root or from where it is, which are both directories.
          refine sound_walk links (target.segments ++ segments) _ ?_ h
          split
          · exact isDirectory_root t
          · exact hdir
    · exact sound_walk links segments dir hdir h
termination_by (links, segments.length)

/-- There is room for something else where a file is. -/
theorem hasRoomAt_of_file {content : ByteArray} (h : t.get? l = some (.file content)) :
    t.hasRoomAt l = true := by
  have hroot : l ≠ .root := by
    rintro rfl
    rw [get?_root] at h
    cases h
  have hnot : t.isDirectory l = false := by
    rw [isDirectory, h]
    rfl
  rw [hasRoomAt, isDirectory_parent h, hnot]
  simpa using hroot

theorem ext_entries : ∀ {t t' : FileTree}, t.entries = t'.entries → t = t'
  | ⟨_, _, _⟩, ⟨_, _, _⟩, rfl => rfl

theorem entries_put (hroom : t.hasRoomAt l = true) (e : Entry) :
    (t.put l e).entries = (l, e) :: t.entries.filter (·.1 != l) := by
  rw [put, dif_pos hroom]

/-- **What is put in the place of something else** is there as if that had never been. -/
theorem put_put (t : FileTree) (l : Location) {e : Entry} (he : e ≠ .directory) (e' : Entry) :
    (t.put l e).put l e' = t.put l e' := by
  cases hroom : t.hasRoomAt l with
  | false => rw [put_of_not_hasRoomAt hroom]
  | true =>
    have hself := get?_put_self (e := e) hroom
    have hroot : l ≠ .root := by
      rintro rfl
      rw [get?_root] at hself
      exact he (Option.some.inj hself).symm
    have hnot : (t.put l e).isDirectory l = false := by
      rw [isDirectory, hself]
      simpa using he
    have hroom' : (t.put l e).hasRoomAt l = true := by
      rw [hasRoomAt, isDirectory_parent hself, hnot]
      simpa using hroot
    apply ext_entries
    rw [entries_put hroom', entries_put hroom, entries_put hroom, List.filter_cons,
      if_neg (by simp), List.filter_filter]
    simp

/-- **A walk to a vacant place** finds the file that has come there. -/
theorem Grows.walk_vacant {content : ByteArray} (h : t.Grows t')
    (hfile : t'.get? l = some (.file content)) (links : Nat) (segments : List (List Char))
    (dir : Location) (hvacant : t.walk links dir segments = .ok (.vacant l)) :
    t'.walk links dir segments = .ok (.found l) := by
  match segments with
  | [] =>
    rw [walk_nil] at hvacant
    cases hvacant
  | s :: segments =>
    rw [walk_cons] at hvacant ⊢
    split at hvacant
    · exact walk_vacant h hfile links segments dir.parent hvacant
    · rename_i n _
      split at hvacant
      · -- Only the last name is missing, and that is where the file has come.
        split at hvacant
        · rename_i hlast
          cases hvacant
          simp only [hfile, if_pos hlast]
        · cases hvacant
      · rename_i hget
        rw [h.directory hget]
        exact walk_vacant h hfile links segments (dir.entry n) hvacant
      · split at hvacant <;> cases hvacant
      · rename_i target hget
        rw [h.link hget]
        cases links with
        | zero => cases hvacant
        | succ links => exact walk_vacant h hfile links _ _ hvacant
    · exact walk_vacant h hfile links segments dir hvacant
termination_by (links, segments.length)

/-- In a tree without links a walk goes one step after the other, and ends where the steps lead. -/
theorem eq_foldl_of_walk {links : Nat} (ht : t.LinkFree) (segments : List (List Char))
    (dir : Location) (h : t.walk links dir segments = .ok (.found l)) :
    l = (segments.filterMap Component.ofSegment?).foldl Location.step dir := by
  induction segments generalizing dir with
  | nil =>
    rw [walk_nil] at h
    cases h
    rfl
  | cons s segments ih =>
    rw [walk_cons] at h
    cases hs : Component.ofSegment? s with
    | none =>
      rw [hs] at h
      rw [List.filterMap_cons_none hs]
      exact ih dir h
    | some component =>
      rw [hs] at h
      rw [List.filterMap_cons_some hs, List.foldl_cons]
      cases component with
      | root => exact absurd hs (Component.ofSegment?_ne_root s)
      | here => exact ih dir h
      | up => exact ih dir.parent h
      | name n =>
        dsimp only at h
        split at h
        · split at h <;> cases h
        · exact ih (dir.entry n) h
        · split at h
          · rename_i hlast
            cases h
            rw [hlast]
            rfl
          · cases h
        · exact absurd ‹_› (ht _ _)

end FileTree

namespace Disk

variable {d d' : Disk} {k : Location} {p : Path} {content : ByteArray} {e : Entry}

/-- A file can be put where a path leads, unless a directory is there, and then the path leads to
it. -/
theorem put_of_look {l : Location} (hstart : d.tree.isDirectory (d.start p) = true)
    (h : d.look p = .ok (.vacant l) ∨
      d.look p = .ok (.found l) ∧ ¬ d.tree.isDirectory l = true) (content : ByteArray) :
    d.tree.Grows (d.tree.put l (.file content)) ∧
      (⟨d.tree.put l (.file content), d.cwd⟩ : Disk).find p = .ok (l, .file content) := by
  have hwalk : ∀ landing, d.look p = .ok landing → ¬ p.isEmpty = true ∧
      d.tree.walk FileTree.linkLimit (d.start p) p.segments = .ok landing := by
    intro landing hlook
    unfold look at hlook
    split at hlook
    · cases hlook
    · exact ⟨‹_›, hlook⟩
  rcases h with hlook | ⟨hlook, hnot⟩
  · obtain ⟨hempty, hwalk⟩ := hwalk _ hlook
    obtain ⟨hnone, hroom⟩ := FileTree.sound_walk _ _ _ hstart hwalk
    have hfile : (d.tree.put l (.file content)).get? l = some (.file content) :=
      FileTree.get?_put_self hroom
    have hgrows : d.tree.Grows (d.tree.put l (.file content)) := by
      apply FileTree.grows_put
      intro e he
      rw [hnone] at he
      cases he
    refine ⟨hgrows, find_eq_ok_iff.mpr ⟨?_, hfile⟩⟩
    rw [look, if_neg hempty]
    exact hgrows.walk_vacant hfile _ _ _ hwalk
  · obtain ⟨hempty, hwalk⟩ := hwalk _ hlook
    obtain ⟨e, hget, hlink⟩ := FileTree.sound_walk _ _ _ hstart hwalk
    -- What is there is a file, since it is neither a directory nor a link.
    obtain ⟨old, rfl⟩ : ∃ old, e = .file old := by
      cases e with
      | file old => exact ⟨old, rfl⟩
      | directory => exact absurd (FileTree.isDirectory_iff.mpr hget) hnot
      | link target => exact absurd rfl (hlink target)
    have hgrows : d.tree.Grows (d.tree.put l (.file content)) := by
      apply FileTree.grows_put
      intro e he
      rw [hget] at he
      cases he
      exact .file old content
    refine ⟨hgrows, find_eq_ok_iff.mpr ⟨?_, ?_⟩⟩
    · rw [look, if_neg hempty]
      exact hgrows.walk _ _ _ hwalk
    · exact FileTree.get?_put_self (FileTree.hasRoomAt_of_file hget)

/-- **A write puts its content in one place**, to which the path leads afterwards. -/
theorem exists_write (hstart : d.tree.isDirectory (d.start p) = true)
    (h : d.write p content = .ok d') : ∃ l, d' = ⟨d.tree.put l (.file content), d.cwd⟩ ∧
      d.tree.Grows d'.tree ∧ d'.find p = .ok (l, .file content) := by
  unfold write at h
  split at h
  · cases h
  · rename_i l hlook
    cases h
    exact ⟨l, rfl, put_of_look hstart (Or.inl hlook) content⟩
  · rename_i l hlook
    split at h
    · cases h
    · rename_i hnot
      cases h
      exact ⟨l, rfl, put_of_look hstart (Or.inr ⟨hlook, hnot⟩) content⟩

/-! ### Writes in two steps -/

/-- **A file that is opened** is empty, and the path leads to it. -/
theorem openEmpty_eq_ok {l : Location} (hstart : d.tree.isDirectory (d.start p) = true)
    (h : d.openEmpty p = .ok (d', l)) : d' = ⟨d.tree.put l (.file .empty), d.cwd⟩ ∧
      d.tree.Grows d'.tree ∧ d'.find p = .ok (l, .file .empty) := by
  unfold openEmpty at h
  split at h
  · cases h
  · rename_i hlook
    cases h
    exact ⟨rfl, put_of_look hstart (Or.inl hlook) .empty⟩
  · rename_i hlook
    split at h
    · cases h
    · rename_i hnot
      cases h
      exact ⟨rfl, put_of_look hstart (Or.inr ⟨hlook, hnot⟩) .empty⟩

theorem overwrite_empty (content : ByteArray) : overwrite .empty content = content := by
  have hnothing : ByteArray.empty.extract content.size ByteArray.empty.size = .empty :=
    ByteArray.extract_eq_empty_iff.mpr (by simp)
  rw [overwrite, hnothing, ByteArray.append_empty]

theorem writeAt_of_file {l : Location} {old : ByteArray}
    (h : d.tree.get? l = some (.file old)) (content : ByteArray) :
    d.writeAt l content = ⟨d.tree.put l (.file (overwrite old content)), d.cwd⟩ := by
  rw [writeAt, h]

/-- **A write in two steps**, when nothing comes in between, is a write. -/
theorem write_eq_openEmpty (d : Disk) (p : Path) (content : ByteArray) :
    d.write p content = match d.openEmpty p with
      | .error e => .error e
      | .ok (left, l) => .ok (left.writeAt l content) := by
  have hboth : ∀ l, (⟨d.tree.put l (.file content), d.cwd⟩ : Disk)
      = (⟨d.tree.put l (.file .empty), d.cwd⟩ : Disk).writeAt l content := by
    intro l
    cases hroom : d.tree.hasRoomAt l with
    | true =>
      rw [writeAt_of_file (FileTree.get?_put_self hroom), overwrite_empty,
        FileTree.put_put _ _ Entry.file_ne_directory]
    | false =>
      -- Nothing can be put there, so no file is there either.
      rw [FileTree.put_of_not_hasRoomAt hroom, FileTree.put_of_not_hasRoomAt hroom, writeAt]
      split
      · rename_i hfile
        rw [FileTree.hasRoomAt_of_file hfile] at hroom
        cases hroom
      · rfl
  unfold write openEmpty
  cases d.look p with
  | error e => rfl
  | ok landing =>
    cases landing with
    | vacant l => exact congrArg Except.ok (hboth l)
    | found l =>
      dsimp only
      split
      · rfl
      · exact congrArg Except.ok (hboth l)

/-- **In a tree without links** what an absolute path leads to is in its own place. -/
theorem eq_locate_of_find (hd : d.tree.LinkFree) (hp : p.isAbsolute = true)
    (h : d.find p = .ok (k, e)) : k = d.locate p := by
  have hwalk := (find_eq_ok_iff.mp h).1
  unfold look at hwalk
  split at hwalk
  · cases hwalk
  rw [start_of_isAbsolute hp d] at hwalk
  rw [locate, Path.locateFrom_of_isAbsolute hp]
  exact FileTree.eq_foldl_of_walk hd _ _ hwalk

/-! ### What writes leave behind -/

variable {d'' : Disk} {paths paths' : List Path} {ws ws' : List (Path × ByteArray)}

/-- Nothing is lost, and what has changed is a new directory, or a file that one of the paths leads
to. -/
structure Footprint (d : Disk) (paths : List Path) (d' : Disk) : Prop where
  cwd_eq : d'.cwd = d.cwd
  grows : d.tree.Grows d'.tree
  changed : ∀ k, d'.tree.get? k ≠ d.tree.get? k →
    d.tree.get? k = none ∧ d'.tree.get? k = some .directory ∨
      ∃ p ∈ paths, ∃ content, d'.find p = .ok (k, .file content)

namespace Footprint

theorem refl (d : Disk) (paths : List Path) : d.Footprint paths d :=
  ⟨rfl, FileTree.Grows.refl d.tree, fun _ hk => absurd rfl hk⟩

theorem mono (h : d.Footprint paths d') (hpaths : ∀ p ∈ paths, p ∈ paths') :
    d.Footprint paths' d' := by
  refine ⟨h.cwd_eq, h.grows, fun k hk => ?_⟩
  rcases h.changed k hk with hdir | ⟨p, hp, hfile⟩
  · exact Or.inl hdir
  · exact Or.inr ⟨p, hpaths p hp, hfile⟩

/-- Directories may be made before. -/
theorem of_dirsAdded (h : DirsAdded d d') (h' : d'.Footprint paths d'') :
    d.Footprint paths d'' := by
  refine ⟨h'.cwd_eq.trans h.cwd_eq, h.grows.trans h'.grows, fun k hk => ?_⟩
  by_cases hlater : d''.tree.get? k = d'.tree.get? k
  · rcases h.get?_eq_or k with hsame | ⟨hnone, hdir⟩
    · exact absurd (hlater.trans hsame) hk
    · exact Or.inl ⟨hnone, hlater.trans hdir⟩
  · rcases h'.changed k hlater with ⟨hnone, hdir⟩ | hfile
    · rcases h.get?_eq_or k with hsame | ⟨-, hdir'⟩
      · exact Or.inl ⟨hsame.symm.trans hnone, hdir⟩
      · rw [hnone] at hdir'
        cases hdir'
    · exact Or.inr hfile

/-- Links are where they were. -/
theorem link {target : Path} (h : d.Footprint paths d')
    (hk : d'.tree.get? k = some (.link target)) : d.tree.get? k = some (.link target) := by
  by_contra hnot
  have hdiff : d'.tree.get? k ≠ d.tree.get? k := by
    rw [hk]
    exact fun heq => hnot heq.symm
  rcases h.changed k hdiff with ⟨-, hdir⟩ | ⟨p, -, content, hfind⟩
  · rw [hk] at hdir
    cases hdir
  · rw [(find_eq_ok_iff.mp hfind).2] at hk
    cases hk

theorem linkFree (h : d.Footprint paths d') (hd : d.tree.LinkFree) : d'.tree.LinkFree :=
  fun k target hk => hd k target (h.link hk)

end Footprint

/-- The path leads to a file at `k`. -/
def LeadsTo (d : Disk) (p : Path) (k : Location) : Prop :=
  ∃ content, d.find p = .ok (k, .file content)

theorem LeadsTo.eq {k' : Location} (h : d.LeadsTo p k) (h' : d.LeadsTo p k') : k = k' := by
  obtain ⟨content, hfind⟩ := h
  obtain ⟨content', hfind'⟩ := h'
  rw [hfind] at hfind'
  cases hfind'
  rfl

theorem LeadsTo.of_grows (hgrows : d.tree.Grows d'.tree) (hcwd : d'.cwd = d.cwd)
    (h : d.LeadsTo p k) : d'.LeadsTo p k := by
  obtain ⟨content, hfind⟩ := h
  have hstart : d'.start p = d.start p := by
    rw [start, start, hcwd]
  obtain ⟨e, hfind', hkind⟩ := find_of_grows hgrows hstart hfind
  obtain ⟨content', rfl⟩ := hkind.exists_file
  exact ⟨content', hfind'⟩

/-- Paths that start at a directory still do. -/
theorem isDirectory_start_of_grows (hgrows : d.tree.Grows d'.tree) (hcwd : d'.cwd = d.cwd)
    (hstart : d.tree.isDirectory (d.start p) = true) : d'.tree.isDirectory (d'.start p) = true := by
  have hsame : d'.start p = d.start p := by
    rw [start, start, hcwd]
  rw [hsame]
  exact hgrows.isDirectory hstart

/-- What is left after some writes, which made directories: each of their paths leads to a file,
which holds what was written last to where it is, and all else is as it was. -/
structure AfterWrites (d : Disk) (ws : List (Path × ByteArray)) (d' : Disk) : Prop where
  cwd_eq : d'.cwd = d.cwd
  grows : d.tree.Grows d'.tree
  leads : ∀ w ∈ ws, ∃ k, d'.LeadsTo w.1 k
  kept : ∀ k, (∀ w ∈ ws, ¬ d'.LeadsTo w.1 k) → d'.tree.get? k = d.tree.get? k ∨
    d.tree.get? k = none ∧ d'.tree.get? k = some .directory
  last : ∀ before w after k, ws = before ++ w :: after → d'.LeadsTo w.1 k →
    (∀ v ∈ after, ¬ d'.LeadsTo v.1 k) → d'.tree.get? k = some (.file w.2)

namespace AfterWrites

theorem isDirectory_start (h : d.AfterWrites ws d')
    (hstart : d.tree.isDirectory (d.start p) = true) : d'.tree.isDirectory (d'.start p) = true :=
  isDirectory_start_of_grows h.grows h.cwd_eq hstart

theorem of_dirsAdded (h : DirsAdded d d') : d.AfterWrites [] d' := by
  refine ⟨h.cwd_eq, h.grows, by simp, fun k _ => h.get?_eq_or k, fun before w after k hws => ?_⟩
  exact absurd hws.symm (List.append_ne_nil_of_right_ne_nil before (List.cons_ne_nil w after))

theorem refl (d : Disk) : d.AfterWrites [] d :=
  .of_dirsAdded (.refl d)

/-- **A write** changes at most the file that its path leads to. -/
theorem of_write (hstart : d.tree.isDirectory (d.start p) = true)
    (h : d.write p content = .ok d') : d.AfterWrites [(p, content)] d' := by
  obtain ⟨l, rfl, hgrows, hfind⟩ := exists_write hstart h
  have hleads : LeadsTo ⟨d.tree.put l (.file content), d.cwd⟩ p l := ⟨content, hfind⟩
  refine ⟨rfl, hgrows, ?_, fun k hk => ?_, fun before w after k hws hw _ => ?_⟩
  · rw [List.forall_mem_singleton]
    exact ⟨l, hleads⟩
  · rw [List.forall_mem_singleton] at hk
    refine Or.inl (FileTree.get?_put_of_ne ?_)
    rintro rfl
    exact hk hleads
  · obtain ⟨-, rfl, -⟩ := List.append_eq_singleton_iff.mp hws.symm |>.resolve_right (by simp)
    rw [hw.eq hleads]
    exact (find_eq_ok_iff.mp hfind).2

/-- A path that was written to leads to where it led, whatever is written then. -/
theorem leadsTo_iff (h : d.AfterWrites ws d') (h' : d'.AfterWrites ws' d'')
    {w : Path × ByteArray} (hw : w ∈ ws) : d''.LeadsTo w.1 k ↔ d'.LeadsTo w.1 k := by
  obtain ⟨l, hl⟩ := h.leads w hw
  have hl' := hl.of_grows h'.grows h'.cwd_eq
  constructor
  · intro hk
    rwa [hk.eq hl']
  · intro hk
    rwa [hk.eq hl]

theorem trans (h : d.AfterWrites ws d') (h' : d'.AfterWrites ws' d'') :
    d.AfterWrites (ws ++ ws') d'' := by
  refine ⟨h'.cwd_eq.trans h.cwd_eq, h.grows.trans h'.grows, fun w hw => ?leads, fun k hk => ?kept,
    fun before w after k hws hw hafter => ?last⟩
  case leads =>
    rcases List.mem_append.mp hw with hw | hw
    · obtain ⟨k, hk⟩ := h.leads w hw
      exact ⟨k, (h.leadsTo_iff h' hw).mpr hk⟩
    · exact h'.leads w hw
  case kept =>
    obtain ⟨hfirst, hsecond⟩ := List.forall_mem_append.mp hk
    have hkept := h.kept k fun w hw hleads => hfirst w hw ((h.leadsTo_iff h' hw).mpr hleads)
    rcases h'.kept k hsecond with hsame | ⟨hnone, hdir⟩
    · rwa [hsame]
    · rcases hkept with hsame | ⟨-, hdir'⟩
      · exact Or.inr ⟨hsame.symm.trans hnone, hdir⟩
      · rw [hnone] at hdir'
        cases hdir'
  case last =>
    rcases List.append_eq_append_iff.mp hws with ⟨more, rfl, hws'⟩ | ⟨more, rfl, hmore⟩
    · exact h'.last more w after k hws' hw hafter
    · rcases List.append_eq_cons_iff.mp hmore.symm with ⟨rfl, hws'⟩ | ⟨rest, rfl, rfl⟩
      · exact h'.last [] w after k hws' hw hafter
      · -- What was written last to the place has stayed there.
        obtain ⟨hrest, hsecond⟩ := List.forall_mem_append.mp hafter
        have hmem : w ∈ before ++ w :: rest := List.mem_append_right _ List.mem_cons_self
        have hfile := h.last before w rest k rfl ((h.leadsTo_iff h' hmem).mp hw) fun v hv hleads =>
          hrest v hv ((h.leadsTo_iff h' (by simp [hv])).mpr hleads)
        rcases h'.kept k hsecond with hsame | ⟨hnone, -⟩
        · rw [hsame, hfile]
        · rw [hfile] at hnone
          cases hnone

/-- What has changed is a new directory, or a file that was written. -/
theorem footprint (h : d.AfterWrites ws d') : d.Footprint (ws.map Prod.fst) d' := by
  refine ⟨h.cwd_eq, h.grows, fun k hk => ?_⟩
  by_cases hwritten : ∃ w ∈ ws, d'.LeadsTo w.1 k
  · obtain ⟨w, hw, content, hfind⟩ := hwritten
    exact Or.inr ⟨w.1, List.mem_map_of_mem hw, content, hfind⟩
  · rcases h.kept k fun w hw hleads => hwritten ⟨w, hw, hleads⟩ with hsame | hdir
    · exact absurd hsame hk
    · exact Or.inl hdir

end AfterWrites

end Disk

end SheetGraph
