import SheetGraph.Proofs.FileTree.Write
import SheetGraph.Proofs.Path.Segments

/-!
# Paths that lead to directories

Where a path leads, if it is to a directory (`Disk.DirAt`), is said by its steps: what is passed
over does not matter (`FileTree.walk_of_stepsOf_eq`), and what is written behind the path is looked
up in the directory (`DirAt.exists_look_child`).

Making a directory with all those above it gives one that the path leads to.  If the path goes up
where something is, and nowhere else (`Disk.ClimbsWithin`), then the directory was there before, or
it is a new one with nothing in it (`Disk.dirAt_of_createDirs`).
-/

namespace SheetGraph

namespace FileTree

variable {t : FileTree} {links : Nat} {dir l : Location}

theorem walk_idle {s : List Char} (h : Path.isIdle s = true) (rest : List (List Char)) :
    t.walk links dir (s :: rest) = t.walk links dir rest := by
  rw [Path.isIdle, Bool.or_eq_true, beq_iff_eq, beq_iff_eq] at h
  rcases h with rfl | rfl
  · exact walk_empty_cons rest
  · rw [walk_cons]
    rfl

/-- **A walk to a directory** is the same with other texts that are passed over. -/
theorem walk_of_stepsOf_eq (links : Nat) (as bs : List (List Char)) (dir : Location)
    (heq : Path.stepsOf as = Path.stepsOf bs)
    (h : t.walk links dir as = .ok (.found l)) (hl : t.isDirectory l = true) :
    t.walk links dir bs = .ok (.found l) := by
  match as, bs with
  | [], [] => exact h
  | [], b :: bs =>
    have hb : Path.isIdle b = true := by
      have hall := List.filter_eq_nil_iff.mp heq.symm b List.mem_cons_self
      simpa using hall
    rw [walk_idle hb]
    rw [Path.stepsOf_cons_idle hb] at heq
    exact walk_of_stepsOf_eq links [] bs dir heq h hl
  | a :: as, bs =>
    cases ha : Path.isIdle a with
    | true =>
      rw [walk_idle ha] at h
      rw [Path.stepsOf_cons_idle ha] at heq
      exact walk_of_stepsOf_eq links as bs dir heq h hl
    | false =>
      match bs with
      | [] =>
        rw [Path.stepsOf_cons ha] at heq
        cases heq
      | b :: bs =>
        cases hb : Path.isIdle b with
        | true =>
          rw [walk_idle hb]
          rw [Path.stepsOf_cons_idle hb] at heq
          exact walk_of_stepsOf_eq links (a :: as) bs dir heq h hl
        | false =>
          rw [Path.stepsOf_cons ha, Path.stepsOf_cons hb] at heq
          obtain ⟨rfl, hrest⟩ := List.cons.inj heq
          -- The same step is taken on both sides.
          rw [walk_cons] at h ⊢
          split at h
          · exact walk_of_stepsOf_eq links as bs dir.parent hrest h hl
          · rename_i n _
            split at h
            · split at h <;> cases h
            · exact walk_of_stepsOf_eq links as bs (dir.entry n) hrest h hl
            · rename_i content hfile
              split at h
              · cases h
                rw [isDirectory, hfile] at hl
                cases hl
              · cases h
            · rename_i target _
              cases links with
              | zero => cases h
              | succ links =>
                refine walk_of_stepsOf_eq links _ _ _ ?_ h hl
                rw [Path.stepsOf_append, Path.stepsOf_append, hrest]
          · exact walk_of_stepsOf_eq links as bs dir hrest h hl
termination_by (links, as.length + bs.length)

/-- Nothing was where nothing is in a tree that has grown. -/
theorem Grows.eq_none {t' : FileTree} (h : t.Grows t') (hnone : t'.get? l = none) :
    t.get? l = none := by
  rw [Option.eq_none_iff_forall_ne_some]
  intro e he
  obtain ⟨e', he', -⟩ := h l e he
  rw [hnone] at he'
  cases he'

end FileTree

namespace Disk

variable {d d' : Disk} {p q : Path} {r l : Location} {n : Name} {t : String}

/-! ### Where a path to a directory leads -/

/-- The path leads to the directory. -/
def DirAt (d : Disk) (p : Path) (r : Location) : Prop :=
  d.tree.walk FileTree.linkLimit (d.start p) p.segments = .ok (.found r) ∧
    d.tree.isDirectory r = true

theorem start_eq (hcwd : d'.cwd = d.cwd) (habs : q.isAbsolute = p.isAbsolute) :
    d'.start q = d.start p := by
  rw [start, start, hcwd, habs]

theorem isDirectory_start (hcwd : d.tree.isDirectory d.cwd = true) (p : Path) :
    d.tree.isDirectory (d.start p) = true := by
  rw [start]
  split
  · exact FileTree.isDirectory_root d.tree
  · exact hcwd

theorem dirAt_iff_steps : d.DirAt p r ↔
    d.tree.walk FileTree.linkLimit (d.start p) p.steps = .ok (.found r) ∧
      d.tree.isDirectory r = true := by
  constructor
  · rintro ⟨hwalk, hdir⟩
    exact ⟨FileTree.walk_of_stepsOf_eq _ _ _ _ Path.stepsOf_stepsOf.symm hwalk hdir, hdir⟩
  · rintro ⟨hwalk, hdir⟩
    exact ⟨FileTree.walk_of_stepsOf_eq _ _ _ _ Path.stepsOf_stepsOf hwalk hdir, hdir⟩

theorem isDir_iff_dirAt (hp : p.isEmpty = false) : d.isDir p = true ↔ ∃ r, d.DirAt p r := by
  rw [isDir_iff]
  apply exists_congr
  intro r
  rw [find_eq_ok_iff, look, hp, if_neg Bool.false_ne_true, ← FileTree.isDirectory_iff]
  rfl

namespace DirAt

theorem unique {r' : Location} (h : d.DirAt p r) (h' : d.DirAt p r') : r = r' := by
  have heq := h.1.symm.trans h'.1
  cases heq
  rfl

theorem find_eq (h : d.DirAt p r) (hp : p.isEmpty = false) : d.find p = .ok (r, .directory) := by
  rw [find_eq_ok_iff, look, hp, if_neg Bool.false_ne_true]
  exact ⟨h.1, FileTree.isDirectory_iff.mp h.2⟩

theorem of_grows (h : d.DirAt p r) (hgrows : d.tree.Grows d'.tree) (hcwd : d'.cwd = d.cwd) :
    d'.DirAt p r := by
  refine ⟨?_, hgrows.isDirectory h.2⟩
  rw [start_eq hcwd rfl]
  exact hgrows.walk _ _ _ h.1

/-- Where the steps are the same the path leads to the same directory. -/
theorem of_steps (h : d.DirAt q r) (habs : q.isAbsolute = p.isAbsolute)
    (hsteps : p.steps = q.steps) : d.DirAt p r := by
  rw [dirAt_iff_steps, hsteps, ← start_eq rfl habs]
  exact dirAt_iff_steps.mp h

/-- A step that does not go up leads nowhere from an empty directory, unless it stays. -/
theorem of_concat_empty {r' : Location} {last : List Char} (h : d.DirAt q r)
    (habs : q.isAbsolute = p.isAbsolute) (hsteps : p.steps = q.steps ++ [last])
    (hlast : last ≠ ['.', '.']) (hempty : ∀ n, d.tree.get? (r.entry n) = none)
    (h' : d.DirAt p r') : d.DirAt p r := by
  obtain ⟨hwalk, hdir⟩ := dirAt_iff_steps.mp h
  obtain ⟨left, hleft⟩ := FileTree.walk_append _ _ _ hwalk hdir
  have hwalk' := (dirAt_iff_steps.mp h').1
  rw [hsteps, ← start_eq rfl habs, hleft, FileTree.walk_cons] at hwalk'
  have hr : r' = r := by
    split at hwalk'
    · rename_i hup
      exact absurd (Component.ofSegment?_eq_up_iff.mp hup) hlast
    · rename_i n _
      rw [hempty n] at hwalk'
      cases hwalk'
    · rw [FileTree.walk_nil] at hwalk'
      cases hwalk'
      rfl
  exact hr ▸ h'

/-- The texts in front of what is written behind the path lead to the directory. -/
theorem exists_front (h : d.DirAt p r) (ht : (⟨t⟩ : Path).isAbsolute = false) :
    d.start (p.child t) = d.start p ∧
      ∃ front, (p.child t).segments = front ++ (⟨t⟩ : Path).segments ∧
        d.tree.walk FileTree.linkLimit (d.start p) front = .ok (.found r) := by
  obtain ⟨habs, front, hchild, hp⟩ := p.exists_segments_child ht
  have hsteps : p.steps = Path.stepsOf front := by
    rcases hp with hp | hp
    · rw [Path.steps, hp]
    · rw [Path.steps, hp, Path.stepsOf_append]
      exact List.append_nil _
  exact ⟨start_eq rfl habs, front, hchild, FileTree.walk_of_stepsOf_eq _ _ _ _ hsteps h.1 h.2⟩

/-- **What is written behind the path** is looked up in the directory. -/
theorem exists_look_child (h : d.DirAt p r) {names : List Name} (hne : names ≠ [])
    (ht : (⟨t⟩ : Path).segments = names.map Name.chars) :
    ∃ left, d.look (p.child t) = d.tree.walk left r (⟨t⟩ : Path).segments := by
  obtain ⟨hrelative, hempty⟩ := Path.relative_of_segments hne ht
  obtain ⟨hstart, front, hchild, hfront⟩ := h.exists_front hrelative
  obtain ⟨left, hleft⟩ := FileTree.walk_append _ _ _ hfront h.2
  refine ⟨left, ?_⟩
  rw [look, p.isEmpty_child hrelative hempty, if_neg Bool.false_ne_true, hstart, hchild, hleft]

section Child

variable {e : Entry} (h : d.DirAt p r) (ht : (⟨t⟩ : Path).segments = [n.chars])

include h ht in
theorem exists_look_name : ∃ left, d.look (p.child t) = d.tree.walk left r [n.chars] := by
  rw [← ht]
  exact h.exists_look_child (List.cons_ne_nil n []) ht

include h ht in
/-- **What the directory holds under a name** is found behind the path, unless it is a link. -/
theorem find_child (he : d.tree.get? (r.entry n) = some e) (hlink : ∀ target, e ≠ .link target) :
    d.find (p.child t) = .ok (r.entry n, e) := by
  obtain ⟨left, hlook⟩ := h.exists_look_name ht
  rw [find_eq_ok_iff, hlook, FileTree.walk_cons, Component.ofSegment?_chars]
  refine ⟨?_, he⟩
  cases e with
  | file content => simp only [he, if_true]
  | directory => simp only [he, FileTree.walk_nil]
  | link target => exact absurd rfl (hlink target)

include h ht in
theorem contains_child_eq_false (hnone : d.tree.get? (r.entry n) = none) :
    d.contains (p.child t) = false := by
  obtain ⟨left, hlook⟩ := h.exists_look_name ht
  rw [contains, find, hlook, FileTree.walk_cons, Component.ofSegment?_chars]
  dsimp only
  rw [hnone]
  rfl

end Child

end DirAt

/-! ### One directory that is made -/

/-- **A directory that was made** is a new entry of the directory in front of its last step. -/
theorem exists_of_createDir (h : d.createDir p = .ok d') : ∃ front dir n,
    p.steps = front ++ [n.chars] ∧
      d.tree.walk FileTree.linkLimit (d.start p) front = .ok (.found dir) ∧
      d.tree.isDirectory dir = true ∧ d.tree.get? (dir.entry n) = none ∧
      d' = ⟨d.tree.put (dir.entry n) .directory, d.cwd⟩ := by
  unfold createDir createEntry at h
  split at h
  · cases h
  · cases h
  rename_i l hplace
  split at h
  · cases h
  rename_i hnone
  cases h
  unfold place at hplace
  split at hplace
  · split at hplace <;> cases hplace
  rename_i last before hlast
  split at hplace
  · cases hplace
  · cases hplace
  rename_i dir hwalk
  split at hplace
  · rename_i hdir
    obtain ⟨n, hn, rfl⟩ := Option.map_eq_some_iff.mp (Except.ok.inj hplace)
    obtain ⟨empties, hempties, hall⟩ := exists_append_of_dropWhile_reverse hlast
    obtain rfl := Name.eq_chars_of_ofChars? hn
    -- The texts behind the last name are idle, so the way ends with that name.
    refine ⟨Path.stepsOf before.reverse, dir, n, ?_, ?_, hdir, hnone, rfl⟩
    · have hidle : ∀ s ∈ empties, Path.isIdle s = true := by
        intro s hs
        rw [Path.isIdle, hall s hs, Bool.true_or]
      rw [Path.steps, hempties, Path.stepsOf_append, Path.stepsOf_eq_nil hidle, List.reverse_cons,
        Path.stepsOf_append, Path.stepsOf_cons (isIdle_chars n), List.append_nil]
      rfl
    · exact FileTree.walk_of_stepsOf_eq _ _ _ _ Path.stepsOf_stepsOf.symm hwalk hdir
  · cases hplace

/-- A directory that was made is where the path leads, and it is new and empty. -/
theorem dirAt_of_createDir (h : d.createDir p = .ok d') :
    ∃ r, d'.DirAt p r ∧ d.tree.get? r = none ∧ ∀ n, d'.tree.get? (r.entry n) = none := by
  have hadded := dirsAdded_createDir h
  obtain ⟨front, dir, n, hsteps, hwalk, hdir, hnone, rfl⟩ := exists_of_createDir h
  have hroom := hasRoomAt_entry hdir hnone
  have hself : (d.tree.put (dir.entry n) .directory).get? (dir.entry n) = some .directory :=
    FileTree.get?_put_self hroom
  refine ⟨dir.entry n, dirAt_iff_steps.mpr ⟨?_, FileTree.isDirectory_iff.mpr hself⟩, hnone,
    fun m => ?_⟩
  · have hwalk' := hadded.grows.walk _ _ _ hwalk
    obtain ⟨left, hleft⟩ := FileTree.walk_append _ _ _ hwalk' (hadded.grows.isDirectory hdir)
    rw [hsteps]
    refine (hleft [n.chars]).trans ?_
    rw [FileTree.walk_cons, Component.ofSegment?_chars]
    dsimp only
    rw [hself]
    exact FileTree.walk_nil
  · have hne : (dir.entry n).entry m ≠ dir.entry n := by
      intro heq
      have hlength := congrArg (fun l => l.names.length) heq
      simp at hlength
    dsimp only
    rw [FileTree.get?_put_of_ne hne]
    cases hget : d.tree.get? ((dir.entry n).entry m) with
    | none => rfl
    | some e =>
      have hparent := FileTree.isDirectory_parent hget
      rw [Location.parent_entry, FileTree.isDirectory_iff, hnone] at hparent
      cases hparent

/-- **A directory is made in a directory** under a name that is free. -/
theorem createDir_child (h : d.DirAt p r) (ht : (⟨t⟩ : Path).segments = [n.chars])
    (hnone : d.tree.get? (r.entry n) = none) :
    d.createDir (p.child t) = .ok ⟨d.tree.put (r.entry n) .directory, d.cwd⟩ := by
  have hrelative := (Path.relative_of_segments (List.cons_ne_nil n []) ht).1
  obtain ⟨hstart, front, hchild, hfront⟩ := h.exists_front hrelative
  have hlast : (p.child t).segments.reverse.dropWhile (· == []) = n.chars :: front.reverse := by
    rw [hchild, ht, List.reverse_append, List.reverse_singleton, List.singleton_append,
      List.dropWhile_cons_of_neg (by simpa using n.chars_ne_nil)]
  have hplace : d.place (p.child t) = .ok (some (r.entry n)) := by
    rw [place, hlast]
    dsimp only
    rw [List.reverse_reverse, hstart, hfront]
    dsimp only
    rw [if_pos h.2, Name.ofChars?_chars]
    rfl
  rw [createDir, createEntry, hplace]
  dsimp only
  rw [hnone]

/-! ### A directory and those above it -/

/-- From the directory the texts go up where something is, and nowhere else. -/
def Climbs (d : Disk) (dir : Location) (segments : List (List Char)) : Prop :=
  ∃ front rest r, segments = front ++ rest ∧
    d.tree.walk FileTree.linkLimit dir front = .ok (.found r) ∧ d.tree.isDirectory r = true ∧
      ['.', '.'] ∉ rest

/-- **The path goes up only where something is.** -/
def ClimbsWithin (d : Disk) (p : Path) : Prop :=
  d.Climbs (d.start p) p.segments

theorem DirAt.climbsWithin (h : d.DirAt p r) : d.ClimbsWithin p :=
  ⟨p.segments, [], r, (List.append_nil _).symm, h.1, h.2, List.not_mem_nil⟩

/-- A path that does not go up does so nowhere else. -/
theorem climbsWithin_of_not_mem (hcwd : d.tree.isDirectory d.cwd = true)
    (h : ['.', '.'] ∉ p.segments) : d.ClimbsWithin p :=
  ⟨[], p.segments, d.start p, rfl, FileTree.walk_nil, isDirectory_start hcwd p, h⟩

theorem Climbs.stepsOf {dir : Location} {segments : List (List Char)} (h : d.Climbs dir segments) :
    d.Climbs dir (Path.stepsOf segments) := by
  obtain ⟨front, rest, r, rfl, hwalk, hdir, hrest⟩ := h
  refine ⟨Path.stepsOf front, Path.stepsOf rest, r, Path.stepsOf_append, ?_, hdir, ?_⟩
  · exact FileTree.walk_of_stepsOf_eq _ _ _ _ Path.stepsOf_stepsOf.symm hwalk hdir
  · exact fun hup => hrest (List.mem_of_mem_filter hup)

/-- Where texts go up only where something is, those in front of the last one do, and the last one
does not go up, unless all of them lead to a directory. -/
theorem Climbs.concat {dir : Location} {steps : List (List Char)} {last : List Char}
    (h : d.Climbs dir (steps ++ [last])) (hdir : d.tree.isDirectory dir = true) :
    d.Climbs dir steps ∧ (last ≠ ['.', '.'] ∨ ∃ r,
      d.tree.walk FileTree.linkLimit dir steps = .ok (.found r) ∧ d.tree.isDirectory r = true) := by
  obtain ⟨front, rest, r, hsteps, hwalk, hr, hrest⟩ := h
  rcases List.eq_nil_or_concat rest with rfl | ⟨rest, last', rfl⟩
  · rw [List.append_nil] at hsteps
    rw [← hsteps] at hwalk
    obtain ⟨above, habove, habovedir⟩ := FileTree.exists_walk_of_append (List.cons_ne_nil last [])
      FileTree.linkLimit steps dir _ hdir hwalk
    exact ⟨⟨steps, [], above, (List.append_nil _).symm, habove, habovedir, List.not_mem_nil⟩,
      Or.inr ⟨above, habove, habovedir⟩⟩
  · rw [List.concat_eq_append, ← List.append_assoc] at hsteps
    obtain ⟨rfl, hlast⟩ := List.append_inj' hsteps rfl
    cases hlast
    rw [List.concat_eq_append, List.mem_append, not_or] at hrest
    exact ⟨⟨front, rest, r, rfl, hwalk, hr, hrest.1⟩,
      Or.inl fun heq => hrest.2 (List.mem_singleton.mpr heq.symm)⟩

theorem dirAt_of_isEmpty (hcwd : d.tree.isDirectory d.cwd = true) (hp : p.isEmpty = true) :
    d.DirAt p d.cwd := by
  rw [Path.isEmpty, List.isEmpty_iff] at hp
  have hsegments : p.segments = [[]] := by
    rw [Path.segments, hp]
    rfl
  have hstart : d.start p = d.cwd := by
    rw [start, Path.isAbsolute, hp]
    rfl
  refine ⟨?_, hcwd⟩
  rw [hsegments, hstart, FileTree.walk_empty_cons, FileTree.walk_nil]

/-- What is said to be made because it is there leads to where it led. -/
theorem dirAt_of_isDir {e : FileError} (hp : p.isEmpty = false)
    (h : (d, if d.isDir p then Except.ok () else Except.error e) = (d', Except.ok ())) :
    d' = d ∧ ∃ r, d.DirAt p r := by
  obtain ⟨rfl, hresult⟩ := Prod.mk.inj h
  cases hdir : d.isDir p with
  | true => exact ⟨rfl, (isDir_iff_dirAt hp).mp hdir⟩
  | false =>
    rw [hdir] at hresult
    cases hresult

/-- The ways in which a directory is made with those above it: the path is empty, a directory is
made at its end, or the path leads to one already; the last two also after those above are made. -/
theorem createDirs_cases {steps : Nat} (h : createDirs (steps + 1) d p = (d', .ok ())) :
    (p.isEmpty = true ∧ d' = d) ∨ d.createDir p = .ok d' ∨ (d' = d ∧ ∃ r, d.DirAt p r) ∨
      ∃ above made, p.parent? = some above ∧ createDirs steps d above = (made, .ok ()) ∧
        (made.createDir p = .ok d' ∨ d' = made ∧ ∃ r, made.DirAt p r) := by
  rw [createDirs] at h
  split at h
  · rename_i hempty
    cases h
    exact Or.inl ⟨hempty, rfl⟩
  rename_i hempty
  rw [Bool.not_eq_true] at hempty
  right
  split at h
  · rename_i hmade
    cases h
    exact Or.inl hmade
  · right; right
    split at h
    · cases h
    rename_i above hparent
    split at h
    · cases h
    rename_i made hmade
    refine ⟨above, made, hparent, hmade, ?_⟩
    split at h
    · rename_i hlast
      cases h
      exact Or.inl hlast
    · exact Or.inr (dirAt_of_isDir hempty h)
  · exact Or.inr (Or.inl (dirAt_of_isDir hempty h))

/-- A directory that was made with those above it is where the path leads. -/
theorem exists_dirAt_of_createDirs (steps : Nat) (hcwd : d.tree.isDirectory d.cwd = true)
    (h : createDirs steps d p = (d', .ok ())) : ∃ r, d'.DirAt p r := by
  have hcreated : ∀ {d : Disk}, d.createDir p = .ok d' → ∃ r, d'.DirAt p r :=
    fun hmade => (dirAt_of_createDir hmade).imp fun r hr => hr.1
  cases steps with
  | zero => cases h
  | succ steps =>
    rcases createDirs_cases h with ⟨hempty, rfl⟩ | hmade | ⟨rfl, hr⟩ | ⟨_, _, -, -, hend⟩
    · exact ⟨d'.cwd, dirAt_of_isEmpty hcwd hempty⟩
    · exact hcreated hmade
    · exact hr
    · rcases hend with hmade | ⟨rfl, hr⟩
      · exact hcreated hmade
      · exact hr

/-- **A directory that was made with those above it** is where the path leads.  It was there
before, or it is new and empty. -/
theorem dirAt_of_createDirs (steps : Nat) (hcwd : d.tree.isDirectory d.cwd = true)
    (hclimbs : d.Climbs (d.start p) p.steps) (h : createDirs steps d p = (d', .ok ())) :
    ∃ r, d'.DirAt p r ∧
      (d' = d ∨ d.tree.get? r = none ∧ ∀ n, d'.tree.get? (r.entry n) = none) := by
  induction steps generalizing p d' with
  | zero => cases h
  | succ steps ih =>
    rcases createDirs_cases h with ⟨hempty, rfl⟩ | hmade | ⟨rfl, r, hr⟩ |
      ⟨above, made, hparent, hmade, hend⟩
    · exact ⟨d'.cwd, dirAt_of_isEmpty hcwd hempty, Or.inl rfl⟩
    · obtain ⟨r, hr, hnew⟩ := dirAt_of_createDir hmade
      exact ⟨r, hr, Or.inr hnew⟩
    · exact ⟨r, hr, Or.inl rfl⟩
    obtain ⟨habs, hsteps⟩ := Path.steps_of_parent? hparent
    have hadded := dirsAdded_createDirs steps d above
    rw [hmade] at hadded
    have hstart : d.start above = d.start p := start_eq rfl habs
    rcases hend with hlast | ⟨rfl, r, hr⟩
    · obtain ⟨r, hr, hnone, hnew⟩ := dirAt_of_createDir hlast
      exact ⟨r, hr, Or.inr ⟨hadded.grows.eq_none hnone, hnew⟩⟩
    -- The path leads to a directory once those above are there.
    rcases hsteps with ⟨hnil, hnil'⟩ | ⟨last, hlast⟩
    · rw [hnil, ← hnil', ← hstart] at hclimbs
      obtain ⟨r', hr', hnew⟩ := ih hclimbs hmade
      exact ⟨r', hr'.of_steps habs (hnil.trans hnil'.symm), hnew⟩
    rw [hlast, ← hstart] at hclimbs
    obtain ⟨habove, hdown⟩ := hclimbs.concat (isDirectory_start hcwd above)
    obtain ⟨r', hr', hsame | ⟨hnone, hnew⟩⟩ := ih habove hmade
    · exact ⟨r, hr, Or.inl hsame⟩
    rcases hdown with hup | ⟨there, hthere⟩
    · -- The last step does not go down from a directory that is new and empty.
      refine ⟨r', ?_, Or.inr ⟨hnone, hnew⟩⟩
      exact hr'.of_concat_empty habs hlast hup hnew hr
    · have hold : d.DirAt above there := dirAt_iff_steps.mpr hthere
      have heq := hr'.unique (hold.of_grows hadded.grows hadded.cwd_eq)
      rw [heq, FileTree.isDirectory_iff.mp hold.2] at hnone
      cases hnone

end Disk

end SheetGraph
