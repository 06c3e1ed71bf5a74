import SheetGraph.Proofs.FileTree.Bound
import SheetGraph.Proofs.Graph.Preorder
import SheetGraph.Proofs.Resolution
import SheetGraph.Proofs.Traversal

/-!
# Staging is reading in depth-first preorder

`Graph.stage` keeps one list of what is left to visit and counts its steps.  It does what the
recursive traversal does that `Preorder` describes: it reads the files in depth-first preorder, each
once, up to the first that fails (`stage_of_preorder`).  The traversal always comes to an end, since
what is imported is a file and there are only finitely many locations of files (`exists_preorder`),
and the steps that `Graph.inspect` allows are enough for it (`inspect_of_preorder`).
-/

namespace SheetGraph

/-! ### What is read of a file -/

/-- The files that a read finds in a file; none where it fails. -/
def nextOf (read : Location → Except ImportError (List Location)) (l : Location) : List Location :=
  match read l with
  | .error _ => []
  | .ok ls => ls

/-- A file with what is read of it. -/
def readEntry (read : Location → Except ImportError (List Location)) (l : Location) :
    Except ImportError (Location × List Location) :=
  match read l with
  | .error e => .error e
  | .ok ls => .ok (l, ls)

section Read

variable {read : Location → Except ImportError (List Location)} {l : Location} {ls : List Location}

theorem nextOf_of_ok (h : read l = .ok ls) : nextOf read l = ls := by
  rw [nextOf, h]

theorem readEntry_eq_ok_iff {entry : Location × List Location} :
    readEntry read l = .ok entry ↔ read l = .ok entry.2 ∧ entry.1 = l := by
  obtain ⟨k, ks⟩ := entry
  unfold readEntry
  cases read l with
  | error e => simp
  | ok ls => simp [and_comm, eq_comm]

theorem readEntry_eq_error_iff {e : ImportError} :
    readEntry read l = .error e ↔ read l = .error e := by
  unfold readEntry
  cases read l <;> simp

theorem exists_readEntry_eq_ok_iff :
    (∃ entry, readEntry read l = .ok entry) ↔ ∃ ls, read l = .ok ls := by
  unfold readEntry
  cases read l <;> simp

/-- **Reading all files gives each with its imports.** -/
theorem eq_map_of_mapM_readEntry {files : List Location} {staged : Staged}
    (h : files.mapM (readEntry read) = .ok staged) :
    staged = files.map fun l => (l, nextOf read l) := by
  rw [mapM_eq_ok_iff] at h
  induction h with
  | nil => rfl
  | @cons l entry files staged hentry _ ih =>
    rw [readEntry_eq_ok_iff] at hentry
    rw [List.map_cons, ← ih, nextOf_of_ok hentry.1, ← hentry.2]

theorem map_fst_of_mapM_readEntry {files : List Location} {staged : Staged}
    (h : files.mapM (readEntry read) = .ok staged) : staged.map (·.1) = files := by
  rw [eq_map_of_mapM_readEntry h, List.map_map]
  exact List.map_id _

end Read

/-! ### The list of what is left -/

namespace Graph

variable {read : Location → Except ImportError (List Location)} {known : Location → Bool}
  {steps : Nat} {todo seen visited : List Location} {staged : Staged} {l : Location}

theorem stage_nil : stage read known steps [] staged = .ok staged := by
  cases steps <;> rfl

theorem any_fst_eq_true_iff : (staged.any (·.1 == l)) = true ↔ l ∈ staged.map (·.1) := by
  simp

theorem stage_skip (h : known l = true ∨ l ∈ staged.map (·.1)) :
    stage read known steps (l :: todo) staged = stage read known steps todo staged := by
  cases steps with
  | zero => rfl
  | succ steps =>
    have hdrop : (known l || staged.any (·.1 == l)) = true := by
      rw [Bool.or_eq_true, any_fst_eq_true_iff]
      exact h
    rw [stage, stage,
      List.dropWhile_cons_of_pos (p := fun k => known k || staged.any (·.1 == k)) hdrop]

theorem stage_visit (hknown : known l = false) (hnew : l ∉ staged.map (·.1)) :
    stage read known (steps + 1) (l :: todo) staged =
      match read l with
      | .error e => .error e
      | .ok ls => stage read known steps (ls ++ todo) (staged ++ [(l, ls)]) := by
  have hkeep : ¬ (known l || staged.any (·.1 == l)) = true := by
    rw [Bool.or_eq_true, any_fst_eq_true_iff, hknown]
    simpa using hnew
  have hdrop := List.dropWhile_cons_of_neg (p := fun k => known k || staged.any (·.1 == k))
    (l := todo) hkeep
  cases hread : read l with
  | error e =>
    rw [stage, hdrop]
    dsimp only
    rw [hread]
  | ok ls =>
    rw [stage, hdrop]
    dsimp only
    rw [hread]

/-- **Staging reads the files in depth-first preorder**, and goes on with what is left behind
them. -/
theorem stage_of_preorder (h : Preorder (nextOf read) known seen todo visited) :
    ∀ (staged : Staged) (steps : Nat) (rest : List Location), staged.map (·.1) = seen →
      visited.countP (fun l => (read l).isOk) < steps →
      stage read known steps (todo ++ rest) staged =
        match visited.mapM (readEntry read) with
        | .error e => .error e
        | .ok more => stage read known (steps - visited.length) rest (staged ++ more) := by
  induction h with
  | nil =>
    intro staged steps rest _ _
    show stage read known steps rest staged = stage read known (steps - 0) rest (staged ++ [])
    rw [List.append_nil, Nat.sub_zero]
  | skip ha _ ih =>
    intro staged steps rest hstaged hsteps
    rw [List.cons_append, stage_skip (by rwa [hstaged]), ih staged steps rest hstaged hsteps]
  | @visit seen todo below visited a hknown ha _ _ ihbelow ihrest =>
    intro staged steps rest hstaged hsteps
    rw [List.countP_cons, List.countP_append] at hsteps
    cases steps with
    | zero => exact absurd hsteps (Nat.not_lt_zero _)
    | succ steps =>
      rw [List.cons_append, stage_visit hknown (by rwa [hstaged]), mapM_cons_eq]
      cases hread : read a with
      | error e => simp only [readEntry, hread]
      | ok ls =>
        have hentry : readEntry read a = .ok (a, ls) := by rw [readEntry, hread]
        have hok : (read a).isOk = true := by rw [hread]; rfl
        rw [if_pos hok] at hsteps
        rw [hentry]
        dsimp only
        have hstaged' : (staged ++ [(a, ls)]).map (·.1) = seen ++ [a] := by
          rw [List.map_append, hstaged, List.map_singleton]
        have hbelow := ihbelow (staged ++ [(a, ls)]) steps (todo ++ rest) hstaged' (by omega)
        rw [nextOf_of_ok hread] at hbelow
        rw [hbelow, mapM_append_eq]
        cases hmap : below.mapM (readEntry read) with
        | error e => rfl
        | ok more =>
          -- All of `below` could be read, so each of its files took one step.
          have hcount : below.countP (fun l => (read l).isOk) = below.length := by
            rw [List.countP_eq_length]
            intro x hx
            obtain ⟨xs, hxs⟩ := exists_readEntry_eq_ok_iff.mp
              (exists_mapM_eq_ok_iff.mp ⟨more, hmap⟩ x hx)
            rw [hxs]
            rfl
          have hstaged'' : (staged ++ [(a, ls)] ++ more).map (·.1) = seen ++ a :: below := by
            rw [List.map_append, hstaged', map_fst_of_mapM_readEntry hmap, List.append_assoc,
              List.singleton_append]
          dsimp only
          rw [ihrest _ (steps - below.length) rest hstaged'' (by omega)]
          cases visited.mapM (readEntry read) with
          | error e => rfl
          | ok more' =>
            have hlen : steps + 1 - (a :: (below ++ visited)).length
                = steps - below.length - visited.length := by
              rw [List.length_cons, List.length_append]
              omega
            dsimp only
            rw [hlen, List.append_assoc, List.append_assoc, List.singleton_append]

end Graph

/-! ### Files of a disk -/

section Files

variable {d : Disk} {libraries : List Location} {l k : Location} {ls : List Location}

/-- **What it takes to read the imports of a file.** -/
theorem readImports_eq_ok_iff {ls : List Location} :
    readImports d libraries l = .ok ls ↔ ∃ text targets files, d.readText l.path = .ok text ∧
      imports l.path.syntaxMode text.toList = .ok targets ∧
      resolve d l targets libraries = .ok files ∧ ls = collect [] files := by
  unfold readImports
  cases d.readText l.path with
  | error e => simp
  | ok text =>
    cases htargets : imports l.path.syntaxMode text.toList with
    | error e => simp [htargets]
    | ok targets =>
      cases hfiles : resolve d l targets libraries with
      | error e => simp [htargets, hfiles]
      | ok files => simp [htargets, hfiles, eq_comm]

/-- What can be read is there. -/
theorem exists_find_of_readImports (h : readImports d libraries l = .ok ls) :
    ∃ k e, d.find l.path = .ok (k, e) := by
  cases hfind : d.find l.path with
  | ok found => exact ⟨found.1, found.2, rfl⟩
  | error e => simp [readImports, Disk.readText, Disk.readBytes, hfind] at h

/-- **What is imported is a file.** -/
theorem isFile_of_mem_readImports (h : readImports d libraries l = .ok ls) (hk : k ∈ ls) :
    d.isFile k.path = true := by
  obtain ⟨-, targets, files, -, -, hfiles, rfl⟩ := readImports_eq_ok_iff.mp h
  have hmem : k ∈ files := by simpa using hk
  obtain ⟨target, -, htarget⟩ := exists_of_mem_mapM hfiles hmem
  exact isFile_of_resolveTarget htarget

/-- **The traversal of the files of a disk comes to an end.** -/
theorem exists_preorder (d : Disk) (libraries : List Location) (known : Location → Bool)
    (files : List Location) :
    ∃ order, Preorder (nextOf (readImports d libraries)) known [] files order := by
  refine Preorder.exists_of_closed (files ++ d.tree.locations) ?_ ?_
  · intro a _ b hb _
    unfold nextOf at hb
    split at hb
    · exact absurd hb List.not_mem_nil
    · rename_i ls hread
      obtain ⟨x, content, hfind⟩ := Disk.isFile_iff.mp (isFile_of_mem_readImports hread hb)
      exact List.mem_append_right _ (Disk.mem_locations_of_find hfind)
  · intro a ha _
    exact List.mem_append_left _ ha

namespace Graph

variable {g : Graph} {files order : List Location}

/-- **Indexing reads the files in depth-first preorder** and puts them into the graph, unless one of
them fails. -/
theorem inspect_of_preorder
    (h : Preorder (nextOf (readImports d libraries)) g.isIndexed [] files order) :
    g.inspect d libraries files =
      match order.mapM (readEntry (readImports d libraries)) with
      | .error e => .error e
      | .ok [] => .ok g
      | .ok staged => .ok (g.commit staged) := by
  have hcount : order.countP (fun l => (readImports d libraries l).isOk)
      < d.tree.locationBound + 1 := by
    rw [List.countP_eq_length_filter, Nat.lt_succ_iff]
    refine Disk.length_le_locationBound (h.nodup.filter _) fun l hl => ?_
    have hok := (List.mem_filter.mp hl).2
    cases hread : readImports d libraries l with
    | error e => simp [hread, Except.isOk, Except.toBool] at hok
    | ok ls => exact exists_find_of_readImports hread
  have hstage := stage_of_preorder h [] (d.tree.locationBound + 1) [] rfl hcount
  rw [List.append_nil] at hstage
  rw [inspect, hstage]
  cases order.mapM (readEntry (readImports d libraries)) with
  | error e => rfl
  | ok staged =>
    dsimp only
    rw [stage_nil, List.nil_append]
    cases staged <;> rfl

end Graph

end Files

end SheetGraph
