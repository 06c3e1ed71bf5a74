import Mathlib.Logic.Relation
import SheetGraph.Proofs.Graph.Indexing

/-!
# A walk with a stack of frames

Indexing can be done by a loop that keeps its place in a stack.  A `Frame` is a file that is being
walked, with its imports and a cursor into them.  The loop takes the import at the cursor of the top
frame; one that is on the stack, staged or indexed is passed over, and any other is read and pushed.
A frame at the end of its imports is popped, and when the stack is empty the next of the given files
is taken.  `StackWalk.next?` is one step of the loop, which keeps a record of all files that it
reads.

`call_inspect_stackWalk` says that the loop comes to an end on every disk, and there has done what
`Graph.inspect` does, in the order of the recursive traversal (`Preorder`).

The recursion is simulated (`StackWalk.run_of_preorder`): whatever is below the top frame, the loop
goes from a list at the cursor to the end of it, by induction on the traversal of that list.  A
visited file costs one step down, the walk of its own imports, and one step back up.
-/

namespace SheetGraph

/-! ### The loop -/

/-- A file that is being walked. -/
structure Frame where
  /-- The file. -/
  file : Location
  /-- What it imports. -/
  imports : List Location
  /-- The index of the import to be visited next. -/
  next : Nat

/-- The state of the loop. -/
structure StackWalk where
  /-- The given files that have not been taken yet. -/
  roots : List Location
  /-- The frames, the innermost first. -/
  stack : List Frame
  /-- The files of the frames. -/
  onStack : List Location
  /-- The files that have been staged. -/
  seen : List Location
  /-- The same files, each with its imports. -/
  staged : Staged
  /-- All files that have been read, in the order of reading. -/
  reads : List Location
  /-- The failure that has ended the loop. -/
  failure : Option ImportError

namespace StackWalk

/-- The loop before its first step. -/
def start (files : List Location) : StackWalk :=
  ⟨files, [], [], [], [], [], none⟩

/-- What is left at the innermost cursor: of the imports of the top frame, or of the given files
when the stack is empty. -/
def left (w : StackWalk) : List Location :=
  match w.stack with
  | [] => w.roots
  | frame :: _ => frame.imports.drop frame.next

/-- The loop with the innermost cursor moved on. -/
def advance (w : StackWalk) (n : Nat) : StackWalk :=
  match w.stack with
  | [] => { w with roots := w.roots.drop n }
  | frame :: stack => { w with stack := { frame with next := frame.next + n } :: stack }

/-- The loop with files that have been read and staged. -/
def record (w : StackWalk) (entries : Staged) : StackWalk :=
  { w with
    seen := w.seen ++ entries.map (·.1)
    staged := w.staged ++ entries
    reads := w.reads ++ entries.map (·.1) }

/-- The loop with a frame for a file on its stack. -/
def push (w : StackWalk) (l : Location) (ls : List Location) : StackWalk :=
  { w with stack := ⟨l, ls, 0⟩ :: w.stack, onStack := l :: w.onStack }

/-- The loop after a new file. -/
def enter (read : Location → Except ImportError (List Location)) (w : StackWalk) (l : Location) :
    StackWalk :=
  match read l with
  | .error e => { w with reads := w.reads ++ [l], failure := some e }
  | .ok ls => (w.record [(l, ls)]).push l ls

/-- The loop after a file at the cursor. -/
def visit (read : Location → Except ImportError (List Location)) (known : Location → Bool)
    (w : StackWalk) (l : Location) : StackWalk :=
  if l ∈ w.onStack then w
  else if l ∈ w.seen ∨ known l = true then w
  else w.enter read l

/-- The loop with the innermost frame taken off; none when there is no frame. -/
def pop? (w : StackWalk) : Option StackWalk :=
  match w.stack with
  | [] => none
  | frame :: stack => some { w with stack := stack, onStack := w.onStack.erase frame.file }

/-- **One step of the loop**; none when it has ended. -/
def next? (read : Location → Except ImportError (List Location)) (known : Location → Bool)
    (w : StackWalk) : Option StackWalk :=
  match w.failure, w.left with
  | some _, _ => none
  | none, [] => w.pop?
  | none, l :: _ => some ((w.advance 1).visit read known l)

/-- Some steps lead from one state of the loop to the other. -/
def Leads (read : Location → Except ImportError (List Location)) (known : Location → Bool) :
    StackWalk → StackWalk → Prop :=
  Relation.ReflTransGen fun w w' => w.next? read known = some w'

/-- What is made of a graph when the loop has ended. -/
def outcome (w : StackWalk) (g : Graph) : Except ImportError Graph :=
  match w.failure with
  | some e => .error e
  | none => if w.staged = [] then .ok g else .ok (g.commit w.staged)

variable {read : Location → Except ImportError (List Location)} {known : Location → Bool}
  {w w' : StackWalk} {l : Location} {ls : List Location}

/-! ### Fields -/

@[simp] theorem advance_zero (w : StackWalk) : w.advance 0 = w := by
  obtain ⟨roots, stack, onStack, seen, staged, reads, failure⟩ := w
  cases stack <;> rfl

@[simp] theorem advance_advance (w : StackWalk) (m n : Nat) :
    (w.advance m).advance n = w.advance (m + n) := by
  obtain ⟨roots, stack, onStack, seen, staged, reads, failure⟩ := w
  cases stack with
  | nil => simp [advance, List.drop_drop]
  | cons frame stack => simp [advance, Nat.add_assoc]

@[simp] theorem left_advance (w : StackWalk) (n : Nat) :
    (w.advance n).left = w.left.drop n := by
  obtain ⟨roots, stack, onStack, seen, staged, reads, failure⟩ := w
  cases stack with
  | nil => rfl
  | cons frame stack => simp [advance, left, List.drop_drop]

@[simp] theorem onStack_advance (w : StackWalk) (n : Nat) : (w.advance n).onStack = w.onStack := by
  unfold advance
  split <;> rfl

@[simp] theorem seen_advance (w : StackWalk) (n : Nat) : (w.advance n).seen = w.seen := by
  unfold advance
  split <;> rfl

@[simp] theorem reads_advance (w : StackWalk) (n : Nat) : (w.advance n).reads = w.reads := by
  unfold advance
  split <;> rfl

@[simp] theorem failure_advance (w : StackWalk) (n : Nat) : (w.advance n).failure = w.failure := by
  unfold advance
  split <;> rfl

@[simp] theorem record_nil (w : StackWalk) : w.record [] = w := by
  simp [record]

@[simp] theorem record_record (w : StackWalk) (entries more : Staged) :
    (w.record entries).record more = w.record (entries ++ more) := by
  simp [record]

@[simp] theorem left_record (w : StackWalk) (entries : Staged) : (w.record entries).left = w.left :=
  rfl

theorem advance_record (w : StackWalk) (entries : Staged) (n : Nat) :
    (w.record entries).advance n = (w.advance n).record entries := by
  obtain ⟨roots, stack, onStack, seen, staged, reads, failure⟩ := w
  cases stack <;> rfl

/-! ### What is read of a list -/

/-- Those of some files that are read when they are read in turn up to the first failure. -/
def attempts (read : Location → Except ImportError (List Location)) : List Location → List Location
  | [] => []
  | l :: ls =>
    match read l with
    | .error _ => [l]
    | .ok _ => l :: attempts read ls

/-- A failure in the first of two lists keeps the second from being read. -/
theorem attempts_append (read : Location → Except ImportError (List Location))
    (as bs : List Location) :
    attempts read (as ++ bs) =
      match as.mapM (readEntry read) with
      | .error _ => attempts read as
      | .ok _ => as ++ attempts read bs := by
  induction as with
  | nil => rfl
  | cons a as ih =>
    rw [List.cons_append, mapM_cons_eq, attempts, attempts, ih]
    cases hread : read a with
    | error e => rw [readEntry_eq_error_iff.mpr hread]
    | ok ls =>
      have hentry : readEntry read a = .ok (a, ls) := readEntry_eq_ok_iff.mpr ⟨hread, rfl⟩
      rw [hentry]
      cases as.mapM (readEntry read) <;> rfl

/-- Where no file fails, all are read. -/
theorem attempts_of_ok {files : List Location} {staged : Staged}
    (h : files.mapM (readEntry read) = .ok staged) : attempts read files = files := by
  have happend := attempts_append read files []
  rw [h, List.append_nil] at happend
  simpa [attempts] using happend

/-- **The first file that fails is the last that is read.** -/
theorem attempts_of_error {files : List Location} {e : ImportError}
    (h : files.mapM (readEntry read) = .error e) :
    ∃ before l after, files = before ++ l :: after ∧ attempts read files = before ++ [l] ∧
      read l = .error e := by
  obtain ⟨before, l, after, rfl, hbefore, hl⟩ := mapM_eq_error_iff.mp h
  obtain ⟨staged, hstaged⟩ := exists_mapM_eq_ok_iff.mpr hbefore
  rw [readEntry_eq_error_iff] at hl
  refine ⟨before, l, after, rfl, ?_, hl⟩
  rw [attempts_append, hstaged]
  simp only [attempts, hl]

/-! ### The simulation -/

section Steps

variable (read : Location → Except ImportError (List Location)) (known : Location → Bool)

theorem next?_nil (hfailure : w.failure = none) (hleft : w.left = []) :
    w.next? read known = w.pop? := by
  rw [next?, hfailure, hleft]

/-- A file that is known or staged is passed over. -/
theorem next?_skip {rest : List Location} (hfailure : w.failure = none) (hleft : w.left = l :: rest)
    (hskip : known l = true ∨ l ∈ w.seen) : w.next? read known = some (w.advance 1) := by
  rw [next?, hfailure, hleft]
  dsimp only
  rw [visit, seen_advance]
  split
  · rfl
  · rw [if_pos hskip.symm]

/-- Any other file is entered; it cannot be on the stack, since what is there has been staged. -/
theorem next?_enter {rest : List Location} (hfailure : w.failure = none)
    (hleft : w.left = l :: rest) (hstack : w.onStack ⊆ w.seen) (hknown : known l = false)
    (hnew : l ∉ w.seen) : w.next? read known = some ((w.advance 1).enter read l) := by
  have hoff : l ∉ w.onStack := fun hmem => hnew (hstack hmem)
  have hgo : ¬ (l ∈ w.seen ∨ known l = true) := by simp [hnew, hknown]
  rw [next?, hfailure, hleft]
  dsimp only
  rw [visit, seen_advance, onStack_advance, if_neg hoff, if_neg hgo]

/-- The frame of a file is taken off when its imports have been walked. -/
theorem next?_push (l : Location) (ls : List Location) (hfailure : w.failure = none)
    (entries : Staged) :
    (((w.push l ls).advance ls.length).record entries).next? read known
      = some (w.record entries) := by
  have hleft : (((w.push l ls).advance ls.length).record entries).left = [] := by
    rw [left_record, left_advance]
    exact List.drop_length
  have hnone : (((w.push l ls).advance ls.length).record entries).failure = none :=
    (failure_advance _ _).trans hfailure
  rw [next?_nil read known hnone hleft]
  show some (({ w with onStack := (l :: w.onStack).erase l } : StackWalk).record entries) = _
  rw [List.erase_cons_head]

/-- A loop that has gone through the whole list without a failure has ended. -/
theorem next?_end (files : List Location) (entries : Staged) :
    (((start files).advance files.length).record entries).next? read known = none := by
  have hleft : (((start files).advance files.length).record entries).left = [] := by
    rw [left_record, left_advance]
    exact List.drop_length
  exact next?_nil read known rfl hleft

end Steps

/-- **The loop walks a list as the recursion does**: it reads what the recursion visits, up to the
first failure, and without one it comes to the end of the list with its stack as it was. -/
theorem run_of_preorder {seen todo visited : List Location}
    (h : Preorder (nextOf read) known seen todo visited) :
    ∀ w : StackWalk, w.onStack ⊆ w.seen → w.failure = none → w.seen = seen → w.left = todo →
      ∃ w', Leads read known w w' ∧ w'.reads = w.reads ++ attempts read visited ∧
        match visited.mapM (readEntry read) with
        | .error e => w'.failure = some e
        | .ok entries => w' = (w.advance todo.length).record entries := by
  induction h with
  | nil =>
    intro w _ _ _ _
    refine ⟨w, Relation.ReflTransGen.refl, (List.append_nil _).symm, ?_⟩
    show w = (w.advance 0).record []
    rw [advance_zero, record_nil]
  | @skip seen todo visited a ha _ ih =>
    intro w hstack hfailure hseen hleft
    have hstep := next?_skip read known hfailure hleft (hseen ▸ ha)
    obtain ⟨w', hleads, hreads, hend⟩ := ih (w.advance 1) (by simpa using hstack)
      (by simpa using hfailure) (by simpa using hseen) (by simp [hleft])
    rw [reads_advance] at hreads
    rw [advance_advance, Nat.add_comm] at hend
    exact ⟨w', hleads.head hstep, hreads, hend⟩
  | @visit seen todo below visited a hknown ha _ _ ihbelow ihrest =>
    intro w hstack hfailure hseen hleft
    have hstep := next?_enter read known hfailure hleft hstack hknown (hseen ▸ ha)
    rw [mapM_cons_eq, mapM_append_eq]
    cases hread : read a with
    | error e =>
      -- The file cannot be read, which ends the loop.
      refine ⟨_, Relation.ReflTransGen.single hstep, ?_, ?_⟩
      · simp [enter, attempts, hread]
      · rw [readEntry_eq_error_iff.mpr hread, enter, hread]
    | ok ls =>
      have hentry : readEntry read a = .ok (a, ls) := readEntry_eq_ok_iff.mpr ⟨hread, rfl⟩
      have henter : (w.advance 1).enter read a = ((w.advance 1).record [(a, ls)]).push a ls := by
        rw [enter, hread]
      rw [henter] at hstep
      have hstack' : a :: w.onStack ⊆ w.seen ++ [a] := by
        rw [List.cons_subset]
        exact ⟨by simp, List.subset_append_of_subset_left _ hstack⟩
      obtain ⟨w₁, hdown, hreads₁, hend₁⟩ := ihbelow (((w.advance 1).record [(a, ls)]).push a ls)
        (by simpa [push, record] using hstack') (by simpa [push, record] using hfailure)
        (by simp [push, record, hseen]) (by simp [push, left, nextOf_of_ok hread])
      have hdown : Leads read known w w₁ := Relation.ReflTransGen.head hstep hdown
      rw [hentry]
      cases hmap : below.mapM (readEntry read) with
      | error e =>
        -- The loop ends below the file.
        rw [hmap] at hend₁
        refine ⟨w₁, hdown, ?_, hend₁⟩
        rw [hreads₁, attempts, hread]
        dsimp only
        rw [attempts_append, hmap]
        simp [push, record]
      | ok entries =>
        rw [hmap, nextOf_of_ok hread] at hend₁
        subst hend₁
        -- All below the file is walked; its frame is taken off, and the rest is walked.
        have hrecord : ((w.advance 1).record [(a, ls)]).failure = none := by
          simpa [record] using hfailure
        have hup := next?_push read known a ls hrecord entries
        rw [record_record, List.singleton_append] at hup
        have hfst := map_fst_of_mapM_readEntry hmap
        obtain ⟨w₂, hrest, hreads₂, hend₂⟩ := ihrest ((w.advance 1).record ((a, ls) :: entries))
          (by simpa [record] using List.subset_append_of_subset_left _ hstack)
          (by simpa [record] using hfailure) (by simp [record, hseen, hfst]) (by simp [hleft])
        refine ⟨w₂, hdown.trans (hrest.head hup), ?_, ?_⟩
        · rw [hreads₂, attempts, hread]
          dsimp only
          rw [attempts_append, hmap]
          simp [record, hfst]
        · cases hmap' : visited.mapM (readEntry read) with
          | error e => simpa [hmap'] using hend₂
          | ok entries' =>
            rw [hmap'] at hend₂
            dsimp only at hend₂ ⊢
            rw [hend₂, advance_record, record_record, advance_advance, List.length_cons,
              Nat.add_comm 1, List.cons_append]

end StackWalk

namespace Graph

variable {g : Graph}

theorem order_foldl_addFile (staged : Staged) (g : Graph) :
    (staged.foldl (fun g file => g.addFile file.1 file.2) g).order
      = g.order ++ staged.map (·.1) := by
  induction staged generalizing g with
  | nil => exact (List.append_nil _).symm
  | cons file staged ih =>
    rw [List.foldl_cons, ih, List.map_cons]
    exact List.append_assoc _ _ _

/-- **A batch is put behind what is indexed.** -/
theorem order_commit (staged : Staged) : (g.commit staged).order = g.order ++ staged.map (·.1) :=
  order_foldl_addFile staged g

/-- **A successful indexing** puts the files of the recursive traversal behind what is indexed. -/
theorem order_of_inspect {d : Disk} {libraries files order : List Location} {g' : Graph}
    (horder : Preorder (nextOf (readImports d libraries)) g.isIndexed [] files order)
    (hinspect : g.inspect d libraries files = .ok g') : g'.order = g.order ++ order := by
  rw [inspect_of_preorder horder] at hinspect
  cases hmap : order.mapM (readEntry (readImports d libraries)) with
  | error e =>
    rw [hmap] at hinspect
    cases hinspect
  | ok entries =>
    rw [hmap] at hinspect
    rw [← map_fst_of_mapM_readEntry hmap]
    cases entries with
    | nil =>
      cases hinspect
      exact (List.append_nil _).symm
    | cons entry entries =>
      cases hinspect
      exact order_commit _

/-- **Indexing is a walk with a stack of frames.**  For any graph, disk and files the loop comes to
an end, and there its outcome is that of the indexing.  It reads no file twice and none that is
indexed.  On success it has read all that can be found, and these files are behind those that were
indexed before, in the order of the recursive depth-first traversal: the given files in turn, the
imports of each before the next, and none that is visited or indexed.  On failure the file that it
has read last is the first in that order that cannot be read, parsed or resolved. -/
theorem call_inspect_stackWalk (g : Graph) (d : Disk) (libraries files : List Path) :
    ∃ order w,
      Preorder (nextOf (readImports d (libraries.map d.locate))) g.isIndexed []
        (files.map d.locate) order ∧
      (∀ order', Preorder (nextOf (readImports d (libraries.map d.locate))) g.isIndexed []
        (files.map d.locate) order' → order' = order) ∧
      (∀ l, l ∈ order ↔ Found (nextOf (readImports d (libraries.map d.locate))) g.isIndexed
        (files.map d.locate) l) ∧
      StackWalk.Leads (readImports d (libraries.map d.locate)) g.isIndexed
        (StackWalk.start (files.map d.locate)) w ∧
      w.next? (readImports d (libraries.map d.locate)) g.isIndexed = none ∧
      w.outcome g = g.inspect d (libraries.map d.locate) (files.map d.locate) ∧
      w.reads.Nodup ∧ (∀ l ∈ w.reads, g.isIndexed l = false) ∧
      ((g.call (.inspect d libraries files)).2 = .ok () →
        w.reads = order ∧
        (g.call (.inspect d libraries files)).1.order = g.order ++ order) ∧
      ∀ e, (g.call (.inspect d libraries files)).2 = .error e →
        ∃ before l after, order = before ++ l :: after ∧ w.reads = before ++ [l] ∧
          readImports d (libraries.map d.locate) l = .error e := by
  obtain ⟨order, horder⟩ := exists_preorder d (libraries.map d.locate) g.isIndexed
    (files.map d.locate)
  obtain ⟨w, hleads, hreads, hend⟩ := StackWalk.run_of_preorder horder
    (StackWalk.start (files.map d.locate)) (List.nil_subset _) rfl rfl rfl
  have hinspect := inspect_of_preorder horder
  refine ⟨order, w, horder, fun order' h' => h'.unique horder, fun l => horder.mem_iff, hleads, ?_⟩
  have hreads : w.reads
      = StackWalk.attempts (readImports d (libraries.map d.locate)) order := hreads
  rw [call]
  cases hmap : order.mapM (readEntry (readImports d (libraries.map d.locate))) with
  | error e =>
    rw [hmap] at hend hinspect
    dsimp only at hend hinspect
    -- The walk stops at the first file that has a failure, and reads none behind it.
    obtain ⟨before, l, after, hcut, hattempts, hl⟩ := StackWalk.attempts_of_error hmap
    have hfront : w.reads <+: order := by
      rw [hreads, hattempts, hcut]
      exact ⟨after, by simp⟩
    refine ⟨?_, ?_, horder.nodup.sublist hfront.sublist, ?_, ?_, ?_⟩
    · rw [StackWalk.next?, hend]
    · rw [StackWalk.outcome, hend, hinspect]
    · exact fun x hx => horder.known_eq_false x (hfront.subset hx)
    · rw [hinspect]
      intro h
      cases h
    · rw [hinspect]
      intro e' he
      cases he
      exact ⟨before, l, after, hcut, hreads.trans hattempts, hl⟩
  | ok entries =>
    rw [hmap] at hend hinspect
    dsimp only at hend
    rw [StackWalk.attempts_of_ok hmap] at hreads
    -- The walk reads all of the order, and its entries are what is committed.
    have houtcome : w.outcome g = g.inspect d (libraries.map d.locate) (files.map d.locate) := by
      rw [hinspect, hend]
      cases entries with
      | nil => rfl
      | cons entry entries => rfl
    refine ⟨?_, houtcome, hreads ▸ horder.nodup, hreads ▸ horder.known_eq_false, ?_, ?_⟩
    · rw [hend]
      exact StackWalk.next?_end _ _ _ _
    · intro hok
      cases hg' : g.inspect d (libraries.map d.locate) (files.map d.locate) with
      | error e =>
        rw [hg'] at hok
        cases hok
      | ok g' => exact ⟨hreads, order_of_inspect horder hg'⟩
    · intro e he
      rw [hinspect] at he
      cases entries with
      | nil => cases he
      | cons entry entries => cases he

end Graph

end SheetGraph
