import SheetGraph.Proofs.Graph.Staging

/-!
# Indexing succeeds as a whole or not at all

A graph is kept by its owner and changed by calls (`Graph.call`): an indexing leaves the graph as it
was when it fails.  `call_inspect_first_failure` says when that is: all files that are found from
the given ones without passing through an indexed one are read, in depth-first preorder, and the
first of them that cannot be read, parsed or resolved (`ReadFailure`) decides the outcome.
-/

namespace SheetGraph

/-! ### The three ways in which a file fails -/

/-- The file can be read, and its imports can be parsed and resolved. -/
def Readable (d : Disk) (libraries : List Location) (l : Location) : Prop :=
  ∃ text targets files, d.readText l.path = .ok text ∧
    imports l.path.syntaxMode text.toList = .ok targets ∧
    resolve d l targets libraries = .ok files

/-- The error of a file that cannot be read, parsed or resolved. -/
inductive ReadFailure (d : Disk) (libraries : List Location) (l : Location) : ImportError → Prop
  /-- It cannot be read. -/
  | read {cause : FileError} : d.readText l.path = .error cause →
      ReadFailure d libraries l (.unreadable l.path cause)
  /-- It is read, but an import in it cannot be parsed. -/
  | parse {text : String} {e : ImportError} : d.readText l.path = .ok text →
      imports l.path.syntaxMode text.toList = .error e → ReadFailure d libraries l (e.inFile l.path)
  /-- It is read and parsed, but an import in it cannot be resolved. -/
  | resolve {text : String} {targets : List String} {e : ImportError} :
      d.readText l.path = .ok text → imports l.path.syntaxMode text.toList = .ok targets →
      resolve d l targets libraries = .error e → ReadFailure d libraries l e

variable {d : Disk} {libraries : List Location} {l : Location}

theorem exists_readImports_eq_ok_iff :
    (∃ ls, readImports d libraries l = .ok ls) ↔ Readable d libraries l := by
  simp only [readImports_eq_ok_iff, Readable]
  constructor
  · rintro ⟨-, text, targets, files, htext, htargets, hfiles, -⟩
    exact ⟨text, targets, files, htext, htargets, hfiles⟩
  · rintro ⟨text, targets, files, htext, htargets, hfiles⟩
    exact ⟨collect [] files, text, targets, files, htext, htargets, hfiles, rfl⟩

theorem readImports_eq_error_iff {e : ImportError} :
    readImports d libraries l = .error e ↔ ReadFailure d libraries l e := by
  constructor
  · intro h
    unfold readImports at h
    split at h
    · rename_i cause hcause
      cases h
      exact ReadFailure.read hcause
    · rename_i text htext
      split at h
      · rename_i e' he
        cases h
        exact ReadFailure.parse htext he
      · rename_i targets htargets
        split at h
        · rename_i e' he
          cases h
          exact ReadFailure.resolve htext htargets he
        · cases h
  · intro h
    -- Each reason rules out those that are looked for before it.
    cases h with
    | read hcause => rw [readImports, hcause]
    | parse htext he =>
      rw [readImports, htext]
      dsimp only
      rw [he]
    | resolve htext htargets he =>
      rw [readImports, htext]
      dsimp only
      rw [htargets]
      dsimp only
      rw [he]

namespace Graph

/-! ### Calls -/

/-- A call on a graph. -/
inductive Call where
  /-- Files are indexed on a disk. -/
  | inspect (d : Disk) (libraries files : List Path)
  /-- All files are dropped. -/
  | reset

/-- The graph after a call, and the failure of the call if it fails. -/
def call (g : Graph) : Call → Graph × Except ImportError Unit
  | .inspect d libraries files =>
    match g.inspect d (libraries.map d.locate) (files.map d.locate) with
    | .error e => (g, .error e)
    | .ok g' => (g', .ok ())
  | .reset => (.empty, .ok ())

/-- The graph after calls in turn. -/
def run (g : Graph) (calls : List Call) : Graph :=
  calls.foldl (fun g c => (g.call c).1) g

/-! ### Success and failure of an indexing -/

variable {g : Graph} {files order : List Location}

theorem exists_inspect_eq_ok_iff
    (h : Preorder (nextOf (readImports d libraries)) g.isIndexed [] files order) :
    (∃ g', g.inspect d libraries files = .ok g') ↔ ∀ l ∈ order, Readable d libraries l := by
  rw [inspect_of_preorder h]
  have hparts : (∃ staged, order.mapM (readEntry (readImports d libraries)) = .ok staged) ↔
      ∀ l ∈ order, Readable d libraries l := by
    rw [exists_mapM_eq_ok_iff]
    refine forall₂_congr fun l _ => ?_
    rw [exists_readEntry_eq_ok_iff, exists_readImports_eq_ok_iff]
  rw [← hparts]
  cases order.mapM (readEntry (readImports d libraries)) with
  | error e => simp
  | ok staged => cases staged <;> simp

theorem inspect_eq_error_iff {e : ImportError}
    (h : Preorder (nextOf (readImports d libraries)) g.isIndexed [] files order) :
    g.inspect d libraries files = .error e ↔ ∃ before l after, order = before ++ l :: after ∧
      (∀ x ∈ before, Readable d libraries x) ∧ ReadFailure d libraries l e := by
  rw [inspect_of_preorder h]
  have hparts : order.mapM (readEntry (readImports d libraries)) = .error e ↔
      ∃ before l after, order = before ++ l :: after ∧
        (∀ x ∈ before, Readable d libraries x) ∧ ReadFailure d libraries l e := by
    rw [mapM_eq_error_iff]
    simp only [exists_readEntry_eq_ok_iff, exists_readImports_eq_ok_iff, readEntry_eq_error_iff,
      readImports_eq_error_iff]
  rw [← hparts]
  cases order.mapM (readEntry (readImports d libraries)) with
  | error e' => simp
  | ok staged => cases staged <;> simp

/-- **An indexing succeeds when all files that it finds can be read, parsed and resolved.**
Otherwise its error is that of the first of them in depth-first preorder that cannot, and the graph
is the one before the call. -/
theorem call_inspect_first_failure (g : Graph) (d : Disk) (libraries files : List Path) :
    ((g.call (.inspect d libraries files)).2 = .ok () ↔
      ∀ l, Found (nextOf (readImports d (libraries.map d.locate))) g.isIndexed
        (files.map d.locate) l → Readable d (libraries.map d.locate) l) ∧
    ∃ order, Preorder (nextOf (readImports d (libraries.map d.locate))) g.isIndexed []
        (files.map d.locate) order ∧
      (∀ l, l ∈ order ↔ Found (nextOf (readImports d (libraries.map d.locate))) g.isIndexed
        (files.map d.locate) l) ∧
      ∀ e, ((g.call (.inspect d libraries files)).2 = .error e ↔
          ∃ before l after, order = before ++ l :: after ∧
            (∀ x ∈ before, Readable d (libraries.map d.locate) x) ∧
            ReadFailure d (libraries.map d.locate) l e) ∧
        ((g.call (.inspect d libraries files)).2 = .error e →
          (g.call (.inspect d libraries files)).1 = g) := by
  obtain ⟨order, horder⟩ := exists_preorder d (libraries.map d.locate) g.isIndexed
    (files.map d.locate)
  have hok := exists_inspect_eq_ok_iff horder
  have herror := fun e => inspect_eq_error_iff (e := e) horder
  have hmem := fun l => horder.mem_iff (a := l)
  refine ⟨?_, order, horder, hmem, fun e => ?_⟩
  · simp only [hmem] at hok
    rw [← hok, call]
    cases g.inspect d (libraries.map d.locate) (files.map d.locate) <;> simp
  · rw [← herror e, call]
    cases g.inspect d (libraries.map d.locate) (files.map d.locate) <;> simp

end Graph

end SheetGraph
