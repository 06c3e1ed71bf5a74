import SheetGraph.Proofs.Graph.Indexing
import SheetGraph.Proofs.Graph.Reachable

/-!
# Indexing in batches

Files can be indexed in one call or in two, one list behind the other, on a disk that stays as it
is: the outcome is the same (`inspect_append`).

Within one call a file is passed over because it is staged, in the second of two calls because it is
indexed.  These are the same files (`isIndexed_commit`), so the traversal of the second list goes
the same way in both cases (`Preorder.of_known`).  The two batches then make the same graph, since
a closing looks at the edges alone (`commit_append`).
-/

namespace SheetGraph.Graph

variable {g g' : Graph} {staged : Staged} {l : Location} {ls : List Location}

/-! ### Two batches in a graph -/

theorem isIndexed_foldl_addFile (staged : Staged) (g : Graph) :
    (staged.foldl (fun g file => g.addFile file.1 file.2) g).isIndexed l = true ↔
      g.isIndexed l = true ∨ l ∈ staged.map (·.1) := by
  induction staged generalizing g with
  | nil => simp
  | cons file staged ih =>
    rw [List.foldl_cons, ih]
    have hfile : (g.addFile file.1 file.2).isIndexed l = true ↔
        g.isIndexed l = true ∨ l = file.1 :=
      EdgeMap.contains_insert
    rw [hfile, List.map_cons, List.mem_cons, or_assoc]

/-- **What a batch adds is indexed**, and nothing else. -/
theorem isIndexed_commit :
    (g.commit staged).isIndexed l = true ↔ g.isIndexed l = true ∨ l ∈ staged.map (·.1) :=
  isIndexed_foldl_addFile staged g

/-- Graphs with the same edges are still the same, once they are closed, after a file is added. -/
theorem close_addFile_congr (h : g.close = g'.close) :
    (g.addFile l ls).close = (g'.addFile l ls).close := by
  -- Closing leaves the edges as they are.
  have horder : g.order = g'.order := by
    show g.close.order = g'.close.order
    rw [h]
  have himports : g.imports = g'.imports := by
    show g.close.imports = g'.close.imports
    rw [h]
  have himporters : g.importers = g'.importers := by
    show g.close.importers = g'.close.importers
    rw [h]
  simp only [close, addFile, horder, himports, himporters]

theorem close_foldl_addFile_congr (staged : Staged) (h : g.close = g'.close) :
    (staged.foldl (fun g file => g.addFile file.1 file.2) g).close
      = (staged.foldl (fun g file => g.addFile file.1 file.2) g').close := by
  induction staged generalizing g g' with
  | nil => exact h
  | cons file staged ih => exact ih (close_addFile_congr h)

/-- **Two batches one after the other are one batch**: what is closed in between is closed anew. -/
theorem commit_append (g : Graph) (staged more : Staged) :
    g.commit (staged ++ more) = (g.commit staged).commit more := by
  rw [commit, List.foldl_append]
  exact close_foldl_addFile_congr more rfl

/-! ### Two indexings -/

variable {d : Disk} {libraries files more order later : List Location}

/-- **Indexing a list and then another** comes to the same as indexing both in one call. -/
theorem inspect_append (g : Graph) (d : Disk) (libraries files more : List Location) :
    g.inspect d libraries (files ++ more) =
      match g.inspect d libraries files with
      | .error e => .error e
      | .ok g' => g'.inspect d libraries more := by
  obtain ⟨order, horder⟩ := exists_preorder d libraries g.isIndexed files
  -- The traversal of the second list passes over what the first one has visited.
  obtain ⟨later, hlater⟩ :=
    exists_preorder d libraries (fun l => g.isIndexed l || order.contains l) more
  have hknown : ∀ l, (g.isIndexed l || order.contains l) = true ↔
      g.isIndexed l = true ∨ l ∈ order := by
    simp
  have hseen : Preorder (nextOf (readImports d libraries)) g.isIndexed ([] ++ order) more
      later := by
    simpa using hlater.of_known hknown
  have hwhole := horder.append hseen
  rw [inspect_of_preorder hwhole, inspect_of_preorder horder, mapM_append_eq]
  cases hmap : order.mapM (readEntry (readImports d libraries)) with
  | error e => rfl
  | ok staged =>
    -- What is staged is what the second call finds indexed.
    have hfst : staged.map (·.1) = order := by
      rw [eq_map_of_mapM_readEntry hmap, List.map_map]
      exact List.map_id _
    cases staged with
    | nil =>
      have hnil : order = [] := hfst.symm
      subst hnil
      have hsame : (fun l => g.isIndexed l || ([] : List Location).contains l) = g.isIndexed := by
        funext l
        simp
      rw [hsame] at hlater
      dsimp only
      rw [inspect_of_preorder hlater]
      cases later.mapM (readEntry (readImports d libraries)) <;> rfl
    | cons file staged =>
      have hsame : (fun l => g.isIndexed l || order.contains l)
          = (g.commit (file :: staged)).isIndexed := by
        funext l
        rw [Bool.eq_iff_iff, hknown, isIndexed_commit, hfst]
      rw [hsame] at hlater
      dsimp only
      rw [inspect_of_preorder hlater]
      cases later.mapM (readEntry (readImports d libraries)) with
      | error e => rfl
      | ok rest =>
        dsimp only
        cases rest with
        | nil => rw [List.append_nil]
        | cons entry rest =>
          dsimp only
          rw [← commit_append]
          rfl

/-- **A call for two lists is a call for the first and then one for the second**: it succeeds when
both do and leaves the graph that they leave, and otherwise its error is that of the first of them
that fails. -/
theorem call_inspect_append (g : Graph) (d : Disk) (libraries files more : List Path) :
    ((g.call (.inspect d libraries (files ++ more))).2 = .ok () ↔
      (g.call (.inspect d libraries files)).2 = .ok () ∧
      ((g.call (.inspect d libraries files)).1.call (.inspect d libraries more)).2 = .ok ()) ∧
    ((g.call (.inspect d libraries (files ++ more))).2 = .ok () →
      (g.call (.inspect d libraries (files ++ more))).1
        = ((g.call (.inspect d libraries files)).1.call (.inspect d libraries more)).1) ∧
    ∀ e, (g.call (.inspect d libraries (files ++ more))).2 = .error e ↔
      (g.call (.inspect d libraries files)).2 = .error e ∨
      (g.call (.inspect d libraries files)).2 = .ok () ∧
        ((g.call (.inspect d libraries files)).1.call (.inspect d libraries more)).2
          = .error e := by
  have happend := inspect_append g d (libraries.map d.locate) (files.map d.locate)
    (more.map d.locate)
  rw [← List.map_append] at happend
  simp only [call, happend]
  cases g.inspect d (libraries.map d.locate) (files.map d.locate) with
  | error e => simp
  | ok g' =>
    dsimp only
    cases g'.inspect d (libraries.map d.locate) (more.map d.locate) with
    | error e => simp
    | ok g'' => simp

end SheetGraph.Graph
