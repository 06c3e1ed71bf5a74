import SheetGraph.Proofs.Graph.Indexing
import SheetGraph.Proofs.Graph.Reachable

/-!
# Well-formed graphs

What holds of every graph that calls can make (`WellFormed`): the files are listed once and are
those that have a list of imports; whatever is imported is itself indexed; the importers of a file
are, in the order of indexing, the files whose list holds it; and the closures are those of the
edges.

`Linked` is the part of it that holds between two files of one batch, when the imports of a file
need not be indexed yet.  Adding a file keeps it (`Linked.addFile`), and so does a whole batch
(`Linked.foldl_addFile`); an indexing ends in a well-formed graph again (`WellFormed.inspect`),
hence so does every run of calls (`WellFormed.run`).
-/

namespace SheetGraph.Graph

/-- The two maps of edges are each the other one reversed. -/
structure Linked (g : Graph) : Prop where
  /-- No file is listed twice. -/
  nodup : g.order.Nodup
  /-- The files that are listed are those that have a list of imports. -/
  keys : g.imports.keys = g.order
  /-- No file imports another twice. -/
  nodup_targets : ∀ l, (g.imports.targets l).Nodup
  /-- The importers of a file are those that import it, in the order of indexing. -/
  importers : ∀ l, g.importers.targets l = g.order.filter (l ∈ g.imports.targets ·)

/-- What holds of a graph between calls. -/
structure WellFormed (g : Graph) : Prop extends Linked g where
  /-- Whatever is imported is indexed. -/
  indexed : ∀ l, ∀ k ∈ g.imports.targets l, k ∈ g.order
  /-- The closures are those of the edges. -/
  closed : g.close = g

variable {g : Graph} {l k : Location} {ls : List Location}

theorem wellFormed_empty : WellFormed empty where
  nodup := List.nodup_nil
  keys := rfl
  nodup_targets _ := List.nodup_nil
  importers _ := rfl
  indexed _ _ hk := absurd hk List.not_mem_nil
  closed := rfl

/-! ### Adding a file -/

theorem Linked.isIndexed_iff (h : Linked g) : g.isIndexed l = true ↔ l ∈ g.order := by
  rw [isIndexed, EdgeMap.contains_iff, h.keys]

theorem Linked.isIndexed_eq_false_iff (h : Linked g) : g.isIndexed l = false ↔ l ∉ g.order := by
  rw [← h.isIndexed_iff, Bool.not_eq_true]

@[simp] theorem imports_addFile : (g.addFile l ls).imports = g.imports.insert l ls := rfl

@[simp] theorem order_addFile : (g.addFile l ls).order = g.order ++ [l] := rfl

theorem targets_addFile (k : Location) :
    (g.addFile l ls).imports.targets k = if k = l then ls else g.imports.targets k :=
  EdgeMap.targets_insert

/-- One import after the other gets the file as an importer. -/
theorem targets_foldl_addTarget (m : EdgeMap) (hls : ls.Nodup) (hl : ∀ k ∈ ls, l ∉ m.targets k)
    (k : Location) :
    (ls.foldl (fun m child => m.addTarget child l) m).targets k
      = if k ∈ ls then m.targets k ++ [l] else m.targets k := by
  induction ls generalizing m with
  | nil => rfl
  | cons child ls ih =>
    obtain ⟨hchild, hls⟩ := List.nodup_cons.mp hls
    obtain ⟨hlchild, hl⟩ := List.forall_mem_cons.mp hl
    have htargets : ∀ k, (m.addTarget child l).targets k
        = if k = child then m.targets child ++ [l] else m.targets k := by
      intro k
      rw [EdgeMap.targets_addTarget]
      simp [collect, hlchild]
    have hnew : ∀ k ∈ ls, l ∉ (m.addTarget child l).targets k := by
      intro k hk
      have hne : k ≠ child := fun e => hchild (e ▸ hk)
      rw [htargets, if_neg hne]
      exact hl k hk
    rw [List.foldl_cons, ih _ hls hnew, htargets]
    by_cases hk : k = child
    · subst hk
      rw [if_neg hchild, if_pos rfl, if_pos List.mem_cons_self]
    · rw [if_neg hk]
      simp [hk]

/-- **A file can be added** that is not indexed yet, with a list of imports without repetition. -/
theorem Linked.addFile (h : Linked g) (hl : l ∉ g.order) (hls : ls.Nodup) :
    Linked (g.addFile l ls) where
  nodup := by
    rw [order_addFile, List.nodup_append]
    refine ⟨h.nodup, List.nodup_singleton l, ?_⟩
    intro x hx y hy
    rw [List.mem_singleton] at hy
    exact fun e => hl (hy ▸ e ▸ hx)
  keys := by
    rw [imports_addFile, EdgeMap.keys_insert_of_notMem (by rwa [h.keys]), h.keys, order_addFile]
  nodup_targets k := by
    rw [targets_addFile]
    split
    · exact hls
    · exact h.nodup_targets k
  importers k := by
    -- The file was not indexed, so it is not yet among the importers of anything.
    have hnew : ∀ k ∈ ls, l ∉ g.importers.targets k := by
      intro k _ hmem
      rw [h.importers] at hmem
      exact hl (List.mem_filter.mp hmem).1
    have hold : g.order.filter (k ∈ (g.addFile l ls).imports.targets ·)
        = g.order.filter (k ∈ g.imports.targets ·) := by
      refine List.filter_congr fun x hx => ?_
      have hne : x ≠ l := fun e => hl (e ▸ hx)
      rw [targets_addFile, if_neg hne]
    have hself : [l].filter (k ∈ (g.addFile l ls).imports.targets ·)
        = if k ∈ ls then [l] else [] := by
      rw [List.filter_singleton, targets_addFile, if_pos rfl]
      by_cases hk : k ∈ ls <;> simp [hk]
    show (ls.foldl (fun m child => m.addTarget child l) g.importers).targets k = _
    rw [targets_foldl_addTarget _ hls hnew, order_addFile, List.filter_append, hold, hself,
      h.importers]
    by_cases hk : k ∈ ls
    · rw [if_pos hk, if_pos hk]
    · rw [if_neg hk, if_neg hk, List.append_nil]

/-! ### Adding a batch -/

/-- **A batch can be added** of files that are not indexed yet, each once and with a list of imports
without repetition; it changes no list of another file. -/
theorem Linked.foldl_addFile : ∀ (files : List Location) (imports : Location → List Location)
    (g : Graph), Linked g → (g.order ++ files).Nodup → (∀ l ∈ files, (imports l).Nodup) →
      Linked ((files.map fun l => (l, imports l)).foldl (fun g file => g.addFile file.1 file.2) g) ∧
      ((files.map fun l => (l, imports l)).foldl (fun g file => g.addFile file.1 file.2) g).order
        = g.order ++ files ∧
      ∀ k, ((files.map fun l => (l, imports l)).foldl
          (fun g file => g.addFile file.1 file.2) g).imports.targets k
        = if k ∈ files then imports k else g.imports.targets k
  | [], _, g, h, _, _ => ⟨h, (List.append_nil _).symm, fun _ => rfl⟩
  | l :: files, imports, g, h, hnodup, himports => by
    obtain ⟨hl, himports⟩ := List.forall_mem_cons.mp himports
    have hnew : l ∉ g.order := by
      intro hmem
      exact (List.nodup_append.mp hnodup).2.2 l hmem l List.mem_cons_self rfl
    have hfiles : l ∉ files := (List.nodup_cons.mp (List.nodup_append.mp hnodup).2.1).1
    have horder : (g.addFile l (imports l)).order ++ files = g.order ++ l :: files := by
      rw [order_addFile, List.append_assoc, List.singleton_append]
    obtain ⟨hlinked, horder', htargets⟩ := foldl_addFile files imports _ (h.addFile hnew hl)
      (by rwa [horder]) himports
    refine ⟨hlinked, horder'.trans horder, fun k => (htargets k).trans ?_⟩
    rw [targets_addFile]
    by_cases hk : k = l
    · subst hk
      rw [if_neg hfiles, if_pos rfl, if_pos List.mem_cons_self]
    · simp [hk]

/-! ### Closing -/

theorem Linked.close (h : Linked g) : Linked g.close :=
  ⟨h.nodup, h.keys, h.nodup_targets, h.importers⟩

/-- **A graph is well formed once it is closed**, if whatever is imported is indexed. -/
theorem Linked.wellFormed_close (h : Linked g)
    (hindexed : ∀ l, ∀ k ∈ g.imports.targets l, k ∈ g.order) : WellFormed g.close :=
  { h.close with indexed := hindexed, closed := rfl }

/-! ### Indexing -/

variable {d : Disk} {libraries files order : List Location} {g' : Graph}

theorem nodup_nextOf_readImports : (nextOf (readImports d libraries) l).Nodup := by
  unfold nextOf
  split
  · exact List.nodup_nil
  · rename_i ls hread
    obtain ⟨-, -, -, -, -, -, rfl⟩ := readImports_eq_ok_iff.mp hread
    exact nodup_collect _ List.nodup_nil

/-- **What an indexing makes of a graph**: it is well formed again, the files that were found are
behind those that were there, and their lists are what could be read of them. -/
theorem WellFormed.inspect (h : WellFormed g)
    (horder : Preorder (nextOf (readImports d libraries)) g.isIndexed [] files order)
    (hinspect : g.inspect d libraries files = .ok g') :
    WellFormed g' ∧ g'.order = g.order ++ order ∧
      (∀ k, g'.imports.targets k
        = if k ∈ order then nextOf (readImports d libraries) k else g.imports.targets k) ∧
      ∀ l ∈ order, readImports d libraries l = .ok (g'.imports.targets l) := by
  rw [inspect_of_preorder horder] at hinspect
  cases hmap : order.mapM (readEntry (readImports d libraries)) with
  | error e =>
    rw [hmap] at hinspect
    cases hinspect
  | ok staged =>
    have hstaged := eq_map_of_mapM_readEntry hmap
    have hread : ∀ l ∈ order,
        readImports d libraries l = .ok (nextOf (readImports d libraries) l) := by
      intro l hl
      obtain ⟨ls, hls⟩ := exists_readEntry_eq_ok_iff.mp
        (exists_mapM_eq_ok_iff.mp ⟨staged, hmap⟩ l hl)
      rw [nextOf_of_ok hls, hls]
    -- An empty batch leaves the graph as it is, which is already closed.
    have hg' : g' = g.commit staged := by
      rw [hmap] at hinspect
      cases staged with
      | nil =>
        cases hinspect
        exact h.closed.symm
      | cons entry staged =>
        cases hinspect
        rfl
    have hnew : ∀ l ∈ order, l ∉ g.order := by
      intro l hl
      exact h.isIndexed_eq_false_iff.mp (horder.known_eq_false l hl)
    have hnodup : (g.order ++ order).Nodup := by
      rw [List.nodup_append]
      refine ⟨h.nodup, horder.nodup, ?_⟩
      intro x hx y hy e
      exact hnew y hy (e ▸ hx)
    obtain ⟨hlinked, horder', htargets⟩ := Linked.foldl_addFile order
      (nextOf (readImports d libraries)) g h.toLinked hnodup fun _ _ => nodup_nextOf_readImports
    rw [← hstaged] at hlinked horder' htargets
    have hindexed : ∀ l,
        ∀ k ∈ (staged.foldl (fun g file => g.addFile file.1 file.2) g).imports.targets l,
          k ∈ (staged.foldl (fun g file => g.addFile file.1 file.2) g).order := by
      intro l k hk
      rw [htargets] at hk
      rw [horder']
      split at hk
      · rename_i hl
        rcases horder.covers_next l hl k hk with hknown | hseen | hvisited
        · exact List.mem_append_left _ (h.isIndexed_iff.mp hknown)
        · exact absurd hseen List.not_mem_nil
        · exact List.mem_append_right _ hvisited
      · exact List.mem_append_left _ (h.indexed l k hk)
    subst hg'
    refine ⟨hlinked.wellFormed_close hindexed, horder', htargets, fun l hl => ?_⟩
    rw [hread l hl]
    exact congrArg Except.ok ((htargets l).trans (if_pos hl)).symm

/-- **Every call keeps a graph well formed.** -/
theorem WellFormed.call (h : WellFormed g) (c : Call) : WellFormed (g.call c).1 := by
  cases c with
  | reset => exact wellFormed_empty
  | inspect d libraries files =>
    rw [Graph.call]
    cases hinspect : g.inspect d (libraries.map d.locate) (files.map d.locate) with
    | error e => exact h
    | ok g' =>
      obtain ⟨order, horder⟩ := exists_preorder d (libraries.map d.locate) g.isIndexed
        (files.map d.locate)
      exact (h.inspect horder hinspect).1

/-- **Every run of calls keeps a graph well formed.** -/
theorem WellFormed.run (h : WellFormed g) (calls : List Call) : WellFormed (g.run calls) := by
  induction calls generalizing g with
  | nil => exact h
  | cons c calls ih => exact ih (h.call c)

end SheetGraph.Graph
