import SheetGraph.Proofs.Graph.Closure

/-!
# The order of the files that are indexed

In which order files are given to an indexing shows in the order of indexing and in nothing else.
Two graphs `Agree` when they have the same files, the same imports, direct or not, in the same
order, and the same importers in some order; `call_inspect_perm` says that the graphs for two orders
of the same files agree.

The traversal visits the files in another order, and may cut the graph at other places, but what it
visits is what can be `Found` from the given files, which their order does not matter to.  A
well-formed graph is made from its files and their imports (`WellFormed.agree`): the closures are
searches of the edges, whose result depends on the lists of imports alone.
-/

namespace SheetGraph

/-- From more roots more is found. -/
theorem Found.mono {α : Type} {next : α → List α} {known : α → Bool} {roots roots' : List α} {a : α}
    (hroots : ∀ r ∈ roots, r ∈ roots') (ha : Found next known roots a) :
    Found next known roots' a := by
  induction ha with
  | root hr hknown => exact Found.root (hroots _ hr) hknown
  | next _ hb hknown ih => exact Found.next ih hb hknown

namespace Graph

/-! ### Graphs that agree -/

/-- The graphs show the same, except for the order of indexing. -/
structure Agree (g g' : Graph) : Prop where
  /-- The same files are indexed. -/
  mem_order_iff : ∀ l, l ∈ g.order ↔ l ∈ g'.order
  /-- They import the same, in the same order. -/
  directChildren_eq : ∀ l, g.directChildren l = g'.directChildren l
  /-- They depend on the same, in the same order. -/
  children_eq : ∀ l, g.children l = g'.children l
  /-- The same files are cyclic. -/
  isCyclic_eq : ∀ l, g.isCyclic l = g'.isCyclic l
  /-- The same files import a file. -/
  mem_directParents_iff : ∀ l k, k ∈ g.directParents l ↔ k ∈ g'.directParents l
  /-- The same files depend on a file, or both graphs refuse it since it is cyclic. -/
  parents : ∀ l, (∃ e, g.parents l = .error e ∧ g'.parents l = .error e) ∨
    ∃ ls ls', g.parents l = .ok ls ∧ g'.parents l = .ok ls' ∧ ∀ k, k ∈ ls ↔ k ∈ ls'

variable {g g' g'' : Graph}

theorem Agree.refl (g : Graph) : g.Agree g where
  mem_order_iff _ := Iff.rfl
  directChildren_eq _ := rfl
  children_eq _ := rfl
  isCyclic_eq _ := rfl
  mem_directParents_iff _ _ := Iff.rfl
  parents l := by
    cases hl : g.parents l with
    | error e => exact Or.inl ⟨e, rfl, rfl⟩
    | ok ls => exact Or.inr ⟨ls, ls, rfl, rfl, fun _ => Iff.rfl⟩

/-- **A well-formed graph is made from its files and their imports.** -/
theorem WellFormed.agree (h : g.WellFormed) (h' : g'.WellFormed)
    (horder : ∀ l, l ∈ g.order ↔ l ∈ g'.order)
    (htargets : ∀ l, g.imports.targets l = g'.imports.targets l) : g.Agree g' := by
  have hreaches : g.Reaches = g'.Reaches := by
    have hedge : g.directChildren = g'.directChildren := funext htargets
    rw [Reaches, Reaches, hedge]
  have hcyclic : ∀ l, g.isCyclic l = g'.isCyclic l := by
    intro l
    rw [Bool.eq_iff_iff, h.isCyclic_iff, h'.isCyclic_iff, hreaches]
  refine ⟨horder, htargets, fun l => ?_, hcyclic, fun l k => ?_, fun l => ?_⟩
  · rw [children, children, closure, closure, h.targets_allImports, h'.targets_allImports, hcyclic,
      EdgeMap.reachable_congr htargets]
  · show k ∈ g.importers.targets l ↔ k ∈ g'.importers.targets l
    rw [h.importers, h'.importers, List.mem_filter, List.mem_filter, horder, htargets]
  · cases hl : g.isCyclic l with
    | true =>
      have hl' : g'.isCyclic l = true := by rw [← hcyclic, hl]
      exact Or.inl ⟨_, closure_eq_error_iff.mpr ⟨rfl, hl⟩, closure_eq_error_iff.mpr ⟨rfl, hl'⟩⟩
    | false =>
      have hl' : g'.isCyclic l = false := by rw [← hcyclic, hl]
      have hup := h.parents_eq_ok_iff.mpr ⟨hl, rfl⟩
      have hup' := h'.parents_eq_ok_iff.mpr ⟨hl', rfl⟩
      refine Or.inr ⟨_, _, hup, hup', fun k => ?_⟩
      rw [h.mem_of_parents_eq_ok hup, h'.mem_of_parents_eq_ok hup', hreaches]

/-! ### Two orders of the same files -/

variable {d : Disk} {libraries files files' : List Location}

/-- What can be indexed can be indexed in part. -/
theorem exists_inspect_of_subset (hfiles : ∀ l ∈ files', l ∈ files)
    (h : ∃ k, g.inspect d libraries files = .ok k) :
    ∃ k, g.inspect d libraries files' = .ok k := by
  obtain ⟨order, horder⟩ := exists_preorder d libraries g.isIndexed files
  obtain ⟨order', horder'⟩ := exists_preorder d libraries g.isIndexed files'
  rw [exists_inspect_eq_ok_iff horder] at h
  rw [exists_inspect_eq_ok_iff horder']
  intro l hl
  exact h l (horder.mem_iff.mpr ((horder'.mem_iff.mp hl).mono hfiles))

/-- **Indexing the same files makes graphs that agree.** -/
theorem WellFormed.inspect_agree (h : g.WellFormed) (hfiles : ∀ l, l ∈ files ↔ l ∈ files')
    (hinspect : g.inspect d libraries files = .ok g')
    (hinspect' : g.inspect d libraries files' = .ok g'') : g'.Agree g'' := by
  obtain ⟨order, horder⟩ := exists_preorder d libraries g.isIndexed files
  obtain ⟨order', horder'⟩ := exists_preorder d libraries g.isIndexed files'
  -- The two traversals visit the same files.
  have hmem : ∀ l, l ∈ order ↔ l ∈ order' := by
    intro l
    rw [horder.mem_iff, horder'.mem_iff]
    exact ⟨Found.mono fun r hr => (hfiles r).mp hr, Found.mono fun r hr => (hfiles r).mpr hr⟩
  obtain ⟨hwf, hfound, htargets, -⟩ := h.inspect horder hinspect
  obtain ⟨hwf', hfound', htargets', -⟩ := h.inspect horder' hinspect'
  apply hwf.agree hwf'
  · intro l
    rw [hfound, hfound', List.mem_append, List.mem_append, hmem]
  · intro l
    rw [htargets, htargets']
    simp only [hmem]

/-! ### Two files, one of which imports the other -/

/-- The file that is imported. -/
def chainB : Location := Location.root.entry ⟨"base.scss", by decide⟩

/-- The file that imports it. -/
def chainA : Location := Location.root.entry ⟨"main.scss", by decide⟩

/-- A disk with both files. -/
def chainDisk : Disk where
  tree := (FileTree.empty.put chainB (.file "".toUTF8)).put chainA
    (.file "@import 'base';\n".toUTF8)
  cwd := .root

/-! ### Calls -/

/-- **The order in which files are given does not matter** after any run of calls: the call succeeds
in both orders or in neither, and the graphs that it leaves agree. -/
theorem call_inspect_perm (calls : List Call) (d : Disk) (libraries : List Path)
    {files files' : List Path} (hperm : files.Perm files') :
    (((empty.run calls).call (.inspect d libraries files)).2 = .ok () ↔
      ((empty.run calls).call (.inspect d libraries files')).2 = .ok ()) ∧
    Agree ((empty.run calls).call (.inspect d libraries files)).1
      ((empty.run calls).call (.inspect d libraries files')).1 := by
  have hwf : (empty.run calls).WellFormed := wellFormed_empty.run calls
  have hfiles : ∀ l, l ∈ files.map d.locate ↔ l ∈ files'.map d.locate := by
    intro l
    exact (hperm.map d.locate).mem_iff
  rw [call, call]
  cases hone : (empty.run calls).inspect d (libraries.map d.locate) (files.map d.locate) with
  | error e =>
    cases hother : (empty.run calls).inspect d (libraries.map d.locate) (files'.map d.locate) with
    | error e' => exact ⟨by simp, Agree.refl _⟩
    | ok k =>
      obtain ⟨k', hk'⟩ := exists_inspect_of_subset (fun l hl => (hfiles l).mp hl) ⟨k, hother⟩
      rw [hone] at hk'
      cases hk'
  | ok k =>
    obtain ⟨k', hk'⟩ := exists_inspect_of_subset (fun l hl => (hfiles l).mpr hl) ⟨k, hone⟩
    rw [hk']
    exact ⟨by simp, hwf.inspect_agree hfiles hone hk'⟩

/-- The two files are indexed in another order when they are given in another order, and the graphs
agree in all else. -/
theorem call_inspect_perm_chain :
    [chainA.path, chainB.path].Perm [chainB.path, chainA.path] ∧
    ((empty.run []).call (.inspect chainDisk [] [chainA.path, chainB.path])).1.order
      = [chainA, chainB] ∧
    ((empty.run []).call (.inspect chainDisk [] [chainB.path, chainA.path])).1.order
      = [chainB, chainA] ∧
    ((empty.run []).call (.inspect chainDisk [] [chainB.path, chainA.path])).2 = .ok () ∧
    Agree ((empty.run []).call (.inspect chainDisk [] [chainA.path, chainB.path])).1
      ((empty.run []).call (.inspect chainDisk [] [chainB.path, chainA.path])).1 := by
  have hperm : [chainA.path, chainB.path].Perm [chainB.path, chainA.path] := List.Perm.swap _ _ _
  obtain ⟨hiff, hagree⟩ := call_inspect_perm [] chainDisk [] hperm
  refine ⟨hperm, by decide +kernel, by decide +kernel, ?_, hagree⟩
  rw [← hiff]
  decide +kernel

end Graph

end SheetGraph
