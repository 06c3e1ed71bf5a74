import SheetGraph.Proofs.Graph.WellFormed

/-!
# Where the lists of a graph come from

A graph keeps no record of the calls that have made it.  `run_lists` says what its lists tell of
them all the same, after any run of calls on any disks: every indexed file has been indexed by one
call of the run and has stayed since (`IndexedBy`), and its list holds what its targets were
resolved to on the disk of that call, each file at its first occurrence.

One call either leaves a file of the graph with its list, or reads the list of a new one
(`WellFormed.mem_order_call`).  By induction on the run, from its last call, every list was read by
some call of it (`exists_indexedBy`).
-/

namespace SheetGraph.Graph

variable {g : Graph} {c : Call} {calls : List Call} {d : Disk} {libraries files : List Path}
  {l : Location}

/-! ### One call -/

/-- **What is indexed after a call** was indexed before, with the same list, or is new and has the
list that is read of it on the disk of the call. -/
theorem WellFormed.mem_order_call (h : WellFormed g) (hl : l ∈ (g.call c).1.order) :
    l ∈ g.order ∧ (g.call c).1.directChildren l = g.directChildren l ∨
    l ∉ g.order ∧ ∃ d libraries files, c = .inspect d libraries files ∧
      readImports d (libraries.map d.locate) l = .ok ((g.call c).1.directChildren l) := by
  cases c with
  | reset => exact absurd hl List.not_mem_nil
  | inspect d libraries files =>
    rw [Graph.call] at hl ⊢
    cases hinspect : g.inspect d (libraries.map d.locate) (files.map d.locate) with
    | error e =>
      rw [hinspect] at hl
      exact Or.inl ⟨hl, rfl⟩
    | ok g' =>
      rw [hinspect] at hl
      obtain ⟨order, horder⟩ := exists_preorder d (libraries.map d.locate) g.isIndexed
        (files.map d.locate)
      obtain ⟨-, horder', htargets, hread⟩ := h.inspect horder hinspect
      dsimp only at hl ⊢
      by_cases hnew : l ∈ order
      · have hold : l ∉ g.order := h.isIndexed_eq_false_iff.mp (horder.known_eq_false l hnew)
        exact Or.inr ⟨hold, d, libraries, files, rfl, hread l hnew⟩
      · rw [horder', List.mem_append] at hl
        exact Or.inl ⟨hl.resolve_right hnew, (htargets l).trans (if_neg hnew)⟩

/-! ### Runs of calls -/

theorem run_concat (calls : List Call) (c : Call) :
    g.run (calls ++ [c]) = ((g.run calls).call c).1 := by
  rw [run, run, List.foldl_append]
  rfl

/-- The file was indexed by a call of the run, which had not been so before it, and has stayed
indexed after every call since. -/
def IndexedBy (calls : List Call) (l : Location) (d : Disk) (libraries files : List Path) : Prop :=
  ∃ earlier later, calls = earlier ++ .inspect d libraries files :: later ∧
    l ∉ (empty.run earlier).order ∧
    ∀ more, more <+: later →
      l ∈ (empty.run (earlier ++ .inspect d libraries files :: more)).order

/-- A file that a call has indexed is so by that call. -/
theorem indexedBy_of_notMem (hnew : l ∉ (empty.run calls).order)
    (hl : l ∈ (empty.run (calls ++ [.inspect d libraries files])).order) :
    IndexedBy (calls ++ [.inspect d libraries files]) l d libraries files := by
  refine ⟨calls, [], rfl, hnew, fun more hmore => ?_⟩
  rw [List.prefix_nil.mp hmore]
  exact hl

/-- A file that stays indexed is so by the same call. -/
theorem IndexedBy.concat (h : IndexedBy calls l d libraries files)
    (hl : l ∈ (empty.run (calls ++ [c])).order) :
    IndexedBy (calls ++ [c]) l d libraries files := by
  obtain ⟨earlier, later, rfl, hnew, hstays⟩ := h
  refine ⟨earlier, later ++ [c], by simp, hnew, fun more hmore => ?_⟩
  rcases List.prefix_concat_iff.mp hmore with rfl | hmore
  · simpa using hl
  · exact hstays more hmore

/-- **The list of a file was read by the call that has indexed it.** -/
theorem exists_indexedBy (calls : List Call) (hl : l ∈ (empty.run calls).order) :
    ∃ d libraries files, IndexedBy calls l d libraries files ∧
      readImports d (libraries.map d.locate) l = .ok ((empty.run calls).directChildren l) := by
  induction calls using List.reverseRecOn with
  | nil => exact absurd hl List.not_mem_nil
  | append_singleton calls c ih =>
    have hwf : WellFormed (empty.run calls) := wellFormed_empty.run calls
    have hcall := hl
    rw [run_concat] at hcall
    rw [run_concat]
    rcases hwf.mem_order_call hcall with ⟨hold, hsame⟩ | ⟨hnew, d, libraries, files, rfl, hread⟩
    · obtain ⟨d, libraries, files, hby, hread⟩ := ih hold
      exact ⟨d, libraries, files, hby.concat hl, hsame ▸ hread⟩
    · exact ⟨d, libraries, files, indexedBy_of_notMem hnew hl, hread⟩

/-- **What the lists of a graph tell of the calls that have made it.**  The indexed files are listed
once and are those that have a list of imports.  That list repeats nothing, and it holds what the
targets of the file were resolved to, each file at its first occurrence, when the file was indexed
and on the disk it was indexed on.  Whatever is imported is indexed, and the importers of a file
are, in the order of indexing, the files whose list holds it. -/
theorem run_lists (calls : List Call) :
    (empty.run calls).order.Nodup ∧
    (∀ l, l ∈ (empty.run calls).order ↔ l ∈ (empty.run calls).imports.keys) ∧
    (∀ l, ((empty.run calls).directChildren l).Nodup) ∧
    (∀ l ∈ (empty.run calls).order, ∃ d libraries files text targets found,
      IndexedBy calls l d libraries files ∧ d.readText l.path = .ok text ∧
      SheetGraph.imports l.path.syntaxMode text.toList = .ok targets ∧
      resolve d l targets (libraries.map d.locate) = .ok found ∧
      (empty.run calls).directChildren l = found.eraseDups) ∧
    (∀ l, ∀ k ∈ (empty.run calls).directChildren l, k ∈ (empty.run calls).order) ∧
    ∀ l, (empty.run calls).directParents l
      = (empty.run calls).order.filter (l ∈ (empty.run calls).directChildren ·) := by
  have h : WellFormed (empty.run calls) := wellFormed_empty.run calls
  refine ⟨h.nodup, fun l => by rw [h.keys], h.nodup_targets, fun l hl => ?_, h.indexed, h.importers⟩
  obtain ⟨d, libraries, files, hby, hread⟩ := exists_indexedBy calls hl
  obtain ⟨text, targets, found, htext, htargets, hfound, hlist⟩ := readImports_eq_ok_iff.mp hread
  refine ⟨d, libraries, files, text, targets, found, hby, htext, htargets, hfound, ?_⟩
  rw [hlist, collect_eq_append, List.nil_append]
  simp

end SheetGraph.Graph
