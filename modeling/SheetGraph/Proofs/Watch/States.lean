import SheetGraph.Proofs.Watch.Runs

/-!
# States of a handler

`Reached` are the states that the handler of a project can come to: it starts without a graph, and
then indexes the project and handles batches, each on a disk that may have changed in any way.

Whatever it does, the project stays the same, and the graph is still the empty one or that of the
last indexing that has succeeded (`Reached.graph`).  So the graph is well formed in every state
(`Reached.wellFormed`).
-/

namespace SheetGraph.WatchHandler

variable {p : Pipeline} {h h' : WatchHandler} {c : Compiler} {d d' : Disk} {files : List Location}
  {outcome : Except WatchError ChangeOutcome}

/-- A state that the handler of a project can come to. -/
inductive Reached (p : Pipeline) : WatchHandler → Prop
  /-- The handler as it is made. -/
  | ofPipeline {h : WatchHandler} : WatchHandler.ofPipeline p = .ok h → Reached p h
  /-- It has indexed the project. -/
  | index {h h' : WatchHandler} {d : Disk} : Reached p h → h.index d = .ok h' → Reached p h'
  /-- It has failed to index the project. -/
  | indexFailed {h : WatchHandler} {d : Disk} {e : ImportError} : Reached p h →
      h.index d = .error (.index e) → Reached p (h.indexFailed e)
  /-- It has handled a batch. -/
  | handleChanges {h h' : WatchHandler} {c : Compiler} {d d' : Disk} {files : List Location}
      {outcome : Except WatchError ChangeOutcome} : Reached p h →
      h.handleChanges c d files = (h', d', outcome) → Reached p h'

/-- The graph is that of some disk. -/
def HasIndexed (h : WatchHandler) : Prop :=
  ∃ d k, h.index d = .ok k ∧ h.graph = k.graph

theorem hasIndexed_of_index (hindex : h.index d = .ok h') : h'.HasIndexed :=
  ⟨d, h', (continues_of_index hindex).index_eq.trans hindex, rfl⟩

/-- **A batch leaves the graph as it is**, unless the disk of the batch is indexed. -/
theorem graph_handleChanges (hstep : h.handleChanges c d files = (h', d', outcome)) :
    h'.graph = h.graph ∨ h'.HasIndexed := by
  cases handles_iff.mpr hstep with
  | ignored _ => exact Or.inl rfl
  | unlisted _ _ => exact Or.inl rfl
  | unindexed _ _ => exact Or.inl rfl
  | @untold k e _ hindex _ =>
    -- The disk is indexed, and what comes after that keeps the graph.
    obtain ⟨d₀, k₀, hindex₀, hgraph⟩ := hasIndexed_of_index hindex
    exact Or.inr ⟨d₀, k₀, (index_indexFailed k e).trans hindex₀, hgraph⟩
  | unbuilt _ hindex _ _ => exact Or.inr (hasIndexed_of_index hindex)
  | built _ hindex _ _ => exact Or.inr (hasIndexed_of_index hindex)

/-- A handler keeps what it has indexed as long as its graph is the same. -/
theorem HasIndexed.continues (hindexed : h.HasIndexed) (hcontinues : h.Continues h')
    (hgraph : h'.graph = h.graph) : h'.HasIndexed := by
  obtain ⟨d, k, hindex, hk⟩ := hindexed
  exact ⟨d, k, hcontinues.index_eq.trans hindex, hgraph.trans hk⟩

/-- What a handler is made with. -/
theorem eq_of_ofPipeline (hmade : WatchHandler.ofPipeline p = .ok h) :
    ∃ options, p.project.finderOptions = .ok options ∧
      h = { pipeline := p, options := options } := by
  unfold WatchHandler.ofPipeline at hmade
  split at hmade
  · cases hmade
  · rename_i options hoptions
    cases hmade
    exact ⟨options, hoptions, rfl⟩

namespace Reached

/-- A handler that has indexed its project is in such a state. -/
theorem of_index (hoptions : h.project.finderOptions = .ok h.options)
    (hindex : h.index d = .ok h') : Reached h.pipeline h' := by
  let made : WatchHandler := { pipeline := h.pipeline, options := h.options }
  have hmade : WatchHandler.ofPipeline h.pipeline = .ok made := by
    rw [WatchHandler.ofPipeline, show h.pipeline.project.finderOptions = _ from hoptions]
  have hsame : made.index d = h.index d := index_congr rfl rfl
  exact (ofPipeline hmade).index (hsame.trans hindex)

/-- **What is the same in every state**: the project, and the way in which its main sources are
searched for. -/
theorem project (hreached : Reached p h) :
    h.pipeline = p ∧ h.project.finderOptions = .ok h.options := by
  induction hreached with
  | ofPipeline hmade =>
    obtain ⟨options, hoptions, rfl⟩ := eq_of_ofPipeline hmade
    exact ⟨rfl, hoptions⟩
  | index _ hindex ih =>
    have hcontinues := continues_of_index hindex
    exact ⟨hcontinues.pipeline.trans ih.1, hcontinues.finderOptions_eq ih.2⟩
  | indexFailed _ _ ih => exact ih
  | handleChanges _ hstep ih =>
    have hcontinues := (continues_handleChanges hstep).1
    exact ⟨hcontinues.pipeline.trans ih.1, hcontinues.finderOptions_eq ih.2⟩

/-- **The graph of every state** is the empty one or that of a disk. -/
theorem graph (hreached : Reached p h) : h.graph = .empty ∨ h.HasIndexed := by
  induction hreached with
  | ofPipeline hmade =>
    obtain ⟨options, -, rfl⟩ := eq_of_ofPipeline hmade
    exact Or.inl rfl
  | index _ hindex _ => exact Or.inr (hasIndexed_of_index hindex)
  | @indexFailed h _ e _ _ ih =>
    exact ih.imp_right fun hindexed => hindexed.continues (continues_indexFailed h e) rfl
  | handleChanges _ hstep ih =>
    rcases graph_handleChanges hstep with hsame | hindexed
    · rw [hsame]
      exact ih.imp_right fun hindexed =>
        hindexed.continues (continues_handleChanges hstep).1 hsame
    · exact Or.inr hindexed

theorem wellFormed (hreached : Reached p h) : h.graph.WellFormed := by
  rcases hreached.graph with hempty | ⟨d, k, hindex, hgraph⟩
  · rw [hempty]
    exact Graph.wellFormed_empty
  · obtain ⟨-, -, _, -, hindexes⟩ := indexes_of_index hindex
    rw [hgraph]
    exact hindexes.wellFormed

end Reached

end SheetGraph.WatchHandler
