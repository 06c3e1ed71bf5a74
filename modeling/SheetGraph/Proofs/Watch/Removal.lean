import SheetGraph.Proofs.Watch.InTurn
import SheetGraph.Proofs.Watch.States

/-!
# Removed files

A file that is gone cannot be looked up in the graph of the edited disk, so what imported it is read
off the graph before (`previousParents`).  That graph has a list of importers for every file but the
cyclic ones.  So a batch with a removed file compiles all main sources that reached it, unless the
file was cyclic: then the batch compiles what it would compile without that file
(`handleChanges_removed`).

Indexing need not report such a file: the import that led to it may lead to a file of another
library directory now, in which case the edited disk has no cycle (`removed_cyclic_file_skipped`).
-/

namespace SheetGraph.WatchHandler

variable {p : Pipeline} {h h' : WatchHandler} {c : Compiler} {d d' : Disk} {files : List Location}
  {l m : Location} {r : BuildResult}

/-- **What the removal of a file calls for**: the main sources that are still there and that reached
it, unless it was cyclic. -/
theorem affects_of_removed (hrelevant : h.isRelevant d l.path = true)
    (hgone : d.contains l.path = false) :
    Affects h h' d l m ↔ h.graph.isCyclic l = false ∧
      h.isMain m = true ∧ d.contains m.path = true ∧ h.graph.Reaches m l := by
  obtain ⟨hname, role, hrole⟩ := isRelevant_path_iff.mp hrelevant
  constructor
  · rintro ⟨-, hmain, -, -, ⟨hthere, -⟩ | ⟨-, hthere, hcyclic, hreaches⟩⟩
    · rw [hgone] at hthere
      cases hthere
    · exact ⟨hcyclic, hmain, hthere, hreaches⟩
  · rintro ⟨hcyclic, hmain, hthere, hreaches⟩
    exact ⟨hname, hmain, role, hrole, Or.inr ⟨hgone, hthere, hcyclic, hreaches⟩⟩

/-! ### A library file that imports a source -/

/-- The disk with a library file that imports the source by which it is imported. -/
def loopBefore : Disk := save (layeredDisk "") frontX "@import '../scss/a';\n"

/-- The graph of the sources with that library file. -/
def loopGraph : Graph :=
  (((Graph.empty.addFile pairA [frontX]).addFile frontX [pairA]).addFile pairB []).close

/-- The handler that has indexed them. -/
def loopHandler : WatchHandler :=
  { pairHandler [⟨"one"⟩, ⟨"two"⟩] false with graph := loopGraph }

theorem reached_layered : Reached (layeredHandler frontX).pipeline (layeredHandler frontX) :=
  .of_index (h := layeredHandler frontX) rfl index_layeredBefore

theorem index_loopBefore :
    (pairHandler [⟨"one"⟩, ⟨"two"⟩] false).index loopBefore = .ok loopHandler :=
  index_pair (a := "@import 'x';\n".toUTF8) (b := "".toUTF8) (by decide +kernel)
    (by decide +kernel) (by decide +kernel) (by decide +kernel)

theorem index_layeredDisk :
    (layeredHandler frontX).index (layeredDisk "") = .ok (layeredHandler backX) :=
  index_layered (b := "".toUTF8) (by decide +kernel) (by decide +kernel) (by decide +kernel)
    (by decide +kernel)

/-! ### Removed files -/

/-- **What a batch with a removed file compiles**, in any state of the handler.  If the file was not
cyclic, every main source that reached it and is still there is compiled (a dry run skips it).  If
it was cyclic, the batch compiles what its other files call for. -/
theorem handleChanges_removed (hreached : Reached p h)
    (hrebuilt : h.handleChanges c d files = (h', d', .ok (.rebuilt r)))
    (hfail : p.failFast = false) (hl : l ∈ files) (hrelevant : h.isRelevant d l.path = true)
    (hgone : d.contains l.path = false) :
    (h.graph.isCyclic l = false → ∀ m, h.isMain m = true → h.graph.Reaches m l →
      d.contains m.path = true →
      ∃ x ∈ r.results, x.source = m.path ∧ (p.dryRun = false → x.isSkipped = false)) ∧
    (h.graph.isCyclic l = true → ∀ m, (∃ x ∈ r.results, x.source = m.path) ↔
      ∃ k ∈ files, k ≠ l ∧ Affects h h' d k m) := by
  obtain ⟨rfl, -⟩ := hreached.project
  have hresults : ∀ m, (∃ x ∈ r.results, x.source = m.path) ↔ ∃ k ∈ files, Affects h h' d k m :=
    fun m => handleChanges_results_of_failFast hreached.wellFormed hrebuilt hfail
  constructor
  · intro hcyclic m hmain hreaches hthere
    -- The importers are those of the graph before, as the new one does not know the file.
    have haffects : Affects h h' d l m :=
      (affects_of_removed hrelevant hgone).mpr ⟨hcyclic, hmain, hthere, hreaches⟩
    obtain ⟨x, hx, hxm⟩ := (hresults m).mpr ⟨l, hl, haffects⟩
    exact ⟨x, hx, hxm, fun hdry => handleChanges_skips_nothing hdry hrebuilt x hx⟩
  · intro hcyclic m
    -- The removed file itself calls for nothing.
    have hnone : ¬ Affects h h' d l m := by
      rw [affects_of_removed hrelevant hgone, hcyclic]
      exact fun haffects => Bool.noConfusion haffects.1
    rw [hresults]
    constructor
    · rintro ⟨k, hk, haffects⟩
      refine ⟨k, hk, ?_, haffects⟩
      rintro rfl
      exact hnone haffects
    · rintro ⟨k, hk, -, haffects⟩
      exact ⟨k, hk, haffects⟩

/-- The source that imported a removed library file is compiled. -/
theorem handleChanges_removed_layered : ∃ d' r,
    (layeredHandler frontX).handleChanges blankCompiler (layeredDisk "") [frontX]
      = (layeredHandler backX, d', .ok (.rebuilt r)) ∧
    ∃ x ∈ r.results, x.source = pairA.path ∧ x.isSkipped = false := by
  have hsources : (layeredHandler backX).sourcesForAll (layeredDisk "") []
      ((layeredHandler frontX).changesOf (layeredDisk "") [] [frontX]) = .ok [pairA] := by
    decide +kernel
  have hrebuilt := handleChanges_eq_rebuilt (c := blankCompiler)
    (r := ⟨[⟨pairA.path, ⟨"/css/a.css"⟩, .success⟩]⟩) index_layeredDisk (by decide +kernel)
    hsources (by decide +kernel)
  have hreaches : (layeredHandler frontX).graph.Reaches pairA frontX :=
    Relation.TransGen.single (by decide +kernel)
  obtain ⟨hcompiled, -⟩ := handleChanges_removed reached_layered hrebuilt rfl
    (List.mem_singleton_self frontX) (by decide +kernel) (by decide +kernel)
  obtain ⟨x, hx, hxa, hskipped⟩ := hcompiled (by decide +kernel) pairA (by decide +kernel) hreaches
    (by decide +kernel)
  exact ⟨_, _, hrebuilt, x, hx, hxa, hskipped rfl⟩

/-- A library file that imports the source by which it is imported is removed, and the import leads
to a file of the second library directory now.  The batch is answered with a build that leaves the
source out. -/
theorem removed_cyclic_file_skipped : ∃ d' r,
    Reached loopHandler.pipeline loopHandler ∧
    loopHandler.handleChanges blankCompiler (layeredDisk "") [frontX]
      = (layeredHandler backX, d', .ok (.rebuilt r)) ∧
    loopHandler.pipeline.failFast = false ∧
    loopHandler.isRelevant (layeredDisk "") frontX.path = true ∧
    (layeredDisk "").contains frontX.path = false ∧
    loopHandler.isMain pairA = true ∧ loopHandler.graph.Reaches pairA frontX ∧
    (layeredDisk "").contains pairA.path = true ∧
    ∀ x ∈ r.results, x.source ≠ pairA.path := by
  have hreached : Reached loopHandler.pipeline loopHandler :=
    .of_index (h := pairHandler [⟨"one"⟩, ⟨"two"⟩] false) rfl index_loopBefore
  have hindex : loopHandler.index (layeredDisk "") = .ok (layeredHandler backX) :=
    (index_congr rfl rfl).trans index_layeredDisk
  have hsources : (layeredHandler backX).sourcesForAll (layeredDisk "") []
      (loopHandler.changesOf (layeredDisk "") [] [frontX]) = .ok [] := by
    decide +kernel
  have hrebuilt := handleChanges_eq_rebuilt (c := blankCompiler) (r := ⟨[]⟩) hindex
    (by decide +kernel) hsources (by decide +kernel)
  have hreaches : loopHandler.graph.Reaches pairA frontX :=
    Relation.TransGen.single (by decide +kernel)
  exact ⟨_, _, hreached, hrebuilt, rfl, by decide +kernel, by decide +kernel, by decide +kernel,
    hreaches, by decide +kernel, fun x hx => absurd hx List.not_mem_nil⟩

end SheetGraph.WatchHandler
