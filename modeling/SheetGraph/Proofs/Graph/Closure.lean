import SheetGraph.Proofs.Graph.WellFormed

/-!
# Closures of a graph

A graph answers for all that a file imports, directly or through others, and for all that imports
it, from maps that are computed when files are added.  `run_closures` says that after any run of
calls the answers are those of the edges: `children` are the files that are reached, `parents` those
that reach it, and the only files without an answer are the cyclic ones, which reach themselves.

In a well-formed graph both closed maps hold the search for every file, indexed or not
(`WellFormed.targets_allImports`, `WellFormed.targets_allImporters`), and the importers are the
imports reversed, hence so are the paths along them (`WellFormed.importers_reaches_iff`).
-/

namespace SheetGraph.Graph

/-- `a` imports `b`, directly or through others. -/
def Reaches (g : Graph) : Location → Location → Prop :=
  Relation.TransGen fun a b => b ∈ g.directChildren a

variable {g : Graph} {a b l : Location} {ls : List Location}

/-! ### The closed maps -/

/-- The list of a file in a map that is computed file by file. -/
theorem targets_map (f : Location → List Location) (order : List Location) (l : Location) :
    (⟨order.map fun l => (l, f l)⟩ : EdgeMap).targets l = if l ∈ order then f l else [] := by
  rw [EdgeMap.targets]
  induction order with
  | nil => rfl
  | cons k order ih =>
    rw [List.map_cons, List.lookup_cons]
    by_cases hl : l = k
    · subst hl
      simp
    · have hlk : (l == k) = false := by simpa using hl
      rw [hlk, ih]
      simp [hl]

/-- Nothing can be reached from a file without targets. -/
theorem reachable_eq_nil {m : EdgeMap} (h : m.targets l = []) : m.reachable l = [] := by
  rw [List.eq_nil_iff_forall_not_mem]
  intro k hk
  have hreaches := EdgeMap.mem_reachable_iff.mp hk
  obtain ⟨x, hx, -⟩ := Relation.TransGen.head'_iff.mp hreaches
  rw [EdgeMap.Edge, h] at hx
  exact List.not_mem_nil hx

namespace WellFormed

variable (h : WellFormed g)
include h

theorem targets_allImports (l : Location) : g.allImports.targets l = g.imports.reachable l := by
  have hclosed : g.allImports = ⟨g.order.map fun l => (l, g.imports.reachable l)⟩ :=
    (congrArg allImports h.closed).symm
  rw [hclosed, targets_map]
  split
  · rfl
  · rename_i hl
    rw [← h.keys] at hl
    exact (reachable_eq_nil (EdgeMap.targets_of_notMem_keys hl)).symm

theorem targets_allImporters (l : Location) :
    g.allImporters.targets l = g.importers.reachable l := by
  have hclosed : g.allImporters = ⟨g.order.map fun l => (l, g.importers.reachable l)⟩ :=
    (congrArg allImporters h.closed).symm
  rw [hclosed, targets_map]
  split
  · rfl
  · rename_i hl
    -- Whoever imports a file has it indexed with itself.
    have hnone : g.importers.targets l = [] := by
      rw [h.importers, List.filter_eq_nil_iff]
      intro k _ hk
      exact hl (h.indexed k l (by simpa using hk))
    exact (reachable_eq_nil hnone).symm

theorem importers_edge_iff : g.importers.Edge a b ↔ g.imports.Edge b a := by
  rw [EdgeMap.Edge, EdgeMap.Edge, h.importers, List.mem_filter, decide_eq_true_iff]
  constructor
  · exact fun hb => hb.2
  · intro ha
    refine ⟨?_, ha⟩
    by_contra hb
    rw [← h.keys] at hb
    rw [EdgeMap.targets_of_notMem_keys hb] at ha
    exact List.not_mem_nil ha

/-- **The paths to importers are the paths along imports, reversed.** -/
theorem importers_reaches_iff : g.importers.Reaches a b ↔ g.Reaches b a := by
  have hedge : g.importers.Edge = Function.swap g.imports.Edge := by
    funext x y
    exact propext h.importers_edge_iff
  rw [EdgeMap.Reaches, hedge, Relation.transGen_swap]
  rfl

/-- **The cyclic files are those that reach themselves.** -/
theorem isCyclic_iff : g.isCyclic l = true ↔ g.Reaches l l := by
  have hclosed : g.cyclic = g.order.filter fun l => (g.imports.reachable l).contains l :=
    (congrArg cyclic h.closed).symm
  rw [isCyclic, List.contains_iff_mem, hclosed, List.mem_filter, List.contains_iff_mem,
    EdgeMap.mem_reachable_iff]
  constructor
  · exact fun hl => hl.2
  · intro hl
    refine ⟨?_, hl⟩
    obtain ⟨k, -, hk⟩ := Relation.TransGen.tail'_iff.mp hl
    exact h.indexed k l hk

theorem children_eq_ok_iff :
    g.children l = .ok ls ↔ g.isCyclic l = false ∧ ls = g.imports.reachable l := by
  rw [children, closure, h.targets_allImports]
  cases g.isCyclic l
  · simp [eq_comm]
  · simp

theorem parents_eq_ok_iff :
    g.parents l = .ok ls ↔ g.isCyclic l = false ∧ ls = g.importers.reachable l := by
  rw [parents, closure, h.targets_allImporters]
  cases g.isCyclic l
  · simp [eq_comm]
  · simp

theorem mem_of_parents_eq_ok (hparents : g.parents l = .ok ls) : b ∈ ls ↔ g.Reaches b l := by
  obtain ⟨-, rfl⟩ := h.parents_eq_ok_iff.mp hparents
  rw [EdgeMap.mem_reachable_iff, h.importers_reaches_iff]

end WellFormed

/-! ### Runs of calls -/

theorem closure_eq_error_iff {m : EdgeMap} {e : ImportError} :
    g.closure m l = .error e ↔ e = .circular l.path ∧ g.isCyclic l = true := by
  rw [closure]
  cases g.isCyclic l
  · simp
  · simp [eq_comm]

/-- **After any run of calls the closures are those of the edges**: the cyclic files are those that
reach themselves, they alone have no children and no parents to show, and the lists of the others
hold what they reach and what reaches them, each once; so two files that have lists agree on whether
one is in that of the other. -/
theorem run_closures (calls : List Call) (a b : Location) :
    ((empty.run calls).isCyclic a = true ↔ (empty.run calls).Reaches a a) ∧
    (∀ e, (empty.run calls).children a = .error e ↔
      e = .circular a.path ∧ (empty.run calls).isCyclic a = true) ∧
    (∀ e, (empty.run calls).parents a = .error e ↔
      e = .circular a.path ∧ (empty.run calls).isCyclic a = true) ∧
    ((empty.run calls).isCyclic a = false →
      ∃ down up, (empty.run calls).children a = .ok down ∧ (empty.run calls).parents a = .ok up ∧
        down.Nodup ∧ (∀ x, x ∈ down ↔ (empty.run calls).Reaches a x) ∧
        up.Nodup ∧ ∀ x, x ∈ up ↔ (empty.run calls).Reaches x a) ∧
    ∀ down up, (empty.run calls).children a = .ok down → (empty.run calls).parents b = .ok up →
      (b ∈ down ↔ a ∈ up) := by
  have h : WellFormed (empty.run calls) := wellFormed_empty.run calls
  refine ⟨h.isCyclic_iff, fun e => closure_eq_error_iff, fun e => closure_eq_error_iff, ?_, ?_⟩
  · intro hcyclic
    have hdown := h.children_eq_ok_iff.mpr ⟨hcyclic, rfl⟩
    have hup := h.parents_eq_ok_iff.mpr ⟨hcyclic, rfl⟩
    refine ⟨_, _, hdown, hup, EdgeMap.nodup_reachable _ _, ?_, EdgeMap.nodup_reachable _ _, ?_⟩
    · exact fun x => EdgeMap.mem_reachable_iff
    · exact fun x => h.mem_of_parents_eq_ok hup
  · intro down up hdown hup
    obtain ⟨-, rfl⟩ := h.children_eq_ok_iff.mp hdown
    rw [EdgeMap.mem_reachable_iff, h.mem_of_parents_eq_ok hup]
    rfl

end SheetGraph.Graph
