import Mathlib.Data.List.Nodup
import Mathlib.Data.List.Perm.Subperm
import Mathlib.Logic.Relation
import SheetGraph.Graph.EdgeMap

/-!
# Reachability by the edges of a map

`EdgeMap.Reaches m a b` says that `b` is at the end of one edge or more from `a`.  The breadth-first
search behind `EdgeMap.reachable` finds exactly these files (`mem_reachable_iff`), each once
(`nodup_reachable`).

Between two steps the search keeps `SearchInvariant`: what is found is reached, and whatever is
found and not in the queue any more has all its targets found.  A step takes one file off the queue
and puts as many on it as it finds, so the number of steps is bounded by the number of edges
(`search_spec`).  More steps change nothing (`search_add`), so what is found, and in which order,
depends on nothing but the lists of the files (`reachable_congr`).
-/

namespace SheetGraph.EdgeMap

variable {m : EdgeMap} {l k : Location} {ls : List Location}

/-! ### Lists of a map -/

/-- The files that have a list. -/
def keys (m : EdgeMap) : List Location :=
  m.pairs.map (·.1)

theorem contains_iff : m.contains l = true ↔ l ∈ m.keys := by
  simp [contains, keys]

theorem targets_of_notMem_keys (h : l ∉ m.keys) : m.targets l = [] := by
  have hnone : m.pairs.lookup l = none := by
    rw [List.lookup_eq_none_iff]
    intro p hp
    have hne : p.1 ≠ l := fun e => h (e ▸ List.mem_map_of_mem hp)
    simpa using hne.symm
  rw [targets, hnone, Option.getD_none]

/-- What is in some list is in one that is written in the map. -/
theorem mem_pairs_of_mem_targets (h : k ∈ m.targets l) : k ∈ m.pairs.flatMap (·.2) := by
  unfold targets at h
  cases hl : m.pairs.lookup l with
  | none => simp [hl] at h
  | some ks =>
    rw [hl, Option.getD_some] at h
    obtain ⟨before, after, hpairs, -⟩ := List.lookup_eq_some_iff.mp hl
    rw [hpairs]
    simp [h]

private theorem lookup_pair_cons (p : Location × List Location)
    (pairs : List (Location × List Location)) :
    (p :: pairs).lookup k = if k = p.1 then some p.2 else pairs.lookup k := by
  obtain ⟨j, ks⟩ := p
  rw [List.lookup_cons]
  by_cases hk : k = j
  · simp [hk]
  · have hkj : (k == j) = false := by simpa using hk
    rw [hkj, if_neg hk]

/-- Where a list is replaced, all other files keep theirs. -/
private theorem lookup_map_of_ne (pairs : List (Location × List Location)) (hk : k ≠ l) :
    (pairs.map fun p => if p.1 = l then (l, ls) else p).lookup k = pairs.lookup k := by
  induction pairs with
  | nil => rfl
  | cons p pairs ih =>
    rw [List.map_cons, lookup_pair_cons, lookup_pair_cons, ih]
    by_cases hp : p.1 = l
    · rw [if_pos hp, if_neg hk, if_neg (hp ▸ hk)]
    · rw [if_neg hp]

private theorem lookup_map_self (pairs : List (Location × List Location))
    (h : l ∈ pairs.map (·.1)) :
    (pairs.map fun p => if p.1 = l then (l, ls) else p).lookup l = some ls := by
  induction pairs with
  | nil => exact absurd h List.not_mem_nil
  | cons p pairs ih =>
    rw [List.map_cons, lookup_pair_cons]
    by_cases hp : p.1 = l
    · rw [if_pos hp, if_pos rfl]
    · have hlp : l ≠ p.1 := Ne.symm hp
      rw [if_neg hp, if_neg hlp]
      exact ih (by simpa [hlp] using h)

private theorem lookup_append_new (pairs : List (Location × List Location))
    (h : l ∉ pairs.map (·.1)) :
    (pairs ++ [(l, ls)]).lookup k = if k = l then some ls else pairs.lookup k := by
  induction pairs with
  | nil => rw [List.nil_append, lookup_pair_cons]
  | cons p pairs ih =>
    simp only [List.map_cons, List.mem_cons, not_or] at h
    rw [List.cons_append, lookup_pair_cons, lookup_pair_cons, ih h.2]
    by_cases hk : k = l
    · rw [if_pos hk, if_pos hk, if_neg (hk ▸ h.1)]
    · rw [if_neg hk, if_neg hk]

/-- **Only the list of the given file changes.** -/
theorem targets_insert : (m.insert l ls).targets k = if k = l then ls else m.targets k := by
  have hlookup : (m.insert l ls).pairs.lookup k = if k = l then some ls else m.pairs.lookup k := by
    unfold insert
    split
    · rename_i hc
      by_cases hk : k = l
      · rw [if_pos hk, hk]
        exact lookup_map_self m.pairs (contains_iff.mp hc)
      · rw [if_neg hk]
        exact lookup_map_of_ne m.pairs hk
    · rename_i hc
      exact lookup_append_new m.pairs fun h => hc (contains_iff.mpr h)
  rw [targets, hlookup]
  split
  · rfl
  · rfl

theorem targets_addTarget {target : Location} :
    (m.addTarget l target).targets k
      = if k = l then collect (m.targets l) [target] else m.targets k :=
  targets_insert

theorem keys_insert_of_notMem (h : l ∉ m.keys) : (m.insert l ls).keys = m.keys ++ [l] := by
  have hc : m.contains l = false := by
    rw [Bool.eq_false_iff]
    exact fun hc => h (contains_iff.mp hc)
  simp [insert, hc, keys]

theorem keys_insert_of_mem (h : l ∈ m.keys) : (m.insert l ls).keys = m.keys := by
  rw [insert, if_pos (contains_iff.mpr h), keys, keys, List.map_map]
  refine List.map_congr_left fun p _ => ?_
  by_cases hp : p.1 = l
  · simp [hp]
  · simp [hp]

theorem contains_insert :
    (m.insert l ls).contains k = true ↔ m.contains k = true ∨ k = l := by
  rw [contains_iff, contains_iff]
  by_cases hl : l ∈ m.keys
  · rw [keys_insert_of_mem hl]
    constructor
    · exact Or.inl
    · rintro (hk | rfl)
      · exact hk
      · exact hl
  · rw [keys_insert_of_notMem hl, List.mem_append, List.mem_singleton]

/-! ### Edges and paths -/

/-- There is an edge from `a` to `b`. -/
def Edge (m : EdgeMap) (a b : Location) : Prop :=
  b ∈ m.targets a

/-- `b` is at the end of one edge or more from `a`. -/
def Reaches (m : EdgeMap) : Location → Location → Prop :=
  Relation.TransGen m.Edge

/-! ### The search -/

/-- What the search from `start` keeps. -/
structure SearchInvariant (m : EdgeMap) (start : Location) (queue found : List Location) :
    Prop where
  /-- Nothing is found twice. -/
  nodup : found.Nodup
  /-- What is found is reached. -/
  sound : ∀ x ∈ found, m.Reaches start x
  /-- What is in the queue is the start or has been found. -/
  pending : ∀ x ∈ queue, x = start ∨ x ∈ found
  /-- What has left the queue has all its targets found. -/
  done : ∀ x, x = start ∨ x ∈ found → x ∈ queue ∨ ∀ y ∈ m.targets x, y ∈ found

namespace SearchInvariant

variable {start : Location} {queue found : List Location}

theorem init (m : EdgeMap) (start : Location) : SearchInvariant m start [start] [] where
  nodup := List.nodup_nil
  sound := by simp
  pending := by simp
  done := by simp

theorem reaches_of_mem (h : SearchInvariant m start queue found) {x y : Location} (hx : x ∈ queue)
    (hy : y ∈ m.targets x) : m.Reaches start y := by
  rcases h.pending x hx with rfl | hf
  · exact Relation.TransGen.single hy
  · exact (h.sound x hf).tail hy

/-- **A step keeps the invariant**: the first file leaves the queue, and its targets that are new
are found and join the queue. -/
theorem step (h : SearchInvariant m start (l :: queue) found) :
    SearchInvariant m start (queue ++ (collect found (m.targets l)).drop found.length)
      (collect found (m.targets l)) := by
  obtain ⟨new, hnew⟩ := prefix_collect found (m.targets l)
  have hdrop : (collect found (m.targets l)).drop found.length = new := by
    rw [← hnew, List.drop_left]
  rw [hdrop]
  refine ⟨nodup_collect _ h.nodup, ?_, ?_, ?_⟩
  · intro x hx
    rcases mem_collect.mp hx with hx | hx
    · exact h.sound x hx
    · exact h.reaches_of_mem List.mem_cons_self hx
  · intro x hx
    rcases List.mem_append.mp hx with hx | hx
    · rcases h.pending x (List.mem_cons_of_mem _ hx) with hx | hx
      · exact Or.inl hx
      · exact Or.inr (mem_collect.mpr (Or.inl hx))
    · right
      rw [← hnew]
      exact List.mem_append_right _ hx
  · intro x hx
    -- `x` is new and joins the queue, or it was there before.
    have hold : (x = start ∨ x ∈ found) ∨ x ∈ new := by
      rcases hx with hx | hx
      · exact Or.inl (Or.inl hx)
      · rw [← hnew] at hx
        rcases List.mem_append.mp hx with hx | hx
        · exact Or.inl (Or.inr hx)
        · exact Or.inr hx
    rcases hold with hold | hx
    · rcases h.done x hold with hq | hdone
      · rcases List.mem_cons.mp hq with rfl | hq
        · exact Or.inr fun y hy => mem_collect.mpr (Or.inr hy)
        · exact Or.inl (List.mem_append_left _ hq)
      · exact Or.inr fun y hy => mem_collect.mpr (Or.inl (hdone y hy))
    · exact Or.inl (List.mem_append_right _ hx)

/-- What is found fits into the lists of the map. -/
theorem length_found_le (h : SearchInvariant m start queue found) : found.length ≤ m.edgeCount := by
  have hsub : found ⊆ m.pairs.flatMap (·.2) := by
    intro x hx
    obtain ⟨y, -, hy⟩ := (Relation.TransGen.tail'_iff.mp (h.sound x hx))
    exact mem_pairs_of_mem_targets hy
  exact (List.subperm_of_subset h.nodup hsub).length_le

/-- A search with an empty queue has found all that is reached. -/
theorem mem_of_reaches (h : SearchInvariant m start [] found) {x : Location}
    (hx : m.Reaches start x) : x ∈ found := by
  have hclosed : ∀ y, y = start ∨ y ∈ found → ∀ z ∈ m.targets y, z ∈ found := by
    intro y hy
    rcases h.done y hy with hq | hdone
    · exact absurd hq List.not_mem_nil
    · exact hdone
  induction hx with
  | single hedge => exact hclosed start (Or.inl rfl) _ hedge
  | tail _ hedge ih => exact hclosed _ (Or.inr ih) _ hedge

end SearchInvariant

/-- With enough steps the search ends in a state with an empty queue. -/
theorem search_spec {start : Location} : ∀ (steps : Nat) (queue found : List Location),
    SearchInvariant m start queue found →
      queue.length + (m.edgeCount - found.length) ≤ steps →
      SearchInvariant m start [] (m.search steps queue found) := by
  intro steps
  induction steps with
  | zero =>
    intro queue found h hsteps
    have hq : queue = [] := List.length_eq_zero_iff.mp (by omega)
    subst hq
    exact h
  | succ steps ih =>
    intro queue found h hsteps
    cases queue with
    | nil => exact h
    | cons l queue =>
      rw [search]
      refine ih _ _ h.step ?_
      have hle := h.step.length_found_le
      have hlen := (prefix_collect found (m.targets l)).length_le
      rw [List.length_append, List.length_drop]
      rw [List.length_cons] at hsteps
      omega

theorem searchInvariant_reachable (m : EdgeMap) (l : Location) :
    SearchInvariant m l [] (m.reachable l) :=
  search_spec _ _ _ (SearchInvariant.init m l) (by simp; omega)

/-- **The search finds exactly what is reached.** -/
theorem mem_reachable_iff : k ∈ m.reachable l ↔ m.Reaches l k :=
  ⟨(searchInvariant_reachable m l).sound k, (searchInvariant_reachable m l).mem_of_reaches⟩

/-- **The search finds nothing twice.** -/
theorem nodup_reachable (m : EdgeMap) (l : Location) : (m.reachable l).Nodup :=
  (searchInvariant_reachable m l).nodup

/-! ### Searches of two maps -/

theorem search_nil (steps : Nat) (found : List Location) : m.search steps [] found = found := by
  cases steps <;> rfl

/-- More steps than enough find nothing more. -/
theorem search_add {start : Location} (extra : Nat) : ∀ (steps : Nat) (queue found : List Location),
    SearchInvariant m start queue found →
      queue.length + (m.edgeCount - found.length) ≤ steps →
      m.search (steps + extra) queue found = m.search steps queue found := by
  intro steps
  induction steps with
  | zero =>
    intro queue found h hsteps
    have hq : queue = [] := List.length_eq_zero_iff.mp (by omega)
    rw [hq, search_nil, search_nil]
  | succ steps ih =>
    intro queue found h hsteps
    cases queue with
    | nil => rw [search_nil, search_nil]
    | cons l queue =>
      rw [show steps + 1 + extra = steps + extra + 1 by omega, search, search]
      apply ih _ _ h.step
      have hle := h.step.length_found_le
      have hlen := (prefix_collect found (m.targets l)).length_le
      rw [List.length_append, List.length_drop]
      rw [List.length_cons] at hsteps
      omega

theorem search_congr {m' : EdgeMap} (h : ∀ l, m.targets l = m'.targets l) (steps : Nat)
    (queue found : List Location) : m.search steps queue found = m'.search steps queue found := by
  induction steps generalizing queue found with
  | zero => rfl
  | succ steps ih =>
    cases queue with
    | nil => rfl
    | cons l queue =>
      rw [search, search, h]
      exact ih _ _

/-- **What is found depends on the lists of the files alone**, and so does its order. -/
theorem reachable_congr {m' : EdgeMap} (h : ∀ l, m.targets l = m'.targets l) (l : Location) :
    m.reachable l = m'.reachable l := by
  -- The maps may be written differently, so the searches are given the same number of steps first.
  have hsteps : ∀ m m' : EdgeMap,
      m.reachable l = m.search (m.edgeCount + 1 + m'.edgeCount) [l] [] := by
    intro m m'
    exact (search_add _ _ _ _ (SearchInvariant.init m l) (by simp; omega)).symm
  rw [hsteps m m', hsteps m' m, search_congr h]
  congr 1
  omega

end SheetGraph.EdgeMap
