import Mathlib.Order.Lattice.Nat
import SheetGraph.Proofs.Graph.Closure
import SheetGraph.Proofs.Graph.History

/-!
# Closures are in breadth-first order

The order of a closure is that of a breadth-first search.  `run_breadthFirst` says what this means
after any run of calls: nearer files come before those farther away, where the distance is the least
number of imports on the way (`EdgeMap.distance`); and files that are first found from the same file
(`EdgeMap.discoverer`) come in the order of its list.

Both follow from one equation.  The search leaves its start first and then the files in the order in
which it has found them, and it finds the targets of the files in the order in which it leaves them
(`SearchOrder`), so that what it finds is a fixed point (`reachable_eq`):

    m.reachable l = collect [] ((l :: m.reachable l).flatMap m.targets)

Of two targets of which the second is found later, the first has a file that leads to it and that
leaves the queue no later than any file that leads to the second (`exists_before_of_before`).  By
induction on the number of edges the first is not farther away (`exists_steps_of_before`).
-/

namespace SheetGraph

namespace EdgeMap

variable {m : EdgeMap} {start l x y z u : Location} {n : Nat}

/-! ### Paths of a given length -/

/-- There is a path of `n` edges from `a` to `b`. -/
def Steps (m : EdgeMap) : (n : Nat) → (a b : Location) → Prop
  | 0, a, b => a = b
  | n + 1, a, b => ∃ c, m.Steps n a c ∧ m.Edge c b

theorem steps_succ_iff_head {a b : Location} :
    m.Steps (n + 1) a b ↔ ∃ c, m.Edge a c ∧ m.Steps n c b := by
  induction n generalizing b with
  | zero =>
    constructor
    · rintro ⟨c, rfl, hedge⟩
      exact ⟨b, hedge, rfl⟩
    · rintro ⟨c, hedge, rfl⟩
      exact ⟨a, rfl, hedge⟩
  | succ n ih =>
    constructor
    · rintro ⟨c, hsteps, hedge⟩
      obtain ⟨k, hk, hrest⟩ := ih.mp hsteps
      exact ⟨k, hk, c, hrest, hedge⟩
    · rintro ⟨k, hk, c, hrest, hedge⟩
      exact ⟨c, ih.mpr ⟨k, hk, hrest⟩, hedge⟩

/-- **Paths can be walked backwards** in a map whose edges are reversed. -/
theorem steps_swap {m' : EdgeMap} (h : ∀ a b, m'.Edge a b ↔ m.Edge b a) (a b : Location) :
    m'.Steps n a b ↔ m.Steps n b a := by
  induction n generalizing a with
  | zero => exact eq_comm
  | succ n ih =>
    rw [steps_succ_iff_head]
    constructor
    · rintro ⟨c, hedge, hsteps⟩
      exact ⟨c, (ih c).mp hsteps, (h a c).mp hedge⟩
    · rintro ⟨c, hsteps, hedge⟩
      exact ⟨c, (h a c).mpr hedge, (ih c).mpr hsteps⟩

/-- **What is reached is so by some number of edges.** -/
theorem exists_steps_of_reaches {a b : Location} (h : m.Reaches a b) :
    ∃ n, m.Steps n a b := by
  induction h with
  | single hedge => exact ⟨1, a, rfl, hedge⟩
  | tail _ hedge ih =>
    obtain ⟨n, hsteps⟩ := ih
    exact ⟨n + 1, _, hsteps, hedge⟩

/-- What is at the end of a path is its start or is found by the search. -/
theorem mem_cons_reachable_of_steps (h : m.Steps n l x) : x ∈ l :: m.reachable l := by
  induction n generalizing x with
  | zero => exact h ▸ List.mem_cons_self
  | succ n ih =>
    obtain ⟨c, hsteps, hedge⟩ := h
    rw [List.mem_cons, mem_reachable_iff]
    right
    rcases List.mem_cons.mp (ih hsteps) with rfl | hc
    · exact Relation.TransGen.single hedge
    · exact (mem_reachable_iff.mp hc).tail hedge

/-! ### The order of the search -/

/-- What the search keeps besides what it has found: the files that have left the queue, in the
order in which they have. -/
structure SearchOrder (m : EdgeMap) (start : Location) (left queue found : List Location) :
    Prop where
  /-- Files leave the queue in the order in which they are found, the start first. -/
  queued : start :: found = left ++ queue
  /-- The targets of a file are found when it leaves the queue. -/
  found : found = collect [] (left.flatMap m.targets)

variable {left queue found : List Location}

theorem SearchOrder.step (h : SearchOrder m start left (l :: queue) found) :
    SearchOrder m start (left ++ [l])
      (queue ++ (collect found (m.targets l)).drop found.length)
      (collect found (m.targets l)) where
  queued := by
    obtain ⟨new, hnew⟩ := prefix_collect found (m.targets l)
    rw [← hnew, List.drop_left, ← List.cons_append, h.queued]
    simp
  found := by
    rw [List.flatMap_append, List.flatMap_singleton, collect_append, ← h.found]

/-- With enough steps the search leaves all that it finds. -/
theorem exists_searchOrder : ∀ (steps : Nat) (left queue found : List Location),
    SearchInvariant m start queue found → SearchOrder m start left queue found →
      queue.length + (m.edgeCount - found.length) ≤ steps →
      ∃ left', SearchOrder m start left' [] (m.search steps queue found) := by
  intro steps
  induction steps with
  | zero =>
    intro left queue found _ horder hsteps
    have hq : queue = [] := List.length_eq_zero_iff.mp (by omega)
    subst hq
    exact ⟨left, horder⟩
  | succ steps ih =>
    intro left queue found h horder hsteps
    cases queue with
    | nil => exact ⟨left, horder⟩
    | cons l queue =>
      rw [search]
      refine ih _ _ _ h.step horder.step ?_
      have hle := h.step.length_found_le
      have hlen := (prefix_collect found (m.targets l)).length_le
      rw [List.length_append, List.length_drop]
      rw [List.length_cons] at hsteps
      omega

/-- **What is found is the targets of the start and of what is found**, each at its first
occurrence. -/
theorem reachable_eq (m : EdgeMap) (l : Location) :
    m.reachable l = collect [] ((l :: m.reachable l).flatMap m.targets) := by
  have hinit : SearchOrder m l [] [l] [] := ⟨rfl, rfl⟩
  obtain ⟨left, horder⟩ := exists_searchOrder (m.edgeCount + 1) [] [l] []
    (SearchInvariant.init m l) hinit (by simp; omega)
  have hleft : l :: m.reachable l = left := by
    rw [← List.append_nil left]
    exact horder.queued
  rw [hleft]
  exact horder.found

/-! ### Distances -/

private theorem before_of_mem_prefix {front list : List Location} (hnodup : list.Nodup)
    (hfront : front <+: list) (hy : y ∈ front) (hxy : [x, y].Sublist list) : x ∈ front := by
  obtain ⟨back, rfl⟩ := hfront
  obtain ⟨-, -, hdisjoint⟩ := List.nodup_append.mp hnodup
  obtain ⟨one, two, hcut, hone, htwo⟩ := List.sublist_append_iff.mp hxy
  -- Were `x` behind the front, so would `y` be.
  cases one with
  | nil =>
    rw [List.nil_append] at hcut
    have hback : y ∈ back := htwo.subset (hcut ▸ by simp)
    exact absurd rfl (hdisjoint y hy y hback)
  | cons a one =>
    have ha : x = a := (List.cons.inj hcut).1
    exact ha ▸ hone.subset List.mem_cons_self

/-- **Files are found no later than the files behind them**: where a path leads to a file over `z`,
there is a file that leads to any file before it and that is `z` or comes before `z`. -/
theorem exists_before_of_before (hxy : [x, y].Sublist (m.reachable l)) (hz : z ∈ l :: m.reachable l)
    (hedge : m.Edge z y) :
    ∃ c, (c = z ∨ [c, z].Sublist (l :: m.reachable l)) ∧ m.Edge c x := by
  obtain ⟨before, after, hcut⟩ := List.append_of_mem hz
  -- What is found from `z` and the files before it comes first in the list.
  have hfront : collect [] ((before ++ [z]).flatMap m.targets) <+: m.reachable l := by
    have hreachable : m.reachable l
        = collect (collect [] ((before ++ [z]).flatMap m.targets)) (after.flatMap m.targets) := by
      rw [reachable_eq m l, hcut, ← collect_append, ← List.flatMap_append, List.append_assoc,
        List.singleton_append]
    rw [hreachable]
    exact prefix_collect _ _
  have hy : y ∈ collect [] ((before ++ [z]).flatMap m.targets) := by
    rw [mem_collect, List.mem_flatMap]
    exact Or.inr ⟨z, by simp, hedge⟩
  have hx := before_of_mem_prefix (nodup_reachable m l) hfront hy hxy
  rw [mem_collect, List.mem_flatMap] at hx
  obtain ⟨c, hc, hcx⟩ := hx.resolve_left List.not_mem_nil
  refine ⟨c, ?_, hcx⟩
  rcases List.mem_append.mp hc with hc | hc
  · right
    rw [hcut]
    exact (List.singleton_sublist.mpr hc).append (List.singleton_sublist.mpr List.mem_cons_self)
  · exact Or.inl (List.mem_singleton.mp hc)

/-- **What is before a file is not farther away.** -/
theorem exists_steps_of_before (hl : l ∉ m.reachable l)
    (hxy : [x, y].Sublist (l :: m.reachable l)) (h : m.Steps n l y) :
    ∃ k ≤ n, m.Steps k l x := by
  induction n generalizing x y with
  | zero =>
    -- Nothing is before the start, which the search does not find.
    obtain rfl : l = y := h
    have hmem : l ∈ m.reachable l := by
      cases hxy with
      | cons _ hsub => exact hsub.subset (by simp)
      | cons_cons _ hsub => exact hsub.subset (by simp)
    exact absurd hmem hl
  | succ n ih =>
    obtain ⟨z, hsteps, hedge⟩ := h
    cases hxy with
    | cons_cons _ _ => exact ⟨0, Nat.zero_le _, rfl⟩
    | cons _ hsub =>
      have hz := mem_cons_reachable_of_steps hsteps
      obtain ⟨c, rfl | hcz, hcx⟩ := exists_before_of_before hsub hz hedge
      · exact ⟨n + 1, Nat.le_refl _, c, hsteps, hcx⟩
      · obtain ⟨k, hk, hsteps'⟩ := ih hcz hsteps
        exact ⟨k + 1, Nat.succ_le_succ hk, c, hsteps', hcx⟩

/-- The least number of edges from `a` to `b`, where there is a path. -/
noncomputable def distance (m : EdgeMap) (a b : Location) : Nat :=
  sInf { n | m.Steps n a b }

/-- The distance to what is reached is the length of a path, and of a shortest one. -/
theorem isLeast_distance (h : m.Reaches l x) :
    IsLeast { n | m.Steps n l x } (m.distance l x) :=
  ⟨Nat.sInf_mem (exists_steps_of_reaches h), fun _ hn => Nat.sInf_le hn⟩

/-- **Nearer files come first.** -/
theorem pairwise_distance_reachable (hl : l ∉ m.reachable l) :
    (m.reachable l).Pairwise fun x y => m.distance l x ≤ m.distance l y := by
  rw [List.pairwise_iff_forall_sublist]
  intro x y hxy
  have hy : m.Reaches l y := mem_reachable_iff.mp (hxy.subset (by simp))
  obtain ⟨k, hk, hsteps⟩ := exists_steps_of_before hl (hxy.trans (List.sublist_cons_self _ _))
    (isLeast_distance hy).1
  exact (Nat.sInf_le hsteps).trans hk

/-! ### First discovery -/

/-- The file that `x` is first found from when `start` and then the files of the list are left in
turn: the first of them that has an edge to it. -/
def discoverer (m : EdgeMap) (start : Location) (list : List Location) (x : Location) :
    Option Location :=
  (start :: list).find? (x ∈ m.targets ·)

/-- **Everything that is found is found from some file.** -/
theorem exists_discoverer (hx : x ∈ m.reachable l) :
    ∃ u, m.discoverer l (m.reachable l) x = some u := by
  rw [reachable_eq m l, mem_collect, List.mem_flatMap] at hx
  obtain ⟨u, hu, hedge⟩ := hx.resolve_left List.not_mem_nil
  rw [← Option.isSome_iff_exists, discoverer, List.find?_isSome]
  exact ⟨u, hu, by simpa using hedge⟩

private theorem find?_append_cons_iff {p : Location → Bool} {before after : List Location}
    (hp : p u = true) (hu : u ∉ before) :
    (before ++ u :: after).find? p = some u ↔ ∀ c ∈ before, p c = false := by
  rw [List.find?_append, List.find?_cons_of_pos hp]
  constructor
  · intro hfind c hc
    by_contra hpc
    -- The search of the list would stop at `c` or before it.
    obtain ⟨c', hc'⟩ := Option.isSome_iff_exists.mp
      (List.find?_isSome.mpr ⟨c, hc, (Bool.not_eq_false _).mp hpc⟩)
    rw [hc', Option.some_or] at hfind
    exact hu (Option.some.inj hfind ▸ List.mem_of_find?_eq_some hc')
  · intro hnone
    rw [List.find?_eq_none.mpr (by simpa using hnone), Option.none_or]

/-- **What is first found from one file stands together**, in the order of the file's own list. -/
theorem infix_filter_discoverer (hnodup : (m.targets u).Nodup) (hu : u ∈ l :: m.reachable l) :
    (m.targets u).filter (m.discoverer l (m.reachable l) · = some u) <:+: m.reachable l := by
  obtain ⟨before, after, hcut, hfirst⟩ := List.eq_append_cons_of_mem hu
  -- This is what the search has found when `u` leaves the queue.
  let known := collect [] (before.flatMap m.targets)
  have hdiscoverer : ∀ x ∈ m.targets u,
      (m.discoverer l (m.reachable l) x = some u ↔ x ∉ known) := by
    intro x hx
    rw [discoverer, hcut, find?_append_cons_iff (by simpa using hx) hfirst]
    simp [known, mem_collect]
  have hnew : (m.targets u).filter (m.discoverer l (m.reachable l) · = some u)
      = (m.targets u).filter (· ∉ known) :=
    List.filter_congr fun x hx => by simp only [hdiscoverer x hx]
  have hreachable : m.reachable l
      = collect (collect known (m.targets u)) (after.flatMap m.targets) := by
    rw [reachable_eq m l, hcut, List.flatMap_append, List.flatMap_cons, collect_append,
      collect_append]
  have hfront := prefix_collect (collect known (m.targets u)) (after.flatMap m.targets)
  rw [hnew, hreachable]
  rw [collect_of_nodup hnodup] at hfront ⊢
  exact (List.suffix_append _ _).isInfix.trans hfront.isInfix

/-- **Files that are first found from one file come in the order of its list.** -/
theorem filter_discoverer (hnodup : (m.targets u).Nodup) :
    (m.reachable l).filter (m.discoverer l (m.reachable l) · = some u)
      = (m.targets u).filter (m.discoverer l (m.reachable l) · = some u) := by
  by_cases hu : u ∈ l :: m.reachable l
  · have hsub := (infix_filter_discoverer hnodup hu).sublist.filter
      (m.discoverer l (m.reachable l) · = some u)
    simp only [List.filter_filter, Bool.and_self] at hsub
    have hsubset : (m.reachable l).filter (m.discoverer l (m.reachable l) · = some u)
        ⊆ (m.targets u).filter (m.discoverer l (m.reachable l) · = some u) := by
      intro x hx
      have hfound : m.discoverer l (m.reachable l) x = some u := by
        simpa using (List.mem_filter.mp hx).2
      have hedge : x ∈ m.targets u := by simpa using List.find?_some hfound
      exact List.mem_filter.mpr ⟨hedge, by simpa using hfound⟩
    have hlength := (List.subperm_of_subset ((nodup_reachable m l).filter _) hsubset).length_le
    exact (hsub.eq_of_length_le hlength).symm
  · have hnone : ∀ x, m.discoverer l (m.reachable l) x ≠ some u :=
      fun x hx => hu (List.mem_of_find?_eq_some hx)
    simp [hnone]

/-! ### Breadth-first lists -/

/-- The list is what `start` reaches, in breadth-first order. -/
structure BreadthFirst (m : EdgeMap) (start : Location) (list : List Location) : Prop where
  /-- Nothing is listed twice. -/
  nodup : list.Nodup
  /-- What is listed is what is reached. -/
  mem_iff : ∀ x, x ∈ list ↔ m.Reaches start x
  /-- The distance to a listed file is the least number of edges. -/
  isLeast : ∀ x ∈ list, IsLeast { n | m.Steps n start x } (m.distance start x)
  /-- Nearer files come first. -/
  nearest : list.Pairwise fun x y => m.distance start x ≤ m.distance start y
  /-- Every listed file is found from the start or from another. -/
  discovered : ∀ x ∈ list, ∃ u, m.discoverer start list x = some u
  /-- Files that are first found from one file come in the order of its list. -/
  ordered : ∀ u, list.filter (m.discoverer start list · = some u)
    = (m.targets u).filter (m.discoverer start list · = some u)

/-- **The search lists what it finds in breadth-first order**, from a start that it does not find
again. -/
theorem breadthFirst_reachable (hnodup : ∀ u, (m.targets u).Nodup) (hl : l ∉ m.reachable l) :
    BreadthFirst m l (m.reachable l) where
  nodup := nodup_reachable m l
  mem_iff _ := mem_reachable_iff
  isLeast _ hx := isLeast_distance (mem_reachable_iff.mp hx)
  nearest := pairwise_distance_reachable hl
  discovered _ hx := exists_discoverer hx
  ordered u := filter_discoverer (hnodup u)

end EdgeMap

namespace Graph

/-- **After any run of calls the closures are in breadth-first order**, those along imports and
those against them: `children` from the file by its imports, each file's in the order in which they
were read when it was indexed; `parents` from the file by its importers, each file's in the order of
indexing.  The distance is the same in both directions. -/
theorem run_breadthFirst (calls : List Call) (l : Location)
    (hl : (empty.run calls).isCyclic l = false) :
    ∃ down up, (empty.run calls).children l = .ok down ∧ (empty.run calls).parents l = .ok up ∧
      (empty.run calls).imports.BreadthFirst l down ∧
      (empty.run calls).importers.BreadthFirst l up ∧
      (∀ x, (empty.run calls).importers.distance l x = (empty.run calls).imports.distance x l) ∧
      (∀ u ∈ (empty.run calls).order, ∃ d libraries files, IndexedBy calls u d libraries files ∧
        readImports d (libraries.map d.locate) u = .ok ((empty.run calls).imports.targets u)) ∧
      ∀ u, (empty.run calls).importers.targets u
        = (empty.run calls).order.filter (u ∈ (empty.run calls).imports.targets ·) := by
  have h : WellFormed (empty.run calls) := wellFormed_empty.run calls
  -- A file that is in no cycle is not reached from itself, so neither search comes back to it.
  have hacyclic : ¬ (empty.run calls).Reaches l l := by
    rw [← h.isCyclic_iff, hl]
    exact Bool.false_ne_true
  have hdown : l ∉ (empty.run calls).imports.reachable l :=
    fun hmem => hacyclic (EdgeMap.mem_reachable_iff.mp hmem)
  have hup : l ∉ (empty.run calls).importers.reachable l :=
    fun hmem => hacyclic (h.importers_reaches_iff.mp (EdgeMap.mem_reachable_iff.mp hmem))
  have hnodup : ∀ u, ((empty.run calls).importers.targets u).Nodup := by
    intro u
    rw [h.importers]
    exact h.nodup.filter _
  refine ⟨_, _, h.children_eq_ok_iff.mpr ⟨hl, rfl⟩, h.parents_eq_ok_iff.mpr ⟨hl, rfl⟩,
    EdgeMap.breadthFirst_reachable h.nodup_targets hdown,
    EdgeMap.breadthFirst_reachable hnodup hup, ?_, ?_, h.importers⟩
  · intro x
    have hswap : { n | (empty.run calls).importers.Steps n l x }
        = { n | (empty.run calls).imports.Steps n x l } :=
      Set.ext fun n => EdgeMap.steps_swap (fun _ _ => h.importers_edge_iff) l x
    exact congrArg sInf hswap
  · exact fun u hu => exists_indexedBy calls hu

/-! ### A shared file above a cycle -/

/-- The first file that is given. -/
def fanMain : Location := Location.root.entry ⟨"fan.scss", by decide⟩

/-- The file that it imports first. -/
def fanA : Location := Location.root.entry ⟨"_a.scss", by decide⟩

/-- The file that is imported by the first import, and that imports it in turn. -/
def fanB : Location := Location.root.entry ⟨"_b.scss", by decide⟩

/-- The file that it imports second. -/
def fanC : Location := Location.root.entry ⟨"_c.scss", by decide⟩

/-- A disk with the four files. -/
def fanDisk : Disk where
  tree := (((FileTree.empty.put fanMain (.file "@import 'a', 'c';\n".toUTF8)).put fanA
    (.file "@import 'b';\n".toUTF8)).put fanB (.file "@import 'a';\n".toUTF8)).put fanC
    (.file "".toUTF8)
  cwd := .root

/-- The files are indexed depth first and listed breadth first: the second import of the first file
comes before what its first import imports. -/
theorem run_breadthFirst_fan :
    (empty.run [.inspect fanDisk [] [fanMain.path]]).isCyclic fanMain = false ∧
    (empty.run [.inspect fanDisk [] [fanMain.path]]).isCyclic fanA = true ∧
    (empty.run [.inspect fanDisk [] [fanMain.path]]).order = [fanMain, fanA, fanB, fanC] ∧
    (empty.run [.inspect fanDisk [] [fanMain.path]]).children fanMain = .ok [fanA, fanC, fanB] ∧
    (empty.run [.inspect fanDisk [] [fanMain.path]]).imports.BreadthFirst fanMain
      [fanA, fanC, fanB] := by
  -- The graph is evaluated once for all that is read off it.
  have hgraph : (empty.run [.inspect fanDisk [] [fanMain.path]]).isCyclic fanMain = false ∧
      (empty.run [.inspect fanDisk [] [fanMain.path]]).isCyclic fanA = true ∧
      (empty.run [.inspect fanDisk [] [fanMain.path]]).order = [fanMain, fanA, fanB, fanC] ∧
      (empty.run [.inspect fanDisk [] [fanMain.path]]).children fanMain
        = .ok [fanA, fanC, fanB] := by
    decide +kernel
  obtain ⟨hacyclic, hcyclic, horder, hchildren⟩ := hgraph
  obtain ⟨down, up, hdown, -, hfirst, -⟩ :=
    run_breadthFirst [.inspect fanDisk [] [fanMain.path]] fanMain hacyclic
  rw [hchildren] at hdown
  cases hdown
  exact ⟨hacyclic, hcyclic, horder, hchildren, hfirst⟩

end Graph

end SheetGraph
