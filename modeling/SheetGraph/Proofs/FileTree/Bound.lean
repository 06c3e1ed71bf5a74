import Mathlib.Data.List.Perm.Subperm
import Mathlib.Tactic.Ring
import SheetGraph.Graph.Index
import SheetGraph.Proofs.FileTree.Walk

/-!
# How many locations lead to a file

Links make it possible that one file is found at many locations, but not at infinitely many: a walk
follows at most `linkLimit` links, between two links it goes down at most as deep as the tree, and
each name on the way is the name of an entry (`FileTree.names_of_walk`).  So all locations that lead
to something are in the finite list `FileTree.locations` (`Disk.mem_locations_of_find`), whose
length is at most `FileTree.locationBound`, the number of steps that indexing a project may take.
-/

namespace SheetGraph

/-! ### Lists of bounded length -/

/-- All lists of at most `n` elements of `as`. -/
def boundedLists {α : Type} (as : List α) : (n : Nat) → List (List α)
  | 0 => [[]]
  | n + 1 => [] :: as.flatMap fun a => (boundedLists as n).map (a :: ·)

theorem mem_boundedLists {α : Type} {as : List α} : ∀ {n : Nat} {xs : List α},
    xs.length ≤ n → (∀ x ∈ xs, x ∈ as) → xs ∈ boundedLists as n
  | 0, [], _, _ => List.mem_singleton_self _
  | _ + 1, [], _, _ => List.mem_cons_self
  | n + 1, x :: xs, hn, has => by
    rw [boundedLists]
    refine List.mem_cons_of_mem _ (List.mem_flatMap.mpr ⟨x, has x List.mem_cons_self, ?_⟩)
    refine List.mem_map_of_mem (mem_boundedLists ?_ fun y hy => has y (List.mem_cons_of_mem _ hy))
    exact Nat.le_of_succ_le_succ hn

theorem length_boundedLists_le {α : Type} (as : List α) : ∀ n : Nat,
    (boundedLists as n).length ≤ (as.length + 1) ^ n
  | 0 => by simp [boundedLists]
  | n + 1 => by
    have hlen : (boundedLists as (n + 1)).length = as.length * (boundedLists as n).length + 1 := by
      rw [boundedLists, List.length_cons, List.length_flatMap]
      simp
    have hn := length_boundedLists_le as n
    calc (boundedLists as (n + 1)).length
        = as.length * (boundedLists as n).length + 1 := hlen
      _ ≤ as.length * (as.length + 1) ^ n + (as.length + 1) ^ n :=
          Nat.add_le_add (Nat.mul_le_mul_left _ hn) (Nat.one_le_pow _ _ (Nat.succ_pos _))
      _ = (as.length + 1) ^ (n + 1) := by ring

namespace FileTree

variable {t : FileTree} {l dir : Location} {e : Entry} {n : Name}

/-! ### Names in a tree -/

/-- The names of all entries. -/
def entryNames (t : FileTree) : List Name :=
  t.entries.filterMap fun e => e.1.fileName?

theorem mem_entryNames (h : t.get? (dir.entry n) = some e) : n ∈ t.entryNames := by
  have hne : dir.entry n ≠ .root := by
    intro heq
    have hnames := congrArg Location.names heq
    simp at hnames
  refine List.mem_filterMap.mpr ⟨_, (get?_eq_some_iff hne).mp h, ?_⟩
  simp [Location.fileName?]

theorem length_entryNames_le (t : FileTree) : t.entryNames.length ≤ t.entries.length :=
  List.length_filterMap_le _ _

private theorem le_foldl_max : ∀ (ns : List Nat) (m k : Nat), k = m ∨ k ∈ ns → k ≤ ns.foldl max m
  | [], m, k, h => by simpa using (h.resolve_right List.not_mem_nil).le
  | n :: ns, m, k, h => by
    rw [List.foldl_cons]
    rcases h with rfl | h
    · exact Nat.le_trans (Nat.le_max_left k n) (le_foldl_max ns _ _ (Or.inl rfl))
    · rcases List.mem_cons.mp h with rfl | h
      · exact Nat.le_trans (Nat.le_max_right m k) (le_foldl_max ns _ _ (Or.inl rfl))
      · exact le_foldl_max ns _ _ (Or.inr h)

/-- Nothing in a tree is deeper than the tree. -/
theorem length_names_le_depth (h : t.get? l = some e) : l.names.length ≤ t.depth := by
  by_cases hl : l = .root
  · rw [hl]
    exact Nat.zero_le _
  · refine le_foldl_max _ 0 _ (Or.inr ?_)
    exact List.mem_map.mpr ⟨_, (get?_eq_some_iff hl).mp h, rfl⟩

/-! ### Names on a walk -/

/-- Behind a link a walk starts from a directory again. -/
private theorem isDirectory_ite (absolute : Bool) (h : t.isDirectory dir = true) :
    t.isDirectory (if absolute then .root else dir) = true := by
  split
  · exact isDirectory_root t
  · exact h

/-- **How far a walk can go.**  Behind any texts, a walk that comes to something can only take names
of entries, and not more of them than fit between its links; with no texts in front of them, the
names down to where it starts fit in as well. -/
theorem names_of_walk (links : Nat) (segments : List (List Char)) (names : List Name)
    (dir : Location) (hdir : t.isDirectory dir = true)
    (h : t.walk links dir (segments ++ names.map Name.chars) = .ok (.found l)) :
    (∀ n ∈ names, n ∈ t.entryNames) ∧ names.length ≤ (links + 1) * t.depth ∧
      (segments = [] → dir.names.length + names.length ≤ (links + 1) * t.depth) := by
  have hone : (links + 1) * t.depth = links * t.depth + t.depth := Nat.succ_mul _ _
  match segments, names with
  | [], [] =>
    have hdepth := length_names_le_depth (isDirectory_iff.mp hdir)
    refine ⟨by simp, Nat.zero_le _, fun _ => ?_⟩
    rw [List.length_nil]
    omega
  | [], n :: names =>
    rw [List.nil_append, List.map_cons, walk_cons, Component.ofSegment?_chars] at h
    -- It is enough to count from the start of the walk.
    suffices hsuff : (∀ m ∈ n :: names, m ∈ t.entryNames) ∧
        (dir.entry n).names.length + names.length ≤ (links + 1) * t.depth by
      have hlen := hsuff.2
      rw [Location.names_entry, List.length_append, List.length_singleton] at hlen
      refine ⟨hsuff.1, ?_, fun _ => ?_⟩
      · rw [List.length_cons]
        omega
      · rw [List.length_cons]
        omega
    dsimp only at h
    split at h
    · split at h <;> cases h
    · rename_i hget
      obtain ⟨hmem, -, hlen⟩ :=
        names_of_walk links [] names (dir.entry n) (isDirectory_iff.mpr hget) h
      exact ⟨List.forall_mem_cons.mpr ⟨mem_entryNames hget, hmem⟩, hlen rfl⟩
    · rename_i content hget
      split at h
      · rename_i hrest
        have hnil : names = [] := List.map_eq_nil_iff.mp hrest
        have hdepth := length_names_le_depth hget
        subst hnil
        refine ⟨List.forall_mem_cons.mpr ⟨mem_entryNames hget, by simp⟩, ?_⟩
        rw [List.length_nil]
        omega
      · cases h
    · rename_i target hget
      -- The link is one name, and what follows it has one link less.
      cases links with
      | zero => cases h
      | succ links =>
        obtain ⟨hmem, hlen, -⟩ := names_of_walk links target.segments names _
          (isDirectory_ite target.isAbsolute hdir) h
        have hdepth := length_names_le_depth hget
        exact ⟨List.forall_mem_cons.mpr ⟨mem_entryNames hget, hmem⟩, by omega⟩
  | s :: segments, names =>
    rw [List.cons_append, walk_cons] at h
    suffices hsuff : (∀ m ∈ names, m ∈ t.entryNames) ∧ names.length ≤ (links + 1) * t.depth from
      ⟨hsuff.1, hsuff.2, fun hnil => absurd hnil (List.cons_ne_nil _ _)⟩
    split at h
    · obtain ⟨hmem, hlen, -⟩ :=
        names_of_walk links segments names _ (isDirectory_parent (isDirectory_iff.mp hdir)) h
      exact ⟨hmem, hlen⟩
    · split at h
      · split at h <;> cases h
      · rename_i hget
        obtain ⟨hmem, hlen, -⟩ := names_of_walk links segments names _ (isDirectory_iff.mpr hget) h
        exact ⟨hmem, hlen⟩
      · split at h
        · rename_i hrest
          have hnil : names = [] := List.map_eq_nil_iff.mp (List.append_eq_nil_iff.mp hrest).2
          subst hnil
          exact ⟨by simp, Nat.zero_le _⟩
        · cases h
      · rename_i target hget
        cases links with
        | zero => cases h
        | succ links =>
          rw [← List.append_assoc] at h
          obtain ⟨hmem, hlen, -⟩ := names_of_walk links (target.segments ++ segments) names _
            (isDirectory_ite target.isAbsolute hdir) h
          exact ⟨hmem, by omega⟩
    · obtain ⟨hmem, hlen, -⟩ := names_of_walk links segments names _ hdir h
      exact ⟨hmem, hlen⟩
termination_by (links, segments.length + names.length)

/-! ### Locations that lead somewhere -/

/-- All locations that can lead to something in the tree. -/
def locations (t : FileTree) : List Location :=
  (boundedLists t.entryNames ((linkLimit + 1) * t.depth)).map Location.mk

theorem length_locations_le (t : FileTree) : t.locations.length ≤ t.locationBound := by
  rw [locations, List.length_map, locationBound]
  refine Nat.le_trans (length_boundedLists_le _ _) (Nat.pow_le_pow_left ?_ _)
  exact Nat.succ_le_succ t.length_entryNames_le

end FileTree

namespace Disk

variable {d : Disk} {l k : Location} {e : Entry}

/-- **A location that leads to something is one of finitely many.** -/
theorem mem_locations_of_find (h : d.find l.path = .ok (k, e)) : l ∈ d.tree.locations := by
  rw [find_eq_ok_iff, look_path, FileTree.walk_segments] at h
  obtain ⟨hmem, hlen⟩ := FileTree.names_of_walk FileTree.linkLimit [] l.names .root
    (FileTree.isDirectory_root _) h.1
  exact List.mem_map.mpr ⟨l.names, mem_boundedLists hlen.1 hmem, rfl⟩

/-- **Not more locations than the bound lead to something.** -/
theorem length_le_locationBound {ls : List Location} (hnodup : ls.Nodup)
    (h : ∀ l ∈ ls, ∃ k e, d.find l.path = .ok (k, e)) : ls.length ≤ d.tree.locationBound := by
  have hsub : ls ⊆ d.tree.locations := by
    intro l hl
    obtain ⟨k, e, hfind⟩ := h l hl
    exact mem_locations_of_find hfind
  exact Nat.le_trans (List.subperm_of_subset hnodup hsub).length_le d.tree.length_locations_le

end Disk

end SheetGraph
