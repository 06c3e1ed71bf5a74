import SheetGraph.Proofs.FileTree.Walk

/-!
# Ways down without links

Where no link lies on the way down from a directory (`NoLinkOnWay`), a walk goes the way that the
names say.  It finds what is there (`walk_below`).  Where nothing is, it ends at a file that lies on
the way (`FileOnWay`), or where the next name is missing (`walk_below_of_none`).
-/

namespace SheetGraph

namespace FileTree

variable {t : FileTree} {links : Nat} {dir r : Location} {names : List Name} {e : Entry}

/-! ### Walks to the last text but some -/

/-- **A walk that goes on behind some texts** has come to a directory by then. -/
theorem exists_walk_of_append {more : List (List Char)} (hmore : more ≠ []) (links : Nat)
    (segments : List (List Char)) (dir : Location) (landing : Landing)
    (hdir : t.isDirectory dir = true)
    (h : t.walk links dir (segments ++ more) = .ok landing) :
    ∃ r, t.walk links dir segments = .ok (.found r) ∧ t.isDirectory r = true := by
  match segments with
  | [] => exact ⟨dir, walk_nil, hdir⟩
  | s :: segments =>
    have hne : segments ++ more ≠ [] := List.append_ne_nil_of_right_ne_nil segments hmore
    rw [List.cons_append, walk_cons] at h
    rw [walk_cons]
    split at h
    · exact exists_walk_of_append hmore links segments dir.parent landing
        (isDirectory_parent (isDirectory_iff.mp hdir)) h
    · rename_i n _
      split at h
      · rw [if_neg hne] at h
        cases h
      · rename_i hget
        exact exists_walk_of_append hmore links segments (dir.entry n) landing
          (isDirectory_iff.mpr hget) h
      · rw [if_neg hne] at h
        cases h
      · rename_i target _
        cases links with
        | zero => cases h
        | succ links =>
          refine exists_walk_of_append hmore links (target.segments ++ segments) _ landing ?_ ?_
          · split
            · exact isDirectory_root t
            · exact hdir
          · rw [List.append_assoc]
            exact h
    · exact exists_walk_of_append hmore links segments dir landing hdir h
termination_by (links, segments.length)

/-! ### Ways down without links -/

/-- No link lies on the way down, nor at its end. -/
def NoLinkOnWay (t : FileTree) (r : Location) (names : List Name) : Prop :=
  ∀ front target, front <+: names → t.get? (r.below front) ≠ some (.link target)

/-- A file lies on the way down, perhaps at its end. -/
def FileOnWay (t : FileTree) (r : Location) (names : List Name) : Prop :=
  ∃ front content, front <+: names ∧ t.get? (r.below front) = some (.file content)

theorem NoLinkOnWay.mono {front : List Name} (h : t.NoLinkOnWay r names)
    (hfront : front <+: names) : t.NoLinkOnWay r front :=
  fun front' target hfront' => h front' target (hfront'.trans hfront)

theorem NoLinkOnWay.tail {n : Name} (h : t.NoLinkOnWay r (n :: names)) :
    t.NoLinkOnWay (r.entry n) names := by
  intro front target hfront
  rw [← Location.below_cons]
  exact h (n :: front) target (List.cons_prefix_cons.mpr ⟨rfl, hfront⟩)

theorem NoLinkOnWay.head {n : Name} (h : t.NoLinkOnWay r (n :: names)) (target : Path) :
    t.get? (r.entry n) ≠ some (.link target) := by
  have hone := h [n] target (List.cons_prefix_cons.mpr ⟨rfl, List.nil_prefix⟩)
  rwa [Location.below_cons, Location.below_nil] at hone

/-- No link is on a way if none has come. -/
theorem NoLinkOnWay.of_links {t' : FileTree} (h : t.NoLinkOnWay r names)
    (hold : ∀ {k target}, t'.get? k = some (.link target) → t.get? k = some (.link target)) :
    t'.NoLinkOnWay r names :=
  fun front target hfront hlink => h front target hfront (hold hlink)

/-- No file is on the way to a directory. -/
theorem not_fileOnWay_of_directory (h : t.get? (r.below names) = some .directory) :
    ¬ t.FileOnWay r names := by
  rintro ⟨front, content, hfront, hfile⟩
  by_cases hne : front = names
  · rw [hne, h] at hfile
    cases hfile
  · rw [isDirectory_below h hfront hne] at hfile
    cases hfile

theorem FileOnWay.concat (h : t.FileOnWay r names) (n : Name) : t.FileOnWay r (names ++ [n]) := by
  obtain ⟨front, content, hfront, hfile⟩ := h
  exact ⟨front, content, hfront.trans (List.prefix_append names [n]), hfile⟩

theorem fileOnWay_concat_iff {n : Name} : t.FileOnWay r (names ++ [n]) ↔
    t.FileOnWay r names ∨ ∃ content, t.get? (r.below (names ++ [n])) = some (.file content) := by
  constructor
  · rintro ⟨front, content, hfront, hfile⟩
    rcases List.prefix_concat_iff.mp hfront with rfl | hfront
    · exact Or.inr ⟨content, hfile⟩
    · exact Or.inl ⟨front, content, hfront, hfile⟩
  · rintro (h | ⟨content, hfile⟩)
    · exact h.concat n
    · exact ⟨names ++ [n], content, List.prefix_refl _, hfile⟩

section Walks

variable (hdir : t.isDirectory r = true) (hlinks : t.NoLinkOnWay r names)

include hlinks in
/-- A walk down to what is there finds it. -/
theorem walk_below (h : t.get? (r.below names) = some e) :
    t.walk links r (names.map Name.chars) = .ok (.found (r.below names)) := by
  induction names generalizing r with
  | nil => rw [List.map_nil, walk_nil, Location.below_nil]
  | cons n names ih =>
    rw [Location.below_cons] at h ⊢
    rw [List.map_cons, walk_cons, Component.ofSegment?_chars]
    dsimp only
    cases hget : t.get? (r.entry n) with
    | none =>
      cases names with
      | nil =>
        rw [Location.below_nil, hget] at h
        cases h
      | cons m names =>
        -- More names follow, so there would have to be a directory.
        have hthere := isDirectory_below h (List.nil_prefix) (List.cons_ne_nil m names).symm
        rw [Location.below_nil, hget] at hthere
        cases hthere
    | some e' =>
      cases e' with
      | directory => exact ih (hlinks.tail) h
      | link target => exact absurd hget (hlinks.head target)
      | file content =>
        cases names with
        | nil => rw [Location.below_nil]; rfl
        | cons m names =>
          have hthere := isDirectory_below h (List.nil_prefix) (List.cons_ne_nil m names).symm
          rw [Location.below_nil, hget] at hthere
          cases hthere

include hdir hlinks in
/-- A walk down to what is not there ends at a file on the way, or where the next name is
missing. -/
theorem walk_below_of_none (h : t.get? (r.below names) = none) :
    (t.FileOnWay r names → t.walk links r (names.map Name.chars) = .error .notDirectory) ∧
    (¬ t.FileOnWay r names → t.walk links r (names.map Name.chars) = .error .notFound ∨
      ∃ l, t.walk links r (names.map Name.chars) = .ok (.vacant l)) := by
  induction names generalizing r with
  | nil =>
    rw [Location.below_nil, isDirectory_iff.mp hdir] at h
    cases h
  | cons n names ih =>
    rw [Location.below_cons] at h
    have hway : t.FileOnWay r (n :: names) ↔ t.FileOnWay (r.entry n) names := by
      constructor
      · rintro ⟨front, content, hfront, hfile⟩
        cases front with
        | nil =>
          rw [Location.below_nil, isDirectory_iff.mp hdir] at hfile
          cases hfile
        | cons m front =>
          obtain ⟨rfl, hrest⟩ := List.cons_prefix_cons.mp hfront
          rw [Location.below_cons] at hfile
          exact ⟨front, content, hrest, hfile⟩
      · rintro ⟨front, content, hfront, hfile⟩
        refine ⟨n :: front, content, List.cons_prefix_cons.mpr ⟨rfl, hfront⟩, ?_⟩
        rw [Location.below_cons]
        exact hfile
    rw [hway, List.map_cons, walk_cons, Component.ofSegment?_chars]
    dsimp only
    cases hget : t.get? (r.entry n) with
    | none =>
      -- Nothing is below what is missing.
      have hclear : ¬ t.FileOnWay (r.entry n) names := by
        rintro ⟨front, content, -, hfile⟩
        cases front with
        | nil =>
          rw [Location.below_nil, hget] at hfile
          cases hfile
        | cons m front =>
          have hthere := isDirectory_below hfile List.nil_prefix (List.cons_ne_nil m front).symm
          rw [Location.below_nil, hget] at hthere
          cases hthere
      refine ⟨fun hfile => absurd hfile hclear, fun _ => ?_⟩
      dsimp only
      split
      · exact Or.inr ⟨_, rfl⟩
      · exact Or.inl rfl
    | some e' =>
      cases e' with
      | directory => exact ih (isDirectory_iff.mpr hget) (hlinks.tail) h
      | link target => exact absurd hget (hlinks.head target)
      | file content =>
        have hfile : t.FileOnWay (r.entry n) names := by
          refine ⟨[], content, List.nil_prefix, ?_⟩
          rw [Location.below_nil]
          exact hget
        refine ⟨fun _ => ?_, fun hclear => absurd hfile hclear⟩
        have hne : names.map Name.chars ≠ [] := by
          intro hnil
          rw [List.map_eq_nil_iff.mp hnil, Location.below_nil, hget] at h
          cases h
        exact if_neg hne

end Walks

end FileTree

end SheetGraph
