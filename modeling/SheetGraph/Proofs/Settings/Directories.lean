import SheetGraph.Project
import SheetGraph.Proofs.Path.Segments

/-!
# Source and target directory of valid settings

Validation compares the paths of the two directories component by component, as they are written.
That tells the directories apart as long as both are written alike: the same in front, whatever it
is, and names behind it.  Validation does not know where the project is, and it does not fold, so a
second spelling of the same directory passes.  Among paths without `..` these are the ones with a
dot in front and the ones from the root (`Respells`).  The main statement is
`Project.sourceDir_eq_targetDir_iff`.
-/

namespace SheetGraph

/-! ### Paths of names -/

namespace Path

variable {p q : Path} {base : Location} {names : List Name}

/-- Texts without `..` stand for names. -/
theorem exists_names_of_segments {segments : List (List Char)}
    (h : .up ∉ segments.filterMap Component.ofSegment?) :
    ∃ names : List Name, segments.filterMap Component.ofSegment? = names.map .name := by
  induction segments with
  | nil => exact ⟨[], rfl⟩
  | cons s segments ih =>
    cases hs : Component.ofSegment? s with
    | none =>
      rw [List.filterMap_cons_none hs] at h ⊢
      exact ih h
    | some c =>
      rw [List.filterMap_cons_some hs] at h ⊢
      rw [List.mem_cons, not_or] at h
      obtain ⟨names, hrest⟩ := ih h.2
      obtain ⟨n, rfl⟩ := Component.exists_name_of_ofSegment? hs (Ne.symm h.1)
      exact ⟨n :: names, by rw [hrest, List.map_cons]⟩

/-- **A path without `..`** is a list of names, perhaps behind the root or behind a dot. -/
theorem exists_names (h : .up ∉ p.components) : ∃ names : List Name,
    p.components = .root :: names.map .name ∨ p.components = .here :: names.map .name ∨
      p.components = names.map .name := by
  obtain ⟨first, rest, hsegments⟩ := List.exists_cons_of_ne_nil (List.splitOn_ne_nil '/' p.chars)
  rw [components, segments, hsegments, componentsOf, List.mem_append, not_or] at h
  obtain ⟨hleading, hrest⟩ := h
  obtain ⟨names, hnames⟩ := exists_names_of_segments hrest
  rw [components, segments, hsegments, componentsOf, hnames]
  unfold leading at hleading ⊢
  split_ifs at hleading ⊢
  · exact ⟨names, Or.inl rfl⟩
  · exact ⟨names, Or.inr (Or.inr rfl)⟩
  · exact ⟨names, Or.inr (Or.inl rfl)⟩
  · cases hfirst : Component.ofSegment? first with
    | none => exact ⟨names, Or.inr (Or.inr rfl)⟩
    | some c =>
      rw [hfirst, Option.toList_some, List.mem_singleton] at hleading
      obtain ⟨n, rfl⟩ := Component.exists_name_of_ofSegment? hfirst (Ne.symm hleading)
      exact ⟨n :: names, Or.inr (Or.inr rfl)⟩

/-- Names behind a front lead down from where the front leads. -/
theorem locateFrom_of_front (front : List Component)
    (h : p.components = front ++ names.map .name) :
    p.locateFrom base = (front.foldl Location.step base).below names := by
  rw [locateFrom, h, List.foldl_append, Location.foldl_step_names]

end Path

theorem Location.below_injective (l : Location) : Function.Injective l.below := by
  intro a b h
  exact List.append_cancel_left (congrArg Location.names h)

/-! ### Spellings of a directory -/

/-- The first path is another spelling of the second one, read from `base`. -/
inductive Respells (base : Location) (p q : Path) : Prop
  /-- A dot stands in front. -/
  | dot : p.components = .here :: q.components → Respells base p q
  /-- It is written from the root. -/
  | absolute (names : List Name) : p.components = .root :: (base.names ++ names).map .name →
      (q.components = names.map .name ∨ q.components = .here :: names.map .name) →
      Respells base p q

section Spellings

variable {p q : Path} {base : Location}

/-- Names lead down from `base`, also behind a dot. -/
theorem locateFrom_of_names {names : List Name}
    (h : p.components = names.map .name ∨ p.components = .here :: names.map .name) :
    p.locateFrom base = base.below names := by
  rcases h with hplain | hdot
  · exact Path.locateFrom_of_front [] hplain
  · exact Path.locateFrom_of_front [.here] hdot

/-- **A spelling of a directory** leads to it. -/
theorem Respells.locateFrom_eq (h : Respells base p q) : p.locateFrom base = q.locateFrom base := by
  cases h with
  | dot hdot =>
    rw [Path.locateFrom, hdot]
    rfl
  | absolute names habs hnames =>
    rw [Path.locateFrom_of_front [.root] habs, locateFrom_of_names hnames]
    rfl

/-- Names behind fronts that lead to the same place are the same if the paths lead to the same
place. -/
theorem names_eq_of_locateFrom_eq (front front' : List Component) {ps qs : List Name}
    (hp : p.components = front ++ ps.map .name) (hq : q.components = front' ++ qs.map .name)
    (hfronts : front.foldl Location.step base = front'.foldl Location.step base)
    (heq : p.locateFrom base = q.locateFrom base) : ps = qs := by
  rw [Path.locateFrom_of_front front hp, Path.locateFrom_of_front front' hq, hfronts] at heq
  exact Location.below_injective _ heq

/-- A path from the root that leads to the same place has the names of `base` in front. -/
theorem respells_of_root {ps qs : List Name} (hp : p.components = .root :: ps.map .name)
    (hq : q.components = qs.map .name ∨ q.components = .here :: qs.map .name)
    (heq : p.locateFrom base = q.locateFrom base) : Respells base p q := by
  rw [locateFrom_of_names hq, Path.locateFrom_of_front [.root] hp] at heq
  have hnames : ps = base.names ++ qs := congrArg Location.names heq
  rw [hnames] at hp
  exact .absolute qs hp hq

/-- **Two paths without `..` that lead to the same place** are the same, or one respells the
other. -/
theorem respells_of_locateFrom_eq (hp : .up ∉ p.components) (hq : .up ∉ q.components)
    (heq : p.locateFrom base = q.locateFrom base) (hdiff : p.components ≠ q.components) :
    Respells base p q ∨ Respells base q p := by
  obtain ⟨ps, hps⟩ := Path.exists_names hp
  obtain ⟨qs, hqs⟩ := Path.exists_names hq
  have hsame : ∀ front : List Component, p.components = front ++ ps.map .name →
      q.components ≠ front ++ qs.map .name := by
    intro front hps hqs
    rw [hps, hqs, names_eq_of_locateFrom_eq front front hps hqs rfl heq] at hdiff
    exact hdiff rfl
  rcases hps with hps | hps | hps <;> rcases hqs with hqs | hqs | hqs
  · exact absurd hqs (hsame [.root] hps)
  · exact Or.inl (respells_of_root hps (Or.inr hqs) heq)
  · exact Or.inl (respells_of_root hps (Or.inl hqs) heq)
  · exact Or.inr (respells_of_root hqs (Or.inr hps) heq.symm)
  · exact absurd hqs (hsame [.here] hps)
  · have hnames := names_eq_of_locateFrom_eq [.here] [] hps hqs rfl heq
    exact Or.inl (.dot (by rw [hps, hqs, hnames]))
  · exact Or.inr (respells_of_root hqs (Or.inl hps) heq.symm)
  · have hnames := names_eq_of_locateFrom_eq [] [.here] hps hqs rfl heq
    exact Or.inr (.dot (by rw [hps, hqs, hnames]))
  · exact absurd hqs (hsame [] hps)

end Spellings

/-! ### Valid settings -/

/-- **The two directories of valid settings** have different components. -/
theorem Settings.components_ne_of_isValid {s : Settings} (h : s.isValid = true) :
    s.project.target.components ≠ s.project.source.components := by
  rw [isValid, List.isEmpty_iff, faults] at h
  simp only [List.append_eq_nil_iff] at h
  have hfaults := h.1.1.1.1
  rw [directoryFaults, List.append_eq_nil_iff] at hfaults
  have htarget := hfaults.2
  intro hsame
  have hcompare : s.project.target.same s.project.source = true := by
    rw [Path.same, hsame, beq_self_eq_true]
  rw [if_pos hcompare] at htarget
  split at htarget <;> cases htarget

/-- **Source and target directory of valid settings are different** when they are written alike:
with the same in front, whatever it is, and names behind it.  Without `..` they are the same just
if one of the two paths respells the other. -/
theorem Project.sourceDir_eq_targetDir_iff (p : Project) (h : p.settings.isValid = true) :
    let source := p.settings.project.source
    let target := p.settings.project.target
    (∀ (front : List Component) (ms ns : List Name), source.components = front ++ ms.map .name →
      target.components = front ++ ns.map .name → p.sourceDir ≠ p.targetDir) ∧
    (.up ∉ source.components → .up ∉ target.components →
      (p.sourceDir = p.targetDir ↔
        Respells p.root source target ∨ Respells p.root target source)) := by
  intro source target
  have hdiff : target.components ≠ source.components := Settings.components_ne_of_isValid h
  refine ⟨fun front ms ns hsource htarget heq => ?_, fun hsource htarget => ?_⟩
  · have hnames : ms = ns := names_eq_of_locateFrom_eq front front hsource htarget rfl heq
    rw [hsource, htarget, hnames] at hdiff
    exact absurd rfl hdiff
  · constructor
    · intro heq
      exact respells_of_locateFrom_eq hsource htarget heq hdiff.symm
    · rintro (hspelled | hspelled)
      · exact hspelled.locateFrom_eq
      · exact hspelled.locateFrom_eq.symm

/-- A project with its two directories written as `source` and `target`. -/
def spelledProject (source target : String) : Project where
  settings := { project := { source := ⟨source⟩, target := ⟨target⟩ } }
  root := (⟨"/site"⟩ : Path).locateFrom .root

/-- Directories next to each other outside of the project are told apart, and so are the root of
the project and a directory in it that is written from the root. -/
theorem sourceDir_eq_targetDir_iff_outside :
    (spelledProject "../shared//scss" "../shared/css/").sourceDir
      ≠ (spelledProject "../shared//scss" "../shared/css/").targetDir ∧
    (spelledProject "." "/site/css").sourceDir ≠ (spelledProject "." "/site/css").targetDir := by
  have houtside := (spelledProject "../shared//scss" "../shared/css/").sourceDir_eq_targetDir_iff
    (by decide +kernel)
  have hroot := (spelledProject "." "/site/css").sourceDir_eq_targetDir_iff (by decide +kernel)
  refine ⟨houtside.1 [.up] ((⟨"shared/scss"⟩ : Path).locateFrom .root).names
    ((⟨"shared/css"⟩ : Path).locateFrom .root).names (by decide +kernel) (by decide +kernel), ?_⟩
  rw [Ne, hroot.2 (by decide +kernel) (by decide +kernel)]
  have hsource : (spelledProject "." "/site/css").settings.project.source.components = [.here] := by
    decide +kernel
  rintro (hspelled | hspelled)
  · cases hspelled with
    | dot hdot => exact absurd hdot (by decide +kernel)
    | absolute names habs _ =>
      rw [hsource] at habs
      cases habs
  · cases hspelled with
    | dot hdot => exact absurd hdot (by decide +kernel)
    | absolute names habs hnames =>
      rw [hsource] at hnames
      rcases hnames with hplain | hdot
      · cases names <;> cases hplain
      · rw [List.map_eq_nil_iff.mp (List.cons.inj hdot).2.symm] at habs
        exact absurd habs (by decide +kernel)

/-- **A second spelling of the source directory is accepted** for the target directory: one with a
dot in front, one from the root, and one with a detour. -/
theorem respelled_directory_accepted :
    ((spelledProject "scss" "./scss").settings.isValid = true ∧
      (spelledProject "scss" "./scss").sourceDir = (spelledProject "scss" "./scss").targetDir) ∧
    ((spelledProject "scss" "/site/scss").settings.isValid = true ∧
      (spelledProject "scss" "/site/scss").sourceDir
        = (spelledProject "scss" "/site/scss").targetDir) ∧
    ((spelledProject "scss" "css/../scss").settings.isValid = true ∧
      (spelledProject "scss" "css/../scss").sourceDir
        = (spelledProject "scss" "css/../scss").targetDir) := by
  decide +kernel

end SheetGraph
