import SheetGraph.Proofs.Preference
import SheetGraph.Proofs.Traversal

/-!
# Where targets are found

A target is looked up in one directory after the other.  The first directory that holds one of its
candidates as a file decides (`Decides`), so an ambiguous directory keeps the ones behind it from
being asked.  `resolve_spec` says what comes of a list of targets: their files, when each of them is
decided by a directory that holds one file for it, and else the failure of the first target for
which this is not so.

One file for a target is the same as one candidate, since no two candidates for a target stand for
the same file (`nodup_locations`).
-/

namespace SheetGraph

variable {d : Disk} {source l : Location} {target : String} {base : SearchBase}
  {bases : List SearchBase} {e : ImportError}

/-! ### The directory that decides -/

/-- The directory holds the file for the target: a candidate, read from there, leads to it. -/
def Holds (d : Disk) (base : SearchBase) (target : String) (l : Location) : Prop :=
  ∃ p ∈ candidatePaths target, p.locateFrom base.directory = l ∧ d.isFile l.path = true

/-- The directory decides about the target: it is the first that holds a file for it. -/
def Decides (d : Disk) (bases : List SearchBase) (target : String) (base : SearchBase) : Prop :=
  ∃ before after, bases = before ++ base :: after ∧
    (∀ earlier ∈ before, ∀ l, ¬ Holds d earlier target l) ∧ ∃ l, Holds d base target l

/-- The target stands for the file: the directory that decides holds it, and no other. -/
def StandsFor (d : Disk) (bases : List SearchBase) (target : String) (l : Location) : Prop :=
  ∃ base, Decides d bases target base ∧ ∀ l', Holds d base target l' ↔ l' = l

/-- Why a target stands for no file. -/
inductive LookupFailure (d : Disk) (source : Location) (bases : List SearchBase)
    (target : String) : ImportError → Prop
  /-- The directory that decides holds two files or more; all of them are named, in order of
  preference. -/
  | ambiguous {base : SearchBase} {ls : List Location} : Decides d bases target base →
      ls = ((candidatePaths target).map (·.locateFrom base.directory)).filter
        (fun l => d.isFile l.path) → 2 ≤ ls.length →
      LookupFailure d source bases target
        (.ambiguous target source.path base.shown (ls.map Location.path))
  /-- No directory holds any. -/
  | unresolvable : (∀ base ∈ bases, ∀ l, ¬ Holds d base target l) →
      LookupFailure d source bases target (.unresolvable target source.path)

theorem mem_existingCandidates_iff_holds :
    l ∈ existingCandidates d base.directory (candidatePaths target) ↔ Holds d base target l := by
  rw [mem_existingCandidates, List.mem_map, Holds]
  constructor
  · rintro ⟨⟨p, hp, hl⟩, hfile⟩
    exact ⟨p, hp, hl, hfile⟩
  · rintro ⟨p, hp, hl, hfile⟩
    exact ⟨⟨p, hp, hl⟩, hfile⟩

theorem existingCandidates_eq_nil_iff :
    existingCandidates d base.directory (candidatePaths target) = [] ↔
      ∀ l, ¬ Holds d base target l := by
  simp only [List.eq_nil_iff_forall_not_mem, mem_existingCandidates_iff_holds]

/-- **One candidate is one file.** -/
theorem existingCandidates_eq_singleton_iff :
    existingCandidates d base.directory (candidatePaths target) = [l] ↔
      ∀ l', Holds d base target l' ↔ l' = l := by
  have hnodup : (existingCandidates d base.directory (candidatePaths target)).Nodup :=
    (nodup_locations target base.directory).filter _
  simp only [← mem_existingCandidates_iff_holds]
  constructor
  · intro h l'
    rw [h, List.mem_singleton]
  · intro h
    exact List.perm_singleton.mp
      ((List.perm_ext_iff_of_nodup hnodup (List.nodup_singleton l)).mpr fun l' => by
        rw [h, List.mem_singleton])

theorem decides_cons_iff {first : SearchBase} :
    Decides d (first :: bases) target base ↔
      first = base ∧ (∃ l, Holds d base target l) ∨
      (∀ l, ¬ Holds d first target l) ∧ Decides d bases target base := by
  constructor
  · rintro ⟨before, after, hbases, hbefore, hholds⟩
    cases before with
    | nil =>
      obtain ⟨rfl, -⟩ := List.cons.inj hbases
      exact Or.inl ⟨rfl, hholds⟩
    | cons earlier before =>
      -- The first directory holds nothing, so the others are asked as if it were not there.
      obtain ⟨rfl, rfl⟩ := List.cons.inj hbases
      rw [List.forall_mem_cons] at hbefore
      exact Or.inr ⟨hbefore.1, before, after, rfl, hbefore.2, hholds⟩
  · rintro (⟨rfl, hholds⟩ | ⟨hfirst, before, after, rfl, hbefore, hholds⟩)
    · exact ⟨[], bases, rfl, by simp, hholds⟩
    · exact ⟨first :: before, after, rfl, List.forall_mem_cons.mpr ⟨hfirst, hbefore⟩, hholds⟩

theorem standsFor_cons_iff :
    StandsFor d (base :: bases) target l ↔
      (∀ l', Holds d base target l' ↔ l' = l) ∨
      (∀ l', ¬ Holds d base target l') ∧ StandsFor d bases target l := by
  constructor
  · rintro ⟨deciding, hdecides, honly⟩
    rcases decides_cons_iff.mp hdecides with ⟨rfl, -⟩ | ⟨hnone, hdecides⟩
    · exact Or.inl honly
    · exact Or.inr ⟨hnone, deciding, hdecides, honly⟩
  · rintro (honly | ⟨hnone, deciding, hdecides, honly⟩)
    · exact ⟨base, decides_cons_iff.mpr (Or.inl ⟨rfl, l, (honly l).mpr rfl⟩), honly⟩
    · exact ⟨deciding, decides_cons_iff.mpr (Or.inr ⟨hnone, hdecides⟩), honly⟩

/-! ### Targets -/

/-- **A target is resolved to the file that it stands for.** -/
theorem resolveTarget_eq_ok_iff :
    resolveTarget d source target bases = .ok l ↔ StandsFor d bases target l := by
  induction bases with
  | nil =>
    constructor
    · intro h
      cases h
    · rintro ⟨base, ⟨before, after, hbases, -⟩, -⟩
      simp at hbases
  | cons base bases ih =>
    rw [resolveTarget_cons_eq_ok_iff, standsFor_cons_iff, existingCandidates_eq_singleton_iff,
      existingCandidates_eq_nil_iff, ih]

theorem resolveTarget_cons_eq_error_iff :
    resolveTarget d source target (base :: bases) = .error e ↔
      2 ≤ (existingCandidates d base.directory (candidatePaths target)).length ∧
        .ambiguous target source.path base.shown
          ((existingCandidates d base.directory (candidatePaths target)).map Location.path) = e ∨
      existingCandidates d base.directory (candidatePaths target) = [] ∧
        resolveTarget d source target bases = .error e := by
  rw [resolveTarget, matchCandidates]
  cases existingCandidates d base.directory (candidatePaths target) with
  | nil => simp
  | cons x xs => cases xs <;> simp

/-- **A target is not resolved** when the directory that decides holds several files for it, or none
holds any. -/
theorem resolveTarget_eq_error_iff :
    resolveTarget d source target bases = .error e ↔ LookupFailure d source bases target e := by
  induction bases with
  | nil =>
    constructor
    · intro h
      cases h
      exact .unresolvable (by simp)
    · rintro (⟨⟨before, after, hbases, -⟩, -, -⟩ | -)
      · simp at hbases
      · rfl
  | cons base bases ih =>
    rw [resolveTarget_cons_eq_error_iff, existingCandidates_eq_nil_iff, ih]
    constructor
    · rintro (⟨hmany, rfl⟩ | ⟨hnone, hrest⟩)
      · -- Some candidate is there, so this is the directory that decides.
        obtain ⟨l, hl⟩ := List.exists_mem_of_length_pos (Nat.lt_of_lt_of_le Nat.zero_lt_two hmany)
        exact .ambiguous (decides_cons_iff.mpr
          (Or.inl ⟨rfl, l, mem_existingCandidates_iff_holds.mp hl⟩)) rfl hmany
      · cases hrest with
        | ambiguous hdecides hls hmany =>
          exact .ambiguous (decides_cons_iff.mpr (Or.inr ⟨hnone, hdecides⟩)) hls hmany
        | unresolvable hall => exact .unresolvable (List.forall_mem_cons.mpr ⟨hnone, hall⟩)
    · intro h
      cases h with
      | ambiguous hdecides hls hmany =>
        rcases decides_cons_iff.mp hdecides with ⟨rfl, -⟩ | ⟨hnone, hdecides⟩
        · rw [hls] at hmany ⊢
          exact Or.inl ⟨hmany, rfl⟩
        · exact Or.inr ⟨hnone, .ambiguous hdecides hls hmany⟩
      | unresolvable hall =>
        rw [List.forall_mem_cons] at hall
        exact Or.inr ⟨hall.1, .unresolvable hall.2⟩

/-- **What comes of a list of targets.**  They are looked up in the directory of the source and then
in the library directories.  All of them are resolved when each stands for a file, and then to these
files in order; else the first that stands for none is the reason. -/
theorem resolve_spec (d : Disk) (source : Path) (targets : List String) (libraries : List Path) :
    let bases := d.searchBases (d.locate source) (libraries.map d.locate)
    (∀ ls, resolve d (d.locate source) targets (libraries.map d.locate) = .ok ls ↔
      List.Forall₂ (StandsFor d bases) targets ls) ∧
    ∀ e, resolve d (d.locate source) targets (libraries.map d.locate) = .error e ↔
      ∃ before target after, targets = before ++ target :: after ∧
        (∀ earlier ∈ before, ∃ l, StandsFor d bases earlier l) ∧
        LookupFailure d (d.locate source) bases target e := by
  intro bases
  constructor
  · intro ls
    rw [resolve, mapM_eq_ok_iff]
    simp only [resolveTarget_eq_ok_iff]
    rfl
  · intro e
    rw [resolve, mapM_eq_error_iff]
    simp only [resolveTarget_eq_ok_iff, resolveTarget_eq_error_iff]
    rfl

end SheetGraph
