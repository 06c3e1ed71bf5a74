import Mathlib.Tactic.Common
import SheetGraph.Resolution

/-!
# What targets are resolved to

A target is resolved in the first directory that holds one of its candidates, to the only one there
(`resolveTarget_cons_eq_ok_iff`), so it is always resolved to a file (`isFile_of_resolveTarget`).
On another disk it may be resolved to another file, but only if one of the two is there on one disk
alone: a file has appeared in front of the old one, or the old one has gone (`resolveTarget_eq_or`).
-/

namespace SheetGraph

variable {d d' : Disk} {source l l' : Location} {target : String} {base : SearchBase}
  {bases : List SearchBase}

theorem mem_existingCandidates {base : Location} {candidates : List Path} :
    l ∈ existingCandidates d base candidates ↔
      l ∈ candidates.map (·.locateFrom base) ∧ d.isFile l.path = true :=
  List.mem_filter

theorem resolveTarget_cons_eq_ok_iff :
    resolveTarget d source target (base :: bases) = .ok l ↔
      existingCandidates d base.directory (candidatePaths target) = [l] ∨
      existingCandidates d base.directory (candidatePaths target) = [] ∧
        resolveTarget d source target bases = .ok l := by
  rw [resolveTarget, matchCandidates]
  cases existingCandidates d base.directory (candidatePaths target) with
  | nil => simp
  | cons x xs => cases xs <;> simp

/-- **A target is resolved to a file.** -/
theorem isFile_of_resolveTarget (h : resolveTarget d source target bases = .ok l) :
    d.isFile l.path = true := by
  induction bases with
  | nil => cases h
  | cons base bases ih =>
    rcases resolveTarget_cons_eq_ok_iff.mp h with hone | ⟨-, hrest⟩
    · have hmem : l ∈ existingCandidates d base.directory (candidatePaths target) := by
        rw [hone]
        exact List.mem_singleton_self l
      exact (mem_existingCandidates.mp hmem).2
    · exact ih hrest

/-- What decides on one disk is the only candidate on another, unless it is not there. -/
theorem eq_of_existingCandidates {base : Location} {candidates : List Path} {ls : List Location}
    (h : existingCandidates d base candidates = [l])
    (h' : existingCandidates d' base candidates = ls) (hfile : d'.isFile l.path = true) :
    l ∈ ls := by
  have hmem : l ∈ existingCandidates d base candidates := by
    rw [h]
    exact List.mem_singleton_self l
  rw [← h']
  exact mem_existingCandidates.mpr ⟨(mem_existingCandidates.mp hmem).1, hfile⟩

/-- **A target is resolved to another file on another disk** only if one of the two files is not
there on one of the disks. -/
theorem resolveTarget_eq_or (h : resolveTarget d source target bases = .ok l)
    (h' : resolveTarget d' source target bases = .ok l') :
    l = l' ∨ d'.isFile l.path = false ∨ d.isFile l'.path = false := by
  by_contra hnot
  simp only [not_or, Bool.not_eq_false] at hnot
  obtain ⟨hne, hfile, hfile'⟩ := hnot
  induction bases with
  | nil => cases h
  | cons base bases ih =>
    rcases resolveTarget_cons_eq_ok_iff.mp h with hone | ⟨hnone, hrest⟩
    · -- The first file is a candidate on both disks, so it decides on both.
      rcases resolveTarget_cons_eq_ok_iff.mp h' with hone' | ⟨hnone', -⟩
      · exact hne (List.mem_singleton.mp (eq_of_existingCandidates hone hone' hfile))
      · exact List.not_mem_nil (eq_of_existingCandidates hone hnone' hfile)
    · rcases resolveTarget_cons_eq_ok_iff.mp h' with hone' | ⟨-, hrest'⟩
      · exact List.not_mem_nil (eq_of_existingCandidates hone' hnone hfile')
      · exact ih hrest hrest'

end SheetGraph
