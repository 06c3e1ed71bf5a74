import SheetGraph.FileTree.Disk
import SheetGraph.Proofs.Path.Segments

/-!
# Folding paths

A path is followed from a directory, or from the root if it is absolute, text by text
(`Path.locateFrom_eq_foldl`).  So a path behind another one leads on from where the other leads
(`Path.locateFrom_join`), and this is all there is to joining: what stands in front counts only by
its location.

The path of that location is the normal form of a path (`Disk.normalize`), which is why normalizing
the front of a path, or all of it, changes nothing (`Disk.normalize_canonical`).
-/

namespace SheetGraph

namespace Path

variable {p q : Path}

/-- **A path is followed text by text**, from the root if it is absolute. -/
theorem locateFrom_eq_foldl (p : Path) (base : Location) :
    p.locateFrom base = (p.segments.filterMap Component.ofSegment?).foldl Location.step
      (if p.isAbsolute then .root else base) := by
  cases hp : p.isAbsolute with
  | true => exact locateFrom_of_isAbsolute hp base
  | false =>
    obtain ⟨first, rest, hsegments⟩ := List.exists_cons_of_ne_nil (List.splitOn_ne_nil '/' p.chars)
    rw [if_neg Bool.false_ne_true, locateFrom, components, segments, hsegments, componentsOf,
      List.foldl_append, List.filterMap_cons, leading]
    split_ifs with hnil hmore hdot
    · -- An empty text in front of others is the root.
      have habs : p.isAbsolute = true := by
        rw [isAbsolute_iff, segments, hsegments, hnil]
        exact ⟨rest, rfl, by simpa using hmore⟩
      rw [hp] at habs
      cases habs
    · rw [hnil]
      rfl
    · rw [hdot]
      rfl
    · cases Component.ofSegment? first <;> rfl

/-- **A path behind another one leads on** from where the other leads. -/
theorem locateFrom_join (p q : Path) (base : Location) :
    (p.join q).locateFrom base = q.locateFrom (p.locateFrom base) := by
  cases hq : q.isAbsolute with
  | true =>
    rw [join, hq, if_pos rfl, locateFrom_of_isAbsolute hq, locateFrom_of_isAbsolute hq]
  | false =>
    obtain ⟨habs, front, hjoin, hp⟩ : (p.join q).isAbsolute = p.isAbsolute ∧
        ∃ front, (p.join q).segments = front ++ q.segments ∧
          (p.segments = front ∨ p.segments = front ++ [[]]) := exists_segments_child p hq
    have hfront : p.segments.filterMap Component.ofSegment?
        = front.filterMap Component.ofSegment? := by
      rcases hp with hp | hp
      · rw [hp]
      · rw [hp, List.filterMap_append]
        exact List.append_nil _
    rw [locateFrom_eq_foldl, locateFrom_eq_foldl q, locateFrom_eq_foldl p, hjoin, habs, hq,
      if_neg Bool.false_ne_true, hfront, List.filterMap_append, List.foldl_append]

/-- A path with a single name leads to the entry of that name. -/
theorem locateFrom_of_name {n : Name} (h : p.components = [.name n]) (base : Location) :
    p.locateFrom base = base.entry n := by
  rw [locateFrom, h]
  rfl

end Path

/-! ### Normal forms -/

namespace Disk

/-- The normal form of a path: absolute, and with nothing left to fold. -/
def normalize (d : Disk) (p : Path) : Path :=
  (d.locate p).path

/-- **Normal forms are canonical.**  They are absolute, and without dots and `..`; the front of a
path counts only by its normal form; and `..` takes back one name, also where a `..` behind it stays
at the root because no name is left. -/
theorem normalize_canonical (d : Disk) (a b : Path) :
    (d.normalize a).isAbsolute = true ∧
    .here ∉ (d.normalize a).components ∧ .up ∉ (d.normalize a).components ∧
    d.normalize ((d.normalize a).join b) = d.normalize (a.join b) ∧
    d.normalize (d.normalize a) = d.normalize a ∧
    ∀ (x : Path) (n : Name), x.components = [.name n] →
      d.normalize (((a.join x).join ⟨".."⟩).join b) = d.normalize (a.join b) := by
  have hup : ∀ base : Location, (⟨".."⟩ : Path).locateFrom base = base.parent := fun _ => rfl
  unfold normalize locate
  refine ⟨Location.isAbsolute_path _, ?here, ?up, ?front, ?again, fun x n hx => ?back⟩
  case here =>
    rw [Location.components_path]
    simp
  case up =>
    rw [Location.components_path]
    simp
  case front =>
    rw [Path.locateFrom_join, Path.locateFrom_join, Location.locateFrom_path]
  case again =>
    rw [Location.locateFrom_path]
  case back =>
    rw [Path.locateFrom_join, Path.locateFrom_join, Path.locateFrom_join, hup,
      Path.locateFrom_of_name hx, Location.parent_entry, Path.locateFrom_join]

/-- A name is taken back above the root, whatever stands behind it. -/
theorem normalize_canonical_root :
    (⟨"x/."⟩ : Path).components = [.name ⟨"x", by decide⟩] ∧
    (⟨.empty, .root⟩ : Disk).normalize
        ((((⟨"/a/../../"⟩ : Path).join ⟨"x/."⟩).join ⟨".."⟩).join ⟨"../../b/./c"⟩)
      = (⟨.empty, .root⟩ : Disk).normalize ((⟨"/a/../../"⟩ : Path).join ⟨"../../b/./c"⟩) ∧
    ((⟨.empty, .root⟩ : Disk).normalize ((⟨"/a/../../"⟩ : Path).join ⟨"../../b/./c"⟩))
      = ⟨"/b/c"⟩ := by
  have hx : (⟨"x/."⟩ : Path).components = [.name ⟨"x", by decide⟩] := by decide +kernel
  obtain ⟨-, -, -, -, -, hback⟩ :=
    normalize_canonical ⟨.empty, .root⟩ ⟨"/a/../../"⟩ ⟨"../../b/./c"⟩
  exact ⟨hx, hback _ _ hx, by decide +kernel⟩

end Disk

end SheetGraph
