import Mathlib.Data.List.Sort
import SheetGraph.Proofs.Discovery.Listing

/-!
# The order of what is listed

A search goes through the names of each directory in order, so what it lists is strictly increasing
(`pairwise_sourcesUnder`).  Two searches that list the same files list them in the same order
(`sourcesUnder_eq_of_mem_iff`).
-/

namespace SheetGraph

variable {d : Disk} {root dir l : Location} {options : FinderOptions} {sources : List Location}
  {n m : Name}

/-! ### Orders -/

section Pullback

variable {α β : Type} {cmp : β → β → Ordering} (f : α → β)

theorem transCmp_on [Std.TransCmp cmp] : Std.TransCmp fun a b => cmp (f a) (f b) where
  eq_swap {_ _} := Std.OrientedCmp.eq_swap
  isLE_trans {_ _ _} := Std.TransCmp.isLE_trans

theorem lawfulEqCmp_on [Std.LawfulEqCmp cmp] (hf : Function.Injective f) :
    Std.LawfulEqCmp fun a b => cmp (f a) (f b) where
  compare_self {_} := Std.ReflCmp.compare_self
  eq_of_compare h := hf (Std.LawfulEqCmp.eq_of_compare h)

end Pullback

instance transCmp_toNat : Std.TransCmp fun a b : Char => Ord.compare a.toNat b.toNat :=
  transCmp_on Char.toNat

instance lawfulEqCmp_toNat : Std.LawfulEqCmp fun a b : Char => Ord.compare a.toNat b.toNat :=
  lawfulEqCmp_on Char.toNat fun _ _ => Char.toNat_inj.mp

instance : Std.TransCmp Name.compare :=
  transCmp_on Name.chars

instance : Std.LawfulEqCmp Name.compare :=
  lawfulEqCmp_on Name.chars fun _ _ h => Name.ext_text (String.toList_injective h)

instance : Std.TransCmp Location.compare :=
  transCmp_on Location.names

instance : Std.LawfulEqCmp Location.compare :=
  lawfulEqCmp_on Location.names fun a b h => by
    cases a
    cases b
    exact congrArg Location.mk h

instance : Std.TransCmp Component.compare := by
  have heq : Component.compare = compareLex (fun a b => Ord.compare a.rank b.rank) fun a b =>
      List.compareLex (fun c d : Char => Ord.compare c.toNat d.toNat) a.text b.text := by
    funext a b
    cases a <;> cases b <;> rfl
  have hrank : Std.TransCmp fun a b : Component => Ord.compare a.rank b.rank :=
    transCmp_on Component.rank
  have htext : Std.TransCmp fun a b : Component =>
      List.compareLex (fun c d : Char => Ord.compare c.toNat d.toNat) a.text b.text :=
    transCmp_on Component.text
  rw [heq]
  infer_instance

instance : Std.LawfulEqCmp Component.compare where
  compare_self {_} := Std.ReflCmp.compare_self
  eq_of_compare {a b} h := by
    cases a <;> cases b
    case name.name n m =>
      have hnames : n.compare m = .eq := h
      rw [Std.LawfulEqCmp.eq_of_compare hnames]
    all_goals first | rfl | cases h

instance : Std.TransCmp Path.compare :=
  transCmp_on Path.components

/-- **What is sorted** is strictly increasing, if no two elements are equal in the order. -/
theorem pairwise_mergeSort_lt {α : Type} {cmp : α → α → Ordering} [Std.TransCmp cmp] {as : List α}
    (h : as.Pairwise fun a b => cmp a b ≠ .eq) :
    (as.mergeSort fun a b => (cmp a b).isLE).Pairwise fun a b => cmp a b = .lt := by
  have hswap : ∀ a b, cmp b a = (cmp a b).swap := fun _ _ => Std.OrientedCmp.eq_swap
  have hle : (as.mergeSort fun a b => (cmp a b).isLE).Pairwise
      fun a b => (cmp a b).isLE = true := by
    apply List.pairwise_mergeSort
    · exact fun a b c => Std.TransCmp.isLE_trans
    · intro a b
      rw [hswap a b]
      cases cmp a b <;> rfl
  have hne : (as.mergeSort fun a b => (cmp a b).isLE).Pairwise fun a b => cmp a b ≠ .eq := by
    refine (List.mergeSort_perm as _).symm.pairwise h fun {a b} hab hba => hab ?_
    rw [hswap b a, hba]
    rfl
  refine (hle.and hne).imp fun {a b} hab => ?_
  cases hcmp : cmp a b with
  | lt => rfl
  | eq => exact absurd hcmp hab.2
  | gt =>
    rw [hcmp] at hab
    cases hab.1

theorem compareLex_append_left {α : Type} {cmp : α → α → Ordering} [Std.ReflCmp cmp]
    (pre as bs : List α) :
    List.compareLex cmp (pre ++ as) (pre ++ bs) = List.compareLex cmp as bs := by
  induction pre with
  | nil => rfl
  | cons a pre ih =>
    have hself : cmp a a = .eq := Std.ReflCmp.compare_self
    rw [List.cons_append, List.cons_append, List.compareLex_cons_cons, hself, ih]
    rfl

/-- What lies in different places of a directory is in the order of their names. -/
theorem Location.compare_of_isWithin {a b : Location} (hnm : n.compare m = .lt)
    (ha : a.isWithin (dir.entry n) = true) (hb : b.isWithin (dir.entry m) = true) :
    a.compare b = .lt := by
  obtain ⟨more, rfl⟩ := isWithin_iff.mp ha
  obtain ⟨more', rfl⟩ := isWithin_iff.mp hb
  rw [compare, names_below, names_below, names_entry, names_entry, List.append_assoc,
    List.append_assoc, compareLex_append_left, List.singleton_append, List.singleton_append,
    List.compareLex_cons_cons, hnm]
  rfl

/-! ### Names in a directory -/

theorem FileTree.nodup_namesIn (t : FileTree) (dir : Location) : (t.namesIn dir).Nodup := by
  rw [namesIn, List.nodup_mergeSort]
  have hmap : (t.entries.filterMap fun e => if e.1.parent = dir then e.1.fileName? else none)
      = (t.entries.map (·.1)).filterMap fun l => if l.parent = dir then l.fileName? else none := by
    rw [List.filterMap_map]
    rfl
  rw [hmap]
  refine t.distinct.filterMap fun a b n ha hb => ?_
  -- A location is told by its directory and its name.
  have hentry : ∀ l : Location, (n ∈ if l.parent = dir then l.fileName? else none) →
      l = dir.entry n := by
    intro l hl
    split at hl
    · rename_i hparent
      have hlast : l.names.getLast? = some n := hl
      have hroot : l ≠ .root := by
        rintro rfl
        cases hlast
      obtain ⟨m, hm⟩ := Location.exists_entry_parent hroot
      rw [hm, Location.names_entry, List.getLast?_concat] at hlast
      cases hlast
      rw [hparent] at hm
      exact hm
    · cases hl
  rw [hentry a ha, hentry b hb]

/-- **Names in a directory** are strictly increasing. -/
theorem FileTree.pairwise_namesIn (t : FileTree) (dir : Location) :
    (t.namesIn dir).Pairwise fun a b => a.compare b = .lt := by
  have hnodup := t.nodup_namesIn dir
  rw [namesIn, List.nodup_mergeSort] at hnodup
  exact pairwise_mergeSort_lt (hnodup.imp fun hne heq =>
    hne (Std.LawfulEqCmp.eq_of_compare heq))

/-! ### Searches -/

/-- **A search lists what is below its directory.** -/
theorem isWithin_of_mem_gatherSources (levels : Nat)
    (h : gatherSources d root options levels dir = .ok sources) (hl : l ∈ sources) :
    l.isWithin dir = true := by
  induction levels generalizing dir sources with
  | zero =>
    cases h
    exact absurd hl List.not_mem_nil
  | succ levels ih =>
    rw [gatherSources_succ] at h
    split at h
    · cases h
    · obtain ⟨⟨n, e⟩, -, ls, hls, hl⟩ := (mem_flatten_mapM h).mp hl
      by_cases he : e = .directory
      · subst he
        obtain ⟨hrec, hnew⟩ := mem_gatherEntry_of_directory hls hl
        rw [gatherEntry_of_directory hrec hnew] at hls
        exact Location.isWithin_trans (ih hls hl)
          (Location.isWithin_entry (Location.isWithin_self dir) n)
      · rw [((mem_gatherEntry_of_ne he hls).mp hl).1]
        exact Location.isWithin_entry (Location.isWithin_self dir) n

theorem isWithin_of_mem_gatherEntry {levels : Nat} {e : Entry}
    (h : gatherEntry d root options levels dir (n, e) = .ok sources) (hl : l ∈ sources) :
    l.isWithin (dir.entry n) = true := by
  by_cases he : e = .directory
  · subst he
    obtain ⟨hrec, hnew⟩ := mem_gatherEntry_of_directory h hl
    rw [gatherEntry_of_directory hrec hnew] at h
    exact isWithin_of_mem_gatherSources levels h hl
  · rw [((mem_gatherEntry_of_ne he h).mp hl).1]
    exact Location.isWithin_self _

/-- Entries in the order of their names have what they come to in that order. -/
theorem pairwise_of_forall₂ {levels : Nat} {entries : List (Name × Entry)}
    {lists : List (List Location)}
    (hentries : entries.Pairwise fun a b => a.1.compare b.1 = .lt)
    (h : List.Forall₂ (fun entry ls => gatherEntry d root options levels dir entry = .ok ls)
      entries lists) :
    lists.Pairwise fun as bs => ∀ a ∈ as, ∀ b ∈ bs, a.compare b = .lt := by
  induction h with
  | nil => exact List.Pairwise.nil
  | @cons entry ls entries lists hentry hrest ih =>
    obtain ⟨hfirst, hentries⟩ := List.pairwise_cons.mp hentries
    refine List.pairwise_cons.mpr ⟨fun ls' hls' a ha b hb => ?_, ih hentries⟩
    obtain ⟨entry', hentry', hls'⟩ := exists_of_mem_mapM (mapM_eq_ok_iff.mpr hrest) hls'
    exact Location.compare_of_isWithin (hfirst entry' hentry')
      (isWithin_of_mem_gatherEntry hentry ha)
      (isWithin_of_mem_gatherEntry hls' hb)

/-- **What a search lists is strictly increasing**, on all levels. -/
theorem pairwise_gatherSources (levels : Nat)
    (h : gatherSources d root options levels dir = .ok sources) :
    sources.Pairwise fun a b => a.compare b = .lt := by
  induction levels generalizing dir sources with
  | zero =>
    cases h
    exact List.Pairwise.nil
  | succ levels ih =>
    rw [gatherSources_succ] at h
    cases hread : d.readDir dir.path with
    | error e =>
      rw [hread] at h
      cases h
    | ok entries =>
      rw [hread] at h
      dsimp only at h
      cases hlists : entries.mapM (gatherEntry d root options levels dir) with
      | error e =>
        rw [hlists] at h
        cases h
      | ok lists =>
        rw [hlists] at h
        cases h
        have hsorted : entries.Pairwise fun a b => a.1.compare b.1 = .lt := by
          obtain ⟨real, hfind⟩ := Disk.exists_find_of_readDir hread
          rw [Disk.readDir_of_find hfind rfl] at hread
          cases hread
          refine (d.tree.pairwise_namesIn real).filterMap _ fun n m hnm a ha b hb => ?_
          obtain ⟨e, -, rfl⟩ := Option.map_eq_some_iff.mp ha
          obtain ⟨e', -, rfl⟩ := Option.map_eq_some_iff.mp hb
          exact hnm
        -- The list of an entry is sorted, and the lists of two entries stand as their names do.
        refine List.pairwise_flatten.mpr ⟨fun ls hls => ?_,
          pairwise_of_forall₂ hsorted (mapM_eq_ok_iff.mp hlists)⟩
        obtain ⟨⟨n, e⟩, -, hentry⟩ := exists_of_mem_mapM hlists hls
        unfold gatherEntry at hentry
        split at hentry
        · split at hentry
          · exact ih hentry
          · cases hentry
            exact List.Pairwise.nil
        · split at hentry
          · cases hentry
            exact List.Pairwise.nil
          · cases hlisted : isListed root options (dir.entry n) with
            | error e =>
              rw [hlisted] at hentry
              cases hentry
            | ok listed =>
              rw [hlisted] at hentry
              cases hentry
              cases listed with
              | true => exact List.pairwise_singleton _ _
              | false => exact List.Pairwise.nil

theorem pairwise_sourcesUnder (h : sourcesUnder d root options = .ok sources) :
    sources.Pairwise fun a b => a.compare b = .lt :=
  pairwise_gatherSources _ h

instance : Std.Irrefl fun a b : Location => a.compare b = .lt where
  irrefl a h := by
    have hself : a.compare a = .eq := Std.ReflCmp.compare_self
    rw [hself] at h
    cases h

instance : Std.Antisymm fun a b : Location => a.compare b = .lt where
  antisymm a b h h' := by
    have hswap : a.compare b = (b.compare a).swap := Std.OrientedCmp.eq_swap
    rw [h, h'] at hswap
    cases hswap

/-- **Two searches that list the same** list it in the same order. -/
theorem sourcesUnder_eq_of_mem_iff {d' : Disk} {root' : Location} {options' : FinderOptions}
    {sources' : List Location} (h : sourcesUnder d root options = .ok sources)
    (h' : sourcesUnder d' root' options' = .ok sources')
    (hsame : ∀ l, l ∈ sources ↔ l ∈ sources') : sources = sources' :=
  (pairwise_sourcesUnder h).eq_of_mem_iff (pairwise_sourcesUnder h') hsame

end SheetGraph
