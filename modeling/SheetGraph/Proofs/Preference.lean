import Mathlib.Data.List.Nodup
import SheetGraph.Proofs.Candidates

/-!
# Candidates in order of preference

The candidates for a target lie in one directory, the one that the front of the target leads to, and
have different names there.  They come extension by extension, and with one extension the plain name
comes before the one with an underscore (`Preferred`).  So a target is only ambiguous when there are
two different files for it in that directory (`candidates_apart`), whatever the target is: with
empty texts between slashes, with dots in the place of names, or with no name at all.
-/

namespace SheetGraph

variable {cs cs' ext : List Char} {d : Disk}

/-! ### Order of names -/

/-- The place of an extension in the order of preference. -/
def rankOf (ext : List Char) : Nat :=
  sourceExtensions.findIdx fun known => Text.sameLetters known.toList ext

/-- The place of the text behind the last dot of a name. -/
def extensionRank (cs : List Char) : Nat :=
  rankOf (cs.reverse.takeWhile (· != '.')).reverse

/-- The first of two names is preferred to the second. -/
inductive Preferred (cs cs' : List Char) : Prop
  /-- Its extension comes first. -/
  | extension : extensionRank cs < extensionRank cs' → Preferred cs cs'
  /-- The second is the same name with an underscore in front. -/
  | underscore : extensionRank cs = extensionRank cs' → cs' = '_' :: cs → Preferred cs cs'

theorem Preferred.ne (h : Preferred cs cs') : cs ≠ cs' := by
  rintro rfl
  cases h with
  | extension hrank => exact Nat.lt_irrefl _ hrank
  | underscore _ hcs => exact List.cons_ne_self '_' cs hcs.symm

theorem extensionRank_append (front : List Char) (hext : '.' ∉ ext) :
    extensionRank (front ++ '.' :: ext) = rankOf ext := by
  rw [extensionRank, (cut_reverse front hext).1, List.reverse_reverse]

/-- An underscore in front of a name with a dot does not count. -/
theorem preferred_underscore (front : List Char) (hext : '.' ∉ ext) :
    Preferred (front ++ '.' :: ext) ('_' :: (front ++ '.' :: ext)) := by
  refine .underscore ?_ rfl
  rw [← List.cons_append, extensionRank_append front hext, extensionRank_append _ hext]

/-- **The names of candidates are in order of preference.** -/
theorem pairwise_candidateNames (name : List Char) :
    (candidateNames name).Pairwise Preferred := by
  have hdot : ∀ known ∈ sourceExtensions, '.' ∉ known.toList := by
    decide
  have hranks : sourceExtensions.Pairwise fun k k' => rankOf k.toList < rankOf k'.toList := by
    decide
  unfold candidateNames
  dsimp only
  split
  · rename_i hname
    rw [List.pairwise_pair]
    cases hext : extension? name with
    | none =>
      rw [hasSourceExtension, hext] at hname
      cases hname
    | some ext =>
      rw [← stem_append_extension hext]
      exact preferred_underscore _ (dot_notMem_extension hext)
  · rw [List.pairwise_flatMap]
    constructor
    · intro known hknown
      rw [List.map_cons, List.map_singleton, List.pairwise_pair]
      exact preferred_underscore name (hdot known hknown)
    · -- Names with different extensions stand as the extensions do.
      refine hranks.imp_of_mem fun {known known'} hknown hknown' hlt cs hcs cs' hcs' => ?_
      obtain ⟨v, -, rfl⟩ := List.mem_map.mp hcs
      obtain ⟨v', -, rfl⟩ := List.mem_map.mp hcs'
      apply Preferred.extension
      rw [extensionRank_append v (hdot known hknown), extensionRank_append v' (hdot known' hknown')]
      exact hlt

/-! ### Order of files -/

/-- The first of two files has the preferred name. -/
def Location.Preferred (l l' : Location) : Prop :=
  ∃ n ∈ l.fileName?, ∃ n' ∈ l'.fileName?, SheetGraph.Preferred n.chars n'.chars

theorem Location.Preferred.ne {l l' : Location} (h : l.Preferred l') : l ≠ l' := by
  rintro rfl
  obtain ⟨n, hn, n', hn', hpreferred⟩ := h
  rw [Option.mem_unique hn hn'] at hpreferred
  exact hpreferred.ne rfl

theorem pairwise_locations (target : String) (base : Location) :
    ((candidatePaths target).map (·.locateFrom base)).Pairwise Location.Preferred := by
  rw [candidatePaths_eq, List.map_map, List.pairwise_map]
  refine (pairwise_candidateNames _).imp_of_mem fun {cs cs'} hcs hcs' hpreferred => ?_
  obtain ⟨n, rfl, hdir⟩ := exists_entry_candidate hcs
  obtain ⟨n', rfl, hdir'⟩ := exists_entry_candidate hcs'
  rw [Function.comp_apply, Function.comp_apply, hdir, hdir']
  exact ⟨n, Location.fileName?_entry _ n, n', Location.fileName?_entry _ n', hpreferred⟩

/-- **No two candidates for a target stand for the same file.** -/
theorem nodup_locations (target : String) (base : Location) :
    ((candidatePaths target).map (·.locateFrom base)).Nodup :=
  (pairwise_locations target base).imp Location.Preferred.ne

/-! ### Ambiguous targets -/

theorem matchCandidates_eq_many_iff {base : Location} {candidates : List Path}
    {ls : List Location} : matchCandidates d base candidates = .many ls ↔
      existingCandidates d base candidates = ls ∧ 2 ≤ ls.length := by
  rw [matchCandidates]
  cases existingCandidates d base candidates with
  | nil => grind
  | cons l rest => cases rest <;> grind

/-- **The candidates for a target are different files of one directory**, so a target is ambiguous
only if two of them are there.  All that are there are named then, in order of preference. -/
theorem candidates_apart (d : Disk) (target : String) (base : Path) :
    let dir := d.normalize (base.join (candidateDir target))
    let places := (candidatePaths target).map fun c => d.normalize (base.join c)
    places.Nodup ∧ (∀ p ∈ places, p.parent? = some dir) ∧
    ∀ ls, matchCandidates d (d.locate base) (candidatePaths target) = .many ls →
      ls.map Location.path = places.filter d.isFile ∧ 2 ≤ ls.length ∧ ls.Nodup ∧
      (∀ l ∈ ls, d.isFile l.path = true ∧ l.path.parent? = some dir) ∧
      ls.Pairwise Location.Preferred := by
  intro dir places
  have hplaces : places
      = ((candidatePaths target).map (·.locateFrom (d.locate base))).map Location.path := by
    rw [List.map_map]
    exact List.map_congr_left fun c _ => congrArg Location.path (Path.locateFrom_join base c _)
  -- A candidate is a name in the directory that the target names.
  have hparent : ∀ p ∈ places, p.parent? = some dir := by
    intro p hp
    obtain ⟨c, hc, rfl⟩ := List.mem_map.mp hp
    rw [candidatePaths_eq] at hc
    obtain ⟨cs, hcs, rfl⟩ := List.mem_map.mp hc
    obtain ⟨n, rfl, hdir⟩ := exists_entry_candidate hcs
    rw [Disk.normalize, Disk.locate, Path.locateFrom_join, hdir, Location.parent?_entry,
      ← Path.locateFrom_join]
    rfl
  refine ⟨?_, hparent, fun ls hmany => ?_⟩
  · rw [hplaces]
    exact (nodup_locations target _).map Location.path_injective
  obtain ⟨rfl, htwo⟩ := matchCandidates_eq_many_iff.mp hmany
  have hfound : (existingCandidates d (d.locate base) (candidatePaths target)).map Location.path
      = places.filter d.isFile := by
    rw [hplaces, List.filter_map]
    rfl
  refine ⟨hfound, htwo, (nodup_locations target _).filter _, fun l hl => ?_,
    (pairwise_locations target _).filter _⟩
  have hmem := List.mem_map_of_mem (f := Location.path) hl
  rw [hfound] at hmem
  obtain ⟨hplace, hfile⟩ := List.mem_filter.mp hmem
  exact ⟨hfile, hparent _ hplace⟩

/-- A library next to the sources, with two files for one target and a directory in the place of a
third. -/
def gridDisk : Disk where
  tree := ((((FileTree.empty.put ⟨[⟨"lib", by decide⟩]⟩ .directory).put
    ⟨[⟨"lib", by decide⟩, ⟨"grid.css", by decide⟩]⟩ (.file .empty)).put
    ⟨[⟨"lib", by decide⟩, ⟨"grid.sass", by decide⟩]⟩ .directory).put
    ⟨[⟨"lib", by decide⟩, ⟨"_grid.scss", by decide⟩]⟩ (.file .empty))
  cwd := .root

/-- The two files are named, the one with the first extension first. -/
theorem candidates_apart_grid :
    let found : List Location := [⟨[⟨"lib", by decide⟩, ⟨"_grid.scss", by decide⟩]⟩,
      ⟨[⟨"lib", by decide⟩, ⟨"grid.css", by decide⟩]⟩]
    matchCandidates gridDisk (gridDisk.locate ⟨"scss/"⟩) (candidatePaths "..//./lib/grid")
      = .many found ∧
    found.Pairwise Location.Preferred ∧
    ∀ l ∈ found, gridDisk.isFile l.path = true ∧ l.path.parent? = some ⟨"/lib"⟩ := by
  intro found
  have hmany : matchCandidates gridDisk (gridDisk.locate ⟨"scss/"⟩)
      (candidatePaths "..//./lib/grid") = .many found := by decide +kernel
  have hdir : gridDisk.normalize ((⟨"scss/"⟩ : Path).join (candidateDir "..//./lib/grid"))
      = ⟨"/lib"⟩ := by decide +kernel
  obtain ⟨-, -, happart⟩ := candidates_apart gridDisk "..//./lib/grid" ⟨"scss/"⟩
  obtain ⟨-, -, -, hfiles, hordered⟩ := happart found hmany
  rw [hdir] at hfiles
  exact ⟨hmany, hordered, hfiles⟩

end SheetGraph
