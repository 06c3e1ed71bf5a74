import SheetGraph.Proofs.Graph.Closure

/-!
# Dependencies on a disk

`DependsOn` says on which files a file depends as they are on a disk, without a graph.  A graph that
was indexed from some files knows exactly these dependencies (`Graph.indexes_of_inspect`).

On another disk a file with the same text has the same imports, unless a file has appeared in front
of one of them, or one of them has gone (`readImports_eq_or`).
-/

namespace SheetGraph

/-- `a` imports `b`, directly or through others, as the files are on the disk. -/
def DependsOn (d : Disk) (libraries : List Location) : Location → Location → Prop :=
  Relation.TransGen fun a b => b ∈ nextOf (readImports d libraries) a

variable {d d' : Disk} {libraries files : List Location} {l l' k : Location}

/-! ### Graphs of a disk -/

/-- The graph knows the files, and all that they depend on, as they are on the disk. -/
structure Graph.Indexes (g : Graph) (d : Disk) (libraries files : List Location) : Prop where
  /-- It is a graph that calls can make. -/
  wellFormed : g.WellFormed
  /-- It holds the files and what they depend on. -/
  mem_order_iff : ∀ l, l ∈ g.order ↔ l ∈ files ∨ ∃ m ∈ files, DependsOn d libraries m l
  /-- It knows the imports of each of them. -/
  readImports_eq : ∀ l ∈ g.order, readImports d libraries l = .ok (g.directChildren l)

theorem found_iff {α : Type} {next : α → List α} {roots : List α} {a : α} :
    Found next (fun _ => false) roots a ↔
      a ∈ roots ∨ ∃ r ∈ roots, Relation.TransGen (fun a b => b ∈ next a) r a := by
  constructor
  · intro h
    induction h with
    | root ha _ => exact Or.inl ha
    | next _ hb _ ih =>
      rcases ih with ha | ⟨r, hr, hra⟩
      · exact Or.inr ⟨_, ha, Relation.TransGen.single hb⟩
      · exact Or.inr ⟨r, hr, hra.tail hb⟩
  · rintro (ha | ⟨r, hr, hra⟩)
    · exact Found.root ha rfl
    · induction hra with
      | single hb => exact Found.next (Found.root hr rfl) hb rfl
      | tail _ hb ih => exact Found.next ih hb rfl

/-- **A graph that was indexed from some files knows them and what they depend on.** -/
theorem Graph.indexes_of_inspect {g : Graph} (h : Graph.empty.inspect d libraries files = .ok g) :
    g.Indexes d libraries files := by
  obtain ⟨order, horder⟩ := exists_preorder d libraries Graph.empty.isIndexed files
  obtain ⟨hwf, horder', -, hread⟩ := wellFormed_empty.inspect horder h
  have heq : g.order = order := horder'
  refine ⟨hwf, fun l => ?_, fun l hl => hread l (heq ▸ hl)⟩
  rw [heq, horder.mem_iff]
  exact found_iff

namespace Graph.Indexes

variable {g : Graph} (h : g.Indexes d libraries files)
include h

theorem nextOf_eq (hl : l ∈ g.order) : nextOf (readImports d libraries) l = g.directChildren l :=
  nextOf_of_ok (h.readImports_eq l hl)

theorem mem_order_of_dependsOn (hl : l ∈ g.order) (hk : DependsOn d libraries l k) :
    k ∈ g.order := by
  rw [h.mem_order_iff] at hl ⊢
  rcases hl with hl | ⟨m, hm, hml⟩
  · exact Or.inr ⟨l, hl, hk⟩
  · exact Or.inr ⟨m, hm, hml.trans hk⟩

/-- **What an indexed file depends on is what it reaches.** -/
theorem reaches_iff (hl : l ∈ g.order) : g.Reaches l k ↔ DependsOn d libraries l k := by
  constructor
  · intro hk
    induction hk with
    | single hb =>
      apply Relation.TransGen.single
      rw [h.nextOf_eq hl]
      exact hb
    | tail _ hc ih =>
      apply Relation.TransGen.tail ih
      rw [h.nextOf_eq (h.mem_order_of_dependsOn hl ih)]
      exact hc
  · intro hk
    induction hk with
    | single hb =>
      rw [h.nextOf_eq hl] at hb
      exact Relation.TransGen.single hb
    | @tail b c hab hc ih =>
      rw [h.nextOf_eq (h.mem_order_of_dependsOn hl hab)] at hc
      exact ih.tail hc

/-- What is indexed is a file, or a link to one. -/
theorem isFile (hl : l ∈ g.order) : d.isFile l.path = true := by
  obtain ⟨text, -, -, htext, -⟩ := readImports_eq_ok_iff.mp (h.readImports_eq l hl)
  obtain ⟨content, hcontent, -⟩ := Disk.readText_eq_ok_iff.mp htext
  obtain ⟨k, hk⟩ := Disk.readBytes_eq_ok_iff.mp hcontent
  exact Disk.isFile_iff.mpr ⟨k, content, hk⟩

end Graph.Indexes

/-! ### Imports on two disks -/

/-- The root is a directory, so it has no text. -/
theorem ne_root_of_readText {text : String} (h : d.readText l.path = .ok text) : l ≠ .root := by
  rintro rfl
  obtain ⟨content, hcontent, -⟩ := Disk.readText_eq_ok_iff.mp h
  obtain ⟨k, hk⟩ := Disk.readBytes_eq_ok_iff.mp hcontent
  rw [Disk.find_path (FileTree.get?_root d.tree) Entry.directory_ne_link] at hk
  cases hk

/-- The directories in which the targets of a file are looked up do not depend on the disk. -/
theorem searchBases_of_readText {text : String} (h : d.readText l.path = .ok text)
    (libraries : List Location) :
    d.searchBases l libraries = .of l.parent :: libraries.map .of := by
  rw [Disk.searchBases, Disk.baseOf, if_neg (ne_root_of_readText h)]

/-- **A file with the same text has the same imports on another disk**, unless some import on one
disk is no file on the other. -/
theorem readImports_eq_or {ls ls' : List Location} (h : readImports d libraries l = .ok ls)
    (h' : readImports d' libraries l = .ok ls')
    (htext : ∀ text, d.readText l.path = .ok text ↔ d'.readText l.path = .ok text) :
    ls = ls' ∨ (∃ k ∈ ls, d'.isFile k.path = false) ∨ ∃ k ∈ ls', d.isFile k.path = false := by
  obtain ⟨text, targets, files, hread, himports, hfiles, rfl⟩ := readImports_eq_ok_iff.mp h
  obtain ⟨text', targets', files', hread', himports', hfiles', rfl⟩ := readImports_eq_ok_iff.mp h'
  have htexts : text' = text := by
    rw [htext, hread'] at hread
    exact Except.ok.inj hread
  have htargets : targets' = targets := by
    rw [htexts, himports] at himports'
    exact (Except.ok.inj himports').symm
  by_contra hnot
  simp only [not_or, not_exists, not_and, Bool.not_eq_false, mem_collect, List.not_mem_nil,
    false_or] at hnot
  obtain ⟨hne, hold, hnew⟩ := hnot
  apply hne
  congr 1
  rw [htargets, resolve, searchBases_of_readText hread'] at hfiles'
  rw [resolve, searchBases_of_readText hread] at hfiles
  refine eq_of_mapM hfiles hfiles' ?_
  intro target k k' hk hk' hmem hmem'
  rcases resolveTarget_eq_or hk hk' with heq | hgone | hcome
  · exact heq
  · rw [hold k hmem] at hgone
    cases hgone
  · rw [hnew k' hmem'] at hcome
    cases hcome

end SheetGraph
