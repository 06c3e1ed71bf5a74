import SheetGraph.Proofs.Graph.Indexing

/-!
# Files that cannot be read

An indexing fails at the first file that cannot be read, parsed or resolved.  The three failures can
be told apart by the error: a parse leads to a badly quoted rule (`exists_of_imports_eq_error`), a
lookup to a target without a file or with several (`exists_of_resolve_eq_error`).  So an unreadable
file is one whose text the disk does not give (`ReadFailure.readText_eq`).

What is imported is a file, so on a disk whose files hold valid texts it can be read.  Then an
unreadable file is one of those that the indexing has started with
(`Graph.mem_of_inspect_unreadable`).
-/

namespace SheetGraph

variable {d : Disk} {libraries files : List Location} {l : Location} {path : Path}
  {cause : FileError} {e : ImportError}

/-! ### Errors of the parts -/

theorem exists_of_stripQuotes_eq_error {cs : List Char} (h : stripQuotes cs = .error e) :
    ∃ rule, e = .badlyQuoted rule none := by
  unfold stripQuotes at h
  dsimp only at h
  split at h
  · cases h
  · split at h
    · cases h
    · cases h
      exact ⟨_, rfl⟩

theorem exists_of_targetOf_eq_error {piece : List Char} (h : targetOf piece = .error e) :
    ∃ rule, e = .badlyQuoted rule none := by
  unfold targetOf at h
  dsimp only at h
  split at h
  · cases h
  · split at h
    · rename_i e' he
      cases h
      exact exists_of_stripQuotes_eq_error he
    · split at h <;> cases h

theorem exists_of_targetsOf_eq_error {argument : List Char} (h : targetsOf argument = .error e) :
    ∃ rule, e = .badlyQuoted rule none := by
  unfold targetsOf at h
  split at h
  · rename_i e' he
    cases h
    obtain ⟨-, piece, -, -, -, hpiece⟩ := mapM_eq_error_iff.mp he
    exact exists_of_targetOf_eq_error hpiece
  · cases h

/-- **A stylesheet fails to parse** only for a badly quoted rule. -/
theorem exists_of_imports_eq_error {mode : SyntaxMode} {text : List Char}
    (h : imports mode text = .error e) : ∃ rule, e = .badlyQuoted rule none := by
  unfold imports at h
  split at h
  · rename_i e' he
    cases h
    obtain ⟨-, argument, -, -, -, hargument⟩ := mapM_eq_error_iff.mp he
    exact exists_of_targetsOf_eq_error hargument
  · cases h

theorem exists_of_resolveTarget_eq_error {target : String} {bases : List SearchBase}
    (h : resolveTarget d l target bases = .error e) :
    e = .unresolvable target l.path ∨
      ∃ base ∈ bases, ∃ paths, e = .ambiguous target l.path base.shown paths := by
  induction bases with
  | nil =>
    cases h
    exact Or.inl rfl
  | cons base bases ih =>
    unfold resolveTarget at h
    split at h
    · rcases ih h with hnone | ⟨base', hbase, hmany⟩
      · exact Or.inl hnone
      · exact Or.inr ⟨base', List.mem_cons_of_mem base hbase, hmany⟩
    · cases h
    · cases h
      exact Or.inr ⟨base, List.mem_cons_self, _, rfl⟩

/-- **Targets fail to be resolved** only for one without a file, or with several in a directory. -/
theorem exists_of_resolve_eq_error {targets : List String}
    (h : resolve d l targets libraries = .error e) : ∃ target ∈ targets,
      e = .unresolvable target l.path ∨
        ∃ base ∈ d.searchBases l libraries, ∃ paths,
          e = .ambiguous target l.path base.shown paths := by
  obtain ⟨before, target, after, htargets, -, htarget⟩ := mapM_eq_error_iff.mp h
  refine ⟨target, ?_, exists_of_resolveTarget_eq_error htarget⟩
  rw [htargets]
  exact List.mem_append_right before List.mem_cons_self

/-! ### Unreadable files -/

/-- **A file fails as unreadable** only when its text cannot be read. -/
theorem ReadFailure.readText_eq (h : ReadFailure d libraries l (.unreadable path cause)) :
    path = l.path ∧ d.readText l.path = .error cause := by
  -- The cases of the failure are told apart by its error.
  generalize herror : ImportError.unreadable path cause = e at h
  cases h with
  | read hcause =>
    cases herror
    exact ⟨rfl, hcause⟩
  | parse _ he =>
    obtain ⟨rule, rfl⟩ := exists_of_imports_eq_error he
    cases herror
  | resolve _ _ he =>
    obtain ⟨target, -, rfl | ⟨base, -, paths, rfl⟩⟩ := exists_of_resolve_eq_error he
    · cases herror
    · cases herror

/-- Every file of the tree holds a valid text. -/
def FileTree.HoldsText (t : FileTree) : Prop :=
  ∀ l content, t.get? l = some (.file content) → ∃ text, String.fromUTF8? content = some text

/-- What leads to a file of such a tree can be read. -/
theorem Disk.exists_readText (htext : d.tree.HoldsText) (hfile : d.isFile l.path = true) :
    ∃ text, d.readText l.path = .ok text := by
  obtain ⟨k, content, hfind⟩ := Disk.isFile_iff.mp hfile
  obtain ⟨text, hcontent⟩ := htext k content (Disk.find_eq_ok_iff.mp hfind).2
  exact ⟨text, Disk.readText_eq_ok_iff.mpr
    ⟨content, Disk.readBytes_eq_ok_iff.mpr ⟨k, hfind⟩, hcontent⟩⟩

theorem FileTree.holdsText_of_all {t : FileTree} (h : (t.entries.all fun e =>
    match e.2 with
    | .file content => (String.fromUTF8? content).isSome
    | _ => true) = true) : t.HoldsText := by
  intro l content hget
  by_cases hroot : l = .root
  · rw [hroot, get?_root] at hget
    cases hget
  · exact Option.isSome_iff_exists.mp (List.all_eq_true.mp h _ ((get?_eq_some_iff hroot).mp hget))

/-- **An unreadable file** is one that the indexing was started with, as what is imported is a
file. -/
theorem Graph.mem_of_inspect_unreadable (htext : d.tree.HoldsText)
    (h : Graph.empty.inspect d libraries files = .error (.unreadable path cause)) :
    ∃ l ∈ files, path = l.path ∧ d.isFile l.path = false := by
  obtain ⟨order, horder⟩ := exists_preorder d libraries Graph.empty.isIndexed files
  obtain ⟨before, l, after, hsplit, -, hfailure⟩ := (inspect_eq_error_iff horder).mp h
  obtain ⟨hpath, hcause⟩ := hfailure.readText_eq
  have hnot : d.isFile l.path = false := by
    by_contra hfile
    rw [Bool.not_eq_false] at hfile
    obtain ⟨text, hread⟩ := Disk.exists_readText htext hfile
    rw [hread] at hcause
    cases hcause
  have hmem : l ∈ order := by
    rw [hsplit]
    exact List.mem_append_right before List.mem_cons_self
  refine ⟨l, ?_, hpath, hnot⟩
  cases horder.mem_iff.mp hmem with
  | root hl _ => exact hl
  | @next a _ _ hl _ =>
    -- Some file imports it, so it has been resolved to a file.
    cases hread : readImports d libraries a with
    | error e =>
      rw [nextOf, hread] at hl
      exact absurd hl List.not_mem_nil
    | ok ls =>
      rw [nextOf_of_ok hread] at hl
      rw [isFile_of_mem_readImports hread hl] at hnot
      cases hnot

end SheetGraph
