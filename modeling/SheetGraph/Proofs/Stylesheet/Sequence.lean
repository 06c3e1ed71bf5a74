import SheetGraph.Proofs.Stylesheet.Comment
import SheetGraph.Proofs.Stylesheet.Directive

/-!
# Stylesheets one behind the other

A text that leaves nothing open (`Complete`) is read by itself, whatever stands behind it: the
targets of the whole are the ones of its parts, and the first part that fails decides
(`imports_append`).

The scanner looks back at what it has kept only to tell whether a parenthesis opens a `url(...)`.
Behind a complete text it sees nothing of that text (`Unseen`), so it goes on as if it were at the
start (`scan_behind`), and comments are removed on each side by themselves
(`removeComments_append`).  What is left of a complete text ends where a directive ends, so no
directive reaches across (`directiveArguments_append`).
-/

namespace SheetGraph

open Text (isBlank trimEnd sameLetters)

/-! ### Looking back -/

/-- A character that is none of its letters ends the search for a word. -/
theorem Text.isSome_dropWord?_append_cons {word : List Char} {c : Char}
    (h : ∀ w ∈ word, w.toLower ≠ c.toLower) (cs rest : List Char) :
    (dropWord? word (cs ++ c :: rest)).isSome = (dropWord? word cs).isSome := by
  induction word generalizing cs with
  | nil => rfl
  | cons w word ih =>
    rw [List.forall_mem_cons] at h
    cases cs with
    | nil =>
      -- The text is at its end, or at the character, and either way a letter is missing.
      rw [List.nil_append, dropWord?, dropWord?, if_neg h.1]
    | cons d cs =>
      rw [List.cons_append, dropWord?, dropWord?]
      split
      · exact ih h.2 cs
      · rfl

namespace CommentScanner

variable {s : CommentScanner} {kept : List Char} {c : Char}

/-- The scanner with more characters behind it; as all that is kept, they stand in reverse. -/
def behind (s : CommentScanner) (kept : List Char) : CommentScanner :=
  { s with kept := s.kept ++ kept }

/-- The scanner does not see the characters when it looks back. -/
def Unseen (kept : List Char) : Prop :=
  ∀ s : CommentScanner, (s.behind kept).endsWithUrl = s.endsWithUrl

/-- **What ends in a character that is no letter of `url`** is not seen, unless it ends in a `url`
and blanks. -/
theorem unseen_of_endsWithUrl (hc : ∀ w ∈ ['l', 'r', 'u'], w.toLower ≠ c.toLower)
    (hs : s.endsWithUrl = false) (hkept : s.kept.head? = some c) : Unseen s.kept := by
  intro s'
  obtain ⟨rest, hrest⟩ := List.head?_eq_some_iff.mp hkept
  unfold endsWithUrl at hs ⊢
  rw [behind]
  dsimp only
  rw [List.dropWhile_append]
  split
  · -- There are only blanks in front of the characters.
    rename_i hnone
    rw [hs, List.isEmpty_iff.mp hnone]
    rfl
  · rw [hrest]
    exact Text.isSome_dropWord?_append_cons hc _ rest

theorem stepText_behind (h : Unseen kept) (s : CommentScanner) (c : Char) :
    (s.behind kept).stepText c = (s.stepText c).behind kept := by
  have hurl : (s.behind kept).inUrl = s.inUrl := rfl
  unfold stepText
  rw [h s, hurl]
  split_ifs <;> rfl

/-- One character is read without what is not seen. -/
theorem step_behind (h : Unseen kept) (s : CommentScanner) (c : Char) :
    (s.behind kept).step c = (s.step c).behind kept := by
  obtain ⟨mode, inUrl, kept'⟩ := s
  cases mode with
  | text => exact stepText_behind h _ c
  | slash =>
    unfold step
    dsimp only [behind]
    split_ifs
    · rfl
    · rfl
    · -- The slash is kept after all, and the character is read behind it.
      exact stepText_behind h ⟨.text, inUrl, '/' :: kept'⟩ c
  | quoted q =>
    unfold step
    dsimp only [behind]
    split_ifs <;> rfl
  | escaped q => rfl
  | block star =>
    unfold step
    dsimp only [behind]
    split_ifs <;> rfl
  | line =>
    unfold step
    dsimp only [behind]
    split_ifs
    · exact stepText_behind h ⟨.text, inUrl, kept'⟩ c
    · rfl

/-- **A text is read without what is not seen.** -/
theorem scan_behind (h : Unseen kept) (s : CommentScanner) (cs : List Char) :
    (s.behind kept).scan cs = (s.scan cs).behind kept := by
  induction cs generalizing s with
  | nil => rfl
  | cons c cs ih => rw [scan_cons, scan_cons, step_behind h, ih]

theorem finish_behind (s : CommentScanner) (kept : List Char) :
    (s.behind kept).finish = kept.reverse ++ s.finish := by
  obtain ⟨mode, inUrl, kept'⟩ := s
  cases mode <;> simp [finish, behind]

/-! ### The last character -/

theorem kept_stepText (s : CommentScanner) (hc : c ≠ '/') :
    (s.stepText c).kept = c :: s.kept := by
  unfold stepText
  split_ifs with hquote hopen hclose hslash
  · rfl
  · rfl
  · rfl
  · exact absurd hslash.1 hc
  · rfl

/-- **A character behind which the scanner is in the text** has been kept, unless it is the slash
that ends a comment. -/
theorem head?_kept_step (hmode : (s.step c).mode = .text) (hc : c ≠ '/') :
    (s.step c).kept.head? = some c := by
  obtain ⟨mode, inUrl, kept⟩ := s
  unfold step at hmode ⊢
  cases mode with
  | text =>
    dsimp only
    rw [kept_stepText _ hc]
    rfl
  | slash =>
    dsimp only at hmode ⊢
    split_ifs at hmode ⊢ with hstar
    · rw [kept_stepText _ hc]
      rfl
  | quoted q =>
    dsimp only at hmode ⊢
    split_ifs at hmode ⊢ <;> rfl
  | escaped q => rfl
  | block star =>
    dsimp only at hmode ⊢
    split_ifs at hmode ⊢ with hend
    · exact absurd hend.2 hc
  | line =>
    dsimp only at hmode ⊢
    split_ifs at hmode ⊢ with hnewline
    rw [kept_stepText _ hc]
    rfl

theorem head?_kept_scan {cs : List Char} (hmode : (s.scan cs).mode = .text)
    (hlast : cs.getLast? = some c) (hc : c ≠ '/') : (s.scan cs).kept.head? = some c := by
  obtain ⟨front, rfl⟩ := List.getLast?_eq_some_iff.mp hlast
  rw [scan_append] at hmode ⊢
  exact head?_kept_step hmode hc

theorem finish_of_text (h : s.mode = .text) : s.finish = s.kept.reverse := by
  rw [finish, h]

/-- **Looking back** tells whether the text so far, blanks aside, ends in `url`. -/
theorem endsWithUrl_iff : s.endsWithUrl = true ↔
    ∃ word, sameLetters "url".toList word = true ∧ word <:+ trimEnd s.kept.reverse := by
  have hreverse : ∀ word : List Char,
      sameLetters ['l', 'r', 'u'] word = sameLetters "url".toList word.reverse := by
    intro word
    rw [Bool.eq_iff_iff, sameLetters, sameLetters, beq_iff_eq, beq_iff_eq, List.map_reverse,
      ← List.reverse_inj]
    rfl
  have htrim : trimEnd s.kept.reverse = (s.kept.dropWhile isBlank).reverse := by
    rw [trimEnd, List.reverse_reverse]
  rw [endsWithUrl, Option.isSome_iff_exists, htrim]
  constructor
  · rintro ⟨rest, hrest⟩
    obtain ⟨word, hword, heq⟩ := Text.dropWord?_eq_some_iff.mp hrest
    refine ⟨word.reverse, hreverse word ▸ hword, ?_⟩
    rw [List.reverse_suffix]
    exact ⟨rest, heq.symm⟩
  · rintro ⟨word, hword, hsuffix⟩
    obtain ⟨rest, hrest⟩ := List.reverse_suffix.mp (List.reverse_reverse word ▸ hsuffix)
    refine ⟨rest, Text.dropWord?_eq_some_iff.mpr ⟨word.reverse, ?_, hrest.symm⟩⟩
    rw [hreverse, List.reverse_reverse, hword]

end CommentScanner

open CommentScanner (start Unseen)

/-! ### Complete texts -/

/-- The character that ends a directive. -/
def SyntaxMode.terminator : SyntaxMode → Char
  | .braces => ';'
  | .indented => '\n'

/-- A text that leaves nothing open: it ends a directive, in no string, in no `url(...)` and in no
comment.  A newline does not keep a parenthesis from belonging to a `url` in front of it. -/
structure Complete (mode : SyntaxMode) (text : List Char) : Prop where
  mode_eq : (start.scan text).mode = .text
  inUrl_eq : (start.scan text).inUrl = false
  getLast?_eq : text.getLast? = some mode.terminator
  noUrl : mode = .indented → ∀ word, sameLetters "url".toList word = true →
    ¬ word <:+ trimEnd (removeComments text)

variable {mode : SyntaxMode} {a b : List Char}

namespace Complete

theorem head?_kept (h : Complete mode a) :
    (start.scan a).kept.head? = some mode.terminator :=
  CommentScanner.head?_kept_scan h.mode_eq h.getLast?_eq (by cases mode <;> decide)

theorem removeComments_eq (h : Complete mode a) :
    removeComments a = (start.scan a).kept.reverse :=
  CommentScanner.finish_of_text h.mode_eq

theorem endsWithUrl_eq_false (h : Complete mode a) : (start.scan a).endsWithUrl = false := by
  cases mode with
  | braces =>
    -- A semicolon is no blank, so looking back ends at it.
    obtain ⟨rest, hrest⟩ := List.head?_eq_some_iff.mp h.head?_kept
    rw [CommentScanner.endsWithUrl, hrest]
    rfl
  | indented =>
    rw [← Bool.not_eq_true, CommentScanner.endsWithUrl_iff]
    rintro ⟨word, hword, hsuffix⟩
    rw [← h.removeComments_eq] at hsuffix
    exact h.noUrl rfl word hword hsuffix

theorem unseen (h : Complete mode a) : Unseen (start.scan a).kept :=
  CommentScanner.unseen_of_endsWithUrl (by cases mode <;> simp [SyntaxMode.terminator])
    h.endsWithUrl_eq_false h.head?_kept

/-- Looking back tells as well that a text does not end in `url`. -/
theorem of_endsWithUrl (hmode : (start.scan a).mode = .text) (hurl : (start.scan a).inUrl = false)
    (hlast : a.getLast? = some mode.terminator) (hno : (start.scan a).endsWithUrl = false) :
    Complete mode a := by
  refine ⟨hmode, hurl, hlast, fun _ word hword hsuffix => ?_⟩
  rw [removeComments, CommentScanner.finish_of_text hmode] at hsuffix
  rw [CommentScanner.endsWithUrl_iff.mpr ⟨word, hword, hsuffix⟩] at hno
  cases hno

/-- **Comments are removed on each side by themselves.** -/
theorem removeComments_append (h : Complete mode a) (b : List Char) :
    removeComments (a ++ b) = removeComments a ++ removeComments b := by
  -- Nothing is open, so what is kept is all that tells the scanner from the one at the start.
  have hscan : start.scan a = start.behind (start.scan a).kept := by
    obtain ⟨hmode, hurl, -, -⟩ := h
    generalize start.scan a = s at hmode hurl
    obtain ⟨mode', inUrl, kept⟩ := s
    cases hmode
    cases hurl
    rfl
  rw [h.removeComments_eq, removeComments, CommentScanner.scan_append, hscan,
    CommentScanner.scan_behind h.unseen, CommentScanner.finish_behind]
  rfl

/-- What is left of a complete text ends a directive. -/
theorem exists_removeComments (h : Complete mode a) :
    ∃ front, removeComments a = front ++ [mode.terminator] := by
  obtain ⟨rest, hrest⟩ := List.head?_eq_some_iff.mp h.head?_kept
  exact ⟨rest.reverse, by rw [h.removeComments_eq, hrest, List.reverse_cons]⟩

end Complete

/-! ### Directives -/

/-- **No directive reaches across the end of another.** -/
theorem directiveArguments_append (mode : SyntaxMode) (x y : List Char) :
    directiveArguments mode (x ++ mode.terminator :: y)
      = directiveArguments mode (x ++ [mode.terminator]) ++ directiveArguments mode y := by
  cases mode with
  | braces =>
    -- Each part in front of the semicolon is ended by one, whatever comes behind.
    have hparts : ∀ rest : List Char, bracesArguments (x ++ ';' :: rest)
        = (x.splitOn ';').filterMap partArgument? ++ bracesArguments rest := by
      intro rest
      rw [bracesArguments_eq, bracesArguments_eq, List.splitOn_append_cons_self,
        List.dropLast_append_of_ne_nil (List.splitOn_ne_nil ';' rest), List.filterMap_append]
    show bracesArguments (x ++ ';' :: y) = bracesArguments (x ++ [';']) ++ bracesArguments y
    rw [hparts y, hparts [], bracesArguments_eq [], List.splitOn_nil, List.dropLast_singleton,
      List.filterMap_nil, List.append_nil]
  | indented =>
    show indentedArguments (x ++ '\n' :: y)
      = indentedArguments (x ++ ['\n']) ++ indentedArguments y
    rw [indentedArguments_append, indentedArguments_append,
      indentedArguments_eq_nil (List.not_mem_nil (a := '@')), List.append_nil]

theorem Complete.directiveArguments_append (h : Complete mode a) (b : List Char) :
    directiveArguments mode (removeComments (a ++ b))
      = directiveArguments mode (removeComments a) ++
        directiveArguments mode (removeComments b) := by
  obtain ⟨front, hfront⟩ := h.exists_removeComments
  rw [h.removeComments_append, hfront, List.append_assoc, List.singleton_append,
    SheetGraph.directiveArguments_append]

/-! ### Targets -/

/-- **Reading is compositional.**  Behind a complete text another one is read by itself: the targets
of both are read one after the other, and the first of the two that fails decides. -/
theorem imports_append (h : Complete mode a) :
    (∀ targets targets', imports mode a = .ok targets → imports mode b = .ok targets' →
      imports mode (a ++ b) = .ok (targets ++ targets')) ∧
    (∀ e, imports mode a = .error e → imports mode (a ++ b) = .error e) ∧
    ∀ targets e, imports mode a = .ok targets → imports mode b = .error e →
      imports mode (a ++ b) = .error e := by
  refine ⟨fun targets targets' ha hb => ?_, fun e ha => ?_, fun targets e ha hb => ?_⟩
  · obtain ⟨lists, hlists, rfl⟩ := imports_eq_ok_iff.mp ha
    obtain ⟨lists', hlists', rfl⟩ := imports_eq_ok_iff.mp hb
    rw [imports_eq_ok_iff, h.directiveArguments_append, mapM_append_eq, hlists, hlists']
    exact ⟨lists ++ lists', rfl, List.flatten_append⟩
  · rw [imports_eq_error_iff] at ha ⊢
    rw [h.directiveArguments_append, mapM_append_eq, ha]
  · obtain ⟨lists, hlists, -⟩ := imports_eq_ok_iff.mp ha
    rw [imports_eq_error_iff] at hb ⊢
    rw [h.directiveArguments_append, mapM_append_eq, hlists, hb]

/-- A comment may stand between two lines, and a quote without a partner behind them fails. -/
theorem imports_append_unclosed :
    let sheet := "@import a, b /* url(\n*/\n".toList
    let rest := "@import 'c".toList
    Complete .indented sheet ∧ imports .indented sheet = .ok ["a", "b"] ∧
      imports .indented rest = .error (.badlyQuoted "'c" none) ∧
      imports .indented (sheet ++ rest) = .error (.badlyQuoted "'c" none) := by
  have hcomplete : Complete .indented "@import a, b /* url(\n*/\n".toList :=
    Complete.of_endsWithUrl (by decide +kernel) (by decide +kernel) (by decide +kernel)
      (by decide +kernel)
  have hsheet : imports .indented "@import a, b /* url(\n*/\n".toList = .ok ["a", "b"] := by
    decide +kernel
  have hrest : imports .indented "@import 'c".toList = .error (.badlyQuoted "'c" none) := by
    decide +kernel
  exact ⟨hcomplete, hsheet, hrest, (imports_append hcomplete).2.2 _ _ hsheet hrest⟩

end SheetGraph
