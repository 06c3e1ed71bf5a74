import SheetGraph.Proofs.Stylesheet.Comment
import SheetGraph.Proofs.Stylesheet.Directive

/-!
# Imports in strings

An `@import` that stands in a string is no directive.  In the indented syntax it is not taken for
one either: the quote in front of it is left with it, and a directive has nothing but spaces and
tabs in front of it on its line.  In the syntax with braces a directive may begin anywhere, in a
string too, and is only cut where a semicolon ends it.

So a stylesheet in which each `@import` stands in a string has no imports
(`imports_eq_nil_of_inString`), provided that its comments do not hide one, and that in the syntax
with braces no semicolon ends one.  Without either proviso it may have some
(`string_taken_for_import`).
-/

namespace SheetGraph

open CommentScanner (start)
open Text (isSpaceOrTab sameLetters)

/-! ### Strings of one line -/

/-- What may stand between two quotes `q` on one line: a quote in it has a backslash in front. -/
inductive StringBody (q : Char) : List Char → Prop
  | nil : StringBody q []
  | char {c : Char} {cs : List Char} : c ≠ q → c ≠ '\\' → c ≠ '\n' → StringBody q cs →
      StringBody q (c :: cs)
  | escape {c : Char} {cs : List Char} : c ≠ '\n' → StringBody q cs → StringBody q ('\\' :: c :: cs)

/-- The scanner is in no string and in no comment, though a slash may be held back. -/
def CommentScanner.IsOutside (s : CommentScanner) : Prop :=
  s.mode = .text ∨ s.mode = .slash

/-- `InString front word back`: in the text `front ++ word ++ back` the word stands in a string that
is opened and closed on one line. -/
inductive InString : List Char → List Char → List Char → Prop
  | intro {q : Char} {before opened word closed after : List Char} : isQuote q = true →
      (start.scan before).IsOutside → StringBody q (opened ++ (word ++ closed)) →
      InString (before ++ q :: opened) word (closed ++ q :: after)

/-- Each `@import` of the text stands in a string. -/
def ImportsInStrings (text : List Char) : Prop :=
  ∀ front word back, text = front ++ (word ++ back) → sameLetters importWord word = true →
    InString front word back

/-- Each `@import` that is left without the comments was there with them, so none has come together
from what stands around a comment. -/
def ImportsKeptWhole (text : List Char) : Prop :=
  ∀ front word back, removeComments text = front ++ (word ++ back) →
    sameLetters importWord word = true →
    ∃ front' back', text = front' ++ (word ++ back') ∧ removeComments front' = front

/-- No semicolon stands behind an `@import`, comments aside. -/
def ImportsUnended (text : List Char) : Prop :=
  ∀ front word back, removeComments text = front ++ (word ++ back) →
    sameLetters importWord word = true → ';' ∉ back

variable {q : Char} {cs body text front word back : List Char}

theorem StringBody.of_forall (h : ∀ c ∈ cs, c ≠ q ∧ c ≠ '\\' ∧ c ≠ '\n') : StringBody q cs := by
  induction cs with
  | nil => exact .nil
  | cons c cs ih =>
    rw [List.forall_mem_cons] at h
    exact .char h.1.1 h.1.2.1 h.1.2.2 (ih h.2)

theorem StringBody.newline_notMem (h : StringBody q body) : '\n' ∉ body := by
  induction h with
  | nil => exact List.not_mem_nil
  | char _ _ hnewline _ ih =>
    rw [List.mem_cons, not_or]
    exact ⟨Ne.symm hnewline, ih⟩
  | escape hnewline _ ih =>
    rw [List.mem_cons, List.mem_cons, not_or, not_or]
    exact ⟨by decide, Ne.symm hnewline, ih⟩

namespace CommentScanner

/-- **The scanner keeps a string as it is**, up to any place in it. -/
theorem finish_scan_stringBody (h : StringBody q body) (hcs : cs <+: body) (inUrl : Bool)
    (kept : List Char) :
    ((⟨.quoted q, inUrl, kept⟩ : CommentScanner).scan cs).finish = kept.reverse ++ cs := by
  induction h generalizing cs kept with
  | nil =>
    rw [List.prefix_nil.mp hcs, List.append_nil]
    rfl
  | @char c body hquote hescape hnewline _ ih =>
    cases cs with
    | nil =>
      rw [List.append_nil]
      rfl
    | cons c' cs =>
      obtain ⟨hc, hrest⟩ := List.cons_prefix_cons.mp hcs
      have hstep : (⟨.quoted q, inUrl, kept⟩ : CommentScanner).step c
          = ⟨.quoted q, inUrl, c :: kept⟩ := by
        show (if c = '\\' then _ else if c = q ∨ c = '\n' then _ else _) = _
        rw [if_neg hescape, if_neg (by tauto)]
        rfl
      rw [hc, scan_cons, hstep, ih hrest, List.reverse_cons, List.append_assoc,
        List.singleton_append]
  | @escape c body hnewline _ ih =>
    cases cs with
    | nil =>
      rw [List.append_nil]
      rfl
    | cons c' cs =>
      obtain ⟨hc, hrest⟩ := List.cons_prefix_cons.mp hcs
      cases cs with
      | nil =>
        -- The text ends behind the backslash.
        rw [hc, ← List.reverse_cons]
        rfl
      | cons d cs =>
        obtain ⟨hd, hrest⟩ := List.cons_prefix_cons.mp hrest
        rw [hc, hd]
        show ((⟨.quoted q, inUrl, c :: '\\' :: kept⟩ : CommentScanner).scan cs).finish = _
        rw [ih hrest]
        simp

/-- A quote outside of strings opens one. -/
theorem step_quote {s : CommentScanner} (hs : s.IsOutside) (hq : isQuote q = true) :
    s.step q = ⟨.quoted q, s.inUrl, q :: s.finish.reverse⟩ := by
  have hquote : q = '"' ∨ q = '\'' := isQuote_iff.mp hq
  obtain ⟨mode, inUrl, kept⟩ := s
  rcases hs with rfl | rfl
  · show stepText _ q = _
    rw [stepText, if_pos hquote]
    simp [finish, keep]
  · have hstar : q ≠ '*' := by
      rcases hquote with rfl | rfl <;> decide
    have hslash : q ≠ '/' := by
      rcases hquote with rfl | rfl <;> decide
    show (if q = '*' then _ else if q = '/' then _ else stepText _ q) = _
    rw [if_neg hstar, if_neg hslash, stepText, if_pos hquote]
    simp [finish, keep]

end CommentScanner

/-- **The quote in front of a word in a string is left with it**, on the same line. -/
theorem InString.exists_quote (h : InString front word back) :
    ∃ q before opened, isQuote q = true ∧ '\n' ∉ opened ∧
      removeComments front = before ++ q :: opened := by
  cases h with
  | @intro q before opened _ closed after hq houtside hbody =>
    refine ⟨q, removeComments before, opened, hq, ?_, ?_⟩
    · exact fun hmem => hbody.newline_notMem (List.mem_append_left _ hmem)
    · rw [removeComments, CommentScanner.scan_append, CommentScanner.scan_cons,
        CommentScanner.step_quote houtside hq,
        CommentScanner.finish_scan_stringBody hbody (List.prefix_append opened _),
        List.reverse_cons, List.reverse_reverse, List.append_assoc, List.singleton_append]
      rfl

/-! ### Directives -/

/-- No line begins with spaces, tabs and a word that has a quote in front on the same line. -/
theorem not_indent_of_quote {lines indent before opened : List Char} (hq : isQuote q = true)
    (hopened : '\n' ∉ opened) (hlines : lines = [] ∨ lines.getLast? = some '\n')
    (hindent : ∀ c ∈ indent, isSpaceOrTab c = true) :
    lines ++ indent ≠ before ++ q :: opened := by
  have hspace : q ∉ indent := by
    intro hmem
    have hblank := hindent q hmem
    rw [isSpaceOrTab_eq_false_of_isQuote hq] at hblank
    cases hblank
  have hnewline : '\n' ≠ q := by
    rintro rfl
    exact absurd hq (by decide)
  intro heq
  rcases List.append_eq_append_iff.mp heq with ⟨mid, -, hmid⟩ | ⟨mid, hfront, hmid⟩
  · rw [hmid] at hspace
    exact hspace (List.mem_append_right mid List.mem_cons_self)
  · cases mid with
    | nil =>
      rw [List.nil_append] at hmid
      rw [← hmid] at hspace
      exact hspace List.mem_cons_self
    | cons c mid =>
      -- The quote stands on an earlier line, so a newline comes behind it.
      obtain ⟨rfl, rfl⟩ := List.cons.inj hmid
      rw [hfront, List.getLast?_append_of_ne_nil before (List.cons_ne_nil q mid)] at hlines
      rcases hlines with hnil | hlast
      · exact absurd hnil (by simp)
      · rcases List.mem_cons.mp (List.mem_of_getLast? hlast) with hmem | hmem
        · exact hnewline hmem
        · exact hopened (List.mem_append_left indent hmem)

theorem indentedArguments_eq_nil_of_inString (hstrings : ImportsInStrings text)
    (hwhole : ImportsKeptWhole text) : indentedArguments (removeComments text) = [] := by
  rw [indentedArguments, List.filterMap_eq_nil_iff]
  intro line hline
  obtain ⟨pieces, rest, hpieces⟩ := List.append_of_mem hline
  obtain ⟨lines, back, hlines, -, htext⟩ := exists_of_splitOn hpieces
  cases hargument : lineArgument? line with
  | none => rfl
  | some argument =>
    exfalso
    -- The word stands in a string, whose quote is left on the line: but only blanks are there.
    obtain ⟨indent, word, closed, hindent, hword, rfl⟩ := exists_of_lineArgument? hargument
    have hcut : removeComments text = (lines ++ indent) ++ (word ++ (closed ++ back)) := by
      rw [htext]
      simp only [List.append_assoc]
    obtain ⟨front', back', htext', hfront'⟩ := hwhole _ _ _ hcut hword
    obtain ⟨q, before, opened, hq, hopened, hquote⟩ :=
      (hstrings front' word back' htext' hword).exists_quote
    rw [hfront'] at hquote
    exact not_indent_of_quote hq hopened hlines hindent hquote

theorem bracesArguments_eq_nil_of_unended (hunended : ImportsUnended text) :
    bracesArguments (removeComments text) = [] := by
  rw [bracesArguments_eq, List.filterMap_eq_nil_iff]
  intro part hpart
  obtain ⟨parts, rest, hparts⟩ := List.append_of_mem hpart
  -- The part is not the last one, so a semicolon ends it.
  have hne : (removeComments text).splitOn ';' ≠ [] := List.splitOn_ne_nil ';' _
  have hpieces : (removeComments text).splitOn ';'
      = parts ++ part :: (rest ++ [((removeComments text).splitOn ';').getLast hne]) := by
    rw [← List.cons_append, ← List.append_assoc, ← hparts, List.dropLast_concat_getLast]
  obtain ⟨front, back, -, hback, htext⟩ := exists_of_splitOn hpieces
  have hsemicolon : ';' ∈ back := by
    rcases hback with ⟨hnil, -⟩ | hhead
    · exact absurd hnil (by simp)
    · exact List.mem_of_head? hhead
  cases hargument : partArgument? part with
  | none => rfl
  | some argument =>
    exfalso
    obtain ⟨front', word, back', hword, rfl⟩ := exists_of_partArgument? hargument
    have hcut : removeComments text = (front ++ front') ++ (word ++ (back' ++ back)) := by
      rw [htext]
      simp only [List.append_assoc]
    exact hunended _ _ _ hcut hword (List.mem_append_right back' hsemicolon)

/-! ### Texts without comments -/

/-- What is kept of one more character is at most that character. -/
theorem CommentScanner.finish_step_sublist (s : CommentScanner) (c : Char) :
    (s.step c).finish.Sublist (s.finish ++ [c]) := by
  rcases finish_step s c with hkept | ⟨-, lost, hlost, -⟩
  · rw [hkept]
  · rw [hlost, List.append_assoc]
    exact List.sublist_append_left _ _

/-- **Nothing is put in the place of a comment.** -/
theorem CommentScanner.finish_scan_sublist (s : CommentScanner) (cs : List Char) :
    (s.scan cs).finish.Sublist (s.finish ++ cs) := by
  induction cs generalizing s with
  | nil =>
    rw [List.append_nil]
    exact List.Sublist.refl _
  | cons c cs ih =>
    have hstep := (finish_step_sublist s c).append_right cs
    rw [List.append_assoc, List.singleton_append] at hstep
    exact (ih (s.step c)).trans hstep

/-- A text of which all is kept is kept up to any place in it. -/
theorem removeComments_eq_of_append {rest : List Char}
    (h : removeComments (front ++ rest) = front ++ rest) : removeComments front = front := by
  have hrest := CommentScanner.finish_scan_sublist (start.scan front) rest
  rw [← CommentScanner.scan_append] at hrest
  -- All that was to be lost in front of `rest` would be missing at the end.
  have hlength := hrest.length_le
  change (removeComments (front ++ rest)).length ≤ (removeComments front ++ rest).length at hlength
  rw [h, List.length_append, List.length_append] at hlength
  exact (CommentScanner.finish_scan_sublist start front).eq_of_length_le
    (Nat.le_of_add_le_add_right hlength)

/-- **A text without comments** hides no import in one. -/
theorem ImportsKeptWhole.of_removeComments_eq (h : removeComments text = text) :
    ImportsKeptWhole text := by
  intro front word back htext _
  rw [h] at htext
  refine ⟨front, back, htext, ?_⟩
  rw [htext] at h
  exact removeComments_eq_of_append h

/-- The word has seven letters, so its place tells what is in front of it and behind it. -/
theorem take_of_sameLetters (hword : sameLetters importWord word = true) (front back : List Char) :
    front.length < (front ++ (word ++ back)).length ∧
      (front ++ (word ++ back)).take front.length = front ∧
      ((front ++ (word ++ back)).drop front.length).take 7 = word ∧
      (front ++ (word ++ back)).drop (front.length + 7) = back := by
  have hlength : word.length = 7 := by
    have hletters := congrArg List.length (eq_of_beq hword)
    rw [List.length_map, List.length_map] at hletters
    exact hletters.symm
  refine ⟨?_, List.take_left, ?_, ?_⟩
  · simp only [List.length_append]
    omega
  · rw [List.drop_left, List.take_left' hlength]
  · rw [← List.drop_drop, List.drop_left, List.drop_left' hlength]

/-- It is enough to look at each place of the text. -/
theorem ImportsInStrings.of_take (h : ∀ n < text.length,
    sameLetters importWord ((text.drop n).take 7) = true →
    InString (text.take n) ((text.drop n).take 7) (text.drop (n + 7))) :
    ImportsInStrings text := by
  rintro front word back rfl hword
  obtain ⟨hlt, hfront, htake, hback⟩ := take_of_sameLetters hword front back
  have hplace := h front.length hlt
  rw [hfront, htake, hback] at hplace
  exact hplace hword

/-- It is enough to look at each place of what is left without comments. -/
theorem ImportsUnended.of_drop (h : ∀ n < (removeComments text).length,
    sameLetters importWord (((removeComments text).drop n).take 7) = true →
    ';' ∉ (removeComments text).drop (n + 7)) : ImportsUnended text := by
  intro front word back htext hword
  obtain ⟨hlt, -, htake, hback⟩ := take_of_sameLetters hword front back
  rw [← htext] at hlt htake hback
  have hplace := h front.length hlt
  rw [htake, hback] at hplace
  exact hplace hword

/-! ### Stylesheets -/

variable {mode : SyntaxMode}

/-- **A stylesheet has no imports when each `@import` in it stands in a string**, as long as the
comments in it do not hide one, and in the syntax with braces no semicolon stands behind one. -/
theorem imports_eq_nil_of_inString (hstrings : ImportsInStrings text)
    (hwhole : ImportsKeptWhole text) (hunended : mode = .braces → ImportsUnended text) :
    imports mode text = .ok [] := by
  have hnone : directiveArguments mode (removeComments text) = [] := by
    cases mode with
    | braces => exact bracesArguments_eq_nil_of_unended (hunended rfl)
    | indented => exact indentedArguments_eq_nil_of_inString hstrings hwhole
  rw [imports_eq_ok_iff, hnone]
  exact ⟨[], rfl, rfl⟩

/-- A string in the indented syntax, in front of a semicolon, and one in the syntax with braces,
with none behind it. -/
theorem imports_eq_nil_of_inString_line :
    let line := "p\n  content: \"@import b\"; color: red\n".toList
    let block := "p \x7b color: red; content: \"@import b\" \x7d\n".toList
    (ImportsInStrings line ∧ ImportsKeptWhole line ∧
        (SyntaxMode.indented = .braces → ImportsUnended line) ∧
        imports .indented line = .ok []) ∧
      ImportsInStrings block ∧ ImportsKeptWhole block ∧
        (SyntaxMode.braces = .braces → ImportsUnended block) ∧ imports .braces block = .ok [] := by
  have hline : ImportsInStrings "p\n  content: \"@import b\"; color: red\n".toList := by
    refine .of_take fun n hn hword => ?_
    obtain rfl : n = 14 := by
      revert n
      decide +kernel
    have hplace : InString ("p\n  content: ".toList ++ '"' :: []) "@import".toList
        (" b".toList ++ '"' :: "; color: red\n".toList) :=
      .intro rfl (Or.inl (by decide +kernel)) (.of_forall (by simp))
    exact hplace
  have hlineWhole : ImportsKeptWhole "p\n  content: \"@import b\"; color: red\n".toList :=
    .of_removeComments_eq (by decide +kernel)
  have hlineUnended : SyntaxMode.indented = .braces →
      ImportsUnended "p\n  content: \"@import b\"; color: red\n".toList := fun h => by cases h
  have hblock : ImportsInStrings
      "p \x7b color: red; content: \"@import b\" \x7d\n".toList := by
    refine .of_take fun n hn hword => ?_
    obtain rfl : n = 26 := by
      revert n
      decide +kernel
    have hplace : InString ("p \x7b color: red; content: ".toList ++ '"' :: []) "@import".toList
        (" b".toList ++ '"' :: " \x7d\n".toList) :=
      .intro rfl (Or.inl (by decide +kernel)) (.of_forall (by simp))
    exact hplace
  have hblockWhole : ImportsKeptWhole
      "p \x7b color: red; content: \"@import b\" \x7d\n".toList :=
    .of_removeComments_eq (by decide +kernel)
  have hblockUnended : SyntaxMode.braces = .braces → ImportsUnended
      "p \x7b color: red; content: \"@import b\" \x7d\n".toList :=
    fun _ => .of_drop (by decide +kernel)
  exact ⟨⟨hline, hlineWhole, hlineUnended,
      imports_eq_nil_of_inString hline hlineWhole hlineUnended⟩,
    hblock, hblockWhole, hblockUnended,
    imports_eq_nil_of_inString hblock hblockWhole hblockUnended⟩

/-- **A string may be taken for an import**, and so may what stands around a comment. -/
theorem string_taken_for_import :
    let quoted := "p \x7b content: \"@import b;\"; \x7d".toList
    let hidden := "@im/**/port b".toList
    (ImportsInStrings quoted ∧ ImportsKeptWhole quoted ∧ imports .braces quoted = .ok ["b"]) ∧
      ImportsInStrings hidden ∧ imports .indented hidden = .ok ["b"] := by
  have hquoted : ImportsInStrings "p \x7b content: \"@import b;\"; \x7d".toList := by
    refine .of_take fun n hn hword => ?_
    obtain rfl : n = 14 := by
      revert n
      decide +kernel
    have hplace : InString ("p \x7b content: ".toList ++ '"' :: []) "@import".toList
        (" b;".toList ++ '"' :: "; \x7d".toList) :=
      .intro rfl (Or.inl (by decide +kernel)) (.of_forall (by simp))
    exact hplace
  have hhidden : ImportsInStrings "@im/**/port b".toList := by
    refine .of_take fun n hn hword => absurd hword ?_
    revert n
    decide +kernel
  exact ⟨⟨hquoted, .of_removeComments_eq (by decide +kernel), by decide +kernel⟩, hhidden,
    by decide +kernel⟩

end SheetGraph
