import Mathlib.Data.Bool.AllAny
import SheetGraph.Proofs.Stylesheet.Comment
import SheetGraph.Proofs.Stylesheet.Directive

/-!
# Reading what was printed

A stylesheet is printed from directives and from text without directives: comments, and filler that
can be mistaken for nothing.  The structures hold what makes a text printable, so that each of them
can be printed.

Reading goes in two stages.  Comments go first: of each printed part its own text is left, or the
newlines of a comment (`scan_parts`, `finish_scan_lines`).  In what is left the directives are found
one by one, each with an argument that is its body up to blanks (`pads_bracesArguments`,
`pads_indentedArguments`).  So the targets read are the ones printed (`imports_print`).
-/

namespace SheetGraph

open CommentScanner (atText inLine Keeps Pending newlines)
open Text (isBlank isSpaceOrTab trim sameLetters)

/-! ### What is printed -/

/-- The characters that no target can hold. -/
def targetMarks : List Char := ['"', '\'', '\\', ',', ';', '(', ')', '@', '\n', '\r']

/-- A target that can be printed.  It is not remote, since it holds no two slashes in a row. -/
structure PlainTarget where
  chars : List Char
  chars_ne_nil : chars ≠ []
  notMem_targetMarks : ∀ c ∈ chars, c ∉ targetMarks
  noLineComment : ¬ ['/', '/'] <:+: chars
  noBlockComment : ¬ ['/', '*'] <:+: chars
  trim_chars : trim chars = chars

/-- A target as a directive lists it: bare or in quotes, with blanks around it. -/
structure WrittenTarget where
  target : PlainTarget
  quote? : Option Char
  isQuote_of_mem : ∀ q ∈ quote?, isQuote q = true
  before : List Char
  after : List Char
  isBlank_of_mem : ∀ c ∈ before ++ after, isBlank c = true

namespace WrittenTarget

/-- The target, in its quotes if it has any. -/
def wrapped (a : WrittenTarget) : List Char :=
  match a.quote? with
  | none => a.target.chars
  | some q => q :: a.target.chars ++ [q]

/-- The text of a listed target. -/
def print (a : WrittenTarget) : List Char :=
  a.before ++ a.wrapped ++ a.after

end WrittenTarget

/-- The word of a directive, in any case, and its targets. -/
structure Directive where
  word : List Char
  sameLetters_word : sameLetters importWord word = true
  arguments : List WrittenTarget
  arguments_ne_nil : arguments ≠ []

namespace Directive

/-- The targets with commas between them. -/
def body (x : Directive) : List Char :=
  [','].intercalate (x.arguments.map WrittenTarget.print)

/-- The targets. -/
def targets (x : Directive) : List String :=
  x.arguments.map fun a => String.ofList a.target.chars

/-- The text of a directive in the syntax with braces. -/
def print (x : Directive) : List Char :=
  x.word ++ (x.body ++ [';'])

end Directive

/-- A directive that is a line, perhaps with a carriage return at its end. -/
structure IndentedDirective extends Directive where
  indent : List Char
  gap : List Char
  isSpaceOrTab_of_mem : ∀ c ∈ indent ++ gap, isSpaceOrTab c = true
  gap_ne_nil : gap ≠ []
  oneLine : ∀ a ∈ arguments, ∀ c ∈ a.before ++ a.after, c ≠ '\n' ∧ c ≠ '\r'
  hasReturn : Bool

/-- What stands behind the targets. -/
def IndentedDirective.ending (x : IndentedDirective) : List Char :=
  if x.hasReturn then ['\r'] else []

/-- The text of the line. -/
def IndentedDirective.line (x : IndentedDirective) : List Char :=
  x.indent ++ (x.word ++ (x.gap ++ (x.body ++ x.ending)))

/-- A comment up to the end of its line. -/
structure LineComment where
  body : List Char
  newline_notMem : '\n' ∉ body

/-- The text of the comment. -/
def LineComment.print (x : LineComment) : List Char :=
  '/' :: '/' :: x.body

/-- The characters that no filler can hold. -/
def fillerMarks : List Char := ['@', '"', '\'', '/', '(', '\\']

/-- Text that is no directive. -/
inductive Aside where
  | filler (cs : List Char) (h : ∀ c ∈ cs, c ∉ fillerMarks)
  | block (body : List Char) (h : ¬ ['*', '/'] <:+: body)
  | line (x : LineComment)

namespace Aside

/-- The text itself. -/
def print : Aside → List Char
  | filler cs _ => cs
  | block body _ => '/' :: '*' :: (body ++ ['*', '/'])
  | line x => x.print ++ ['\n']

/-- What is left of it without comments. -/
def cleaned : Aside → List Char
  | filler cs _ => cs
  | block body _ => newlines body
  | line _ => ['\n']

end Aside

/-- A part of a stylesheet in the syntax with braces. -/
inductive BracesPart where
  | directive (x : Directive)
  | aside (x : Aside)

namespace BracesPart

/-- The text of a part. -/
def print : BracesPart → List Char
  | directive x => x.print
  | aside x => x.print

/-- What is left of it without comments. -/
def cleaned : BracesPart → List Char
  | directive x => x.print
  | aside x => x.cleaned

/-- The directive, if the part is one. -/
def directive? : BracesPart → Option Directive
  | directive x => some x
  | aside _ => none

end BracesPart

/-- A stylesheet in the syntax with braces, perhaps with a last comment that no newline ends. -/
structure BracesSheet where
  parts : List BracesPart
  comment : Option LineComment

/-- The text of the stylesheet. -/
def BracesSheet.print (x : BracesSheet) : List Char :=
  x.parts.flatMap BracesPart.print ++ x.comment.elim [] LineComment.print

/-- The targets of its directives, in order. -/
def BracesSheet.targets (x : BracesSheet) : List String :=
  (x.parts.filterMap BracesPart.directive?).flatMap Directive.targets

/-- A line of a stylesheet in the indented syntax, or several that a comment joins. -/
inductive IndentedPart where
  | directive (x : IndentedDirective)
  | asides (xs : List Aside) (comment : Option LineComment)

namespace IndentedPart

/-- The text of a line. -/
def print : IndentedPart → List Char
  | directive x => x.line
  | asides xs comment => xs.flatMap Aside.print ++ comment.elim [] LineComment.print

/-- What is left of it without comments. -/
def cleaned : IndentedPart → List Char
  | directive x => x.line
  | asides xs _ => xs.flatMap Aside.cleaned

/-- The directive, if the line is one. -/
def directive? : IndentedPart → Option Directive
  | directive x => some x.toDirective
  | asides _ _ => none

end IndentedPart

/-- A stylesheet in the indented syntax. -/
structure IndentedSheet where
  lines : List IndentedPart

/-- The text of the stylesheet. -/
def IndentedSheet.print (x : IndentedSheet) : List Char :=
  ['\n'].intercalate (x.lines.map IndentedPart.print)

/-- The targets of its directives, in order. -/
def IndentedSheet.targets (x : IndentedSheet) : List String :=
  (x.lines.filterMap IndentedPart.directive?).flatMap Directive.targets

/-! ### Blanks and words -/

theorem notMem_marks_of_isBlank {c : Char} (hc : isBlank c = true) : c ∉ CommentScanner.marks := by
  simp only [CommentScanner.marks, List.mem_cons, List.not_mem_nil, or_false]
  rintro (rfl | rfl | rfl | rfl) <;> exact absurd hc (by decide)

theorem keeps_of_isBlank {cs : List Char} (h : ∀ c ∈ cs, isBlank c = true) : Keeps cs :=
  Keeps.of_plain fun c hc => notMem_marks_of_isBlank (h c hc)

theorem keeps_of_isSpaceOrTab {cs : List Char} (h : ∀ c ∈ cs, isSpaceOrTab c = true) : Keeps cs :=
  keeps_of_isBlank fun c hc => isBlank_of_isSpaceOrTab (h c hc)

/-- The scanner keeps a word without marks, however it is spelled. -/
theorem keeps_of_sameLetters {word w : List Char} (h : sameLetters word w = true)
    (hword : (word.map Char.toLower).all (!CommentScanner.marks.contains ·) = true) : Keeps w := by
  refine Keeps.of_plain fun m hm hmark => ?_
  have hlower : m.toLower ∈ word.map Char.toLower := by
    rw [eq_of_beq h]
    exact List.mem_map_of_mem hm
  have hnot := List.all_eq_true.mp hword m.toLower hlower
  simp only [CommentScanner.marks, List.mem_cons, List.not_mem_nil, or_false] at hmark
  rcases hmark with rfl | rfl | rfl | rfl <;> exact absurd hnot (by decide)

/-! ### Listed targets -/

namespace PlainTarget

variable (t : PlainTarget)

theorem isQuote_eq_false {c : Char} (hc : c ∈ t.chars) : isQuote c = false := by
  rw [← Bool.not_eq_true, isQuote_iff]
  rintro (rfl | rfl)
  · exact t.notMem_targetMarks _ hc (by decide)
  · exact t.notMem_targetMarks _ hc (by decide)

theorem isRemote_eq_false : isRemote t.chars = false := by
  have hslashes : ∀ pre : List Char, ['/', '/'] <:+: pre → pre.isPrefixOf t.chars = false := by
    intro pre hpre
    rw [← Bool.not_eq_true, List.isPrefixOf_iff_prefix]
    exact fun h => t.noLineComment (hpre.trans h.isInfix)
  rw [isRemote, hslashes "//".toList ⟨[], [], rfl⟩,
    hslashes "http://".toList ⟨"http:".toList, [], rfl⟩,
    hslashes "https://".toList ⟨"https:".toList, [], rfl⟩]
  rfl

end PlainTarget

namespace WrittenTarget

variable (a : WrittenTarget)

theorem isBlank_of_mem_before {c : Char} (hc : c ∈ a.before) : isBlank c = true :=
  a.isBlank_of_mem c (List.mem_append_left _ hc)

theorem isBlank_of_mem_after {c : Char} (hc : c ∈ a.after) : isBlank c = true :=
  a.isBlank_of_mem c (List.mem_append_right _ hc)

theorem mem_print {c : Char} (hc : c ∈ a.print) :
    c ∈ a.before ++ a.after ∨ isQuote c = true ∨ c ∈ a.target.chars := by
  rw [print, List.mem_append, List.mem_append] at hc
  rw [List.mem_append]
  rcases hc with (hc | hc) | hc
  · exact Or.inl (Or.inl hc)
  · right
    cases hq : a.quote? with
    | none =>
      rw [wrapped, hq] at hc
      exact Or.inr hc
    | some q =>
      rw [wrapped, hq] at hc
      have hquote := a.isQuote_of_mem q hq
      simp only [List.cons_append, List.mem_cons, List.mem_append, List.not_mem_nil,
        or_false] at hc
      rcases hc with rfl | hc | rfl
      · exact Or.inl hquote
      · exact Or.inr hc
      · exact Or.inl hquote
  · exact Or.inl (Or.inr hc)

/-- **A mark that no target holds** is not in the text of a listed target, unless it is a blank or a
quote. -/
theorem notMem_print {m : Char} (hmark : m ∈ targetMarks) (hquote : isQuote m = false)
    (hblank : isBlank m = false) : m ∉ a.print := by
  intro hmem
  rcases a.mem_print hmem with h | h | h
  · rw [a.isBlank_of_mem m h] at hblank
    cases hblank
  · rw [h] at hquote
    cases hquote
  · exact a.target.notMem_targetMarks m h hmark

theorem trim_print : trim a.print = a.wrapped := by
  have hwrapped : trim a.wrapped = a.wrapped := by
    unfold wrapped
    cases hq : a.quote? with
    | none => exact a.target.trim_chars
    | some q =>
      have hblank : isBlank q = false := isBlank_eq_false_of_isQuote (a.isQuote_of_mem q hq)
      exact trim_cons_concat hblank hblank a.target.chars
  rw [print, Text.trim_append_blanks fun c => a.isBlank_of_mem_after,
    Text.trim_blanks_append fun c => a.isBlank_of_mem_before, hwrapped]

theorem stripQuotes_wrapped : stripQuotes a.wrapped = .ok a.target.chars := by
  unfold wrapped
  cases hq : a.quote? with
  | none =>
    have hfirst : a.target.chars.head?.any isQuote = false := by
      rw [Option.any_eq_false]
      intro c hc
      exact Bool.not_eq_true _ ▸ a.target.isQuote_eq_false (List.mem_of_head? hc)
    have hlast : a.target.chars.getLast?.any isQuote = false := by
      rw [Option.any_eq_false]
      intro c hc
      exact Bool.not_eq_true _ ▸ a.target.isQuote_eq_false (List.mem_of_getLast? hc)
    unfold stripQuotes
    dsimp only
    rw [hfirst, hlast]
    rfl
  | some q => exact stripQuotes_quoted (a.isQuote_of_mem q hq) a.target.chars

/-- **A listed target is read as it is.** -/
theorem targetOf_print : targetOf a.print = .ok (some (String.ofList a.target.chars)) := by
  have hne : a.wrapped.isEmpty = false := by
    unfold wrapped
    cases a.quote? with
    | none => exact List.isEmpty_eq_false_iff.mpr a.target.chars_ne_nil
    | some q => rfl
  have hurl : (Text.dropWord? "url(".toList a.wrapped).isSome = false := by
    have hparen : '(' ∉ a.wrapped := by
      rw [← a.trim_print]
      exact fun hmem => a.notMem_print (by decide) (by decide) (by decide)
        ((pads_trim a.print).subset hmem)
    rw [Text.dropWord?_eq_none (m := '(') (by decide) (by decide) hparen]
    rfl
  have hempty : a.target.chars.isEmpty = false :=
    List.isEmpty_eq_false_iff.mpr a.target.chars_ne_nil
  unfold targetOf
  dsimp only
  rw [a.trim_print, hne, hurl, a.stripQuotes_wrapped]
  dsimp only
  rw [a.target.trim_chars, hempty, a.target.isRemote_eq_false]
  rfl

/-- **The scanner keeps a listed target.** -/
theorem pending_print (kept : List Char) :
    Pending (kept ++ a.print) ((atText kept).scan a.print) := by
  have hbefore : (atText kept).scan a.before = atText (kept ++ a.before) :=
    keeps_of_isBlank (fun _ => a.isBlank_of_mem_before) kept
  have hwrapped : Pending (kept ++ a.before ++ a.wrapped)
      ((atText (kept ++ a.before)).scan a.wrapped) := by
    unfold wrapped
    cases hq : a.quote? with
    | none =>
      -- Without quotes the target has none of the marks that the scanner looks for.
      refine CommentScanner.pending_scan ?_ a.target.noLineComment a.target.noBlockComment _
      intro c hc
      refine ⟨?_, ?_, ?_⟩ <;> rintro rfl <;>
        exact a.target.notMem_targetMarks _ hc (by decide)
    | some q =>
      have hquote := isQuote_iff.mp (a.isQuote_of_mem q hq)
      have hplain : ∀ c ∈ a.target.chars, c ≠ q ∧ c ≠ '\\' ∧ c ≠ '\n' := by
        intro c hc
        refine ⟨?_, ?_, ?_⟩
        · rintro rfl
          have hnot := a.target.isQuote_eq_false hc
          rw [a.isQuote_of_mem c hq] at hnot
          cases hnot
        · rintro rfl
          exact a.target.notMem_targetMarks _ hc (by decide)
        · rintro rfl
          exact a.target.notMem_targetMarks _ hc (by decide)
      dsimp only
      rw [CommentScanner.scan_quoted hquote hplain]
      exact Pending.text
  have hafter : Pending (kept ++ a.before ++ a.wrapped ++ a.after)
      (((atText (kept ++ a.before)).scan a.wrapped).scan a.after) := by
    refine hwrapped.scan_plain fun c hc => ?_
    have hblank := a.isBlank_of_mem_after hc
    refine ⟨notMem_marks_of_isBlank hblank, ?_⟩
    rintro rfl
    exact absurd hblank (by decide)
  rw [print, CommentScanner.scan_append, CommentScanner.scan_append, hbefore]
  simpa only [List.append_assoc] using hafter

end WrittenTarget

/-! ### Directives -/

theorem intercalate_map_cons {α : Type} (sep : Char) (f : α → List Char) (a b : α) (as : List α) :
    [sep].intercalate ((a :: b :: as).map f)
      = f a ++ sep :: [sep].intercalate ((b :: as).map f) := by
  rw [List.map_cons, List.map_cons, List.intercalate_cons_cons, List.append_assoc,
    List.singleton_append]

/-- What is no separator and in no piece is not in the pieces put together. -/
theorem notMem_intercalate {sep c : Char} {pieces : List (List Char)} (hsep : c ≠ sep)
    (h : ∀ piece ∈ pieces, c ∉ piece) : c ∉ [sep].intercalate pieces := by
  induction pieces with
  | nil => exact List.not_mem_nil
  | cons piece pieces ih =>
    rw [List.forall_mem_cons] at h
    cases pieces with
    | nil =>
      rw [List.intercalate_singleton]
      exact h.1
    | cons next pieces =>
      rw [List.intercalate_cons_cons, List.mem_append, List.mem_append, List.mem_singleton]
      rintro ((hmem | hmem) | hmem)
      · exact h.1 hmem
      · exact hsep hmem
      · exact ih h.2 hmem

namespace Directive

variable (x : Directive)

theorem notMem_body {m : Char} (hcomma : m ≠ ',') (h : ∀ a ∈ x.arguments, m ∉ a.print) :
    m ∉ x.body := by
  refine notMem_intercalate hcomma fun piece hpiece => ?_
  obtain ⟨a, ha, rfl⟩ := List.mem_map.mp hpiece
  exact h a ha

theorem semicolon_notMem_body : ';' ∉ x.body :=
  x.notMem_body (by decide) fun a _ => a.notMem_print (by decide) (by decide) (by decide)

theorem open_notMem_body : '(' ∉ x.body :=
  x.notMem_body (by decide) fun a _ => a.notMem_print (by decide) (by decide) (by decide)

theorem close_notMem_body : ')' ∉ x.body :=
  x.notMem_body (by decide) fun a _ => a.notMem_print (by decide) (by decide) (by decide)

/-- **The body of a directive is read as its targets.** -/
theorem targetsOf_body : targetsOf x.body = .ok x.targets := by
  have htargets : (x.targets.map some).filterMap id = x.targets := by
    rw [List.filterMap_map]
    exact List.filterMap_some
  rw [← htargets]
  refine targetsOf_intercalate ?_ ?_ ?_
  · simpa using x.arguments_ne_nil
  · intro piece hpiece
    obtain ⟨a, -, rfl⟩ := List.mem_map.mp hpiece
    exact a.notMem_print (by decide) (by decide) (by decide)
  · rw [targets, List.map_map, List.forall₂_map_left_iff, List.forall₂_map_right_iff,
      List.forall₂_same]
    exact fun a _ => a.targetOf_print

/-- The scanner keeps the listed targets and the commas between them. -/
theorem pending_body (kept : List Char) : Pending (kept ++ x.body) ((atText kept).scan x.body) := by
  unfold body
  generalize x.arguments = arguments
  induction arguments generalizing kept with
  | nil =>
    rw [List.map_nil, List.intercalate_nil, List.append_nil]
    exact Pending.text
  | cons a arguments ih =>
    cases arguments with
    | nil =>
      rw [List.map_singleton, List.intercalate_singleton]
      exact a.pending_print kept
    | cons b arguments =>
      rw [intercalate_map_cons, CommentScanner.scan_append,
        (a.pending_print kept).scan_cons (by decide) (by decide), CommentScanner.scan_cons,
        CommentScanner.step_atText (by decide)]
      have hrest := ih (kept ++ a.print ++ [','])
      simpa only [List.append_assoc, List.singleton_append] using hrest

theorem keeps_word : Keeps x.word :=
  keeps_of_sameLetters x.sameLetters_word (by decide)

/-- **The scanner keeps a directive**, up to a slash at its end. -/
theorem pending_word_body (kept : List Char) :
    Pending (kept ++ (x.word ++ x.body)) ((atText kept).scan (x.word ++ x.body)) := by
  rw [CommentScanner.scan_append, x.keeps_word, ← List.append_assoc]
  exact x.pending_body _

theorem scan_print (kept : List Char) : (atText kept).scan x.print = atText (kept ++ x.print) := by
  have hend : x.print = x.word ++ x.body ++ [';'] := (List.append_assoc ..).symm
  have hplain : ∀ c ∈ [';'], c ∉ CommentScanner.marks := by simp [CommentScanner.marks]
  rw [hend, CommentScanner.scan_append,
    (x.pending_word_body kept).scan_cons (by decide) (by decide),
    CommentScanner.scan_plain hplain, List.append_assoc kept]

end Directive

/-- **Directives that are found one by one**, each up to blanks around its body, give their
targets. -/
theorem imports_eq_of_pads {mode : SyntaxMode} {text : List Char} {directives : List Directive}
    (h : List.Forall₂ (fun argument x => Pads x.body argument)
      (directiveArguments mode (removeComments text)) directives) :
    imports mode text = .ok (directives.flatMap Directive.targets) := by
  have htargets : (directiveArguments mode (removeComments text)).mapM targetsOf
      = .ok (directives.map Directive.targets) := by
    rw [mapM_eq_ok_iff, List.forall₂_map_right_iff]
    refine h.imp fun argument x hpads => ?_
    rw [← hpads.targetsOf_eq, x.targetsOf_body]
  rw [imports, htargets, List.flatMap_def]

/-! ### Text between directives -/

namespace Aside

theorem scan_print (x : Aside) (kept : List Char) :
    (atText kept).scan x.print = atText (kept ++ x.cleaned) := by
  cases x with
  | filler cs h =>
    refine CommentScanner.scan_plain (fun c hc hmark => h c hc ?_) kept
    simp only [CommentScanner.marks, List.mem_cons, List.not_mem_nil, or_false] at hmark
    rcases hmark with rfl | rfl | rfl | rfl <;> decide
  | block body h => exact CommentScanner.scan_block h kept
  | line x =>
    rw [print, LineComment.print, CommentScanner.scan_append,
      CommentScanner.scan_line x.newline_notMem, CommentScanner.scan_cons,
      CommentScanner.step_inLine_newline]
    rfl

theorem scan_flatMap_print (xs : List Aside) (kept : List Char) :
    (atText kept).scan (xs.flatMap print) = atText (kept ++ xs.flatMap cleaned) := by
  induction xs generalizing kept with
  | nil =>
    rw [List.flatMap_nil, List.flatMap_nil, List.append_nil]
    rfl
  | cons x xs ih =>
    rw [List.flatMap_cons, List.flatMap_cons, CommentScanner.scan_append, x.scan_print, ih,
      List.append_assoc]

/-- **What is left of it holds no directive.** -/
theorem at_notMem_cleaned (x : Aside) : '@' ∉ x.cleaned := by
  cases x with
  | filler cs h => exact fun hmem => h _ hmem (by decide)
  | block body h =>
    intro hmem
    have hnewline := (List.mem_filter.mp hmem).2
    exact absurd hnewline (by decide)
  | line x =>
    rw [cleaned]
    decide

end Aside

/-! ### The syntax with braces -/

/-- The scanner keeps what is left of each part. -/
theorem scan_parts (parts : List BracesPart) (kept : List Char) :
    (atText kept).scan (parts.flatMap BracesPart.print)
      = atText (kept ++ parts.flatMap BracesPart.cleaned) := by
  induction parts generalizing kept with
  | nil =>
    rw [List.flatMap_nil, List.flatMap_nil, List.append_nil]
    rfl
  | cons part parts ih =>
    have hpart : (atText kept).scan part.print = atText (kept ++ part.cleaned) := by
      cases part with
      | directive x => exact x.scan_print kept
      | aside x => exact x.scan_print kept
    rw [List.flatMap_cons, List.flatMap_cons, CommentScanner.scan_append, hpart, ih,
      List.append_assoc]

theorem BracesSheet.removeComments_print (x : BracesSheet) :
    removeComments x.print = x.parts.flatMap BracesPart.cleaned := by
  have hparts : CommentScanner.start.scan (x.parts.flatMap BracesPart.print)
      = atText (x.parts.flatMap BracesPart.cleaned) :=
    scan_parts x.parts []
  rw [removeComments, print, CommentScanner.scan_append, hparts]
  cases x.comment with
  | none => exact CommentScanner.finish_atText
  | some comment =>
    rw [Option.elim_some, LineComment.print, CommentScanner.scan_line comment.newline_notMem]
    exact CommentScanner.finish_atText

/-- **Each directive is found**, in order, and nothing else. -/
theorem pads_bracesArguments (parts : List BracesPart) :
    List.Forall₂ (fun argument x => Pads x.body argument)
      (bracesArguments (parts.flatMap BracesPart.cleaned))
      (parts.filterMap BracesPart.directive?) := by
  induction parts with
  | nil => exact List.Forall₂.nil
  | cons part parts ih =>
    rw [List.flatMap_cons, List.filterMap_cons]
    cases part with
    | directive x =>
      have hprint : (BracesPart.directive x).cleaned ++ parts.flatMap BracesPart.cleaned
          = x.word ++ x.body ++ ';' :: parts.flatMap BracesPart.cleaned := by
        show x.word ++ (x.body ++ [';']) ++ _ = _
        simp only [List.append_assoc, List.singleton_append]
      rw [hprint, bracesArguments_directive x.sameLetters_word x.semicolon_notMem_body
        x.open_notMem_body x.close_notMem_body]
      exact List.Forall₂.cons (pads_trim x.body) ih
    | aside x =>
      rw [BracesPart.cleaned, bracesArguments_append x.at_notMem_cleaned]
      exact ih

/-! ### The indented syntax -/

/-- The scanner at the end of a line: a slash may be held back, or a line comment is open. -/
def AtLineEnd (kept : List Char) (s : CommentScanner) : Prop :=
  Pending kept s ∨ s = inLine kept

namespace AtLineEnd

variable {kept : List Char} {s : CommentScanner}

theorem finish (h : AtLineEnd kept s) : s.finish = kept := by
  rcases h with h | rfl
  · exact h.finish
  · exact CommentScanner.finish_atText

/-- The next line begins in ordinary text. -/
theorem scan_newline (h : AtLineEnd kept s) (rest : List Char) :
    s.scan ('\n' :: rest) = (atText (kept ++ ['\n'])).scan rest := by
  rcases h with h | rfl
  · rw [h.scan_cons (by decide) (by decide), CommentScanner.scan_cons,
      CommentScanner.step_atText (by decide)]
  · rw [CommentScanner.scan_cons, CommentScanner.step_inLine_newline]

end AtLineEnd

namespace IndentedDirective

variable (x : IndentedDirective)

theorem isSpaceOrTab_of_mem_indent {c : Char} (hc : c ∈ x.indent) : isSpaceOrTab c = true :=
  x.isSpaceOrTab_of_mem c (List.mem_append_left _ hc)

theorem isSpaceOrTab_of_mem_gap {c : Char} (hc : c ∈ x.gap) : isSpaceOrTab c = true :=
  x.isSpaceOrTab_of_mem c (List.mem_append_right _ hc)

theorem lineBreak_notMem_body {m : Char} (hm : m = '\n' ∨ m = '\r') : m ∉ x.body := by
  refine x.notMem_body (by rcases hm with rfl | rfl <;> decide) fun a ha hmem => ?_
  rcases a.mem_print hmem with h | h | h
  · have hline := x.oneLine a ha m h
    tauto
  · rcases hm with rfl | rfl <;> exact absurd h (by decide)
  · rcases hm with rfl | rfl <;> exact a.target.notMem_targetMarks _ h (by decide)

theorem ending_mem : x.ending ∈ lineEndings := by
  rw [ending]
  cases x.hasReturn <;> decide

/-- **The scanner keeps the line.** -/
theorem pending_line (kept : List Char) : Pending (kept ++ x.line) ((atText kept).scan x.line) := by
  have hindent : Keeps x.indent := keeps_of_isSpaceOrTab fun _ => x.isSpaceOrTab_of_mem_indent
  have hgap : Keeps x.gap := keeps_of_isSpaceOrTab fun _ => x.isSpaceOrTab_of_mem_gap
  rw [line, CommentScanner.scan_append, hindent, CommentScanner.scan_append, x.keeps_word,
    CommentScanner.scan_append, hgap, CommentScanner.scan_append]
  have hends : ∀ ending ∈ lineEndings, ∀ c ∈ ending, c ∉ CommentScanner.marks ∧ c ≠ '*' := by
    simp [lineEndings, CommentScanner.marks]
  have hrest := (x.pending_body (kept ++ x.indent ++ x.word ++ x.gap)).scan_plain
    (hends x.ending x.ending_mem)
  simpa only [List.append_assoc] using hrest

theorem exists_arguments :
    ∃ argument, indentedArguments x.line = [argument] ∧ Pads x.body argument :=
  exists_indentedArguments_pads (fun _ => x.isSpaceOrTab_of_mem_indent) x.sameLetters_word
    (fun _ => x.isSpaceOrTab_of_mem_gap) x.gap_ne_nil x.open_notMem_body x.close_notMem_body
    x.semicolon_notMem_body (x.lineBreak_notMem_body (Or.inl rfl))
    (x.lineBreak_notMem_body (Or.inr rfl)) x.ending_mem

end IndentedDirective

theorem IndentedPart.atLineEnd_scan (part : IndentedPart) (kept : List Char) :
    AtLineEnd (kept ++ part.cleaned) ((atText kept).scan part.print) := by
  cases part with
  | directive x => exact Or.inl (x.pending_line kept)
  | asides xs comment =>
    rw [print, cleaned, CommentScanner.scan_append, Aside.scan_flatMap_print]
    cases comment with
    | none => exact Or.inl Pending.text
    | some comment => exact Or.inr (CommentScanner.scan_line comment.newline_notMem _)

/-- The scanner keeps what is left of each line. -/
theorem finish_scan_lines (lines : List IndentedPart) (kept : List Char) :
    ((atText kept).scan (['\n'].intercalate (lines.map IndentedPart.print))).finish
      = kept ++ ['\n'].intercalate (lines.map IndentedPart.cleaned) := by
  induction lines generalizing kept with
  | nil =>
    rw [List.map_nil, List.map_nil, List.intercalate_nil, List.append_nil]
    exact CommentScanner.finish_atText
  | cons part lines ih =>
    cases lines with
    | nil =>
      rw [List.map_singleton, List.map_singleton, List.intercalate_singleton,
        List.intercalate_singleton]
      exact (part.atLineEnd_scan kept).finish
    | cons next lines =>
      rw [intercalate_map_cons, intercalate_map_cons, CommentScanner.scan_append,
        (part.atLineEnd_scan kept).scan_newline, ih]
      simp only [List.append_assoc, List.singleton_append]

theorem IndentedSheet.removeComments_print (x : IndentedSheet) :
    removeComments x.print = ['\n'].intercalate (x.lines.map IndentedPart.cleaned) :=
  finish_scan_lines x.lines []

theorem IndentedPart.pads_indentedArguments (part : IndentedPart) :
    List.Forall₂ (fun argument x => Pads x.body argument) (indentedArguments part.cleaned)
      part.directive?.toList := by
  cases part with
  | directive x =>
    obtain ⟨argument, hargument, hpads⟩ := x.exists_arguments
    rw [cleaned, hargument]
    exact List.Forall₂.cons hpads List.Forall₂.nil
  | asides xs comment =>
    have hnone : '@' ∉ xs.flatMap Aside.cleaned := by
      rw [List.mem_flatMap]
      rintro ⟨x, -, hx⟩
      exact x.at_notMem_cleaned hx
    rw [cleaned, indentedArguments_eq_nil hnone]
    exact List.Forall₂.nil

/-- **Each line that is a directive is found**, in order, and nothing else. -/
theorem pads_indentedArguments (lines : List IndentedPart) :
    List.Forall₂ (fun argument x => Pads x.body argument)
      (indentedArguments (['\n'].intercalate (lines.map IndentedPart.cleaned)))
      (lines.filterMap IndentedPart.directive?) := by
  induction lines with
  | nil => exact List.Forall₂.nil
  | cons part lines ih =>
    have hparts : (part :: lines).filterMap IndentedPart.directive?
        = part.directive?.toList ++ lines.filterMap IndentedPart.directive? := by
      rw [List.filterMap_cons]
      cases part.directive? <;> rfl
    cases lines with
    | nil =>
      rw [hparts, List.filterMap_nil, List.append_nil, List.map_singleton,
        List.intercalate_singleton]
      exact part.pads_indentedArguments
    | cons next lines =>
      rw [hparts, intercalate_map_cons, indentedArguments_append]
      exact List.rel_append part.pads_indentedArguments ih

/-! ### Stylesheets -/

/-- **Reading undoes printing**, in both syntaxes: of a printed stylesheet the targets of its
directives are read, in order and with repetitions. -/
theorem imports_print :
    (∀ x : BracesSheet, imports .braces x.print = .ok x.targets) ∧
    ∀ x : IndentedSheet, imports .indented x.print = .ok x.targets := by
  refine ⟨fun x => imports_eq_of_pads ?_, fun x => imports_eq_of_pads ?_⟩
  · rw [x.removeComments_print]
    exact pads_bracesArguments x.parts
  · rw [x.removeComments_print]
    exact pads_indentedArguments x.lines

/-- A target with a directory. -/
def mixinsTarget : PlainTarget where
  chars := "parts/mixins".toList
  chars_ne_nil := List.cons_ne_nil _ _
  notMem_targetMarks := List.all_iff_forall_prop.mp (by decide +kernel)
  noLineComment := by decide +kernel
  noBlockComment := by decide +kernel
  trim_chars := by decide +kernel

/-- A target with a blank in it. -/
def themeTarget : PlainTarget where
  chars := "dark theme".toList
  chars_ne_nil := List.cons_ne_nil _ _
  notMem_targetMarks := List.all_iff_forall_prop.mp (by decide +kernel)
  noLineComment := by decide +kernel
  noBlockComment := by decide +kernel
  trim_chars := by decide +kernel

/-- Both targets, in different quotes. -/
def mixinsDirective : Directive where
  word := "@Import".toList
  sameLetters_word := by decide +kernel
  arguments := [⟨mixinsTarget, some '"', by simp [isQuote], [], [], by simp⟩,
    ⟨themeTarget, some '\'', by simp [isQuote], [' '], [' '], by simp [isBlank]⟩]
  arguments_ne_nil := List.cons_ne_nil _ _

/-- A stylesheet with a directive in a comment, a directive, other text and a last comment. -/
def mixinsSheet : BracesSheet where
  parts := [
    .aside (.block " @import 'old'; ".toList (by decide +kernel)),
    .directive mixinsDirective,
    .aside (.filler "\nnav: none;\n".toList (List.all_iff_forall_prop.mp (by decide +kernel)))]
  comment := some ⟨" @import 'new';".toList, by decide +kernel⟩

theorem isSpaceOrTab_mixins : ∀ c ∈ [' ', ' '] ++ ['\t'], isSpaceOrTab c = true :=
  List.all_iff_forall_prop.mp (by decide +kernel)

theorem oneLine_mixins : ∀ a ∈ mixinsDirective.arguments, ∀ c ∈ a.before ++ a.after,
    c ≠ '\n' ∧ c ≠ '\r' := by
  simp [mixinsDirective]

/-- The same in lines, one of which ends in a carriage return. -/
def mixinsLines : IndentedSheet where
  lines := [
    .asides [.block " @import 'old' ".toList (by decide +kernel)] none,
    .directive {
      toDirective := mixinsDirective
      indent := [' ', ' ']
      gap := ['\t']
      isSpaceOrTab_of_mem := isSpaceOrTab_mixins
      gap_ne_nil := List.cons_ne_nil _ _
      oneLine := oneLine_mixins
      hasReturn := true },
    .asides [.filler "nav: none ".toList (List.all_iff_forall_prop.mp (by decide +kernel))]
      (some ⟨" @import 'new'".toList, by decide +kernel⟩)]

/-- Two targets among comments and other text, in both syntaxes. -/
theorem imports_print_mixins :
    (mixinsSheet.print = ("/* @import 'old'; */@Import\"parts/mixins\", 'dark theme' ;" ++
        "\nnav: none;\n// @import 'new';").toList ∧
      imports .braces mixinsSheet.print = .ok ["parts/mixins", "dark theme"]) ∧
    mixinsLines.print = ("/* @import 'old' */\n  @Import\t\"parts/mixins\", 'dark theme' \r" ++
        "\nnav: none // @import 'new'").toList ∧
      imports .indented mixinsLines.print = .ok ["parts/mixins", "dark theme"] := by
  have hsheet : mixinsSheet.targets = ["parts/mixins", "dark theme"] := by
    decide +kernel
  have hlines : mixinsLines.targets = ["parts/mixins", "dark theme"] := by
    decide +kernel
  refine ⟨⟨by decide +kernel, ?_⟩, by decide +kernel, ?_⟩
  · rw [imports_print.1 mixinsSheet, hsheet]
  · rw [imports_print.2 mixinsLines, hlines]

end SheetGraph
