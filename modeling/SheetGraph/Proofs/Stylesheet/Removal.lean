import SheetGraph.Proofs.Stylesheet.Sequence
import SheetGraph.Proofs.Stylesheet.Strings

/-!
# Removing comments

A comment leaves nothing but its newlines, whatever it holds (`removeComments_comment`): behind it
the scanner is where the newlines alone would have brought it.

Removing comments once is enough (`removeComments_removeComments`).  The scanner that reads what is
left goes through the states of the scanner that read the text, except that it is in no comment:
`Rescanned` says so between two characters, and one character keeps it (`Rescanned.step`).
-/

namespace SheetGraph

open CommentScanner (atText inLine newlines start)

variable {a text rest : List Char}

/-- Imports are read from what is left without the comments. -/
theorem imports_of_removeComments_eq {b : List Char} (h : removeComments a = removeComments b)
    (mode : SyntaxMode) : imports mode a = imports mode b := by
  rw [imports, imports, h]

/-! ### What a comment leaves -/

/-- A comment may come next: the text leaves the scanner in no string, no comment and no `url(...)`,
and it does not end in a slash, which would make something else of the slash of a comment. -/
structure TakesComment (text : List Char) : Prop where
  isOutside : (start.scan text).IsOutside
  inUrl_eq : (start.scan text).inUrl = false
  getLast?_ne : text.getLast? ≠ some '/'

namespace CommentScanner

variable {s : CommentScanner} {c : Char}

/-- Behind a character of the text that is no slash the scanner is in the text or in a string. -/
theorem mode_stepText (hs : s.mode = .text) (hc : c ≠ '/') :
    (s.stepText c).mode = .text ∨ ∃ q, (s.stepText c).mode = .quoted q := by
  unfold stepText
  split_ifs with hquote hopen hclose hslash
  · exact Or.inr ⟨c, rfl⟩
  · exact Or.inl hs
  · exact Or.inl hs
  · exact absurd hslash.1 hc
  · exact Or.inl hs

theorem eq_slash_of_stepText (hs : s.mode = .text) (h : (s.stepText c).mode = .slash) :
    c = '/' := by
  by_contra hc
  have hmode := mode_stepText hs hc
  rw [h] at hmode
  rcases hmode with hmode | ⟨q, hmode⟩ <;> cases hmode

/-- Only a slash is held back. -/
theorem eq_slash_of_step (h : (s.step c).mode = .slash) : c = '/' := by
  obtain ⟨mode, inUrl, kept⟩ := s
  unfold step at h
  cases mode with
  | text => exact eq_slash_of_stepText rfl h
  | slash =>
    dsimp only at h
    split_ifs at h
    · exact eq_slash_of_stepText rfl h
  | quoted q =>
    dsimp only at h
    split_ifs at h
    cases h
  | escaped q => cases h
  | block star =>
    dsimp only at h
    split_ifs at h
  | line =>
    dsimp only at h
    split_ifs at h
    exact eq_slash_of_stepText rfl h

end CommentScanner

/-- **Where a comment may come next** the scanner is in ordinary text. -/
theorem TakesComment.exists_scan_eq (h : TakesComment a) : ∃ kept, start.scan a = atText kept := by
  have hmode : (start.scan a).mode = .text := by
    refine h.isOutside.resolve_right fun hslash => ?_
    rcases List.eq_nil_or_concat a with rfl | ⟨front, c, rfl⟩
    · cases hslash
    · rw [List.concat_eq_append, CommentScanner.scan_append] at hslash
      obtain rfl := CommentScanner.eq_slash_of_step hslash
      exact h.getLast?_ne (by rw [List.concat_eq_append, List.getLast?_concat])
  have hurl := h.inUrl_eq
  generalize start.scan a = s at hmode hurl
  obtain ⟨mode, inUrl, kept⟩ := s
  cases hmode
  cases hurl
  exact ⟨kept.reverse, by rw [atText, List.reverse_reverse]⟩

/-- **A comment contributes its newlines and nothing else**, whatever it holds.  So the imports of a
stylesheet are what they are without the comment. -/
theorem removeComments_comment (h : TakesComment a) (c b : List Char) :
    (¬ ['*', '/'] <:+: c →
      removeComments (a ++ '/' :: '*' :: (c ++ '*' :: '/' :: b))
        = removeComments (a ++ (newlines c ++ b)) ∧
      ∀ mode, imports mode (a ++ '/' :: '*' :: (c ++ '*' :: '/' :: b))
        = imports mode (a ++ (newlines c ++ b))) ∧
    ('\n' ∉ c →
      removeComments (a ++ '/' :: '/' :: (c ++ '\n' :: b)) = removeComments (a ++ '\n' :: b) ∧
      ∀ mode, imports mode (a ++ '/' :: '/' :: (c ++ '\n' :: b))
        = imports mode (a ++ '\n' :: b)) := by
  obtain ⟨kept, hkept⟩ := h.exists_scan_eq
  constructor
  · intro hclosed
    have hsame : removeComments (a ++ '/' :: '*' :: (c ++ '*' :: '/' :: b))
        = removeComments (a ++ (newlines c ++ b)) := by
      have hcomment : '/' :: '*' :: (c ++ '*' :: '/' :: b)
          = '/' :: '*' :: (c ++ ['*', '/']) ++ b := by simp
      have hplain : ∀ d ∈ newlines c, d ∉ CommentScanner.marks := by
        intro d hd
        rw [eq_of_beq (List.mem_filter.mp hd).2]
        decide
      rw [removeComments, removeComments, hcomment, CommentScanner.scan_append,
        CommentScanner.scan_append, CommentScanner.scan_append, CommentScanner.scan_append, hkept,
        CommentScanner.scan_block hclosed, CommentScanner.scan_plain hplain]
    exact ⟨hsame, imports_of_removeComments_eq hsame⟩
  · intro hline
    have hsame : removeComments (a ++ '/' :: '/' :: (c ++ '\n' :: b))
        = removeComments (a ++ '\n' :: b) := by
      have hcomment : '/' :: '/' :: (c ++ '\n' :: b) = '/' :: '/' :: c ++ '\n' :: b := by simp
      have hnewline : (atText kept).step '\n' = atText (kept ++ ['\n']) :=
        CommentScanner.step_atText (by decide)
      rw [removeComments, removeComments, hcomment, CommentScanner.scan_append,
        CommentScanner.scan_append, CommentScanner.scan_append, hkept,
        CommentScanner.scan_line hline, CommentScanner.scan_cons, CommentScanner.scan_cons,
        CommentScanner.step_inLine_newline, hnewline]
    exact ⟨hsame, imports_of_removeComments_eq hsame⟩

/-- Comments of both kinds that hold a quote, an import and the marks of another comment. -/
theorem removeComments_comment_marks :
    let sheet := "@import 'a//b'; ".toList
    let block := "/ url( \n@import 'x; /**".toList
    let line := "*/ @import \"x; /*".toList
    let rest := "@import 'c';".toList
    TakesComment sheet ∧ ¬ ['*', '/'] <:+: block ∧ '\n' ∉ line ∧
      removeComments (sheet ++ '/' :: '*' :: (block ++ '*' :: '/' :: rest))
        = removeComments (sheet ++ '\n' :: rest) ∧
      imports .braces (sheet ++ '/' :: '*' :: (block ++ '*' :: '/' :: rest)) = .ok ["a//b", "c"] ∧
      imports .braces (sheet ++ '/' :: '/' :: (line ++ '\n' :: rest)) = .ok ["a//b", "c"] := by
  have htakes : TakesComment "@import 'a//b'; ".toList :=
    ⟨Or.inl (by decide +kernel), by decide +kernel, by decide +kernel⟩
  have hclosed : ¬ ['*', '/'] <:+: "/ url( \n@import 'x; /**".toList := by decide +kernel
  have hline : '\n' ∉ "*/ @import \"x; /*".toList := by decide +kernel
  have himports : imports .braces ("@import 'a//b'; ".toList ++ '\n' :: "@import 'c';".toList)
      = .ok ["a//b", "c"] := by decide +kernel
  obtain ⟨hsame, hblock⟩ := (removeComments_comment htakes _ "@import 'c';".toList).1 hclosed
  have hnone := ((removeComments_comment htakes _ "@import 'c';".toList).2 hline).2
  exact ⟨htakes, hclosed, hline, hsame, (hblock .braces).trans himports,
    (hnone .braces).trans himports⟩

/-! ### Removing comments again -/

namespace CommentScanner

variable {s : CommentScanner} {c : Char}

/-- The scanner where the comment that it is in has ended. -/
def leaveComment (s : CommentScanner) : CommentScanner :=
  match s.mode with
  | .block _ | .line => { s with mode := .text }
  | _ => s

/-- The scanner in front of the slash that is held back, or of the comment that it is in. -/
def beforeComment (s : CommentScanner) : CommentScanner :=
  match s.mode with
  | .slash | .block _ | .line => { s with mode := .text }
  | _ => s

/-- What is kept brings a scanner to where this one is, or was in front of a comment, and no comment
is in a `url(...)`. -/
structure Rescanned (s : CommentScanner) : Prop where
  scan_kept : start.scan s.kept.reverse = s.beforeComment
  outside : s.beforeComment = s ∨ s.inUrl = false

variable {inUrl : Bool} {kept : List Char}

theorem scan_reverse_cons (kept : List Char) (c : Char) :
    start.scan (c :: kept).reverse = (start.scan kept.reverse).step c := by
  rw [List.reverse_cons, scan_append]
  rfl

/-- A character that is kept, and opens no comment, is read again like the first time. -/
theorem Rescanned.of_kept (hscan : start.scan kept.reverse = s)
    (hkept : (s.step c).kept = c :: kept) (hnone : (s.step c).beforeComment = s.step c) :
    (s.step c).Rescanned := by
  refine ⟨?_, Or.inl hnone⟩
  rw [hkept, scan_reverse_cons, hscan, hnone]

theorem beforeComment_stepText (hs : s.mode = .text) (hc : c ≠ '/') :
    (s.stepText c).beforeComment = s.stepText c := by
  unfold beforeComment
  rcases mode_stepText hs hc with hmode | ⟨q, hmode⟩ <;> rw [hmode]

theorem Rescanned.stepText (hscan : start.scan kept.reverse = ⟨.text, inUrl, kept⟩) (c : Char) :
    ((⟨.text, inUrl, kept⟩ : CommentScanner).stepText c).Rescanned := by
  by_cases hc : c = '/'
  · subst hc
    cases inUrl with
    | false => exact ⟨hscan, Or.inr rfl⟩
    | true => exact of_kept hscan rfl rfl
  · exact of_kept hscan (kept_stepText _ hc) (beforeComment_stepText rfl hc)

/-- **One character keeps the two scanners together.** -/
theorem Rescanned.step (h : s.Rescanned) (c : Char) : (s.step c).Rescanned := by
  obtain ⟨mode, inUrl, kept⟩ := s
  obtain ⟨hscan, hout⟩ := h
  cases mode with
  | text => exact Rescanned.stepText hscan c
  | slash =>
    obtain rfl : inUrl = false := hout.resolve_left (by intro h; cases h)
    unfold CommentScanner.step
    dsimp only
    split_ifs with hstar hslash
    · exact ⟨hscan, Or.inr rfl⟩
    · exact ⟨hscan, Or.inr rfl⟩
    · -- The slash is kept after all, and is held back the second time as well.
      have hheld : start.scan ('/' :: kept).reverse = ⟨.slash, false, kept⟩ := by
        rw [scan_reverse_cons, hscan]
        rfl
      have hstep : (⟨.slash, false, kept⟩ : CommentScanner).step c
          = (⟨.text, false, '/' :: kept⟩ : CommentScanner).stepText c := by
        show (if c = '*' then _ else if c = '/' then _ else _) = _
        rw [if_neg hstar, if_neg hslash]
        rfl
      show ((⟨.text, false, '/' :: kept⟩ : CommentScanner).stepText c).Rescanned
      rw [← hstep]
      apply of_kept hheld
      · rw [hstep, kept_stepText _ hslash]
      · rw [hstep, beforeComment_stepText rfl hslash]
  | quoted q =>
    have hsame : start.scan kept.reverse = ⟨.quoted q, inUrl, kept⟩ := hscan
    apply of_kept hsame
    all_goals
      unfold CommentScanner.step
      dsimp only
      split_ifs <;> rfl
  | escaped q => exact of_kept hscan rfl rfl
  | block star =>
    obtain rfl : inUrl = false := hout.resolve_left (by intro h; cases h)
    unfold CommentScanner.step
    dsimp only
    split_ifs with hend hnewline
    · exact ⟨hscan, Or.inr rfl⟩
    · refine ⟨?_, Or.inr rfl⟩
      subst hnewline
      show start.scan ('\n' :: kept).reverse = _
      rw [scan_reverse_cons, hscan]
      rfl
    · exact ⟨hscan, Or.inr rfl⟩
  | line =>
    obtain rfl : inUrl = false := hout.resolve_left (by intro h; cases h)
    unfold CommentScanner.step
    dsimp only
    split_ifs with hnewline
    · exact Rescanned.stepText hscan c
    · exact ⟨hscan, Or.inr rfl⟩

theorem rescanned_scan (text : List Char) : (start.scan text).Rescanned := by
  induction text using List.reverseRecOn with
  | nil => exact ⟨rfl, Or.inl rfl⟩
  | append_singleton text c ih =>
    rw [scan_append]
    exact ih.step c

/-- **What is left of a text** brings a scanner to where the text does, comments aside. -/
theorem scan_removeComments (text : List Char) :
    start.scan (removeComments text) = (start.scan text).leaveComment := by
  obtain ⟨hscan, hout⟩ := rescanned_scan text
  rw [removeComments]
  generalize start.scan text = s at hscan hout
  obtain ⟨mode, inUrl, kept⟩ := s
  cases mode with
  | slash =>
    obtain rfl : inUrl = false := hout.resolve_left (by intro h; cases h)
    show start.scan ('/' :: kept).reverse = _
    rw [scan_reverse_cons, hscan]
    rfl
  | text => exact hscan
  | quoted q => exact hscan
  | escaped q => exact hscan
  | block star => exact hscan
  | line => exact hscan

theorem finish_leaveComment (s : CommentScanner) : s.leaveComment.finish = s.finish := by
  obtain ⟨mode, inUrl, kept⟩ := s
  cases mode <;> rfl

end CommentScanner

/-- Each beginning of what is left is what is left of a beginning of the text. -/
theorem exists_of_prefix_removeComments (h : rest <+: removeComments text) :
    ∃ front, front <+: text ∧ removeComments front = rest := by
  induction text using List.reverseRecOn with
  | nil => exact ⟨[], List.nil_prefix, (List.prefix_nil.mp h).symm⟩
  | append_singleton text c ih =>
    have hback : rest <+: removeComments text →
        ∃ front, front <+: text ++ [c] ∧ removeComments front = rest := by
      intro hrest
      obtain ⟨front, hfront, hleft⟩ := ih hrest
      exact ⟨front, hfront.trans (List.prefix_append _ _), hleft⟩
    have hscan : removeComments (text ++ [c]) = ((start.scan text).step c).finish := by
      rw [removeComments, CommentScanner.scan_append]
      rfl
    rw [hscan] at h
    rcases CommentScanner.finish_step (start.scan text) c with hkept | ⟨-, lost, hlost, -⟩
    · -- The character is the last of what is left, so it is in `rest` only if all is.
      rw [hkept, List.prefix_concat_iff] at h
      rcases h with hall | hrest
      · exact ⟨text ++ [c], List.prefix_refl _, by rw [hscan, hkept, hall]⟩
      · exact hback hrest
    · exact hback (h.trans ⟨lost, hlost.symm⟩)

/-- **Removing comments once is enough.**  What is left has no comments, and nothing has come
together to a new comment, string or `url(...)`: at each place of it the scanner is where it was at
a place of the text, comments aside. -/
theorem removeComments_removeComments (text : List Char) :
    removeComments (removeComments text) = removeComments text ∧
    ∀ rest, rest <+: removeComments text → ∃ front, front <+: text ∧
      removeComments front = rest ∧ start.scan rest = (start.scan front).leaveComment := by
  constructor
  · rw [removeComments, CommentScanner.scan_removeComments, CommentScanner.finish_leaveComment,
      removeComments]
  · intro rest hrest
    obtain ⟨front, hfront, rfl⟩ := exists_of_prefix_removeComments hrest
    exact ⟨front, hfront, rfl, CommentScanner.scan_removeComments front⟩

end SheetGraph
