import Mathlib.Data.List.Infix
import SheetGraph.Stylesheet.Comment

/-!
# What the scanner keeps

`CommentScanner.atText kept` is the scanner between two parts of a text: in no quotes, in no
comment, in no `url(...)`, with `kept` behind it.  From there it keeps ordinary text and texts in
quotes as they are (`scan_plain`, `scan_quoted`), the newlines of a block comment (`scan_block`),
and nothing of a line comment (`scan_line`).

A slash is kept only when the next character is seen.  A text in which slashes stand alone leaves
the scanner `Pending`: it may hold a last slash back, and lets go of it at any character that does
not make it a comment.
-/

namespace SheetGraph.CommentScanner

variable {s : CommentScanner} {kept cs body : List Char} {c q : Char}

/-- The scanner in ordinary text. -/
def atText (kept : List Char) : CommentScanner := ⟨.text, false, kept.reverse⟩

/-- The scanner in a line comment. -/
def inLine (kept : List Char) : CommentScanner := ⟨.line, false, kept.reverse⟩

theorem scan_cons (s : CommentScanner) (c : Char) (cs : List Char) :
    s.scan (c :: cs) = (s.step c).scan cs := rfl

@[simp] theorem finish_atText : (atText kept).finish = kept := by
  simp [atText, finish]

/-- **What one more character does** to what is kept: it is kept as well, or else it is no newline,
and no newline is lost. -/
theorem finish_step (s : CommentScanner) (c : Char) :
    (s.step c).finish = s.finish ++ [c] ∨
      c ≠ '\n' ∧ ∃ lost, s.finish = (s.step c).finish ++ lost ∧ '\n' ∉ lost := by
  -- A slash that opens no comment and the end of a line comment come to the same as text.
  have htext : ∀ s : CommentScanner, s.mode = .text →
      (s.stepText c).finish = s.finish ++ [c] := by
    rintro ⟨mode, inUrl, kept⟩ rfl
    unfold stepText
    split_ifs with hquote hopen hclose hslash
    · simp [finish, keep]
    · simp [finish, keep]
    · simp [finish, keep]
    · simp [finish, hslash.1]
    · simp [finish, keep]
  obtain ⟨mode, inUrl, kept⟩ := s
  cases mode with
  | text => exact Or.inl (htext _ rfl)
  | slash =>
    unfold step
    dsimp only
    split_ifs with hstar hslash
    · exact Or.inr ⟨by rw [hstar]; decide, ['/'], by simp [finish]⟩
    · exact Or.inr ⟨by rw [hslash]; decide, ['/'], by simp [finish]⟩
    · exact Or.inl (htext ⟨.text, inUrl, '/' :: kept⟩ rfl)
  | quoted q =>
    left
    unfold step
    dsimp only
    split_ifs <;> simp [finish, keep]
  | escaped q => exact Or.inl (by simp [step, finish, keep])
  | block star =>
    unfold step
    dsimp only
    split_ifs with hend hnewline
    · exact Or.inr ⟨by rw [hend.2]; decide, [], by simp [finish]⟩
    · exact Or.inl (by simp [finish, keep, hnewline])
    · exact Or.inr ⟨hnewline, [], by simp [finish]⟩
  | line =>
    unfold step
    dsimp only
    split_ifs with hnewline
    · exact Or.inl (htext ⟨.text, inUrl, kept⟩ rfl)
    · exact Or.inr ⟨hnewline, [], by simp⟩

/-! ### Ordinary text -/

/-- The characters that mean something to the scanner in ordinary text, newlines and closing
parentheses aside, which only end a `url(...)`. -/
def marks : List Char := ['"', '\'', '(', '/']

theorem step_atText (h : c ∉ marks) : (atText kept).step c = atText (kept ++ [c]) := by
  simp only [marks, List.mem_cons, List.not_mem_nil, or_false, not_or] at h
  obtain ⟨hdouble, hsingle, hparen, hslash⟩ := h
  have hkeep : atText (kept ++ [c]) = (atText kept).keep c := by
    rw [atText, List.reverse_append]
    rfl
  show stepText (atText kept) c = _
  rw [stepText, if_neg (by tauto), if_neg hparen, hkeep]
  split
  · rfl
  · rw [if_neg (by tauto)]

theorem scan_plain (h : ∀ c ∈ cs, c ∉ marks) (kept : List Char) :
    (atText kept).scan cs = atText (kept ++ cs) := by
  induction cs generalizing kept with
  | nil => rw [List.append_nil]; rfl
  | cons c cs ih =>
    rw [List.forall_mem_cons] at h
    rw [scan_cons, step_atText h.1, ih h.2, List.append_assoc, List.singleton_append]

/-! ### Texts in quotes -/

/-- The scanner in quotes, up to their end. -/
private theorem scan_toQuote (h : ∀ c ∈ cs, c ≠ q ∧ c ≠ '\\' ∧ c ≠ '\n') (kept : List Char) :
    (⟨.quoted q, false, kept.reverse⟩ : CommentScanner).scan cs
      = ⟨.quoted q, false, (kept ++ cs).reverse⟩ := by
  induction cs generalizing kept with
  | nil => rw [List.append_nil]; rfl
  | cons c cs ih =>
    rw [List.forall_mem_cons] at h
    obtain ⟨⟨hq, hescape, hnewline⟩, hrest⟩ := h
    have hstep : (⟨.quoted q, false, kept.reverse⟩ : CommentScanner).step c
        = ⟨.quoted q, false, (kept ++ [c]).reverse⟩ := by
      rw [List.reverse_append]
      show (if c = '\\' then _ else if c = q ∨ c = '\n' then _ else _) = _
      rw [if_neg hescape, if_neg (by tauto)]
      rfl
    rw [scan_cons, hstep, ih hrest, List.append_assoc, List.singleton_append]

/-- **A text in quotes is kept as it is**, comment marks included. -/
theorem scan_quoted (hq : q = '"' ∨ q = '\'') (h : ∀ c ∈ cs, c ≠ q ∧ c ≠ '\\' ∧ c ≠ '\n')
    (kept : List Char) :
    (atText kept).scan (q :: cs ++ [q]) = atText (kept ++ (q :: cs ++ [q])) := by
  have hopen : (atText kept).step q = ⟨.quoted q, false, (kept ++ [q]).reverse⟩ := by
    rw [List.reverse_append]
    show stepText (atText kept) q = _
    rw [stepText, if_pos hq]
    rfl
  have hescape : q ≠ '\\' := by
    rcases hq with rfl | rfl <;> decide
  have hclose : ∀ kept : List Char,
      (⟨.quoted q, false, kept.reverse⟩ : CommentScanner).step q = atText (kept ++ [q]) := by
    intro kept
    rw [atText, List.reverse_append]
    show (if q = '\\' then _ else if q = q ∨ q = '\n' then _ else _) = _
    rw [if_neg hescape, if_pos (Or.inl rfl)]
    rfl
  rw [List.cons_append, scan_cons, hopen, scan_append, scan_toQuote h, scan_cons, hclose]
  simp [scan]

/-! ### Texts that are kept -/

/-- The scanner keeps all of the text, and is in ordinary text again behind it. -/
def Keeps (cs : List Char) : Prop :=
  ∀ kept, (atText kept).scan cs = atText (kept ++ cs)

namespace Keeps

theorem of_plain (h : ∀ c ∈ cs, c ∉ marks) : Keeps cs :=
  scan_plain h

theorem append {cs' : List Char} (h : Keeps cs) (h' : Keeps cs') : Keeps (cs ++ cs') := by
  intro kept
  rw [scan_append, h, h', List.append_assoc]

theorem intercalate {sep : Char} {pieces : List (List Char)} (hsep : sep ∉ marks)
    (h : ∀ piece ∈ pieces, Keeps piece) : Keeps ([sep].intercalate pieces) := by
  induction pieces with
  | nil => exact of_plain (by simp)
  | cons piece pieces ih =>
    rw [List.forall_mem_cons] at h
    cases pieces with
    | nil =>
      rw [List.intercalate_singleton]
      exact h.1
    | cons next pieces =>
      rw [List.intercalate_cons_cons]
      exact (h.1.append (of_plain (by simpa using hsep))).append (ih h.2)

/-- **A text that is kept** has no comments. -/
theorem removeComments_eq (h : Keeps cs) : removeComments cs = cs := by
  rw [removeComments]
  exact (congrArg finish (h [])).trans finish_atText

end Keeps

/-! ### Comments -/

/-- The newlines of a text. -/
def newlines (cs : List Char) : List Char :=
  cs.filter (· == '\n')

/-- The scanner in a block comment, up to its end.  The star before the text counts: with a slash
behind it the comment ends. -/
private theorem scan_toBlockEnd (star : Bool) (kept : List Char)
    (h : ¬ ['*', '/'] <:+: if star then '*' :: body else body) :
    (⟨.block star, false, kept.reverse⟩ : CommentScanner).scan (body ++ ['*', '/'])
      = atText (kept ++ newlines body) := by
  induction body generalizing star kept with
  | nil =>
    rw [newlines, List.filter_nil, List.append_nil]
    cases star <;> rfl
  | cons c body ih =>
    have hopen : ¬ (star = true ∧ c = '/') := by
      rintro ⟨rfl, rfl⟩
      exact h ⟨[], body, rfl⟩
    have hbody : ¬ ['*', '/'] <:+: c :: body := by
      cases star with
      | false => exact h
      | true => exact fun hin => h (hin.trans (List.suffix_cons '*' (c :: body)).isInfix)
    have hrest : ¬ ['*', '/'] <:+: if c == '*' then '*' :: body else body := by
      split
      · rename_i hstar
        rwa [eq_of_beq hstar] at hbody
      · exact fun hin => hbody (hin.trans (List.suffix_cons c body).isInfix)
    rw [List.cons_append, scan_cons]
    show scan (if star = true ∧ c = '/' then _ else if c = '\n' then _ else _) _ = _
    rw [if_neg hopen]
    split
    · rename_i hnewline
      subst hnewline
      have hkeep : (⟨.block star, false, kept.reverse⟩ : CommentScanner).keep '\n'
          = ⟨.block star, false, (kept ++ ['\n']).reverse⟩ := by
        rw [List.reverse_append]
        rfl
      rw [hkeep]
      have hnext := ih false (kept ++ ['\n']) hrest
      rw [List.append_assoc] at hnext
      exact hnext
    · rename_i hnewline
      have hnone : newlines (c :: body) = newlines body :=
        List.filter_cons_of_neg (by simpa using hnewline)
      rw [hnone]
      exact ih (c == '*') kept hrest

/-- **A block comment leaves its newlines.** -/
theorem scan_block (h : ¬ ['*', '/'] <:+: body) (kept : List Char) :
    (atText kept).scan ('/' :: '*' :: (body ++ ['*', '/'])) = atText (kept ++ newlines body) :=
  scan_toBlockEnd false kept h

/-- **A line comment leaves nothing**, and goes on up to the next newline. -/
theorem scan_line (h : '\n' ∉ body) (kept : List Char) :
    (atText kept).scan ('/' :: '/' :: body) = inLine kept := by
  show (inLine kept).scan body = inLine kept
  induction body with
  | nil => rfl
  | cons c body ih =>
    rw [List.mem_cons, not_or] at h
    have hstep : (inLine kept).step c = inLine kept := if_neg (Ne.symm h.1)
    rw [scan_cons, hstep, ih h.2]

theorem step_inLine_newline : (inLine kept).step '\n' = atText (kept ++ ['\n']) := by
  rw [atText, List.reverse_append]
  rfl

/-! ### Slashes -/

/-- The scanner has kept a text, except perhaps for a slash at its end. -/
inductive Pending : List Char → CommentScanner → Prop
  /-- All of it has been kept. -/
  | text {kept : List Char} : Pending kept (atText kept)
  /-- The last slash may open a comment. -/
  | slash {kept : List Char} : Pending (kept ++ ['/']) ⟨.slash, false, kept.reverse⟩

theorem Pending.finish (h : Pending kept s) : s.finish = kept := by
  cases h with
  | text => exact finish_atText
  | slash => simp [CommentScanner.finish]

/-- A character that makes no comment of a slash lets go of it. -/
theorem Pending.scan_cons (h : Pending kept s) (hslash : c ≠ '/') (hstar : c ≠ '*')
    (rest : List Char) : s.scan (c :: rest) = (atText kept).scan (c :: rest) := by
  cases h with
  | text => rfl
  | @slash kept =>
    have hstep : (⟨.slash, false, kept.reverse⟩ : CommentScanner).step c
        = (atText (kept ++ ['/'])).step c := by
      rw [atText, List.reverse_append]
      show (if c = '*' then _ else if c = '/' then _ else _) = _
      rw [if_neg hstar, if_neg hslash]
      rfl
    rw [CommentScanner.scan_cons, CommentScanner.scan_cons, hstep]

/-- Ordinary text behind a slash lets go of it. -/
theorem Pending.scan_plain (h : Pending kept s) (hcs : ∀ c ∈ cs, c ∉ marks ∧ c ≠ '*') :
    Pending (kept ++ cs) (s.scan cs) := by
  cases cs with
  | nil =>
    rw [List.append_nil]
    exact h
  | cons c cs =>
    have hc := hcs c List.mem_cons_self
    have hslash : c ≠ '/' := by
      rintro rfl
      exact hc.1 (by decide)
    rw [h.scan_cons hslash hc.2, CommentScanner.scan_plain fun d hd => (hcs d hd).1]
    exact Pending.text

/-- **A text in which slashes stand alone** is kept as it is, up to a slash at its end. -/
theorem pending_scan (hmarks : ∀ c ∈ cs, c ≠ '"' ∧ c ≠ '\'' ∧ c ≠ '(')
    (hline : ¬ ['/', '/'] <:+: cs) (hblock : ¬ ['/', '*'] <:+: cs) (kept : List Char) :
    Pending (kept ++ cs) ((atText kept).scan cs) := by
  induction cs generalizing kept with
  | nil => rw [List.append_nil]; exact Pending.text
  | cons c cs ih =>
    rw [List.forall_mem_cons] at hmarks
    have hgrown : ∀ mark : List Char, mark <:+: cs → mark <:+: c :: cs :=
      fun mark hin => hin.trans (List.suffix_cons c cs).isInfix
    have hrest := ih hmarks.2 (fun hin => hline (hgrown _ hin)) (fun hin => hblock (hgrown _ hin))
      (kept ++ [c])
    rw [List.append_assoc, List.singleton_append] at hrest
    by_cases hc : c = '/'
    · subst hc
      cases cs with
      | nil => exact Pending.slash
      | cons d cs =>
        -- The slash is held back until `d` is seen, which does not make it a comment.
        have hslash : d ≠ '/' := by
          rintro rfl
          exact hline ⟨[], cs, rfl⟩
        have hstar : d ≠ '*' := by
          rintro rfl
          exact hblock ⟨[], cs, rfl⟩
        have hheld : Pending (kept ++ ['/']) ((atText kept).step '/') := Pending.slash
        rw [CommentScanner.scan_cons, hheld.scan_cons hslash hstar]
        exact hrest
    · have hplain : c ∉ marks := by
        simp only [marks, List.mem_cons, List.not_mem_nil, or_false]
        tauto
      rw [CommentScanner.scan_cons, step_atText hplain]
      exact hrest

end SheetGraph.CommentScanner
