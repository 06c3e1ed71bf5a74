import Mathlib.Data.List.Forall2
import SheetGraph.Proofs.Stylesheet.Strings

/-!
# Lines without comments

Removing comments loses characters, but no newline (`newlines_removeComments`): each character of a
text is kept or is no newline, wherever the scanner is.  So what is left of a text has its lines,
and each of them is what is left of the line in its place (`forall₂_lines_removeComments`).
-/

namespace SheetGraph

open CommentScanner (newlines)

/-! ### Texts that are thinned out -/

/-- **When a part of a text is lost but none of the separators**, each piece is a part of the piece
in its place. -/
theorem forall₂_splitOn {sep : Char} {cs text : List Char} (h : cs.Sublist text)
    (hcount : cs.count sep = text.count sep) :
    List.Forall₂ List.Sublist (cs.splitOn sep) (text.splitOn sep) := by
  induction h with
  | slnil => exact .cons (List.Sublist.refl []) .nil
  | @cons cs text c h ih =>
    -- The character that is lost is no separator.
    have hc : ¬ (c == sep) = true := by
      intro hsep
      rw [List.count_cons, if_pos hsep] at hcount
      have hle := h.count_le sep
      omega
    rw [List.count_cons, if_neg hc, Nat.add_zero] at hcount
    have hpieces := ih hcount
    rw [List.splitOn_cons_eq_if_modifyHead, if_neg hc]
    generalize cs.splitOn sep = pieces, text.splitOn sep = pieces' at hpieces ⊢
    cases hpieces with
    | nil => exact .nil
    | cons hfirst hrest => exact .cons (hfirst.cons c) hrest
  | @cons_cons cs text c h ih =>
    rw [List.count_cons, List.count_cons, Nat.add_right_cancel_iff] at hcount
    have hpieces := ih hcount
    rw [List.splitOn_cons_eq_if_modifyHead, List.splitOn_cons_eq_if_modifyHead]
    generalize cs.splitOn sep = pieces, text.splitOn sep = pieces' at hpieces ⊢
    split
    · exact .cons (List.Sublist.refl []) hpieces
    · cases hpieces with
      | nil => exact .nil
      | cons hfirst hrest => exact .cons (hfirst.cons_cons c) hrest

/-! ### Newlines -/

namespace CommentScanner

theorem newlines_append (cs cs' : List Char) :
    newlines (cs ++ cs') = newlines cs ++ newlines cs' :=
  List.filter_append cs cs'

/-- A newline is kept wherever the scanner is, and none is lost later. -/
theorem newlines_finish_step (s : CommentScanner) (c : Char) :
    newlines (s.step c).finish = newlines (s.finish ++ [c]) := by
  rcases finish_step s c with hkept | ⟨hc, lost, hlost, hnone⟩
  · rw [hkept]
  · have hcut : newlines (lost ++ [c]) = [] := by
      rw [newlines, List.filter_eq_nil_iff]
      intro e he hnewline
      rw [List.mem_append, List.mem_singleton, eq_of_beq hnewline] at he
      exact he.elim hnone (Ne.symm hc)
    rw [hlost, List.append_assoc, newlines_append, hcut, List.append_nil]

theorem newlines_finish_scan (s : CommentScanner) (cs : List Char) :
    newlines (s.scan cs).finish = newlines (s.finish ++ cs) := by
  induction cs generalizing s with
  | nil =>
    rw [List.append_nil]
    rfl
  | cons c cs ih =>
    rw [scan_cons, ih, newlines_append, newlines_finish_step, ← newlines_append,
      List.append_assoc, List.singleton_append]

end CommentScanner

/-- **No newline is lost** with the comments. -/
theorem newlines_removeComments (text : List Char) :
    newlines (removeComments text) = newlines text :=
  CommentScanner.newlines_finish_scan .start text

/-- **Removing comments keeps lines aligned**: there are as many as before, and each is a part of
the line in its place. -/
theorem forall₂_lines_removeComments (text : List Char) :
    ((removeComments text).splitOn '\n').length = (text.splitOn '\n').length ∧
    List.Forall₂ List.Sublist ((removeComments text).splitOn '\n') (text.splitOn '\n') := by
  have hpart : (removeComments text).Sublist text :=
    CommentScanner.finish_scan_sublist .start text
  have hcount : (removeComments text).count '\n' = text.count '\n' := by
    rw [List.count_eq_length_filter, List.count_eq_length_filter]
    exact congrArg List.length (newlines_removeComments text)
  have hlines := forall₂_splitOn hpart hcount
  exact ⟨hlines.length_eq, hlines⟩

end SheetGraph
