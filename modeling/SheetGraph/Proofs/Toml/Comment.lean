import Mathlib.Data.List.TakeWhile
import Mathlib.Tactic.Common
import SheetGraph.Toml.Reader

/-!
# Comments of TOML

What may stand in a comment that a newline ends (`Toml.isCommentText`), and what a document is that
begins with one: the document behind it, or none (`Toml.read?_comment`).
-/

namespace SheetGraph.Toml

variable {doc last : Document} {cs text rest : List Char} {steps : Nat}

/-- Whether a text may stand in a comment that a newline ends: it has no control characters but
tabs, and perhaps a carriage return at its end, which belongs to the newline. -/
def isCommentText (text : List Char) : Bool :=
  match text.dropWhile isPlain with
  | [] => true
  | rest => rest == ['\r']

/-- **More steps** change nothing about a document that was read. -/
theorem statements?_mono {steps' : Nat} (hsteps : steps ≤ steps')
    (h : statements? steps doc cs = some last) : statements? steps' doc cs = some last := by
  induction steps generalizing doc cs steps' with
  | zero => cases h
  | succ steps ih =>
    obtain ⟨steps', rfl⟩ : ∃ k, steps' = k + 1 := ⟨steps' - 1, by omega⟩
    have hle : steps ≤ steps' := Nat.le_of_succ_le_succ hsteps
    rw [statements?] at h ⊢
    -- Each kind of statement leaves the same rest for fewer steps.
    have hmore : ∀ {α : Type} {read? : Option α} (next : α → Document × List Char),
        (read?.bind fun x => statements? steps (next x).1 (next x).2) = some last →
        (read?.bind fun x => statements? steps' (next x).1 (next x).2) = some last := by
      intro α read? next hread
      obtain ⟨x, hx, hnext⟩ := Option.bind_eq_some_iff.mp hread
      exact Option.bind_eq_some_iff.mpr ⟨x, hx, ih hle hnext⟩
    revert h
    split
    · exact id
    · exact hmore id
    · exact hmore fun rest => (doc, rest)
    · exact ih hle
    · exact ih hle
    · exact hmore id

theorem afterNewline?_eq_none {c : Char} (hc : c ≠ '\n')
    (hreturn : c = '\r' → cs.head? ≠ some '\n') : afterNewline? (c :: cs) = none := by
  unfold afterNewline?
  split <;> simp_all

/-- **The end of a line behind a comment.** -/
theorem afterLineEnd?_comment (htext : '\n' ∉ text) :
    afterLineEnd? ('#' :: (text ++ '\n' :: rest))
      = if isCommentText text then some rest else none := by
  have hgap : skipGap ('#' :: (text ++ '\n' :: rest)) = '#' :: (text ++ '\n' :: rest) := rfl
  rw [afterLineEnd?, hgap]
  show (match (text ++ '\n' :: rest).dropWhile isPlain with
    | [] => some []
    | rest => afterNewline? rest) = _
  rw [List.dropWhile_append, isCommentText]
  cases hdrop : text.dropWhile isPlain with
  | nil => rfl
  | cons c more =>
    have hmem : ∀ x ∈ c :: more, x ≠ '\n' := by
      rintro x hx rfl
      exact htext ((List.dropWhile_sublist isPlain).subset (hdrop ▸ hx))
    rw [List.forall_mem_cons] at hmem
    by_cases hreturn : c = '\r'
    · subst hreturn
      cases more with
      | nil => rfl
      | cons m more =>
        refine (afterNewline?_eq_none hmem.1 fun _ => ?_).trans rfl
        simpa using hmem.2 m List.mem_cons_self
    · refine (afterNewline?_eq_none hmem.1 fun h => absurd h hreturn).trans ?_
      have hends : ¬ (c :: more == ['\r']) = true := by simp [hreturn]
      exact (if_neg hends).symm

/-- **A document that begins with a comment** is the one behind the comment. -/
theorem read?_comment (htext : '\n' ∉ text)
    (hrest : statements? (rest.length + 1) .empty rest = some doc) :
    read? ('#' :: (text ++ '\n' :: rest))
      = if isCommentText text then some (.table (Node.fieldValues doc.fields)) else none := by
  have hsteps : rest.length + 1 ≤ ('#' :: (text ++ '\n' :: rest)).length := by
    simp only [List.length_cons, List.length_append]
    omega
  have hgap : skipGap ('#' :: (text ++ '\n' :: rest)) = '#' :: (text ++ '\n' :: rest) := rfl
  have hread : read? ('#' :: (text ++ '\n' :: rest))
      = ((afterLineEnd? ('#' :: (text ++ '\n' :: rest))).bind
          (statements? ('#' :: (text ++ '\n' :: rest)).length .empty)).map
        fun doc => .table (Node.fieldValues doc.fields) := by
    rw [read?, statements?, hgap]
    · rfl
    · exact fun _ hmark => absurd (List.cons.inj hmark).1 (by decide)
  rw [hread, afterLineEnd?_comment htext]
  split
  · rw [Option.bind_some, statements?_mono hsteps hrest]
    rfl
  · rfl

end SheetGraph.Toml
