/-!
# Lines

A newline ends a line, and a carriage return in front of it belongs to it; text after the last
newline is a line of its own.
-/

namespace SheetGraph.Text

/-- A line without the carriage return that ends it. -/
def dropCarriageReturn (line : List Char) : List Char :=
  if line.getLast? = some '\r' then line.dropLast else line

/-- The lines of a text. -/
def lines (cs : List Char) : List (List Char) :=
  let pieces := cs.splitOn '\n'
  let ended := pieces.dropLast.map dropCarriageReturn
  match pieces.getLast? with
  | none | some [] => ended
  | some last => ended ++ [last]

/-- No piece between separators holds the separator. -/
theorem not_mem_of_mem_splitOn {sep : Char} {cs piece : List Char}
    (h : piece ∈ cs.splitOn sep) : sep ∉ piece := by
  induction cs generalizing piece with
  | nil => simp_all
  | cons c cs ih =>
    rw [List.splitOn_cons_eq_if_modifyHead] at h
    split at h
    · rcases List.mem_cons.1 h with rfl | h
      · simp
      · exact ih h
    · rename_i hc
      cases hs : cs.splitOn sep with
      | nil => exact absurd hs (by simp)
      | cons p ps =>
        rw [hs, List.modifyHead_cons] at h
        rcases List.mem_cons.1 h with rfl | h
        · have := ih (hs ▸ List.mem_cons_self ..)
          rw [List.mem_cons, not_or]
          exact ⟨fun e => hc (by simp [e]), this⟩
        · exact ih (hs ▸ List.mem_cons_of_mem _ h)

/-- Each piece between separators is a part of the text. -/
theorem subset_of_mem_splitOn {sep : Char} {cs piece : List Char}
    (h : piece ∈ cs.splitOn sep) : piece ⊆ cs := by
  induction cs generalizing piece with
  | nil => simp_all
  | cons c cs ih =>
    rw [List.splitOn_cons_eq_if_modifyHead] at h
    split at h
    · rcases List.mem_cons.1 h with rfl | h
      · exact List.nil_subset _
      · exact fun x hx => List.mem_cons_of_mem c (ih h hx)
    · cases hs : cs.splitOn sep with
      | nil => exact absurd hs (by simp)
      | cons p ps =>
        rw [hs, List.modifyHead_cons] at h
        rcases List.mem_cons.1 h with rfl | h
        · exact List.cons_subset_cons c (ih (hs ▸ List.mem_cons_self ..))
        · exact fun x hx => List.mem_cons_of_mem c (ih (hs ▸ List.mem_cons_of_mem _ h) hx)

/-- A character behind a text that does not separate goes into its last piece. -/
theorem exists_splitOn_concat {sep c : Char} (h : c ≠ sep) (cs : List Char) :
    ∃ pieces last, cs.splitOn sep = pieces ++ [last] ∧
      (cs ++ [c]).splitOn sep = pieces ++ [last ++ [c]] := by
  have hc : ¬ (c == sep) = true := by simpa using h
  induction cs with
  | nil =>
    refine ⟨[], [], rfl, ?_⟩
    rw [List.nil_append, List.splitOn_cons_eq_if_modifyHead, if_neg hc]
    rfl
  | cons d cs ih =>
    obtain ⟨pieces, last, hcs, hcsc⟩ := ih
    rw [List.cons_append, List.splitOn_cons_eq_if_modifyHead, List.splitOn_cons_eq_if_modifyHead,
      hcs, hcsc]
    split
    · exact ⟨[] :: pieces, last, rfl, rfl⟩
    · cases pieces with
      | nil => exact ⟨[], d :: last, rfl, rfl⟩
      | cons piece pieces => exact ⟨(d :: piece) :: pieces, last, rfl, rfl⟩

end SheetGraph.Text
