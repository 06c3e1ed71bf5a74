/-!
# Collecting without repetition

`collect known more` is `known` with those elements of `more` behind it that are not there yet, each
once and in the order of their first occurrence.
-/

namespace SheetGraph

variable {α : Type} [DecidableEq α]

/-- The list with those of `more` behind it that are not there yet. -/
def collect (known : List α) : (more : List α) → List α
  | [] => known
  | x :: more => collect (if x ∈ known then known else known ++ [x]) more

@[simp] theorem mem_collect {known more : List α} {a : α} :
    a ∈ collect known more ↔ a ∈ known ∨ a ∈ more := by
  induction more generalizing known with
  | nil => simp [collect]
  | cons x more ih =>
    rw [collect, ih]
    split
    · constructor
      · rintro (h | h)
        · exact .inl h
        · exact .inr (List.mem_cons_of_mem _ h)
      · rintro (h | h)
        · exact .inl h
        · rcases List.mem_cons.1 h with rfl | h
          · left; assumption
          · exact .inr h
    · simp [or_assoc]

/-- **Collecting repeats nothing.** -/
theorem nodup_collect {known : List α} (more : List α) (h : known.Nodup) :
    (collect known more).Nodup := by
  induction more generalizing known with
  | nil => exact h
  | cons x more ih =>
    rw [collect]
    split
    · exact ih h
    · rename_i hx
      refine ih ?_
      simp only [List.nodup_append, List.nodup_cons, List.not_mem_nil, not_false_eq_true,
        List.nodup_nil, and_self, true_and, h]
      intro a ha b hb
      rw [List.mem_singleton.1 hb]
      rintro rfl
      exact hx ha

/-- What was known stays in front. -/
theorem prefix_collect (known more : List α) : known <+: collect known more := by
  induction more generalizing known with
  | nil => exact List.prefix_refl _
  | cons x more ih =>
    rw [collect]
    split
    · exact ih known
    · exact (List.prefix_append known [x]).trans (ih _)

/-- Two lists one behind the other are collected one after the other. -/
theorem collect_append (known more later : List α) :
    collect known (more ++ later) = collect (collect known more) later := by
  induction more generalizing known with
  | nil => rfl
  | cons x more ih => exact ih _

/-- **Collecting puts behind what is known the rest, each element at its first occurrence.** -/
theorem collect_eq_append (known more : List α) :
    collect known more = known ++ (more.filter (· ∉ known)).eraseDups := by
  induction more generalizing known with
  | nil => simp [collect]
  | cons x more ih =>
    rw [collect]
    by_cases hx : x ∈ known
    · rw [if_pos hx, ih, List.filter_cons_of_neg (by simpa using hx)]
    · rw [if_neg hx, ih, List.filter_cons_of_pos (by simpa using hx), List.eraseDups_cons,
        List.append_assoc, List.singleton_append, List.filter_filter]
      congr 4
      funext y
      by_cases hy : y = x <;> simp [hy]

/-- What repeats nothing is put behind what is known as it is. -/
theorem collect_of_nodup {known more : List α} (h : more.Nodup) :
    collect known more = known ++ more.filter (· ∉ known) := by
  induction more generalizing known with
  | nil => simp [collect]
  | cons x more ih =>
    obtain ⟨hx, hmore⟩ := List.nodup_cons.1 h
    rw [collect, ih hmore]
    by_cases hknown : x ∈ known
    · rw [if_pos hknown, List.filter_cons_of_neg (by simpa using hknown)]
    · rw [if_neg hknown, List.filter_cons_of_pos (by simpa using hknown), List.append_assoc,
        List.singleton_append]
      congr 2
      refine List.filter_congr fun y hy => ?_
      have hne : y ≠ x := fun e => hx (e ▸ hy)
      simp [hne]

end SheetGraph
