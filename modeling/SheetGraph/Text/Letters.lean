/-!
# Letters of either case

Comparison of texts up to the case of ASCII letters.
-/

namespace SheetGraph.Text

/-- Equality up to the case of ASCII letters. -/
def sameLetters (a b : List Char) : Bool :=
  a.map Char.toLower == b.map Char.toLower

/-- What follows `word` at the start of a text, in either case. -/
def dropWord? : (word cs : List Char) → Option (List Char)
  | [], cs => some cs
  | _ :: _, [] => none
  | w :: word, c :: cs => if w.toLower = c.toLower then dropWord? word cs else none

/-- What follows the first occurrence of `word` in a text, in either case. -/
def afterWord? (word : List Char) : List Char → Option (List Char)
  | [] => dropWord? word []
  | c :: cs =>
    match dropWord? word (c :: cs) with
    | some rest => some rest
    | none => afterWord? word cs

/-- **A dropped word was there.** -/
theorem dropWord?_eq_some_iff {word cs rest : List Char} :
    dropWord? word cs = some rest ↔ ∃ w, sameLetters word w = true ∧ cs = w ++ rest := by
  induction word generalizing cs with
  | nil =>
    simp only [dropWord?, Option.some.injEq]
    constructor
    · rintro rfl
      exact ⟨[], rfl, rfl⟩
    · rintro ⟨w, hw, rfl⟩
      cases w with
      | nil => rfl
      | cons d w => simp [sameLetters] at hw
  | cons a word ih =>
    cases cs with
    | nil =>
      simp only [dropWord?, reduceCtorEq, false_iff]
      rintro ⟨w, hw, h⟩
      obtain ⟨rfl, rfl⟩ := List.append_eq_nil_iff.1 h.symm
      simp [sameLetters] at hw
    | cons c cs =>
      rw [dropWord?]
      split
      · rename_i hc
        rw [ih]
        constructor
        · rintro ⟨w, hw, rfl⟩
          exact ⟨c :: w, by simpa [sameLetters, hc] using hw, rfl⟩
        · rintro ⟨w, hw, h⟩
          cases w with
          | nil => simp [sameLetters] at hw
          | cons d w =>
            obtain ⟨rfl, rfl⟩ := List.cons.inj h
            exact ⟨w, by simpa [sameLetters, hc] using hw, rfl⟩
      · rename_i hc
        -- Another letter stands there, so no spelling of the word does.
        simp only [reduceCtorEq, false_iff]
        rintro ⟨w, hw, h⟩
        cases w with
        | nil => simp [sameLetters] at hw
        | cons d w =>
          obtain ⟨rfl, rfl⟩ := List.cons.inj h
          simp [sameLetters, hc] at hw

/-! ### Characters that are no letters -/

theorem toLower_of_lt {m : Char} (hm : m.toNat < 'A'.toNat) : m.toLower = m := by
  unfold Char.toLower
  rw [dif_neg]
  rintro ⟨hge, -⟩
  exact absurd hm (Nat.not_lt.mpr hge)

/-- A character in front of the letters is no letter in lower case. -/
theorem eq_of_toLower_eq {c m : Char} (hm : m.toNat < 'A'.toNat) (h : c.toLower = m) : c = m := by
  unfold Char.toLower at h
  split at h
  · rename_i hupper
    exfalso
    have hval : m.toNat = (c.val + ('a'.val - 'A'.val)).toNat := by
      rw [← h]
      rfl
    have hle : c.val.toNat ≤ 'Z'.val.toNat := hupper.2
    have hge : 'A'.val.toNat ≤ c.val.toNat := hupper.1
    simp at hval hle hge hm
    omega
  · exact h

theorem notMem_of_sameLetters {word w : List Char} {m : Char} (h : sameLetters word w = true)
    (hm : m.toLower ∉ word.map Char.toLower) : m ∉ w := by
  intro hmem
  apply hm
  rw [eq_of_beq h]
  exact List.mem_map_of_mem hmem

/-- **A word with a sign in it** is not in a text without the sign. -/
theorem dropWord?_eq_none {word cs : List Char} {m : Char} (hm : m.toNat < 'A'.toNat)
    (hword : m ∈ word) (h : m ∉ cs) : dropWord? word cs = none := by
  cases hdrop : dropWord? word cs with
  | none => rfl
  | some rest =>
    obtain ⟨w, hw, rfl⟩ := dropWord?_eq_some_iff.mp hdrop
    have hlower : m.toLower ∈ w.map Char.toLower := by
      rw [← eq_of_beq hw]
      exact List.mem_map_of_mem hword
    obtain ⟨x, hx, hxm⟩ := List.mem_map.mp hlower
    rw [toLower_of_lt hm] at hxm
    rw [eq_of_toLower_eq hm hxm] at hx
    exact absurd (List.mem_append_left rest hx) h

/-- A word that begins with a sign is spelled with it. -/
theorem exists_cons_of_sameLetters {word w : List Char} {m : Char} (hm : m.toNat < 'A'.toNat)
    (h : sameLetters (m :: word) w = true) : ∃ w', w = m :: w' := by
  cases w with
  | nil => simp [sameLetters] at h
  | cons c w =>
    have hhead := (List.cons.inj (eq_of_beq h)).1
    rw [toLower_of_lt hm] at hhead
    rw [eq_of_toLower_eq hm hhead.symm]
    exact ⟨w, rfl⟩

end SheetGraph.Text
