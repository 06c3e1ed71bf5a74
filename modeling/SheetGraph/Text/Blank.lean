/-!
# Blank characters

The `White_Space` property of Unicode, and trimming by it.  Trimming works on the characters of a
text.
-/

namespace SheetGraph.Text

/-- Whether `c` has the Unicode property `White_Space`. -/
def isBlank (c : Char) : Bool :=
  let n := c.toNat
  (0x09 ≤ n && n ≤ 0x0D) || n == 0x20 || n == 0x85 || n == 0xA0 || n == 0x1680 ||
    (0x2000 ≤ n && n ≤ 0x200A) || n == 0x2028 || n == 0x2029 || n == 0x202F || n == 0x205F ||
    n == 0x3000

/-- The text without its leading blanks. -/
def trimStart (cs : List Char) : List Char :=
  cs.dropWhile isBlank

/-- The text without its trailing blanks. -/
def trimEnd (cs : List Char) : List Char :=
  (cs.reverse.dropWhile isBlank).reverse

/-- The text without leading and trailing blanks. -/
def trim (cs : List Char) : List Char :=
  trimEnd (trimStart cs)

/-- A space or a tab. -/
def isSpaceOrTab (c : Char) : Bool :=
  c == ' ' || c == '\t'

/-! ### Laws -/

/-- No blank is an upper-case letter. -/
theorem toLower_of_isBlank {c : Char} (h : isBlank c = true) : c.toLower = c := by
  unfold Char.toLower
  rw [dif_neg]
  rintro ⟨hge, hle⟩
  have hlow : 65 ≤ c.toNat := hge
  have hhigh : c.toNat ≤ 90 := hle
  simp only [isBlank, Bool.or_eq_true, Bool.and_eq_true, decide_eq_true_eq, beq_iff_eq] at h
  omega

@[simp] theorem trimEnd_nil : trimEnd [] = [] := rfl

/-- A text that ends in a character that is no blank is its own `trimEnd`. -/
theorem trimEnd_append_of_not_blank (cs : List Char) {c : Char} (h : isBlank c = false) :
    trimEnd (cs ++ [c]) = cs ++ [c] := by
  simp [trimEnd, h]

/-- `trimEnd` stops at a character that is no blank. -/
theorem trimEnd_append_cons {c : Char} (hc : isBlank c = false) (cs rest : List Char) :
    trimEnd (cs ++ c :: rest) = cs ++ c :: trimEnd rest := by
  have hneg : ¬ isBlank c = true := by
    rw [hc]
    exact Bool.false_ne_true
  rw [trimEnd, trimEnd, List.reverse_append, List.reverse_cons, List.append_assoc,
    List.dropWhile_append]
  split
  · rename_i hnone
    rw [List.isEmpty_iff.mp hnone, List.singleton_append, List.dropWhile_cons_of_neg hneg]
    simp
  · simp

/-- Blanks in front do not show after `trim`. -/
theorem trim_blanks_append {pre : List Char} (h : ∀ c ∈ pre, isBlank c = true) (cs : List Char) :
    trim (pre ++ cs) = trim cs := by
  rw [trim, trimStart, List.dropWhile_append_of_pos h]
  rfl

theorem trimEnd_append_blanks {post : List Char} (h : ∀ c ∈ post, isBlank c = true)
    (cs : List Char) : trimEnd (cs ++ post) = trimEnd cs := by
  have hrev : ∀ c ∈ post.reverse, isBlank c = true := fun c hc => h c (List.mem_reverse.mp hc)
  rw [trimEnd, List.reverse_append, List.dropWhile_append_of_pos hrev]
  rfl

/-- Blanks at the end do not show after `trim`. -/
theorem trim_append_blanks {post : List Char} (h : ∀ c ∈ post, isBlank c = true)
    (cs : List Char) : trim (cs ++ post) = trim cs := by
  rw [trim, trim, trimStart, trimStart, List.dropWhile_append]
  split
  · -- Nothing but blanks.
    rename_i hnone
    rw [List.isEmpty_iff.mp hnone, trimEnd_nil]
    have hpost : (post ++ []).dropWhile isBlank = [].dropWhile isBlank :=
      List.dropWhile_append_of_pos h
    rw [List.append_nil, List.dropWhile_nil] at hpost
    rw [hpost, trimEnd_nil]
  · exact trimEnd_append_blanks h _

end SheetGraph.Text
