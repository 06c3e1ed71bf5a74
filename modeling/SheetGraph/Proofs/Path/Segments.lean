import Mathlib.Data.List.TakeWhile
import SheetGraph.Proofs.Path.Parent
import SheetGraph.Text.Line

/-!
# The texts between the slashes of a path

What a text between slashes stands for is seen from the text: `..` goes up, an empty text and a dot
stand for nothing (`Path.isIdle`), and all else is a name.

The texts that stand for something are the `steps` of a path.  The parent of a path is without the
last of them (`Path.steps_of_parent?`), and what is written behind a path comes behind its texts
(`Path.exists_segments_child`).
-/

namespace SheetGraph

theorem Name.eq_chars_of_ofChars? {s : List Char} {n : Name} (h : ofChars? s = some n) :
    s = n.chars := by
  unfold ofChars? at h
  split at h
  · cases h
    rw [chars, String.toList_ofList]
  · cases h

namespace Component

variable {s : List Char} {c : Component} {n : Name}

theorem ofSegment?_eq_up_iff : ofSegment? s = some .up ↔ s = ['.', '.'] := by
  unfold ofSegment?
  split
  · rename_i hs
    simp [hs]
  · rename_i hs
    cases Name.ofChars? s <;> simp [hs]

/-- What is not `..` is a name. -/
theorem exists_name_of_ofSegment? (h : ofSegment? s = some c) (hc : c ≠ .up) :
    ∃ n, c = .name n := by
  unfold ofSegment? at h
  split at h
  · cases h
    exact absurd rfl hc
  · obtain ⟨n, -, rfl⟩ := Option.map_eq_some_iff.mp h
    exact ⟨n, rfl⟩

end Component

section DropWhile

variable {α : Type} {f : α → Bool} {xs ys : List α}

theorem exists_reverse_eq_of_dropWhile (h : xs.dropWhile f = ys) :
    ∃ zs, xs.reverse = ys.reverse ++ zs ∧ ∀ z ∈ zs, f z = true := by
  refine ⟨(xs.takeWhile f).reverse, ?_, fun z hz => ?_⟩
  · rw [← List.reverse_append, ← h, List.takeWhile_append_dropWhile]
  · exact List.mem_takeWhile_imp (List.mem_reverse.mp hz)

/-- What is dropped from the end of a list is of one kind. -/
theorem exists_append_of_dropWhile_reverse (h : xs.reverse.dropWhile f = ys) :
    ∃ zs, xs = ys.reverse ++ zs ∧ ∀ z ∈ zs, f z = true := by
  have hreverse := exists_reverse_eq_of_dropWhile h
  rwa [List.reverse_reverse] at hreverse

end DropWhile

namespace Path

variable {p q : Path} {t : String}

/-- The texts that stand for something. -/
def stepsOf (segments : List (List Char)) : List (List Char) :=
  segments.filter fun s => !isIdle s

/-- The steps of a path. -/
def steps (p : Path) : List (List Char) :=
  stepsOf p.segments

section Steps

variable {s : List Char} {segments front back : List (List Char)}

theorem stepsOf_cons_idle (h : isIdle s = true) : stepsOf (s :: segments) = stepsOf segments :=
  List.filter_cons_of_neg (by simp [h])

theorem stepsOf_cons (h : isIdle s = false) :
    stepsOf (s :: segments) = s :: stepsOf segments :=
  List.filter_cons_of_pos (by simp [h])

@[simp] theorem stepsOf_append : stepsOf (front ++ back) = stepsOf front ++ stepsOf back :=
  List.filter_append front back

theorem stepsOf_eq_nil (h : ∀ s ∈ segments, isIdle s = true) : stepsOf segments = [] := by
  rw [stepsOf, List.filter_eq_nil_iff]
  intro s hs
  rw [h s hs]
  exact Bool.false_ne_true

theorem stepsOf_stepsOf : stepsOf (stepsOf segments) = stepsOf segments := by
  rw [stepsOf, stepsOf, List.filter_filter]
  simp

/-- Texts that stand for nothing make no difference at the end. -/
theorem stepsOf_reverse_of_dropWhile {kept : List (List Char)}
    (h : segments.dropWhile isIdle = kept) : stepsOf segments.reverse = stepsOf kept.reverse := by
  obtain ⟨idle, hidle, hall⟩ := exists_reverse_eq_of_dropWhile h
  rw [hidle, stepsOf_append, stepsOf_eq_nil hall, List.append_nil]

theorem isIdle_eq_false_of_dropWhile {kept : List (List Char)}
    (h : segments.dropWhile isIdle = s :: kept) : isIdle s = false := by
  have hhead := List.head?_dropWhile_not isIdle segments
  rw [h] at hhead
  simpa using hhead

theorem steps_eq_nil (h : p.segments.reverse.dropWhile isIdle = []) : p.steps = [] := by
  have hsteps := stepsOf_reverse_of_dropWhile h
  rwa [List.reverse_reverse] at hsteps

/-- The last step of a path is the last text that stands for something. -/
theorem steps_eq_concat {last : List Char} {before : List (List Char)}
    (h : p.segments.reverse.dropWhile isIdle = last :: before) :
    p.steps = stepsOf before.reverse ++ [last] := by
  have hsteps := stepsOf_reverse_of_dropWhile h
  rw [List.reverse_reverse, List.reverse_cons, stepsOf_append,
    stepsOf_cons (isIdle_eq_false_of_dropWhile h)] at hsteps
  exact hsteps

theorem slash_not_mem_of_mem_segments (h : s ∈ p.segments) : '/' ∉ s :=
  Text.not_mem_of_mem_splitOn h

end Steps

/-- Texts without slashes are read back from what they are joined to. -/
theorem segments_ofChars_intercalate {segments : List (List Char)} (hne : segments ≠ [])
    (h : ∀ s ∈ segments, '/' ∉ s) : (ofChars (['/'].intercalate segments)).segments = segments := by
  rw [Path.segments, chars_ofChars, List.splitOn_intercalate '/' h hne]

theorem isAbsolute_iff : p.isAbsolute = true ↔ ∃ rest, p.segments = [] :: rest ∧ rest ≠ [] := by
  refine ⟨exists_segments_of_isAbsolute, ?_⟩
  rintro ⟨rest, hrest, hne⟩
  have hchars : ['/'].intercalate p.segments = p.chars := List.intercalate_splitOn '/'
  rw [hrest, List.intercalate_cons_of_ne_nil hne] at hchars
  rw [isAbsolute, ← hchars]
  rfl

/-- A path that is made of names begins with one of them. -/
theorem relative_of_segments {names : List Name} (hne : names ≠ [])
    (h : p.segments = names.map Name.chars) : p.isAbsolute = false ∧ p.isEmpty = false := by
  obtain ⟨n, names, rfl⟩ := List.exists_cons_of_ne_nil hne
  constructor
  · rw [← Bool.not_eq_true, isAbsolute_iff, h]
    rintro ⟨rest, hrest, -⟩
    exact n.chars_ne_nil (List.cons.inj hrest).1
  · rw [← Bool.not_eq_true, isEmpty, List.isEmpty_iff]
    intro hnil
    rw [segments, hnil] at h
    exact n.chars_ne_nil (List.cons.inj h).1.symm

/-- The front of a path is read back, and starts where the path starts. -/
theorem segments_ofChars_front {front back : List (List Char)} (hne : front ≠ [])
    (hends : front ≠ [[]]) (hp : p.segments = front ++ back) :
    (ofChars (['/'].intercalate front)).segments = front ∧
      (ofChars (['/'].intercalate front)).isAbsolute = p.isAbsolute := by
  have hsegments : (ofChars (['/'].intercalate front)).segments = front :=
    segments_ofChars_intercalate hne fun s hs =>
      slash_not_mem_of_mem_segments (hp ▸ List.mem_append_left back hs)
  obtain ⟨first, more, rfl⟩ := List.exists_cons_of_ne_nil hne
  refine ⟨hsegments, ?_⟩
  rw [Bool.eq_iff_iff, isAbsolute_iff, isAbsolute_iff, hsegments, hp]
  constructor
  · rintro ⟨rest, heq, hrest⟩
    cases heq
    exact ⟨more ++ back, rfl, List.append_ne_nil_of_left_ne_nil hrest back⟩
  · rintro ⟨rest, heq, -⟩
    cases heq
    exact ⟨more, rfl, fun hnil => hends (by rw [hnil])⟩

/-- **The parent of a path** starts where the path starts, and is without its last step. -/
theorem steps_of_parent? (h : p.parent? = some q) : q.isAbsolute = p.isAbsolute ∧
    (p.steps = [] ∧ q.steps = [] ∨ ∃ last, p.steps = q.steps ++ [last]) := by
  unfold parent? at h
  split at h
  · -- There are no steps.
    rename_i hnone
    split at h
    · rename_i hdot
      cases h
      have hrelative : p.isAbsolute = false := by
        rw [← Bool.not_eq_true, isAbsolute_iff]
        rintro ⟨rest, hrest, -⟩
        rw [hrest] at hdot
        cases hdot
      exact ⟨hrelative.symm, Or.inl ⟨steps_eq_nil hnone, rfl⟩⟩
    · cases h
  rename_i last before hlast
  have hsteps := steps_eq_concat hlast
  split at h
  · -- There is one step.
    rename_i hbefore
    have hstep : ∀ r : Path, r.steps = [] → ∃ last, p.steps = r.steps ++ [last] := by
      intro r hr
      rw [stepsOf_reverse_of_dropWhile hbefore] at hsteps
      exact ⟨last, by rw [hsteps, hr]; rfl⟩
    split_ifs at h with habs hempty
    · cases h
      exact ⟨habs.symm, Or.inr (hstep _ rfl)⟩
    · cases h
      exact ⟨(Bool.eq_false_iff.mpr habs).symm, Or.inr (hstep _ rfl)⟩
    · cases h
      exact ⟨(Bool.eq_false_iff.mpr habs).symm, Or.inr (hstep _ rfl)⟩
  · -- The first text is kept, so the parent starts where the path starts.
    rename_i kept hne
    cases h
    generalize hkept : before.dropWhile isIdle = kept at hne ⊢
    obtain ⟨s, kept, rfl⟩ := List.exists_cons_of_ne_nil hne
    obtain ⟨idle, hidle, -⟩ := exists_append_of_dropWhile_reverse hlast
    obtain ⟨idle', hidle', -⟩ := exists_reverse_eq_of_dropWhile hkept
    have hp : p.segments = (s :: kept).reverse ++ (idle' ++ last :: idle) := by
      rw [hidle, List.reverse_cons, hidle']
      simp
    have hends : (s :: kept).reverse ≠ [[]] := by
      intro hempty
      have hs := isIdle_eq_false_of_dropWhile hkept
      rw [(List.cons.inj (List.reverse_eq_iff.mp hempty)).1] at hs
      cases hs
    obtain ⟨hsegments, habs⟩ := segments_ofChars_front (by simp) hends hp
    refine ⟨habs, Or.inr ⟨last, ?_⟩⟩
    rw [hsteps, stepsOf_reverse_of_dropWhile hkept, steps, hsegments]

/-- **What is written behind a path** comes behind its texts, but for an empty one at the end. -/
theorem exists_segments_child (p : Path) (ht : (⟨t⟩ : Path).isAbsolute = false) :
    (p.child t).isAbsolute = p.isAbsolute ∧
      ∃ front, (p.child t).segments = front ++ (⟨t⟩ : Path).segments ∧
        (p.segments = front ∨ p.segments = front ++ [[]]) := by
  rw [child, join, ht, if_neg Bool.false_ne_true]
  split_ifs with hend
  · rcases hend with hnil | hslash
    · refine ⟨?_, [], ?_, Or.inr ?_⟩
      · rw [isAbsolute, chars_ofChars, hnil, List.nil_append]
        rw [isAbsolute] at ht ⊢
        rw [ht, hnil]
        rfl
      · rw [segments, chars_ofChars, hnil]
        rfl
      · rw [segments, hnil]
        rfl
    · obtain ⟨front, hfront⟩ := List.getLast?_eq_some_iff.mp hslash
      refine ⟨?_, front.splitOn '/', ?_, Or.inr ?_⟩
      · rw [isAbsolute, isAbsolute, chars_ofChars, hfront]
        cases front <;> rfl
      · rw [segments, chars_ofChars, hfront, List.append_assoc, List.singleton_append,
          List.splitOn_append_cons_self, segments]
      · rw [segments, hfront, List.splitOn_append_cons_self, List.splitOn_nil]
  · refine ⟨?_, p.segments, ?_, Or.inl rfl⟩
    · rw [isAbsolute, isAbsolute, chars_ofChars]
      rw [not_or] at hend
      obtain ⟨c, cs, hcs⟩ := List.exists_cons_of_ne_nil hend.1
      rw [hcs]
      rfl
    · rw [segments, chars_ofChars, List.splitOn_append_cons_self, segments, segments]

theorem isEmpty_child (p : Path) (ht : (⟨t⟩ : Path).isAbsolute = false)
    (hne : (⟨t⟩ : Path).isEmpty = false) : (p.child t).isEmpty = false := by
  have hchars : (⟨t⟩ : Path).chars ≠ [] := by
    rwa [isEmpty, List.isEmpty_eq_false_iff] at hne
  rw [isEmpty, List.isEmpty_eq_false_iff, child, join, ht, if_neg Bool.false_ne_true]
  split_ifs
  · rw [chars_ofChars]
    exact List.append_ne_nil_of_right_ne_nil _ hchars
  · rw [chars_ofChars]
    exact List.append_ne_nil_of_right_ne_nil _ (List.cons_ne_nil _ _)

end Path

end SheetGraph
