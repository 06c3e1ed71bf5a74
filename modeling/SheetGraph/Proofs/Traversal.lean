import Mathlib.Data.List.Forall2

/-!
# Functions that may fail, on all elements of a list

`List.mapM` applies a function to the elements of a list in turn and stops at the first failure.

* `mapM_eq_ok_iff`, `exists_mapM_eq_ok_iff`: it succeeds when the function does on all of them.
* `mapM_eq_error_iff`: otherwise its error is that of the first element on which the function fails.
-/

namespace SheetGraph

variable {α β ε : Type} {f : α → Except ε β}

theorem mapM_cons_eq (a : α) (as : List α) :
    (a :: as).mapM f =
      match f a with
      | .error e => .error e
      | .ok b =>
        match as.mapM f with
        | .error e => .error e
        | .ok bs => .ok (b :: bs) := by
  rw [List.mapM_cons]
  cases f a with
  | error e => rfl
  | ok b => cases as.mapM f <;> rfl

theorem mapM_append_eq (as as' : List α) :
    (as ++ as').mapM f =
      match as.mapM f with
      | .error e => .error e
      | .ok bs =>
        match as'.mapM f with
        | .error e => .error e
        | .ok bs' => .ok (bs ++ bs') := by
  induction as with
  | nil =>
    show as'.mapM f = match as'.mapM f with | .error e => .error e | .ok bs' => .ok bs'
    cases as'.mapM f <;> rfl
  | cons a as ih =>
    rw [List.cons_append, mapM_cons_eq, mapM_cons_eq, ih]
    cases f a with
    | error e => rfl
    | ok b =>
      cases as.mapM f with
      | error e => rfl
      | ok bs => cases as'.mapM f <;> rfl

theorem mapM_eq_ok_iff {as : List α} {bs : List β} :
    as.mapM f = .ok bs ↔ List.Forall₂ (fun a b => f a = .ok b) as bs := by
  induction as generalizing bs with
  | nil =>
    rw [List.forall₂_nil_left_iff]
    show Except.ok [] = Except.ok bs ↔ _
    rw [Except.ok.injEq, eq_comm]
  | cons a as ih =>
    rw [mapM_cons_eq, List.forall₂_cons_left_iff]
    cases ha : f a with
    | error e => simp
    | ok b =>
      cases has : as.mapM f with
      | error e =>
        have hnone : ∀ bs, ¬ List.Forall₂ (fun a b => f a = .ok b) as bs := by
          intro bs hbs
          rw [← ih, has] at hbs
          cases hbs
        simp [hnone]
      | ok cs =>
        simp only [Except.ok.injEq, ← ih, has, exists_and_left]
        constructor
        · rintro rfl
          exact ⟨b, rfl, cs, rfl, rfl⟩
        · rintro ⟨_, rfl, _, rfl, rfl⟩
          rfl

/-- Functions that agree on the elements of a list do the same on it. -/
theorem mapM_congr {g : α → Except ε β} {as : List α} (h : ∀ a ∈ as, f a = g a) :
    as.mapM f = as.mapM g := by
  induction as with
  | nil => rfl
  | cons a as ih =>
    rw [List.forall_mem_cons] at h
    rw [mapM_cons_eq, mapM_cons_eq, h.1, ih h.2]

/-- What is in the result comes from some part. -/
theorem exists_of_mem_mapM {as : List α} {bs : List β} (h : as.mapM f = .ok bs) {b : β}
    (hb : b ∈ bs) : ∃ a ∈ as, f a = .ok b := by
  rw [mapM_eq_ok_iff] at h
  induction h with
  | nil => exact absurd hb List.not_mem_nil
  | @cons a b' as bs hab _ ih =>
    rcases List.mem_cons.mp hb with rfl | hb
    · exact ⟨a, List.mem_cons_self, hab⟩
    · obtain ⟨a', ha', hfa'⟩ := ih hb
      exact ⟨a', List.mem_cons_of_mem _ ha', hfa'⟩

/-- What comes from some part is in the result. -/
theorem mem_of_mapM {as : List α} {bs : List β} (h : as.mapM f = .ok bs) {a : α} {b : β}
    (ha : a ∈ as) (hb : f a = .ok b) : b ∈ bs := by
  rw [mapM_eq_ok_iff] at h
  induction h with
  | nil => exact absurd ha List.not_mem_nil
  | @cons a' b' as bs hab _ ih =>
    rcases List.mem_cons.mp ha with rfl | ha
    · have hbb : b' = b := Except.ok.inj (hab.symm.trans hb)
      rw [hbb]
      exact List.mem_cons_self
    · exact List.mem_cons_of_mem _ (ih ha)

/-- Two functions that agree on what they find in a list find the same in it. -/
theorem eq_of_mapM {g : α → Except ε β} {as : List α} {bs bs' : List β} (h : as.mapM f = .ok bs)
    (h' : as.mapM g = .ok bs')
    (heq : ∀ a b b', f a = .ok b → g a = .ok b' → b ∈ bs → b' ∈ bs' → b = b') : bs = bs' := by
  rw [mapM_eq_ok_iff] at h h'
  induction h generalizing bs' with
  | nil =>
    rw [List.forall₂_nil_left_iff] at h'
    exact h'.symm
  | @cons a b as bs hab _ ih =>
    rw [List.forall₂_cons_left_iff] at h'
    obtain ⟨b', bs', hab', hrest, rfl⟩ := h'
    have hhead : b = b' := heq a b b' hab hab' List.mem_cons_self List.mem_cons_self
    have htail : bs = bs' := by
      apply ih hrest
      intro x y y' hy hy' hmem hmem'
      exact heq x y y' hy hy' (List.mem_cons_of_mem _ hmem) (List.mem_cons_of_mem _ hmem')
    rw [hhead, htail]

/-- **The whole succeeds when each part does.** -/
theorem exists_mapM_eq_ok_iff {as : List α} :
    (∃ bs, as.mapM f = .ok bs) ↔ ∀ a ∈ as, ∃ b, f a = .ok b := by
  induction as with
  | nil => exact ⟨fun _ a ha => absurd ha List.not_mem_nil, fun _ => ⟨[], rfl⟩⟩
  | cons a as ih =>
    rw [List.forall_mem_cons, ← ih, mapM_cons_eq]
    cases f a with
    | error e => simp
    | ok b => cases as.mapM f <;> simp

/-- What is in one of the lists is in their concatenation. -/
theorem mem_flatten_mapM {g : α → Except ε (List β)} {as : List α} {out : List β}
    (h : List.flatten <$> as.mapM g = .ok out) {b : β} :
    b ∈ out ↔ ∃ a ∈ as, ∃ bs, g a = .ok bs ∧ b ∈ bs := by
  cases hmap : as.mapM g with
  | error e =>
    rw [hmap] at h
    cases h
  | ok lists =>
    rw [hmap] at h
    cases h
    rw [List.mem_flatten]
    constructor
    · rintro ⟨bs, hbs, hb⟩
      obtain ⟨a, ha, hga⟩ := exists_of_mem_mapM hmap hbs
      exact ⟨a, ha, bs, hga, hb⟩
    · rintro ⟨a, ha, bs, hga, hb⟩
      exact ⟨bs, mem_of_mapM hmap ha hga, hb⟩

/-- Where the lists could be put together, each of them could be made. -/
theorem exists_of_flatten_mapM {g : α → Except ε (List β)} {as : List α} {out : List β}
    (h : List.flatten <$> as.mapM g = .ok out) {a : α} (ha : a ∈ as) : ∃ bs, g a = .ok bs := by
  cases hmap : as.mapM g with
  | error e =>
    rw [hmap] at h
    cases h
  | ok lists => exact exists_mapM_eq_ok_iff.mp ⟨lists, hmap⟩ a ha

/-- **The error is that of the first part that fails.** -/
theorem mapM_eq_error_iff {as : List α} {e : ε} :
    as.mapM f = .error e ↔ ∃ before a after, as = before ++ a :: after ∧
      (∀ x ∈ before, ∃ b, f x = .ok b) ∧ f a = .error e := by
  induction as with
  | nil =>
    constructor
    · intro h
      cases h
    · rintro ⟨before, a, after, h, -⟩
      simp at h
  | cons x as ih =>
    rw [mapM_cons_eq]
    constructor
    · intro h
      cases hx : f x with
      | error e' =>
        rw [hx] at h
        cases h
        exact ⟨[], x, as, rfl, by simp, hx⟩
      | ok b =>
        have has : as.mapM f = .error e := by
          cases has : as.mapM f with
          | error e' =>
            rw [hx, has] at h
            exact h
          | ok bs =>
            rw [hx, has] at h
            cases h
        obtain ⟨before, a, after, rfl, hbefore, ha⟩ := ih.mp has
        exact ⟨x :: before, a, after, rfl, List.forall_mem_cons.mpr ⟨⟨b, hx⟩, hbefore⟩, ha⟩
    · rintro ⟨before, a, after, h, hbefore, ha⟩
      cases before with
      | nil =>
        obtain ⟨rfl, rfl⟩ := List.cons.inj h
        rw [ha]
      | cons y before =>
        obtain ⟨rfl, rfl⟩ := List.cons.inj h
        obtain ⟨⟨b, hb⟩, hrest⟩ := List.forall_mem_cons.mp hbefore
        rw [hb, ih.mpr ⟨before, a, after, rfl, hrest, ha⟩]

end SheetGraph
