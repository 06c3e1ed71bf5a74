import Mathlib.Data.List.Nodup
import Mathlib.Tactic.Common

/-!
# Depth-first preorder

`Preorder next known seen todo visited` describes the recursive depth-first traversal of a graph:
the nodes in `todo` are visited in turn, and the successors of each before the next one; nodes that
are `known` or `seen` are passed over.  `visited` are the nodes that are visited, in that order.

* `Preorder.exists_of_closed`: a traversal that cannot leave a finite set comes to an end.
* `Preorder.nodup`: no node is visited twice.
* `Preorder.unique`: there is only one such list.
* `Preorder.mem_iff`: the nodes visited are those that can be found from `todo` without passing
  through a known one (`Found`).
* `Preorder.append`: two traversals one after the other are one traversal.
* `Preorder.of_known`: what an earlier traversal has visited may be known to a later one, instead of
  having been seen.
-/

namespace SheetGraph

variable {α : Type} {next : α → List α} {known : α → Bool}

/-- The recursive depth-first traversal of the nodes in `todo`. -/
inductive Preorder (next : α → List α) (known : α → Bool) :
    (seen todo visited : List α) → Prop
  /-- Nothing is left to visit. -/
  | nil {seen : List α} : Preorder next known seen [] []
  /-- A node that is known or has been seen is passed over. -/
  | skip {seen todo visited : List α} {a : α} : known a = true ∨ a ∈ seen →
      Preorder next known seen todo visited → Preorder next known seen (a :: todo) visited
  /-- Any other node is visited, then its successors, then what is left. -/
  | visit {seen todo below visited : List α} {a : α} : known a = false → a ∉ seen →
      Preorder next known (seen ++ [a]) (next a) below →
      Preorder next known (seen ++ a :: below) todo visited →
      Preorder next known seen (a :: todo) (a :: (below ++ visited))

/-- What can be found from some roots without passing through a known node. -/
inductive Found (next : α → List α) (known : α → Bool) (roots : List α) : α → Prop
  /-- A root that is not known. -/
  | root {a : α} : a ∈ roots → known a = false → Found next known roots a
  /-- A successor that is not known. -/
  | next {a b : α} : Found next known roots a → b ∈ next a → known b = false →
      Found next known roots b

namespace Preorder

variable {seen todo visited : List α}

/-- What is visited has not been seen before, and is visited once. -/
theorem nodup_append (h : Preorder next known seen todo visited) (hseen : seen.Nodup) :
    (seen ++ visited).Nodup := by
  induction h with
  | nil => simpa using hseen
  | skip _ _ ih => exact ih hseen
  | @visit seen todo below visited a _ ha _ _ ihbelow ihrest =>
    have hstart : (seen ++ [a]).Nodup := by
      rw [List.nodup_append]
      refine ⟨hseen, List.nodup_singleton a, ?_⟩
      intro x hx y hy
      rw [List.mem_singleton] at hy
      subst hy
      exact fun e => ha (e ▸ hx)
    have hbelow := ihbelow hstart
    rw [List.append_assoc, List.singleton_append] at hbelow
    have hrest := ihrest hbelow
    rwa [List.append_assoc, List.cons_append] at hrest

/-- **No node is visited twice.** -/
theorem nodup (h : Preorder next known [] todo visited) : visited.Nodup := by
  simpa using h.nodup_append List.nodup_nil

/-- Known nodes are not visited. -/
theorem known_eq_false (h : Preorder next known seen todo visited) :
    ∀ a ∈ visited, known a = false := by
  induction h with
  | nil => simp
  | skip _ _ ih => exact ih
  | visit hknown _ _ _ ihbelow ihrest =>
    intro x hx
    rcases List.mem_cons.mp hx with rfl | hx
    · exact hknown
    · rcases List.mem_append.mp hx with hx | hx
      · exact ihbelow x hx
      · exact ihrest x hx

/-- **The traversal leaves no choice.** -/
theorem unique {visited' : List α} (h : Preorder next known seen todo visited)
    (h' : Preorder next known seen todo visited') : visited = visited' := by
  induction h generalizing visited' with
  | nil =>
    cases h'
    rfl
  | skip ha _ ih =>
    cases h' with
    | skip _ hrest => exact ih hrest
    | visit hknown hnew _ _ =>
      rcases ha with ha | ha
      · exact absurd ha (by simp [hknown])
      · exact absurd ha hnew
  | visit hknown hnew _ _ ihbelow ihrest =>
    cases h' with
    | skip ha _ =>
      rcases ha with ha | ha
      · exact absurd ha (by simp [hknown])
      · exact absurd ha hnew
    | visit _ _ hbelow hrest =>
      obtain rfl := ihbelow hbelow
      obtain rfl := ihrest hrest
      rfl

/-- All of `todo` is visited, unless it is known or has been seen. -/
theorem covers_todo (h : Preorder next known seen todo visited) :
    ∀ a ∈ todo, known a = true ∨ a ∈ seen ∨ a ∈ visited := by
  induction h with
  | nil => simp
  | @skip seen todo visited a ha _ ih =>
    intro x hx
    rcases List.mem_cons.mp hx with rfl | hx
    · rcases ha with ha | ha
      · exact Or.inl ha
      · exact Or.inr (Or.inl ha)
    · exact ih x hx
  | @visit seen todo below visited a _ _ _ _ _ ihrest =>
    intro x hx
    rcases List.mem_cons.mp hx with rfl | hx
    · exact Or.inr (Or.inr List.mem_cons_self)
    · rcases ihrest x hx with hk | hs | hv
      · exact Or.inl hk
      · simp only [List.mem_append, List.mem_cons] at hs ⊢
        tauto
      · exact Or.inr (Or.inr (List.mem_cons_of_mem _ (List.mem_append_right _ hv)))

/-- All successors of what is visited are visited, unless they are known or have been seen. -/
theorem covers_next (h : Preorder next known seen todo visited) :
    ∀ a ∈ visited, ∀ b ∈ next a, known b = true ∨ b ∈ seen ∨ b ∈ visited := by
  induction h with
  | nil => simp
  | skip _ _ ih => exact ih
  | @visit seen todo below visited a _ _ hbelow _ ihbelow ihrest =>
    intro x hx y hy
    -- `x` is the node itself, below it, or behind it.
    have hcases : known y = true ∨ y ∈ seen ++ [a] ∨ y ∈ below ∨ y ∈ visited := by
      rcases List.mem_cons.mp hx with rfl | hx
      · rcases hbelow.covers_todo y hy with h | h | h <;> tauto
      · rcases List.mem_append.mp hx with hx | hx
        · rcases ihbelow x hx y hy with h | h | h <;> tauto
        · rcases ihrest x hx y hy with h | h | h
          · exact Or.inl h
          · simp only [List.mem_append, List.mem_cons, List.not_mem_nil, or_false] at h ⊢
            tauto
          · exact Or.inr (Or.inr (Or.inr h))
    simp only [List.mem_append, List.mem_cons, List.not_mem_nil, or_false] at hcases ⊢
    tauto

/-- What is visited can be found from any roots from which all of `todo` can. -/
theorem found_of_mem {roots : List α} (h : Preorder next known seen todo visited)
    (htodo : ∀ a ∈ todo, known a = false → Found next known roots a) :
    ∀ a ∈ visited, Found next known roots a := by
  induction h with
  | nil => simp
  | skip _ _ ih => exact ih fun x hx => htodo x (List.mem_cons_of_mem _ hx)
  | @visit seen todo below visited a hknown _ _ _ ihbelow ihrest =>
    have ha : Found next known roots a := htodo a List.mem_cons_self hknown
    intro x hx
    rcases List.mem_cons.mp hx with rfl | hx
    · exact ha
    · rcases List.mem_append.mp hx with hx | hx
      · exact ihbelow (fun y hy hky => ha.next hy hky) x hx
      · exact ihrest (fun y hy => htodo y (List.mem_cons_of_mem _ hy)) x hx

/-- **The nodes visited are those that can be found.** -/
theorem mem_iff (h : Preorder next known [] todo visited) {a : α} :
    a ∈ visited ↔ Found next known todo a := by
  constructor
  · exact h.found_of_mem (fun x hx hk => Found.root hx hk) a
  · intro ha
    induction ha with
    | root hx hk =>
      rcases h.covers_todo _ hx with hk' | hs | hv
      · simp [hk] at hk'
      · exact absurd hs List.not_mem_nil
      · exact hv
    | next _ hb hk ih =>
      rcases h.covers_next _ ih _ hb with hk' | hs | hv
      · simp [hk] at hk'
      · exact absurd hs List.not_mem_nil
      · exact hv

/-- **Two traversals one after the other are one traversal.** -/
theorem append {more later : List α} (h : Preorder next known seen todo visited)
    (hmore : Preorder next known (seen ++ visited) more later) :
    Preorder next known seen (todo ++ more) (visited ++ later) := by
  induction h with
  | nil => simpa using hmore
  | skip ha _ ih => exact Preorder.skip ha (ih hmore)
  | @visit seen todo below visited a hknown ha hbelow _ _ ihrest =>
    rw [List.cons_append, List.cons_append, List.append_assoc]
    refine Preorder.visit hknown ha hbelow (ihrest ?_)
    rwa [List.append_assoc, List.cons_append]

/-- **A traversal that knows what was visited before** passes over it like one that has seen it. -/
theorem of_known {known' : α → Bool} {before : List α}
    (h : Preorder next known' seen todo visited)
    (hknown : ∀ a, known' a = true ↔ known a = true ∨ a ∈ before) :
    Preorder next known (before ++ seen) todo visited := by
  induction h with
  | nil => exact Preorder.nil
  | @skip seen todo visited a ha _ ih =>
    refine Preorder.skip ?_ ih
    rw [hknown] at ha
    rw [List.mem_append]
    tauto
  | @visit seen todo below visited a ha hnew _ _ ihbelow ihrest =>
    have hnot : ¬ (known a = true ∨ a ∈ before) := by
      rw [← hknown, ha]
      exact Bool.false_ne_true
    rw [not_or, Bool.not_eq_true] at hnot
    have hseen : a ∉ before ++ seen := by
      rw [List.mem_append, not_or]
      exact ⟨hnot.2, hnew⟩
    -- What is seen on the way down and behind it is seen behind what was visited before.
    rw [← List.append_assoc] at ihbelow ihrest
    exact Preorder.visit hnot.1 hseen ihbelow ihrest

/-- The induction behind `exists_of_closed` is on the number of nodes that have not been seen. -/
private theorem exists_of_length_le [DecidableEq α] (nodes : List α)
    (hclosed : ∀ a ∈ nodes, ∀ b ∈ next a, known b = false → b ∈ nodes) :
    ∀ (n : Nat) (seen todo : List α), (nodes.filter (· ∉ seen)).length ≤ n →
      (∀ a ∈ todo, known a = false → a ∈ nodes) →
      ∃ visited, Preorder next known seen todo visited := by
  intro n
  induction n with
  | zero =>
    intro seen todo hn htodo
    -- All nodes of the set have been seen.
    have hseen : ∀ a ∈ nodes, a ∈ seen := by
      intro a ha
      by_contra hnot
      have hmem : a ∈ nodes.filter (· ∉ seen) := List.mem_filter.mpr ⟨ha, by simpa using hnot⟩
      rw [List.length_eq_zero_iff.mp (Nat.le_zero.mp hn)] at hmem
      exact List.not_mem_nil hmem
    refine ⟨[], ?_⟩
    induction todo with
    | nil => exact Preorder.nil
    | cons a todo ih =>
      have hskip : known a = true ∨ a ∈ seen := by
        cases hk : known a with
        | true => exact Or.inl rfl
        | false => exact Or.inr (hseen a (htodo a List.mem_cons_self hk))
      exact Preorder.skip hskip (ih fun x hx => htodo x (List.mem_cons_of_mem _ hx))
  | succ n ihn =>
    intro seen todo
    induction todo generalizing seen with
    | nil => intro _ _; exact ⟨[], Preorder.nil⟩
    | cons a todo ih =>
      intro hn htodo
      have hrest : ∀ x ∈ todo, known x = false → x ∈ nodes :=
        fun x hx => htodo x (List.mem_cons_of_mem _ hx)
      by_cases hskip : known a = true ∨ a ∈ seen
      · obtain ⟨visited, hv⟩ := ih seen hn hrest
        exact ⟨visited, Preorder.skip hskip hv⟩
      · simp only [not_or, Bool.not_eq_true] at hskip
        obtain ⟨hknown, ha⟩ := hskip
        have hanode := htodo a List.mem_cons_self hknown
        -- Seeing more leaves fewer nodes, and seeing `a` leaves strictly fewer.
        have hfewer : (nodes.filter (· ∉ seen ++ [a])).length ≤ n := by
          have hlt : (nodes.filter (· ∉ seen ++ [a])).length
              < (nodes.filter (· ∉ seen)).length := by
            have heq : nodes.filter (· ∉ seen ++ [a])
                = (nodes.filter (· ∉ seen)).filter (· ≠ a) := by
              rw [List.filter_filter]
              refine List.filter_congr fun x _ => ?_
              by_cases hx : x = a <;> simp [hx]
            rw [heq]
            refine List.length_filter_lt_length_iff_exists.mpr ⟨a, ?_, by simp⟩
            exact List.mem_filter.mpr ⟨hanode, by simpa using ha⟩
          omega
        obtain ⟨below, hbelow⟩ := ihn (seen ++ [a]) (next a) hfewer (hclosed a hanode)
        have hle : (nodes.filter (· ∉ seen ++ a :: below)).length ≤ n + 1 := by
          refine Nat.le_trans (List.Sublist.length_le ?_) hn
          refine List.monotone_filter_right nodes fun x hx => ?_
          simp only [List.mem_append, not_or, decide_eq_true_eq] at hx ⊢
          exact hx.1
        obtain ⟨visited, hv⟩ := ih (seen ++ a :: below) hle hrest
        exact ⟨a :: (below ++ visited), Preorder.visit hknown ha hbelow hv⟩

/-- **A traversal that cannot leave a finite set comes to an end.** -/
theorem exists_of_closed [DecidableEq α] (nodes : List α)
    (hclosed : ∀ a ∈ nodes, ∀ b ∈ next a, known b = false → b ∈ nodes)
    (htodo : ∀ a ∈ todo, known a = false → a ∈ nodes) :
    ∃ visited, Preorder next known [] todo visited :=
  exists_of_length_le nodes hclosed _ [] todo (Nat.le_refl _) htodo

end Preorder

end SheetGraph
