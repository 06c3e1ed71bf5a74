import Mathlib.Data.List.Basic
import Mathlib.Data.List.Nodup
import SheetGraph.Build.Pipeline
import SheetGraph.Proofs.FileTree.Write

/-!
# Compilations that take turns

What holds of compilations at the same time, whatever the schedule.

A turn is one step of one compilation and leaves the others as they are, so what each step keeps
holds in the end (`Pipeline.interleave_induction`).  A step keeps the entry and leaves fewer steps
to do, so a fair schedule brings every compilation to its end (`Pipeline.stepsLeft_interleave`), and
there is one result for each entry, in the order of the plan (`Pipeline.map_entry_compileTogether`).

The compiler is asked in the first step of a compilation (`Pipeline.begun`).  So it is asked once
for each entry, in the order of their first turns (`Pipeline.map_fst_begun`, `Schedule.order`), and
what is written is what it returned then (`Pipeline.exists_begun_of_css?`).

With the schedule that keeps the order nothing comes between the steps of a compilation, and all is
as if the entries were compiled one after the other (`Pipeline.compileInTurn_eq_compileTogether`).
-/

namespace SheetGraph

/-- The entry of the plan that a result is of. -/
def CompileResult.entry (r : CompileResult) : PlanEntry :=
  (r.source, r.destination)

/-- A list at a position, with what is in front of it and behind it. -/
theorem exists_append_of_getElem? {α : Type} {xs : List α} {i : Nat} {x : α}
    (h : xs[i]? = some x) : ∃ front back, xs = front ++ x :: back ∧ front.length = i ∧
      ∀ y, xs.set i y = front ++ y :: back := by
  obtain ⟨hi, rfl⟩ := List.getElem?_eq_some_iff.mp h
  refine ⟨xs.take i, xs.drop (i + 1), ?_, List.length_take_of_le hi.le, fun y => ?_⟩
  · rw [List.getElem_cons_drop, List.take_append_drop]
  · rw [List.set_eq_take_append_cons_drop, if_pos hi]

/-- What a list comes to when each member comes to something. -/
theorem map_filterMap_of_forall {α β γ : Type} {f : α → Option β} {g : β → γ} {h : α → γ}
    {xs : List α} (hxs : ∀ x ∈ xs, ∃ y, f x = some y ∧ g y = h x) :
    (xs.filterMap f).map g = xs.map h := by
  induction xs with
  | nil => rfl
  | cons x xs ih =>
    obtain ⟨⟨y, hy, hgy⟩, hxs⟩ := List.forall_mem_cons.mp hxs
    rw [List.filterMap_cons_some hy, List.map_cons, List.map_cons, ih hxs, hgy]

/-- A list read at all of its positions in turn is the list. -/
theorem filterMap_getElem?_range {α : Type} (as : List α) :
    (List.range as.length).filterMap (fun i => as[i]?) = as := by
  induction as using List.reverseRecOn with
  | nil => rfl
  | append_singleton as a ih =>
    have hfront : (List.range as.length).filterMap (fun i => (as ++ [a])[i]?)
        = (List.range as.length).filterMap (fun i => as[i]?) := by
      refine List.filterMap_congr fun i hi => ?_
      rw [List.getElem?_append_left (List.mem_range.mp hi)]
    rw [List.length_append, List.length_singleton, List.range_succ, List.filterMap_append, hfront,
      ih]
    simp

theorem nodup_eraseDups {α : Type} [BEq α] [LawfulBEq α] (xs : List α) : xs.eraseDups.Nodup := by
  match xs with
  | [] => exact List.nodup_nil
  | x :: xs =>
    rw [List.eraseDups_cons, List.nodup_cons]
    refine ⟨?_, nodup_eraseDups _⟩
    rw [List.mem_eraseDups, List.mem_filter]
    exact fun hx => by simp at hx
termination_by xs.length
decreasing_by
  have hle := List.length_filter_le (fun y => !y == x) xs
  simp only [List.length_cons]
  omega

/-! ### The order of the first turns -/

namespace Schedule

/-- The numbers of some compilations in the order in which they are begun. -/
def order (s : Schedule) (n : Nat) : List Nat :=
  ((s.turns n).filter (· < n)).eraseDups

/-- **Each compilation is begun once.** -/
theorem perm_order (s : Schedule) (n : Nat) : (s.order n).Perm (List.range n) := by
  refine (List.perm_ext_iff_of_nodup (nodup_eraseDups _) List.nodup_range).mpr fun i => ?_
  rw [List.mem_eraseDups, List.mem_filter, List.mem_range]
  refine ⟨fun h => by simpa using h.2, fun hi => ⟨?_, by simpa using hi⟩⟩
  have hturns := s.fair n i hi
  exact List.count_pos_iff.mp (Nat.lt_of_lt_of_le (by decide) hturns)

end Schedule

/-! ### One step -/

theorem Stage.stepsLeft_le (s : Stage) : s.stepsLeft ≤ Stage.waiting.stepsLeft := by
  cases s <;> simp [stepsLeft]

/-- The ends that a compilation comes to. -/
theorem Stage.cases_of_stepsLeft {s : Stage} (h : s.stepsLeft = 0) :
    (∃ file css, s = .written file css) ∨ (∃ e, s = .refused e) ∨
      ∃ outcome, s = .ended outcome := by
  cases s with
  | written file css => exact Or.inl ⟨file, css, rfl⟩
  | refused e => exact Or.inr (Or.inl ⟨e, rfl⟩)
  | ended outcome => exact Or.inr (Or.inr ⟨outcome, rfl⟩)
  | waiting => cases h
  | compiled css => cases h
  | placed css => cases h
  | opened file css => cases h

/-- What the compiler has returned for a source whose output is on its way. -/
def Stage.css? : Stage → Option String
  | compiled css | placed css | opened _ css | written _ css => some css
  | _ => none

namespace Pipeline

variable {p : Pipeline} {c : Compiler} {d d' : Disk} {x y : Compilation} {xs ys : List Compilation}
  {plan : List PlanEntry} {stage : Stage} {css : String} {i : Nat} {turns : List Nat}

theorem compileStage_cases (p : Pipeline) (c : Compiler) (d : Disk) (source : Path) :
    (p.dryRun = true ∧ p.compileStage c d source = .ended .skipped) ∨
    (∃ e, p.dryRun = false ∧ c d source p.project.compileOptions = .error e ∧
      p.compileStage c d source = .ended (.failed e)) ∨
    ∃ css, p.dryRun = false ∧ c d source p.project.compileOptions = .ok css ∧
      p.compileStage c d source = .compiled css := by
  unfold compileStage
  cases p.dryRun with
  | true => exact Or.inl ⟨rfl, rfl⟩
  | false =>
    refine Or.inr ?_
    cases c d source p.project.compileOptions with
    | error e => exact Or.inl ⟨e, rfl, rfl, rfl⟩
    | ok css => exact Or.inr ⟨css, rfl, rfl, rfl⟩

theorem ok_of_css?_compileStage {source : Path} (h : (p.compileStage c d source).css? = some css) :
    c d source p.project.compileOptions = .ok css := by
  rcases p.compileStage_cases c d source with ⟨-, hstage⟩ | ⟨e, -, -, hstage⟩ |
    ⟨text, -, htext, hstage⟩
  · rw [hstage] at h
    cases h
  · rw [hstage] at h
    cases h
  · rw [hstage] at h
    rw [htext, Option.some.inj h]

theorem advance_of_waiting (h : x.stage = .waiting) :
    p.advance c d x = (d, ⟨x.entry, p.compileStage c d x.entry.1⟩) := by
  rw [advance, h]

theorem advance_of_ne_waiting (h : x.stage ≠ .waiting) :
    p.advance c d x = ((outputStep d x.entry.2 x.stage).1,
      ⟨x.entry, (outputStep d x.entry.2 x.stage).2⟩) := by
  unfold advance
  split
  · exact absurd ‹_› h
  · rfl

@[simp] theorem entry_advance (d : Disk) (x : Compilation) :
    (p.advance c d x).2.entry = x.entry := by
  by_cases h : x.stage = .waiting
  · rw [advance_of_waiting h]
  · rw [advance_of_ne_waiting h]

theorem stepsLeft_outputStep (d : Disk) (destination : Path) (h : stage ≠ .waiting) :
    (outputStep d destination stage).2.stepsLeft ≤ stage.stepsLeft - 1 := by
  unfold outputStep
  split
  · split
    · exact Nat.zero_le _
    · exact Nat.le_refl _
  · split
    · exact Nat.zero_le _
    · exact Nat.le_refl _
  · exact Nat.le_refl _
  · rename_i hcompiled hplaced hopened
    cases stage with
    | waiting => exact absurd rfl h
    | compiled css => exact absurd rfl (hcompiled css)
    | placed css => exact absurd rfl (hplaced css)
    | opened file css => exact absurd rfl (hopened file css)
    | written file css => exact Nat.le_refl _
    | refused e => exact Nat.le_refl _
    | ended outcome => exact Nat.le_refl _

theorem stepsLeft_advance (d : Disk) (x : Compilation) :
    (p.advance c d x).2.stage.stepsLeft ≤ x.stage.stepsLeft - 1 := by
  by_cases h : x.stage = .waiting
  · rw [advance_of_waiting h, h]
    rcases p.compileStage_cases c d x.entry.1 with ⟨-, hstage⟩ | ⟨e, -, -, hstage⟩ |
      ⟨css, -, -, hstage⟩
    · rw [hstage]
      exact Nat.zero_le _
    · rw [hstage]
      exact Nat.zero_le _
    · rw [hstage]
      exact Nat.le_refl _
  · rw [advance_of_ne_waiting h]
    exact stepsLeft_outputStep d x.entry.2 h

theorem stage_advance_ne_waiting (d : Disk) (x : Compilation) :
    (p.advance c d x).2.stage ≠ .waiting := by
  intro hwaiting
  have hle := stepsLeft_advance (p := p) (c := c) d x
  have hmost := x.stage.stepsLeft_le
  rw [hwaiting] at hle
  rw [Stage.stepsLeft] at hle hmost
  omega

theorem css?_outputStep {destination : Path}
    (h : (outputStep d destination stage).2.css? = some css) : stage.css? = some css := by
  unfold outputStep at h
  split at h
  · split at h
    · cases h
    · exact h
  · split at h
    · cases h
    · exact h
  · exact h
  · exact h

/-! ### Turns -/

theorem interleave_cons_of_none (h : xs[i]? = none) :
    p.interleave c (i :: turns) d xs = p.interleave c turns d xs := by
  rw [interleave, h]

theorem interleave_cons_of_some (h : xs[i]? = some x) :
    p.interleave c (i :: turns) d xs
      = p.interleave c turns (p.advance c d x).1 (xs.set i (p.advance c d x).2) := by
  rw [interleave, h]

/-- **What every step keeps** holds after any turns. -/
theorem interleave_induction {P : Disk → List Compilation → Prop}
    (hstep : ∀ d front x back, P d (front ++ x :: back) →
      P (p.advance c d x).1 (front ++ (p.advance c d x).2 :: back))
    (turns : List Nat) (h : P d xs) :
    P (p.interleave c turns d xs).1 (p.interleave c turns d xs).2 := by
  induction turns generalizing d xs with
  | nil => exact h
  | cons i turns ih =>
    cases hx : xs[i]? with
    | none =>
      rw [interleave_cons_of_none hx]
      exact ih h
    | some x =>
      obtain ⟨front, back, rfl, -, hset⟩ := exists_append_of_getElem? hx
      rw [interleave_cons_of_some hx, hset]
      exact ih (hstep d front x back h)

theorem map_entry_start (plan : List PlanEntry) :
    (plan.map Compilation.start).map Compilation.entry = plan := by
  rw [List.map_map]
  exact List.map_id plan

theorem map_entry_interleave (turns : List Nat) (d : Disk) (xs : List Compilation) :
    (p.interleave c turns d xs).2.map Compilation.entry = xs.map Compilation.entry := by
  refine interleave_induction (P := fun _ ys => ys.map Compilation.entry = xs.map Compilation.entry)
    (fun d front x back h => ?_) turns rfl
  rw [← h, List.map_append, List.map_append, List.map_cons, List.map_cons, entry_advance]

/-- **Each turn of a compilation** leaves one step less to do. -/
theorem stepsLeft_interleave (turns : List Nat) (hx : xs[i]? = some x) :
    ∃ y, (p.interleave c turns d xs).2[i]? = some y ∧
      y.stage.stepsLeft ≤ x.stage.stepsLeft - turns.count i := by
  induction turns generalizing d xs x with
  | nil => exact ⟨x, hx, Nat.le_refl _⟩
  | cons j turns ih =>
    cases hz : xs[j]? with
    | none =>
      -- There is no such compilation, so the turn is not one of this.
      have hne : j ≠ i := by
        rintro rfl
        rw [hx] at hz
        cases hz
      rw [interleave_cons_of_none hz, List.count_cons_of_ne hne]
      exact ih hx
    | some z =>
      rw [interleave_cons_of_some hz]
      by_cases hij : j = i
      · subst hij
        obtain rfl := Option.some.inj (hx.symm.trans hz)
        have hset : (xs.set j (p.advance c d x).2)[j]? = some (p.advance c d x).2 := by
          rw [List.getElem?_set_self (List.getElem?_eq_some_iff.mp hx).1]
        obtain ⟨y, hy, hle⟩ := ih (d := (p.advance c d x).1) hset
        have hstep := stepsLeft_advance (p := p) (c := c) d x
        refine ⟨y, hy, ?_⟩
        rw [List.count_cons_self]
        omega
      · have hset : (xs.set j (p.advance c d z).2)[i]? = some x := by
          rw [List.getElem?_set_ne hij, hx]
        rw [List.count_cons_of_ne hij]
        exact ih hset

theorem stage_advance_ne_ended {outcome : CompileOutcome}
    (hnone : ∀ d source, p.compileStage c d source ≠ .ended outcome) (d : Disk)
    (hx : x.stage ≠ .ended outcome) : (p.advance c d x).2.stage ≠ .ended outcome := by
  by_cases hwaiting : x.stage = .waiting
  · rw [advance_of_waiting hwaiting]
    exact hnone d x.entry.1
  · rw [advance_of_ne_waiting hwaiting]
    unfold outputStep
    split
    · split <;> exact nofun
    · split <;> exact nofun
    · exact nofun
    · exact hx

/-- **What the compiler does not come to** is the end of no compilation. -/
theorem stage_interleave_ne_ended {outcome : CompileOutcome}
    (hnone : ∀ d source, p.compileStage c d source ≠ .ended outcome) (turns : List Nat)
    (plan : List PlanEntry) (d : Disk) :
    ∀ x ∈ (p.interleave c turns d (plan.map .start)).2, x.stage ≠ .ended outcome := by
  refine interleave_induction (P := fun _ xs => ∀ x ∈ xs, x.stage ≠ .ended outcome)
    (fun left front x back h => ?_) turns fun x hx => ?_
  · obtain ⟨hfront, hrest⟩ := List.forall_mem_append.mp h
    obtain ⟨hx, hback⟩ := List.forall_mem_cons.mp hrest
    exact List.forall_mem_append.mpr ⟨hfront,
      List.forall_mem_cons.mpr ⟨stage_advance_ne_ended hnone left hx, hback⟩⟩
  · obtain ⟨entry, -, rfl⟩ := List.mem_map.mp hx
    exact nofun

/-! ### When all have come to their ends -/

theorem exists_result?_of_stepsLeft (h : x.stage.stepsLeft = 0) :
    ∃ r, result? x = some r ∧ r.entry = x.entry := by
  rw [result?]
  rcases Stage.cases_of_stepsLeft h with ⟨file, css, hstage⟩ | ⟨e, hstage⟩ | ⟨outcome, hstage⟩
  all_goals
    rw [hstage]
    exact ⟨_, rfl, rfl⟩

/-- What a result tells about the compilation that has come to it. -/
theorem result?_cases {r : CompileResult} (h : result? x = some r) :
    (∃ file css, x.stage = .written file css ∧ r = ⟨x.entry.1, x.entry.2, .success⟩) ∨
    (∃ e, x.stage = .refused e ∧ r = ⟨x.entry.1, x.entry.2, notWritten x.entry.2 e⟩) ∨
    ∃ outcome, x.stage = .ended outcome ∧ r = ⟨x.entry.1, x.entry.2, outcome⟩ := by
  obtain ⟨outcome, houtcome, rfl⟩ := Option.map_eq_some_iff.mp h
  unfold outcome? at houtcome
  split at houtcome
  · rename_i file css hstage
    cases houtcome
    exact Or.inl ⟨file, css, hstage, rfl⟩
  · rename_i e hstage
    cases houtcome
    exact Or.inr (Or.inl ⟨e, hstage, rfl⟩)
  · rename_i hstage
    cases houtcome
    exact Or.inr (Or.inr ⟨outcome, hstage, rfl⟩)
  · cases houtcome

/-- A source that succeeded has its output written. -/
theorem exists_written_of_isCompiled {r : CompileResult} {turns : List Nat}
    (hx : x ∈ (p.interleave c turns d (plan.map .start)).2) (h : result? x = some r)
    (hcompiled : r.isCompiled = true) :
    r.entry = x.entry ∧ ∃ file css, x.stage = .written file css := by
  have hnone : ∀ d source, p.compileStage c d source ≠ .ended .success := by
    intro d source hended
    rcases p.compileStage_cases c d source with ⟨-, hstage⟩ | ⟨e, -, -, hstage⟩ |
      ⟨css, -, -, hstage⟩
    all_goals cases hstage.symm.trans hended
  rcases result?_cases h with ⟨file, css, hstage, rfl⟩ | ⟨e, hstage, rfl⟩ | ⟨outcome, hstage, rfl⟩
  · exact ⟨rfl, file, css, hstage⟩
  · cases hcompiled
  · obtain rfl : outcome = .success := of_decide_eq_true hcompiled
    exact absurd hstage (stage_interleave_ne_ended hnone turns plan d x hx)

theorem stepsLeft_of_fair (s : Schedule) (d : Disk) (plan : List PlanEntry) :
    ∀ x ∈ (p.interleave c (s.turns plan.length) d (plan.map .start)).2,
      x.stage.stepsLeft = 0 := by
  intro x hx
  obtain ⟨i, hi⟩ := List.mem_iff_getElem?.mp hx
  have hlength : i < plan.length := by
    have hmap := congrArg List.length
      (map_entry_interleave (p := p) (c := c) (s.turns plan.length) d (plan.map .start))
    rw [List.length_map, List.length_map, List.length_map] at hmap
    rw [← hmap]
    exact (List.getElem?_eq_some_iff.mp hi).1
  have hstart : (plan.map Compilation.start)[i]? = some (.start plan[i]) := by
    rw [List.getElem?_map, List.getElem?_eq_getElem hlength]
    rfl
  obtain ⟨y, hy, hle⟩ :=
    stepsLeft_interleave (p := p) (c := c) (d := d) (s.turns plan.length) hstart
  obtain rfl := Option.some.inj (hi.symm.trans hy)
  have hfair := s.fair plan.length i hlength
  dsimp only [Compilation.start] at hle
  omega

/-- Each compilation has its result. -/
theorem map_result?_interleave (s : Schedule) (d : Disk) (plan : List PlanEntry) :
    (p.interleave c (s.turns plan.length) d (plan.map .start)).2.map result?
      = (p.compileTogether c s d plan).2.map some := by
  refine (map_filterMap_of_forall fun x hx => ?_).symm
  obtain ⟨r, hr, -⟩ := exists_result?_of_stepsLeft (stepsLeft_of_fair s d plan x hx)
  exact ⟨r, hr, hr.symm⟩

/-- **Each entry of a plan has one result**, and the results come in the order of the plan. -/
theorem map_entry_compileTogether (s : Schedule) (d : Disk) (plan : List PlanEntry) :
    (p.compileTogether c s d plan).2.map CompileResult.entry = plan := by
  have hresults : (p.compileTogether c s d plan).2.map CompileResult.entry
      = (p.interleave c (s.turns plan.length) d (plan.map .start)).2.map Compilation.entry :=
    map_filterMap_of_forall fun x hx =>
      exists_result?_of_stepsLeft (stepsLeft_of_fair s d plan x hx)
  rw [hresults, map_entry_interleave, map_entry_start]

/-! ### What is begun -/

/-- The compilations that are begun, each with its number and with the disk that its source is
compiled on. -/
def begun (p : Pipeline) (c : Compiler) :
    (turns : List Nat) → Disk → List Compilation → List (Nat × Disk × PlanEntry)
  | [], _, _ => []
  | i :: turns, d, xs =>
    match xs[i]? with
    | none => begun p c turns d xs
    | some x =>
      let (left, y) := p.advance c d x
      let rest := begun p c turns left (xs.set i y)
      if x.stage = .waiting then (i, d, x.entry) :: rest else rest

theorem begun_cons_of_none (h : xs[i]? = none) :
    p.begun c (i :: turns) d xs = p.begun c turns d xs := by
  rw [begun, h]

theorem begun_cons_of_some (h : xs[i]? = some x) :
    p.begun c (i :: turns) d xs =
      if x.stage = .waiting then
        (i, d, x.entry) :: p.begun c turns (p.advance c d x).1 (xs.set i (p.advance c d x).2)
      else p.begun c turns (p.advance c d x).1 (xs.set i (p.advance c d x).2) := by
  rw [begun, h]

theorem mem_begun_cons_of_mem {step : Nat × Disk × PlanEntry} (h : xs[i]? = some x)
    (hstep : step ∈ p.begun c turns (p.advance c d x).1 (xs.set i (p.advance c d x).2)) :
    step ∈ p.begun c (i :: turns) d xs := by
  rw [begun_cons_of_some h]
  split
  · exact List.mem_cons_of_mem _ hstep
  · exact hstep

/-- Whether the compilation with a number has not been begun. -/
def isWaiting (xs : List Compilation) (i : Nat) : Bool :=
  xs[i]?.any (·.stage = .waiting)

theorem isWaiting_of_some (h : xs[i]? = some x) : isWaiting xs i = decide (x.stage = .waiting) := by
  rw [isWaiting, h, Option.any_some]

/-- After a step of one compilation the others wait as before. -/
theorem isWaiting_set (h : xs[i]? = some x) (j : Nat) :
    isWaiting (xs.set i (p.advance c d x).2) j = (!j == i && isWaiting xs j) := by
  by_cases hij : j = i
  · subst hij
    have hset : (xs.set j (p.advance c d x).2)[j]? = some (p.advance c d x).2 := by
      rw [List.getElem?_set_self (List.getElem?_eq_some_iff.mp h).1]
    rw [isWaiting_of_some hset, decide_eq_false (stage_advance_ne_waiting d x), beq_self_eq_true]
    rfl
  · have hne : (j == i) = false := beq_eq_false_iff_ne.mpr hij
    rw [isWaiting, List.getElem?_set_ne (Ne.symm hij), hne]
    rfl

/-- **The order in which compilations are begun** is that of their first turns. -/
theorem map_fst_begun (turns : List Nat) (d : Disk) (xs : List Compilation) :
    (p.begun c turns d xs).map Prod.fst = (turns.filter (isWaiting xs)).eraseDups := by
  induction turns generalizing d xs with
  | nil => rfl
  | cons i turns ih =>
    cases hx : xs[i]? with
    | none =>
      have hnot : ¬ isWaiting xs i = true := by
        rw [isWaiting, hx]
        exact Bool.false_ne_true
      rw [begun_cons_of_none hx, ih, List.filter_cons_of_neg hnot]
    | some x =>
      -- After the turn this compilation waits no more, and the others wait as before.
      have hfilter : turns.filter (isWaiting (xs.set i (p.advance c d x).2))
          = (turns.filter (isWaiting xs)).filter fun j => !j == i := by
        rw [List.filter_filter]
        exact List.filter_congr fun j _ => isWaiting_set hx j
      rw [begun_cons_of_some hx]
      split
      · rename_i hwaiting
        have hpos : isWaiting xs i = true := by
          rw [isWaiting_of_some hx, decide_eq_true hwaiting]
        rw [List.map_cons, ih, List.filter_cons_of_pos hpos, List.eraseDups_cons, hfilter]
      · rename_i hwaiting
        have hneg : isWaiting xs i = false := by
          rw [isWaiting_of_some hx, decide_eq_false hwaiting]
        have hsame : turns.filter (isWaiting (xs.set i (p.advance c d x).2))
            = turns.filter (isWaiting xs) := by
          refine List.filter_congr fun j _ => ?_
          rw [isWaiting_set hx]
          by_cases hij : j = i
          · rw [hij, hneg, Bool.and_false]
          · rw [beq_eq_false_iff_ne.mpr hij]
            rfl
        rw [ih, hsame, List.filter_cons_of_neg (by rw [hneg]; exact Bool.false_ne_true)]

theorem map_fst_begun_start (s : Schedule) (d : Disk) (plan : List PlanEntry) :
    (p.begun c (s.turns plan.length) d (plan.map .start)).map Prod.fst = s.order plan.length := by
  rw [map_fst_begun, Schedule.order]
  congr 1
  refine List.filter_congr fun i _ => ?_
  by_cases hi : i < plan.length
  · have hstart : (plan.map Compilation.start)[i]? = some (.start plan[i]) := by
      rw [List.getElem?_map, List.getElem?_eq_getElem hi]
      rfl
    rw [isWaiting_of_some hstart, decide_eq_true hi]
    rfl
  · rw [isWaiting, List.getElem?_eq_none (by simpa using hi), decide_eq_false hi]
    rfl

/-- What is begun are the compilations with those numbers. -/
theorem entry_of_mem_begun (turns : List Nat) (d : Disk) (xs : List Compilation) :
    ∀ step ∈ p.begun c turns d xs,
      (xs.map Compilation.entry)[step.1]? = some step.2.2 := by
  induction turns generalizing d xs with
  | nil => exact fun step hstep => absurd hstep List.not_mem_nil
  | cons i turns ih =>
    cases hx : xs[i]? with
    | none =>
      rw [begun_cons_of_none hx]
      exact ih d xs
    | some x =>
      have hentries : (xs.set i (p.advance c d x).2).map Compilation.entry
          = xs.map Compilation.entry := by
        obtain ⟨front, back, rfl, -, hset⟩ := exists_append_of_getElem? hx
        rw [hset, List.map_append, List.map_append, List.map_cons, List.map_cons, entry_advance]
      have hrest := ih (p.advance c d x).1 (xs.set i (p.advance c d x).2)
      rw [hentries] at hrest
      rw [begun_cons_of_some hx]
      split
      · refine List.forall_mem_cons.mpr ⟨?_, hrest⟩
        rw [List.getElem?_map, hx]
        rfl
      · exact hrest

/-- **Each entry of a plan is begun**, once. -/
theorem perm_begun (s : Schedule) (d : Disk) (plan : List PlanEntry) :
    ((p.begun c (s.turns plan.length) d (plan.map .start)).map (·.2.2)).Perm plan := by
  have hentries : (p.begun c (s.turns plan.length) d (plan.map .start)).map (·.2.2)
      = ((p.begun c (s.turns plan.length) d (plan.map .start)).map Prod.fst).filterMap
          (fun i => plan[i]?) := by
    rw [List.filterMap_map, List.filterMap_congr (g := fun step => some step.2.2),
      List.filterMap_eq_map']
    intro step hstep
    have hentry := entry_of_mem_begun _ _ _ step hstep
    rwa [map_entry_start] at hentry
  have hperm := (s.perm_order plan.length).filterMap fun i => plan[i]?
  rw [filterMap_getElem?_range] at hperm
  rwa [hentries, map_fst_begun_start]

/-- **What is on its way to an output** is what the compiler returned when it was asked. -/
theorem exists_begun_of_css? (turns : List Nat) (hx : xs[i]? = some x)
    (hy : (p.interleave c turns d xs).2[i]? = some y) (hcss : y.stage.css? = some css) :
    x.stage.css? = some css ∨ ∃ left, (i, left, x.entry) ∈ p.begun c turns d xs ∧
      c left x.entry.1 p.project.compileOptions = .ok css := by
  induction turns generalizing d xs x with
  | nil =>
    obtain rfl := Option.some.inj (hx.symm.trans hy)
    exact Or.inl hcss
  | cons j turns ih =>
    cases hz : xs[j]? with
    | none =>
      rw [interleave_cons_of_none hz] at hy
      rw [begun_cons_of_none hz]
      exact ih hx hy
    | some z =>
      rw [interleave_cons_of_some hz] at hy
      by_cases hij : j = i
      · subst hij
        obtain rfl := Option.some.inj (hx.symm.trans hz)
        have hset : (xs.set j (p.advance c d x).2)[j]? = some (p.advance c d x).2 := by
          rw [List.getElem?_set_self (List.getElem?_eq_some_iff.mp hx).1]
        rcases ih hset hy with hnow | ⟨left, hleft, hok⟩
        · by_cases hwaiting : x.stage = .waiting
          · -- This is the turn in which the compiler is asked.
            rw [advance_of_waiting hwaiting] at hnow
            refine Or.inr ⟨d, ?_, ok_of_css?_compileStage hnow⟩
            rw [begun_cons_of_some hz, if_pos hwaiting]
            exact List.mem_cons_self
          · rw [advance_of_ne_waiting hwaiting] at hnow
            exact Or.inl (css?_outputStep hnow)
        · rw [entry_advance] at hleft hok
          exact Or.inr ⟨left, mem_begun_cons_of_mem hz hleft, hok⟩
      · have hset : (xs.set j (p.advance c d z).2)[i]? = some x := by
          rw [List.getElem?_set_ne hij, hx]
        rcases ih hset hy with hnow | ⟨left, hleft, hok⟩
        · exact Or.inl hnow
        · exact Or.inr ⟨left, mem_begun_cons_of_mem hz hleft, hok⟩

theorem exists_begun_of_css?_start
    (hx : (p.interleave c turns d (plan.map .start)).2[i]? = some x)
    (hcss : x.stage.css? = some css) :
    ∃ left, (i, left, x.entry) ∈ p.begun c turns d (plan.map .start) ∧
      c left x.entry.1 p.project.compileOptions = .ok css := by
  have hentry : plan[i]? = some x.entry := by
    have hentries := congrArg (·[i]?)
      (map_entry_interleave (p := p) (c := c) turns d (plan.map .start))
    rw [map_entry_start, List.getElem?_map, hx] at hentries
    exact hentries.symm
  have hstart : (plan.map Compilation.start)[i]? = some (.start x.entry) := by
    rw [List.getElem?_map, hentry]
    rfl
  rcases exists_begun_of_css? turns hstart hx hcss with hnow | hbegun
  · cases hnow
  · exact hbegun

/-! ### Steps in a row -/

/-- Some steps of one compilation in a row. -/
def advances (p : Pipeline) (c : Compiler) : (steps : Nat) → Disk → Compilation → Disk × Compilation
  | 0, d, x => (d, x)
  | steps + 1, d, x =>
    let (d, x) := p.advance c d x
    advances p c steps d x

theorem advances_of_stepsLeft (h : x.stage.stepsLeft = 0) (steps : Nat) (d : Disk) :
    p.advances c steps d x = (d, x) := by
  induction steps with
  | zero => rfl
  | succ steps ih =>
    have hstay : p.advance c d x = (d, x) := by
      obtain ⟨entry, stage⟩ := x
      rcases Stage.cases_of_stepsLeft h with ⟨file, css, hstage⟩ | ⟨e, hstage⟩ | ⟨outcome, hstage⟩
      all_goals
        obtain rfl : stage = _ := hstage
        rfl
    rw [advances, hstay]
    exact ih

theorem advances_succ_of_ne_waiting (h : x.stage ≠ .waiting) (steps : Nat) (d : Disk) :
    p.advances c (steps + 1) d x = p.advances c steps (outputStep d x.entry.2 x.stage).1
      ⟨x.entry, (outputStep d x.entry.2 x.stage).2⟩ := by
  rw [advances, advance_of_ne_waiting h]

/-- **All steps of a compilation in a row** compile the source and write its output. -/
theorem advances_start (d : Disk) (entry : PlanEntry) :
    ∃ x, p.advances c Stage.waiting.stepsLeft d (.start entry) = ((p.compileOne c d entry).1, x) ∧
      result? x = some (p.compileOne c d entry).2 := by
  have hfirst : p.advances c Stage.waiting.stepsLeft d (.start entry)
      = p.advances c 3 d ⟨entry, p.compileStage c d entry.1⟩ := rfl
  rw [hfirst]
  unfold compileOne
  dsimp only
  rcases p.compileStage_cases c d entry.1 with ⟨hdry, hstage⟩ | ⟨e, hdry, he, hstage⟩ |
    ⟨css, hdry, hcss, hstage⟩
  · rw [hstage, advances_of_stepsLeft rfl, hdry]
    exact ⟨_, rfl, rfl⟩
  · rw [hstage, advances_of_stepsLeft rfl, hdry, if_neg Bool.false_ne_true, he]
    exact ⟨_, rfl, rfl⟩
  -- The steps that are left are those of a write, which ends at the first that fails.
  rw [hstage, hdry, if_neg Bool.false_ne_true, hcss,
    advances_succ_of_ne_waiting (x := ⟨entry, .compiled css⟩) nofun, outputStep]
  dsimp only
  rw [writeOutput]
  cases makeDirectory d entry.2 with
  | mk made done =>
    cases done with
    | error e =>
      dsimp only
      rw [advances_of_stepsLeft rfl]
      exact ⟨_, rfl, rfl⟩
    | ok done =>
      dsimp only
      rw [advances_succ_of_ne_waiting (x := ⟨entry, .placed css⟩) nofun, outputStep,
        Disk.write_eq_openEmpty]
      dsimp only
      cases made.openEmpty entry.2 with
      | error e =>
        dsimp only
        rw [advances_of_stepsLeft rfl]
        exact ⟨_, rfl, rfl⟩
      | ok opened =>
        dsimp only
        rw [advances_succ_of_ne_waiting (x := ⟨entry, .opened opened.2 css⟩) nofun, outputStep,
          advances]
        exact ⟨_, rfl, rfl⟩

theorem interleave_replicate_append (steps : Nat) (hx : xs[i]? = some x) :
    p.interleave c (List.replicate steps i ++ turns) d xs
      = p.interleave c turns (p.advances c steps d x).1 (xs.set i (p.advances c steps d x).2) := by
  induction steps generalizing d xs x with
  | zero =>
    obtain ⟨front, back, rfl, -, hset⟩ := exists_append_of_getElem? hx
    rw [List.replicate_zero, List.nil_append, advances, hset]
  | succ steps ih =>
    have hset : (xs.set i (p.advance c d x).2)[i]? = some (p.advance c d x).2 := by
      rw [List.getElem?_set_self (List.getElem?_eq_some_iff.mp hx).1]
    rw [List.replicate_succ, List.cons_append, interleave_cons_of_some hx, ih hset, List.set_set]
    rfl

theorem compileInTurn_cons (hfast : p.failFast = false) (entry : PlanEntry) :
    p.compileInTurn c d (entry :: plan) =
      ((p.compileInTurn c (p.compileOne c d entry).1 plan).1,
        (p.compileOne c d entry).2 :: (p.compileInTurn c (p.compileOne c d entry).1 plan).2) := by
  rw [compileInTurn]
  dsimp only
  rw [hfast, Bool.false_and, if_neg Bool.false_ne_true]

theorem interleave_inOrder (hfast : p.failFast = false) (plan : List PlanEntry) (d : Disk)
    (front : List Compilation) : ∃ ys,
      p.interleave c ((List.range' front.length plan.length).flatMap
          (List.replicate Stage.waiting.stepsLeft)) d (front ++ plan.map .start)
        = ((p.compileInTurn c d plan).1, front ++ ys) ∧
      ys.map result? = (p.compileInTurn c d plan).2.map some := by
  induction plan generalizing d front with
  | nil => exact ⟨[], rfl, rfl⟩
  | cons entry plan ih =>
    have hx : (front ++ (entry :: plan).map Compilation.start)[front.length]?
        = some (.start entry) := by
      rw [List.getElem?_append_right (Nat.le_refl _), Nat.sub_self]
      rfl
    obtain ⟨x, hsteps, hresult⟩ := advances_start (p := p) (c := c) d entry
    have hset : (front ++ (entry :: plan).map Compilation.start).set front.length x
        = front ++ [x] ++ plan.map .start := by
      rw [List.set_append_right _ _ (Nat.le_refl _), Nat.sub_self, List.append_assoc]
      rfl
    -- The first entry is compiled to its end, and the others follow behind it.
    obtain ⟨ys, hrun, hresults⟩ := ih (p.compileOne c d entry).1 (front ++ [x])
    rw [List.length_append, List.length_singleton] at hrun
    refine ⟨x :: ys, ?_, ?_⟩
    · rw [List.length_cons, List.range'_succ, List.flatMap_cons, interleave_replicate_append _ hx,
        hsteps, hset, hrun, List.append_assoc, compileInTurn_cons hfast]
      rfl
    · rw [compileInTurn_cons hfast, List.map_cons, List.map_cons, hresult, hresults]

/-- **Compilations at the same time that keep the order** are compilations in turn. -/
theorem compileInTurn_eq_compileTogether (hfast : p.failFast = false) (d : Disk)
    (plan : List PlanEntry) : p.compileInTurn c d plan = p.compileTogether c .inOrder d plan := by
  obtain ⟨ys, hrun, hresults⟩ := interleave_inOrder (c := c) hfast plan d []
  have hrun' : p.interleave c (Schedule.inOrder.turns plan.length) d (plan.map .start)
      = ((p.compileInTurn c d plan).1, ys) := by
    have hturns : Schedule.inOrder.turns plan.length
        = (List.range' 0 plan.length).flatMap (List.replicate Stage.waiting.stepsLeft) := by
      rw [← List.range_eq_range']
      rfl
    rw [hturns]
    exact hrun
  have hfilter : ys.filterMap result? = (p.compileInTurn c d plan).2 := by
    have hid := congrArg (List.filterMap id) hresults
    rwa [List.filterMap_map, List.filterMap_map, Function.id_comp, Function.id_comp,
      List.filterMap_some] at hid
  rw [compileTogether, hrun']
  dsimp only
  rw [hfilter]

end Pipeline

end SheetGraph
