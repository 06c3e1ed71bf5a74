import Mathlib.Data.Set.Card
import SheetGraph.Proofs.Discovery.Sorted
import SheetGraph.Watch.Tracker

/-!
# Streaks of failures

What a tracker remembers is told by the history of all builds: a source is tracked just if its last
entry is a failure (`ErrorTracker.tracks_after`), and each build reports the tracked sources that do
not fail in it, in order (`ErrorTracker.mem_update_iff`).  So each streak of failures of a source is
followed by one report, unless it is still going on (`ErrorTracker.countP_reports`).

One entry decides about its own source and leaves all others alone (`ErrorTracker.tracks_note`);
this goes through the entries of a build, and from there through the builds.
-/

namespace SheetGraph

/-! ### The order of paths -/

namespace Path

variable {p q : Path}

theorem same_iff : p.same q = true ↔ p.components = q.components := by
  rw [same, beq_iff_eq]

theorem same_comm (p q : Path) : p.same q = q.same p := by
  rw [Bool.eq_iff_iff, same_iff, same_iff, eq_comm]

theorem same_of_compare (h : p.compare q = .eq) : p.same q = true := by
  have hcomponents : List.compareLex Component.compare p.components q.components = .eq := h
  exact same_iff.mpr (Std.LawfulEqCmp.eq_of_compare hcomponents)

end Path

/-! ### Verdicts -/

/-- No source has two entries in the build. -/
def BuildResult.Distinct (b : BuildResult) : Prop :=
  b.results.Pairwise fun x y => x.source.same y.source = false

/-- Whether the entries of a source fail, in order. -/
def verdicts (rs : List CompileResult) (source : Path) : List Bool :=
  (rs.filter fun r => r.source.same source).map (·.isFailure)

/-- The number of streaks of failures that begin in a list of verdicts; `failing` tells whether one
is going on in front of it. -/
def streaks (failing : Bool) : List Bool → Nat
  | [] => 0
  | verdict :: verdicts => (if verdict && !failing then 1 else 0) + streaks verdict verdicts

section Verdicts

variable {rs : List CompileResult} {r : CompileResult} {source : Path}

theorem verdicts_append (rs rs' : List CompileResult) (source : Path) :
    verdicts (rs ++ rs') source = verdicts rs source ++ verdicts rs' source := by
  rw [verdicts, List.filter_append, List.map_append]
  rfl

theorem verdicts_cons (r : CompileResult) (rs : List CompileResult) (source : Path) :
    verdicts (r :: rs) source
      = if r.source.same source then r.isFailure :: verdicts rs source
        else verdicts rs source := by
  rw [verdicts, List.filter_cons]
  split_ifs <;> rfl

theorem verdicts_eq_nil (h : ∀ r ∈ rs, r.source.same source = false) : verdicts rs source = [] := by
  rw [verdicts, List.filter_eq_nil_iff.mpr fun r hr => by rw [h r hr]; exact Bool.false_ne_true]
  rfl

/-- A source has one verdict in a build, or none. -/
theorem verdicts_of_pairwise (h : rs.Pairwise fun x y => x.source.same y.source = false)
    (source : Path) : (∀ r ∈ rs, r.source.same source = false) ∨
      ∃ r ∈ rs, r.source.same source = true ∧ verdicts rs source = [r.isFailure] := by
  induction rs with
  | nil => exact Or.inl (by simp)
  | cons r rs ih =>
    obtain ⟨hr, hrs⟩ := List.pairwise_cons.mp h
    cases hsame : r.source.same source with
    | true =>
      -- The others are entries of other sources.
      have hrest : ∀ x ∈ rs, x.source.same source = false := by
        intro x hx
        have hdiff := hr x hx
        rw [Path.same_iff] at hsame
        rw [Path.same_comm, Path.same, ← hsame]
        exact hdiff
      refine Or.inr ⟨r, List.mem_cons_self, hsame, ?_⟩
      rw [verdicts_cons, if_pos hsame, verdicts_eq_nil hrest]
    | false =>
      rcases ih hrs with hnone | ⟨x, hx, hxs, hverdicts⟩
      · exact Or.inl (List.forall_mem_cons.mpr ⟨hsame, hnone⟩)
      · refine Or.inr ⟨x, List.mem_cons_of_mem r hx, hxs, ?_⟩
        rw [verdicts_cons, hsame, if_neg Bool.false_ne_true, hverdicts]

end Verdicts

namespace ErrorTracker

variable {t : ErrorTracker} {r : CompileResult} {rs : List CompileResult} {b : BuildResult}
  {bs : List BuildResult} {source : Path}

/-! ### One entry -/

theorem tracks_iff : t.tracks source = true ↔ ∃ p ∈ t.failing, p.same source = true := by
  rw [tracks, List.any_eq_true]
  simp only [Path.same_comm source]

theorem tracks_congr {p q : Path} (h : p.same q = true) : t.tracks p = t.tracks q := by
  rw [Path.same_iff] at h
  unfold tracks Path.same
  rw [h]

theorem tracks_of_notMem {p : Path} (h : p.same source = true) :
    (ErrorTracker.mk (t.failing.filter fun q => !p.same q)).tracks source = false := by
  rw [← Bool.not_eq_true, tracks_iff]
  rintro ⟨q, hq, hqs⟩
  rw [List.mem_filter, Bool.not_eq_true'] at hq
  rw [Path.same_iff] at h hqs
  rw [← Bool.not_eq_true, Path.same_iff, h, hqs] at hq
  exact hq.2 rfl

theorem tracks_filter {p : Path} (h : p.same source = false) :
    (ErrorTracker.mk (t.failing.filter fun q => !p.same q)).tracks source = t.tracks source := by
  rw [Bool.eq_iff_iff, tracks_iff, tracks_iff]
  constructor
  · rintro ⟨q, hq, hqs⟩
    exact ⟨q, (List.mem_filter.mp hq).1, hqs⟩
  · rintro ⟨q, hq, hqs⟩
    refine ⟨q, List.mem_filter.mpr ⟨hq, ?_⟩, hqs⟩
    -- What is tracked as `source` is not taken out with `p`.
    rw [Path.same_iff] at hqs
    rw [Bool.not_eq_true', ← h, Path.same, Path.same, hqs]

/-- **One entry** decides about its source, and about no other one. -/
theorem tracks_note (t : ErrorTracker) (r : CompileResult) (source : Path) :
    (t.note r).1.tracks source
      = if r.source.same source then r.isFailure else t.tracks source := by
  unfold note
  cases hfail : r.isFailure with
  | true =>
    rw [if_pos rfl]
    cases htracked : t.tracks r.source with
    | true =>
      rw [if_pos rfl]
      split_ifs with hsame
      · rw [← tracks_congr hsame, htracked]
      · rfl
    | false =>
      rw [if_neg Bool.false_ne_true]
      dsimp only
      -- The source is put at the end of the list.
      rw [tracks, List.any_append, List.any_cons, List.any_nil, Bool.or_false, Path.same_comm]
      split_ifs with hsame
      · rw [hsame, Bool.or_true]
      · rw [Bool.not_eq_true] at hsame
        rw [hsame, Bool.or_false]
        rfl
  | false =>
    rw [if_neg Bool.false_ne_true]
    cases htracked : t.tracks r.source with
    | true =>
      rw [if_pos rfl]
      split_ifs with hsame
      · exact tracks_of_notMem hsame
      · exact tracks_filter (Bool.not_eq_true _ ▸ hsame)
    | false =>
      rw [if_neg Bool.false_ne_true]
      split_ifs with hsame
      · rw [← tracks_congr hsame, htracked]
      · rfl

/-- The source of an entry is reported if it was tracked and does not fail any more. -/
theorem snd_note (t : ErrorTracker) (r : CompileResult) :
    (t.note r).2 = if !r.isFailure && t.tracks r.source then [r.source] else [] := by
  unfold note
  cases r.isFailure with
  | true => rfl
  | false => cases t.tracks r.source <;> rfl

/-- No source is tracked twice. -/
def Proper (t : ErrorTracker) : Prop :=
  t.failing.Pairwise fun p q => p.same q = false

theorem Proper.note (h : t.Proper) (r : CompileResult) : (t.note r).1.Proper := by
  unfold ErrorTracker.note
  split_ifs with hfail htracked htracked
  · exact h
  · refine List.pairwise_append.mpr ⟨h, List.pairwise_singleton _ _, fun p hp q hq => ?_⟩
    rw [List.mem_singleton.mp hq, ← Bool.not_eq_true]
    exact fun hsame => htracked (tracks_iff.mpr ⟨p, hp, hsame⟩)
  · exact h.filter _
  · exact h

/-! ### One build -/

theorem noteAll_cons (t : ErrorTracker) (r : CompileResult) (rs : List CompileResult) :
    t.noteAll (r :: rs)
      = (((t.note r).1.noteAll rs).1, (t.note r).2 ++ ((t.note r).1.noteAll rs).2) := rfl

/-- **The last entry** of a source decides about it. -/
theorem tracks_noteAll (t : ErrorTracker) (rs : List CompileResult) (source : Path) :
    (t.noteAll rs).1.tracks source = (verdicts rs source).getLastD (t.tracks source) := by
  induction rs generalizing t with
  | nil => rfl
  | cons r rs ih =>
    rw [noteAll_cons, verdicts_cons]
    dsimp only
    rw [ih, tracks_note]
    split_ifs with hsame
    · rw [List.getLastD_cons]
    · rfl

/-- The sources that are reported were tracked before. -/
theorem snd_noteAll (t : ErrorTracker)
    (h : rs.Pairwise fun x y => x.source.same y.source = false) :
    (t.noteAll rs).2
      = (rs.filter fun r => !r.isFailure && t.tracks r.source).map (·.source) := by
  induction rs generalizing t with
  | nil => rfl
  | cons r rs ih =>
    obtain ⟨hr, hrs⟩ := List.pairwise_cons.mp h
    -- Nothing has become of the other sources so far.
    have hrest : (rs.filter fun x => !x.isFailure && (t.note r).1.tracks x.source)
        = rs.filter fun x => !x.isFailure && t.tracks x.source := by
      refine List.filter_congr fun x hx => ?_
      rw [tracks_note, hr x hx, if_neg Bool.false_ne_true]
    rw [noteAll_cons, List.filter_cons]
    dsimp only
    rw [ih _ hrs, hrest, snd_note]
    split_ifs <;> rfl

theorem Proper.noteAll (h : t.Proper) (rs : List CompileResult) : (t.noteAll rs).1.Proper := by
  induction rs generalizing t with
  | nil => exact h
  | cons r rs ih => exact ih (h.note r)

theorem tracks_update (t : ErrorTracker) (b : BuildResult) (source : Path) :
    (t.update b).1.tracks source = (verdicts b.results source).getLastD (t.tracks source) :=
  tracks_noteAll t b.results source

/-- What a build reports of the tracked sources, and what it leaves alone. -/
structure Reports (t : ErrorTracker) (b : BuildResult) : Prop where
  /-- The report is strictly increasing. -/
  increasing : (t.update b).2.Pairwise fun p q => p.compare q = .lt
  /-- It is made up of the tracked sources that have an entry which does not fail. -/
  mem_iff : ∀ source, source ∈ (t.update b).2 ↔
    t.tracks source = true ∧ ∃ r ∈ b.results, r.source = source ∧ r.isFailure = false
  /-- A source without an entry stays as it is. -/
  unchanged : ∀ source, (∀ r ∈ b.results, r.source.same source = false) →
    (t.update b).1.tracks source = t.tracks source

theorem mem_update_iff (t : ErrorTracker) (hb : b.Distinct) : source ∈ (t.update b).2 ↔
    t.tracks source = true ∧ ∃ r ∈ b.results, r.source = source ∧ r.isFailure = false := by
  have hmended : (t.update b).2 = (t.noteAll b.results).2.mergeSort fun p q => (p.compare q).isLE :=
    rfl
  rw [hmended, List.mem_mergeSort, snd_noteAll t hb, List.mem_map]
  constructor
  · rintro ⟨r, hr, rfl⟩
    rw [List.mem_filter, Bool.and_eq_true, Bool.not_eq_true'] at hr
    exact ⟨hr.2.2, r, hr.1, rfl, hr.2.1⟩
  · rintro ⟨htracked, r, hr, rfl, hgood⟩
    refine ⟨r, List.mem_filter.mpr ⟨hr, ?_⟩, rfl⟩
    rw [hgood, htracked]
    rfl

/-- **What a build reports.** -/
theorem reports_update (t : ErrorTracker) (hb : b.Distinct) : t.Reports b where
  increasing := by
    have hmended : (t.noteAll b.results).2.Pairwise fun p q => p.same q = false := by
      rw [snd_noteAll t hb, List.pairwise_map]
      exact hb.filter _
    refine pairwise_mergeSort_lt (hmended.imp fun hpq heq => ?_)
    rw [Path.same_of_compare heq] at hpq
    cases hpq
  mem_iff _ := mem_update_iff t hb
  unchanged source h := by
    rw [tracks_update, verdicts_eq_nil h]
    rfl

/-- The report names a tracked source that does not fail any more. -/
theorem any_update (t : ErrorTracker) (hb : b.Distinct) (source : Path) :
    (t.update b).2.any (·.same source)
      = (t.tracks source && (verdicts b.results source).contains false) := by
  rw [Bool.eq_iff_iff, List.any_eq_true, Bool.and_eq_true, List.contains_iff_mem, verdicts,
    List.mem_map]
  constructor
  · rintro ⟨p, hp, hsame⟩
    obtain ⟨htracked, r, hr, rfl, hgood⟩ := (mem_update_iff t hb).mp hp
    exact ⟨tracks_congr hsame ▸ htracked, r, List.mem_filter.mpr ⟨hr, hsame⟩, hgood⟩
  · rintro ⟨htracked, r, hr, hgood⟩
    obtain ⟨hr, hsame⟩ := List.mem_filter.mp hr
    refine ⟨r.source, (mem_update_iff t hb).mpr ⟨?_, r, hr, rfl, hgood⟩, hsame⟩
    rwa [tracks_congr hsame]

/-! ### Any number of builds -/

/-- The tracker after some builds. -/
def after (t : ErrorTracker) (bs : List BuildResult) : ErrorTracker :=
  bs.foldl (fun t b => (t.update b).1) t

/-- What the builds report one after the other. -/
def reports (t : ErrorTracker) : List BuildResult → List (List Path)
  | [] => []
  | b :: bs => (t.update b).2 :: reports (t.update b).1 bs

theorem after_cons (t : ErrorTracker) (b : BuildResult) (bs : List BuildResult) :
    t.after (b :: bs) = (t.update b).1.after bs := rfl

theorem Proper.after (h : t.Proper) (bs : List BuildResult) : (t.after bs).Proper := by
  induction bs generalizing t with
  | nil => exact h
  | cons b bs ih => exact ih (h.noteAll b.results)

/-- **What is tracked** are the sources that fail in their last entry. -/
theorem tracks_after (t : ErrorTracker) (bs : List BuildResult) (source : Path) :
    (t.after bs).tracks source
      = (verdicts (bs.flatMap (·.results)) source).getLastD (t.tracks source) := by
  induction bs generalizing t with
  | nil => rfl
  | cons b bs ih =>
    rw [after_cons, ih, tracks_update, List.flatMap_cons, verdicts_append,
      List.getLastD_eq_getLast?, List.getLastD_eq_getLast?, List.getLastD_eq_getLast?,
      List.getLast?_append, Option.getD_or]

/-- The tracked sources are counted. -/
theorem Proper.errorCount (h : t.Proper) :
    t.errorCount
      = {cs | ∃ source : Path, source.components = cs ∧ t.tracks source = true}.ncard := by
  have hset : {cs | ∃ source : Path, source.components = cs ∧ t.tracks source = true}
      = ((t.failing.map Path.components).toFinset : Set (List Component)) := by
    ext cs
    rw [Set.mem_ofPred_eq, Finset.mem_coe, List.mem_toFinset, List.mem_map]
    constructor
    · rintro ⟨source, rfl, htracked⟩
      obtain ⟨p, hp, hsame⟩ := tracks_iff.mp htracked
      exact ⟨p, hp, Path.same_iff.mp hsame⟩
    · rintro ⟨p, hp, rfl⟩
      exact ⟨p, rfl, tracks_iff.mpr ⟨p, hp, Path.same_iff.mpr rfl⟩⟩
  have hnodup : (t.failing.map Path.components).Nodup := by
    refine List.pairwise_map.mpr (h.imp fun hpq heq => ?_)
    rw [Path.same_iff.mpr heq] at hpq
    cases hpq
  rw [hset, Set.ncard_coe_finset, List.toFinset_card_of_nodup hnodup, List.length_map]
  rfl

theorem hasErrors_iff : t.hasErrors = true ↔ ∃ source, t.tracks source = true := by
  rw [hasErrors, Bool.not_eq_true', List.isEmpty_eq_false_iff_exists_mem]
  constructor
  · rintro ⟨p, hp⟩
    exact ⟨p, tracks_iff.mpr ⟨p, hp, Path.same_iff.mpr rfl⟩⟩
  · rintro ⟨source, htracked⟩
    obtain ⟨p, hp, -⟩ := tracks_iff.mp htracked
    exact ⟨p, hp⟩

/-- **Each streak of failures is reported once** when it is over, and not before. -/
theorem countP_reports (t : ErrorTracker) (hbs : ∀ b ∈ bs, b.Distinct) (source : Path) :
    (t.reports bs).countP (·.any (·.same source)) + ((t.after bs).tracks source).toNat
      = (t.tracks source).toNat
        + streaks (t.tracks source) (verdicts (bs.flatMap (·.results)) source) := by
  induction bs generalizing t with
  | nil => exact Nat.zero_add _
  | cons b bs ih =>
    obtain ⟨hb, hbs⟩ := List.forall_mem_cons.mp hbs
    have hrest := ih (t.update b).1 hbs
    rw [tracks_update] at hrest
    rw [reports, List.countP_cons, any_update t hb, after_cons, List.flatMap_cons, verdicts_append]
    rcases verdicts_of_pairwise hb source with hnone | ⟨r, -, -, hverdict⟩
    · rw [verdicts_eq_nil hnone] at hrest ⊢
      simpa using hrest
    · rw [hverdict] at hrest ⊢
      -- A streak begins, goes on or ends with this entry, or there is none.
      cases hfail : r.isFailure <;> cases htracked : t.tracks source <;>
        simp [hfail, htracked, streaks] at hrest ⊢ <;> omega

/-- **The history of a tracker.**  After any builds it tracks the sources whose last entry is a
failure; each build reports the sources that were tracked before and do not fail in it, in order;
and each streak of failures of a source has one report, unless it is still going on. -/
theorem history_of_updates (bs : List BuildResult) (hbs : ∀ b ∈ bs, b.Distinct) :
    (∀ source, (empty.after bs).tracks source = true ↔
      (verdicts (bs.flatMap (·.results)) source).getLast? = some true) ∧
    (empty.after bs).errorCount = {cs | ∃ source : Path, source.components = cs ∧
      (verdicts (bs.flatMap (·.results)) source).getLast? = some true}.ncard ∧
    ((empty.after bs).hasErrors = true ↔ ∃ source,
      (verdicts (bs.flatMap (·.results)) source).getLast? = some true) ∧
    (∀ before b later, bs = before ++ b :: later → (empty.after before).Reports b) ∧
    ∀ source, (empty.reports bs).countP (·.any (·.same source))
        + ((empty.after bs).tracks source).toNat
      = streaks false (verdicts (bs.flatMap (·.results)) source) := by
  have htracks : ∀ source, (empty.after bs).tracks source = true ↔
      (verdicts (bs.flatMap (·.results)) source).getLast? = some true := by
    intro source
    have hnone : empty.tracks source = false := rfl
    rw [tracks_after, hnone, List.getLastD_eq_getLast?]
    cases (verdicts (bs.flatMap (·.results)) source).getLast? with
    | none => simp
    | some verdict => simp
  have hproper : (empty.after bs).Proper := Proper.after List.Pairwise.nil bs
  refine ⟨htracks, ?_, ?_, ?_, fun source => ?_⟩
  · rw [hproper.errorCount]
    simp only [htracks]
  · rw [hasErrors_iff]
    simp only [htracks]
  · rintro before b later rfl
    exact reports_update _ (hbs b (by simp))
  · rw [countP_reports empty hbs]
    exact Nat.zero_add _

/-- A source that fails, is mended two builds later, and fails again. -/
def relapse : List BuildResult :=
  let failed (source : String) : CompileResult :=
    ⟨⟨source⟩, ⟨"a.css"⟩, .failed { file := ⟨source⟩, message := "unexpected brace" }⟩
  let compiled (source : String) : CompileResult := ⟨⟨source⟩, ⟨"a.css"⟩, .success⟩
  [⟨[failed "a.scss", failed "b.scss"]⟩, ⟨[compiled "c.scss"]⟩,
    ⟨[compiled "a.scss", failed "b.scss"]⟩, ⟨[failed "a.scss"]⟩]

/-- The first streak has been reported, and the second one goes on. -/
theorem history_of_updates_relapse :
    (∀ b ∈ relapse, b.Distinct) ∧
    (empty.after relapse).tracks ⟨"a.scss"⟩ = true ∧
    (empty.reports relapse).countP (·.any (·.same ⟨"a.scss"⟩)) = 1 := by
  have hdistinct : ∀ b ∈ relapse, b.Distinct := by
    unfold BuildResult.Distinct
    decide +kernel
  obtain ⟨htracks, -, -, -, hreports⟩ := history_of_updates relapse hdistinct
  have htracked : (empty.after relapse).tracks ⟨"a.scss"⟩ = true :=
    (htracks _).mpr (by decide +kernel)
  have hstreaks : streaks false (verdicts (relapse.flatMap (·.results)) ⟨"a.scss"⟩) = 2 := by
    decide +kernel
  have hcount := hreports ⟨"a.scss"⟩
  rw [htracked, hstreaks] at hcount
  exact ⟨hdistinct, htracked, Nat.succ.inj hcount⟩

end ErrorTracker

end SheetGraph
