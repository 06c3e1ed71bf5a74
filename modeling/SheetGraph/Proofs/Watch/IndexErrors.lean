import SheetGraph.Proofs.Watch.Runs

/-!
# What is remembered of a failed indexing

A handler remembers the message of an indexing that has failed, until one succeeds.
`run_indexError` says what this comes to when batches are handled one after the other, each on a
disk that may have changed in any way.

A call is `Idle` when it answers that the batch is of no interest, that the project could not be
indexed, or that its sources could not be listed; such a call compiles nothing and writes nothing
(`handleChanges_idle`).  It is decisive (`isDecisive`) when its answer tells whether the project
could be indexed.  The message that is remembered is that of the last decisive call, if it has
failed (`indexError_afterAll`).  A project can fail to be indexed after its graph has been replaced,
when a file of the batch turns out to be cyclic; the graph is kept only where the indexing itself
has failed (`graph_of_index_eq_error`).
-/

namespace SheetGraph.WatchHandler

variable {h h' : WatchHandler} {c : Compiler} {d d' : Disk} {files : List Location}
  {outcome : Except WatchError ChangeOutcome} {batches : List (Disk × List Location)}

/-! ### One call -/

/-- The answers of a call that has come to no build. -/
inductive Idle : Except WatchError ChangeOutcome → Prop
  /-- No file is of interest. -/
  | ignored : Idle (.ok .ignored)
  /-- The project cannot be indexed. -/
  | indexFailed (e : ImportError) : Idle (.ok (.indexFailed e))
  /-- Its main sources cannot be listed. -/
  | discovery (e : DiscoveryError) : Idle (.error (.discovery e))

/-- **A call that comes to no build** leaves the disk as it is, and does the same with any
compiler. -/
theorem handleChanges_idle (hcall : h.handleChanges c d files = (h', d', outcome))
    (hidle : Idle outcome) :
    d' = d ∧ ∀ c', h.handleChanges c' d files = (h', d', outcome) := by
  cases handles_iff.mpr hcall with
  | ignored hchanges => exact ⟨rfl, fun c' => handles_iff.mp (.ignored hchanges)⟩
  | unlisted hchanges hindex =>
    exact ⟨rfl, fun c' => handles_iff.mp (.unlisted hchanges hindex)⟩
  | unindexed hchanges hindex =>
    exact ⟨rfl, fun c' => handles_iff.mp (.unindexed hchanges hindex)⟩
  | untold hchanges hindex hsources =>
    exact ⟨rfl, fun c' => handles_iff.mp (.untold hchanges hindex hsources)⟩
  | unbuilt => cases hidle
  | built => cases hidle

/-- **Where the project cannot be indexed the graph is kept.** -/
theorem graph_of_index_eq_error {e : WatchError} (hindex : h.index d = .error e)
    (hcall : h.handleChanges c d files = (h', d', outcome)) : h'.graph = h.graph := by
  cases handles_iff.mpr hcall with
  | ignored _ => rfl
  | unlisted _ _ => rfl
  | unindexed _ _ => rfl
  | untold _ hok _ =>
    rw [hindex] at hok
    cases hok
  | unbuilt _ hok _ _ =>
    rw [hindex] at hok
    cases hok
  | built _ hok _ _ =>
    rw [hindex] at hok
    cases hok

/-- Whether an answer tells that the project could be indexed, or that it could not. -/
def isDecisive : Except WatchError ChangeOutcome → Bool
  | .ok .ignored => false
  | .error (.discovery _) => false
  | _ => true

/-- The message that an answer leaves. -/
def failureOf : Except WatchError ChangeOutcome → Option String
  | .ok (.indexFailed e) => some e.message
  | _ => none

theorem failureOf_eq_some_iff {msg : String} :
    failureOf outcome = some msg ↔ ∃ e, outcome = .ok (.indexFailed e) ∧ msg = e.message := by
  unfold failureOf
  split
  · rename_i e
    simp [eq_comm]
  · rename_i hnot
    constructor
    · intro hsome
      cases hsome
    · rintro ⟨e, rfl, -⟩
      exact absurd rfl (hnot e)

/-- **What a call does to the message**: a decisive one sets or clears it, and any other leaves
it. -/
theorem indexError_handleChanges (hcall : h.handleChanges c d files = (h', d', outcome)) :
    h'.indexError = if isDecisive outcome then failureOf outcome else h.indexError := by
  -- A handler that has indexed the project has no message.
  have hcleared : ∀ k, h.index d = .ok k → k.indexError = none := by
    intro k hindex
    obtain ⟨sources, graph, -, -, rfl⟩ := index_eq_ok_iff.mp hindex
    rfl
  cases handles_iff.mpr hcall with
  | ignored _ => rfl
  | unlisted _ _ => rfl
  | unindexed _ _ => rfl
  | untold _ _ _ => rfl
  | unbuilt _ hindex _ _ => exact hcleared _ hindex
  | built _ hindex _ _ => exact hcleared _ hindex

/-! ### Calls one after the other -/

/-- The call for a batch. -/
def stepOf (h : WatchHandler) (c : Compiler) (d : Disk) (files : List Location) : Step where
  before := h
  edited := d
  batch := files
  after := (h.handleChanges c d files).1
  left := (h.handleChanges c d files).2.1
  outcome := (h.handleChanges c d files).2.2

theorem handled_stepOf (h : WatchHandler) (c : Compiler) (d : Disk) (files : List Location) :
    h.handleChanges c d files
      = ((h.stepOf c d files).after, (h.stepOf c d files).left, (h.stepOf c d files).outcome) :=
  Prod.ext rfl (Prod.ext rfl rfl)

/-- The calls for batches one after the other, each on a disk of its own. -/
def steps (h : WatchHandler) (c : Compiler) : List (Disk × List Location) → List Step
  | [] => []
  | (d, files) :: batches => h.stepOf c d files :: steps (h.stepOf c d files).after c batches

/-- The handler after these calls. -/
def afterAll (h : WatchHandler) (c : Compiler) : List (Disk × List Location) → WatchHandler
  | [] => h
  | (d, files) :: batches => afterAll (h.stepOf c d files).after c batches

theorem handled_of_mem_steps {s : Step} (hs : s ∈ h.steps c batches) :
    s.before.handleChanges c s.edited s.batch = (s.after, s.left, s.outcome) := by
  induction batches generalizing h with
  | nil => exact absurd hs List.not_mem_nil
  | cons batch batches ih =>
    rcases List.mem_cons.mp hs with rfl | hs
    · exact handled_stepOf h c batch.1 batch.2
    · exact ih hs

/-- The last call of a run that was decisive. -/
def lastDecisive? (steps : List Step) : Option Step :=
  (steps.filter fun s => isDecisive s.outcome).getLast?

theorem lastDecisive?_cons (s : Step) (steps : List Step) :
    lastDecisive? (s :: steps) =
      (lastDecisive? steps).or (if isDecisive s.outcome then some s else none) := by
  unfold lastDecisive?
  rw [List.filter_cons]
  split
  · rw [List.getLast?_cons]
    cases (steps.filter fun s => isDecisive s.outcome).getLast? <;> rfl
  · rw [Option.or_none]

/-- **What is remembered after any calls**: what the last decisive one has left, or what was
remembered before when there is none. -/
theorem indexError_afterAll (h : WatchHandler) (c : Compiler)
    (batches : List (Disk × List Location)) :
    (h.afterAll c batches).indexError =
      match lastDecisive? (h.steps c batches) with
      | some s => failureOf s.outcome
      | none => h.indexError := by
  induction batches generalizing h with
  | nil => rfl
  | cons batch batches ih =>
    obtain ⟨d, files⟩ := batch
    rw [afterAll, ih, steps, lastDecisive?_cons]
    cases lastDecisive? (steps (h.stepOf c d files).after c batches) with
    | some s => rfl
    | none =>
      -- All later calls leave what this one has left.
      dsimp only
      rw [Option.none_or, indexError_handleChanges (handled_stepOf h c d files)]
      cases isDecisive (h.stepOf c d files).outcome <;> rfl

/-- **What a handler tells of failures**, whatever batches it handles one after the other and
however the disk changes between them.  A call that is ignored, that cannot index the project or
that cannot list its sources leaves the disk as it is, and comes to the same with any other
compiler; a call on a disk that cannot be indexed keeps the graph; and after all calls the handler
remembers a message if and only if the last of them that was neither ignored nor unable to list the
sources has failed to index the project, with that message. -/
theorem run_indexError (h : WatchHandler) (c : Compiler) (batches : List (Disk × List Location))
    (hfresh : h.indexError = none) :
    (∀ s ∈ h.steps c batches, Idle s.outcome → s.left = s.edited ∧
      ∀ c', s.before.handleChanges c' s.edited s.batch = (s.after, s.left, s.outcome)) ∧
    (∀ s ∈ h.steps c batches, ∀ e, s.before.index s.edited = .error e →
      s.after.graph = s.before.graph) ∧
    ∀ msg, (h.afterAll c batches).indexError = some msg ↔
      ∃ s e, ((h.steps c batches).filter fun s => isDecisive s.outcome).getLast? = some s ∧
        s.outcome = .ok (.indexFailed e) ∧ msg = e.message := by
  refine ⟨fun s hs hidle => ?_, fun s hs e hindex => ?_, fun msg => ?_⟩
  · exact handleChanges_idle (handled_of_mem_steps hs) hidle
  · exact graph_of_index_eq_error hindex (handled_of_mem_steps hs)
  · rw [indexError_afterAll, ← lastDecisive?]
    cases lastDecisive? (h.steps c batches) with
    | none => simp [hfresh]
    | some s =>
      dsimp only
      rw [failureOf_eq_some_iff]
      simp

/-- The call on the broken project that names the directory of its sources only. -/
def idleStep : Step :=
  ⟨pairFailed, pairBroken, [pairDir], pairFailed, pairBroken, .ok .ignored⟩

theorem stepOf_pairBroken :
    (pairHandler [] false).stepOf blankCompiler pairBroken [pairA, pairB] = brokenStep := by
  simp only [stepOf, handleChanges_pairBroken, brokenStep]

theorem stepOf_idle : pairFailed.stepOf blankCompiler pairBroken [pairDir] = idleStep := by
  have hcall : pairFailed.handleChanges blankCompiler pairBroken [pairDir]
      = (pairFailed, pairBroken, .ok .ignored) :=
    handles_iff.mp (.ignored (by decide +kernel))
  simp only [stepOf, hcall, idleStep]

theorem stepOf_pairMended :
    pairFailed.stepOf blankCompiler pairMended [pairA] = mendedStep := by
  simp only [stepOf, handleChanges_pairMended, mendedStep]

/-- The message of the broken project is remembered over a call that is ignored, until the project
is mended. -/
theorem run_indexError_pair :
    (pairHandler [] false).indexError = none ∧
    ((pairHandler [] false).afterAll blankCompiler
      [(pairBroken, [pairA, pairB]), (pairBroken, [pairDir])]).indexError
        = some (ImportError.unresolvable "gone" pairA.path).message ∧
    ((pairHandler [] false).afterAll blankCompiler
      [(pairBroken, [pairA, pairB]), (pairBroken, [pairDir]), (pairMended, [pairA])]).indexError
        = none := by
  have hbroken : brokenStep.after = pairFailed := by rw [brokenStep]
  have hidle : idleStep.after = pairFailed := by rw [idleStep]
  have hdecisive : isDecisive brokenStep.outcome = true := by simp only [brokenStep, isDecisive]
  have hnot : isDecisive idleStep.outcome = false := by simp only [idleStep, isDecisive]
  have hdecisive' : isDecisive mendedStep.outcome = true := by simp only [mendedStep, isDecisive]
  obtain ⟨-, -, hmiddle⟩ := run_indexError (pairHandler [] false) blankCompiler
    [(pairBroken, [pairA, pairB]), (pairBroken, [pairDir])] rfl
  obtain ⟨-, -, hend⟩ := run_indexError (pairHandler [] false) blankCompiler
    [(pairBroken, [pairA, pairB]), (pairBroken, [pairDir]), (pairMended, [pairA])] rfl
  simp only [steps, stepOf_pairBroken, stepOf_idle, stepOf_pairMended, hbroken, hidle, List.filter,
    hdecisive, hnot, hdecisive', List.getLast?_singleton, List.getLast?_cons_cons] at hmiddle hend
  refine ⟨rfl, ?_, ?_⟩
  · exact (hmiddle _).mpr ⟨brokenStep, _, rfl, by rw [brokenStep], rfl⟩
  · rw [Option.eq_none_iff_forall_not_mem]
    intro msg hmsg
    obtain ⟨s, e, hlast, hfailed, -⟩ := (hend msg).mp hmsg
    rw [← Option.some.inj hlast, mendedStep] at hfailed
    cases hfailed

end SheetGraph.WatchHandler
