import SheetGraph.Proofs.Build.Independence

/-!
# Calls of the compiler

A build is run with a compiler whose answers come with effects (`CompilerM`), so that it can be told
when it asks.  The effects come when a source is compiled and at no other step, and without them it
is the build as it is (`Pipeline.executeM_lift`).

With a compiler that writes down its calls (`Compiler.logged`) the outcome is that of the build, and
the calls are those for the entries that were begun, in the order in which they were
(`Pipeline.run_executeM`, `Pipeline.asked`).

Each entry has one result and is asked for once.  If a failure ends the build there is neither a
result nor a call for the entries behind it, and a dry run asks for nothing
(`Pipeline.execute_reported`).
-/

namespace SheetGraph

/-- A compiler whose answers come with effects. -/
abbrev CompilerM (m : Type → Type) := Disk → Path → CompileOptions → m (Except CompileError String)

section Effects

variable {m : Type → Type} [Monad m]

/-- A compiler without effects. -/
def Compiler.lift (c : Compiler) : CompilerM m := fun d source options =>
  pure (c d source options)

namespace Pipeline

/-- One source compiled: the compiler is asked once, unless this is a dry run. -/
def compileOneM (p : Pipeline) (c : CompilerM m) (d : Disk) (entry : PlanEntry) :
    m (Disk × CompileResult) :=
  if p.dryRun then pure (d, skipped entry)
  else do
    let answer ← c d entry.1 p.project.compileOptions
    pure (p.compileOne (fun _ _ _ => answer) d entry)

/-- The entries of a plan compiled one after the other, up to the first failure if it ends the
build. -/
def compileInTurnM (p : Pipeline) (c : CompilerM m) :
    Disk → List PlanEntry → m (Disk × List CompileResult)
  | d, [] => pure (d, [])
  | d, entry :: plan => do
    let (d, result) ← p.compileOneM c d entry
    if p.failFast && result.isFailure then pure (d, [result])
    else do
      let (d, results) ← compileInTurnM p c d plan
      pure (d, result :: results)

/-- How far a compilation has come when the compiler has been asked: once, unless this is a dry
run. -/
def compileStageM (p : Pipeline) (c : CompilerM m) (d : Disk) (source : Path) : m Stage :=
  if p.dryRun then pure (.ended .skipped)
  else do
    let answer ← c d source p.project.compileOptions
    pure (p.compileStage (fun _ _ _ => answer) d source)

/-- The next step of a compilation. -/
def advanceM (p : Pipeline) (c : CompilerM m) (d : Disk) (x : Compilation) :
    m (Disk × Compilation) :=
  match x.stage with
  | .waiting => do
    let stage ← p.compileStageM c d x.entry.1
    pure (d, { x with stage := stage })
  | stage =>
    let (d, stage) := outputStep d x.entry.2 stage
    pure (d, { x with stage := stage })

/-- Compilations that take their turns. -/
def interleaveM (p : Pipeline) (c : CompilerM m) :
    (turns : List Nat) → Disk → List Compilation → m (Disk × List Compilation)
  | [], d, xs => pure (d, xs)
  | i :: turns, d, xs =>
    match xs[i]? with
    | none => interleaveM p c turns d xs
    | some x => do
      let (d, x) ← p.advanceM c d x
      interleaveM p c turns d (xs.set i x)

/-- The entries of a plan compiled at the same time, with the results in the order of the plan. -/
def compileTogetherM (p : Pipeline) (c : CompilerM m) (s : Schedule) (d : Disk)
    (plan : List PlanEntry) : m (Disk × List CompileResult) := do
  let (d, xs) ← p.interleaveM c (s.turns plan.length) d (plan.map .start)
  pure (d, xs.filterMap result?)

/-- The entries of a plan compiled, one after the other or at the same time. -/
def compileAllM (p : Pipeline) (c : CompilerM m) (d : Disk) (plan : List PlanEntry) :
    m (Disk × List CompileResult) :=
  if p.isSequential plan then p.compileInTurnM c d plan
  else p.compileTogetherM c p.schedule d plan

/-- A plan carried out: the target directory is made, and the entries are compiled. -/
def executeM (p : Pipeline) (c : CompilerM m) (d : Disk) (plan : List PlanEntry) :
    m (Disk × Except BuildError BuildResult) :=
  if plan.isEmpty then pure (d, .ok ⟨[]⟩)
  else
    let (d, made) := if p.dryRun then (d, .ok ()) else d.createDirAll p.project.targetDir.path
    match made with
    | .error e => pure (d, .error (.io e))
    | .ok () => do
      let (d, results) ← p.compileAllM c d plan
      pure (d, .ok ⟨results⟩)

section Lawful

variable [LawfulMonad m] {p : Pipeline} {c : Compiler} {cm : CompilerM m} {d : Disk}
  {plan : List PlanEntry}

/-! ### Compilers without effects -/

theorem compileOneM_lift (d : Disk) (entry : PlanEntry) :
    (p.compileOneM c.lift d entry : m _) = pure (p.compileOne c d entry) := by
  cases hdry : p.dryRun with
  | true =>
    rw [compileOneM, if_pos hdry, compileOne_of_dryRun hdry]
    rfl
  | false =>
    rw [compileOneM, hdry, if_neg Bool.false_ne_true, Compiler.lift, pure_bind]
    rfl

theorem compileInTurnM_lift (plan : List PlanEntry) (d : Disk) :
    (p.compileInTurnM c.lift d plan : m _) = pure (p.compileInTurn c d plan) := by
  induction plan generalizing d with
  | nil => rfl
  | cons entry plan ih =>
    rw [compileInTurnM, compileInTurn, compileOneM_lift, pure_bind]
    obtain ⟨d', result⟩ := p.compileOne c d entry
    dsimp only
    split
    · rfl
    · rw [ih, pure_bind]

theorem advanceM_of_waiting {x : Compilation} (h : x.stage = .waiting) :
    p.advanceM cm d x
      = (fun stage => (d, ⟨x.entry, stage⟩)) <$> p.compileStageM cm d x.entry.1 := by
  rw [advanceM, h, map_eq_pure_bind]

omit [LawfulMonad m] in
theorem advanceM_of_ne_waiting {x : Compilation} (h : x.stage ≠ .waiting) :
    p.advanceM cm d x = pure (p.advance c d x) := by
  rw [advance_of_ne_waiting h]
  unfold advanceM
  split
  · exact absurd ‹_› h
  · rfl

theorem compileStageM_lift (d : Disk) (source : Path) :
    (p.compileStageM c.lift d source : m _) = pure (p.compileStage c d source) := by
  unfold compileStageM
  split
  · rw [compileStage, if_pos ‹_›]
  · rw [Compiler.lift, pure_bind]
    rfl

theorem advanceM_lift (d : Disk) (x : Compilation) :
    (p.advanceM c.lift d x : m _) = pure (p.advance c d x) := by
  by_cases h : x.stage = .waiting
  · rw [advanceM_of_waiting h, compileStageM_lift, map_pure, advance_of_waiting h]
  · exact advanceM_of_ne_waiting h

theorem interleaveM_lift (turns : List Nat) (d : Disk) (xs : List Compilation) :
    (p.interleaveM c.lift turns d xs : m _) = pure (p.interleave c turns d xs) := by
  induction turns generalizing d xs with
  | nil => rfl
  | cons i turns ih =>
    rw [interleaveM, interleave]
    cases xs[i]? with
    | none => exact ih d xs
    | some x =>
      dsimp only
      rw [advanceM_lift, pure_bind]
      exact ih _ _

theorem compileAllM_lift (d : Disk) (plan : List PlanEntry) :
    (p.compileAllM c.lift d plan : m _) = pure (p.compileAll c d plan) := by
  unfold compileAllM compileAll
  split
  · exact compileInTurnM_lift plan d
  · rw [compileTogetherM, compileTogether, interleaveM_lift, pure_bind]

/-- **Without effects** a plan is carried out as it is. -/
theorem executeM_lift (d : Disk) (plan : List PlanEntry) :
    (p.executeM c.lift d plan : m _) = pure (p.execute c d plan) := by
  unfold executeM execute
  split
  · rfl
  · generalize (if p.dryRun then (d, (.ok () : Except FileError Unit))
      else d.createDirAll p.project.targetDir.path) = target
    obtain ⟨d', made⟩ := target
    cases made with
    | error e => rfl
    | ok =>
      dsimp only
      rw [compileAllM_lift, pure_bind]

/-! ### Dry runs -/

omit [LawfulMonad m] in
theorem compileInTurnM_of_dryRun (hdry : p.dryRun = true) (cm cm' : CompilerM m) (d : Disk)
    (plan : List PlanEntry) : p.compileInTurnM cm d plan = p.compileInTurnM cm' d plan := by
  induction plan generalizing d with
  | nil => rfl
  | cons entry plan ih =>
    rw [compileInTurnM, compileInTurnM, compileOneM, compileOneM, if_pos hdry, if_pos hdry]
    simp only [ih]

omit [LawfulMonad m] in
theorem interleaveM_of_dryRun (hdry : p.dryRun = true) (cm cm' : CompilerM m) (turns : List Nat)
    (d : Disk) (xs : List Compilation) :
    p.interleaveM cm turns d xs = p.interleaveM cm' turns d xs := by
  induction turns generalizing d xs with
  | nil => rfl
  | cons i turns ih =>
    have hadvance : ∀ x, p.advanceM cm d x = p.advanceM cm' d x := by
      intro x
      unfold advanceM compileStageM
      rw [if_pos hdry, if_pos hdry]
    rw [interleaveM, interleaveM]
    simp only [ih, hadvance]

omit [LawfulMonad m] in
theorem executeM_congr_of_dryRun (hdry : p.dryRun = true) (cm cm' : CompilerM m) (d : Disk)
    (plan : List PlanEntry) : p.executeM cm d plan = p.executeM cm' d plan := by
  have hall : ∀ d, p.compileAllM cm d plan = p.compileAllM cm' d plan := by
    intro d
    unfold compileAllM compileTogetherM
    rw [compileInTurnM_of_dryRun hdry cm cm', interleaveM_of_dryRun hdry cm cm']
  unfold executeM
  simp only [hall]

/-- **A dry run does not ask the compiler**, whatever effects that would have. -/
theorem executeM_of_dryRun (hdry : p.dryRun = true) (d : Disk) (plan : List PlanEntry) :
    p.executeM cm d plan = pure (d, .ok ⟨plan.map skipped⟩) := by
  rw [executeM_congr_of_dryRun hdry cm (Compiler.lift fun _ _ _ => .ok ""), executeM_lift,
    execute_of_dryRun hdry]

end Lawful

end Pipeline

end Effects

/-! ### Compilers that write down their calls -/

/-- A source that the compiler has been asked for, with its answer. -/
structure Call where
  source : Path
  answer : Except CompileError String

/-- The compiler that writes down its calls. -/
def Compiler.logged (c : Compiler) : CompilerM (StateM (List Call)) := fun d source options => do
  modify (· ++ [⟨source, c d source options⟩])
  pure (c d source options)

namespace Pipeline

variable {p : Pipeline} {c : Compiler} {d d' made : Disk} {plan : List PlanEntry} {r : BuildResult}

/-- The call for an entry on a disk. -/
def call (p : Pipeline) (c : Compiler) (step : Disk × PlanEntry) : Call :=
  ⟨step.2.1, c step.1 step.2.1 p.project.compileOptions⟩

/-- The calls of the compiler for a plan. -/
def calls (p : Pipeline) (c : Compiler) (d : Disk) (plan : List PlanEntry) : List Call :=
  ((p.executeM c.logged d plan).run []).2

theorem run_compileOneM (hdry : p.dryRun = false) (d : Disk) (entry : PlanEntry)
    (log : List Call) : (p.compileOneM c.logged d entry).run log
      = pure (p.compileOne c d entry, log ++ [p.call c (d, entry)]) := by
  have hanswer : p.compileOne (fun _ _ _ => c d entry.1 p.project.compileOptions) d entry
      = p.compileOne c d entry := rfl
  rw [compileOneM, hdry, if_neg Bool.false_ne_true, ← hanswer]
  rfl

theorem run_compileInTurnM (hdry : p.dryRun = false) (plan : List PlanEntry) (d : Disk)
    (log : List Call) : (p.compileInTurnM c.logged d plan).run log
      = pure (p.compileInTurn c d plan, log ++ (p.steps c d plan).map (p.call c)) := by
  induction plan generalizing d log with
  | nil =>
    rw [steps, List.map_nil, List.append_nil]
    rfl
  | cons entry plan ih =>
    rw [compileInTurnM, compileInTurn, steps, StateT.run_bind, run_compileOneM hdry]
    dsimp only
    rw [pure_bind]
    split
    · rfl
    · rw [StateT.run_bind, ih, pure_bind, List.map_cons, ← List.append_cons]
      rfl

theorem run_advanceM_of_waiting (hdry : p.dryRun = false) {x : Compilation}
    (h : x.stage = .waiting) (log : List Call) : (p.advanceM c.logged d x).run log
      = pure (p.advance c d x, log ++ [p.call c (d, x.entry)]) := by
  have hanswer : p.compileStage (fun _ _ _ => c d x.entry.1 p.project.compileOptions) d x.entry.1
      = p.compileStage c d x.entry.1 := rfl
  rw [advanceM_of_waiting h, advance_of_waiting h, compileStageM, hdry, if_neg Bool.false_ne_true,
    ← hanswer]
  rfl

theorem run_interleaveM (hdry : p.dryRun = false) (turns : List Nat) (d : Disk)
    (xs : List Compilation) (log : List Call) : (p.interleaveM c.logged turns d xs).run log
      = pure (p.interleave c turns d xs,
          log ++ (p.begun c turns d xs).map fun step => p.call c step.2) := by
  induction turns generalizing d xs log with
  | nil =>
    rw [begun, List.map_nil, List.append_nil]
    rfl
  | cons i turns ih =>
    rw [interleaveM]
    cases hx : xs[i]? with
    | none =>
      rw [interleave_cons_of_none hx, begun_cons_of_none hx]
      exact ih d xs log
    | some x =>
      rw [interleave_cons_of_some hx, begun_cons_of_some hx]
      dsimp only
      rw [StateT.run_bind]
      split
      · rename_i hwaiting
        rw [run_advanceM_of_waiting hdry hwaiting, pure_bind, ih, List.map_cons,
          ← List.append_cons]
      · rename_i hwaiting
        rw [advanceM_of_ne_waiting hwaiting, StateT.run_pure, pure_bind, ih]

/-- The entries of a plan that the compiler is asked for, each with the disk that its source is
compiled on. -/
def asked (p : Pipeline) (c : Compiler) (d : Disk) (plan : List PlanEntry) :
    List (Disk × PlanEntry) :=
  if p.isSequential plan then p.steps c d plan
  else (p.begun c (p.schedule.turns plan.length) d (plan.map .start)).map Prod.snd

theorem run_compileAllM (hdry : p.dryRun = false) (d : Disk) (plan : List PlanEntry)
    (log : List Call) : (p.compileAllM c.logged d plan).run log
      = pure (p.compileAll c d plan, log ++ (p.asked c d plan).map (p.call c)) := by
  unfold compileAllM compileAll asked
  split
  · exact run_compileInTurnM hdry plan d log
  · rw [compileTogetherM, StateT.run_bind, run_interleaveM hdry, pure_bind, List.map_map]
    rfl

theorem run_executeM_of_made (hdry : p.dryRun = false) (hne : plan ≠ [])
    (hmade : d.createDirAll p.project.targetDir.path = (made, .ok ())) :
    (p.executeM c.logged d plan).run []
      = pure (p.execute c d plan, (p.asked c made plan).map (p.call c)) := by
  have hempty : plan.isEmpty = false := by simpa using hne
  rw [executeM, execute, hempty, hdry, if_neg Bool.false_ne_true, if_neg Bool.false_ne_true,
    if_neg Bool.false_ne_true, hmade]
  dsimp only
  rw [StateT.run_bind, run_compileAllM hdry, pure_bind]
  rfl

theorem run_executeM_of_error {e : FileError} (hdry : p.dryRun = false) (hne : plan ≠ [])
    (hmade : d.createDirAll p.project.targetDir.path = (made, .error e)) :
    (p.executeM c.logged d plan).run [] = pure (p.execute c d plan, []) := by
  have hempty : plan.isEmpty = false := by simpa using hne
  rw [executeM, execute, hempty, hdry, if_neg Bool.false_ne_true, if_neg Bool.false_ne_true,
    if_neg Bool.false_ne_true, hmade]
  rfl

/-- **The outcome does not depend on the calls being written down.** -/
theorem run_executeM (p : Pipeline) (c : Compiler) (d : Disk) (plan : List PlanEntry) :
    (p.executeM c.logged d plan).run [] = pure (p.execute c d plan, p.calls c d plan) := by
  refine Prod.ext ?_ rfl
  by_cases hne : plan = []
  · rw [hne]
    rfl
  cases hdry : p.dryRun with
  | true =>
    rw [executeM_of_dryRun hdry, execute_of_dryRun hdry]
    rfl
  | false =>
    cases hmade : d.createDirAll p.project.targetDir.path with
    | mk made outcome =>
      cases outcome with
      | error e =>
        rw [run_executeM_of_error hdry hne hmade]
        rfl
      | ok done =>
        rw [run_executeM_of_made hdry hne hmade]
        rfl

theorem calls_of_dryRun (hdry : p.dryRun = true) (d : Disk) (plan : List PlanEntry) :
    p.calls c d plan = [] := by
  rw [calls, executeM_of_dryRun hdry]
  rfl

theorem calls_of_error {e : BuildError} (h : p.execute c d plan = (d', .error e)) :
    p.calls c d plan = [] := by
  cases hdry : p.dryRun with
  | true => exact calls_of_dryRun hdry d plan
  | false =>
    by_cases hne : plan = []
    · rw [hne]
      rfl
    cases hmade : d.createDirAll p.project.targetDir.path with
    | mk made outcome =>
      cases outcome with
      | error e =>
        rw [calls, run_executeM_of_error hdry hne hmade]
        rfl
      | ok done =>
        obtain ⟨left, r, hok⟩ := (exists_execute_iff (c := c) hne).mpr fun _ => by rw [hmade]
        rw [h] at hok
        cases hok

theorem asked_nil (p : Pipeline) (c : Compiler) (d : Disk) : p.asked c d [] = [] := by
  unfold asked
  split
  · rfl
  · have hbegun := (map_fst_begun_start (p := p) (c := c) p.schedule d []).trans
      (p.schedule.perm_order 0).eq_nil
    rw [List.map_eq_nil_iff] at hbegun ⊢
    exact hbegun

/-- **The calls of a build** are those for the entries that it asks for, in order. -/
theorem exists_calls_of_execute (hdry : p.dryRun = false) (h : p.execute c d plan = (d', .ok r)) :
    ∃ made, p.compileAll c made plan = (d', r.results) ∧ d.DirsAdded made ∧
      p.calls c d plan = (p.asked c made plan).map (p.call c) := by
  obtain ⟨made, hdone, hadded, hmade⟩ := exists_compileAll_of_execute h
  refine ⟨made, hdone, hadded, ?_⟩
  by_cases hne : plan = []
  · rw [hne, asked_nil]
    rfl
  · rw [calls, run_executeM_of_made hdry hne (hmade hdry hne)]
    rfl

/-! ### Builds that a failure ends -/

/-- The results are those of the first entries of a plan, up to the first that fails. -/
structure UpToFailure (plan : List PlanEntry) (results : List CompileResult) : Prop where
  entries : results.map CompileResult.entry <+: plan
  before : ∀ x ∈ results.dropLast, x.isFailure = false
  stops : results.map CompileResult.entry = plan ∨ ∃ x ∈ results.getLast?, x.isFailure = true

namespace UpToFailure

variable {results : List CompileResult} {x : CompileResult}

theorem nil : UpToFailure [] [] :=
  ⟨List.prefix_refl _, by simp, Or.inl rfl⟩

theorem stop (hx : x.isFailure = true) (plan : List PlanEntry) :
    UpToFailure (x.entry :: plan) [x] := by
  refine ⟨List.cons_prefix_cons.mpr ⟨rfl, List.nil_prefix⟩, by simp, Or.inr ⟨x, by simp, hx⟩⟩

theorem cons (hx : x.isFailure = false) (h : UpToFailure plan results) :
    UpToFailure (x.entry :: plan) (x :: results) := by
  refine ⟨List.cons_prefix_cons.mpr ⟨rfl, h.entries⟩, ?_, ?_⟩
  · cases results with
    | nil => simp
    | cons y results =>
      rw [List.dropLast_cons_of_ne_nil (List.cons_ne_nil y results)]
      exact List.forall_mem_cons.mpr ⟨hx, h.before⟩
  · rcases h.stops with hall | ⟨y, hy, hfail⟩
    · exact Or.inl (by rw [List.map_cons, hall])
    · refine Or.inr ⟨y, ?_, hfail⟩
      rw [List.getLast?_cons, Option.mem_def.mp hy]
      rfl

end UpToFailure

theorem upToFailure_compileInTurn (hfast : p.failFast = true) (plan : List PlanEntry) (d : Disk) :
    UpToFailure plan (p.compileInTurn c d plan).2 := by
  induction plan generalizing d with
  | nil => exact .nil
  | cons entry plan ih =>
    have hentry := entry_compileOne (p := p) (c := c) d entry
    rw [compileInTurn, hfast]
    dsimp only
    rw [Bool.true_and]
    cases hfail : (p.compileOne c d entry).2.isFailure with
    | true =>
      rw [if_pos rfl]
      have hstop := UpToFailure.stop hfail plan
      rwa [hentry] at hstop
    | false =>
      rw [if_neg Bool.false_ne_true]
      have hcons := UpToFailure.cons hfail (ih (p.compileOne c d entry).1)
      rwa [hentry] at hcons

/-! ### Results and calls -/

/-- What a build reports and what it asks the compiler for. -/
structure Reported (p : Pipeline) (plan : List PlanEntry) (results : List CompileResult)
    (calls : List Call) : Prop where
  /-- Unless a failure ends the build, each entry has one result, in the order of the plan. -/
  all : p.failFast = false → results.map CompileResult.entry = plan
  /-- Otherwise the entries up to the first failure have. -/
  upToFailure : p.failFast = true → UpToFailure plan results
  /-- The compiler is asked once for each result, and for nothing else. -/
  asked : p.dryRun = false → (calls.map Call.source).Perm (results.map CompileResult.source)
  /-- Where one entry is compiled after the other, it is asked in the order of the results. -/
  inTurn : p.dryRun = false → p.isSequential plan = true →
    calls.map Call.source = results.map CompileResult.source

/-- Where one entry is compiled after the other, the compiler is asked for them in order. -/
theorem map_entry_steps (plan : List PlanEntry) (d : Disk) :
    (p.steps c d plan).map Prod.snd = (p.compileInTurn c d plan).2.map CompileResult.entry := by
  rw [snd_compileInTurn, List.map_map]
  exact List.map_congr_left fun step _ => (entry_compileOne step.1 step.2).symm

/-- **The compiler is asked for each entry that has a result**, once. -/
theorem perm_asked (d : Disk) (plan : List PlanEntry) :
    ((p.asked c d plan).map Prod.snd).Perm
      ((p.compileAll c d plan).2.map CompileResult.entry) := by
  unfold asked compileAll
  split
  · rw [map_entry_steps]
  · rw [map_entry_compileTogether, List.map_map]
    exact perm_begun p.schedule d plan

theorem map_source_call (steps : List (Disk × PlanEntry)) :
    (steps.map (p.call c)).map Call.source = (steps.map Prod.snd).map Prod.fst := by
  rw [List.map_map, List.map_map]
  rfl

theorem map_fst_entry (results : List CompileResult) :
    (results.map CompileResult.entry).map Prod.fst = results.map CompileResult.source := by
  rw [List.map_map]
  rfl

theorem reported_execute (h : p.execute c d plan = (d', .ok r)) :
    p.Reported plan r.results (p.calls c d plan) := by
  refine ⟨fun hfast => ?all, fun hfast => ?upToFailure, fun hdry => ?asked,
    fun hdry hsequential => ?inTurn⟩
  case all =>
    exact map_entry_execute h fun hfail => absurd (hfail.symm.trans hfast) Bool.noConfusion
  case upToFailure =>
    obtain ⟨made, hdone, -⟩ := exists_compileAll_of_execute h
    rw [compileAll, if_pos (isSequential_of_failFast hfast)] at hdone
    have hturn := upToFailure_compileInTurn (c := c) hfast plan made
    rwa [hdone] at hturn
  case asked =>
    obtain ⟨made, hdone, -, hcalls⟩ := exists_calls_of_execute hdry h
    have hperm := perm_asked (p := p) (c := c) made plan
    rw [hdone] at hperm
    rw [hcalls, map_source_call, ← map_fst_entry]
    exact hperm.map Prod.fst
  case inTurn =>
    obtain ⟨made, hdone, -, hcalls⟩ := exists_calls_of_execute hdry h
    rw [compileAll, if_pos hsequential] at hdone
    rw [hcalls, map_source_call, asked, if_pos hsequential, map_entry_steps, map_fst_entry, hdone]

/-- **What a build reports.**  It runs if the target directory can be made or nothing is to be
written.  Then it reports each entry of the plan, up to the first failure if that ends it, and has
asked the compiler once for each entry reported.  A dry run asks for nothing, changes nothing, and
reports the entries that a build of all of the plan reports. -/
theorem execute_reported (p : Pipeline) (c : Compiler) (d : Disk) (plan : List PlanEntry) :
    (p.executeM c.logged d plan).run [] = (p.execute c d plan, p.calls c d plan) ∧
    ((∃ d' r, p.execute c d plan = (d', .ok r)) ↔ plan = [] ∨ p.dryRun = true ∨
      (d.createDirAll p.project.targetDir.path).2 = .ok ()) ∧
    (∀ d' e, p.execute c d plan = (d', .error e) → p.calls c d plan = []) ∧
    (∀ d' r, p.execute c d plan = (d', .ok r) → p.Reported plan r.results (p.calls c d plan)) ∧
    (p.dryRun = true → p.calls c d plan = [] ∧
      p.execute c d plan = (d, .ok ⟨plan.map skipped⟩) ∧
      ∀ q : Pipeline, q.project = p.project → q.failFast = false → ∀ c' d' r,
        q.build c' d = (d', .ok r) → ∃ s, p.build c d = (d, .ok s) ∧
          s.results.map CompileResult.entry = r.results.map CompileResult.entry) := by
  refine ⟨run_executeM p c d plan, ?runs, fun d' e => calls_of_error,
    fun d' r => reported_execute, fun hdry => ⟨calls_of_dryRun hdry d plan,
      execute_of_dryRun hdry d plan, fun q hproject hfast c' d' r hbuild => ?dry⟩⟩
  case runs =>
    by_cases hne : plan = []
    · rw [hne]
      exact iff_of_true ⟨d, ⟨[]⟩, rfl⟩ (Or.inl rfl)
    · rw [exists_execute_iff hne]
      cases p.dryRun <;> simp [hne]
  case dry =>
    -- Both have the same plan, for it is made from the project alone.
    have hplan : q.plan d = p.plan d := by
      rw [Pipeline.plan, Pipeline.plan, hproject]
    rw [build, hplan] at hbuild
    rw [build]
    cases hplanned : p.plan d with
    | error e =>
      rw [hplanned] at hbuild
      cases hbuild
    | ok planned =>
      rw [hplanned] at hbuild
      dsimp only at hbuild ⊢
      have hentries := (reported_execute hbuild).all hfast
      refine ⟨_, execute_of_dryRun hdry d planned, ?_⟩
      rw [hentries, List.map_map]
      exact List.map_id _

end Pipeline

/-- A plan of two entries. -/
def coverPlan : List PlanEntry :=
  [((sheetDir.entry coverScss).path, ⟨"/public/cover.css"⟩),
    ((sheetDir.entry indexScss).path, ⟨"/public/index.css"⟩)]

/-- A compiler that refuses every source. -/
def refusingCompiler : Compiler := fun _ source _ => .error { file := source, message := "refused" }

/-- A pipeline that ends with the first failure. -/
def hastyPipeline : Pipeline := { sheetPipeline with failFast := true }

/-- Two sources, of which the first fails: there is one result, and one call. -/
theorem execute_reported_failure : ∃ d' r,
    hastyPipeline.execute refusingCompiler (sheetDisk coverScss indexScss) coverPlan
      = (d', .ok r) ∧
    hastyPipeline.Reported coverPlan r.results
      (hastyPipeline.calls refusingCompiler (sheetDisk coverScss indexScss) coverPlan) ∧
    r.results.length = 1 ∧
    (hastyPipeline.calls refusingCompiler (sheetDisk coverScss indexScss) coverPlan).length
      = 1 := by
  obtain ⟨-, hruns, -, hreported, -⟩ := Pipeline.execute_reported hastyPipeline refusingCompiler
    (sheetDisk coverScss indexScss) coverPlan
  obtain ⟨d', r, h⟩ := hruns.mpr (Or.inr (Or.inr (by decide +kernel)))
  have hall := hreported d' r h
  have hone : r.results.length = 1 := by
    have hlength : (hastyPipeline.execute refusingCompiler (sheetDisk coverScss indexScss)
        coverPlan).2.toOption.map (fun r => r.results.length) = some 1 := by
      decide +kernel
    rw [h] at hlength
    exact Option.some.inj hlength
  refine ⟨d', r, h, hall, hone, ?_⟩
  rw [← List.length_map Call.source, hall.inTurn rfl rfl, List.length_map, hone]

end SheetGraph
