import SheetGraph.Build.Duration
import SheetGraph.Compile.Failure

/-!
# Results of a build

What became of each source, how many of them fared how, and a summary of all.
-/

namespace SheetGraph

/-- How a source fared, in words. -/
inductive BuildStatus where
  | success
  | skipped
  | failed (reason : String)
  deriving DecidableEq

namespace BuildStatus

/-- Whether nothing went wrong. -/
def isSuccess : BuildStatus → Bool
  | failed _ => false
  | _ => true

/-- Whether something went wrong. -/
def isFailure (s : BuildStatus) : Bool :=
  !s.isSuccess

/-- The wording of the status. -/
def display : BuildStatus → String
  | success => "success"
  | skipped => "skipped"
  | failed reason => s!"failed: {reason}"

end BuildStatus

/-- What became of a source. -/
inductive CompileOutcome where
  /-- It was compiled and its output was written. -/
  | success
  /-- It was not compiled, as nothing was to be. -/
  | skipped
  /-- It could not be compiled, or its output could not be written. -/
  | failed (e : CompileError)
  deriving DecidableEq

/-- What became of one source. -/
structure CompileResult where
  source : Path
  destination : Path
  outcome : CompileOutcome
  deriving DecidableEq

namespace CompileResult

/-- The status in words. -/
def status (r : CompileResult) : BuildStatus :=
  match r.outcome with
  | .success => .success
  | .skipped => .skipped
  | .failed e => .failed e.display

/-- The error of a source that failed. -/
def error? (r : CompileResult) : Option CompileError :=
  match r.outcome with
  | .failed e => some e
  | _ => none

/-- Whether the source was compiled. -/
def isCompiled (r : CompileResult) : Bool :=
  r.outcome = .success

/-- Whether the source was skipped. -/
def isSkipped (r : CompileResult) : Bool :=
  r.outcome = .skipped

/-- Whether the source failed. -/
def isFailure (r : CompileResult) : Bool :=
  r.error?.isSome

end CompileResult

/-- What became of the sources of a build. -/
structure BuildResult where
  results : List CompileResult
  deriving DecidableEq

namespace BuildResult

/-- The number of sources that were compiled. -/
def compiledCount (b : BuildResult) : Nat :=
  b.results.countP (·.isCompiled)

/-- The number of sources that were skipped. -/
def skippedCount (b : BuildResult) : Nat :=
  b.results.countP (·.isSkipped)

/-- The number of sources that failed. -/
def failedCount (b : BuildResult) : Nat :=
  b.results.countP (·.isFailure)

/-- Whether no source failed. -/
def isSuccess (b : BuildResult) : Bool :=
  b.failedCount == 0

/-- The outputs that were written. -/
def outputs (b : BuildResult) : List Path :=
  (b.results.filter (·.isCompiled)).map (·.destination)

/-- The results of the sources that failed. -/
def failures (b : BuildResult) : List CompileResult :=
  b.results.filter (·.isFailure)

/-- The errors of the sources that failed. -/
def errors (b : BuildResult) : List CompileError :=
  b.results.filterMap (·.error?)

/-- The line of the summary for a source that failed. -/
def failureLine (r : CompileResult) : String :=
  let source := r.source
  let status := r.status.display
  s!"  - {source}: {status}"

/-- **The summary of a build** that took `nanos` nanoseconds. -/
def summary (b : BuildResult) (nanos : Nat) : String :=
  let compiled := b.compiledCount
  let skipped := b.skippedCount
  let failed := b.failedCount
  let total := b.results.length
  if 0 < failed then
    "\n".intercalate
      (s!"Build failed: {compiled} compiled, {skipped} skipped, {failed} failed ({total} total)" ::
        b.failures.map failureLine)
  else
    let duration := durationText nanos
    s!"Build succeeded: {compiled} compiled, {skipped} skipped ({total} total) in {duration}"

end BuildResult

end SheetGraph
