import SheetGraph.Build.Result

/-!
# Sources with errors

An `ErrorTracker` remembers the sources whose last compilation failed, across builds that compile
only some of them, and tells which of them a build has mended.
-/

namespace SheetGraph

/-- The sources whose last compilation failed. -/
structure ErrorTracker where
  failing : List Path
  deriving DecidableEq

namespace ErrorTracker

/-- The tracker before the first build. -/
def empty : ErrorTracker := ⟨[]⟩

/-- Whether the last compilation of a source failed. -/
def tracks (t : ErrorTracker) (source : Path) : Bool :=
  t.failing.any source.same

/-- The tracker after one more result, and the source if it is mended. -/
def note (t : ErrorTracker) (r : CompileResult) : ErrorTracker × List Path :=
  if r.isFailure then (if t.tracks r.source then t else ⟨t.failing ++ [r.source]⟩, [])
  else if t.tracks r.source then (⟨t.failing.filter fun p => !r.source.same p⟩, [r.source])
  else (t, [])

/-- The tracker after more results, and the sources that they have mended. -/
def noteAll (t : ErrorTracker) : List CompileResult → ErrorTracker × List Path
  | [] => (t, [])
  | r :: rs =>
    let (t, mended) := t.note r
    let (t, more) := noteAll t rs
    (t, mended ++ more)

/-- **The tracker after a build**, and the sources that it has mended, in order. -/
def update (t : ErrorTracker) (b : BuildResult) : ErrorTracker × List Path :=
  let (t, mended) := t.noteAll b.results
  (t, mended.mergeSort fun p q => (p.compare q).isLE)

/-- Whether the last compilation of any source failed. -/
def hasErrors (t : ErrorTracker) : Bool :=
  !t.failing.isEmpty

/-- The number of sources whose last compilation failed. -/
def errorCount (t : ErrorTracker) : Nat :=
  t.failing.length

end ErrorTracker

end SheetGraph
