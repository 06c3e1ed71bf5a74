import SheetGraph.Proofs.Build.Calls
import SheetGraph.Proofs.Build.Footprint

/-!
# Contents of the outputs

After a build an output that one source that succeeded has holds what the compiler returned for that
source.  Where the entries are compiled one after the other, an output that several of them have
holds what was returned for the last.  Where compilations overlap, it may hold something else, which
is why nothing is said of it there.  A source that fails writes nothing, so its output is what it
was before; and all else is as it was, but for directories that were made (`Pipeline.Leaves`,
`Pipeline.execute_leaves`).

Two paths may lead to one file.  They do not if they are outputs of the project and no link is on
the way to them (`Pipeline.eq_of_sameFile`).
-/

namespace SheetGraph

/-- Of the members that have a property one is the last. -/
theorem exists_last_of_mem {α : Type} {P : α → Prop} {xs : List α} {x : α} (hx : x ∈ xs)
    (hP : P x) : ∃ before y after, xs = before ++ y :: after ∧ P y ∧ ∀ z ∈ after, ¬ P z := by
  induction xs using List.reverseRecOn with
  | nil => exact absurd hx List.not_mem_nil
  | append_singleton xs a ih =>
    by_cases ha : P a
    · exact ⟨xs, a, [], rfl, ha, by simp⟩
    · have hne : x ≠ a := by
        rintro rfl
        exact ha hP
      obtain ⟨before, y, after, rfl, hy, hafter⟩ :=
        ih ((List.mem_append.mp hx).resolve_right fun h => hne (List.mem_singleton.mp h))
      refine ⟨before, y, after ++ [a], by simp, hy, ?_⟩
      exact List.forall_mem_append.mpr ⟨hafter, List.forall_mem_singleton.mpr ha⟩

variable {d d' made : Disk} {k : Location}

/-! ### Files that paths lead to -/

namespace Disk

variable {q q' : Path}

/-- Both paths lead to the same file. -/
def SameFile (d : Disk) (q q' : Path) : Prop :=
  ∃ k, d.LeadsTo q k ∧ d.LeadsTo q' k

theorem readBytes_of_leadsTo {content : ByteArray} (h : d.LeadsTo q k)
    (hget : d.tree.get? k = some (.file content)) : d.readBytes q = .ok content := by
  obtain ⟨old, hfind⟩ := h
  have hold := (find_eq_ok_iff.mp hfind).2
  rw [hget] at hold
  cases hold
  rw [readBytes, hfind]

/-- A path that ends in a slash leads to a directory, if it leads anywhere. -/
theorem not_leadsTo_pathTo_nil {l r : Location} (h : d.find l.path = .ok (r, .directory)) :
    ¬ d.LeadsTo (l.pathTo []) k := by
  rintro ⟨content, hfind⟩
  obtain ⟨left, hleft⟩ := exists_look_pathTo h (List.not_mem_nil (a := '/'))
  obtain ⟨hlook, hget⟩ := find_eq_ok_iff.mp hfind
  rw [hleft, FileTree.walk_empty_cons, FileTree.walk_nil] at hlook
  cases hlook
  rw [(find_eq_ok_iff.mp h).2] at hget
  cases hget

end Disk

/-- The source directory itself has no name that could get another extension. -/
theorem Path.withExtension_ofNames_nil (ext : List Char) :
    (Path.ofNames []).withExtension ext = Path.ofNames [] := by
  have hname : (Path.ofNames []).fileName? = none := by decide
  rw [withExtension, hname]

theorem Location.join_ofNames_nil (l : Location) : l.path.join (Path.ofNames []) = l.pathTo [] := by
  have hrelative : (Path.ofNames []).isAbsolute = false := by decide
  have hempty : Path.ofNames []
      = Path.ofChars (['/'].intercalate (([] : List Name).map Name.chars ++ [[]])) := by decide
  rw [hempty] at hrelative ⊢
  rw [join_path l [] hrelative, below_nil]

/-- An output of a project has a place below the target directory, or its path is that of the target
directory with a slash behind it. -/
theorem Project.exists_output_of_destinationFor {p : Project} {l : Location} {q : Path}
    (h : p.destinationFor l = .ok (some q)) :
    q = p.targetDir.pathTo [] ∨ ∃ x : Output, q = x.path p.targetDir := by
  cases hfrom : p.sourceDir.from? l with
  | none =>
    have hnone : relativeFrom? l [p.sourceDir] = none := by
      rw [relativeFrom?, List.findSome?_cons, hfrom]
      rfl
    rw [destinationFor, hnone] at h
    cases h
  | some names =>
    rw [Location.from?_eq_some_iff.mp hfrom, destinationFor_below] at h
    cases hsuffix : p.settings.output.hashSuffix.filter (·.toList.contains '/') with
    | some suffix =>
      rw [destination, hsuffix] at h
      cases h
    | none =>
      rcases List.eq_nil_or_concat names with rfl | ⟨dirs, n, rfl⟩
      · rw [destination, hsuffix] at h
        dsimp only at h
        rw [Path.withExtension_ofNames_nil, Location.join_ofNames_nil] at h
        exact Or.inl (Option.some.inj (Except.ok.inj h)).symm
      · rw [List.concat_eq_append, destination_ofNames hsuffix, Output.join_relative] at h
        exact Or.inr ⟨_, (Option.some.inj (Except.ok.inj h)).symm⟩

/-- What leads to a file has a place below the target directory. -/
theorem Project.exists_output_of_leadsTo {p : Project} {l t : Location} {q : Path}
    (hfind : d.find p.targetDir.path = .ok (t, .directory))
    (h : p.destinationFor l = .ok (some q)) (hleads : d.LeadsTo q k) :
    ∃ x : Output, q = x.path p.targetDir := by
  rcases exists_output_of_destinationFor h with rfl | hx
  · exact absurd hleads (Disk.not_leadsTo_pathTo_nil hfind)
  · exact hx

/-- Outputs in the same place are the same. -/
theorem Disk.Ready.eq_of_sameFile {target t : Location} {outputs : List Output} {x y : Output}
    (h : d.Ready target t outputs) (hx : x ∈ outputs) (hy : y ∈ outputs)
    (hsame : d.SameFile (x.path target) (y.path target)) : x = y := by
  obtain ⟨k, ⟨content, hfind⟩, ⟨content', hfind'⟩⟩ := hsame
  obtain ⟨hname, hk⟩ := h.eq_of_find hx hfind
  obtain ⟨hname', hk'⟩ := h.eq_of_find hy hfind'
  obtain ⟨n, hn⟩ := Option.ne_none_iff_exists'.mp hname
  obtain ⟨n', hn'⟩ := Option.ne_none_iff_exists'.mp hname'
  have hnames : x.names = y.names :=
    List.append_cancel_left (congrArg Location.names (hk.symm.trans hk'))
  apply Output.components_injective
  rw [Output.components_of_name? hn, Output.components_of_name? hn', hnames]

namespace Pipeline

variable {p : Pipeline} {c : Compiler} {plan : List PlanEntry} {r : BuildResult}
  {step : Disk × PlanEntry}

/-! ### Entries that succeed -/

theorem exists_written?_of_isCompiled
    (h : (p.compileOne c step.1 step.2).2.isCompiled = true) : ∃ css,
      c step.1 step.2.1 p.project.compileOptions = .ok css ∧
      p.written? c step = some (step.2.2, css.toUTF8) := by
  rw [written?, if_pos h]
  cases hdry : p.dryRun with
  | true =>
    rw [compileOne_of_dryRun hdry] at h
    cases h
  | false =>
    cases hcss : c step.1 step.2.1 p.project.compileOptions with
    | error e =>
      rw [compileOne_of_error hdry hcss] at h
      cases h
    | ok css => exact ⟨css, rfl, rfl⟩

/-- The numbers of the entries of a plan in the order in which the compiler is asked for them. -/
def order (p : Pipeline) (plan : List PlanEntry) : List Nat :=
  if p.isSequential plan then List.range plan.length else p.schedule.order plan.length

/-- What a build leaves on the disk, where `same` tells whether two destinations are the same. -/
structure Leaves (p : Pipeline) (c : Compiler) (plan : List PlanEntry) (d : Disk)
    (results : List CompileResult) (d' : Disk) (same : Path → Path → Prop) : Prop where
  /-- What is not the output of a source that succeeded is as it was, or is a new directory. -/
  kept : ∀ k, (∀ x ∈ results, x.isCompiled = true → ¬ d'.LeadsTo x.destination k) →
    d'.tree.get? k = d.tree.get? k ∨ d.tree.get? k = none ∧ d'.tree.get? k = some .directory
  /-- The output of a source that succeeded is a file. -/
  there : ∀ x ∈ results, x.isCompiled = true → ∃ k, d'.LeadsTo x.destination k
  /-- If no other source that succeeded has the same output, it holds what the compiler returned
  when it was asked for that entry of the plan. -/
  alone : ∀ before x after, results = before ++ x :: after → x.isCompiled = true →
    (∀ y ∈ before ++ after, y.isCompiled = true → ¬ same x.destination y.destination) →
    ∃ (i : Nat) (css : String), (p.order plan)[i]? = some before.length ∧
      (p.calls c d plan)[i]? = some ⟨x.source, .ok css⟩ ∧
      d'.readBytes x.destination = .ok css.toUTF8
  /-- Where one entry is compiled after the other, it holds what the compiler returned for the last
  source that succeeded with the same output. -/
  last : p.isSequential plan = true → ∀ x ∈ results, x.isCompiled = true →
    ∃ before y after, results = before ++ y :: after ∧ y.isCompiled = true ∧
      same x.destination y.destination ∧
      (∀ z ∈ after, z.isCompiled = true → ¬ same x.destination z.destination) ∧
      ∃ css, (p.calls c d plan)[before.length]? = some ⟨y.source, .ok css⟩ ∧
        d'.readBytes x.destination = .ok css.toUTF8

/-! ### One after the other -/

section InTurn

variable (hstart : ∀ x ∈ plan, d.tree.isDirectory (d.start x.2) = true)
  {results before after : List CompileResult} {x : CompileResult}

include hstart in
theorem exists_leadsTo_compileInTurn (h : p.compileInTurn c d plan = (d', results)) :
    ∀ x ∈ results, x.isCompiled = true → ∃ k, d'.LeadsTo x.destination k := by
  intro x hx hcompiled
  obtain ⟨rfl, rfl⟩ := Prod.mk.inj h
  rw [snd_compileInTurn] at hx
  obtain ⟨step, hstep, rfl⟩ := List.mem_map.mp hx
  obtain ⟨css, -, hsome⟩ := exists_written?_of_isCompiled hcompiled
  rw [destination_compileOne]
  exact (afterWrites_compileInTurn plan d hstart).leads _
    (List.mem_filterMap.mpr ⟨step, hstep, hsome⟩)

include hstart in
/-- **A file holds what was written to it last.** -/
theorem get?_compileInTurn (h : p.compileInTurn c d plan = (d', before ++ x :: after))
    (hcompiled : x.isCompiled = true) (hk : d'.LeadsTo x.destination k)
    (hafter : ∀ y ∈ after, y.isCompiled = true → ¬ d'.LeadsTo y.destination k) :
    ∃ left css, (p.steps c d plan)[before.length]? = some (left, x.entry) ∧
      c left x.source p.project.compileOptions = .ok css ∧
      d'.tree.get? k = some (.file css.toUTF8) := by
  have hwritten := afterWrites_compileInTurn (p := p) (c := c) plan d hstart
  have hresults := snd_compileInTurn (p := p) (c := c) plan d
  rw [h] at hwritten hresults
  obtain ⟨front, rest, hsteps, rfl, hrest⟩ := List.map_eq_append_iff.mp hresults.symm
  obtain ⟨step, back, rfl, rfl, rfl⟩ := List.map_eq_cons_iff.mp hrest
  obtain ⟨css, hcss, hsome⟩ := exists_written?_of_isCompiled hcompiled
  rw [destination_compileOne] at hk
  have hwrites : (p.steps c d plan).filterMap (p.written? c) = front.filterMap (p.written? c) ++
      (step.2.2, css.toUTF8) :: back.filterMap (p.written? c) := by
    rw [hsteps, List.filterMap_append, List.filterMap_cons_some hsome]
  -- Nothing is written to the same file behind it.
  have hlater : ∀ v ∈ back.filterMap (p.written? c), ¬ d'.LeadsTo v.1 k := by
    intro v hv
    obtain ⟨later, hlater, hsome'⟩ := List.mem_filterMap.mp hv
    obtain ⟨hcompiled', hpath⟩ := isCompiled_of_written? hsome'
    have hnot := hafter _ (List.mem_map_of_mem hlater) hcompiled'
    rwa [destination_compileOne, ← hpath] at hnot
  refine ⟨step.1, css, ?_, ?_, hwritten.last _ _ _ k hwrites hk hlater⟩
  · rw [hsteps, List.length_map, List.getElem?_append_right (Nat.le_refl _), Nat.sub_self,
      entry_compileOne]
    rfl
  · rw [source_compileOne]
    exact hcss

end InTurn

/-! ### At the same time -/

section Together

variable (hstart : ∀ x ∈ plan, d.tree.isDirectory (d.start x.2) = true) {s : Schedule}
  {results before after : List CompileResult} {x : CompileResult}

include hstart in
theorem exists_leadsTo_compileTogether (h : p.compileTogether c s d plan = (d', results)) :
    ∀ x ∈ results, x.isCompiled = true → ∃ k, d'.LeadsTo x.destination k := by
  intro x hx hcompiled
  obtain ⟨rfl, rfl⟩ := Prod.mk.inj h
  obtain ⟨z, hz, hresult⟩ := List.mem_filterMap.mp hx
  obtain ⟨hentry, file, css, hstage⟩ := exists_written_of_isCompiled hz hresult hcompiled
  have hleads := (overlapping_interleave (s.turns plan.length) hstart).leads z hz (file, css.toUTF8)
    (by rw [hstage]; rfl)
  rw [← hentry] at hleads
  exact ⟨file, hleads⟩

omit hstart in
/-- A source that succeeded, among the compilations when all have come to their ends. -/
theorem exists_split_of_isCompiled
    (hresults : (p.compileTogether c s d plan).2 = before ++ x :: after)
    (hcompiled : x.isCompiled = true) : ∃ front z back file css,
      (p.interleave c (s.turns plan.length) d (plan.map .start)).2 = front ++ z :: back ∧
      (front ++ back).map result? = (before ++ after).map some ∧ front.length = before.length ∧
      x.entry = z.entry ∧ z.stage = .written file css := by
  have hmap := map_result?_interleave (p := p) (c := c) s d plan
  rw [hresults, List.map_append, List.map_cons] at hmap
  obtain ⟨front, rest, hxs, hfront, hrest⟩ := List.map_eq_append_iff.mp hmap
  obtain ⟨z, back, rfl, hz, hback⟩ := List.map_eq_cons_iff.mp hrest
  obtain ⟨hentry, file, css, hstage⟩ :=
    exists_written_of_isCompiled (by rw [hxs]; simp) hz hcompiled
  refine ⟨front, z, back, file, css, hxs, ?_, ?_, hentry, hstage⟩
  · rw [List.map_append, List.map_append, hfront, hback]
  · have hlengths := congrArg List.length hfront
    rwa [List.length_map, List.length_map] at hlengths

include hstart in
/-- **A file that one compilation has written** holds what that one wrote. -/
theorem get?_compileTogether (h : p.compileTogether c s d plan = (d', before ++ x :: after))
    (hcompiled : x.isCompiled = true) (hk : d'.LeadsTo x.destination k)
    (hothers : ∀ y ∈ before ++ after, y.isCompiled = true → ¬ d'.LeadsTo y.destination k) :
    ∃ left css,
      (before.length, left, x.entry) ∈ p.begun c (s.turns plan.length) d (plan.map .start) ∧
      c left x.source p.project.compileOptions = .ok css ∧
      d'.tree.get? k = some (.file css.toUTF8) := by
  obtain ⟨rfl, hresults⟩ := Prod.mk.inj h
  have hover := overlapping_interleave (p := p) (c := c) (s.turns plan.length) hstart
  obtain ⟨front, z, back, file, css, hxs, hrest, hlength, hentry, hstage⟩ :=
    exists_split_of_isCompiled hresults hcompiled
  have hzmem : z ∈ (p.interleave c (s.turns plan.length) d (plan.map .start)).2 := by
    rw [hxs]
    simp
  have hfile : z.stage.file? = some (file, css.toUTF8) := by
    rw [hstage]
    rfl
  have hleads := hover.leads z hzmem _ hfile
  rw [← hentry] at hleads
  obtain rfl : k = file := hk.eq hleads
  -- Whatever else had opened the file would have succeeded with it.
  have hnone : ∀ y ∈ front ++ back, ¬ y.holds k = true := by
    intro y hy hholds
    obtain ⟨f, hf, rfl⟩ := Compilation.holds_iff.mp hholds
    have hymem : y ∈ (p.interleave c (s.turns plan.length) d (plan.map .start)).2 := by
      rw [hxs]
      rcases List.mem_append.mp hy with hy | hy
      · exact List.mem_append_left _ hy
      · exact List.mem_append_right _ (List.mem_cons_of_mem z hy)
    obtain ⟨hresult, -⟩ := result?_of_file? (stepsLeft_of_fair s d plan y hymem) hf
    have hr := List.mem_map_of_mem (f := result?) hy
    rw [hrest, hresult] at hr
    obtain ⟨r, hr, hsame⟩ := List.mem_map.mp hr
    cases hsame
    exact hothers _ hr rfl (hover.leads y hymem f hf)
  have hcount : (p.interleave c (s.turns plan.length) d (plan.map .start)).2.countP (·.holds k)
      = 1 := by
    have hself : z.holds k = true := Compilation.holds_iff.mpr ⟨_, hfile, rfl⟩
    rw [hxs, List.perm_middle.countP_eq, List.countP_cons, List.countP_eq_zero.mpr hnone, hself]
    rfl
  have hz : (p.interleave c (s.turns plan.length) d (plan.map .start)).2[before.length]?
      = some z := by
    rw [hxs, ← hlength, List.getElem?_append_right (Nat.le_refl _), Nat.sub_self]
    rfl
  obtain ⟨left, hleft, hok⟩ := exists_begun_of_css?_start hz (by rw [hstage]; rfl)
  rw [← hentry] at hleft hok
  exact ⟨left, css, hleft, hok, hover.alone z hzmem _ hfile hcount⟩

end Together

/-! ### Either way -/

section All

variable (hstart : ∀ x ∈ plan, d.tree.isDirectory (d.start x.2) = true)
  {results before after : List CompileResult} {x : CompileResult}

include hstart in
theorem exists_leadsTo_compileAll (h : p.compileAll c d plan = (d', results)) :
    ∀ x ∈ results, x.isCompiled = true → ∃ k, d'.LeadsTo x.destination k := by
  unfold compileAll at h
  split at h
  · exact exists_leadsTo_compileInTurn hstart h
  · exact exists_leadsTo_compileTogether hstart h

include hstart in
/-- **A file that is the output of one source that succeeded** holds what the compiler returned when
it was asked for that source. -/
theorem get?_compileAll (h : p.compileAll c d plan = (d', before ++ x :: after))
    (hcompiled : x.isCompiled = true) (hk : d'.LeadsTo x.destination k)
    (hothers : ∀ y ∈ before ++ after, y.isCompiled = true → ¬ d'.LeadsTo y.destination k) :
    ∃ (i : Nat) (left : Disk) (css : String), (p.order plan)[i]? = some before.length ∧
      (p.asked c d plan)[i]? = some (left, x.entry) ∧
      c left x.source p.project.compileOptions = .ok css ∧
      d'.tree.get? k = some (.file css.toUTF8) := by
  unfold compileAll at h
  unfold order asked
  split at h
  · rename_i hsequential
    rw [if_pos hsequential, if_pos hsequential]
    obtain ⟨left, css, hleft, hok, hget⟩ := get?_compileInTurn hstart h hcompiled hk
      fun y hy => hothers y (List.mem_append_right before hy)
    -- In turn the entries are asked for as they stand in the plan.
    have hlt : before.length < plan.length := by
      have hle := (prefix_steps (p := p) (c := c) plan d).length_le
      rw [List.length_map] at hle
      exact Nat.lt_of_lt_of_le (List.getElem?_eq_some_iff.mp hleft).1 hle
    exact ⟨before.length, left, css, List.getElem?_range hlt, hleft, hok, hget⟩
  · rename_i hsequential
    rw [if_neg hsequential, if_neg hsequential]
    obtain ⟨left, css, hleft, hok, hget⟩ := get?_compileTogether hstart h hcompiled hk hothers
    obtain ⟨i, hi⟩ := List.mem_iff_getElem?.mp hleft
    refine ⟨i, left, css, ?_, ?_, hok, hget⟩
    · rw [← map_fst_begun_start (p := p) (c := c) p.schedule d, List.getElem?_map, hi]
      rfl
    · rw [List.getElem?_map, hi]
      rfl

end All

theorem isCompiled_of_dryRun (hdry : p.dryRun = true) (h : p.execute c d plan = (d', .ok r)) :
    ∀ x ∈ r.results, x.isCompiled = false := by
  rw [execute_of_dryRun hdry] at h
  cases h
  intro x hx
  obtain ⟨entry, -, rfl⟩ := List.mem_map.mp hx
  rfl

theorem dryRun_of_isCompiled (h : p.execute c d plan = (d', .ok r)) {x : CompileResult}
    (hx : x ∈ r.results) (hcompiled : x.isCompiled = true) : p.dryRun = false := by
  by_contra hdry
  rw [isCompiled_of_dryRun (Bool.not_eq_false _ ▸ hdry) h x hx] at hcompiled
  cases hcompiled

/-- What the compiler returned is written down with the calls. -/
theorem getElem?_map_call {steps : List (Disk × PlanEntry)} {i : Nat} {left : Disk}
    {x : CompileResult} {css : String} (hi : steps[i]? = some (left, x.entry))
    (hok : c left x.source p.project.compileOptions = .ok css) :
    (steps.map (p.call c))[i]? = some ⟨x.source, .ok css⟩ := by
  rw [List.getElem?_map, hi, Option.map_some, call, ← hok]
  rfl

/-- **A plan that is carried out** writes the outputs of the sources that succeed, and no more. -/
theorem leaves_execute (hstart : ∀ x ∈ plan, d.tree.isDirectory (d.start x.2) = true)
    (h : p.execute c d plan = (d', .ok r)) : p.Leaves c plan d r.results d' d'.SameFile := by
  cases hdry : p.dryRun with
  | true =>
    -- No source of a dry run succeeds.
    have hnone := isCompiled_of_dryRun hdry h
    rw [execute_of_dryRun hdry] at h
    cases h
    refine ⟨fun k _ => Or.inl rfl, fun x hx hcompiled => ?_,
      fun before x after hresults hcompiled => ?_, fun _ x hx hcompiled => ?_⟩
    · cases (hnone x hx).symm.trans hcompiled
    · cases (hnone x (by rw [hresults]; simp)).symm.trans hcompiled
    · cases (hnone x hx).symm.trans hcompiled
  | false =>
    have hfootprint := footprint_execute hstart h
    obtain ⟨made, hdone, hadded, hcalls⟩ := exists_calls_of_execute hdry h
    have hstart' : ∀ x ∈ plan, made.tree.isDirectory (made.start x.2) = true := fun x hx =>
      Disk.isDirectory_start_of_grows hadded.grows hadded.cwd_eq (hstart x hx)
    have hthere := exists_leadsTo_compileAll hstart' hdone
    refine ⟨fun k hk => ?kept, hthere, fun before x after hresults hcompiled hothers => ?alone,
      fun hsequential x hx hcompiled => ?last⟩
    case kept =>
      by_cases hsame : d'.tree.get? k = d.tree.get? k
      · exact Or.inl hsame
      · rcases hfootprint.changed k hsame with hdir | ⟨q, hq, hleads⟩
        · exact Or.inr hdir
        · obtain ⟨x, hx, rfl⟩ := List.mem_map.mp hq
          obtain ⟨hx, hcompiled⟩ := List.mem_filter.mp hx
          exact absurd hleads (hk x hx hcompiled)
    case alone =>
      obtain ⟨k, hk⟩ := hthere x (by rw [hresults]; simp) hcompiled
      rw [hresults] at hdone
      obtain ⟨i, left, css, horder, hasked, hok, hget⟩ := get?_compileAll hstart' hdone hcompiled hk
        fun y hy hy' hyk => hothers y hy hy' ⟨k, hk, hyk⟩
      refine ⟨i, css, horder, ?_, Disk.readBytes_of_leadsTo hk hget⟩
      rw [hcalls]
      exact getElem?_map_call hasked hok
    case last =>
      obtain ⟨k, hk⟩ := hthere x hx hcompiled
      obtain ⟨before, y, after, hresults, ⟨hy, hyk⟩, hafter⟩ :=
        exists_last_of_mem (P := fun y : CompileResult => y.isCompiled = true ∧
          d'.LeadsTo y.destination k) hx ⟨hcompiled, hk⟩
      rw [compileAll, if_pos hsequential, hresults] at hdone
      obtain ⟨left, css, hleft, hok, hget⟩ := get?_compileInTurn hstart' hdone hy hyk
        fun z hz hz' hzk => hafter z hz ⟨hz', hzk⟩
      refine ⟨before, y, after, hresults, hy, ⟨k, hk, hyk⟩, fun z hz hz' hsame => ?_, css, ?_,
        Disk.readBytes_of_leadsTo hk hget⟩
      · obtain ⟨l, hxl, hzl⟩ := hsame
        obtain rfl := hk.eq hxl
        exact hafter z hz ⟨hz', hzl⟩
      · rw [hcalls, asked, if_pos hsequential]
        exact getElem?_map_call hleft hok

/-! ### Outputs that no link is on the way to -/

/-- **Different outputs are different files**, if no link is on the way to them. -/
theorem eq_of_sameFile (hplan : ∀ x ∈ plan, ∃ l, p.project.destinationFor l = .ok (some x.2))
    (hlinks : p.project.NoLinkToOutputs plan d) (h : p.execute c d plan = (d', .ok r))
    (hdry : p.dryRun = false) {x y : CompileResult} (hx : x ∈ r.results) (hy : y ∈ r.results)
    (hsame : d'.SameFile x.destination y.destination) : x.destination = y.destination := by
  have hentry : ∀ z ∈ r.results, z.entry ∈ plan := fun z hz =>
    (prefix_execute h).subset (List.mem_map_of_mem hz)
  obtain ⟨made, hdone, -, hmade⟩ := exists_compileAll_of_execute h
  have hmade := hmade hdry (List.ne_nil_of_mem (hentry x hx))
  have hfootprint := footprint_compileAll (p := p) (c := c) plan made fun z hz => by
    obtain ⟨l, hl⟩ := hplan z hz
    exact isDirectory_start_of_isAbsolute (Project.isAbsolute_of_destinationFor hl) made
  rw [hdone] at hfootprint
  obtain ⟨t, htarget⟩ : ∃ t, made.Ready p.project.targetDir t [] :=
    Disk.exists_ready (by simp) hmade
  have hfind := (htarget.of_footprint hfootprint).find
  obtain ⟨k, hxk, hyk⟩ := hsame
  -- What leads to a file is no path with a slash behind it, so it has a place below the target.
  have houtput : ∀ z ∈ r.results, d'.LeadsTo z.destination k → ∃ w : Output,
      z.destination = w.path p.project.targetDir ∧ ∀ t,
        d.find p.project.targetDir.path = .ok (t, .directory) → d.tree.NoLinkOnWay t w.names := by
    intro z hz hleads
    obtain ⟨l, hl⟩ := hplan _ (hentry z hz)
    obtain ⟨w, hw⟩ := Project.exists_output_of_leadsTo hfind hl hleads
    exact ⟨w, hw, fun t ht => hlinks t ht _ (hentry z hz) w hw⟩
  obtain ⟨u, hu, hulinks⟩ := houtput x hx hxk
  obtain ⟨v, hv, hvlinks⟩ := houtput y hy hyk
  rw [hu] at hxk
  rw [hv] at hyk
  obtain ⟨s, hready⟩ : ∃ s, made.Ready p.project.targetDir s [u, v] :=
    Disk.exists_ready (fun t ht => by simp [hulinks t ht, hvlinks t ht]) hmade
  have huv := (hready.of_footprint hfootprint).eq_of_sameFile (x := u) (y := v) (by simp) (by simp)
    ⟨k, hxk, hyk⟩
  rw [hu, hv, huv]

/-- Destinations may be told apart in another way that comes to the same. -/
theorem Leaves.congr {results : List CompileResult} {same same' : Path → Path → Prop}
    (h : p.Leaves c plan d results d' same)
    (hsame : ∀ x ∈ results, ∀ y ∈ results, x.isCompiled = true →
      (same x.destination y.destination ↔ same' x.destination y.destination)) :
    p.Leaves c plan d results d' same' := by
  refine ⟨h.kept, h.there, fun before x after hresults hcompiled hothers => ?_,
    fun hsequential x hx hcompiled => ?_⟩
  · refine h.alone before x after hresults hcompiled fun y hy hcompiled' hxy => ?_
    refine hothers y hy hcompiled' ((hsame x ?_ y ?_ hcompiled).mp hxy)
    · rw [hresults]
      simp
    · rw [hresults]
      rcases List.mem_append.mp hy with hy | hy <;> simp [hy]
  · obtain ⟨before, y, after, hresults, hy, hxy, hafter, hcss⟩ := h.last hsequential x hx hcompiled
    refine ⟨before, y, after, hresults, hy, (hsame x hx y ?_ hcompiled).mp hxy,
      fun z hz hz' hxz => hafter z hz hz' ((hsame x hx z ?_ hcompiled).mpr hxz), hcss⟩
    · rw [hresults]
      simp
    · rw [hresults]
      simp [hz]

/-- Of two sources with one output, compiled one after the other, the second has it. -/
theorem Leaves.of_pair {x y : CompileResult} (h : p.Leaves c plan d [x, y] d' Eq)
    (hsequential : p.isSequential plan = true) (hcompiled : y.isCompiled = true)
    (hsame : x.destination = y.destination) :
    ∃ css, (p.calls c d plan)[1]? = some ⟨y.source, .ok css⟩ ∧
      d'.readBytes x.destination = .ok css.toUTF8 := by
  obtain ⟨before, z, after, hsplit, -, -, hafter, hcss⟩ :=
    h.last hsequential y (by simp) hcompiled
  match before with
  | [] =>
    obtain ⟨-, rfl⟩ := List.cons.inj hsplit
    exact absurd rfl (hafter y (List.mem_singleton_self y) hcompiled)
  | [_] =>
    obtain ⟨-, hsplit⟩ := List.cons.inj hsplit
    obtain ⟨rfl, -⟩ := List.cons.inj hsplit
    rw [hsame]
    exact hcss
  | _ :: _ :: _ =>
    have hlengths := congrArg List.length hsplit
    simp at hlengths

/-! ### Contents -/

/-- **What a build leaves.**  If it cannot run, it has made directories at most.  Otherwise it has
written the outputs of the sources that succeeded, and all else is as it was, but for new
directories.  An output of one such source holds what the compiler returned for it, and where one
entry is compiled after the other, an output of several holds what was returned for the last.  If no
link is on the way to the outputs of a project, they are told apart by their paths. -/
theorem execute_leaves (hstart : ∀ x ∈ plan, d.tree.isDirectory (d.start x.2) = true) :
    (∀ d' e, p.execute c d plan = (d', .error e) → d.DirsAdded d') ∧
    ∀ d' r, p.execute c d plan = (d', .ok r) →
      p.Leaves c plan d r.results d' d'.SameFile ∧
      ((∀ x ∈ plan, ∃ l, p.project.destinationFor l = .ok (some x.2)) →
        p.project.NoLinkToOutputs plan d → p.Leaves c plan d r.results d' Eq) := by
  refine ⟨fun d' e => dirsAdded_of_execute, fun d' r h => ?_⟩
  have hleaves := leaves_execute hstart h
  refine ⟨hleaves, fun hplan hlinks => ?_⟩
  refine hleaves.congr fun x hx y hy hcompiled => ⟨fun hsame =>
    eq_of_sameFile hplan hlinks h (dryRun_of_isCompiled h hx hcompiled) hx hy hsame, fun heq => ?_⟩
  obtain ⟨k, hk⟩ := hleaves.there x hx hcompiled
  exact ⟨k, hk, heq ▸ hk⟩

end Pipeline

/-- A pipeline that compiles one source after the other. -/
def singlePipeline : Pipeline := { sheetPipeline with jobs := 1 }

/-- A plan of two sources with one output. -/
def stemPlan : List PlanEntry :=
  [((sheetDir.entry coverSass).path, coverOutput.path),
    ((sheetDir.entry coverScss).path, coverOutput.path)]

/-- Two sources with one output, which holds what was compiled last. -/
theorem execute_leaves_stem : ∃ d' r,
    singlePipeline.execute (fun _ => pathCompiler) (sheetDisk coverSass coverScss) stemPlan
      = (d', .ok r) ∧
    singlePipeline.Leaves (fun _ => pathCompiler) stemPlan (sheetDisk coverSass coverScss)
      r.results d' Eq ∧
    ∃ css, (singlePipeline.calls (fun _ => pathCompiler) (sheetDisk coverSass coverScss)
        stemPlan)[1]? = some ⟨(sheetDir.entry coverScss).path, .ok css⟩ ∧
      d'.readBytes coverOutput.path = .ok css.toUTF8 := by
  have hresults : (singlePipeline.execute (fun _ => pathCompiler) (sheetDisk coverSass coverScss)
      stemPlan).2 = .ok ⟨[⟨(sheetDir.entry coverSass).path, coverOutput.path, .success⟩,
        ⟨(sheetDir.entry coverScss).path, coverOutput.path, .success⟩]⟩ := by
    decide +kernel
  have hstart : ∀ x ∈ stemPlan, (sheetDisk coverSass coverScss).tree.isDirectory
      ((sheetDisk coverSass coverScss).start x.2) = true := by
    decide +kernel
  have hplan : ∀ x ∈ stemPlan, ∃ l, singlePipeline.project.destinationFor l = .ok (some x.2) := by
    intro x hx
    rcases List.mem_pair.mp hx with rfl | rfl
    · exact ⟨sheetDir.entry coverSass, by decide +kernel⟩
    · exact ⟨sheetDir.entry coverScss, by decide +kernel⟩
  have hlinks : (sheetDisk coverSass coverScss).tree.LinkFree :=
    FileTree.linkFree_of_all (by decide +kernel)
  cases hexecute : singlePipeline.execute (fun _ => pathCompiler)
      (sheetDisk coverSass coverScss) stemPlan with
  | mk d' outcome =>
    rw [hexecute] at hresults
    subst hresults
    have hleaves := ((Pipeline.execute_leaves hstart).2 _ _ hexecute).2 hplan
      (Project.noLinkToOutputs_of_linkFree _ _ hlinks)
    exact ⟨d', _, rfl, hleaves, hleaves.of_pair rfl rfl rfl⟩

/-! ### Outputs that overlapping compilations share -/

/-- The schedule that gives each compilation one step at a time. -/
def Schedule.alternating : Schedule where
  turns n := (List.replicate Stage.waiting.stepsLeft (List.range n)).flatten
  fair n i hi := by
    rw [List.count_flatten, List.map_replicate, List.sum_replicate_nat,
      List.nodup_range.count, if_pos (List.mem_range.mpr hi), Nat.mul_one]

/-- A compiler that returns something longer for one of two sources. -/
def layerCompiler (source : Path) (_ : CompileOptions) : Except CompileError String :=
  .ok (if source = (sheetDir.entry coverSass).path then "@layer base, theme;" else "@layer a;")

/-- The place of the output when the target directory is a link. -/
def linkedCover : Location :=
  (⟨"elsewhere/cover.css"⟩ : Path).locateFrom .root

/-- A disk where the target directory is a link to a directory with a file in it. -/
def linkedTarget : Disk where
  tree := (((sheetDisk coverScss indexScss).tree.put linkedCover.parent .directory).put
    linkedCover (.file "kept".toUTF8)).put coverOutput.parent (.link ⟨"elsewhere"⟩)
  cwd := .root

/-- **Two things that a build may leave.**  Where two compilations that overlap have one output, it
may hold what was written last with the end of what was written before behind it, which the compiler
has returned for neither.  And where the target directory is a link, a file changes that is not in
the place of any output. -/
theorem torn_output_and_linked_target :
    (({ sheetPipeline with schedule := .alternating }.execute (fun _ => layerCompiler)
        (sheetDisk coverSass coverScss) stemPlan).2
      = .ok ⟨[⟨(sheetDir.entry coverSass).path, coverOutput.path, .success⟩,
          ⟨(sheetDir.entry coverScss).path, coverOutput.path, .success⟩]⟩ ∧
    ({ sheetPipeline with schedule := .alternating }.execute (fun _ => layerCompiler)
        (sheetDisk coverSass coverScss) stemPlan).1.readBytes coverOutput.path
      = .ok "@layer a;se, theme;".toUTF8 ∧
    ∀ source options, layerCompiler source options ≠ .ok "@layer a;se, theme;") ∧
    ((singlePipeline.execute (fun _ => layerCompiler) linkedTarget
        [((sheetDir.entry coverScss).path, coverOutput.path)]).2
      = .ok ⟨[⟨(sheetDir.entry coverScss).path, coverOutput.path, .success⟩]⟩ ∧
    coverOutput ≠ linkedCover ∧
    linkedTarget.tree.get? linkedCover = some (.file "kept".toUTF8) ∧
    (singlePipeline.execute (fun _ => layerCompiler) linkedTarget
        [((sheetDir.entry coverScss).path, coverOutput.path)]).1.tree.get? linkedCover
      = some (.file "@layer a;".toUTF8)) := by
  refine ⟨⟨by decide +kernel, by decide +kernel, fun source options htorn => ?_⟩,
    by decide +kernel⟩
  unfold layerCompiler at htorn
  split at htorn
  · exact absurd (Except.ok.inj htorn) (by decide)
  · exact absurd (Except.ok.inj htorn) (by decide)

end SheetGraph
