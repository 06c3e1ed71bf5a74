import SheetGraph.Proofs.Build.Results
import SheetGraph.Proofs.Build.Writing

/-!
# Sources that are independent of each other

The compilations of a plan may be done at the same time.  If the compiler looks at nothing but the
path of a source and no output is in the way of another, then neither the results nor the disk tell
which turns they took (`build_independent`).  Two sources that differ in nothing but their
extensions have one output, and what it holds in the end is decided by the schedule
(`output_of_last`).

The stages that a compilation goes through are told by the disk before (`Pipeline.Foreseen`), and so
is what each of them leaves (`Written`).  A step of one compilation keeps both, whatever steps of
others have come in between (`Pipeline.foreseen_advance`), and there is only one end that is
foreseen (`Pipeline.Foreseen.eq_of_stepsLeft`).  Compilations in turn are those that keep the order
(`Pipeline.compileInTurn_eq_compileTogether`).
-/

namespace SheetGraph

variable {d d' left : Disk} {r target : Location} {ws ws' : List Writing} {outputs : List Output}

namespace Pipeline

variable {p : Pipeline} {c : Compiler} {plan : List PlanEntry} {x : Planned} {stage stage' : Stage}
  {f : Path → CompileOptions → Except CompileError String}

/-! ### One step -/

/-- The stages that the compilation of a source comes to, told by the disk before. -/
def Foreseen (p : Pipeline) (f : Path → CompileOptions → Except CompileError String) (d : Disk)
    (r : Location) (x : Planned) : Stage → Prop
  | .waiting => True
  | .compiled css => p.compileStage (fun _ => f) d x.source.path = .compiled css
  | .placed css => p.compileStage (fun _ => f) d x.source.path = .compiled css ∧
      ¬ d.tree.FileOnWay r x.output.dirs
  | .opened file css | .written file css =>
    p.compileStage (fun _ => f) d x.source.path = .compiled css ∧ x.output.Fits d.tree r ∧
      file = r.below x.output.names
  | .refused e => (∃ css, p.compileStage (fun _ => f) d x.source.path = .compiled css) ∧
      (d.tree.FileOnWay r x.output.dirs ∧ e = Disk.wayError d.tree r x.output.dirs ∨
        ¬ d.tree.FileOnWay r x.output.dirs ∧ ¬ x.output.Fits d.tree r ∧ e = .isDirectory)
  | .ended outcome => p.compileStage (fun _ => f) d x.source.path = .ended outcome

/-- What has become of the output of a source. -/
def writing? (x : Planned) : Stage → Option Writing
  | .placed _ | .refused _ => some ⟨x.output, none⟩
  | .opened _ _ => some ⟨x.output, some .empty⟩
  | .written _ css => some ⟨x.output, some css.toUTF8⟩
  | _ => none

theorem output_of_writing? {w : Writing} (h : writing? x stage = some w) : w.output = x.output := by
  unfold writing? at h
  split at h <;> cases h <;> rfl

/-- **Only one end is foreseen.** -/
theorem Foreseen.eq_of_stepsLeft (h : p.Foreseen f d r x stage) (h' : p.Foreseen f d r x stage')
    (hend : stage.stepsLeft = 0) (hend' : stage'.stepsLeft = 0) : stage = stage' := by
  rcases Stage.cases_of_stepsLeft hend with ⟨file, css, rfl⟩ | ⟨e, rfl⟩ | ⟨outcome, rfl⟩ <;>
    rcases Stage.cases_of_stepsLeft hend' with ⟨file', css', rfl⟩ | ⟨e', rfl⟩ | ⟨outcome', rfl⟩
  · obtain ⟨hcss, -, rfl⟩ := h
    obtain ⟨hcss', -, rfl⟩ := h'
    rw [hcss] at hcss'
    cases hcss'
    rfl
  · obtain ⟨-, hfits, -⟩ := h
    obtain ⟨-, ⟨hway, -⟩ | ⟨-, hnot, -⟩⟩ := h'
    · exact absurd hway hfits.1
    · exact absurd hfits hnot
  · obtain ⟨hcss, -⟩ := h
    cases hcss.symm.trans h'
  · obtain ⟨-, hfits, -⟩ := h'
    obtain ⟨-, ⟨hway, -⟩ | ⟨-, hnot, -⟩⟩ := h
    · exact absurd hway hfits.1
    · exact absurd hfits hnot
  · obtain ⟨-, ⟨hway, rfl⟩ | ⟨hway, -, rfl⟩⟩ := h <;>
      obtain ⟨-, ⟨hway', rfl⟩ | ⟨hway', -, rfl⟩⟩ := h'
    · rfl
    · exact absurd hway hway'
    · exact absurd hway' hway
    · rfl
  · obtain ⟨⟨css, hcss⟩, -⟩ := h
    cases hcss.symm.trans h'
  · obtain ⟨hcss, -⟩ := h'
    cases hcss.symm.trans h
  · obtain ⟨⟨css, hcss⟩, -⟩ := h'
    cases hcss.symm.trans h
  · cases h.symm.trans h'
    rfl

section Step

variable (hready : d.Ready target r outputs) (hx : x.output ∈ outputs)
  (hin : ∀ w ∈ ws ++ ws', w.output ∈ outputs) (hapart : ∀ w ∈ ws ++ ws', w.output.Apart x.output)

include hready hx hin hapart in
/-- The directory of an output is made, or a file is on the way as it was before. -/
theorem foreseen_makeDirectory {css : String} (h : Written d r (ws ++ ws') left)
    (hcss : p.compileStage (fun _ => f) d x.source.path = .compiled css) :
    p.Foreseen f d r x (outputStep left (x.output.path target) (.compiled css)).2 ∧
    Written d r (ws ++ (writing? x
        (outputStep left (x.output.path target) (.compiled css)).2).toList ++ ws')
      (outputStep left (x.output.path target) (.compiled css)).1 := by
  have hspares : ∀ w ∈ ws ++ ws', w.Spares x.output := fun w hw => Or.inr (hapart w hw)
  have hway := h.fileOnWay_iff hspares
  obtain ⟨hblocked, hclear⟩ := makeDirectory_path (h.ready hready hin) hx
  -- Either way the output comes to those that have got as far as their directories.
  have hmore : ∀ {made : Disk}, Written left r [⟨x.output, none⟩] made →
      Written d r (ws ++ [⟨x.output, none⟩] ++ ws') made := by
    intro made hmade
    refine (h.concat hmade (hready.links _ hx) hapart).congr fun w => ?_
    simp only [List.mem_append]
    exact or_right_comm
  by_cases hfile : d.tree.FileOnWay r x.output.dirs
  · have hstep : outputStep left (x.output.path target) (.compiled css)
        = (left, .refused (Disk.wayError left.tree r x.output.dirs)) := by
      rw [outputStep, hblocked (hway.mpr hfile)]
    rw [hstep]
    refine ⟨⟨⟨css, hcss⟩, Or.inl ⟨hfile, h.wayError_eq hspares⟩⟩, ?_⟩
    exact hmore (written_blocked (hway.mpr hfile))
  · have hfile' : ¬ left.tree.FileOnWay r x.output.dirs := fun hf => hfile (hway.mp hf)
    obtain ⟨made, hmade, hwaymade⟩ := hclear hfile'
    have hstep : outputStep left (x.output.path target) (.compiled css) = (made, .placed css) := by
      rw [outputStep, hmade]
    rw [hstep]
    exact ⟨⟨hcss, hfile⟩, hmore (hwaymade.written hfile')⟩

include hready hx hin hapart in
/-- The output is opened, or it cannot be as it could not before. -/
theorem foreseen_openEmpty {css : String}
    (h : Written d r (ws ++ [⟨x.output, none⟩] ++ ws') left)
    (hcss : p.compileStage (fun _ => f) d x.source.path = .compiled css)
    (hclear : ¬ d.tree.FileOnWay r x.output.dirs) :
    p.Foreseen f d r x (outputStep left (x.output.path target) (.placed css)).2 ∧
    Written d r (ws ++ (writing? x
        (outputStep left (x.output.path target) (.placed css)).2).toList ++ ws')
      (outputStep left (x.output.path target) (.placed css)).1 := by
  have hmem : ∀ w ∈ ws ++ [⟨x.output, none⟩] ++ ws', w = ⟨x.output, none⟩ ∨ w ∈ ws ++ ws' := by
    intro w hw
    simp only [List.mem_append, List.mem_singleton] at hw ⊢
    exact or_comm.mp (or_right_comm.mp hw)
  have hspares : ∀ w ∈ ws ++ [⟨x.output, none⟩] ++ ws', w.Spares x.output := fun w hw =>
    (hmem w hw).imp id (hapart w)
  have hready' := h.ready hready fun w hw => by
    rcases hmem w hw with rfl | hw
    · exact hx
    · exact hin w hw
  have hfits := h.fits_iff hspares
  have hclear' : ¬ left.tree.FileOnWay r x.output.dirs := fun hf =>
    hclear ((h.fileOnWay_iff hspares).mp hf)
  have hdir := h.directory ⟨x.output, none⟩ (by simp) hclear x.output.dirs (List.prefix_refl _)
  -- What the others have put on the disk makes no difference to whether it can be opened.
  obtain ⟨hrefused, hopened⟩ := openEmpty_path hready' hx hdir
  by_cases hfit : x.output.Fits d.tree r
  · obtain ⟨-, hname, hnot⟩ := hfits.mpr hfit
    have hstep : outputStep left (x.output.path target) (.placed css)
        = (⟨left.tree.put (r.below x.output.names) (.file .empty), left.cwd⟩,
          .opened (r.below x.output.names) css) := by
      rw [outputStep, hopened hname hnot]
    rw [hstep]
    refine ⟨⟨hcss, hfit, rfl⟩, ?_⟩
    rw [List.append_assoc] at h ⊢
    exact h.put rfl hfit hnot hapart .empty
  · have hnot : ¬ (x.output.name? ≠ none ∧
        left.tree.get? (r.below x.output.names) ≠ some .directory) := fun hboth =>
      hfit (hfits.mp ⟨hclear', hboth⟩)
    have hstep : outputStep left (x.output.path target) (.placed css)
        = (left, .refused .isDirectory) := by
      rw [outputStep, hrefused hnot]
    rw [hstep]
    exact ⟨⟨⟨css, hcss⟩, Or.inr ⟨hclear, hfit, rfl⟩⟩, h⟩

include hapart in
/-- The output is written over what was put there when it was opened. -/
theorem foreseen_writeAt {file : Location} {css : String}
    (h : Written d r (ws ++ [⟨x.output, some .empty⟩] ++ ws') left)
    (hforeseen : p.Foreseen f d r x (.opened file css)) :
    Written d r (ws ++ [⟨x.output, some css.toUTF8⟩] ++ ws') (left.writeAt file css.toUTF8) := by
  obtain ⟨-, hfits, rfl⟩ := hforeseen
  have hempty := h.file ⟨x.output, some .empty⟩ (by simp) .empty rfl hfits
  rw [Disk.writeAt_of_file hempty, Disk.overwrite_empty]
  rw [List.append_assoc] at h ⊢
  refine h.put rfl hfits ?_ hapart css.toUTF8
  rw [hempty]
  exact nofun

end Step

/-- **One step** of a compilation is the one that is foreseen, whatever others have done. -/
theorem foreseen_advance (hready : p.dryRun = false → d.Ready target r outputs)
    (hx : x.output ∈ outputs) (hin : ∀ w ∈ ws ++ ws', w.output ∈ outputs)
    (hapart : ∀ w ∈ ws ++ ws', w.output.Apart x.output)
    (h : Written d r (ws ++ (writing? x stage).toList ++ ws') left)
    (hforeseen : p.Foreseen f d r x stage) :
    p.Foreseen f d r x (p.advance (fun _ => f) left ⟨x.entry target, stage⟩).2.stage ∧
    Written d r (ws ++ (writing? x
        (p.advance (fun _ => f) left ⟨x.entry target, stage⟩).2.stage).toList ++ ws')
      (p.advance (fun _ => f) left ⟨x.entry target, stage⟩).1 := by
  -- Where there is something to write, the target directory has been made.
  have hdry : ∀ {css}, p.compileStage (fun _ => f) d x.source.path = .compiled css →
      p.dryRun = false := by
    intro css hcss
    rcases p.compileStage_cases (fun _ => f) d x.source.path with ⟨-, hstage⟩ |
      ⟨e, hdry, -⟩ | ⟨css', hdry, -⟩
    · cases hcss.symm.trans hstage
    · exact hdry
    · exact hdry
  by_cases hwaiting : stage = .waiting
  · subst hwaiting
    have hanswer : p.compileStage (fun _ => f) left x.source.path
        = p.compileStage (fun _ => f) d x.source.path := rfl
    rw [advance_of_waiting rfl]
    dsimp only [Planned.entry]
    rw [hanswer]
    rcases p.compileStage_cases (fun _ => f) d x.source.path with ⟨-, hstage⟩ |
      ⟨e, -, -, hstage⟩ | ⟨css, -, -, hstage⟩
    all_goals
      rw [hstage]
      exact ⟨hstage, h⟩
  rw [advance_of_ne_waiting hwaiting]
  cases stage with
  | waiting => exact absurd rfl hwaiting
  | compiled css =>
    have hnone : ws ++ (writing? x (.compiled css)).toList ++ ws' = ws ++ ws' :=
      congrArg (· ++ ws') (List.append_nil ws)
    rw [hnone] at h
    exact foreseen_makeDirectory (hready (hdry hforeseen)) hx hin hapart h hforeseen
  | placed css =>
    obtain ⟨hcss, hclear⟩ := hforeseen
    exact foreseen_openEmpty (hready (hdry hcss)) hx hin hapart h hcss hclear
  | opened file css => exact ⟨hforeseen, foreseen_writeAt hapart h hforeseen⟩
  | written file css => exact ⟨hforeseen, h⟩
  | refused e => exact ⟨hforeseen, h⟩
  | ended outcome => exact ⟨hforeseen, h⟩

/-! ### All steps -/

/-- A source with the stage that its compilation has come to. -/
def compilation (target : Location) (a : Planned × Stage) : Compilation :=
  ⟨a.1.entry target, a.2⟩

/-- **Compilations that take turns** come to stages that are foreseen. -/
theorem foreseen_interleave (turns : List Nat) (xs : List Planned)
    (hready : p.dryRun = false → d.Ready target r (xs.map Planned.output))
    (hxs : xs.Pairwise fun x y => x.output.Apart y.output) :
    ∃ as : List (Planned × Stage), as.map Prod.fst = xs ∧
      (p.interleave (fun _ => f) turns d ((xs.map (Planned.entry target)).map .start)).2
        = as.map (compilation target) ∧
      (∀ a ∈ as, p.Foreseen f d r a.1 a.2) ∧
      Written d r (as.filterMap fun a => writing? a.1 a.2)
        (p.interleave (fun _ => f) turns d ((xs.map (Planned.entry target)).map .start)).1 := by
  refine interleave_induction (P := fun left ys => ∃ as : List (Planned × Stage),
    as.map Prod.fst = xs ∧ ys = as.map (compilation target) ∧
      (∀ a ∈ as, p.Foreseen f d r a.1 a.2) ∧
      Written d r (as.filterMap fun a => writing? a.1 a.2) left) ?step turns ?start
  case start =>
    refine ⟨xs.map fun x => (x, .waiting), ?_, ?_, fun a ha => ?_, ?_⟩
    · rw [List.map_map]
      exact List.map_id xs
    · rw [List.map_map, List.map_map]
      rfl
    · obtain ⟨x, -, rfl⟩ := List.mem_map.mp ha
      exact trivial
    · have hnone : (xs.map fun x => (x, Stage.waiting)).filterMap (fun a => writing? a.1 a.2)
          = [] := by
        rw [List.filterMap_map]
        exact List.filterMap_eq_nil_iff.mpr fun _ _ => rfl
      rw [hnone]
      exact Written.nil d r
  case step =>
    rintro left front y back ⟨as, hfst, hys, hforeseen, hwritten⟩
    obtain ⟨as₁, as₂, rfl, rfl, hback⟩ := List.map_eq_append_iff.mp hys.symm
    obtain ⟨⟨x, stage⟩, as₃, rfl, rfl, rfl⟩ := List.map_eq_cons_iff.mp hback
    rw [List.filterMap_append] at hwritten
    have hsplit : ∀ stage, ((x, stage) :: as₃).filterMap (fun a => writing? a.1 a.2)
        = (writing? x stage).toList ++ as₃.filterMap fun a => writing? a.1 a.2 := by
      intro stage
      rw [List.filterMap_cons]
      cases writing? x stage <;> rfl
    rw [hsplit, ← List.append_assoc] at hwritten
    -- What the others have written is apart from the output.
    have hothers : ∀ w ∈ (as₁.filterMap fun a => writing? a.1 a.2) ++
        (as₃.filterMap fun a => writing? a.1 a.2),
        w.output ∈ xs.map Planned.output ∧ w.output.Apart x.output := by
      intro w hw
      rw [← List.filterMap_append] at hw
      obtain ⟨a, ha, hsome⟩ := List.mem_filterMap.mp hw
      rw [output_of_writing? hsome]
      have hpairs : (as₁ ++ (x, stage) :: as₃).Pairwise
          fun a b => a.1.output.Apart b.1.output := by
        rw [← hfst, List.pairwise_map] at hxs
        exact hxs
      have hfirst := (List.pairwise_middle fun h => Output.Apart.symm h).mp hpairs
      refine ⟨?_, (List.rel_of_pairwise_cons hfirst ha).symm⟩
      rw [← hfst, List.map_map]
      refine List.mem_map.mpr ⟨a, ?_, rfl⟩
      rcases List.mem_append.mp ha with ha | ha
      · exact List.mem_append_left _ ha
      · exact List.mem_append_right _ (List.mem_cons_of_mem _ ha)
    have hx : x.output ∈ xs.map Planned.output := by
      rw [← hfst, List.map_map]
      exact List.mem_map.mpr ⟨(x, stage), by simp, rfl⟩
    obtain ⟨hnext, hwritten'⟩ := foreseen_advance hready hx (fun w hw => (hothers w hw).1)
      (fun w hw => (hothers w hw).2) hwritten (hforeseen (x, stage) (by simp))
    refine ⟨
      as₁ ++ (x, (p.advance (fun _ => f) left (compilation target (x, stage))).2.stage) :: as₃,
      ?_, ?_, fun a ha => ?_, ?_⟩
    · rw [← hfst, List.map_append, List.map_append, List.map_cons, List.map_cons]
    · have hentry : (p.advance (fun _ => f) left (compilation target (x, stage))).2.entry
          = x.entry target := entry_advance left _
      have hsame : compilation target
            (x, (p.advance (fun _ => f) left (compilation target (x, stage))).2.stage)
          = (p.advance (fun _ => f) left (compilation target (x, stage))).2 :=
        congrArg (Compilation.mk · _) hentry.symm
      rw [List.map_append, List.map_cons, hsame]
    · rcases List.mem_append.mp ha with ha | ha
      · exact hforeseen a (List.mem_append_left _ ha)
      · rcases List.mem_cons.mp ha with rfl | ha
        · exact hnext
        · exact hforeseen a (List.mem_append_right _ (List.mem_cons_of_mem _ ha))
    · rw [List.filterMap_append, hsplit, ← List.append_assoc]
      exact hwritten'

/-- Lists of pairs are the same if the first parts are and tell the second ones. -/
theorem eq_of_map_fst {α β : Type} {as bs : List (α × β)} (hfst : as.map Prod.fst = bs.map Prod.fst)
    (hsnd : ∀ a ∈ as, ∀ b ∈ bs, a.1 = b.1 → a.2 = b.2) : as = bs := by
  induction as generalizing bs with
  | nil => exact (List.map_eq_nil_iff.mp hfst.symm).symm
  | cons a as ih =>
    obtain ⟨b, bs, rfl, hab, hrest⟩ := List.map_eq_cons_iff.mp hfst.symm
    have hsame : a = b :=
      Prod.ext hab.symm (hsnd a List.mem_cons_self b List.mem_cons_self hab.symm)
    rw [hsame, ih hrest.symm fun a' ha' b' hb' =>
      hsnd a' (List.mem_cons_of_mem a ha') b' (List.mem_cons_of_mem b hb')]

/-- **Two schedules** come to the same results and leave the same tree. -/
theorem compileTogether_independent (s s' : Schedule) (xs : List Planned)
    (hready : p.dryRun = false → d.Ready target r (xs.map Planned.output))
    (hxs : xs.Pairwise fun x y => x.output.Apart y.output) :
    (p.compileTogether (fun _ => f) s' d (xs.map (Planned.entry target))).2
      = (p.compileTogether (fun _ => f) s d (xs.map (Planned.entry target))).2 ∧
    ∀ l, (p.compileTogether (fun _ => f) s' d (xs.map (Planned.entry target))).1.tree.get? l
      = (p.compileTogether (fun _ => f) s d (xs.map (Planned.entry target))).1.tree.get? l := by
  have hrun : ∀ s : Schedule, ∃ as : List (Planned × Stage), as.map Prod.fst = xs ∧
      (∀ a ∈ as, p.Foreseen f d r a.1 a.2 ∧ a.2.stepsLeft = 0) ∧
      (p.compileTogether (fun _ => f) s d (xs.map (Planned.entry target))).2
        = (as.map (compilation target)).filterMap result? ∧
      Written d r (as.filterMap fun a => writing? a.1 a.2)
        (p.compileTogether (fun _ => f) s d (xs.map (Planned.entry target))).1 := by
    intro s
    obtain ⟨as, hfst, hrun, hforeseen, hwritten⟩ :=
      foreseen_interleave (f := f) (s.turns (xs.map (Planned.entry target)).length) xs hready hxs
    refine ⟨as, hfst, fun a ha => ⟨hforeseen a ha, ?_⟩, ?_, hwritten⟩
    · have hend := stepsLeft_of_fair (p := p) (c := fun _ => f) s d (xs.map (Planned.entry target))
      rw [hrun] at hend
      exact hend _ (List.mem_map_of_mem ha)
    · rw [← hrun]
      rfl
  obtain ⟨as, hfst, hends, hresults, hwritten⟩ := hrun s
  obtain ⟨as', hfst', hends', hresults', hwritten'⟩ := hrun s'
  obtain rfl : as' = as := eq_of_map_fst (hfst'.trans hfst.symm) fun a ha b hb hab => by
    obtain ⟨hforeseen, hend⟩ := hends' a ha
    rw [hab] at hforeseen
    exact hforeseen.eq_of_stepsLeft (hends b hb).1 hend (hends b hb).2
  exact ⟨hresults'.trans hresults.symm, hwritten'.get?_eq hwritten⟩

/-! ### Whole builds -/

/-- Outputs that are not in each other's way as paths are so below the target directory. -/
theorem apart_of_isAtOrAbove {x y : Planned}
    (hxy : (x.entry target).2.isAtOrAbove (y.entry target).2 = false)
    (hyx : (y.entry target).2.isAtOrAbove (x.entry target).2 = false) :
    x.output.Apart y.output := by
  constructor
  · intro hcovers
    rw [Planned.entry, Planned.entry, hcovers.isAtOrAbove] at hxy
    cases hxy
  · intro hcovers
    rw [Planned.entry, Planned.entry, hcovers.isAtOrAbove] at hyx
    cases hyx

/-- Whether compiled in turn or together, the entries take their turns by some schedule. -/
theorem exists_schedule (hfast : p.failFast = false) (plan : List PlanEntry) :
    ∃ s, ∀ c d, p.compileAll c d plan = p.compileTogether c s d plan := by
  by_cases hsequential : p.isSequential plan = true
  · refine ⟨.inOrder, fun c d => ?_⟩
    rw [compileAll, if_pos hsequential, compileInTurn_eq_compileTogether hfast]
  · refine ⟨p.schedule, fun c d => ?_⟩
    rw [compileAll, if_neg hsequential]

section Jobs

variable {q : Pipeline} (hproject : q.project = p.project) (hdry : q.dryRun = p.dryRun)

include hproject hdry in
theorem compileOne_congr (d : Disk) (entry : PlanEntry) :
    q.compileOne c d entry = p.compileOne c d entry := by
  unfold compileOne
  rw [hproject, hdry]

include hproject hdry in
theorem compileInTurn_congr (hfast : q.failFast = p.failFast) (plan : List PlanEntry) (d : Disk) :
    q.compileInTurn c d plan = p.compileInTurn c d plan := by
  induction plan generalizing d with
  | nil => rfl
  | cons entry plan ih =>
    rw [compileInTurn, compileInTurn, compileOne_congr hproject hdry, hfast]
    dsimp only
    rw [ih]

include hproject hdry in
theorem advance_congr (d : Disk) (x : Compilation) : q.advance c d x = p.advance c d x := by
  unfold advance compileStage
  rw [hproject, hdry]

include hproject hdry in
theorem interleave_congr (turns : List Nat) (d : Disk) (xs : List Compilation) :
    q.interleave c turns d xs = p.interleave c turns d xs := by
  induction turns generalizing d xs with
  | nil => rfl
  | cons i turns ih =>
    rw [interleave, interleave]
    cases xs[i]? with
    | none => exact ih d xs
    | some x =>
      dsimp only
      rw [advance_congr hproject hdry, ih]

include hproject hdry in
theorem compileTogether_congr (s : Schedule) (d : Disk) (plan : List PlanEntry) :
    q.compileTogether c s d plan = p.compileTogether c s d plan := by
  rw [compileTogether, compileTogether, interleave_congr hproject hdry]

include hproject hdry in
/-- Where one entry is compiled after the other, neither the jobs nor the schedule matter. -/
theorem execute_congr (hfast : q.failFast = p.failFast) (hp : p.isSequential plan = true)
    (hq : q.isSequential plan = true) (d : Disk) : q.execute c d plan = p.execute c d plan := by
  have hall : ∀ d, q.compileAll c d plan = p.compileAll c d plan := by
    intro d
    rw [compileAll, compileAll, if_pos hp, if_pos hq, compileInTurn_congr hproject hdry hfast]
  unfold execute
  simp only [hproject, hdry, hall]

include hproject hdry in
/-- Compilations at the same time that keep the order come to what they come to in turn. -/
theorem execute_of_inOrder (hfast : q.failFast = p.failFast) (horder : p.schedule = .inOrder)
    (hq : q.isSequential plan = true) (d : Disk) : q.execute c d plan = p.execute c d plan := by
  by_cases hp : p.isSequential plan = true
  · exact execute_congr hproject hdry hfast hp hq d
  · have hall : ∀ d, q.compileAll c d plan = p.compileAll c d plan := by
      intro d
      rw [compileAll, compileAll, if_neg hp, if_pos hq, compileInTurn_congr hproject hdry hfast,
        compileInTurn_eq_compileTogether (failFast_of_not_isSequential hp), horder]
    unfold execute
    simp only [hproject, hdry, hall]

include hproject hdry in
/-- **A plan carried out with other jobs or in other turns** comes to the same. -/
theorem execute_independent (hfast : q.failFast = p.failFast) (xs : List Planned)
    (hlinks : p.project.NoLinkToOutputs (xs.map (Planned.entry p.project.targetDir)) d)
    (hxs : xs.Pairwise fun x y => x.output.Apart y.output) :
    (q.execute (fun _ => f) d (xs.map (Planned.entry p.project.targetDir))).2
      = (p.execute (fun _ => f) d (xs.map (Planned.entry p.project.targetDir))).2 ∧
    ∀ l, (q.execute (fun _ => f) d (xs.map (Planned.entry p.project.targetDir))).1.tree.get? l
      = (p.execute (fun _ => f) d (xs.map (Planned.entry p.project.targetDir))).1.tree.get? l := by
  cases hp : p.failFast with
  | true =>
    -- The first failure ends the build, so nothing is done at the same time.
    rw [execute_congr hproject hdry hfast (isSequential_of_failFast hp)
      (isSequential_of_failFast (hfast.trans hp))]
    exact ⟨rfl, fun _ => rfl⟩
  | false =>
    obtain ⟨s, hs⟩ := exists_schedule hp (xs.map (Planned.entry p.project.targetDir))
    obtain ⟨s', hs'⟩ :=
      exists_schedule (hfast.trans hp) (xs.map (Planned.entry p.project.targetDir))
    unfold execute
    simp only [hproject, hdry, hs, hs', compileTogether_congr hproject hdry]
    split
    · exact ⟨rfl, fun _ => rfl⟩
    cases hmade : (if p.dryRun then (d, .ok ()) else d.createDirAll p.project.targetDir.path) with
    | mk made result =>
      cases result with
      | error e => exact ⟨rfl, fun _ => rfl⟩
      | ok done =>
        obtain ⟨r, hready⟩ : ∃ r, p.dryRun = false →
            made.Ready p.project.targetDir r (xs.map Planned.output) := by
          cases hdry' : p.dryRun with
          | true => exact ⟨.root, nofun⟩
          | false =>
            rw [hdry', if_neg Bool.false_ne_true] at hmade
            obtain ⟨r, hr⟩ := Disk.exists_ready (fun r => hlinks.noLinkOnWay) hmade
            exact ⟨r, fun _ => hr⟩
        obtain ⟨hresults, htree⟩ := compileTogether_independent (f := f) s s' xs hready hxs
        exact ⟨congrArg (fun results => Except.ok (BuildResult.mk results)) hresults, htree⟩

end Jobs

end Pipeline

/-! ### Two sources with one stem -/

/-- A source directory. -/
def sheetDir : Location := Location.root.entry ⟨"sheets", by decide⟩

/-- The name of a source. -/
def coverScss : Name := ⟨"cover.scss", by decide⟩

/-- The name of a source with the same stem. -/
def coverSass : Name := ⟨"cover.sass", by decide⟩

/-- The name of a source with another stem. -/
def indexScss : Name := ⟨"index.scss", by decide⟩

/-- A disk with two sources, which are empty. -/
def sheetDisk (first second : Name) : Disk where
  tree := ((FileTree.empty.put sheetDir .directory).put (sheetDir.entry second)
    (.file "".toUTF8)).put (sheetDir.entry first) (.file "".toUTF8)
  cwd := .root

/-- The schedule that reverses the order. -/
def Schedule.reversed : Schedule :=
  .ofOrder (fun n => (List.range n).reverse) fun _ _ hi =>
    List.mem_reverse.mpr (List.mem_range.mpr hi)

/-- A pipeline with two jobs. -/
def sheetPipeline : Pipeline where
  project :=
    { settings := { project := { source := ⟨"sheets"⟩, target := ⟨"public"⟩ } }, root := .root }
  jobs := 2

/-- A compiler that prints the path of its source. -/
def pathCompiler (source : Path) (_ : CompileOptions) : Except CompileError String :=
  .ok source.text

/-- The place of an output called like a source with the stem `cover`. -/
def coverOutput : Location :=
  (Location.root.entry ⟨"public", by decide⟩).entry ⟨"cover.css", by decide⟩

/-- The plan for two files that are main sources. -/
theorem plan_sheetPipeline {first second : Name} {plan : List PlanEntry}
    (hnames : ((sheetDisk first second).tree.entries.filterMap fun e =>
      if e.1.parent = sheetDir then e.1.fileName? else none) = [first, second])
    (hsorted : [first, second].Pairwise fun a b => (a.compare b).isLE = true)
    (hroot : (sheetDisk first second).tree.get? sheetDir = some .directory)
    (hfiles : ∀ n ∈ [first, second],
      (sheetDisk first second).tree.get? (sheetDir.entry n) = some (.file "".toUTF8))
    (hlisted : ∀ n ∈ [first, second], isListed sheetDir {} (sheetDir.entry n) = .ok true)
    (hplan : ([sheetDir.entry first, sheetDir.entry second].filterMap fun l =>
        (sheetPipeline.project.sourceDir.from? l).map Path.ofNames).mapM (fun relative =>
      (fun output => (sheetPipeline.project.sourceDir.path.join relative, output)) <$>
        destination relative (some sheetPipeline.project.targetDir.path) none) = .ok plan) :
    sheetPipeline.plan (sheetDisk first second) = .ok plan := by
  have hsources : sourcesUnder (sheetDisk first second) sheetPipeline.project.sourceDir {}
      = .ok [sheetDir.entry first, sheetDir.entry second] := by
    have hsource : sheetPipeline.project.sourceDir = sheetDir := by decide
    rw [hsource]
    exact sourcesUnder_of_flat hroot (FileTree.namesIn_of_pairwise hnames hsorted)
      (fun n hn => ⟨_, hfiles n hn, Entry.file_ne_directory, Disk.isDir_of_file (hfiles n hn)⟩)
      hlisted
  exact Pipeline.plan_of_sourcesUnder rfl hsources hplan

/-- Outputs of sources with different stems are not in each other's way. -/
theorem plan_cover_index : ∃ plan, sheetPipeline.plan (sheetDisk coverScss indexScss) = .ok plan ∧
    plan.Pairwise fun a b => a.2.isAtOrAbove b.2 = false ∧ b.2.isAtOrAbove a.2 = false := by
  refine ⟨_, plan_sheetPipeline (by decide +kernel) (by decide +kernel) (by decide +kernel)
    (by decide +kernel) (by decide +kernel) rfl, by decide +kernel⟩

/-! ### Independence -/

/-- **Sources are independent of each other.**  A compiler that looks at no disk leaves the same
disk and the same results whatever is compiled first, if no output is in the place of another or of
a directory above it, and no link is on the way from the target directory to an output. -/
theorem Pipeline.build_independent {p : Pipeline} {plan : List PlanEntry}
    (hplan : p.plan d = .ok plan)
    (hapart : plan.Pairwise fun a b =>
      a.2.isAtOrAbove b.2 = false ∧ b.2.isAtOrAbove a.2 = false)
    (hlinks : p.project.NoLinkToOutputs plan d)
    (f : Path → CompileOptions → Except CompileError String) (jobs : Nat) (schedule : Schedule) :
    ({ p with jobs := jobs, schedule := schedule }.build (fun _ => f) d).2
      = (p.build (fun _ => f) d).2 ∧
    ∀ l, ({ p with jobs := jobs, schedule := schedule }.build (fun _ => f) d).1.tree.get? l
      = (p.build (fun _ => f) d).1.tree.get? l := by
  obtain ⟨-, -, -, -, xs, rfl, -, -⟩ := exists_planned hplan
  have hxs : xs.Pairwise fun x y => x.output.Apart y.output :=
    (List.pairwise_map.mp hapart).imp fun h => apart_of_isAtOrAbove h.1 h.2
  -- Nothing else is asked of the other pipeline than that it differs in jobs and schedule only.
  obtain ⟨q, hq⟩ : ∃ q : Pipeline, q = { p with jobs := jobs, schedule := schedule } := ⟨_, rfl⟩
  have hproject : q.project = p.project := by rw [hq]
  have hdry : q.dryRun = p.dryRun := by rw [hq]
  have hfast : q.failFast = p.failFast := by rw [hq]
  have hplan' : q.plan d = .ok (xs.map (Planned.entry p.project.targetDir)) := by
    rw [← hplan, plan, plan, hproject]
  rw [← hq, build, build, hplan, hplan']
  exact execute_independent hproject hdry hfast xs hlinks hxs

/-- Two sources with different stems. -/
theorem build_independent_cover : ∃ plan,
    sheetPipeline.plan (sheetDisk coverScss indexScss) = .ok plan ∧
    (plan.Pairwise fun a b => a.2.isAtOrAbove b.2 = false ∧ b.2.isAtOrAbove a.2 = false) ∧
    ({ sheetPipeline with jobs := 2, schedule := .reversed }.build (fun _ => pathCompiler)
        (sheetDisk coverScss indexScss)).2
      = (sheetPipeline.build (fun _ => pathCompiler) (sheetDisk coverScss indexScss)).2 ∧
    ∀ l, ({ sheetPipeline with jobs := 2, schedule := .reversed }.build (fun _ => pathCompiler)
        (sheetDisk coverScss indexScss)).1.tree.get? l
      = (sheetPipeline.build (fun _ => pathCompiler)
          (sheetDisk coverScss indexScss)).1.tree.get? l := by
  obtain ⟨plan, hplan, hapart⟩ := plan_cover_index
  have hfree : (sheetDisk coverScss indexScss).tree.LinkFree :=
    FileTree.linkFree_of_all (by decide +kernel)
  have hlinks := Project.noLinkToOutputs_of_linkFree sheetPipeline.project plan hfree
  obtain ⟨hresults, hdisk⟩ :=
    Pipeline.build_independent hplan hapart hlinks pathCompiler 2 .reversed
  exact ⟨plan, hplan, hapart, hresults, hdisk⟩

/-- Two sources with the same stem: the one that is compiled last has the output. -/
theorem output_of_last :
    sheetPipeline.project.settings.isValid = true ∧
    sheetPipeline.project.verifyPaths (sheetDisk coverSass coverScss) = .ok () ∧
    sheetPipeline.project.libraryDirs = [] ∧
    sheetPipeline.project.sourceDir.isWithin sheetPipeline.project.targetDir = false ∧
    sheetPipeline.project.targetDir.isWithin sheetPipeline.project.sourceDir = false ∧
    (sheetPipeline.build (fun _ => pathCompiler)
        (sheetDisk coverSass coverScss)).1.tree.get? coverOutput
      = some (.file "/sheets/cover.scss".toUTF8) ∧
    ({ sheetPipeline with schedule := .reversed }.build (fun _ => pathCompiler)
        (sheetDisk coverSass coverScss)).1.tree.get? coverOutput
      = some (.file "/sheets/cover.sass".toUTF8) := by
  obtain ⟨plan, hplan, hentries⟩ : ∃ plan,
      sheetPipeline.plan (sheetDisk coverSass coverScss) = .ok plan ∧
        plan = [((sheetDir.entry coverSass).path, coverOutput.path),
          ((sheetDir.entry coverScss).path, coverOutput.path)] :=
    ⟨_, plan_sheetPipeline (by decide +kernel) (by decide +kernel) (by decide +kernel)
      (by decide +kernel) (by decide +kernel) rfl, by decide +kernel⟩
  have hplan' : ({ sheetPipeline with schedule := .reversed } : Pipeline).plan
      (sheetDisk coverSass coverScss) = .ok plan := hplan
  rw [Pipeline.build, Pipeline.build, hplan, hplan', hentries]
  refine ⟨by decide +kernel, by decide +kernel, rfl, by decide +kernel, by decide +kernel,
    by decide +kernel, by decide +kernel⟩

end SheetGraph
