import SheetGraph.Proofs.Build.Interleaving

/-!
# What overlapping compilations leave

Compilations at the same time may have one output.  Then one of them may open it, which empties it,
after another has written to it or while another has it open, and what it holds in the end depends
on the turns that they take.  An output that only one of them opens holds what that one writes, and
what none of them opens is as it was, but for new directories (`Overlapping`).

A step makes directories at most, or it writes to one file, which holds what the step puts there
unless it held something else than before (`Pipeline.advanced`).  So every step keeps `Overlapping`
(`Overlapping.step`), and all of them do (`Pipeline.overlapping_interleave`).
-/

namespace SheetGraph

variable {d d' left left' : Disk} {x x' : Compilation} {xs front back : List Compilation}
  {l k : Location} {content : ByteArray}

/-- The file that a compilation has opened, with what it has put there. -/
def Stage.file? : Stage → Option (Location × ByteArray)
  | opened file _ => some (file, .empty)
  | written file css => some (file, css.toUTF8)
  | _ => none

/-- Whether a compilation has opened the file at a location. -/
def Compilation.holds (x : Compilation) (l : Location) : Bool :=
  x.stage.file?.any (·.1 == l)

theorem Compilation.holds_iff : x.holds l = true ↔ ∃ f, x.stage.file? = some f ∧ f.1 = l := by
  rw [holds, Option.any_eq_true]
  exact exists_congr fun f => and_congr_right fun _ => beq_iff_eq

/-- A compilation opens no more than one file. -/
theorem Compilation.holds_eq_false (hx : ∀ f, x.stage.file? = some f → f.1 = l) (hk : k ≠ l) :
    x.holds k = false := by
  rw [← Bool.not_eq_true, holds_iff]
  rintro ⟨f, hf, rfl⟩
  exact hk (hx f hf)

/-- A compilation that has opened a file and come to its end has written what it was to write. -/
theorem Pipeline.result?_of_file? {f : Location × ByteArray} (hend : x.stage.stepsLeft = 0)
    (hf : x.stage.file? = some f) :
    Pipeline.result? x = some ⟨x.entry.1, x.entry.2, .success⟩ ∧
      ∃ css, x.stage.css? = some css ∧ f.2 = css.toUTF8 := by
  rw [Pipeline.result?]
  rcases Stage.cases_of_stepsLeft hend with ⟨file, css, hstage⟩ | ⟨e, hstage⟩ | ⟨outcome, hstage⟩
  · rw [hstage] at hf ⊢
    cases hf
    exact ⟨rfl, css, rfl, rfl⟩
  · rw [hstage] at hf
    cases hf
  · rw [hstage] at hf
    cases hf

/-! ### One step -/

/-- What one step does to the disk. -/
inductive Advanced (d : Disk) (x : Compilation) (d' : Disk) (x' : Compilation) : Prop
  /-- It makes directories at most. -/
  | idle (hdirs : d.DirsAdded d') (hfile : x'.stage.file? = x.stage.file?)
  /-- It writes to one file, which then holds `new`.  That is what the step puts there, if the file
  still held what the compilation had put there before. -/
  | wrote {l : Location} {content new : ByteArray} (hfile : x'.stage.file? = some (l, content))
      (hbefore : ∀ f, x.stage.file? = some f → f.1 = l) (hcwd : d'.cwd = d.cwd)
      (hgrows : d.tree.Grows d'.tree) (hleads : d'.LeadsTo x.entry.2 l)
      (hnew : d'.tree.get? l = some (.file new))
      (hothers : ∀ k, k ≠ l → d'.tree.get? k = d.tree.get? k)
      (hcontent : (∀ f, x.stage.file? = some f → d.tree.get? l = some (.file f.2)) → new = content)

namespace Pipeline

variable {p : Pipeline} {c : Compiler}

theorem dirsAdded_makeDirectory (d : Disk) (destination : Path) :
    d.DirsAdded (makeDirectory d destination).1 := by
  unfold makeDirectory
  split
  · exact Disk.dirsAdded_createDirAll d _
  · exact .refl d

/-- The step that opens the output, and empties it. -/
theorem advanced_openEmpty {entry : PlanEntry} {css : String} {opened : Disk}
    (hstart : d.tree.isDirectory (d.start entry.2) = true)
    (hopen : d.openEmpty entry.2 = .ok (opened, l)) :
    Advanced d ⟨entry, .placed css⟩ opened ⟨entry, .opened l css⟩ := by
  obtain ⟨rfl, hgrows, hfind⟩ := Disk.openEmpty_eq_ok hstart hopen
  exact .wrote rfl (fun _ hf => by cases hf) rfl hgrows ⟨_, hfind⟩ (Disk.find_eq_ok_iff.mp hfind).2
    (fun k hk => FileTree.get?_put_of_ne hk) fun _ => rfl

/-- The step that writes the output. -/
theorem advanced_writeAt {entry : PlanEntry} {css : String} (hleads : d.LeadsTo entry.2 l) :
    Advanced d ⟨entry, .opened l css⟩ (d.writeAt l css.toUTF8) ⟨entry, .written l css⟩ := by
  have hfile : (Stage.opened l css).file? = some (l, .empty) := rfl
  obtain ⟨old, hold⟩ := hleads
  have hget := (Disk.find_eq_ok_iff.mp hold).2
  have hgrows : d.tree.Grows (d.tree.put l (.file (Disk.overwrite old css.toUTF8))) := by
    apply FileTree.grows_put
    intro e he
    rw [hget] at he
    cases he
    exact .file old _
  rw [Disk.writeAt_of_file hget]
  refine .wrote rfl (fun f hf => ?_) rfl hgrows (Disk.LeadsTo.of_grows hgrows rfl ⟨old, hold⟩)
    (FileTree.get?_put_self (FileTree.hasRoomAt_of_file hget))
    (fun k hk => FileTree.get?_put_of_ne hk) fun hbefore => ?_
  · obtain rfl := Option.some.inj (hfile.symm.trans hf)
    rfl
  · -- It was empty until then, so nothing is left behind the end of what is written.
    have hempty := hbefore _ hfile
    rw [hget] at hempty
    cases hempty
    exact Disk.overwrite_empty _

/-- **What one step does**: it makes directories, or it opens the output or writes it. -/
theorem advanced (hstart : d.tree.isDirectory (d.start x.entry.2) = true)
    (hleads : ∀ f, x.stage.file? = some f → d.LeadsTo x.entry.2 f.1) :
    Advanced d x (p.advance c d x).1 (p.advance c d x).2 := by
  obtain ⟨entry, stage⟩ := x
  cases stage with
  | waiting =>
    refine .idle (.refl d) ?_
    rw [advance_of_waiting rfl]
    rcases p.compileStage_cases c d entry.1 with ⟨-, hstage⟩ | ⟨e, -, -, hstage⟩ |
      ⟨css, -, -, hstage⟩
    all_goals
      rw [hstage]
      rfl
  | compiled css =>
    have hdirs := dirsAdded_makeDirectory d entry.2
    rw [advance_of_ne_waiting (x := ⟨entry, .compiled css⟩) (by simp), outputStep]
    cases hmade : makeDirectory d entry.2 with
    | mk made done =>
      rw [hmade] at hdirs
      cases done with
      | error e => exact .idle hdirs rfl
      | ok done => exact .idle hdirs rfl
  | placed css =>
    rw [advance_of_ne_waiting (x := ⟨entry, .placed css⟩) (by simp), outputStep]
    cases hopen : d.openEmpty entry.2 with
    | error e => exact .idle (.refl d) rfl
    | ok opened => exact advanced_openEmpty hstart hopen
  | opened file css => exact advanced_writeAt (hleads _ rfl)
  | written file css => exact .idle (.refl d) rfl
  | refused e => exact .idle (.refl d) rfl
  | ended outcome => exact .idle (.refl d) rfl

end Pipeline

/-! ### Any number of steps -/

/-- What compilations that overlap have done to the disk `d`. -/
structure Overlapping (d d' : Disk) (xs : List Compilation) : Prop where
  cwd_eq : d'.cwd = d.cwd
  grows : d.tree.Grows d'.tree
  /-- The paths of their outputs lead to the files that they have opened. -/
  leads : ∀ x ∈ xs, ∀ f, x.stage.file? = some f → d'.LeadsTo x.entry.2 f.1
  /-- What none of them has opened is as it was, or is a new directory. -/
  kept : ∀ k, (∀ x ∈ xs, x.holds k = false) → d'.tree.get? k = d.tree.get? k ∨
    d.tree.get? k = none ∧ d'.tree.get? k = some .directory
  /-- A file that only one of them has opened holds what that one has put there. -/
  alone : ∀ x ∈ xs, ∀ f, x.stage.file? = some f → xs.countP (·.holds f.1) = 1 →
    d'.tree.get? f.1 = some (.file f.2)

namespace Overlapping

theorem start (d : Disk) (plan : List PlanEntry) : Overlapping d d (plan.map .start) := by
  have hnone : ∀ x ∈ plan.map Compilation.start, x.stage.file? = none := by
    intro x hx
    obtain ⟨entry, -, rfl⟩ := List.mem_map.mp hx
    rfl
  refine ⟨rfl, FileTree.Grows.refl _, fun x hx f hf => ?_, fun k _ => Or.inl rfl,
    fun x hx f hf _ => ?_⟩
  all_goals
    rw [hnone x hx] at hf
    cases hf

/-- The compilations after a step of one of them. -/
theorem mem_step (x : Compilation) {y : Compilation} (hy : y ∈ front ++ x' :: back) :
    y = x' ∨ y ∈ front ++ x :: back ∧ (y ∈ front ∨ y ∈ back) := by
  rcases List.mem_append.mp hy with hy | hy
  · exact Or.inr ⟨List.mem_append_left _ hy, Or.inl hy⟩
  · rcases List.mem_cons.mp hy with rfl | hy
    · exact Or.inl rfl
    · exact Or.inr ⟨List.mem_append_right _ (List.mem_cons_of_mem x hy), Or.inr hy⟩

theorem countP_step (x : Compilation) (k : Location) :
    (front ++ x :: back).countP (·.holds k)
      = front.countP (·.holds k) + back.countP (·.holds k) + if x.holds k then 1 else 0 := by
  rw [List.countP_append, List.countP_cons, Nat.add_assoc]

/-- The compilation that alone has opened a file. -/
theorem countP_eq_zero_of_alone (hx : x.holds l = true)
    (halone : (front ++ x :: back).countP (·.holds l) = 1) :
    front.countP (·.holds l) = 0 ∧ back.countP (·.holds l) = 0 := by
  rw [countP_step, hx] at halone
  simp only [if_true] at halone
  omega

/-- A step that makes directories keeps what the others have done. -/
theorem step_idle (h : Overlapping d left (front ++ x :: back)) (hentry : x'.entry = x.entry)
    (hdirs : left.DirsAdded left') (hfile : x'.stage.file? = x.stage.file?) :
    Overlapping d left' (front ++ x' :: back) := by
  have hold : ∀ y ∈ front ++ x' :: back, ∃ z ∈ front ++ x :: back,
      z.entry = y.entry ∧ z.stage.file? = y.stage.file? := by
    intro y hy
    rcases mem_step x hy with rfl | ⟨hy, -⟩
    · exact ⟨x, by simp, hentry.symm, hfile.symm⟩
    · exact ⟨y, hy, rfl, rfl⟩
  have hholds : ∀ k, x'.holds k = x.holds k := by
    intro k
    rw [Compilation.holds, Compilation.holds, hfile]
  refine ⟨hdirs.cwd_eq.trans h.cwd_eq, h.grows.trans hdirs.grows, fun y hy f hf => ?_,
    fun k hk => ?_, fun y hy f hf halone => ?_⟩
  · obtain ⟨z, hz, hsame, hfile⟩ := hold y hy
    rw [← hsame]
    exact (h.leads z hz f (hfile.trans hf)).of_grows hdirs.grows hdirs.cwd_eq
  · have hbefore := h.kept k fun z hz => by
      rcases mem_step x' hz with rfl | ⟨hz, -⟩
      · rw [← hholds]
        exact hk x' (by simp)
      · exact hk z hz
    rcases hdirs.get?_eq_or k with hsame | ⟨hnone, hdir⟩
    · rwa [hsame]
    · rcases hbefore with hsame | ⟨-, hdir'⟩
      · exact Or.inr ⟨hsame.symm.trans hnone, hdir⟩
      · rw [hnone] at hdir'
        cases hdir'
  · obtain ⟨z, hz, -, hfile⟩ := hold y hy
    rw [countP_step, hholds, ← countP_step] at halone
    have hget := h.alone z hz f (hfile.trans hf) halone
    rcases hdirs.get?_eq_or f.1 with hsame | ⟨hnone, -⟩
    · rw [hsame, hget]
    · rw [hget] at hnone
      cases hnone

/-- **Every step keeps what the others have done**, unless they have opened the same file. -/
theorem step (h : Overlapping d left (front ++ x :: back)) (hentry : x'.entry = x.entry)
    (hstep : Advanced left x left' x') : Overlapping d left' (front ++ x' :: back) := by
  cases hstep with
  | idle hdirs hfile => exact h.step_idle hentry hdirs hfile
  | @wrote l content new hfile hbefore hcwd hgrows hleads hnew hothers hcontent =>
    have hholds : x'.holds l = true := Compilation.holds_iff.mpr ⟨_, hfile, rfl⟩
    have hafter : ∀ f, x'.stage.file? = some f → f.1 = l := by
      intro f hf
      obtain rfl := Option.some.inj (hfile.symm.trans hf)
      rfl
    refine ⟨hcwd.trans h.cwd_eq, h.grows.trans hgrows, fun y hy f hf => ?leads, fun k hk => ?kept,
      fun y hy f hf halone => ?alone⟩
    case leads =>
      rcases mem_step x hy with rfl | ⟨hy, -⟩
      · rw [hfile] at hf
        cases hf
        rw [hentry]
        exact hleads
      · exact (h.leads y hy f hf).of_grows hgrows hcwd
    case kept =>
      have hne : k ≠ l := by
        rintro rfl
        rw [hk x' (by simp)] at hholds
        cases hholds
      rw [hothers k hne]
      refine h.kept k fun z hz => ?_
      rcases mem_step x' hz with rfl | ⟨hz, -⟩
      · exact Compilation.holds_eq_false hbefore hne
      · exact hk z hz
    case alone =>
      by_cases hl : f.1 = l
      · -- The others have not opened the file, so this is the compilation that takes the step.
        have hcount := countP_eq_zero_of_alone hholds (hl ▸ halone)
        have hself : y = x' := by
          rcases mem_step x hy with hself | ⟨-, hmem⟩
          · exact hself
          · have hy' : y.holds l = true := Compilation.holds_iff.mpr ⟨f, hf, hl⟩
            rcases hmem with hmem | hmem
            · exact absurd hy' (List.countP_eq_zero.mp hcount.1 y hmem)
            · exact absurd hy' (List.countP_eq_zero.mp hcount.2 y hmem)
        subst hself
        rw [hfile] at hf
        cases hf
        have hput : new = content := by
          refine hcontent fun g hg => ?_
          have hgl := hbefore g hg
          rw [← hgl]
          refine h.alone x (by simp) g hg ?_
          have hx : x.holds l = true := Compilation.holds_iff.mpr ⟨g, hg, hgl⟩
          rw [hgl, countP_step, hcount.1, hcount.2, hx]
          rfl
        rw [← hput]
        exact hnew
      · rw [hothers f.1 hl]
        rcases mem_step x hy with rfl | ⟨hy, -⟩
        · rw [hfile] at hf
          cases hf
          exact absurd rfl hl
        · refine h.alone y hy f hf ?_
          rw [countP_step, Compilation.holds_eq_false hafter hl] at halone
          rw [countP_step, Compilation.holds_eq_false hbefore hl]
          exact halone

end Overlapping

namespace Pipeline

variable {p : Pipeline} {c : Compiler} {plan : List PlanEntry}

/-- **Whatever turns compilations take**, each has done to the disk what it would have done alone,
but for the files that others have opened, too. -/
theorem overlapping_interleave (turns : List Nat)
    (hstart : ∀ entry ∈ plan, d.tree.isDirectory (d.start entry.2) = true) :
    Overlapping d (p.interleave c turns d (plan.map .start)).1
      (p.interleave c turns d (plan.map .start)).2 := by
  refine (interleave_induction (P := fun left xs => Overlapping d left xs ∧
    xs.map Compilation.entry = plan) ?_ turns ⟨.start d plan, map_entry_start plan⟩).1
  rintro left front x back ⟨h, hentries⟩
  have hx : x.entry ∈ plan := by
    rw [← hentries]
    exact List.mem_map_of_mem (by simp)
  have hstart' := Disk.isDirectory_start_of_grows h.grows h.cwd_eq (hstart _ hx)
  refine ⟨h.step (entry_advance left x) (advanced hstart' (h.leads x (by simp))), ?_⟩
  rw [← hentries, List.map_append, List.map_append, List.map_cons, List.map_cons, entry_advance]

end Pipeline

end SheetGraph
