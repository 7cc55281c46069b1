import ImagePipeline.Run.Basic
import Mathlib.Data.Int.Notation

/-!
# Single steps

What one step of a run does, by whether its node can be put into words, and by what becomes
of the node, of the saving of its result and of its report.

## Main definitions

* `StepEnds` — the ways in which a step ends.

## Main results

* `openReport?_eq_some_iff`, `openReport?_eq_none_iff` — the report that a step begins with.
* `runStep_of_openReport?_eq_none` — the node cannot be put into words.
* `runStep_of_apply_error` — the node makes no image.
* `runStep_of_save_error` — the result cannot be saved.
* `runStep_of_saved`, `runStep_of_unsaved` — the step comes to its report.
* `stepEnds_runStep` — these are all the ways in which a step ends.
* `runSteps_cons_of_none`, `runSteps_cons_of_some` — a run goes on, or ends.
* `runSteps_append` — a run over two rows of nodes.
-/

namespace ImagePipeline
namespace Run

/-! ### Messages -/

namespace State

variable (s : State) (flag : Bool) (messages : List String)

@[simp] theorem image_tell : (s.tell flag messages).image = s.image := by
  unfold tell
  split <;> rfl

@[simp] theorem sources_tell : (s.tell flag messages).sources = s.sources := by
  unfold tell
  split <;> rfl

@[simp] theorem tree_tell : (s.tell flag messages).tree = s.tree := by
  unfold tell
  split <;> rfl

@[simp] theorem reports_tell : (s.tell flag messages).reports = s.reports := by
  unfold tell
  split <;> rfl

end State

/-! ### Steps -/

section

variable {o : Options} {k : ℤ} {n : Node} {s : State}

@[simp] theorem image_closeStep (r : Report) : (closeStep o r s).1.image = s.image := by
  simp [closeStep]

@[simp] theorem sources_closeStep (r : Report) : (closeStep o r s).1.sources = s.sources := by
  simp [closeStep]

@[simp] theorem tree_closeStep (r : Report) : (closeStep o r s).1.tree = s.tree := by
  simp [closeStep]

@[simp] theorem reports_closeStep (r : Report) :
    (closeStep o r s).1.reports = s.reports ++ [r] := by
  simp [closeStep]

@[simp] theorem stop_closeStep (r : Report) :
    (closeStep o r s).2 = (o.observer r).map .interrupted := rfl

/-- There is a report to begin a step with exactly if the node can be put into words. -/
theorem openReport?_eq_none_iff {img : Image} : openReport? k n img = none ↔ ¬ n.InLimit := by
  rw [openReport?, Option.map_eq_none_iff, Node.info?_eq_none_iff]

/-- The report that a step begins with. -/
theorem openReport?_eq_some_iff {img : Image} {r : Report} : openReport? k n img = some r ↔
    n.InLimit ∧ r = ⟨k, n.name, n.words, img.describe, "", none, none⟩ := by
  by_cases hn : n.InLimit
  · rw [openReport?, Node.info?_eq_some hn, Option.map_some, Option.some.injEq, eq_comm]
    exact (and_iff_right hn).symm
  · rw [openReport?, Node.info?_eq_none_iff.mpr hn]
    simp [hn]

theorem openReport?_of_inLimit (h : n.InLimit) (k : ℤ) (img : Image) :
    openReport? k n img = some ⟨k, n.name, n.words, img.describe, "", none, none⟩ :=
  openReport?_eq_some_iff.mpr ⟨h, rfl⟩

/-- A node that cannot be put into words ends the run before anything is done. -/
theorem runStep_of_openReport?_eq_none (h : openReport? k n s.image = none) :
    runStep o k n s = (s, some .overlong) := by
  simp only [runStep, h]

section

variable {r : Report} (hr : openReport? k n s.image = some r)

include hr

/-- A node that makes no image ends the run. -/
theorem runStep_of_apply_error {f : Failure} (h : n.apply s.sources s.image = .error f) :
    runStep o k n s =
      (s.tell o.logSteps r.headerLines, some (.failed ⟨k, n.name, .node f⟩)) := by
  simp only [runStep, hr, State.sources_tell, State.image_tell, h]

/-- A result that cannot be saved ends the run. -/
theorem runStep_of_save_error {img : Image} {sources : Sources} {t : FileTree} {f : SaveError}
    (h : n.apply s.sources s.image = .ok (img, sources)) (hsave : o.saveSteps = true)
    (hsaved : saveResult o s.tree k img = (t, .error f)) :
    runStep o k n s = ({ s.tell o.logSteps r.headerLines with
      image := img, sources := sources, tree := t }, some (.failed ⟨k, n.name, .saving f⟩)) := by
  simp only [runStep, hr, State.sources_tell, State.image_tell, State.tree_tell, h, hsave, if_true,
    hsaved]

/-- A saved result is reported together with its file. -/
theorem runStep_of_saved {img : Image} {sources : Sources} {t : FileTree} {p : Path}
    (h : n.apply s.sources s.image = .ok (img, sources)) (hsave : o.saveSteps = true)
    (hsaved : saveResult o s.tree k img = (t, .ok p)) :
    runStep o k n s = closeStep o
      { r with output := img.describe, artifact := some p, artifactBytes := bytesAt t p }
      { s.tell o.logSteps r.headerLines with image := img, sources := sources, tree := t } := by
  simp only [runStep, hr, State.sources_tell, State.image_tell, State.tree_tell, h, hsave, if_true,
    hsaved]

/-- A result that is not to be saved is reported at once. -/
theorem runStep_of_unsaved {img : Image} {sources : Sources}
    (h : n.apply s.sources s.image = .ok (img, sources)) (hsave : o.saveSteps = false) :
    runStep o k n s = closeStep o { r with output := img.describe }
      { s.tell o.logSteps r.headerLines with image := img, sources := sources } := by
  simp only [runStep, hr, State.sources_tell, State.image_tell, h, hsave, Bool.false_eq_true,
    if_false]

end

/-- The ways in which a step ends: its node cannot be put into words, or makes no image; its
result cannot be saved, is saved, or is not to be saved. -/
inductive StepEnds (o : Options) (k : ℤ) (n : Node) (s : State) : State × Option Stop → Prop
  | overlong (hr : openReport? k n s.image = none) : StepEnds o k n s (s, some .overlong)
  | refused {r : Report} {f : Failure} (hr : openReport? k n s.image = some r)
      (happly : n.apply s.sources s.image = .error f) :
      StepEnds o k n s (s.tell o.logSteps r.headerLines, some (.failed ⟨k, n.name, .node f⟩))
  | unsavable {r : Report} {img : Image} {sources : Sources} {t : FileTree} {f : SaveError}
      (hr : openReport? k n s.image = some r)
      (happly : n.apply s.sources s.image = .ok (img, sources)) (hsave : o.saveSteps = true)
      (hsaved : saveResult o s.tree k img = (t, .error f)) :
      StepEnds o k n s ({ s.tell o.logSteps r.headerLines with
        image := img, sources := sources, tree := t }, some (.failed ⟨k, n.name, .saving f⟩))
  | saved {r : Report} {img : Image} {sources : Sources} {t : FileTree} {p : Path}
      (hr : openReport? k n s.image = some r)
      (happly : n.apply s.sources s.image = .ok (img, sources)) (hsave : o.saveSteps = true)
      (hsaved : saveResult o s.tree k img = (t, .ok p)) :
      StepEnds o k n s (closeStep o
        { r with output := img.describe, artifact := some p, artifactBytes := bytesAt t p }
        { s.tell o.logSteps r.headerLines with image := img, sources := sources, tree := t })
  | unsaved {r : Report} {img : Image} {sources : Sources}
      (hr : openReport? k n s.image = some r)
      (happly : n.apply s.sources s.image = .ok (img, sources)) (hsave : o.saveSteps = false) :
      StepEnds o k n s (closeStep o { r with output := img.describe }
        { s.tell o.logSteps r.headerLines with image := img, sources := sources })

/-- **A step ends in one of the ways.** -/
theorem stepEnds_runStep : StepEnds o k n s (runStep o k n s) := by
  cases hr : openReport? k n s.image with
  | none =>
    rw [runStep_of_openReport?_eq_none hr]
    exact .overlong hr
  | some r =>
    cases happly : n.apply s.sources s.image with
    | error f =>
      rw [runStep_of_apply_error hr happly]
      exact .refused hr happly
    | ok made =>
      cases hsave : o.saveSteps with
      | false =>
        rw [runStep_of_unsaved hr happly hsave]
        exact .unsaved hr happly hsave
      | true =>
        rcases hsaved : saveResult o s.tree k made.1 with ⟨t, f | p⟩
        · rw [runStep_of_save_error hr happly hsave hsaved]
          exact .unsavable hr happly hsave hsaved
        · rw [runStep_of_saved hr happly hsave hsaved]
          exact .saved hr happly hsave hsaved

theorem runSteps_cons_of_some {ns : List Node} {s' : State} {stop : Stop}
    (h : runStep o k n s = (s', some stop)) : runSteps o k (n :: ns) s = (s', some stop) := by
  rw [runSteps, h]

theorem runSteps_cons_of_none {ns : List Node} {s' : State} (h : runStep o k n s = (s', none)) :
    runSteps o k (n :: ns) s = runSteps o (k + 1) ns s' := by
  rw [runSteps, h]

/-- A run over two rows of nodes goes through the first before the second. -/
theorem runSteps_append (a b : List Node) : runSteps o k (a ++ b) s =
    match runSteps o k a s with
    | (s', some stop) => (s', some stop)
    | (s', none) => runSteps o (k + a.length) b s' := by
  induction a generalizing k s with
  | nil => simp [runSteps]
  | cons n a ih =>
    have hk : k + 1 + (a.length : ℤ) = k + (n :: a).length := by
      rw [List.length_cons]
      omega
    rw [List.cons_append]
    rcases hrun : runStep o k n s with ⟨s', _ | stop⟩
    · rw [runSteps_cons_of_none hrun, runSteps_cons_of_none hrun, ih, hk]
    · rw [runSteps_cons_of_some hrun, runSteps_cons_of_some hrun]

end

/-! ### Whole runs -/

/-- A run ends as its steps end. -/
theorem run_stop (o : Options) (p : Pipeline) (s : State) : (run o p s).2 =
    (runSteps o 1 p (s.tell o.logSteps [startMessage p.length s.image])).2 := by
  unfold run
  split <;> simp [*]

/-- Beyond its steps, a run only adds to the log. -/
theorem image_run (o : Options) (p : Pipeline) (s : State) : (run o p s).1.image =
    (runSteps o 1 p (s.tell o.logSteps [startMessage p.length s.image])).1.image := by
  unfold run
  split <;> simp [*]

theorem sources_run (o : Options) (p : Pipeline) (s : State) : (run o p s).1.sources =
    (runSteps o 1 p (s.tell o.logSteps [startMessage p.length s.image])).1.sources := by
  unfold run
  split <;> simp [*]

theorem reports_run (o : Options) (p : Pipeline) (s : State) : (run o p s).1.reports =
    (runSteps o 1 p (s.tell o.logSteps [startMessage p.length s.image])).1.reports := by
  unfold run
  split <;> simp [*]

theorem tree_run (o : Options) (p : Pipeline) (s : State) : (run o p s).1.tree =
    (runSteps o 1 p (s.tell o.logSteps [startMessage p.length s.image])).1.tree := by
  unfold run
  split <;> simp [*]

end Run
end ImagePipeline
