import ImagePipeline.Proofs.Node.Draws
import ImagePipeline.Proofs.Run.Step

/-!
# Runs compose

A run over two rows of nodes is a run over the first and then a run over the second, from
where the first has left the image and the sources of draws.  The second run counts its steps
anew, so that its reports and its errors are those of the whole run but for the numbers of
the steps.  What a run takes from the sources is told by the steps that it has executed.

## Main definitions

* `Report.later`, `Stop.later` — reports and ends with the step counted from elsewhere.
* `Later` — a run ends as another one does, a number of steps later.
* `Executes` — the steps that a run has executed.

## Main results

* `later_runSteps` — the same nodes from the same image, a number of steps later.
* `exists_executes_runSteps` — the draws of a run are those of its steps.
* `run_append` — runs compose.
-/

namespace ImagePipeline

/-- The report of the same step where `d` more steps come before it. -/
def Report.later (d : ℤ) (r : Report) : Report := { r with step := r.step + d }

@[simp] theorem Report.later_zero (r : Report) : r.later 0 = r := by simp [later]

namespace Run

/-- The same end where `d` more steps come before it. -/
def Stop.later (d : ℤ) : Stop → Stop
  | .overlong => .overlong
  | .failed e => .failed { e with step := e.step + d }
  | .interrupted i => .interrupted i

@[simp] theorem Stop.later_zero (stop : Stop) : stop.later 0 = stop := by
  cases stop <;> simp [later]

/-- The outcome `r'` of a run is the outcome `r` of another one `d` steps later, where `base'`
and `base` are the reports from before the two runs. -/
structure Later (d : ℤ) (base base' : List Report) (r r' : State × Option Stop) : Prop where
  stop : r'.2 = r.2.map (Stop.later d)
  image : r'.1.image = r.1.image
  sources : r'.1.sources = r.1.sources
  reports : ∃ rs, r.1.reports = base ++ rs ∧ r'.1.reports = base' ++ rs.map (Report.later d)

section

variable {o o' : Options} {d k : ℤ} {n : Node} {s t : State}

/-! ### The same steps later -/

theorem Later.of_tell {s' t' : State} {stop : Option Stop} (himage : t'.image = s'.image)
    (hsources : t'.sources = s'.sources) (hs : s'.reports = s.reports)
    (ht : t'.reports = t.reports) :
    Later d s.reports t.reports (s', stop) (t', stop.map (Stop.later d)) where
  stop := rfl
  image := himage
  sources := hsources
  reports := ⟨[], by simp [hs], by simp [ht]⟩

/-- A report that is shown `d` steps later is answered in the same way. -/
theorem later_closeStep (hobserver : ∀ r, o.observer r = o'.observer (r.later d)) (r : Report)
    {base base' : List Report} (himage : t.image = s.image) (hsources : t.sources = s.sources)
    (hs : s.reports = base) (ht : t.reports = base') :
    Later d base base' (closeStep o r s) (closeStep o' (r.later d) t) where
  stop := by
    rw [stop_closeStep, stop_closeStep, ← hobserver]
    cases o.observer r <;> rfl
  image := by rw [image_closeStep, image_closeStep, himage]
  sources := by rw [sources_closeStep, sources_closeStep, hsources]
  reports := ⟨[r], by rw [reports_closeStep, hs], by rw [reports_closeStep, ht]; rfl⟩

/-- A report that begins `d` steps later says the same but for its step. -/
theorem openReport?_add {img : Image} :
    openReport? (k + d) n img = (openReport? k n img).map (Report.later d) := by
  rw [openReport?, openReport?, Option.map_map]
  rfl

/-- **A node does `d` steps later what it does now.** -/
theorem later_runStep (ho : o.saveSteps = false) (ho' : o'.saveSteps = false)
    (hobserver : ∀ r, o.observer r = o'.observer (r.later d))
    (himage : t.image = s.image) (hsources : t.sources = s.sources) :
    Later d s.reports t.reports (runStep o k n s) (runStep o' (k + d) n t) := by
  have hlater : openReport? (k + d) n t.image =
      (openReport? k n s.image).map (Report.later d) := himage ▸ openReport?_add
  have hsame : n.apply t.sources t.image = n.apply s.sources s.image := by rw [himage, hsources]
  have hstep := stepEnds_runStep (o := o) (k := k) (n := n) (s := s)
  generalize runStep o k n s = outcome at hstep ⊢
  cases hstep with
  | overlong hr =>
    rw [hr] at hlater
    rw [runStep_of_openReport?_eq_none hlater]
    exact .of_tell himage hsources rfl rfl
  | refused hr happly =>
    rw [hr] at hlater
    rw [runStep_of_apply_error hlater (hsame.trans happly)]
    exact .of_tell (by simp [himage]) (by simp [hsources]) (by simp) (by simp)
  | unsavable _ _ hsave | saved _ _ hsave => exact absurd (hsave.symm.trans ho) (by simp)
  | @unsaved r img sources hr happly =>
    rw [hr] at hlater
    rw [runStep_of_unsaved hlater (hsame.trans happly) ho']
    exact later_closeStep hobserver { r with output := img.describe } rfl rfl
      (State.reports_tell ..) (State.reports_tell ..)

/-- **Nodes do `d` steps later what they do now.** -/
theorem later_runSteps (ho : o.saveSteps = false) (ho' : o'.saveSteps = false)
    (hobserver : ∀ r, o.observer r = o'.observer (r.later d)) (ns : List Node)
    (himage : t.image = s.image) (hsources : t.sources = s.sources) :
    Later d s.reports t.reports (runSteps o k ns s) (runSteps o' (k + d) ns t) := by
  induction ns generalizing k s t with
  | nil => exact ⟨rfl, himage, hsources, [], by simp [runSteps], by simp [runSteps]⟩
  | cons n ns ih =>
    have hstep : Later d s.reports t.reports (runStep o k n s) (runStep o' (k + d) n t) :=
      later_runStep ho ho' hobserver himage hsources
    rcases hs : runStep o k n s with ⟨s', stop⟩
    rcases ht : runStep o' (k + d) n t with ⟨t', stop'⟩
    rw [hs, ht] at hstep
    obtain ⟨hstop, himage', hsources', rs, hreports, hreports'⟩ := hstep
    obtain rfl : stop' = stop.map (Stop.later d) := hstop
    cases stop with
    | some stop =>
      rw [runSteps_cons_of_some hs, runSteps_cons_of_some ht]
      exact ⟨rfl, himage', hsources', rs, hreports, hreports'⟩
    | none =>
      -- the reports of this step come before those of the others
      obtain ⟨hstop, himage'', hsources'', rs', hrs, hrs'⟩ := ih (k := k + 1) himage' hsources'
      rw [runSteps_cons_of_none hs, runSteps_cons_of_none ht, Int.add_right_comm]
      refine ⟨hstop, himage'', hsources'', rs ++ rs', ?_, ?_⟩
      · rw [hrs, hreports, List.append_assoc]
      · rw [hrs', hreports', List.append_assoc, List.map_append]

/-! ### Executed steps -/

/-- The steps that a run from the state `s` has executed when it ends: an observer that
interrupts it leaves nodes that are not applied any more. -/
structure Executes (ns : List Node) (s : State) (outcome : State × Option Stop)
    (steps : List (Node × Image)) : Prop where
  isPrefix : steps <+: applications ns s.sources s.image
  complete : (∀ i, outcome.2 ≠ some (.interrupted i)) →
    steps = applications ns s.sources s.image
  reports : outcome.1.reports.length = s.reports.length + steps.length
  sources : SourcesAfter s.sources (fun id => demand id steps) (freshDemand steps)
    outcome.1.sources

theorem executes_nothing {ns : List Node} {outcome : State × Option Stop}
    (h : applications ns s.sources s.image = [])
    (hreports : outcome.1.reports = s.reports) (hsources : outcome.1.sources = s.sources) :
    Executes ns s outcome [] where
  isPrefix := List.nil_prefix
  complete _ := h.symm
  reports := by rw [hreports, List.length_nil, Nat.add_zero]
  sources := hsources ▸ sourcesAfter_nil s.sources

/-- An interrupted run executes nothing more. -/
theorem executes_interrupted {ns : List Node} {i : Interruption} :
    Executes ns s (s, some (.interrupted i)) [] where
  isPrefix := List.nil_prefix
  complete h := absurd rfl (h i)
  reports := rfl
  sources := sourcesAfter_nil s.sources

/-- A step in front that has applied its node. -/
theorem Executes.cons {ns : List Node} {s' : State} {outcome : State × Option Stop}
    {steps : List (Node × Image)} (hn : n.InLimit)
    (happly : n.apply s.sources s.image = .ok (s'.image, s'.sources))
    (hreports : s'.reports.length = s.reports.length + 1) (h : Executes ns s' outcome steps) :
    Executes (n :: ns) s outcome ((n, s.image) :: steps) := by
  have htrace : applications (n :: ns) s.sources s.image =
      (n, s.image) :: applications ns s'.sources s'.image := by
    simp only [applications, if_pos hn, happly]
  refine ⟨?_, fun hinterrupted => ?_, ?_, ?_⟩
  · rw [htrace]
    exact (List.prefix_cons_inj _).mpr h.isPrefix
  · rw [htrace, h.complete hinterrupted]
  · rw [h.reports, hreports, List.length_cons]
    omega
  · exact (Node.apply_eq_ok_iff.mp happly).sourcesAfter.cons h.sources

/-- **What a run takes from the sources is what its steps take.** -/
theorem exists_executes_runSteps (ho : o.saveSteps = false) (ns : List Node) :
    ∃ steps, Executes ns s (runSteps o k ns s) steps := by
  induction ns generalizing k s with
  | nil => exact ⟨[], executes_nothing rfl rfl rfl⟩
  | cons n ns ih =>
    have hstep := stepEnds_runStep (o := o) (k := k) (n := n) (s := s)
    generalize hrun : runStep o k n s = outcome at hstep
    cases hstep with
    | overlong hr =>
      rw [runSteps_cons_of_some hrun]
      exact ⟨[], executes_nothing (if_neg (openReport?_eq_none_iff.mp hr)) rfl rfl⟩
    | refused hr happly =>
      rw [runSteps_cons_of_some hrun]
      refine ⟨[], executes_nothing ?_ (State.reports_tell ..) (State.sources_tell ..)⟩
      simp only [applications, happly, ite_self]
    | unsavable _ _ hsave | saved _ _ hsave => exact absurd (hsave.symm.trans ho) (by simp)
    | @unsaved r img sources hr happly =>
      have hn : n.InLimit := (openReport?_eq_some_iff.mp hr).1
      -- only the observer ends a step whose node has made an image
      replace hrun : runStep o k n s = (_, (o.observer _).map .interrupted) := hrun
      cases hobserver : o.observer { r with output := img.describe } with
      | none =>
        rw [hobserver] at hrun
        obtain ⟨steps, h⟩ := ih
        rw [runSteps_cons_of_none hrun]
        exact ⟨_, h.cons hn (by simpa using happly) (by simp)⟩
      | some i =>
        rw [hobserver] at hrun
        rw [runSteps_cons_of_some hrun]
        exact ⟨_, executes_interrupted.cons hn (by simpa using happly) (by simp)⟩

end

/-! ### The main result -/

/-- What a run does besides its log is what its steps do, from wherever they are counted. -/
theorem later_run {o o' : Options} (ho : o.saveSteps = false) (ho' : o'.saveSteps = false)
    {d : ℤ} (hobserver : ∀ r, o.observer r = o'.observer (r.later d)) (p : Pipeline) {s t : State}
    (himage : t.image = s.image) (hsources : t.sources = s.sources) :
    Later d s.reports t.reports (run o p s) (runSteps o' (1 + d) p t) := by
  have h := later_runSteps (k := 1) ho ho' hobserver p
    (s := s.tell o.logSteps [startMessage p.length s.image]) (t := t)
    (by rw [State.image_tell, himage]) (by rw [State.sources_tell, hsources])
  rw [State.reports_tell] at h
  obtain ⟨hstop, himage', hsources', hreports⟩ := h
  exact ⟨by rw [run_stop, hstop], by rw [image_run, himage'], by rw [sources_run, hsources'],
    by rw [reports_run]; exact hreports⟩

theorem exists_executes_run {o : Options} (ho : o.saveSteps = false) (nodes : Pipeline)
    (s : State) : ∃ steps, Executes nodes s (run o nodes s) steps := by
  obtain ⟨steps, h⟩ := exists_executes_runSteps (k := 1) ho nodes
    (s := s.tell o.logSteps [startMessage nodes.length s.image])
  obtain ⟨happlied, hcomplete, hreports, hsources⟩ := h
  rw [State.sources_tell, State.image_tell] at happlied hcomplete
  rw [State.reports_tell] at hreports
  rw [State.sources_tell] at hsources
  exact ⟨steps, happlied, by rw [run_stop]; exact hcomplete, by rw [reports_run]; exact hreports,
    by rw [sources_run]; exact hsources⟩

/-- A run is its steps, whatever its log says before. -/
theorem exists_runSteps_eq_run {o : Options} (ho : o.saveSteps = false) (p : Pipeline)
    {s t : State} (himage : t.image = s.image) (hsources : t.sources = s.sources)
    (hreports : t.reports = s.reports) : ∃ t', runSteps o 1 p t = (t', (run o p s).2) ∧
      t'.image = (run o p s).1.image ∧ t'.sources = (run o p s).1.sources ∧
      t'.reports = (run o p s).1.reports := by
  have hreport : Report.later 0 = id := funext Report.later_zero
  have hend : Stop.later 0 = id := funext Stop.later_zero
  obtain ⟨hstop, himage', hsources', rs, hrs, hrs'⟩ :=
    later_run (d := 0) ho ho (fun r => by rw [Report.later_zero]) p himage hsources
  rw [hend, Option.map_id, id_eq] at hstop
  rw [hreport, List.map_id, hreports, ← hrs] at hrs'
  exact ⟨_, Prod.ext rfl hstop, himage', hsources', hrs'⟩

/-- **Runs compose.**  A run over the nodes `a` that does not go through ends the run over
`a ++ b` in the same way, with the same reports.  Otherwise the run over `a ++ b` makes the
image of a run over `b` that starts with what the run over `a` has left, from the sources
that it has left, and it leaves the same sources; it ends as that run does, and reports what
the two runs report, except that the steps of the second are counted on.  Here the observer
of the second run takes a report for what the observer of the whole takes it for once it is
counted on, which it does if neither interrupts.  However a run ends, it has taken from every
source what its steps take: a noise node whose band has members takes a draw for every pixel
of the image that it is applied to, and nothing else takes any. -/
theorem run_append {o o' : Options} {a b : Pipeline} (ho : o.saveSteps = false)
    (ho' : o'.saveSteps = false)
    (hobserver : ∀ r, o'.observer r = o.observer (r.later a.length)) (s : State) :
    (∀ stop, (run o a s).2 = some stop →
      (run o (a ++ b) s).2 = some stop ∧
      (run o (a ++ b) s).1.reports = (run o a s).1.reports ∧
      (run o (a ++ b) s).1.image = (run o a s).1.image ∧
      (run o (a ++ b) s).1.sources = (run o a s).1.sources) ∧
    ((run o a s).2 = none → ∀ t : State,
      t.image = (run o a s).1.image → t.sources = (run o a s).1.sources →
      (run o (a ++ b) s).2 = (run o' b t).2.map (Stop.later a.length) ∧
      (run o (a ++ b) s).1.image = (run o' b t).1.image ∧
      (run o (a ++ b) s).1.sources = (run o' b t).1.sources ∧
      ∃ rs, (run o' b t).1.reports = t.reports ++ rs ∧
        (run o (a ++ b) s).1.reports =
          (run o a s).1.reports ++ rs.map (Report.later a.length)) ∧
    ∀ nodes : Pipeline, ∃ steps, Executes nodes s (run o nodes s) steps := by
  rw [run_stop o (a ++ b), image_run o (a ++ b), sources_run o (a ++ b), reports_run o (a ++ b)]
  -- the whole run begins like the run over `a`, but for the message that it starts with
  generalize hstart : s.tell o.logSteps [startMessage (a ++ b).length s.image] = s₀
  obtain ⟨s₁, hrun, himage, hsources, hreports⟩ := exists_runSteps_eq_run ho a (s := s) (t := s₀)
    (by rw [← hstart, State.image_tell]) (by rw [← hstart, State.sources_tell])
    (by rw [← hstart, State.reports_tell])
  rw [runSteps_append, hrun]
  refine ⟨?_, ?_, fun nodes => exists_executes_run ho nodes s⟩
  · intro stop hfailed
    rw [hfailed]
    exact ⟨rfl, hreports, himage, hsources⟩
  · intro hnone t himaget hsourcest
    rw [hnone, ← hreports]
    obtain ⟨hstop, himage', hsources', hreports'⟩ := later_run ho' ho hobserver b (s := t) (t := s₁)
      (himage.trans himaget.symm) (hsources.trans hsourcest.symm)
    exact ⟨hstop, himage', hsources', hreports'⟩

/-- Noise on an image of two columns takes two draws, after a crop to one of them it takes
one more, and a crop of both is the fourth step that fails. -/
theorem run_append_noise_crop :
    let o : Options := ⟨false, false, .ofChars ['.'], "output", ['p', 'n', 'g'], fun _ => none⟩
    let s : State := ⟨.ofFn 2 1 fun _ _ => default, ⟨fun _ => .ofList [], fun _ => .ofList [7]⟩,
      .empty, [], []⟩
    let a : Pipeline := [.noise (.whole 1) (some 0), .crop ⟨1, 0, 1, 1⟩]
    let b : Pipeline := [.noise (.whole 1) (some 0), .crop ⟨0, 0, 2, 1⟩]
    (run o (a ++ b) s).2 =
        some (.failed ⟨4, "Crop", .node (.bounds (.exceeds ⟨0, 0, 2, 1⟩ 1 1))⟩) ∧
      ((run o (a ++ b) s).1.sources.owned 0).position = 3 ∧
      (run o (a ++ b) s).1.reports.map Report.step = [1, 2, 3] := by
  intro o s a b
  obtain ⟨-, hafter, hdraws⟩ := @run_append o o a b rfl rfl (fun _ => rfl) s
  have hgoes : (run o a s).2 = none := by decide +kernel
  obtain ⟨hstop, -, hsources, rs, hreports, hreports'⟩ := hafter hgoes (run o a s).1 rfl rfl
  have hsecond : (run o b (run o a s).1).2 =
      some (.failed ⟨2, "Crop", .node (.bounds (.exceeds ⟨0, 0, 2, 1⟩ 1 1))⟩) := by
    decide +kernel
  rw [hsecond] at hstop
  refine ⟨hstop, ?_, ?_⟩
  · obtain ⟨steps, hsteps⟩ := hdraws (a ++ b)
    have hcomplete := hsteps.complete (by rw [hstop]; simp [Stop.later])
    rw [hsteps.sources.owned_eq, hcomplete]
    decide +kernel
  · have hfirst : (run o a s).1.reports.map Report.step = [1, 2] := by decide +kernel
    have hboth : (run o b (run o a s).1).1.reports.map Report.step = [1, 2, 1] := by
      decide +kernel
    have hrs : rs.map Report.step = [1] := by
      simpa [hreports, hfirst] using hboth
    have hlater : rs.map (Report.step ∘ Report.later a.length) =
        (rs.map Report.step).map (· + 2) := by
      rw [List.map_map]
      rfl
    rw [hreports', List.map_append, hfirst, List.map_map, hlater, hrs]
    rfl

end Run
end ImagePipeline
