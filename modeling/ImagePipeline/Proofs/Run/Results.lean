import ImagePipeline.Proofs.Node.Makes
import ImagePipeline.Proofs.Run.Sizes

/-!
# The results of runs

A run that goes through, whatever it is asked to do besides, makes what its nodes make one
after another; and if nothing is saved and nobody interrupts, it goes through whenever they
make something.

## Main results

* `applyAll_of_run_eq_none` — what a run has made that goes through.
* `run_of_applyAll` — what a quiet run makes.
* `run_of_apply_error` — where a quiet run ends.
* `inLimit_of_run_eq_none` — what can be said of the nodes of a run that goes through.
-/

namespace ImagePipeline
namespace Run

section

variable {o : Options} {k : ℤ} {n : Node} {s s' : State}

/-- A step that goes on has put its node into words and has applied it. -/
theorem apply_of_runStep_eq_none (h : runStep o k n s = (s', none)) :
    n.InLimit ∧ n.apply s.sources s.image = .ok (s'.image, s'.sources) := by
  have hstep := stepEnds_runStep (o := o) (k := k) (n := n) (s := s)
  rw [h] at hstep
  generalize houtcome : (s', (none : Option Stop)) = outcome at hstep
  cases hstep with
  | overlong | refused | unsavable => exact absurd (Prod.mk.inj houtcome).2 (by simp)
  | saved hr happly | unsaved hr happly =>
    obtain rfl : s' = _ := congrArg Prod.fst houtcome
    rw [image_closeStep, sources_closeStep, happly]
    exact ⟨(openReport?_eq_some_iff.mp hr).1, rfl⟩

theorem applyAll_of_runSteps_eq_none {ns : List Node} (h : runSteps o k ns s = (s', none)) :
    (∀ n ∈ ns, n.InLimit) ∧ applyAll ns s.sources s.image = .ok (s'.image, s'.sources) := by
  induction ns generalizing k s with
  | nil =>
    obtain rfl : s = s' := congrArg Prod.fst h
    exact ⟨by simp, rfl⟩
  | cons n ns ih =>
    rcases hrun : runStep o k n s with ⟨s₁, _ | stop⟩
    · rw [runSteps_cons_of_none hrun] at h
      obtain ⟨hn, happly⟩ := apply_of_runStep_eq_none hrun
      obtain ⟨hns, hrest⟩ := ih h
      exact ⟨List.forall_mem_cons.mpr ⟨hn, hns⟩, by simpa only [applyAll, happly] using hrest⟩
    · rw [runSteps_cons_of_some hrun] at h
      exact absurd (Prod.mk.inj h).2 (by simp)

/-- Nodes that can be put into words and make an image go through if nobody stops them. -/
theorem runSteps_eq_none_of_applyAll (ho : o.IsQuiet) {ns : List Node}
    (hns : ∀ n ∈ ns, n.InLimit) {out : Image × Sources}
    (h : applyAll ns s.sources s.image = .ok out) : (runSteps o k ns s).2 = none := by
  induction ns generalizing k s with
  | nil => rfl
  | cons n ns ih =>
    obtain ⟨hn, hns⟩ := List.forall_mem_cons.mp hns
    cases happly : n.apply s.sources s.image with
    | error f => simp [applyAll, happly] at h
    | ok r =>
      obtain ⟨img, sources⟩ := r
      simp only [applyAll, happly] at h
      obtain ⟨s₁, hrun, -, -⟩ := runStep_of_quiet (k := k) ho hn happly
      have hmade := (apply_of_runStep_eq_none hrun).2
      obtain ⟨rfl, rfl⟩ := Prod.mk.inj (Except.ok.inj (happly.symm.trans hmade))
      rw [runSteps_cons_of_none hrun]
      exact ih hns h

/-- A node that makes nothing of what the nodes before it have made ends the run. -/
theorem runSteps_of_apply_error (ho : o.IsQuiet) {before : List Node} (after : List Node)
    {img : Image} {sources : Sources} {f : Failure}
    (hnodes : ∀ m ∈ before ++ n :: after, m.InLimit)
    (h : applyAll before s.sources s.image = .ok (img, sources))
    (hn : n.apply sources img = .error f) : (runSteps o k (before ++ n :: after) s).2 =
      some (.failed ⟨k + before.length, n.name, .node f⟩) := by
  obtain ⟨hbefore, hafter⟩ := List.forall_mem_append.mp hnodes
  have hnone := runSteps_eq_none_of_applyAll (k := k) ho hbefore h
  rcases hrun : runSteps o k before s with ⟨s₁, stop⟩
  obtain rfl : stop = none := by rw [hrun] at hnone; exact hnone
  have hmade := h.symm.trans (applyAll_of_runSteps_eq_none hrun).2
  obtain ⟨rfl, rfl⟩ := Prod.mk.inj (Except.ok.inj hmade)
  have hr := openReport?_of_inLimit (hafter n List.mem_cons_self) (k + before.length) s₁.image
  rw [runSteps_append, hrun]
  exact congrArg Prod.snd (runSteps_cons_of_some (runStep_of_apply_error hr hn))

end

/-- **A run that goes through makes what its nodes make one after another.** -/
theorem applyAll_of_run_eq_none {o : Options} {nodes : Pipeline} {s : State}
    (h : (run o nodes s).2 = none) : applyAll nodes s.sources s.image =
      .ok ((run o nodes s).1.image, (run o nodes s).1.sources) := by
  rw [run_stop] at h
  rw [image_run, sources_run]
  have happly := (applyAll_of_runSteps_eq_none (Prod.ext rfl h)).2
  rwa [State.sources_tell, State.image_tell] at happly

/-- A run that goes through has nodes that can be put into words. -/
theorem inLimit_of_run_eq_none {o : Options} {nodes : Pipeline} {s : State}
    (h : (run o nodes s).2 = none) : ∀ n ∈ nodes, n.InLimit := by
  rw [run_stop] at h
  exact (applyAll_of_runSteps_eq_none (Prod.ext rfl h)).1

/-- **A quiet run goes through if its nodes can be put into words and make something**, and
makes that. -/
theorem run_of_applyAll {o : Options} (ho : o.IsQuiet) {nodes : Pipeline}
    (hnodes : ∀ n ∈ nodes, n.InLimit) {s : State} {out : Image} {sources : Sources}
    (h : applyAll nodes s.sources s.image = .ok (out, sources)) :
    (run o nodes s).2 = none ∧ (run o nodes s).1.image = out ∧
      (run o nodes s).1.sources = sources := by
  have hnone : (run o nodes s).2 = none := by
    have htold : applyAll nodes (s.tell o.logSteps [startMessage nodes.length s.image]).sources
        (s.tell o.logSteps [startMessage nodes.length s.image]).image = .ok (out, sources) := by
      rwa [State.sources_tell, State.image_tell]
    rw [run_stop]
    exact runSteps_eq_none_of_applyAll ho hnodes htold
  have hmade := h.symm.trans (applyAll_of_run_eq_none hnone)
  obtain ⟨himage, hsources⟩ := Prod.mk.inj (Except.ok.inj hmade)
  exact ⟨hnone, himage.symm, hsources.symm⟩

/-- **A quiet run ends at the first node that makes nothing.** -/
theorem run_of_apply_error {o : Options} (ho : o.IsQuiet) {before : List Node} (after : List Node)
    {n : Node} (hnodes : ∀ m ∈ before ++ n :: after, m.InLimit) {s : State} {img : Image}
    {sources : Sources} {f : Failure} (h : applyAll before s.sources s.image = .ok (img, sources))
    (hn : n.apply sources img = .error f) : (run o (before ++ n :: after) s).2 =
      some (.failed ⟨before.length + 1, n.name, .node f⟩) := by
  have htold : ∀ messages, applyAll before (s.tell o.logSteps messages).sources
      (s.tell o.logSteps messages).image = .ok (img, sources) := by
    intro messages
    rwa [State.sources_tell, State.image_tell]
  rw [run_stop, runSteps_of_apply_error ho after hnodes (htold _) hn, Int.add_comm]

end Run
end ImagePipeline
