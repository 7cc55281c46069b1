import ImagePipeline.Proofs.Run.Events
import Mathlib.Data.Nat.Notation

/-!
# The messages of a run

The log of a run is told by its reports.  A step logs the header of its report before its node
is applied, and the result once there is one, so that a step which comes to its report logs all
the lines of it, and one that fails the header alone.  The reports themselves tell one size
after another, and follow the description of the pipeline.

## Main definitions

* `entries` — messages as they stand in a log.
* `described`, `headerOf` — the origin that a description names, and the header of a step.
* `Chained`, `lastSize` — reports that hand a size on, and the last of these sizes.
* `Recounts`, `Story` — what one step leaves, and what all steps leave.
* `messages` — the messages of a run, from its reports and its end.

## Main results

* `recounts_runStep` — a step is reported with all its lines, or it fails after its header.
* `exists_story_runSteps` — all steps.
* `run_messages` — log, reports and description of a run agree.
-/

namespace ImagePipeline
namespace Run

/-- Messages as they stand in a log, if the flag is set. -/
def entries (flag : Bool) (messages : List String) : List LogEntry :=
  if flag then messages.map (LogEntry.mk .info) else []

@[simp] theorem entries_nil (flag : Bool) : entries flag [] = [] := by
  cases flag <;> rfl

theorem entries_append (flag : Bool) (a b : List String) :
    entries flag (a ++ b) = entries flag a ++ entries flag b := by
  cases flag with
  | false => rfl
  | true => exact List.map_append

theorem log_tell (s : State) (flag : Bool) (messages : List String) :
    (s.tell flag messages).log = s.log ++ entries flag messages := by
  cases flag with
  | false => exact (List.append_nil s.log).symm
  | true => rfl

theorem log_closeStep (o : Options) (r : Report) (s : State) :
    (closeStep o r s).1.log = s.log ++ entries o.logSteps r.resultLines := log_tell _ _ _

/-! ### Descriptions and sizes -/

/-- The lines that are logged of a step before its node is applied to an image of a size. -/
def headerOf (d : ℤ × String × Option String) (size : String) : List String :=
  match d.2.2 with
  | some info => Report.headerLines ⟨d.1, d.2.1, info, size, "", none, none⟩
  | none => []

/-- Every report starts with the size that the one before it ended with, and the first one with
the given size. -/
def Chained (size : String) : List Report → Prop
  | [] => True
  | r :: rs => r.input = size ∧ Chained r.output rs

/-- The size that reports end with, which is the given one if there are none. -/
def lastSize (size : String) : List Report → String
  | [] => size
  | r :: rs => lastSize r.output rs

/-- The lines that are logged of a step that fails, which is the one behind those reported. -/
def abortLines (steps : List (ℤ × String × Option String)) (size : String) (rs : List Report) :
    Option Stop → List String
  | some (.failed _) => (steps[rs.length]?.map fun d => headerOf d (lastSize size rs)).getD []
  | _ => []

/-! ### One step -/

section

variable {o : Options} {k : ℤ} {n : Node} {s : State}

/-- What a step leaves: nothing, if its node cannot be put into words; or a report and all of its
lines; or the header of the report that it did not come to. -/
inductive Recounts (o : Options) (k : ℤ) (n : Node) (s : State) : State × Option Stop → Prop
  | overlong (hinfo : n.info? = none) : Recounts o k n s (s, some .overlong)
  | reported {r : Report} {s' : State} {stop : Option Stop}
      (horigin : origin r = (k, n.name, n.info?)) (hinput : r.input = s.image.describe)
      (houtput : r.output = s'.image.describe) (hreports : s'.reports = s.reports ++ [r])
      (hlog : s'.log = s.log ++ entries o.logSteps r.lines)
      (hstop : ∀ stop', stop = some stop' → ∃ i, stop' = .interrupted i) :
      Recounts o k n s (s', stop)
  | failed {e : RunError} {info : String} {s' : State} (hinfo : n.info? = some info)
      (hstep : e.step = k) (hname : e.name = n.name) (hreports : s'.reports = s.reports)
      (hlog : s'.log =
        s.log ++ entries o.logSteps (headerOf (k, n.name, n.info?) s.image.describe)) :
      Recounts o k n s (s', some (.failed e))

/-- A report that is closed has its header logged before. -/
theorem recounts_closeStep {r : Report} {s' : State} (horigin : origin r = (k, n.name, n.info?))
    (hinput : r.input = s.image.describe) (houtput : r.output = s'.image.describe)
    (hreports : s'.reports = s.reports)
    (hlog : s'.log = s.log ++ entries o.logSteps r.headerLines) :
    Recounts o k n s (closeStep o r s') := by
  show Recounts o k n s ((closeStep o r s').1, (closeStep o r s').2)
  refine .reported horigin hinput ?_ ?_ ?_ fun stop' hstop => ?_
  · rw [image_closeStep, houtput]
  · rw [reports_closeStep, hreports]
  · rw [log_closeStep, hlog, List.append_assoc, ← entries_append]
    rfl
  · obtain ⟨i, -, hi⟩ := Option.map_eq_some_iff.mp hstop
    exact ⟨i, hi.symm⟩

/-- **A step is reported with all its lines, or it fails after its header**, unless there is
nothing to say of it. -/
theorem recounts_runStep : Recounts o k n s (runStep o k n s) := by
  have hstep := stepEnds_runStep (o := o) (k := k) (n := n) (s := s)
  generalize runStep o k n s = outcome at hstep ⊢
  cases hstep with
  | overlong hr => exact .overlong (Node.info?_eq_none_iff.mpr (openReport?_eq_none_iff.mp hr))
  | refused hr | unsavable hr =>
    obtain ⟨hn, rfl⟩ := openReport?_eq_some_iff.mp hr
    have hinfo := Node.info?_eq_some hn
    refine .failed hinfo rfl rfl (State.reports_tell ..) ?_
    rw [hinfo]
    exact log_tell ..
  | saved hr | unsaved hr =>
    have horigin := origin_of_openReport? hr
    obtain ⟨-, rfl⟩ := openReport?_eq_some_iff.mp hr
    exact recounts_closeStep horigin rfl rfl (State.reports_tell ..) (log_tell ..)

end

/-! ### All steps -/

/-- What steps leave that have been reported by `rs`: reports that follow the steps and hand the
sizes on, and a log that is told by them. -/
structure Story (o : Options) (steps : List (ℤ × String × Option String)) (s : State) (rs : List Report)
    (result : State × Option Stop) : Prop where
  reports : result.1.reports = s.reports ++ rs
  origins : rs.map origin = steps.take rs.length
  chained : Chained s.image.describe rs
  finished : result.2 = none → rs.length = steps.length ∧
    lastSize s.image.describe rs = result.1.image.describe
  failed : ∀ e, result.2 = some (.failed e) →
    ∃ info, steps[rs.length]? = some (e.step, e.name, some info)
  overlong : result.2 = some .overlong → ∃ step name, steps[rs.length]? = some (step, name, none)
  log : result.1.log = s.log ++
    entries o.logSteps (rs.flatMap Report.lines ++ abortLines steps s.image.describe rs result.2)

section

variable {o : Options} {steps : List (ℤ × String × Option String)} {s s' : State}

theorem story_nil : Story o [] s [] (s, none) where
  reports := (List.append_nil _).symm
  origins := rfl
  chained := trivial
  finished _ := ⟨rfl, rfl⟩
  failed e h := absurd h (by simp)
  overlong h := absurd h (by simp)
  log := by simp [abortLines]

/-- A step in front that has been reported. -/
theorem Story.cons {d : ℤ × String × Option String} {r : Report} {rs : List Report}
    {result : State × Option Stop} (horigin : origin r = d) (hinput : r.input = s.image.describe)
    (houtput : r.output = s'.image.describe) (hreports : s'.reports = s.reports ++ [r])
    (hlog : s'.log = s.log ++ entries o.logSteps r.lines) (h : Story o steps s' rs result) :
    Story o (d :: steps) s (r :: rs) result where
  reports := by rw [h.reports, hreports, List.append_assoc, List.singleton_append]
  origins := by
    rw [List.map_cons, List.length_cons, List.take_succ_cons, horigin, h.origins]
  chained := ⟨hinput, houtput ▸ h.chained⟩
  finished hnone := by
    obtain ⟨hlength, hlast⟩ := h.finished hnone
    rw [List.length_cons, List.length_cons, hlength, lastSize, houtput, hlast]
    exact ⟨rfl, rfl⟩
  failed e he := by
    rw [List.length_cons, List.getElem?_cons_succ]
    exact h.failed e he
  overlong hlong := by
    rw [List.length_cons, List.getElem?_cons_succ]
    exact h.overlong hlong
  log := by
    have habort : abortLines (d :: steps) s.image.describe (r :: rs) result.2 =
        abortLines steps s'.image.describe rs result.2 := by
      unfold abortLines
      rw [List.length_cons, List.getElem?_cons_succ, lastSize, houtput]
    rw [h.log, hlog, habort, List.flatMap_cons, List.append_assoc, List.append_assoc,
      ← entries_append]

/-- Steps that end before the first of them has a report. -/
theorem story_ends {stop : Stop} (hreports : s'.reports = s.reports)
    (hfailed : ∀ e, stop = .failed e → ∃ info, steps[0]? = some (e.step, e.name, some info))
    (hoverlong : stop = .overlong → ∃ step name, steps[0]? = some (step, name, none))
    (hlog : s'.log = s.log ++
      entries o.logSteps (abortLines steps s.image.describe [] (some stop))) :
    Story o steps s [] (s', some stop) where
  reports := by rw [hreports, List.append_nil]
  origins := rfl
  chained := trivial
  finished h := absurd h (by simp)
  failed e he := hfailed e (Option.some.inj he)
  overlong h := hoverlong (Option.some.inj h)
  log := hlog

/-- **All steps are told by their reports.** -/
theorem exists_story_runSteps (k : ℤ) (ns : List Node) :
    ∃ rs, Story o (numbered k ns) s rs (runSteps o k ns s) := by
  induction ns generalizing k s with
  | nil => exact ⟨[], story_nil⟩
  | cons n ns ih =>
    have hstep := recounts_runStep (o := o) (k := k) (n := n) (s := s)
    generalize hrun : runStep o k n s = result at hstep
    cases hstep with
    | overlong hinfo =>
      rw [runSteps_cons_of_some hrun]
      refine ⟨[], story_ends rfl (fun e h => absurd h (by simp)) (fun _ => ?_) ?_⟩
      · exact ⟨k, n.name, by rw [numbered, hinfo]; rfl⟩
      · simp [abortLines]
    | @reported r s' stop horigin hinput houtput hreports hlog hstop =>
      cases stop with
      | none =>
        obtain ⟨rs, hrs⟩ := ih (s := s') (k + 1)
        rw [runSteps_cons_of_none hrun]
        exact ⟨r :: rs, hrs.cons horigin hinput houtput hreports hlog⟩
      | some stop =>
        -- interrupted behind its report: the step is told, and there is nothing behind it
        obtain ⟨i, rfl⟩ := hstop stop rfl
        rw [runSteps_cons_of_some hrun]
        have hnothing : Story o (numbered (k + 1) ns) s' [] (s', some (.interrupted i)) :=
          story_ends rfl (fun e h => absurd h (by simp)) (fun h => absurd h (by simp))
            (by simp [abortLines])
        exact ⟨[r], hnothing.cons horigin hinput houtput hreports hlog⟩
    | @failed e info s' hinfo hstep hname hreports hlog =>
      rw [runSteps_cons_of_some hrun]
      refine ⟨[], story_ends hreports (fun e' he' => ?_) (fun h => absurd h (by simp)) hlog⟩
      obtain rfl := Stop.failed.inj he'
      exact ⟨info, by rw [numbered, hstep, hname, hinfo]; rfl⟩

end

/-! ### Whole runs -/

/-- The messages of a run of nodes on an image, by its reports and its end. -/
def messages (o : Options) (nodes : Pipeline) (img : Image) (rs : List Report)
    (stop : Option Stop) : List String :=
  (if o.logSteps then
    startMessage nodes.length img :: (rs.flatMap Report.lines ++
      abortLines (numbered 1 nodes) img.describe rs stop)
  else []) ++ if stop = none then [finishMessage nodes.length] else []

/-- What a run adds to the log is told by its reports and its end. -/
theorem log_run_of_story {o : Options} {nodes : Pipeline} {s : State} {rs : List Report}
    (h : Story o (numbered 1 nodes) (s.tell o.logSteps [startMessage nodes.length s.image]) rs
      (runSteps o 1 nodes (s.tell o.logSteps [startMessage nodes.length s.image]))) :
    (run o nodes s).1.log =
      s.log ++ (messages o nodes s.image rs (run o nodes s).2).map (LogEntry.mk .info) := by
  have hstop := run_stop o nodes s
  have hlog := h.log
  rw [log_tell, List.append_assoc, ← entries_append, State.image_tell] at hlog
  have hsteps : entries o.logSteps ([startMessage nodes.length s.image] ++
      (rs.flatMap Report.lines ++
        abortLines (numbered 1 nodes) s.image.describe rs (run o nodes s).2)) =
      (if o.logSteps then startMessage nodes.length s.image :: (rs.flatMap Report.lines ++
        abortLines (numbered 1 nodes) s.image.describe rs (run o nodes s).2) else []).map
          (LogEntry.mk .info) := by
    cases o.logSteps <;> rfl
  rw [← hstop, hsteps] at hlog
  rw [messages, List.map_append, ← List.append_assoc, ← hlog, run]
  rcases runSteps o 1 nodes (s.tell o.logSteps [startMessage nodes.length s.image]) with
    ⟨s', _ | stop⟩
  · exact log_tell s' true _
  · exact (List.append_nil _).symm

/-- A run adds nothing but information to the log. -/
theorem exists_log_run (o : Options) (nodes : Pipeline) (s : State) :
    ∃ ms : List String, (run o nodes s).1.log = s.log ++ ms.map (LogEntry.mk .info) := by
  obtain ⟨rs, h⟩ := exists_story_runSteps (o := o)
    (s := s.tell o.logSteps [startMessage nodes.length s.image]) 1 nodes
  exact ⟨_, log_run_of_story h⟩

end Run
end ImagePipeline
