import ImagePipeline.File.Picture
import ImagePipeline.Pipeline.Basic
import ImagePipeline.Run.Log
import ImagePipeline.Run.Report

/-!
# Runs

A run applies the nodes of a pipeline to an image one after another.  Every step
is reported to an observer; on demand it is also logged, and its result saved to a
directory.  A run ends at the first step that cannot be put into words or that
fails, at the first result that cannot be saved, or when the observer interrupts
it.

What a run does is a function of its state: the image, the sources of draws, the
file tree, the log and the reports.

## Main definitions

* `Options` — what a run is asked to do besides.
* `State` — what a run changes.
* `Stop` — how a run ends early.
* `saveResult` — saves the result of a step.
* `runStep` — one step.
* `runSteps` — all steps from a given one on.
* `run` — a whole run.
-/

namespace ImagePipeline
namespace Run

/-- What an observer interrupts a run with. -/
structure Interruption where
  label : String
  message : String
  deriving DecidableEq, Repr

/-- What a run is asked to do besides applying the nodes. -/
structure Options where
  logSteps : Bool
  saveSteps : Bool
  directory : Path
  /-- What the names of saved results start with; the number of the step
  follows. -/
  stem : String
  extension : List Char
  /-- What the observer answers to a report. -/
  observer : Report → Option Interruption

/-- Why a step of a run fails. -/
inductive Cause where
  | node (e : Failure)
  | saving (e : SaveError)
  deriving DecidableEq

/-- The wording of the cause itself. -/
def Cause.message : Cause → String
  | .node e => e.message
  | .saving e => e.message

/-- The wording of a cause as the reason of a failed step. -/
def Cause.reason : Cause → String
  | .node e => e.message
  | .saving e => "could not save intermediate image: " ++ e.message

/-- A failed step. -/
structure RunError where
  step : Int
  name : String
  cause : Cause
  deriving DecidableEq

/-- The wording of a failed step, from its parts in words. -/
def stepMessage (step name reason : String) : String :=
  "step " ++ step ++ " (" ++ name ++ ") failed: " ++ reason

/-- The wording of a run error. -/
def RunError.message (e : RunError) : String := stepMessage (toString e.step) e.name e.cause.reason

/-- How a run ends early. -/
inductive Stop where
  /-- The parameters of a node cannot be written, so that there is no report to
  begin its step with. -/
  | overlong
  | failed (e : RunError)
  | interrupted (e : Interruption)
  deriving DecidableEq

/-- What a run changes. -/
structure State where
  image : Image
  sources : Sources
  tree : FileTree
  log : List LogEntry
  reports : List Report

/-- The state with messages added to the log, if the flag is set. -/
def State.tell (s : State) (flag : Bool) (messages : List String) : State :=
  if flag then { s with log := s.log ++ messages.map (LogEntry.mk .info) } else s

/-! ### Saving results -/

/-- The stem that the result of a step is saved under. -/
def resultStem (o : Options) (step : Int) : String :=
  (o.directory.join (o.stem ++ toString step)).toString

/-- The tree with the directory for results made, unless it is there. -/
def prepareDirectory (o : Options) (t : FileTree) : FileTree × Option FileError :=
  if t.contains o.directory.toString then (t, none) else t.makeDirectories o.directory

/-- Saves the result of a step: the tree afterwards, and where the result is. -/
def saveResult (o : Options) (t : FileTree) (step : Int) (img : Image) :
    FileTree × Except SaveError Path :=
  match prepareDirectory o t with
  | (t', some e) => (t', .error (.file e))
  | (t', none) =>
    match t'.writeImage (resultStem o step) o.extension img with
    | .error e => (t', .error e)
    | .ok (p, t'') => (t'', .ok p)

/-- The number of bytes of the file at a path. -/
def bytesAt (t : FileTree) (p : Path) : Option Int :=
  (t.find? p.toString).bind fun e => e.content?.map fun c => (c.size : Int)

/-! ### Steps -/

/-- The report of a step before its node is applied, if the node can be put into
words. -/
def openReport? (step : Int) (n : Node) (img : Image) : Option Report :=
  n.info?.map fun info => ⟨step, n.name, info, img.describe, "", none, none⟩

/-- Ends a step with a finished report: logs its result and shows it to the
observer. -/
def closeStep (o : Options) (r : Report) (s : State) : State × Option Stop :=
  let s' := s.tell o.logSteps r.resultLines
  ({ s' with reports := s'.reports ++ [r] }, (o.observer r).map .interrupted)

/-- Applies one node. -/
def runStep (o : Options) (step : Int) (n : Node) (s : State) : State × Option Stop :=
  match openReport? step n s.image with
  | none => (s, some .overlong)
  | some r =>
    let s₁ := s.tell o.logSteps r.headerLines
    match n.apply s₁.sources s₁.image with
    | .error e => (s₁, some (.failed ⟨step, n.name, .node e⟩))
    | .ok (img, sources) =>
      let s₂ := { s₁ with image := img, sources := sources }
      let r₂ := { r with output := img.describe }
      if o.saveSteps then
        match saveResult o s₂.tree step img with
        | (t, .error e) => ({ s₂ with tree := t }, some (.failed ⟨step, n.name, .saving e⟩))
        | (t, .ok p) =>
          closeStep o { r₂ with artifact := some p, artifactBytes := bytesAt t p }
            { s₂ with tree := t }
      else closeStep o r₂ s₂

/-- Applies nodes, the first of which is the step of the given number. -/
def runSteps (o : Options) (step : Int) : List Node → State → State × Option Stop
  | [], s => (s, none)
  | n :: ns, s =>
    match runStep o step n s with
    | (s', some stop) => (s', some stop)
    | (s', none) => runSteps o (step + 1) ns s'

/-- The message that a run begins with. -/
def startMessage (count : Nat) (img : Image) : String :=
  "Running pipeline of " ++ toString count ++ " node(s) on " ++ img.describe

/-- The message that a finished run ends with. -/
def finishMessage (count : Nat) : String := "Finished processing " ++ toString count ++ " node(s)"

/-- Applies a pipeline.  Without an early end, the image of the last state is the
result. -/
def run (o : Options) (p : Pipeline) (s : State) : State × Option Stop :=
  match runSteps o 1 p (s.tell o.logSteps [startMessage p.length s.image]) with
  | (s', some stop) => (s', some stop)
  | (s', none) => (s'.tell true [finishMessage p.length], none)

end Run
end ImagePipeline
