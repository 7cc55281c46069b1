import ImagePipeline.CommandLine.Session
import ImagePipeline.Proofs.Run.Artifacts
import ImagePipeline.Proofs.Run.Messages

/-!
# How sessions go

A session loads an image and nodes, runs them and saves the result, and stops where one of these
fails.  What a stage does to the file tree is done when all stages before it have succeeded, so
that a session which fails to load leaves the tree as it was, one whose run fails leaves what the
run has saved, and only one that succeeds touches the file of its final picture.

All this is about sessions whose arguments name every path.  A path whose place is taken by a
separator breaks a session off.

## Main definitions

* `finalPath` — where the final picture goes.
* `Session.loadNodes`, `Session.runLoaded` — what a session loads, and its run.
* `Session.Course` — the ways in which a session goes.
* `Session.Succeeds` — every stage of a session succeeds.

## Main results

* `Session.course_perform` — a session goes in one of these ways.
* `Session.keepsFile_of_failed` — a session that fails leaves the final file alone.
* `Session.start_atomic` — what the exit code says.
-/

namespace ImagePipeline
namespace CommandLine

open FileTree Run

/-- Where the final picture goes with the standard settings. -/
def finalPath (directory : String) : Path := (Path.ofString directory).join "finalOutput.png"

/-- The messages at the level of errors. -/
def errors (log : List LogEntry) : List LogEntry := log.filter fun m => m.level == .error

theorem errors_append (a b : List LogEntry) : errors (a ++ b) = errors a ++ errors b :=
  List.filter_append a b

theorem errors_warnings (fallbacks : List Definition.Fallback) :
    errors (warnings fallbacks) = [] := by
  simp [errors, warnings]

theorem errors_infos (messages : List String) : errors (messages.map (LogEntry.mk .info)) = [] := by
  simp [errors]

/-! ### The stages of a session -/

namespace Session

/-- What a session loads from a definition: the fallbacks on the way, and the nodes. -/
def loadDefinition (s : Session) (a : Arguments) (definition : String) :
    List Definition.Fallback × Except Definition.DocumentError (List Node) :=
  Definition.load s.registry (s.settings.strictness (if a.strict then some true else none)) s.tree
    definition

/-- The nodes that a session loads from a definition. -/
def loadNodes (s : Session) (a : Arguments) (definition : String) :
    Except Definition.DocumentError (List Node) := (s.loadDefinition a definition).2

/-- What has been told once the nodes of a definition are loaded. -/
def remarks (s : Session) (a : Arguments) (definition : String) (nodes : List Node) :
    List LogEntry :=
  warnings (s.loadDefinition a definition).1 ++
    [⟨.debug, Definition.loadedMessage nodes.length definition⟩]

/-- The run of a session on what it has loaded. -/
def runLoaded (s : Session) (a : Arguments) (definition directory : String) (img : Image)
    (nodes : List Node) : State × Option Stop :=
  Run.run (s.runOptions a directory) nodes
    ⟨img, s.sources, s.tree, s.remarks a definition nodes, []⟩

variable {s : Session} {a : Arguments} {definition saveDirectory outputDirectory : String}
  {img : Image} {nodes : List Node} {r : State} {stop : Option Stop} {t t' : FileTree}

/-- What a session loads and how it runs is determined. -/
theorem runLoaded_unique {img' : Image} {nodes' : List Node} {r' : State} {stop' : Option Stop}
    (himage : s.loadImage a = .ok img) (hnodes : s.loadNodes a definition = .ok nodes)
    (hrun : s.runLoaded a definition saveDirectory img nodes = (r, stop))
    (himage' : s.loadImage a = .ok img') (hnodes' : s.loadNodes a definition = .ok nodes')
    (hrun' : s.runLoaded a definition saveDirectory img' nodes' = (r', stop')) :
    r = r' ∧ stop = stop' := by
  obtain rfl := Except.ok.inj (himage.symm.trans himage')
  obtain rfl := Except.ok.inj (hnodes.symm.trans hnodes')
  exact Prod.mk.inj (hrun.symm.trans hrun')

/-- Nothing that is told before a session fails is an error. -/
theorem errors_log_of_runLoaded
    (h : s.runLoaded a definition saveDirectory img nodes = (r, stop)) : errors r.log = [] := by
  obtain ⟨ms, hlog⟩ := exists_log_run (s.runOptions a saveDirectory) nodes
    ⟨img, s.sources, s.tree, s.remarks a definition nodes, []⟩
  rw [← runLoaded, h] at hlog
  rw [hlog, errors_append, errors_infos, remarks, errors_append, errors_warnings]
  rfl

/-- The final picture is saved, or it is not, but no path is missing any more. -/
theorem saveFinal_cases (s : Session) (directory : String) (t : FileTree) (img : Image) :
    (∃ t' e, s.saveFinal directory t img = (t', .failed e)) ∨
      ∃ t' p, s.saveFinal directory t img = (t', .saved p) := by
  unfold saveFinal
  simp only
  rcases t.makeDirectories (Path.ofString directory) with ⟨t₁, _ | e⟩
  · simp only
    split
    · exact Or.inl ⟨_, _, rfl⟩
    · exact Or.inr ⟨_, _, rfl⟩
  · exact Or.inl ⟨_, _, rfl⟩

/-- **A final picture that is saved reads back.** -/
theorem saveFinal_eq_saved (hsettings : s.settings = .standard) {p : Path}
    (h : s.saveFinal outputDirectory t img = (t', .saved p)) :
    p = finalPath outputDirectory ∧
      t'.loadImage (finalPath outputDirectory).toString = .ok img := by
  unfold saveFinal at h
  rw [hsettings] at h
  simp only at h
  rcases hmade : t.makeDirectories (Path.ofString outputDirectory) with ⟨t₁, _ | e⟩
  · simp only [hmade] at h
    split at h
    · exact absurd (Prod.mk.inj h).2 (by simp)
    · next path t₂ hwrite =>
      obtain ⟨rfl, hp⟩ := Prod.mk.inj h
      obtain rfl := Ending.saved.inj hp
      have hname : IsName "finalOutput" := ⟨by decide, by decide, by decide⟩
      obtain ⟨rfl, hload⟩ := writeImage_png_eq_ok (Path.isNormal_ofString outputDirectory) hname
        hwrite
      exact ⟨rfl, hload⟩
  · rw [hmade] at h
    exact absurd (Prod.mk.inj h).2 (by simp)

/-- A final picture that is not saved leaves at most directories behind. -/
theorem changes_of_saveFinal_failed (files : String → Prop) {e : SessionError}
    (h : s.saveFinal outputDirectory t img = (t', .failed e)) :
    Changes files (IsUpFrom (.ofString outputDirectory)) t t' := by
  have hmade := changes_makeDirectories files t (.ofString outputDirectory)
  unfold saveFinal at h
  simp only at h
  generalize t.makeDirectories (Path.ofString outputDirectory) = made at h hmade
  obtain ⟨t₁, _ | e'⟩ := made
  · simp only at h
    split at h
    · obtain ⟨rfl, -⟩ := Prod.mk.inj h
      exact hmade
    · exact absurd (Prod.mk.inj h).2 (by simp)
  · obtain ⟨rfl, -⟩ := Prod.mk.inj h
    exact hmade

/-! ### The course of a session -/

/-- The ways in which a session goes whose arguments name every path, with the work that comes
of it. -/
inductive Course (s : Session) (a : Arguments)
    (definition saveDirectory outputDirectory : String) : Work → Prop
  | noImage {e : SessionError} (himage : s.loadImage a = .error e) :
      Course s a definition saveDirectory outputDirectory ⟨[], s.tree, .failed e⟩
  | noNodes {img : Image} {e : Definition.DocumentError} {log : List LogEntry}
      (himage : s.loadImage a = .ok img) (hnodes : s.loadNodes a definition = .error e)
      (hlog : errors log = []) :
      Course s a definition saveDirectory outputDirectory
        ⟨log, s.tree, .failed (.definition e)⟩
  | stopped {img : Image} {nodes : List Node} {r : State} {stop : Stop}
      (himage : s.loadImage a = .ok img) (hnodes : s.loadNodes a definition = .ok nodes)
      (hrun : s.runLoaded a definition saveDirectory img nodes = (r, some stop)) :
      Course s a definition saveDirectory outputDirectory ⟨r.log, r.tree, .failed (.run stop)⟩
  | unsaved {img : Image} {nodes : List Node} {r : State} {t : FileTree} {e : SessionError}
      (himage : s.loadImage a = .ok img) (hnodes : s.loadNodes a definition = .ok nodes)
      (hrun : s.runLoaded a definition saveDirectory img nodes = (r, none))
      (hfinal : s.saveFinal outputDirectory r.tree r.image = (t, .failed e)) :
      Course s a definition saveDirectory outputDirectory ⟨r.log, t, .failed e⟩
  | saved {img : Image} {nodes : List Node} {r : State} {t : FileTree} {p : Path}
      (himage : s.loadImage a = .ok img) (hnodes : s.loadNodes a definition = .ok nodes)
      (hrun : s.runLoaded a definition saveDirectory img nodes = (r, none))
      (hfinal : s.saveFinal outputDirectory r.tree r.image = (t, .saved p)) :
      Course s a definition saveDirectory outputDirectory ⟨r.log, t, .saved p⟩

/-- **A session goes in one of these ways.** -/
theorem course_perform (hdefinition : a.pipeline = some definition)
    (hsave : a.saveDirectory = some saveDirectory)
    (houtput : a.outputDirectory = some outputDirectory) :
    Course s a definition saveDirectory outputDirectory (s.perform a) := by
  unfold perform
  cases himage : s.loadImage a with
  | error e => exact .noImage himage
  | ok img =>
    simp only [follow, hdefinition]
    have hloaded : s.loadNodes a definition = (s.loadDefinition a definition).2 := rfl
    have htold : s.remarks a definition = fun nodes => warnings (s.loadDefinition a definition).1 ++
        [⟨.debug, Definition.loadedMessage nodes.length definition⟩] := rfl
    rw [← loadDefinition]
    generalize s.loadDefinition a definition = loading at hloaded htold
    obtain ⟨fallbacks, e | nodes⟩ := loading
    · exact .noNodes himage hloaded (errors_warnings fallbacks)
    · have hlog : warnings fallbacks ++
          [⟨.debug, Definition.loadedMessage nodes.length definition⟩] =
            s.remarks a definition nodes := by rw [htold]
      simp only [transform, hsave, houtput, hlog]
      rw [← runLoaded]
      rcases hrun : s.runLoaded a definition saveDirectory img nodes with ⟨r, _ | stop⟩
      · rcases saveFinal_cases s outputDirectory r.tree r.image with
          ⟨t, e, hfinal⟩ | ⟨t, p, hfinal⟩
        · simp only [hfinal]
          exact .unsaved himage hloaded hrun hfinal
        · simp only [hfinal]
          exact .saved himage hloaded hrun hfinal
      · exact .stopped himage hloaded hrun

/-! ### What the stages leave in the file tree -/

theorem savesPng_runOptions (hsettings : s.settings = .standard) :
    SavesPng (s.runOptions a saveDirectory) := by
  rw [runOptions, hsettings]
  exact ⟨Path.isNormal_ofString saveDirectory, (by decide : '/' ∉ "output".toList), rfl⟩

/-- **A run that saves its results** leaves those of the steps before the one that fails. -/
theorem exists_mirrors_of_runLoaded (hsettings : s.settings = .standard)
    (hsaves : a.saveIntermediate = true)
    (h : s.runLoaded a definition saveDirectory img nodes = (r, stop)) : ∃ saved,
      saved <+: madeImages nodes s.sources img ∧
      Mirrors (s.runOptions a saveDirectory) s.tree saved r.tree ∧
      ∀ e, stop = some (.failed e) → e.step = saved.length + 1 := by
  obtain ⟨saved, rs, hleaves⟩ := exists_leaves_run (savesPng_runOptions hsettings) hsaves nodes
    ⟨img, s.sources, s.tree, s.remarks a definition nodes, []⟩
  rw [← runLoaded, h] at hleaves
  refine ⟨saved, hleaves.made, hleaves.mirrors, fun e he => ?_⟩
  rw [hleaves.failed e he, Int.add_comm]

theorem tree_of_runLoaded (hsaves : a.saveIntermediate = false)
    (h : s.runLoaded a definition saveDirectory img nodes = (r, stop)) : r.tree = s.tree := by
  have htree : (s.runLoaded a definition saveDirectory img nodes).1.tree = s.tree :=
    tree_run_of_unsaved _ (Or.inl hsaves)
  rwa [h] at htree

/-- A run writes no other files than results of its steps. -/
theorem changes_of_runLoaded (hsettings : s.settings = .standard)
    (h : s.runLoaded a definition saveDirectory img nodes = (r, stop)) :
    Changes (fun path => ∃ k, path = (resultPath (s.runOptions a saveDirectory) k).toString)
      (fun _ => True) s.tree r.tree := by
  cases hsaves : a.saveIntermediate with
  | false =>
    rw [tree_of_runLoaded hsaves h]
    exact .refl s.tree
  | true =>
    obtain ⟨saved, -, hmirrors, -⟩ := exists_mirrors_of_runLoaded hsettings hsaves h
    refine hmirrors.changes.mono ?_ fun _ _ => trivial
    rintro path ⟨i, -, rfl⟩
    exact ⟨_, rfl⟩

/-- No result of a step has the name of the final picture. -/
theorem resultName_ne_final (hsettings : s.settings = .standard) (k : ℤ) :
    resultName (s.runOptions a saveDirectory) k ≠ "finalOutput.png" := by
  intro h
  have hstem : (s.runOptions a saveDirectory).stem = "output" := by
    rw [runOptions, hsettings]
    rfl
  have hchars := congrArg String.toList h
  rw [resultName, hstem, String.toList_append, String.toList_append] at hchars
  exact absurd (List.cons.inj hchars).1 (by decide)

/-- The results of the steps of a run leave the final file alone, wherever they are. -/
theorem keepsFile_of_changes (hsettings : s.settings = .standard)
    (h : Changes (fun path => ∃ k, path = (resultPath (s.runOptions a saveDirectory) k).toString)
      (fun _ => True) t t') : KeepsFile (finalPath outputDirectory).toString t t' := by
  have ho : SavesPng (s.runOptions a saveDirectory) := savesPng_runOptions hsettings
  have hname : IsName "finalOutput.png" := ⟨by decide, by decide, by decide⟩
  refine h.keepsFile (Path.isNormal_ofString outputDirectory) hname (by decide) ?_
  rintro path ⟨k, rfl⟩
  exact ⟨_, resultName (s.runOptions a saveDirectory) k, ho.directory, ho.isName_resultName k,
    resultName_ne_up _ k, resultName_ne_final hsettings k, rfl⟩

/-- **A session that fails** tells one error and leaves the final file alone. -/
theorem keepsFile_of_failed (hsettings : s.settings = .standard) {w : Work} {e : SessionError}
    (h : Course s a definition saveDirectory outputDirectory w) (he : w.ending = .failed e) :
    errors w.messages = [⟨.error, "Error: " ++ e.message⟩] ∧
      KeepsFile (finalPath outputDirectory).toString s.tree w.tree := by
  have hmessages : errors w.log = [] → errors w.messages = [⟨.error, "Error: " ++ e.message⟩] := by
    intro hlog
    rw [Work.messages, errors_append, hlog, he]
    rfl
  cases h with
  | noImage himage => exact ⟨hmessages rfl, .refl _ _⟩
  | noNodes himage hnodes hlog => exact ⟨hmessages hlog, .refl _ _⟩
  | stopped himage hnodes hrun =>
    exact ⟨hmessages (errors_log_of_runLoaded hrun),
      keepsFile_of_changes hsettings (changes_of_runLoaded hsettings hrun)⟩
  | unsaved himage hnodes hrun hfinal =>
    -- the directories on the way to the final picture come on top of what the run has saved
    have hmade := changes_of_saveFinal_failed
      (fun path => ∃ k, path = (resultPath (s.runOptions a saveDirectory) k).toString) hfinal
    exact ⟨hmessages (errors_log_of_runLoaded hrun), keepsFile_of_changes hsettings
      ((changes_of_runLoaded hsettings hrun).trans
        (hmade.mono (fun _ => id) fun _ _ => trivial))⟩
  | saved himage hnodes hrun hfinal => exact absurd he (by simp)

/-! ### The exit code -/

/-- Every stage of a session succeeds, and the run ends in the state `r`. -/
def Succeeds (s : Session) (a : Arguments) (definition saveDirectory outputDirectory : String)
    (r : State) : Prop :=
  ∃ img nodes t p, s.loadImage a = .ok img ∧ s.loadNodes a definition = .ok nodes ∧
    s.runLoaded a definition saveDirectory img nodes = (r, none) ∧
    s.saveFinal outputDirectory r.tree r.image = (t, .saved p)

section

variable {w : Work}

/-- A session whose stages all succeed ends with a saved picture, and any other fails. -/
theorem Course.saved_or_failed (hsettings : s.settings = .standard)
    (h : Course s a definition saveDirectory outputDirectory w) :
    (∃ r, s.Succeeds a definition saveDirectory outputDirectory r ∧
      (∀ r', s.Succeeds a definition saveDirectory outputDirectory r' → r' = r) ∧
      w.ending = .saved (finalPath outputDirectory) ∧
      w.tree.loadImage (finalPath outputDirectory).toString = .ok r.image) ∨
    (∀ r, ¬ s.Succeeds a definition saveDirectory outputDirectory r) ∧
      ∃ e, w.ending = .failed e := by
  cases h with
  | noImage himage =>
    refine Or.inr ⟨?_, _, rfl⟩
    rintro r ⟨img, nodes, t, p, himage', -⟩
    exact absurd (himage.symm.trans himage') (by simp)
  | noNodes himage hnodes hlog =>
    refine Or.inr ⟨?_, _, rfl⟩
    rintro r ⟨img, nodes, t, p, -, hnodes', -⟩
    exact absurd (hnodes.symm.trans hnodes') (by simp)
  | stopped himage hnodes hrun =>
    refine Or.inr ⟨?_, _, rfl⟩
    rintro r ⟨img, nodes, t, p, himage', hnodes', hrun', -⟩
    exact absurd (runLoaded_unique himage hnodes hrun himage' hnodes' hrun').2 (by simp)
  | unsaved himage hnodes hrun hfinal =>
    refine Or.inr ⟨?_, _, rfl⟩
    rintro r ⟨img, nodes, t, p, himage', hnodes', hrun', hfinal'⟩
    obtain ⟨rfl, -⟩ := runLoaded_unique himage hnodes hrun himage' hnodes' hrun'
    exact absurd (Prod.mk.inj (hfinal.symm.trans hfinal')).2 (by simp)
  | @saved img nodes r t p himage hnodes hrun hfinal =>
    obtain ⟨rfl, hload⟩ := saveFinal_eq_saved hsettings hfinal
    refine Or.inl ⟨r, ⟨img, nodes, t, _, himage, hnodes, hrun, hfinal⟩, ?_, rfl, hload⟩
    rintro r' ⟨img', nodes', t', p', himage', hnodes', hrun', -⟩
    exact (runLoaded_unique himage' hnodes' hrun' himage hnodes hrun).1

/-- A session that does not load leaves the tree as it was. -/
theorem Course.tree_of_not_loaded (h : Course s a definition saveDirectory outputDirectory w)
    (hload : ¬ ∃ img nodes, s.loadImage a = .ok img ∧ s.loadNodes a definition = .ok nodes) :
    w.tree = s.tree := by
  cases h with
  | noImage himage => rfl
  | noNodes himage hnodes hlog => rfl
  | stopped himage hnodes hrun => exact absurd ⟨_, _, himage, hnodes⟩ hload
  | unsaved himage hnodes hrun hfinal => exact absurd ⟨_, _, himage, hnodes⟩ hload
  | saved himage hnodes hrun hfinal => exact absurd ⟨_, _, himage, hnodes⟩ hload

/-- A session whose run stops leaves the tree as the run leaves it. -/
theorem Course.tree_of_stopped (h : Course s a definition saveDirectory outputDirectory w)
    {stop : Stop} (himage : s.loadImage a = .ok img) (hnodes : s.loadNodes a definition = .ok nodes)
    (hrun : s.runLoaded a definition saveDirectory img nodes = (r, some stop)) :
    w.tree = r.tree := by
  cases h with
  | noImage himage' => exact absurd (himage.symm.trans himage') (by simp)
  | noNodes himage' hnodes' hlog => exact absurd (hnodes.symm.trans hnodes') (by simp)
  | stopped himage' hnodes' hrun' =>
    rw [(runLoaded_unique himage hnodes hrun himage' hnodes' hrun').1]
  | unsaved himage' hnodes' hrun' hfinal =>
    exact absurd (runLoaded_unique himage hnodes hrun himage' hnodes' hrun').2 (by simp)
  | saved himage' hnodes' hrun' hfinal =>
    exact absurd (runLoaded_unique himage hnodes hrun himage' hnodes' hrun').2 (by simp)

/-- **A run that fails** leaves no more than the results of the steps before the one that failed,
and these only if they are asked for. -/
theorem Course.tree_of_failed (hsettings : s.settings = .standard)
    (h : Course s a definition saveDirectory outputDirectory w) {e : RunError}
    (himage : s.loadImage a = .ok img) (hnodes : s.loadNodes a definition = .ok nodes)
    (hrun : s.runLoaded a definition saveDirectory img nodes = (r, some (.failed e))) :
    (a.saveIntermediate = false → w.tree = s.tree) ∧
      (a.saveIntermediate = true → ∃ saved, e.step = saved.length + 1 ∧
        saved <+: madeImages nodes s.sources img ∧
        Mirrors (s.runOptions a saveDirectory) s.tree saved w.tree) := by
  rw [h.tree_of_stopped himage hnodes hrun]
  refine ⟨fun hsaves => tree_of_runLoaded hsaves hrun, fun hsaves => ?_⟩
  obtain ⟨saved, hmade, hmirrors, hfailed⟩ := exists_mirrors_of_runLoaded hsettings hsaves hrun
  exact ⟨saved, hfailed e rfl, hmade, hmirrors⟩

end

/-- With the standard settings a use of the command that is not refused ends as its work does. -/
theorem exists_start_eq {argv : List String} (hsettings : s.settings = .standard)
    (hparse : parse argv = .ok a) : ∃ shown, s.start argv =
      match (s.perform a).ending.exitCode? with
      | none => .unnamed shown (s.perform a).tree
      | some code => .finished code shown (s.perform a).tree := by
  have hthreshold : s.settings.threshold.weight? = some 20 := by
    rw [hsettings]
    rfl
  refine ⟨((s.perform a).messages.filter (LogEntry.passes 20)).map LogEntry.message, ?_⟩
  cases hcode : (s.perform a).ending.exitCode? with
  | none => simp [start, hparse, hthreshold, hcode]
  | some code => simp [start, hparse, hthreshold, hcode]

/-- **What the exit code says**, if the arguments name every path.  The code is 0 if every stage
of the session succeeds, and then the final picture is the result of the run.  Otherwise it is 1,
one error has been told, and the final file has been left alone.  Without an image or a definition
the tree is as it was, and a run that fails leaves no more than the results of the steps before
the one that failed. -/
theorem start_atomic {argv : List String} (hsettings : s.settings = .standard)
    (hparse : parse argv = .ok a) (hdefinition : a.pipeline = some definition)
    (hsave : a.saveDirectory = some saveDirectory)
    (houtput : a.outputDirectory = some outputDirectory) :
    ∃ code shown tree, s.start argv = .finished code shown tree ∧
      (code = 0 ↔ ∃ r, s.Succeeds a definition saveDirectory outputDirectory r) ∧
      (∀ r, s.Succeeds a definition saveDirectory outputDirectory r →
        tree.loadImage (finalPath outputDirectory).toString = .ok r.image) ∧
      (code ≠ 0 → code = 1 ∧
        (∃ e : SessionError, errors (s.perform a).messages = [⟨.error, "Error: " ++ e.message⟩]) ∧
        KeepsFile (finalPath outputDirectory).toString s.tree tree) ∧
      ((¬ ∃ img nodes, s.loadImage a = .ok img ∧ s.loadNodes a definition = .ok nodes) →
        tree = s.tree) ∧
      ∀ img nodes r e, s.loadImage a = .ok img → s.loadNodes a definition = .ok nodes →
        s.runLoaded a definition saveDirectory img nodes = (r, some (.failed e)) →
        (a.saveIntermediate = false → tree = s.tree) ∧
        (a.saveIntermediate = true → ∃ saved, e.step = saved.length + 1 ∧
          saved <+: madeImages nodes s.sources img ∧
          Mirrors (s.runOptions a saveDirectory) s.tree saved tree) := by
  have hcourse := course_perform (s := s) hdefinition hsave houtput
  obtain ⟨shown, hstart⟩ := exists_start_eq hsettings hparse
  rcases hcourse.saved_or_failed hsettings with
    ⟨r, hr, hunique, hending, hload⟩ | ⟨hnot, e, hending⟩
  · rw [hending] at hstart
    refine ⟨0, shown, _, hstart, ⟨fun _ => ⟨r, hr⟩, fun _ => rfl⟩, fun r' hr' => ?_,
      fun h => absurd rfl h, hcourse.tree_of_not_loaded,
      fun _ _ _ _ => hcourse.tree_of_failed hsettings⟩
    rw [hunique r' hr', hload]
  · rw [hending] at hstart
    obtain ⟨herrors, hkept⟩ := keepsFile_of_failed hsettings hcourse hending
    exact ⟨1, shown, _, hstart, ⟨fun h => absurd h (by simp), fun ⟨r, hr⟩ => absurd hr (hnot r)⟩,
      fun r hr => absurd hr (hnot r), fun _ => ⟨rfl, ⟨e, herrors⟩, hkept⟩,
      hcourse.tree_of_not_loaded, fun _ _ _ _ => hcourse.tree_of_failed hsettings⟩

/-- A session that turns an image of one pixel grey. -/
theorem start_atomic_greyscale :
    let img : Image := ⟨1, 1, #[⟨1, 2, 3, 4⟩], rfl⟩
    let s : Session := ⟨.standard, .standard, ⟨fun _ => .ofList [], fun _ => .ofList []⟩,
      ⟨[(.below ["a.png"], .file (.picture .png img)),
        (.below ["p.txt"], .file (.ofText "node=greyscale\n"))]⟩⟩
    ∃ shown tree, s.start ["a.png", "p.txt"] = .finished 0 shown tree ∧
      tree.loadImage "finalOutput.png" = .ok img.grey := by
  intro img s
  let a : Arguments :=
    ⟨some "a.png", some "p.txt", false, false, some "intermediate", some ".", false⟩
  have hparse : parse ["a.png", "p.txt"] = .ok a := by decide +kernel
  have hnodes : s.loadNodes a "p.txt" = .ok [.greyscale] := by decide +kernel
  have hstop : (s.runLoaded a "p.txt" "intermediate" img [.greyscale]).2 = none := by
    decide +kernel
  have himage : (s.runLoaded a "p.txt" "intermediate" img [.greyscale]).1.image = img.grey := by
    decide +kernel
  have hsaved : (s.saveFinal "." (s.runLoaded a "p.txt" "intermediate" img [.greyscale]).1.tree
      (s.runLoaded a "p.txt" "intermediate" img [.greyscale]).1.image).2.exitCode? = some 0 := by
    decide +kernel
  obtain ⟨r, hrun⟩ : ∃ r, s.runLoaded a "p.txt" "intermediate" img [.greyscale] = (r, none) :=
    ⟨_, Prod.ext rfl hstop⟩
  rw [hrun] at himage hsaved
  have hsucceeds : s.Succeeds a "p.txt" "intermediate" "." r := by
    rcases saveFinal_cases s "." r.tree r.image with ⟨t, e, hfinal⟩ | ⟨t, p, hfinal⟩
    · rw [hfinal] at hsaved
      exact absurd hsaved (by simp [Ending.exitCode?])
    · exact ⟨img, [.greyscale], t, p, rfl, hnodes, hrun, hfinal⟩
  obtain ⟨code, shown, tree, hstart, hcode, hload, -⟩ :=
    start_atomic (s := s) rfl hparse rfl rfl rfl
  obtain rfl := hcode.mpr ⟨r, hsucceeds⟩
  have hpath : (finalPath ".").toString = "finalOutput.png" := by decide +kernel
  rw [← hpath, ← himage]
  exact ⟨shown, tree, hstart, hload r hsucceeds⟩

/-- Two dashes in the place of a directory are accepted, and break the session off when the
directory is needed. -/
theorem start_breaks_off :
    let s : Session := ⟨.standard, .standard, ⟨fun _ => .ofList [], fun _ => .ofList []⟩,
      ⟨[(.below ["a.png"], .file (.picture .png ⟨1, 1, #[⟨1, 2, 3, 4⟩], rfl⟩)),
        (.below ["p.txt"], .file (.ofText "node=greyscale\n"))]⟩⟩
    (∃ a, parse ["a.png", "p.txt", "--save-dir=--"] = .ok a) ∧
      ∃ shown tree, s.start ["a.png", "p.txt", "--save-dir=--"] = .unnamed shown tree := by
  intro s
  let a : Arguments := ⟨some "a.png", some "p.txt", false, false, none, some ".", false⟩
  have hparse : parse ["a.png", "p.txt", "--save-dir=--"] = .ok a := by decide +kernel
  have hcode : (s.perform a).ending.exitCode? = none := by decide +kernel
  obtain ⟨shown, hstart⟩ := exists_start_eq (s := s) rfl hparse
  rw [hcode] at hstart
  exact ⟨⟨a, hparse⟩, shown, _, hstart⟩

end Session
end CommandLine
end ImagePipeline
