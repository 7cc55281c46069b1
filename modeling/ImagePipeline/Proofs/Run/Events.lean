import ImagePipeline.Proofs.Numeral.Integer
import ImagePipeline.Proofs.Run.Step

/-!
# The events of a run

The events of a run are laid out in advance: for every step its node is put into words
and applied, its result is saved if that is asked for, and its report is shown to the
observer.  A run is shown to end at the first event of this schedule that fails, and at
nothing else.

## Main definitions

* `Event`, `Event.perform` — an event, and what comes of it.
* `schedule` — the events of the steps of a run, in order.
* `FirstFailure` — the first event of a row of events that fails.
* `numbered` — what reports say about which step they belong to.

## Main results

* `firstFailure_append_iff` — where the first failure of two rows of events is.
* `follows_runStep`, `follows_runSteps` — a step follows its events, and so do all steps.
* `shown_of_schedule`, `firstFailure_schedule` — which reports have been shown.
* `run_first_failure` — a run ends at its first failing event and at nothing else.
-/

namespace ImagePipeline
namespace Run

/-! ### Events -/

/-- The parts of a step. -/
inductive Phase where
  /-- The node is put into words, which begins its report. -/
  | announce
  /-- The node is applied. -/
  | apply
  /-- The result is saved. -/
  | save
  /-- The report is shown to the observer. -/
  | observe
  deriving DecidableEq

/-- A part of a step with the number and the node of the step. -/
structure Event where
  phase : Phase
  step : ℤ
  node : Node

/-- What the events of a run work on: the last result, the sources of draws, the file
tree, the report of the step, and the reports that the observer has been shown. -/
structure Progress where
  image : Image
  sources : Sources
  tree : FileTree
  current : Report
  shown : List Report

namespace Progress

/-- The progress at the start of a run. -/
def start (s : State) : Progress :=
  ⟨s.image, s.sources, s.tree, ⟨0, "", "", "", "", none, none⟩, []⟩

/-- The progress once the report of a step has begun. -/
def opened (p : Progress) (r : Report) : Progress := { p with current := r }

/-- The progress once the node of a step has made an image. -/
def applied (p : Progress) (img : Image) (sources : Sources) : Progress :=
  { p with
    image := img, sources := sources, current := { p.current with output := img.describe } }

/-- The progress once the result of a step has been saved. -/
def saved (p : Progress) (t : FileTree) (path : Path) : Progress :=
  { p with
    tree := t,
    current := { p.current with artifact := some path, artifactBytes := bytesAt t path } }

/-- The progress once the report of a step has been shown. -/
def observed (p : Progress) : Progress := { p with shown := p.shown ++ [p.current] }

end Progress

/-- What comes of an event. -/
def Event.perform (o : Options) (e : Event) (p : Progress) : Except Stop Progress :=
  match e.phase with
  | .announce =>
    match openReport? e.step e.node p.image with
    | none => .error .overlong
    | some r => .ok (p.opened r)
  | .apply =>
    match e.node.apply p.sources p.image with
    | .error f => .error (.failed ⟨e.step, e.node.name, .node f⟩)
    | .ok (img, sources) => .ok (p.applied img sources)
  | .save =>
    match saveResult o p.tree e.step p.image with
    | (_, .error f) => .error (.failed ⟨e.step, e.node.name, .saving f⟩)
    | (t, .ok path) => .ok (p.saved t path)
  | .observe =>
    match o.observer p.current with
    | some i => .error (.interrupted i)
    | none => .ok p.observed

/-- The reports that the observer has been shown once an event has failed: the report
that it answers with an interruption is one of them. -/
def Event.shown (e : Event) (p : Progress) : List Report :=
  match e.phase with
  | .observe => p.shown ++ [p.current]
  | _ => p.shown

/-- The events of a step that make its result. -/
def resultEvents (o : Options) (k : ℤ) (n : Node) : List Event :=
  ⟨.announce, k, n⟩ :: ⟨.apply, k, n⟩ :: if o.saveSteps then [⟨.save, k, n⟩] else []

/-- The events of a step. -/
def stepEvents (o : Options) (k : ℤ) (n : Node) : List Event :=
  resultEvents o k n ++ [⟨.observe, k, n⟩]

/-- The events of steps, the first of which has the given number. -/
def schedule (o : Options) (k : ℤ) : List Node → List Event
  | [] => []
  | n :: ns => stepEvents o k n ++ schedule o (k + 1) ns

/-- What comes of events one after another, if none of them fails. -/
def performAll (o : Options) : List Event → Progress → Except Stop Progress
  | [], p => .ok p
  | e :: es, p =>
    match e.perform o p with
    | .error stop => .error stop
    | .ok p' => performAll o es p'

/-- The event `e` is the first of the events that fails, and it fails at the progress
`q`. -/
def FirstFailure (o : Options) (events : List Event) (p : Progress) (e : Event) (q : Progress)
    (stop : Stop) : Prop :=
  ∃ done rest, events = done ++ e :: rest ∧ performAll o done p = .ok q ∧
    e.perform o q = .error stop

section

variable {o : Options}

theorem performAll_append (a b : List Event) (p : Progress) :
    performAll o (a ++ b) p = match performAll o a p with
      | .error stop => .error stop
      | .ok p' => performAll o b p' := by
  induction a generalizing p with
  | nil => rfl
  | cons e a ih =>
    rw [List.cons_append, performAll, performAll]
    cases e.perform o p with
    | error stop => rfl
    | ok p' => exact ih p'

theorem performAll_cons_eq_ok_iff {e : Event} {es : List Event} {p q : Progress} :
    performAll o (e :: es) p = .ok q ↔
      ∃ p', e.perform o p = .ok p' ∧ performAll o es p' = .ok q := by
  rw [performAll]
  cases e.perform o p with
  | error stop => simp
  | ok p' => simp

theorem performAll_append_eq_ok_iff {a b : List Event} {p q : Progress} :
    performAll o (a ++ b) p = .ok q ↔
      ∃ p', performAll o a p = .ok p' ∧ performAll o b p' = .ok q := by
  rw [performAll_append]
  cases performAll o a p with
  | error stop => simp
  | ok p' => simp

theorem not_firstFailure_nil {p q : Progress} {e : Event} {stop : Stop} :
    ¬ FirstFailure o [] p e q stop := by
  rintro ⟨done, rest, h, -⟩
  exact absurd h (by simp)

/-- The first failure of events is the first event, or it comes after it. -/
theorem firstFailure_cons_iff {e e' : Event} {es : List Event} {p q : Progress} {stop : Stop} :
    FirstFailure o (e :: es) p e' q stop ↔
      (e' = e ∧ q = p ∧ e.perform o p = .error stop) ∨
        ∃ p', e.perform o p = .ok p' ∧ FirstFailure o es p' e' q stop := by
  constructor
  · rintro ⟨done, rest, hsplit, hdone, hfail⟩
    cases done with
    | nil =>
      obtain ⟨rfl, rfl⟩ := List.cons.inj hsplit
      obtain rfl := Except.ok.inj hdone
      exact Or.inl ⟨rfl, rfl, hfail⟩
    | cons d done =>
      obtain ⟨rfl, rfl⟩ := List.cons.inj hsplit
      obtain ⟨p', hfirst, hdone⟩ := performAll_cons_eq_ok_iff.mp hdone
      exact Or.inr ⟨p', hfirst, done, rest, rfl, hdone, hfail⟩
  · rintro (⟨rfl, rfl, hfail⟩ | ⟨p', hfirst, done, rest, rfl, hdone, hfail⟩)
    · exact ⟨[], es, rfl, rfl, hfail⟩
    · exact ⟨e :: done, rest, rfl, performAll_cons_eq_ok_iff.mpr ⟨p', hfirst, hdone⟩, hfail⟩

/-- The first failure of two rows of events is in the first row, or the first row
succeeds and it is in the second. -/
theorem firstFailure_append_iff {a b : List Event} {p q : Progress} {e : Event} {stop : Stop} :
    FirstFailure o (a ++ b) p e q stop ↔
      FirstFailure o a p e q stop ∨
        ∃ p', performAll o a p = .ok p' ∧ FirstFailure o b p' e q stop := by
  induction a generalizing p with
  | nil => simp [not_firstFailure_nil, performAll]
  | cons d a ih =>
    rw [List.cons_append, firstFailure_cons_iff, firstFailure_cons_iff, performAll]
    cases d.perform o p with
    | error stop' => simp
    | ok p' => simp [ih]

/-- Events succeed, or one of them is the first to fail. -/
theorem performAll_cases (events : List Event) (p : Progress) :
    (∃ q, performAll o events p = .ok q) ∨ ∃ e q stop, FirstFailure o events p e q stop := by
  induction events generalizing p with
  | nil => exact Or.inl ⟨p, rfl⟩
  | cons e es ih =>
    cases hfirst : e.perform o p with
    | error stop => exact Or.inr ⟨e, p, stop, firstFailure_cons_iff.mpr (Or.inl ⟨rfl, rfl, hfirst⟩)⟩
    | ok p' =>
      rcases ih p' with ⟨q, hq⟩ | ⟨e', q, stop, h⟩
      · exact Or.inl ⟨q, performAll_cons_eq_ok_iff.mpr ⟨p', hfirst, hq⟩⟩
      · exact Or.inr ⟨e', q, stop, firstFailure_cons_iff.mpr (Or.inr ⟨p', hfirst, h⟩)⟩

/-- The first failure is the only one, and it is what comes of the events. -/
theorem FirstFailure.performAll_eq {events : List Event} {p q : Progress} {e : Event} {stop : Stop}
    (h : FirstFailure o events p e q stop) : performAll o events p = .error stop := by
  obtain ⟨done, rest, rfl, hdone, hfail⟩ := h
  rw [performAll_append, hdone]
  simp only [performAll, hfail]

theorem FirstFailure.unique {events : List Event} {p q q' : Progress} {e e' : Event}
    {stop stop' : Stop} (h : FirstFailure o events p e q stop)
    (h' : FirstFailure o events p e' q' stop') : e' = e ∧ q' = q ∧ stop' = stop := by
  induction events generalizing p with
  | nil => exact absurd h not_firstFailure_nil
  | cons d events ih =>
    -- the first event fails in both or in neither
    rcases firstFailure_cons_iff.mp h with ⟨rfl, rfl, hd⟩ | ⟨p₁, hd, h⟩
    · rcases firstFailure_cons_iff.mp h' with ⟨rfl, rfl, hd'⟩ | ⟨p₁, hd', h'⟩
      · exact ⟨rfl, rfl, Except.error.inj (hd'.symm.trans hd)⟩
      · exact absurd (hd'.symm.trans hd) (by simp)
    · rcases firstFailure_cons_iff.mp h' with ⟨rfl, rfl, hd'⟩ | ⟨p₁', hd', h'⟩
      · exact absurd (hd'.symm.trans hd) (by simp)
      · obtain rfl := Except.ok.inj (hd'.symm.trans hd)
        exact ih h h'

/-! ### Steps and their events -/

/-- The state of a run stands where its events stand, where `base` are the reports from
before the run. -/
structure Tracks (base : List Report) (s : State) (p : Progress) : Prop where
  image : s.image = p.image
  sources : s.sources = p.sources
  tree : s.tree = p.tree
  reports : s.reports = base ++ p.shown

variable {base : List Report} {s : State} {p : Progress} {k : ℤ} {n : Node}

/-- What becomes of the state of a run follows events: these succeed and the state stands
where they stand, or the run ends with their first failure. -/
inductive Follows (o : Options) (base : List Report) (p : Progress) (events : List Event) :
    State × Option Stop → Prop
  | goesOn {q : Progress} {s' : State} (hperform : performAll o events p = .ok q)
      (ht : Tracks base s' q) : Follows o base p events (s', none)
  | ends {e : Event} {q : Progress} {stop : Stop} {s' : State}
      (hfirst : FirstFailure o events p e q stop) (hreports : s'.reports = base ++ e.shown q) :
      Follows o base p events (s', some stop)

/-- Events in front that succeed can be left out. -/
theorem Follows.append {a b : List Event} {p' : Progress} {r : State × Option Stop}
    (ha : performAll o a p = .ok p') (h : Follows o base p' b r) :
    Follows o base p (a ++ b) r := by
  cases h with
  | goesOn hperform ht =>
    exact .goesOn (performAll_append_eq_ok_iff.mpr ⟨p', ha, hperform⟩) ht
  | ends hfirst hreports =>
    exact .ends (firstFailure_append_iff.mpr (Or.inr ⟨p', ha, hfirst⟩)) hreports

/-- Showing a report follows the event. -/
theorem follows_closeStep (ht : Tracks base s p) :
    Follows o base p [⟨.observe, k, n⟩] (closeStep o p.current s) := by
  have hreports : (closeStep o p.current s).1.reports = base ++ (p.shown ++ [p.current]) := by
    rw [reports_closeStep, ht.reports, List.append_assoc]
  have hstop : (closeStep o p.current s).2 = (o.observer p.current).map .interrupted := rfl
  rcases hclose : closeStep o p.current s with ⟨s', stop⟩
  rw [hclose] at hreports hstop
  cases hobs : o.observer p.current with
  | none =>
    rw [hobs] at hstop
    obtain rfl : stop = none := hstop
    refine .goesOn (q := p.observed) (by simp only [performAll, Event.perform, hobs]) ?_
    have hs' : s' = (closeStep o p.current s).1 := by rw [hclose]
    exact ⟨by rw [hs', image_closeStep]; exact ht.image,
      by rw [hs', sources_closeStep]; exact ht.sources,
      by rw [hs', tree_closeStep]; exact ht.tree, hreports⟩
  | some i =>
    rw [hobs] at hstop
    obtain rfl : stop = some (.interrupted i) := hstop
    exact .ends (e := ⟨.observe, k, n⟩) ⟨[], [], rfl, rfl, by simp only [Event.perform, hobs]⟩
      hreports

namespace Tracks

variable {r : Report} {img : Image} {sources : Sources} (ht : Tracks base s p)

include ht

/-- The events of a step do what the step does, from where the state stands. -/
theorem perform_announce : (Event.mk .announce k n).perform o p =
    match openReport? k n s.image with
    | none => .error .overlong
    | some r => .ok (p.opened r) := by
  rw [ht.image]
  rfl

theorem perform_apply : (Event.mk .apply k n).perform o (p.opened r) =
    match n.apply s.sources s.image with
    | .error f => .error (.failed ⟨k, n.name, .node f⟩)
    | .ok (img, sources) => .ok ((p.opened r).applied img sources) := by
  rw [ht.sources, ht.image]
  rfl

theorem perform_save : (Event.mk .save k n).perform o ((p.opened r).applied img sources) =
    match saveResult o s.tree k img with
    | (_, .error f) => .error (.failed ⟨k, n.name, .saving f⟩)
    | (t, .ok path) => .ok (((p.opened r).applied img sources).saved t path) := by
  rw [ht.tree]
  rfl

end Tracks

/-- **A step follows its events.** -/
theorem follows_runStep (ht : Tracks base s p) :
    Follows o base p (stepEvents o k n) (runStep o k n s) := by
  rw [stepEvents, resultEvents]
  have hstep := stepEnds_runStep (o := o) (k := k) (n := n) (s := s)
  generalize runStep o k n s = outcome at hstep ⊢
  cases hstep with
  | overlong hr =>
    -- the first event fails, and the others are not reached
    exact .ends (e := ⟨.announce, k, n⟩) ⟨[], _, rfl, rfl, by rw [ht.perform_announce, hr]⟩
      ht.reports
  | @refused r f hr happly =>
    refine .ends (e := ⟨.apply, k, n⟩) (q := p.opened r) ⟨[⟨.announce, k, n⟩], _, rfl, ?_, ?_⟩
      ((State.reports_tell ..).trans ht.reports)
    · simp only [performAll, ht.perform_announce, hr]
    · rw [ht.perform_apply, happly]
  | @unsavable r img sources t f hr happly hsave hsaved =>
    refine .ends (e := ⟨.save, k, n⟩) (q := (p.opened r).applied img sources)
      ⟨[⟨.announce, k, n⟩, ⟨.apply, k, n⟩], [⟨.observe, k, n⟩], by simp [hsave], ?_, ?_⟩
      ((State.reports_tell ..).trans ht.reports)
    · simp only [performAll, ht.perform_announce, hr, ht.perform_apply, happly]
    · rw [ht.perform_save, hsaved]
  | @saved r img sources t path hr happly hsave hsaved =>
    have hresult : performAll o [⟨.announce, k, n⟩, ⟨.apply, k, n⟩, ⟨.save, k, n⟩] p =
        .ok (((p.opened r).applied img sources).saved t path) := by
      simp only [performAll, ht.perform_announce, hr, ht.perform_apply, happly, ht.perform_save,
        hsaved]
    rw [hsave]
    exact Follows.append hresult
      (follows_closeStep (p := ((p.opened r).applied img sources).saved t path)
        ⟨rfl, rfl, rfl, (State.reports_tell ..).trans ht.reports⟩)
  | @unsaved r img sources hr happly hsave =>
    have hresult : performAll o [⟨.announce, k, n⟩, ⟨.apply, k, n⟩] p =
        .ok ((p.opened r).applied img sources) := by
      simp only [performAll, ht.perform_announce, hr, ht.perform_apply, happly]
    rw [hsave]
    exact Follows.append hresult (follows_closeStep (p := (p.opened r).applied img sources)
      ⟨rfl, rfl, (State.tree_tell ..).trans ht.tree, (State.reports_tell ..).trans ht.reports⟩)

/-- **All steps follow their events.** -/
theorem follows_runSteps {ns : List Node} (ht : Tracks base s p) :
    Follows o base p (schedule o k ns) (runSteps o k ns s) := by
  induction ns generalizing k s p with
  | nil => exact .goesOn rfl ht
  | cons n ns ih =>
    have hstep : Follows o base p (stepEvents o k n) (runStep o k n s) := follows_runStep ht
    rw [schedule]
    rcases hrun : runStep o k n s with ⟨s', _ | stop⟩
    · rw [hrun] at hstep
      rw [runSteps_cons_of_none hrun]
      cases hstep with
      | goesOn hperform ht' => exact Follows.append hperform (ih ht')
    · rw [hrun] at hstep
      rw [runSteps_cons_of_some hrun]
      cases hstep with
      | ends hfirst hreports => exact .ends (firstFailure_append_iff.mpr (Or.inl hfirst)) hreports

/-! ### Failing events -/

theorem FirstFailure.perform_eq {events : List Event} {e : Event} {q : Progress} {stop : Stop}
    (h : FirstFailure o events p e q stop) : e.perform o q = .error stop := by
  obtain ⟨done, rest, -, -, hfail⟩ := h
  exact hfail

theorem perform_announce_eq_error {stop : Stop}
    (h : (Event.mk .announce k n).perform o p = .error stop) : ¬ n.InLimit ∧ stop = .overlong := by
  unfold Event.perform at h
  simp only at h
  split at h
  · next hr => exact ⟨openReport?_eq_none_iff.mp hr, (Except.error.inj h).symm⟩
  · exact absurd h (by simp)

theorem perform_apply_eq_error {stop : Stop}
    (h : (Event.mk .apply k n).perform o p = .error stop) :
    ∃ f, n.apply p.sources p.image = .error f ∧ stop = .failed ⟨k, n.name, .node f⟩ := by
  unfold Event.perform at h
  simp only at h
  split at h
  · next f hf => exact ⟨f, hf, (Except.error.inj h).symm⟩
  · exact absurd h (by simp)

theorem perform_save_eq_error {stop : Stop} (h : (Event.mk .save k n).perform o p = .error stop) :
    ∃ t f, saveResult o p.tree k p.image = (t, .error f) ∧
      stop = .failed ⟨k, n.name, .saving f⟩ := by
  unfold Event.perform at h
  simp only at h
  split at h
  · next t f hf => exact ⟨t, f, hf, (Except.error.inj h).symm⟩
  · exact absurd h (by simp)

theorem perform_observe_eq_error {stop : Stop}
    (h : (Event.mk .observe k n).perform o p = .error stop) :
    ∃ i, o.observer p.current = some i ∧ stop = .interrupted i := by
  unfold Event.perform at h
  simp only at h
  split at h
  · next i hi => exact ⟨i, hi, (Except.error.inj h).symm⟩
  · exact absurd h (by simp)

/-! ### Which steps are reported -/

/-- The step that a report is about. -/
def origin (r : Report) : ℤ × String × Option String := (r.step, r.name, some r.info)

/-- The steps of nodes, the first of which has the given number. -/
def numbered (k : ℤ) : List Node → List (ℤ × String × Option String)
  | [] => []
  | n :: ns => (k, n.name, n.info?) :: numbered (k + 1) ns

theorem numbered_append_singleton (ns : List Node) :
    numbered k (ns ++ [n]) = numbered k ns ++ [(k + ns.length, n.name, n.info?)] := by
  induction ns generalizing k with
  | nil => simp [numbered]
  | cons m ns ih =>
    have hk : k + 1 + (ns.length : ℤ) = k + (m :: ns).length := by
      rw [List.length_cons]
      omega
    rw [List.cons_append, numbered, ih, hk]
    rfl

variable {q : Progress} {e : Event} {stop : Stop}

/-- A report that begins a step is about it. -/
theorem origin_of_openReport? {img : Image} {r : Report} (h : openReport? k n img = some r) :
    origin r = (k, n.name, n.info?) := by
  obtain ⟨hn, rfl⟩ := openReport?_eq_some_iff.mp h
  rw [Node.info?_eq_some hn]
  rfl

theorem shown_of_perform (h : e.perform o p = .ok q) : q.shown = e.shown p := by
  obtain ⟨phase, k, n⟩ := e
  unfold Event.perform at h
  cases phase with
  | announce | apply | save | observe =>
    simp only at h
    split at h
    · exact absurd h (by simp)
    · obtain rfl := Except.ok.inj h
      rfl

theorem origin_of_perform_announce (h : (Event.mk .announce k n).perform o p = .ok q) :
    origin q.current = (k, n.name, n.info?) := by
  unfold Event.perform at h
  simp only at h
  split at h
  · exact absurd h (by simp)
  · next r hr =>
    obtain rfl := Except.ok.inj h
    exact origin_of_openReport? hr

/-- An event that does not begin a report leaves it about its step. -/
theorem origin_of_perform (h : e.perform o p = .ok q) (he : e.phase ≠ .announce) :
    origin q.current = origin p.current := by
  obtain ⟨phase, k, n⟩ := e
  unfold Event.perform at h
  cases phase with
  | announce => exact absurd rfl he
  | apply | save | observe =>
    simp only at h
    split at h
    · exact absurd h (by simp)
    · obtain rfl := Except.ok.inj h
      rfl

/-- Events that show no report leave what has been shown. -/
theorem shown_of_performAll {events : List Event} (h : performAll o events p = .ok q)
    (hevents : ∀ e ∈ events, e.phase ≠ .observe) : q.shown = p.shown := by
  induction events generalizing p with
  | nil =>
    obtain rfl := Except.ok.inj h
    rfl
  | cons e events ih =>
    obtain ⟨p₁, hfirst, hrest⟩ := performAll_cons_eq_ok_iff.mp h
    have hshown : e.shown p = p.shown := by
      unfold Event.shown
      split
      · next hphase => exact absurd hphase (hevents e List.mem_cons_self)
      · rfl
    rw [ih hrest fun e' he' => hevents e' (List.mem_cons_of_mem _ he'), shown_of_perform hfirst,
      hshown]

/-- Events that begin no report leave it about its step. -/
theorem origin_of_performAll {events : List Event} (h : performAll o events p = .ok q)
    (hevents : ∀ e ∈ events, e.phase ≠ .announce) : origin q.current = origin p.current := by
  induction events generalizing p with
  | nil =>
    obtain rfl := Except.ok.inj h
    rfl
  | cons e events ih =>
    obtain ⟨p₁, hfirst, hrest⟩ := performAll_cons_eq_ok_iff.mp h
    rw [ih hrest fun e' he' => hevents e' (List.mem_cons_of_mem _ he'),
      origin_of_perform hfirst (hevents e List.mem_cons_self)]

/-- The events that make the result of a step belong to it, and show no report. -/
theorem of_mem_resultEvents (h : e ∈ resultEvents o k n) :
    e.step = k ∧ e.node = n ∧ e.phase ≠ .observe := by
  unfold resultEvents at h
  split at h <;> simp only [List.mem_cons, List.not_mem_nil, or_false] at h <;>
    rcases h with rfl | rfl | rfl <;> exact ⟨rfl, rfl, by simp⟩

/-- Before a report is shown, it is about its own step, and no other has been shown. -/
theorem origin_of_resultEvents (h : performAll o (resultEvents o k n) p = .ok q) :
    q.shown = p.shown ∧ origin q.current = (k, n.name, n.info?) := by
  refine ⟨shown_of_performAll h fun e he => (of_mem_resultEvents he).2.2, ?_⟩
  obtain ⟨p₁, hannounce, hrest⟩ := performAll_cons_eq_ok_iff.mp h
  rw [origin_of_performAll hrest, origin_of_perform_announce hannounce]
  cases o.saveSteps <;> simp

theorem firstFailure_resultEvents (h : FirstFailure o (resultEvents o k n) p e q stop) :
    e.step = k ∧ e.node = n ∧ e.phase ≠ .observe ∧ q.shown = p.shown := by
  obtain ⟨done, rest, hsplit, hdone, -⟩ := h
  have hmem : ∀ e' ∈ done ++ e :: rest, e' ∈ resultEvents o k n := fun e' he' => hsplit ▸ he'
  obtain ⟨hstep, hnode, hphase⟩ := of_mem_resultEvents (hmem e (by simp))
  exact ⟨hstep, hnode, hphase, shown_of_performAll hdone fun e' he' =>
    (of_mem_resultEvents (hmem e' (List.mem_append_left _ he'))).2.2⟩

/-- **A step whose events succeed shows one report, which is about it.** -/
theorem shown_of_stepEvents (h : performAll o (stepEvents o k n) p = .ok q) :
    ∃ r, q.shown = p.shown ++ [r] ∧ origin r = (k, n.name, n.info?) := by
  obtain ⟨p₁, hresult, hobserve⟩ := performAll_append_eq_ok_iff.mp h
  obtain ⟨hshown, horigin⟩ := origin_of_resultEvents hresult
  obtain ⟨p₂, hlast, hend⟩ := performAll_cons_eq_ok_iff.mp hobserve
  obtain rfl := Except.ok.inj hend
  refine ⟨p₁.current, ?_, horigin⟩
  rw [shown_of_perform hlast, ← hshown]
  rfl

theorem firstFailure_stepEvents (h : FirstFailure o (stepEvents o k n) p e q stop) :
    e.step = k ∧ e.node = n ∧ q.shown = p.shown ∧
      (e.phase = .observe → origin q.current = (k, n.name, n.info?)) := by
  rcases firstFailure_append_iff.mp h with h | ⟨p₁, hresult, h⟩
  · obtain ⟨hstep, hnode, hphase, hshown⟩ := firstFailure_resultEvents h
    exact ⟨hstep, hnode, hshown, fun ho => absurd ho hphase⟩
  · obtain ⟨hshown, horigin⟩ := origin_of_resultEvents hresult
    rcases firstFailure_cons_iff.mp h with ⟨rfl, rfl, -⟩ | ⟨p₂, -, h⟩
    · exact ⟨rfl, rfl, hshown, fun _ => horigin⟩
    · exact absurd h not_firstFailure_nil

/-- **Steps whose events succeed show one report each, in order.** -/
theorem shown_of_schedule {ns : List Node} (h : performAll o (schedule o k ns) p = .ok q) :
    ∃ rs, q.shown = p.shown ++ rs ∧ rs.map origin = numbered k ns := by
  induction ns generalizing k p with
  | nil =>
    obtain rfl := Except.ok.inj h
    exact ⟨[], by simp, rfl⟩
  | cons n ns ih =>
    rw [schedule] at h
    obtain ⟨p₁, hstep, hrest⟩ := performAll_append_eq_ok_iff.mp h
    obtain ⟨r, hr, horigin⟩ := shown_of_stepEvents hstep
    obtain ⟨rs, hrs, hnumbered⟩ := ih hrest
    refine ⟨r :: rs, by rw [hrs, hr, List.append_assoc]; rfl, ?_⟩
    rw [List.map_cons, horigin, hnumbered, numbered]

/-- **The first failure of steps belongs to one of them**, and the steps before it have
been shown. -/
theorem firstFailure_schedule {ns : List Node}
    (h : FirstFailure o (schedule o k ns) p e q stop) :
    ∃ before after rs, ns = before ++ e.node :: after ∧ e.step = k + before.length ∧
      q.shown = p.shown ++ rs ∧ rs.map origin = numbered k before ∧
      (e.phase = .observe → origin q.current = (e.step, e.node.name, e.node.info?)) := by
  induction ns generalizing k p with
  | nil => exact absurd h not_firstFailure_nil
  | cons n ns ih =>
    rw [schedule] at h
    rcases firstFailure_append_iff.mp h with h | ⟨p₁, hstep, h⟩
    · obtain ⟨rfl, rfl, hshown, horigin⟩ := firstFailure_stepEvents h
      exact ⟨[], ns, [], rfl, by simp, by simp [hshown], rfl, horigin⟩
    · obtain ⟨r, hr, hrorigin⟩ := shown_of_stepEvents hstep
      obtain ⟨before, after, rs, rfl, hk, hshown, hnumbered, horigin⟩ := ih h
      refine ⟨n :: before, after, r :: rs, rfl, ?_, ?_, ?_, horigin⟩
      · rw [hk, List.length_cons]
        omega
      · rw [hshown, hr, List.append_assoc]
        rfl
      · rw [List.map_cons, hrorigin, hnumbered, numbered]

/-! ### The main result -/

theorem tracks_start (s : State) (flag : Bool) (messages : List String) :
    Tracks s.reports (s.tell flag messages) (.start s) :=
  ⟨by simp [Progress.start], by simp [Progress.start], by simp [Progress.start],
    by simp [Progress.start]⟩

/-- The steps of a whole run follow its schedule. -/
theorem follows_run (o : Options) (nodes : Pipeline) (s : State) :
    Follows o s.reports (.start s) (schedule o 1 nodes)
      (runSteps o 1 nodes (s.tell o.logSteps [startMessage nodes.length s.image])) :=
  follows_runSteps (tracks_start s o.logSteps [startMessage nodes.length s.image])

theorem run_of_performAll {nodes : Pipeline}
    (h : performAll o (schedule o 1 nodes) (.start s) = .ok q) :
    (run o nodes s).2 = none ∧ (run o nodes s).1.image = q.image ∧
      (run o nodes s).1.reports = s.reports ++ q.shown := by
  rw [run_stop, image_run, reports_run]
  have hfollows := follows_run o nodes s
  rcases hrun : runSteps o 1 nodes (s.tell o.logSteps [startMessage nodes.length s.image])
    with ⟨s', _ | stop⟩
  · rw [hrun] at hfollows
    cases hfollows with
    | goesOn hperform ht =>
      obtain rfl := Except.ok.inj (hperform.symm.trans h)
      exact ⟨rfl, ht.image, ht.reports⟩
  · rw [hrun] at hfollows
    cases hfollows with
    | ends hfirst _ => exact absurd (hfirst.performAll_eq.symm.trans h) (by simp)

theorem run_of_firstFailure {nodes : Pipeline}
    (h : FirstFailure o (schedule o 1 nodes) (.start s) e q stop) :
    (run o nodes s).2 = some stop ∧ (run o nodes s).1.reports = s.reports ++ e.shown q := by
  rw [run_stop, reports_run]
  have hfollows := follows_run o nodes s
  rcases hrun : runSteps o 1 nodes (s.tell o.logSteps [startMessage nodes.length s.image])
    with ⟨s', _ | stop'⟩
  · rw [hrun] at hfollows
    cases hfollows with
    | goesOn hperform _ => exact absurd (h.performAll_eq.symm.trans hperform) (by simp)
  · rw [hrun] at hfollows
    cases hfollows with
    | ends hfirst hreports =>
      obtain ⟨rfl, rfl, rfl⟩ := h.unique hfirst
      exact ⟨rfl, hreports⟩

/-- The first failure of a whole run belongs to one of its nodes, and one report has been
shown for every node before. -/
theorem reports_of_firstFailure {nodes : Pipeline}
    (h : FirstFailure o (schedule o 1 nodes) (.start s) e q stop) :
    ∃ before after, nodes = before ++ e.node :: after ∧ e.step = before.length + 1 ∧
      q.shown.map origin = numbered 1 before ∧
      (e.phase = .observe → origin q.current = (e.step, e.node.name, e.node.info?)) := by
  obtain ⟨before, after, rs, hnodes, hk, hshown, hnumbered, horigin⟩ := firstFailure_schedule h
  have hrs : q.shown = rs := hshown
  exact ⟨before, after, hnodes, hk.trans (Int.add_comm _ _), hrs ▸ hnumbered, horigin⟩

end

/-- **A run ends at its first failing event and at nothing else.**  It goes through
exactly if every event of its schedule succeeds, and it stops exactly with the first
failure among them.  A node can be put into words unless its integers are too long, which
ends the run as it is.  A node that makes no image and a result that cannot be saved fail
the step with its name and their own cause, and the answer of the observer is passed on
as it is.  The observer has then been shown one report for every step before, in order,
and also the report that it answers with an interruption. -/
theorem run_first_failure (o : Options) (nodes : Pipeline) (s : State) :
    ((run o nodes s).2 = none ↔ ∃ q, performAll o (schedule o 1 nodes) (.start s) = .ok q) ∧
    (∀ stop, (run o nodes s).2 = some stop ↔
      ∃ e q, FirstFailure o (schedule o 1 nodes) (.start s) e q stop) ∧
    (∀ q, performAll o (schedule o 1 nodes) (.start s) = .ok q →
      (run o nodes s).1.image = q.image ∧ (run o nodes s).1.reports = s.reports ++ q.shown ∧
        q.shown.map origin = numbered 1 nodes) ∧
    (∀ k n q stop, FirstFailure o (schedule o 1 nodes) (.start s) ⟨.announce, k, n⟩ q stop →
      ∃ before after, nodes = before ++ n :: after ∧ k = before.length + 1 ∧
        ¬ n.InLimit ∧ stop = .overlong ∧
        (run o nodes s).1.reports = s.reports ++ q.shown ∧
        q.shown.map origin = numbered 1 before) ∧
    (∀ k n q stop, FirstFailure o (schedule o 1 nodes) (.start s) ⟨.apply, k, n⟩ q stop →
      ∃ f before after, nodes = before ++ n :: after ∧ k = before.length + 1 ∧
        n.apply q.sources q.image = .error f ∧ stop = .failed ⟨k, n.name, .node f⟩ ∧
        (Cause.node f).reason = f.message ∧
        (run o nodes s).1.reports = s.reports ++ q.shown ∧
        q.shown.map origin = numbered 1 before) ∧
    (∀ k n q stop, FirstFailure o (schedule o 1 nodes) (.start s) ⟨.save, k, n⟩ q stop →
      ∃ t f before after, nodes = before ++ n :: after ∧ k = before.length + 1 ∧
        saveResult o q.tree k q.image = (t, .error f) ∧ stop = .failed ⟨k, n.name, .saving f⟩ ∧
        (Cause.saving f).reason = "could not save intermediate image: " ++ f.message ∧
        (run o nodes s).1.reports = s.reports ++ q.shown ∧
        q.shown.map origin = numbered 1 before) ∧
    (∀ k n q stop, FirstFailure o (schedule o 1 nodes) (.start s) ⟨.observe, k, n⟩ q stop →
      ∃ i before after, nodes = before ++ n :: after ∧ k = before.length + 1 ∧
        o.observer q.current = some i ∧ stop = .interrupted i ∧
        (run o nodes s).1.reports = s.reports ++ (q.shown ++ [q.current]) ∧
        (q.shown ++ [q.current]).map origin = numbered 1 (before ++ [n])) := by
  refine ⟨⟨?_, ?_⟩, ?_, ?_, ?_, ?_, ?_, ?_⟩
  · intro h
    rcases performAll_cases (schedule o 1 nodes) (.start s) with hq | ⟨e, q, stop, hfirst⟩
    · exact hq
    · exact absurd (h.symm.trans (run_of_firstFailure hfirst).1) (by simp)
  · rintro ⟨q, hq⟩
    exact (run_of_performAll hq).1
  · intro stop
    constructor
    · intro h
      rcases performAll_cases (schedule o 1 nodes) (.start s) with ⟨q, hq⟩ | ⟨e, q, stop', hfirst⟩
      · exact absurd (h.symm.trans (run_of_performAll hq).1) (by simp)
      · obtain rfl := Option.some.inj (h.symm.trans (run_of_firstFailure hfirst).1)
        exact ⟨e, q, hfirst⟩
    · rintro ⟨e, q, hfirst⟩
      exact (run_of_firstFailure hfirst).1
  · intro q hq
    obtain ⟨-, himage, hreports⟩ := run_of_performAll hq
    obtain ⟨rs, hshown, hnumbered⟩ := shown_of_schedule hq
    have hrs : q.shown = rs := hshown
    exact ⟨himage, hreports, hrs ▸ hnumbered⟩
  · intro k n q stop hfirst
    obtain ⟨before, after, hnodes, hk, hnumbered, -⟩ := reports_of_firstFailure hfirst
    obtain ⟨hlimit, rfl⟩ := perform_announce_eq_error hfirst.perform_eq
    exact ⟨before, after, hnodes, hk, hlimit, rfl, (run_of_firstFailure hfirst).2, hnumbered⟩
  · intro k n q stop hfirst
    obtain ⟨before, after, hnodes, hk, hnumbered, -⟩ := reports_of_firstFailure hfirst
    obtain ⟨f, happly, rfl⟩ := perform_apply_eq_error hfirst.perform_eq
    exact ⟨f, before, after, hnodes, hk, happly, rfl, rfl, (run_of_firstFailure hfirst).2,
      hnumbered⟩
  · intro k n q stop hfirst
    obtain ⟨before, after, hnodes, hk, hnumbered, -⟩ := reports_of_firstFailure hfirst
    obtain ⟨t, f, hsaved, rfl⟩ := perform_save_eq_error hfirst.perform_eq
    exact ⟨t, f, before, after, hnodes, hk, hsaved, rfl, rfl, (run_of_firstFailure hfirst).2,
      hnumbered⟩
  · intro k n q stop hfirst
    obtain ⟨before, after, hnodes, hk, hnumbered, horigin⟩ := reports_of_firstFailure hfirst
    obtain ⟨i, hobserver, rfl⟩ := perform_observe_eq_error hfirst.perform_eq
    refine ⟨i, before, after, hnodes, hk, hobserver, rfl, (run_of_firstFailure hfirst).2, ?_⟩
    -- the report that is answered is the one of the failing step, and comes last
    have hlast : origin q.current = (1 + (before.length : ℤ), n.name, n.info?) := by
      rw [horigin rfl, hk, Int.add_comm]
    rw [List.map_append, List.map_singleton, hlast, hnumbered, numbered_append_singleton]

/-- A run whose second node cannot be put into words, a run whose second node fails, a run
whose result has no format, a run that is interrupted at its second report, and a run that
goes through. -/
theorem run_first_failure_copies :
    let copy := Node.custom ⟨"Copy", "copy", "", [], .copy, "as it is"⟩
    let broken := Node.custom ⟨"Broken", "broken", "", [], .fail "RuntimeError" "boom", ""⟩
    let long := Node.noise (.whole (10 ^ Numeral.digitLimit)) none
    let plain : Options := ⟨false, false, .ofChars ['.'], "output", ['p', 'n', 'g'], fun _ => none⟩
    let saving : Options := { plain with saveSteps := true, extension := ['t', 'i', 'f'] }
    let watched : Options :=
      { plain with observer := fun r => if r.step = 2 then some ⟨"E", "stop"⟩ else none }
    let s : State := ⟨.empty, ⟨fun _ => .ofList [], fun _ => .ofList []⟩, .empty, [], []⟩
    (run plain [copy, long] s).1.reports.map origin = [(1, "Copy", some "as it is")] ∧
      (run plain [copy, broken] s).1.reports.map origin = [(1, "Copy", some "as it is")] ∧
      (run saving [copy] s).1.reports.map origin = [] ∧
      (run watched [copy, copy] s).1.reports.map origin =
        [(1, "Copy", some "as it is"), (2, "Copy", some "as it is")] ∧
      (run plain [copy] s).1.reports.map origin = [(1, "Copy", some "as it is")] := by
  intro copy broken long plain saving watched s
  obtain ⟨-, -, hall, -⟩ := run_first_failure plain [copy] s
  obtain ⟨-, -, -, hannounce, -⟩ := run_first_failure plain [copy, long] s
  obtain ⟨-, -, -, -, happly, -⟩ := run_first_failure plain [copy, broken] s
  obtain ⟨-, -, -, -, -, hsave, -⟩ := run_first_failure saving [copy] s
  obtain ⟨-, -, -, -, -, -, hobserve⟩ := run_first_failure watched [copy, copy] s
  have hlong : ¬ long.InLimit := by
    show ¬ Numeral.InLimit (10 ^ Numeral.digitLimit)
    simp [Numeral.inLimit_iff, Int.natAbs_pow]
  refine ⟨?_, ?_, ?_, ?_, ?_⟩
  · have hfail : ∀ q, (Event.mk .announce 2 long).perform plain q = .error .overlong := fun q => by
      simp only [Event.perform, openReport?_eq_none_iff.mpr hlong]
    obtain ⟨before, after, hnodes, hk, -, -, hreports, hnumbered⟩ :=
      hannounce 2 long _ _ ⟨[⟨.announce, 1, copy⟩, ⟨.apply, 1, copy⟩, ⟨.observe, 1, copy⟩],
        _, rfl, rfl, hfail _⟩
    rw [hreports]
    rfl
  · obtain ⟨f, before, after, hnodes, hk, -, -, -, hreports, hnumbered⟩ :=
      happly 2 broken _ _ ⟨[⟨.announce, 1, copy⟩, ⟨.apply, 1, copy⟩, ⟨.observe, 1, copy⟩,
        ⟨.announce, 2, broken⟩], _, rfl, rfl, rfl⟩
    rw [hreports]
    rfl
  · have hsaved : saveResult saving .empty 1 .empty =
        (.empty, .error (.fileType ['.', 't', 'i', 'f'])) := by
      show saveResult ⟨false, true, .ofChars ['.'], "output", ['t', 'i', 'f'], fun _ => none⟩
        .empty 1 .empty = _
      rfl
    have hfail : (Event.mk .save 1 copy).perform saving
        (((Progress.start s).opened ⟨1, "Copy", "as it is", s.image.describe, "", none, none⟩).applied
          .empty s.sources) = .error (.failed ⟨1, "Copy", .saving (.fileType ['.', 't', 'i', 'f'])⟩) := by
      show (match saveResult saving .empty 1 .empty with
        | (_, .error f) => Except.error (Stop.failed ⟨1, "Copy", .saving f⟩)
        | (t, .ok path) => .ok (Progress.saved _ t path)) = _
      rw [hsaved]
    obtain ⟨t, f, before, after, hnodes, hk, -, -, -, hreports, hnumbered⟩ :=
      hsave 1 copy _ _ ⟨[⟨.announce, 1, copy⟩, ⟨.apply, 1, copy⟩], _, rfl, rfl, hfail⟩
    rw [hreports]
    rfl
  · obtain ⟨i, before, after, hnodes, hk, -, -, hreports, hnumbered⟩ := hobserve 2 copy _ _
      ⟨[⟨.announce, 1, copy⟩, ⟨.apply, 1, copy⟩, ⟨.observe, 1, copy⟩, ⟨.announce, 2, copy⟩,
        ⟨.apply, 2, copy⟩], _, rfl, rfl, rfl⟩
    rw [hreports]
    rfl
  · obtain ⟨-, hreports, hnumbered⟩ := hall _ rfl
    rw [hreports]
    rfl

end Run
end ImagePipeline
