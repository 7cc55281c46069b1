import ImagePipeline.Proofs.Image.NoiseBand
import ImagePipeline.Proofs.Node.Sizes
import ImagePipeline.Proofs.Run.Step

/-!
# Runs and sizes

A run of built-in nodes that neither saves nor is interrupted follows an abstraction in
which images are their sizes: how it ends, and what it reports, depends on nothing else.

## Main definitions

* `Options.IsQuiet` — nothing is saved and nobody interrupts.
* `sizeReports` — what a run reports, told from sizes.

## Main results

* `runSteps_of_allAdmissible` — nodes that suit the sizes make their images.
* `runSteps_of_not_admissible` — the first node that does not ends the run.
* `run_decided_by_sizes` — the outcome of a run is decided by sizes alone.
-/

namespace ImagePipeline
namespace Run

/-- Nothing is saved and nobody interrupts. -/
def Options.IsQuiet (o : Options) : Prop := o.saveSteps = false ∧ ∀ r, o.observer r = none

/-- A size in words. -/
def describeSize (size : ℕ × ℕ) : String :=
  "Image (RGBA " ++ toString size.1 ++ "x" ++ toString size.2 ++ ")"

/-- The reports of nodes on an image of the given size, where the first node is the step
of the given number. -/
def sizeReports (k : ℤ) (size : ℕ × ℕ) : List Node → List Report
  | [] => []
  | n :: ns =>
    ⟨k, n.name, n.words, describeSize size, describeSize (n.nextSize size), none, none⟩ ::
      sizeReports (k + 1) (n.nextSize size) ns

section

variable {o : Options} {k : ℤ} {s : State}

/-- A quiet step whose node makes an image goes on. -/
theorem runStep_of_quiet (ho : o.IsQuiet) {n : Node} {img : Image} {sources : Sources}
    (hn : n.InLimit) (h : n.apply s.sources s.image = .ok (img, sources)) :
    ∃ s', runStep o k n s = (s', none) ∧ s'.image = img ∧
      s'.reports = s.reports ++
        [⟨k, n.name, n.words, describeSize s.image.size, describeSize img.size, none, none⟩] := by
  rw [runStep_of_unsaved (openReport?_of_inLimit hn k s.image) h ho.1]
  refine ⟨_, Prod.ext rfl ?_, ?_, ?_⟩
  · rw [stop_closeStep, ho.2]
    rfl
  · rw [image_closeStep]
  · rw [reports_closeStep, State.reports_tell]
    rfl

/-- **Nodes that suit the sizes make their images**, and the sizes are reported. -/
theorem runSteps_of_allAdmissible (ho : o.IsQuiet) {ns : List Node}
    (hns : ∀ n ∈ ns, n.IsNumeric) (hs : HasPixels s.image.size)
    (h : AllAdmissible s.image.size ns) :
    ∃ s', runSteps o k ns s = (s', none) ∧ s'.image.size = sizeAfter s.image.size ns ∧
      s'.reports = s.reports ++ sizeReports k s.image.size ns := by
  induction ns generalizing k s with
  | nil => exact ⟨s, rfl, rfl, (List.append_nil _).symm⟩
  | cons n ns ih =>
    obtain ⟨hn, hns⟩ := List.forall_mem_cons.mp hns
    obtain ⟨hadm, hrest⟩ := h
    obtain ⟨img, sources, happly, hsize⟩ := Node.apply_of_admissible hn hs hadm s.sources
    obtain ⟨s₁, hstep, rfl, hreports₁⟩ := runStep_of_quiet (k := k) ho hn.inLimit happly
    rw [← hsize] at hrest
    have hs₁ : HasPixels s₁.image.size := hsize ▸ Node.hasPixels_nextSize hs hadm
    obtain ⟨s', hrun, hsize', hreports'⟩ := ih (k := k + 1) hns hs₁ hrest
    refine ⟨s', by rw [runSteps_cons_of_none hstep, hrun], ?_, ?_⟩
    · rw [hsize', hsize, sizeAfter]
    · rw [hreports', hreports₁, hsize, sizeReports, List.append_assoc]
      rfl

/-- **The first node that does not suit its size ends the run**: it is a crop, and it
names the bounds that it exceeds. -/
theorem runSteps_of_not_admissible (ho : o.IsQuiet) {before : List Node} (after : List Node)
    {n : Node} (hnodes : ∀ m ∈ before ++ n :: after, m.IsNumeric) (hs : HasPixels s.image.size)
    (h : AllAdmissible s.image.size before)
    (hn : ¬ n.Admissible (sizeAfter s.image.size before)) :
    ∃ r e s', n = .crop r ∧
      r.check (sizeAfter s.image.size before).1 (sizeAfter s.image.size before).2 = some e ∧
      e.family = .index ∧
      runSteps o k (before ++ n :: after) s =
        (s', some (.failed ⟨k + before.length, "Crop", .node (.bounds e)⟩)) ∧
      s'.reports = s.reports ++ sizeReports k s.image.size before := by
  obtain ⟨hbefore, hafter⟩ := List.forall_mem_append.mp hnodes
  have hnumeric : n.IsNumeric := hafter n List.mem_cons_self
  obtain ⟨s₁, hrun, hsize, hreports⟩ := runSteps_of_allAdmissible (k := k) ho hbefore hs h
  rw [← hsize] at hn
  obtain ⟨r, e, rfl, hcheck, hfamily, happly⟩ :=
    Node.apply_of_not_admissible hnumeric hn s₁.sources
  have hcheck' : r.check s₁.image.size.1 s₁.image.size.2 = some e := hcheck
  rw [hsize] at hcheck'
  have hlast : runSteps o (k + before.length) (.crop r :: after) s₁ = _ :=
    runSteps_cons_of_some
      (runStep_of_apply_error (openReport?_of_inLimit hnumeric.inLimit _ _) happly)
  refine ⟨r, e, _, rfl, hcheck', hfamily, by rw [runSteps_append, hrun]; exact hlast, ?_⟩
  rw [State.reports_tell, hreports]

/-! ### Whole runs -/

variable {nodes : Pipeline}

theorem run_of_allAdmissible (ho : o.IsQuiet) (hnodes : ∀ n ∈ nodes, n.IsNumeric)
    (hs : HasPixels s.image.size) (h : AllAdmissible s.image.size nodes) :
    (run o nodes s).2 = none ∧ (run o nodes s).1.image.size = sizeAfter s.image.size nodes ∧
      (run o nodes s).1.reports = s.reports ++ sizeReports 1 s.image.size nodes := by
  have htell : (s.tell o.logSteps [startMessage nodes.length s.image]).image = s.image :=
    State.image_tell _ _ _
  rw [← htell] at hs h
  obtain ⟨s', hrun, hsize, hreports⟩ := runSteps_of_allAdmissible (k := 1) ho hnodes hs h
  rw [run_stop, image_run, reports_run, hrun]
  rw [htell] at hsize hreports
  rw [State.reports_tell] at hreports
  exact ⟨rfl, hsize, hreports⟩

theorem run_of_not_admissible (ho : o.IsQuiet) {before : List Node} (after : List Node) {n : Node}
    (hnodes : ∀ m ∈ before ++ n :: after, m.IsNumeric) (hs : HasPixels s.image.size)
    (h : AllAdmissible s.image.size before)
    (hn : ¬ n.Admissible (sizeAfter s.image.size before)) :
    ∃ r e, n = .crop r ∧
      r.check (sizeAfter s.image.size before).1 (sizeAfter s.image.size before).2 = some e ∧
      e.family = .index ∧
      (run o (before ++ n :: after) s).2 =
        some (.failed ⟨before.length + 1, "Crop", .node (.bounds e)⟩) ∧
      (run o (before ++ n :: after) s).1.reports =
        s.reports ++ sizeReports 1 s.image.size before := by
  have htell : ∀ messages, (s.tell o.logSteps messages).image = s.image :=
    fun messages => State.image_tell _ _ _
  rw [run_stop, reports_run]
  rw [← htell [startMessage (before ++ n :: after).length s.image]] at hs h hn
  obtain ⟨r, e, s', rfl, hcheck, hfamily, hrun, hreports⟩ :=
    runSteps_of_not_admissible (k := 1) ho after hnodes hs h hn
  rw [htell] at hcheck hreports
  rw [State.reports_tell] at hreports
  rw [hrun, Int.add_comm]
  exact ⟨r, e, rfl, hcheck, hfamily, rfl, hreports⟩

end

/-- **The outcome of a run is decided by sizes alone.**  A quiet run of built-in nodes
on an image with pixels goes through exactly if every node suits the size that it is
applied to; its result then has the last size.  Otherwise it ends with the first crop
that does not, which names the bounds that it exceeds.  What is reported are the steps
before with their sizes.  Another run from an image of the same size, with whatever
pixels and sources of draws, ends in the same way and makes the same reports.  No amount
of noise leaves a bound of its band undefined or beyond the limit. -/
theorem run_decided_by_sizes {o : Options} (ho : o.IsQuiet) {nodes : Pipeline}
    (hnodes : ∀ n ∈ nodes, n.IsNumeric) {s : State} (hs : HasPixels s.image.size) :
    ((run o nodes s).2 = none ↔ AllAdmissible s.image.size nodes) ∧
    ((run o nodes s).2 = none →
      (run o nodes s).1.image.size = sizeAfter s.image.size nodes ∧
        (run o nodes s).1.reports = s.reports ++ sizeReports 1 s.image.size nodes) ∧
    (∀ stop, (run o nodes s).2 = some stop → ∃ before r after e,
      nodes = before ++ .crop r :: after ∧ AllAdmissible s.image.size before ∧
        ¬ r.Fits (sizeAfter s.image.size before).1 (sizeAfter s.image.size before).2 ∧
        r.check (sizeAfter s.image.size before).1 (sizeAfter s.image.size before).2 = some e ∧
        e.family = .index ∧
        stop = .failed ⟨before.length + 1, "Crop", .node (.bounds e)⟩ ∧
        (run o nodes s).1.reports = s.reports ++ sizeReports 1 s.image.size before) ∧
    (∀ (o' : Options) (s' : State), o'.IsQuiet → s'.image.size = s.image.size →
      (run o' nodes s').2 = (run o nodes s).2 ∧ ∃ new,
        (run o nodes s).1.reports = s.reports ++ new ∧
          (run o' nodes s').1.reports = s'.reports ++ new) ∧
    (∀ x, ∃ low high, (-Noise.scaled x).truncate? = some low ∧
      (Noise.scaled x).truncate? = some high ∧ Noise.band x = ⟨min low high, max low high⟩ ∧
      -Noise.bandLimit ≤ min low high ∧ max low high ≤ Noise.bandLimit) := by
  rcases firstInadmissible s.image.size nodes with h | ⟨before, n, after, rfl, hbefore, hn⟩
  · -- every node suits its size: so it does in the other run
    obtain ⟨hnone, hlast, hreports⟩ := run_of_allAdmissible ho hnodes hs h
    refine ⟨iff_of_true hnone h, fun _ => ⟨hlast, hreports⟩, ?_, ?_, Noise.exists_band⟩
    · intro stop hstop
      exact absurd (hnone.symm.trans hstop) (by simp)
    · intro o' s' ho' hsize
      have hs' : HasPixels s'.image.size := hsize ▸ hs
      obtain ⟨hnone', -, hreports'⟩ := run_of_allAdmissible ho' hnodes hs' (hsize ▸ h)
      exact ⟨hnone'.trans hnone.symm, _, hreports, hsize ▸ hreports'⟩
  · -- one is the first that does not: it is the same crop in the other run
    have hnot : ¬ AllAdmissible s.image.size (before ++ n :: after) := by
      rw [allAdmissible_append_iff]
      rintro ⟨-, hadm, -⟩
      exact hn hadm
    obtain ⟨r, e, rfl, hcheck, hfamily, hstop, hreports⟩ :=
      run_of_not_admissible ho after hnodes hs hbefore hn
    refine ⟨iff_of_false (by rw [hstop]; simp) hnot, ?_, ?_, ?_, Noise.exists_band⟩
    · intro hnone
      exact absurd (hnone.symm.trans hstop) (by simp)
    · intro stop hstop'
      exact ⟨before, r, after, e, rfl, hbefore, hn, hcheck, hfamily,
        Option.some.inj (hstop'.symm.trans hstop), hreports⟩
    · intro o' s' ho' hsize
      have hs' : HasPixels s'.image.size := hsize ▸ hs
      rw [← hsize] at hbefore hn
      obtain ⟨r', e', hr', hcheck', -, hstop', hreports'⟩ :=
        run_of_not_admissible ho' after hnodes hs' hbefore hn
      obtain rfl := Node.crop.inj hr'
      rw [hsize, hcheck] at hcheck'
      obtain rfl := Option.some.inj hcheck'
      exact ⟨hstop'.trans hstop.symm, _, hreports, hsize ▸ hreports'⟩

/-- On an image of two columns, a crop of one of them goes through whatever the noise
before it, and a crop of both does not go through after it. -/
theorem run_decided_by_sizes_two_columns :
    let o : Options := ⟨false, false, .ofChars ['.'], "output", ['p', 'n', 'g'], fun _ => none⟩
    let s : State := ⟨.ofFn 2 1 fun _ _ => default, ⟨fun _ => .ofList [], fun _ => .ofList []⟩,
      .empty, [], []⟩
    ((run o [.noise (.real .nan) none, .crop ⟨1, 0, 1, 1⟩] s).2 = none ∧
      (run o [.noise (.real .nan) none, .crop ⟨1, 0, 1, 1⟩] s).1.image.size = (1, 1)) ∧
    (run o [.crop ⟨1, 0, 1, 1⟩, .crop ⟨0, 0, 2, 1⟩] s).2 ≠ none := by
  intro o s
  have ho : o.IsQuiet := ⟨rfl, fun _ => rfl⟩
  have hs : HasPixels s.image.size := ⟨by decide, by decide⟩
  have hfirst : Region.Fits ⟨1, 0, 1, 1⟩ 2 1 := by decide
  have hsecond : ¬ Region.Fits ⟨0, 0, 2, 1⟩ 1 1 := by decide
  have hcolumn : (⟨1, 0, 1, 1⟩ : Region).InLimit := by decide
  have hboth : (⟨0, 0, 2, 1⟩ : Region).InLimit := by decide
  have hnodes : ∀ n ∈ [Node.noise (.real .nan) none, .crop ⟨1, 0, 1, 1⟩], n.IsNumeric := by
    simpa [Node.IsNumeric] using hcolumn
  have hnodes' : ∀ n ∈ [Node.crop ⟨1, 0, 1, 1⟩, .crop ⟨0, 0, 2, 1⟩], n.IsNumeric := by
    simpa [Node.IsNumeric] using ⟨hcolumn, hboth⟩
  obtain ⟨hiff, hlast, -⟩ := run_decided_by_sizes ho hnodes hs
  obtain ⟨hiff', -⟩ := run_decided_by_sizes ho hnodes' hs
  have hnone := hiff.mpr ⟨trivial, hfirst, trivial⟩
  refine ⟨⟨hnone, (hlast hnone).1⟩, fun h => ?_⟩
  obtain ⟨-, hadm, -⟩ := hiff'.mp h
  exact hsecond hadm

end Run
end ImagePipeline
