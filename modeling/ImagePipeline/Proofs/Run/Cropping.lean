import ImagePipeline.Proofs.Node.Cropping
import ImagePipeline.Proofs.Run.Results

/-!
# Crops in a run

Runs of crops and greyscale nodes.  Crops one after another make what a single one makes, and
greyscale nodes can be moved to the front or to the end: the run goes through or not as before,
with the same result, or the same crop is refused for the same reason.

## Main definitions

* `greysFirst`, `greysLast` — nodes with the greyscale nodes moved to the front or to the end.
* `EndsAlike` — two runs have the same result, or the same crop is refused in both.

## Main results

* `endsAlike_run` — runs with the same crops in the same order.
* `run_cropping` — crops in a row, and greyscale nodes that are moved.
-/

namespace ImagePipeline
namespace Run

/-- The nodes with the greyscale nodes in front. -/
def greysFirst (ns : List Node) : List Node :=
  ns.filter (· = .greyscale) ++ ns.filter (· ≠ .greyscale)

/-- The nodes with the greyscale nodes at the end. -/
def greysLast (ns : List Node) : List Node :=
  ns.filter (· ≠ .greyscale) ++ ns.filter (· = .greyscale)

/-- Runs over the nodes `ns` and `ns'` end alike: both go through, with the same image, or in both
the same crop is refused for its bounds, which comes after the same crops. -/
structure EndsAlike (ns ns' : List Node) (outcome outcome' : State × Option Stop) : Prop where
  stop_eq_none_iff : outcome'.2 = none ↔ outcome.2 = none
  image_eq : outcome.2 = none → outcome'.1.image = outcome.1.image
  refused : ∀ stop, outcome.2 = some stop → ∃ before r after before' after' e,
    ns = before ++ .crop r :: after ∧ ns' = before' ++ .crop r :: after' ∧
      regions before' = regions before ∧ e.family = .index ∧
      outcome.2 = some (.failed ⟨before.length + 1, "Crop", .node (.bounds e)⟩) ∧
      outcome'.2 = some (.failed ⟨before'.length + 1, "Crop", .node (.bounds e)⟩)

variable {o o' : Options} {ns ns' : List Node} {s s' : State}

/-! ### Moving greyscale nodes -/

theorem mem_of_mem_greys {n : Node} :
    (n ∈ greysFirst ns ↔ n ∈ ns) ∧ (n ∈ greysLast ns ↔ n ∈ ns) := by
  by_cases h : n = .greyscale <;> simp [greysFirst, greysLast, h]

theorem regions_greys :
    regions (greysFirst ns) = regions ns ∧ regions (greysLast ns) = regions ns := by
  have hgreys : regions (ns.filter (· = .greyscale)) = [] := by
    refine List.filterMap_eq_nil_iff.mpr fun n hn => ?_
    obtain rfl : n = .greyscale := by simpa using (List.mem_filter.mp hn).2
    rfl
  have hothers : regions (ns.filter (· ≠ .greyscale)) = regions ns := by
    rw [regions, List.filterMap_filter]
    refine List.filterMap_congr fun n _ => ?_
    by_cases h : n = .greyscale
    · rw [h]
      rfl
    · simp [h]
  constructor
  · rw [greysFirst, regions_append, hgreys, hothers, List.nil_append]
  · rw [greysLast, regions_append, hgreys, hothers, List.append_nil]

/-! ### Runs with the same crops -/

/-- Crops that go through end no run. -/
theorem run_of_cropAll (ho : o.IsQuiet) (hns : OnlyCropsAndGreys ns) (hlimit : ∀ n ∈ ns, n.InLimit)
    {out : Image} (h : cropAll (regions ns) s.image = .ok out) :
    (run o ns s).2 = none ∧ (run o ns s).1.image = turnedBy ns out := by
  have hall : applyAll ns s.sources s.image = .ok (turnedBy ns out, s.sources) := by
    rw [applyAll_eq hns, h]
  obtain ⟨hstop, himage, -⟩ := run_of_applyAll ho hlimit hall
  exact ⟨hstop, himage⟩

/-- A crop that is refused after crops that go through ends the run. -/
theorem run_of_refused (ho : o.IsQuiet) {before : List Node} (after : List Node) {r : Region}
    {mid : Image} {e : BoundsError} (hbefore : OnlyCropsAndGreys before)
    (hlimit : ∀ n ∈ before ++ .crop r :: after, n.InLimit) (h : cropAll (regions before) s.image = .ok mid) (hr : Image.crop r mid = .error e) :
    (run o (before ++ .crop r :: after) s).2 =
      some (.failed ⟨before.length + 1, "Crop", .node (.bounds e)⟩) := by
  have hall : applyAll before s.sources s.image = .ok (turnedBy before mid, s.sources) := by
    rw [applyAll_eq hbefore, h]
  obtain ⟨hwidth, hheight⟩ := Prod.mk.inj (size_turnedBy before mid)
  have hcrop : Image.crop r (turnedBy before mid) = .error e := by
    rw [Image.crop_eq_error_iff, hwidth, hheight]
    exact Image.crop_eq_error_iff.mp hr
  exact run_of_apply_error ho after hlimit hall (by simp only [Node.apply, hcrop])

/-- **Runs with the same crops in the same order end alike**, if both have a greyscale node or
neither has one. -/
theorem endsAlike_run (ho : o.IsQuiet) (ho' : o'.IsQuiet) (himage : s'.image = s.image)
    (hns : OnlyCropsAndGreys ns) (hlimit : ∀ n ∈ ns, n.InLimit) (hmem : ∀ n, n ∈ ns' ↔ n ∈ ns)
    (hregions : regions ns' = regions ns) : EndsAlike ns ns' (run o ns s) (run o' ns' s') := by
  have hns' : OnlyCropsAndGreys ns' := fun n hn => hns n ((hmem n).mp hn)
  have hlimit' : ∀ n ∈ ns', n.InLimit := fun n hn => hlimit n ((hmem n).mp hn)
  cases hcrops : cropAll (regions ns) s.image with
  | ok out =>
    have hcrops' : cropAll (regions ns') s'.image = .ok out := by rw [hregions, himage, hcrops]
    obtain ⟨hstop, hout⟩ := run_of_cropAll ho hns hlimit hcrops
    obtain ⟨hstop', hout'⟩ := run_of_cropAll ho' hns' hlimit' hcrops'
    refine ⟨iff_of_true hstop' hstop, fun _ => ?_,
      fun stop h => absurd (hstop.symm.trans h) (by simp)⟩
    rw [hout', hout, turnedBy, turnedBy]
    simp only [hmem]
  | error e =>
    obtain ⟨before, r, after, mid, hsplit, hbefore, hr⟩ := exists_refused hcrops
    -- the same crop stands somewhere in either row of nodes
    obtain ⟨front, back, rfl, hfront⟩ := exists_crop_of_regions_eq hsplit
    obtain ⟨front', back', rfl, hfront'⟩ := exists_crop_of_regions_eq (hregions.trans hsplit)
    have hstop := run_of_refused ho back (fun n hn => hns n (List.mem_append_left _ hn)) hlimit
      (by rw [hfront, hbefore]) hr
    have hstop' := run_of_refused ho' back' (fun n hn => hns' n (List.mem_append_left _ hn)) hlimit'
      (by rw [hfront', himage, hbefore]) hr
    have hfamily : e.family = .index :=
      Region.family_of_check (hlimit (.crop r) (by simp)) (Image.crop_eq_error_iff.mp hr)
    refine ⟨by rw [hstop, hstop']; simp, fun h => absurd (hstop.symm.trans h) (by simp), ?_⟩
    exact fun _ _ => ⟨front, r, back, front', back', e, rfl, rfl, hfront'.trans hfront.symm,
      hfamily, hstop, hstop'⟩

/-- **Crops in a row are a single one, and greyscale nodes can be moved past them.**  If a run of
crops goes through, whatever it is asked to do besides, its result is the one region whose corner
is the sum of all corners and whose extents are those of the last crop, and cutting this region
out of the image goes through.  A quiet run of crops and greyscale nodes that can be put into
words ends as before if all greyscale nodes are moved to the front or to the end: it goes through
or not as before, with the same result, or with the same crop refused for the same reason. -/
theorem run_cropping (ho : o.IsQuiet) (ho' : o'.IsQuiet) (himage : s'.image = s.image) :
    (∀ (p : Options) (rs : List Region) (hrs : rs ≠ []), (run p (rs.map .crop) s).2 = none →
      (Node.crop (Region.fused rs hrs)).apply s.sources s.image =
        .ok ((run p (rs.map .crop) s).1.image, s.sources)) ∧
    ∀ ns, OnlyCropsAndGreys ns → (∀ n ∈ ns, n.InLimit) →
      EndsAlike ns (greysFirst ns) (run o ns s) (run o' (greysFirst ns) s') ∧
      EndsAlike ns (greysLast ns) (run o ns s) (run o' (greysLast ns) s') := by
  refine ⟨fun p rs hrs hnone => ?_, fun ns hns hlimit => ⟨?_, ?_⟩⟩
  · have hcrops : OnlyCropsAndGreys (rs.map .crop) := by
      intro n hn
      obtain ⟨r, -, rfl⟩ := List.mem_map.mp hn
      exact Or.inr ⟨r, rfl⟩
    have hmade := applyAll_of_run_eq_none hnone
    rw [applyAll_eq hcrops, regions_map_crop] at hmade
    cases hall : cropAll rs s.image with
    | error e =>
      rw [hall] at hmade
      exact absurd hmade (by simp)
    | ok out =>
      rw [hall] at hmade
      obtain ⟨hout, -⟩ := Prod.mk.inj (Except.ok.inj hmade)
      rw [turnedBy_map_crop] at hout
      rw [← hout]
      exact Node.apply_eq_ok_iff.mpr
        (.crop (Image.crop_eq_ok_iff.mpr (isCut_fused_of_cropAll hrs hall)))
  · exact endsAlike_run ho ho' himage hns hlimit (fun _ => mem_of_mem_greys.1) regions_greys.1
  · exact endsAlike_run ho ho' himage hns hlimit (fun _ => mem_of_mem_greys.2) regions_greys.2

/-- Three crops of an image of three columns are one of its last pixel, and a second crop that is
too wide is refused alike with the greyscale node in front. -/
theorem run_cropping_three_columns :
    let o : Options := ⟨false, false, .ofChars ['.'], "output", ['p', 'n', 'g'], fun _ => none⟩
    let s : State := ⟨.ofFn 3 2 fun x y => .grey (10 * x + y).toUInt8 7,
      ⟨fun _ => .ofList [], fun _ => .ofList []⟩, .empty, [], []⟩
    let rs : List Region := [⟨1, 0, 2, 2⟩, ⟨0, 1, 2, 1⟩, ⟨1, 0, 1, 1⟩]
    let ns : Pipeline := [.crop ⟨1, 0, 2, 2⟩, .crop ⟨1, 0, 2, 1⟩, .greyscale]
    (Node.crop ⟨2, 1, 1, 1⟩).apply s.sources s.image =
        .ok ((run o (rs.map .crop) s).1.image, s.sources) ∧
      (run o ns s).2 =
        some (.failed ⟨2, "Crop", .node (.bounds (.exceeds ⟨1, 0, 2, 1⟩ 2 2))⟩) ∧
      ∃ step, (run o (greysFirst ns) s).2 =
        some (.failed ⟨step, "Crop", .node (.bounds (.exceeds ⟨1, 0, 2, 1⟩ 2 2))⟩) := by
  intro o s rs ns
  have ho : o.IsQuiet := ⟨rfl, fun _ => rfl⟩
  obtain ⟨hfuse, hmove⟩ := @run_cropping o o s s ho ho rfl
  have hns : OnlyCropsAndGreys ns := by simp [OnlyCropsAndGreys, ns]
  have hlimit : ∀ n ∈ ns, n.InLimit := by decide
  have hnone : (run o (rs.map .crop) s).2 = none := by decide +kernel
  have hstop : (run o ns s).2 =
      some (.failed ⟨2, "Crop", .node (.bounds (.exceeds ⟨1, 0, 2, 1⟩ 2 2))⟩) := by
    decide +kernel
  obtain ⟨before, r, after, before', after', e, -, -, -, -, h, h'⟩ :=
    (hmove ns hns hlimit).1.refused _ hstop
  refine ⟨hfuse o rs (List.cons_ne_nil _ _) hnone, hstop, before'.length + 1, ?_⟩
  simp only [hstop, Option.some.injEq, Stop.failed.injEq, RunError.mk.injEq, Cause.node.injEq,
    Failure.bounds.injEq] at h
  rw [h', ← h.2.2]

end Run
end ImagePipeline
