import ImagePipeline.Image.Noise
import ImagePipeline.Proofs.Binary64.Comparison
import Mathlib.Algebra.Order.Group.MinMax
import Mathlib.Tactic.Linarith

/-!
# The band of an amount of noise

Every number has a band, also one that is not finite: 255 times the amount is brought
within the limit before it is cut down to integers, and what lies within the limit has
an integer part within the limit.

## Main definitions

* `Noise.scaled` — 255 times an amount, within the limit.
* `Noise.reach` — how far a band reaches, without the detour over its bounds.

## Main results

* `Noise.exists_band` — both bounds of a band are defined, and within the limit.
* `Noise.exists_band_eq`, `Noise.band_eq` — they are the same but for the sign.
* `Noise.isEmpty_band_iff` — the amounts whose band is empty.
-/

namespace ImagePipeline
namespace Noise

open Binary64

/-- 255 times an amount, brought within the limit. -/
def scaled (x : Binary64) : Binary64 :=
  greatest (.ofInt (-bandLimit)) (least (.ofInt bandLimit) (.ofNat 255 * x))

/-- The limit is a number, so comparing with it compares with the limit itself. -/
theorem toRat?_ofInt_bandLimit : (ofInt bandLimit).toRat? = some (bandLimit : ℚ) := by
  decide +kernel

theorem toRat?_ofInt_neg_bandLimit :
    (ofInt (-bandLimit)).toRat? = some ((-bandLimit : ℤ) : ℚ) := by
  decide +kernel

theorem exists_toRat?_scaled (x : Binary64) :
    ∃ q, (scaled x).toRat? = some q ∧ ((-bandLimit : ℤ) : ℚ) ≤ q ∧ q ≤ (bandLimit : ℚ) := by
  have hle : ((-bandLimit : ℤ) : ℚ) ≤ (bandLimit : ℚ) := Int.cast_le.mpr (by decide)
  exact toRat?_greatest_least toRat?_ofInt_neg_bandLimit toRat?_ofInt_bandLimit hle _

/-- **Every number has a band**: neither of its bounds is left undefined, and both are
within the limit. -/
theorem exists_band (x : Binary64) : ∃ low high : ℤ, (-scaled x).truncate? = some low ∧
    (scaled x).truncate? = some high ∧ band x = ⟨min low high, max low high⟩ ∧
    -bandLimit ≤ min low high ∧ max low high ≤ bandLimit := by
  obtain ⟨q, hq, hlower, hupper⟩ := exists_toRat?_scaled x
  have hq' : (-scaled x).toRat? = some (-q) := by rw [toRat?_neg, hq]; rfl
  have hlower' : ((-bandLimit : ℤ) : ℚ) ≤ -q := by
    rw [Int.cast_neg]
    exact neg_le_neg hupper
  have hupper' : -q ≤ (bandLimit : ℚ) := by
    rw [Int.cast_neg] at hlower
    exact neg_le.mp hlower
  obtain ⟨high, hhigh, hhigh₁, hhigh₂⟩ := exists_truncate? hq hlower hupper
  obtain ⟨low, hlow, hlow₁, hlow₂⟩ := exists_truncate? hq' hlower' hupper'
  refine ⟨low, high, hlow, hhigh, ?_, le_min hlow₁ hhigh₁, max_le hlow₂ hhigh₂⟩
  have hband : band x = ⟨min ((-scaled x).truncate?.getD 0) ((scaled x).truncate?.getD 0),
      max ((-scaled x).truncate?.getD 0) ((scaled x).truncate?.getD 0)⟩ := rfl
  rw [hband, hlow, hhigh]
  rfl

/-! ### The shape of a band -/

/-- A band reaches as far to either side. -/
theorem exists_band_eq (x : Binary64) : ∃ n : ℤ, (scaled x).truncate? = some n ∧
    band x = ⟨-|n|, |n|⟩ ∧ |n| ≤ bandLimit := by
  obtain ⟨low, high, hlow, hhigh, hband, hlimit, hlimit'⟩ := exists_band x
  rw [truncate?_neg, hhigh] at hlow
  obtain rfl : -high = low := Option.some.inj hlow
  have hmax : max (-high) high = |high| := by rw [abs_eq_max_neg, max_comm]
  have hmin : min (-high) high = -|high| := by
    rw [← hmax, ← min_neg_neg, Int.neg_neg, min_comm]
  rw [hmax] at hlimit'
  exact ⟨high, hhigh, by rw [hband, hmin, hmax], hlimit'⟩

theorem toRat?_scaled {x : Binary64} {q : ℚ} (h : (ofNat 255 * x).toRat? = some q) :
    (scaled x).toRat? = some (max ((-bandLimit : ℤ) : ℚ) (min (bandLimit : ℚ) q)) :=
  toRat?_greatest toRat?_ofInt_neg_bandLimit (toRat?_least toRat?_ofInt_bandLimit h)

/-- What is not finite is replaced by the limit. -/
theorem abs_scaled_of_not_finite {x : Binary64} (h : (ofNat 255 * x).toRat? = none) :
    ∃ q, (scaled x).toRat? = some q ∧ |q| = bandLimit := by
  have hlimit : |(bandLimit : ℚ)| = bandLimit := abs_of_nonneg (Int.cast_nonneg (by decide))
  unfold scaled
  generalize ofNat 255 * x = y at h
  cases y with
  | finite s a => cases s <;> exact absurd h (by simp [toRat?])
  | nan =>
    have hreplaced : greatest (ofInt (-bandLimit)) (least (ofInt bandLimit) .nan) =
        ofInt bandLimit := by decide +kernel
    exact ⟨_, by rw [hreplaced, toRat?_ofInt_bandLimit], hlimit⟩
  | infinity s =>
    cases s with
    | false =>
      have hreplaced : greatest (ofInt (-bandLimit)) (least (ofInt bandLimit) (.infinity false)) =
          ofInt bandLimit := by decide +kernel
      exact ⟨_, by rw [hreplaced, toRat?_ofInt_bandLimit], hlimit⟩
    | true =>
      have hreplaced : greatest (ofInt (-bandLimit)) (least (ofInt bandLimit) (.infinity true)) =
          ofInt (-bandLimit) := by decide +kernel
      refine ⟨_, by rw [hreplaced, toRat?_ofInt_neg_bandLimit], ?_⟩
      rw [Int.cast_neg, abs_neg, hlimit]

/-- How far the band of an amount reaches to either side, told from 255 times the amount. -/
def reach (y : Binary64) : ℤ :=
  match y.toRat? with
  | some q => min bandLimit ⌊|q|⌋
  | none => bandLimit

section

variable {x y : Binary64} {q : ℚ}

theorem reach_of_toRat? (h : y.toRat? = some q) : reach y = min bandLimit ⌊|q|⌋ := by
  rw [reach, h]

theorem reach_of_not_finite (h : y.toRat? = none) : reach y = bandLimit := by rw [reach, h]

theorem abs_max_min {limit : ℚ} (h : 0 ≤ limit) (q : ℚ) :
    |max (-limit) (min limit q)| = min limit |q| := by
  rcases le_total 0 q with hq | hq
  · rw [max_eq_right (by have := le_min h hq; linarith), abs_of_nonneg (le_min h hq),
      abs_of_nonneg hq]
  · have hsign : max (-limit) q = -min limit (-q) := by rw [← max_neg_neg, Rat.neg_neg]
    rw [min_eq_right (hq.trans h), hsign, abs_neg, abs_of_nonneg (le_min h (neg_nonneg.mpr hq)),
      abs_of_nonpos hq]

theorem floor_min_intCast (n : ℤ) (q : ℚ) : ⌊min (n : ℚ) q⌋ = min n ⌊q⌋ := by
  rw [Int.floor_mono.map_min, Int.floor_intCast]

/-- **A band reaches as far as what is left of 255 times the amount** once its fraction is cut off,
but no further than the limit. -/
theorem band_eq (x : Binary64) : band x = ⟨-reach (ofNat 255 * x), reach (ofNat 255 * x)⟩ := by
  obtain ⟨n, hn, hband, -⟩ := exists_band_eq x
  suffices h : |n| = reach (ofNat 255 * x) by rw [hband, h]
  cases hproduct : (ofNat 255 * x).toRat? with
  | some q =>
    have hlimit : (0 : ℚ) ≤ bandLimit := Int.cast_nonneg (by decide)
    rw [abs_truncate? (toRat?_scaled hproduct) hn, reach_of_toRat? hproduct, Int.cast_neg,
      abs_max_min hlimit, floor_min_intCast]
  | none =>
    obtain ⟨v, hv, habs⟩ := abs_scaled_of_not_finite hproduct
    rw [abs_truncate? hv hn, reach_of_not_finite hproduct, habs, Int.floor_intCast]

theorem reach_nonneg (y : Binary64) : 0 ≤ reach y := by
  unfold reach
  split
  · exact le_min (by decide) (Int.floor_nonneg.mpr (abs_nonneg _))
  · decide

theorem reach_le (y : Binary64) : reach y ≤ bandLimit := by
  unfold reach
  split
  · exact min_le_left _ _
  · exact le_rfl

/-- A band reaches nowhere exactly if 255 times the amount is less than one in magnitude. -/
theorem reach_eq_zero_iff : reach y = 0 ↔ ∃ q, y.toRat? = some q ∧ |q| < 1 := by
  have hlimit : bandLimit ≠ 0 := by decide
  have hpositive : 0 < bandLimit := by decide
  cases hy : y.toRat? with
  | some q =>
    have hfloor : 0 ≤ ⌊|q|⌋ := Int.floor_nonneg.mpr (abs_nonneg q)
    have hzero : ⌊|q|⌋ = 0 ↔ |q| < 1 := by
      rw [Int.floor_eq_zero_iff]
      exact ⟨fun h => h.2, fun h => ⟨abs_nonneg q, h⟩⟩
    rw [reach_of_toRat? hy]
    simp only [Option.some.injEq, exists_eq_left']
    rw [← hzero]
    omega
  | none =>
    rw [reach_of_not_finite hy]
    exact iff_of_false hlimit (by simp)

/-- **A band is empty exactly if 255 times the amount is less than one in magnitude.** -/
theorem isEmpty_band_iff : (band x).isEmpty = true ↔
    ∃ q, (ofNat 255 * x).toRat? = some q ∧ |q| < 1 := by
  rw [← reach_eq_zero_iff, band_eq]
  generalize reach (ofNat 255 * x) = n
  show (-n == n) = true ↔ n = 0
  rw [beq_iff_eq]
  omega

end

end Noise
end ImagePipeline
