import ImagePipeline.Proofs.Binary64.Monotone
import ImagePipeline.Proofs.Image.NoiseBand

/-!
# The band of every number

The band of a number depends on nothing but its magnitude and grows with it: products are rounded
without regard to their sign, rounding keeps the order, and what is too large for a number reaches
as far as the limit.  So does what is no number at all.

## Main definitions

* `Binary64.abs` — a number without its sign.

## Main results

* `Noise.band_neg`, `Noise.reach_mono` — bands of numbers with the other sign and of greater ones.
* `Noise.band_of_number` — the band of any number, infinite ones and no number at all included.
-/

namespace ImagePipeline

open Binary64

/-- A number without its sign. -/
protected def Binary64.abs : Binary64 → Binary64
  | .finite _ a => .finite false a
  | .infinity _ => .infinity false
  | .nan => .nan

namespace Noise

variable {x y : Binary64}

theorem reach_neg (y : Binary64) : reach (-y) = reach y := by
  cases hy : y.toRat? with
  | some q =>
    have hsign : (-y).toRat? = some (-q) := by rw [toRat?_neg, hy, Option.map_some]
    rw [reach_of_toRat? hy, reach_of_toRat? hsign, abs_neg]
  | none =>
    have hsign : (-y).toRat? = none := by rw [toRat?_neg, hy, Option.map_none]
    rw [reach_of_not_finite hy, reach_of_not_finite hsign]

/-- **A number with the other sign has the same band.** -/
theorem band_neg (x : Binary64) : band (-x) = band x := by
  rw [band_eq, band_eq, Binary64.mul_neg, reach_neg]

/-- Of two rounded results the greater one in magnitude reaches further. -/
theorem reach_ofRat_mono {s t : Bool} {p q : ℚ} (h : |p| ≤ |q|) :
    reach (ofRat s p) ≤ reach (ofRat t q) := by
  cases hq : (ofRat t q).toRat? with
  | none =>
    rw [reach_of_not_finite hq]
    exact reach_le _
  | some v =>
    -- the lesser one is not too large for a number either
    have hrange := isFinite_ofRat_iff.mp (isFinite_iff.mpr ⟨v, hq⟩)
    obtain ⟨u, hu⟩ := isFinite_iff.mp (isFinite_ofRat_iff (s := s).mpr (h.trans_lt hrange))
    have hle : |u| ≤ |v| := by
      rw [abs_eq_rounded_of_toRat? hu, abs_eq_rounded_of_toRat? hq]
      exact rounded_mono (abs_nonneg p) h
    rw [reach_of_toRat? hu, reach_of_toRat? hq]
    exact min_le_min_left _ (Int.floor_mono hle)

/-- **A number that is no greater in magnitude has a band that reaches no further.** -/
theorem reach_mono (hx : x ≠ .nan) (hy : y ≠ .nan) (h : lt y.abs x.abs = false) :
    reach (ofNat 255 * x) ≤ reach (ofNat 255 * y) := by
  have hfactor : (ofNat 255).toRat? = some 255 := by decide +kernel
  cases y with
  | nan => exact absurd rfl hy
  | infinity t =>
    have hproduct : (ofNat 255 * infinity t).toRat? = none := by cases t <;> decide +kernel
    rw [reach_of_not_finite hproduct]
    exact reach_le _
  | finite t b =>
    cases x with
    | nan => exact absurd rfl hx
    | infinity s => exact absurd h (by simp [Binary64.abs, lt])
    | finite s a =>
      have hle : a.toRat ≤ b.toRat := by simpa [Binary64.abs, lt] using h
      obtain ⟨u, hxproduct⟩ := exists_mul_eq_ofRat hfactor (toRat?_finite s a)
      obtain ⟨v, hyproduct⟩ := exists_mul_eq_ofRat hfactor (toRat?_finite t b)
      rw [hxproduct, hyproduct]
      refine reach_ofRat_mono ?_
      rw [abs_mul, abs_mul, abs_signedRat, abs_signedRat]
      exact mul_le_mul_of_nonneg_left hle (abs_nonneg _)

/-- **The band of any number** reaches as far to either side, and no further than the limit.  It
does not change with the sign of the number, and the band of a number that is no greater in
magnitude lies within it.  It is as wide as what is left of 255 times the number once its fraction
is cut off, if that is below the limit.  What is cut off to its bounds is neither an infinity nor no
number, whatever the number. -/
theorem band_of_number (x : Binary64) :
    ∃ h : ℤ, band x = ⟨-h, h⟩ ∧ 0 ≤ h ∧ h ≤ 2 ^ 62 ∧ band (-x) = ⟨-h, h⟩ ∧
      (∀ y, x ≠ .nan → y ≠ .nan → lt x.abs y.abs = false →
        -h ≤ (band y).low ∧ (band y).high ≤ h) ∧
      (h = 0 ↔ ∃ q, (ofNat 255 * x).toRat? = some q ∧ |q| < 1) ∧
      (∀ q, (ofNat 255 * x).toRat? = some q → |q| < 2 ^ 62 → h = ⌊|q|⌋) ∧
      ∃ low high, (-scaled x).truncate? = some low ∧ (scaled x).truncate? = some high ∧
        band x = ⟨min low high, max low high⟩ := by
  have hlimit : bandLimit = 2 ^ 62 := rfl
  refine ⟨reach (ofNat 255 * x), band_eq x, reach_nonneg _, reach_le _, by rw [band_neg, band_eq],
    fun y hx hy hle => ?_, reach_eq_zero_iff, fun q hq hsmall => ?_, ?_⟩
  · have hmono := reach_mono hy hx hle
    rw [band_eq y]
    exact ⟨neg_le_neg hmono, hmono⟩
  · have hfloor : ⌊|q|⌋ ≤ bandLimit := by
      rw [hlimit, Int.floor_le_iff]
      push_cast
      linarith
    rw [reach_of_toRat? hq, min_eq_right hfloor]
  · obtain ⟨low, high, hlow, hhigh, hband, -⟩ := exists_band x
    exact ⟨low, high, hlow, hhigh, hband⟩

/-- The band of minus three lies in that of an infinity. -/
theorem band_of_number_minus_three : band (.ofInt (-3)) = ⟨-765, 765⟩ ∧
    -(2 ^ 62) ≤ (band (.ofInt (-3))).low ∧ (band (.ofInt (-3))).high ≤ 2 ^ 62 := by
  obtain ⟨h, hband, -, -, -, -, -, hsmall, -⟩ := band_of_number (.ofInt (-3))
  have hproduct : (ofNat 255 * ofInt (-3)).toRat? = some (-765) := by decide +kernel
  have hreach : h = 765 := by
    rw [hsmall (-765) hproduct (by rw [abs_neg]; norm_num), abs_neg]
    norm_num
  obtain ⟨m, -, -, hm, -, hmono, -⟩ := band_of_number (.infinity true)
  obtain ⟨hlow, hhigh⟩ := hmono (.ofInt (-3)) (by simp) (ofRat_ne_nan _ _) (by decide +kernel)
  exact ⟨by rw [hband, hreach], (neg_le_neg hm).trans hlow, hhigh.trans hm⟩

end Noise
end ImagePipeline
