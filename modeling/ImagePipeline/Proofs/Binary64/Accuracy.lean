import ImagePipeline.Binary64.Arithmetic
import ImagePipeline.Proofs.Binary64.Rounding
import Mathlib.Tactic.NormNum

/-!
# How exact arithmetic is

A rational below a power of two has a nearest number, and the two are at most half a step of
the grid below that power apart.  So the value of every operation is finite, and off by that
much, as long as it stays below the power.

## Main results

* `Magnitude.exists_ofRat?` — the magnitude nearest to a rational is a multiple of its grid.
* `exists_toRat?_ofRat` — a rational has a nearest number, and how far it is.
* `exists_toRat?_add`, `exists_toRat?_mul` — the same for a sum and a product.
-/

namespace ImagePipeline

/-- Rounding does not fall below an integer that has been reached. -/
theorem le_roundHalfEven {n : ℕ} {q : ℚ} (h : (n : ℚ) ≤ q) : n ≤ roundHalfEven q := by
  have hbelow := (roundHalfEven_bounds (le_trans n.cast_nonneg h)).1
  have hlt : (n : ℚ) < (roundHalfEven q : ℚ) + 1 := by linarith
  exact Nat.lt_succ_iff.mp (by exact_mod_cast hlt)

/-- Rounding does not exceed an integer that has not been exceeded. -/
theorem roundHalfEven_le {n : ℕ} {q : ℚ} (hq : 0 ≤ q) (h : q ≤ n) : roundHalfEven q ≤ n := by
  have habove := (roundHalfEven_bounds hq).2
  have hlt : (roundHalfEven q : ℚ) < (n : ℚ) + 1 := by linarith
  exact Nat.lt_succ_iff.mp (by exact_mod_cast hlt)

/-! ### Magnitudes -/

namespace Magnitude

theorem gridExponent_le {q : ℚ} (hq : 0 < q) {k : ℤ} (hk : -1021 ≤ k) (h : q < 2 ^ k) :
    gridExponent q ≤ k - 53 := by
  have hbinade := binade_lt hq h
  unfold gridExponent
  omega

/-- A nearest multiple of the grid has at most 53 digits, or is the power of two above them. -/
theorem roundHalfEven_grid_le {q : ℚ} (hq : 0 < q) :
    roundHalfEven (q / 2 ^ gridExponent q) ≤ 2 ^ 53 := by
  have hbinade : binade q - 52 ≤ gridExponent q := le_max_right _ _
  refine roundHalfEven_le (by positivity) ?_
  rw [div_le_iff₀ (by positivity)]
  calc q ≤ 2 ^ (binade q + 1) := (binade_bounds hq).2.le
    _ ≤ 2 ^ (53 + gridExponent q) := two_zpow_le_iff.mpr (by omega)
    _ = ((2 ^ 53 : ℕ) : ℚ) * 2 ^ gridExponent q := by rw [← two_zpow_mul]; norm_num

/-- Halving the mantissa loses nothing. -/
theorem toRat_of_ofParts? {m : ℕ} {e : ℤ} {a : Magnitude} (hm : m ≤ 2 ^ 53) (he : -1074 ≤ e)
    (h : ofParts? m e = some a) : a.toRat = m * 2 ^ e := by
  unfold ofParts? at h
  split at h
  · obtain rfl := Option.some.inj h
    rfl
  · split at h
    · next hhalved =>
      obtain rfl := Option.some.inj h
      -- the halved mantissa has 53 digits, so it was the power of two
      obtain rfl : m = 2 ^ 53 := by
        obtain ⟨-, -, -, hdigits⟩ := hhalved
        omega
      show ((2 ^ 53 / 2 : ℕ) : ℚ) * 2 ^ (e + 1) = ((2 ^ 53 : ℕ) : ℚ) * 2 ^ e
      rw [zpow_add_one₀ two_ne_zero]
      norm_num
      ring
    · exact absurd h (by simp)

/-- **A nearest magnitude is the nearest multiple of the grid.** -/
theorem toRat_of_ofRat? {q : ℚ} {a : Magnitude} (hq : 0 < q) (h : ofRat? q = some a) :
    a.toRat = roundHalfEven (q / 2 ^ gridExponent q) * 2 ^ gridExponent q :=
  toRat_of_ofParts? (roundHalfEven_grid_le hq) (le_max_left _ _) h

/-- **A rational in range has a nearest magnitude**, which is the nearest multiple of its
grid. -/
theorem exists_ofRat? {q : ℚ} (hq : 0 < q) (h : q < 2 ^ (1023 : ℤ)) : ∃ a, ofRat? q = some a ∧
    a.toRat = roundHalfEven (q / 2 ^ gridExponent q) * 2 ^ gridExponent q := by
  suffices hsome : ∃ a, ofRat? q = some a by
    obtain ⟨a, ha⟩ := hsome
    exact ⟨a, ha, toRat_of_ofRat? hq ha⟩
  have hupper := roundHalfEven_grid_le hq
  set e := gridExponent q with he
  have hpos : (0 : ℚ) < 2 ^ e := by positivity
  have hexp : e ≤ 970 := by
    have := gridExponent_le hq (by omega) h
    omega
  have hleast : -1074 ≤ e := le_max_left _ _
  -- off the least exponent the mantissa has 53 digits
  have hlower : e ≠ -1074 → 2 ^ 52 ≤ roundHalfEven (q / 2 ^ e) := by
    intro hne
    have heq : e = binade q - 52 := by
      rw [he, gridExponent] at hne ⊢
      omega
    refine le_roundHalfEven ?_
    rw [le_div_iff₀ hpos]
    calc ((2 ^ 52 : ℕ) : ℚ) * 2 ^ e = 2 ^ (52 + e) := by rw [← two_zpow_mul]; norm_num
      _ ≤ 2 ^ binade q := two_zpow_le_iff.mpr (by omega)
      _ ≤ q := (binade_bounds hq).1
  have hdef : ofRat? q = ofParts? (roundHalfEven (q / 2 ^ e)) e := rfl
  rw [hdef]
  generalize roundHalfEven (q / 2 ^ e) = m at hupper hlower ⊢
  unfold ofParts?
  by_cases hm : m < 2 ^ 53
  · have hcanonical : Canonical m e := by
      refine ⟨hm, hleast, by omega, ?_⟩
      by_cases hne : e = -1074
      · exact Or.inr hne
      · exact Or.inl (hlower hne)
    exact ⟨_, dif_pos hcanonical⟩
  · obtain rfl : m = 2 ^ 53 := by omega
    have hfull : ¬ Canonical (2 ^ 53) e := fun hc => absurd hc.1 hm
    have hhalved : Canonical (2 ^ 53 / 2) (e + 1) :=
      ⟨by norm_num, by omega, by omega, Or.inl (by norm_num)⟩
    exact ⟨_, (dif_neg hfull).trans (dif_pos hhalved)⟩

end Magnitude

/-! ### Numbers -/

namespace Binary64

/-- **A rational below a power of two has a nearest number**, at most half a step of the grid
below that power away. -/
theorem exists_toRat?_ofRat {q : ℚ} (hq : 0 ≤ q) {k : ℤ} (hk : -1021 ≤ k) (hk' : k ≤ 1023)
    (h : q < 2 ^ k) (s : Bool) :
    ∃ r, (ofRat s q).toRat? = some r ∧ 0 ≤ r ∧ |r - q| ≤ 2 ^ (k - 54) := by
  unfold ofRat
  rcases hq.eq_or_lt with rfl | hpos
  · refine ⟨0, ?_, le_rfl, by simp [zpow_nonneg]⟩
    rw [if_pos rfl]
    cases s <;> simp [toRat?, Magnitude.toRat, Magnitude.zero]
  · obtain ⟨a, ha, hvalue⟩ := Magnitude.exists_ofRat? hpos
      (h.trans_le (two_zpow_le_iff.mpr hk'))
    have habs : q.abs = q := Rat.abs_of_nonneg hq
    have hnegative : decide (q < 0) = false := decide_eq_false (not_lt.mpr hq)
    rw [if_neg hpos.ne', habs, ha]
    simp only [hnegative]
    refine ⟨a.toRat, rfl, a.toRat_nonneg, ?_⟩
    -- the nearest multiple of the grid is at most half a step away
    set e := Magnitude.gridExponent q with he
    have hgrid : e ≤ k - 53 := Magnitude.gridExponent_le hpos hk h
    have hstep : (0 : ℚ) < 2 ^ e := by positivity
    obtain ⟨hbelow, habove⟩ := roundHalfEven_bounds (q := q / 2 ^ e) (by positivity)
    have hcancel : q / 2 ^ e * 2 ^ e = q := div_mul_cancel₀ q hstep.ne'
    have hdistance : |a.toRat - q| ≤ 1 / 2 * 2 ^ e := by
      rw [hvalue, abs_le]
      constructor
      · nlinarith [mul_le_mul_of_nonneg_right hbelow hstep.le]
      · nlinarith [mul_le_mul_of_nonneg_right habove hstep.le]
    calc |a.toRat - q| ≤ 1 / 2 * 2 ^ e := hdistance
      _ ≤ 1 / 2 * 2 ^ (k - 53) :=
        mul_le_mul_of_nonneg_left (two_zpow_le_iff.mpr hgrid) (by norm_num)
      _ = 2 ^ (k - 54) := by
        rw [show k - 53 = k - 54 + 1 by ring, zpow_add_one₀ two_ne_zero]
        ring

section

variable {x y : Binary64} {p q : ℚ}

theorem exists_eq_finite (hx : x.toRat? = some p) : ∃ s a, x = .finite s a ∧ signedRat s a = p := by
  cases x with
  | finite s a => cases s <;> exact ⟨_, a, rfl, Option.some.inj hx⟩
  | infinity s => exact absurd hx (by simp [toRat?])
  | nan => exact absurd hx (by simp [toRat?])

theorem exists_add_eq_ofRat (hx : x.toRat? = some p) (hy : y.toRat? = some q) :
    ∃ s, x + y = ofRat s (p + q) := by
  obtain ⟨s, a, rfl, rfl⟩ := exists_eq_finite hx
  obtain ⟨t, b, rfl, rfl⟩ := exists_eq_finite hy
  exact ⟨_, rfl⟩

theorem exists_mul_eq_ofRat (hx : x.toRat? = some p) (hy : y.toRat? = some q) :
    ∃ s, x * y = ofRat s (p * q) := by
  obtain ⟨s, a, rfl, rfl⟩ := exists_eq_finite hx
  obtain ⟨t, b, rfl, rfl⟩ := exists_eq_finite hy
  exact ⟨_, rfl⟩

/-- A sum below a power of two is off by at most half a step of the grid below it. -/
theorem exists_toRat?_add (hx : x.toRat? = some p) (hy : y.toRat? = some q) (hpq : 0 ≤ p + q)
    {k : ℤ} (hk : -1021 ≤ k) (hk' : k ≤ 1023) (h : p + q < 2 ^ k) :
    ∃ r, (x + y).toRat? = some r ∧ 0 ≤ r ∧ |r - (p + q)| ≤ 2 ^ (k - 54) := by
  obtain ⟨s, hsum⟩ := exists_add_eq_ofRat hx hy
  rw [hsum]
  exact exists_toRat?_ofRat hpq hk hk' h s

/-- A product below a power of two is off by at most half a step of the grid below it. -/
theorem exists_toRat?_mul (hx : x.toRat? = some p) (hy : y.toRat? = some q) (hpq : 0 ≤ p * q)
    {k : ℤ} (hk : -1021 ≤ k) (hk' : k ≤ 1023) (h : p * q < 2 ^ k) :
    ∃ r, (x * y).toRat? = some r ∧ 0 ≤ r ∧ |r - p * q| ≤ 2 ^ (k - 54) := by
  obtain ⟨s, hproduct⟩ := exists_mul_eq_ofRat hx hy
  rw [hproduct]
  exact exists_toRat?_ofRat hpq hk hk' h s

end

end Binary64
end ImagePipeline
