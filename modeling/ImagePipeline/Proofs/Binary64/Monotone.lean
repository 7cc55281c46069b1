import ImagePipeline.Proofs.Binary64.Nearest

/-!
# Rounding keeps the order

The value of the number nearest to a rational, as a function of the rational alone.  Between
two rationals of one grid the order is kept because the nearest integers are in order; between
rationals of different grids there is a power of two that lies on both, and neither of them is
rounded across it.

## Main definitions

* `Binary64.rounded` — the value of the number nearest to a rational.

## Main results

* `eq_rounded_of_toRat?`, `toRat?_ofRat_eq_rounded` — it is the value of what the operations
  return.
* `rounded_mono` — rounding keeps the order.
* `rounded_scaled`, `abs_rounded_sub_le` — few digits are exact, all others are near.
* `truncate?_eq_floor`, `floor?_eq_floor` — integer parts.
* `clamp_eq_self`, `exists_toRat?_clamp` — numbers within bounds, and numbers brought within them.
-/

namespace ImagePipeline

/-- The nearest integer grows with the rational. -/
theorem roundHalfEven_mono {p q : ℚ} (hp : 0 ≤ p) (hpq : p ≤ q) :
    roundHalfEven p ≤ roundHalfEven q := by
  have h := (isNearestEven_roundHalfEven hp).mono (isNearestEven_roundHalfEven (hp.trans hpq)) hpq
  exact_mod_cast h

theorem binade_mono {p q : ℚ} (hp : 0 < p) (hpq : p ≤ q) : binade p ≤ binade q :=
  le_binade (hp.trans_le hpq) ((binade_bounds hp).1.trans hpq)

namespace Binary64

open Magnitude

/-- The value of the number nearest to a rational that is not negative. -/
def rounded (q : ℚ) : ℚ := roundHalfEven (q / 2 ^ gridExponent q) * 2 ^ gridExponent q

variable {p q : ℚ}

theorem rounded_nonneg (q : ℚ) : 0 ≤ rounded q := by
  unfold rounded
  positivity

@[simp] theorem rounded_zero : rounded 0 = 0 := by
  have hround : roundHalfEven 0 = 0 := roundHalfEven_natCast 0
  rw [rounded, zero_div, hround, Nat.cast_zero, zero_mul]

/-- **A rounded result has the rounded value**, if it has one. -/
theorem eq_rounded_of_toRat? (hq : 0 ≤ q) {s : Bool} {r : ℚ} (h : (ofRat s q).toRat? = some r) :
    r = rounded q := by
  unfold ofRat at h
  rcases hq.eq_or_lt with rfl | hpos
  · have hzero : (finite s Magnitude.zero).toRat? = some 0 := by
      cases s <;> simp [toRat?, Magnitude.toRat, Magnitude.zero]
    rw [if_pos rfl, hzero] at h
    rw [rounded_zero, Option.some.inj h]
  · have hnegative : decide (q < 0) = false := decide_eq_false (not_lt.mpr hq)
    rw [if_neg hpos.ne', Rat.abs_of_nonneg hq, hnegative] at h
    cases ha : ofRat? q with
    | none => rw [ha] at h; exact absurd h (by simp [toRat?])
    | some a =>
      rw [ha] at h
      exact (Option.some.inj h).symm.trans (toRat_of_ofRat? hpos ha)

/-- The magnitude of a rounded result does not depend on the sign. -/
theorem abs_eq_rounded_of_toRat? {s : Bool} {r : ℚ} (h : (ofRat s q).toRat? = some r) :
    |r| = rounded |q| := by
  rcases le_total 0 q with hq | hq
  · rw [eq_rounded_of_toRat? hq h, abs_of_nonneg (rounded_nonneg q), abs_of_nonneg hq]
  · have hsign : (ofRat (!s) (-q)).toRat? = some (-r) := by
      rw [ofRat_neg, toRat?_neg, h, Option.map_some]
    have hvalue := eq_rounded_of_toRat? (neg_nonneg.mpr hq) hsign
    rw [← abs_neg, hvalue, abs_of_nonneg (rounded_nonneg (-q)), abs_of_nonpos hq]

theorem toRat?_ofRat_eq_rounded (hq : 0 ≤ q) (h : q < 2 ^ (1023 : ℤ)) (s : Bool) :
    (ofRat s q).toRat? = some (rounded q) := by
  obtain ⟨r, hr, -, -⟩ := exists_toRat?_ofRat hq (by norm_num) le_rfl h s
  rw [hr, eq_rounded_of_toRat? hq hr]

/-- A rational below a power of two is at most half a step of the grid below that power away
from its rounded value. -/
theorem abs_rounded_sub_le (hq : 0 ≤ q) {k : ℤ} (hk : -1021 ≤ k) (hk' : k ≤ 1023)
    (h : q < 2 ^ k) : |rounded q - q| ≤ 2 ^ (k - 54) := by
  obtain ⟨r, hr, -, herror⟩ := exists_toRat?_ofRat hq hk hk' h false
  rw [toRat?_ofRat_eq_rounded hq (h.trans_le (two_zpow_le_iff.mpr hk'))] at hr
  rwa [Option.some.inj hr]

/-- A rational with at most 53 binary digits is its own rounded value. -/
theorem rounded_scaled {m : ℕ} (hm : m < 2 ^ 53) {k : ℤ} (hk : -1074 ≤ k) (hk' : k ≤ 970) :
    rounded (m * 2 ^ k) = m * 2 ^ k := by
  have hbound : (m * 2 ^ k : ℚ) < 2 ^ (53 + k) := by
    calc (m * 2 ^ k : ℚ) < 2 ^ (53 : ℤ) * 2 ^ k :=
          mul_lt_mul_of_pos_right (by exact_mod_cast hm) (by positivity)
      _ = 2 ^ (53 + k) := two_zpow_mul 53 k
  have h := toRat?_ofRat hm hk hk' false
  rw [toRat?_ofRat_eq_rounded (by positivity)
    (hbound.trans_le (two_zpow_le_iff.mpr (by omega)))] at h
  exact Option.some.inj h

theorem rounded_natCast {n : ℕ} (hn : n < 2 ^ 53) : rounded (n : ℚ) = n := by
  have h := rounded_scaled hn (k := 0) (by norm_num) (by norm_num)
  rwa [zpow_zero, mul_one] at h

/-! ### The order -/

/-- A power of two is a multiple of every lower one. -/
theorem exists_two_zpow_eq {e k : ℤ} (h : e ≤ k) : ∃ n : ℕ, (2 : ℚ) ^ k = n * 2 ^ e := by
  obtain ⟨j, rfl⟩ := Int.le.dest h
  refine ⟨2 ^ j, ?_⟩
  rw [add_comm, ← two_zpow_mul, zpow_natCast, Nat.cast_pow, Nat.cast_ofNat]

/-- Rounding does not exceed a power of two on the grid that has not been exceeded. -/
theorem rounded_le_two_zpow {k : ℤ} (hq : 0 ≤ q) (hgrid : gridExponent q ≤ k) (h : q ≤ 2 ^ k) :
    rounded q ≤ 2 ^ k := by
  have hstep : (0 : ℚ) < 2 ^ gridExponent q := by positivity
  obtain ⟨n, hmultiple⟩ := exists_two_zpow_eq hgrid
  rw [hmultiple] at h ⊢
  have hround : roundHalfEven (q / 2 ^ gridExponent q) ≤ n :=
    roundHalfEven_le (by positivity) ((div_le_iff₀ hstep).mpr h)
  exact mul_le_mul_of_nonneg_right (by exact_mod_cast hround) hstep.le

/-- Rounding does not fall below a power of two on the grid that has been reached. -/
theorem two_zpow_le_rounded {k : ℤ} (hgrid : gridExponent q ≤ k) (h : (2 : ℚ) ^ k ≤ q) :
    2 ^ k ≤ rounded q := by
  have hstep : (0 : ℚ) < 2 ^ gridExponent q := by positivity
  obtain ⟨n, hmultiple⟩ := exists_two_zpow_eq hgrid
  rw [hmultiple] at h ⊢
  have hround : n ≤ roundHalfEven (q / 2 ^ gridExponent q) :=
    le_roundHalfEven ((le_div_iff₀ hstep).mpr h)
  exact mul_le_mul_of_nonneg_right (by exact_mod_cast hround) hstep.le

/-- **Rounding keeps the order.** -/
theorem rounded_mono (hp : 0 ≤ p) (hpq : p ≤ q) : rounded p ≤ rounded q := by
  rcases hp.eq_or_lt with rfl | hpos
  · rw [rounded_zero]
    exact rounded_nonneg q
  have hbinade := binade_mono hpos hpq
  rcases eq_or_ne (gridExponent p) (gridExponent q) with heq | hne
  · unfold rounded
    rw [heq]
    have hscaled : p / 2 ^ gridExponent q ≤ q / 2 ^ gridExponent q :=
      div_le_div_of_nonneg_right hpq (by positivity)
    have hround := roundHalfEven_mono (by positivity) hscaled
    exact mul_le_mul_of_nonneg_right (by exact_mod_cast hround) (by positivity)
  · -- the greater one has a coarser grid, so its binade is a higher one
    have hgrid : gridExponent q = binade q - 52 ∧ binade p < binade q := by
      unfold gridExponent at hne ⊢
      omega
    have hfiner : gridExponent p ≤ binade q := by
      have hleast : -1074 ≤ gridExponent q := le_max_left _ _
      have hdef : gridExponent p = max (-1074) (binade p - 52) := rfl
      omega
    calc rounded p ≤ 2 ^ binade q := by
          refine rounded_le_two_zpow hp hfiner ((binade_bounds hpos).2.le.trans ?_)
          exact two_zpow_le_iff.mpr (by omega)
      _ ≤ rounded q := two_zpow_le_rounded (by omega) (binade_bounds (hpos.trans_le hpq)).1

/-! ### Integer parts and bounds -/

variable {x low high : Binary64} {l h : ℚ}

/-- Cutting off what is not negative rounds it down. -/
theorem truncate?_eq_floor (hx : x.toRat? = some q) (hq : 0 ≤ q) : x.truncate? = some ⌊q⌋ := by
  obtain ⟨s, a, rfl, rfl⟩ := exists_eq_finite hx
  cases s with
  | false => rfl
  | true =>
    -- the only number with a minus sign that is not negative is zero
    have hzero : a.toRat = 0 := le_antisymm (neg_nonneg.mp hq) a.toRat_nonneg
    show some (-a.toRat.floor) = some ⌊-a.toRat⌋
    rw [hzero]
    rfl

theorem floor?_eq_floor (hx : x.toRat? = some q) : x.floor? = some ⌊q⌋ := by
  rw [floor?, hx]
  rfl

/-- A number within bounds is not clamped. -/
theorem clamp_eq_self (hx : x.toRat? = some q) (hlow : low.toRat? = some l)
    (hhigh : high.toRat? = some h) (hl : l ≤ q) (hh : q ≤ h) : x.clamp low high = x := by
  have hbelow : ¬ lt x low = true := by rw [lt_eq_true_iff hx hlow]; exact not_lt.mpr hl
  have habove : ¬ lt high x = true := by rw [lt_eq_true_iff hhigh hx]; exact not_lt.mpr hh
  rw [clamp, if_neg hbelow, if_neg habove]

/-- **A number clamped between finite bounds is finite and lies between them**, an infinity too. -/
theorem exists_toRat?_clamp (hlow : low.toRat? = some l)
    (hhigh : high.toRat? = some h) (hle : l ≤ h) (hx : x ≠ .nan) :
    ∃ q, (x.clamp low high).toRat? = some q ∧ l ≤ q ∧ q ≤ h := by
  unfold clamp
  split
  · exact ⟨l, hlow, le_rfl, hle⟩
  · next hbelow =>
    split
    · exact ⟨h, hhigh, hle, le_rfl⟩
    · next habove =>
      cases hvalue : x.toRat? with
      | some q =>
        rw [lt_eq_true_iff hvalue hlow, not_lt] at hbelow
        rw [lt_eq_true_iff hhigh hvalue, not_lt] at habove
        exact ⟨q, rfl, hbelow, habove⟩
      | none =>
        -- an infinity is below the lower or above the upper bound
        obtain ⟨s, a, rfl, -⟩ := exists_eq_finite hlow
        obtain ⟨t, b, rfl, -⟩ := exists_eq_finite hhigh
        cases x with
        | finite u c => cases u <;> exact absurd hvalue (by simp [toRat?])
        | infinity u => cases u <;> simp [lt] at hbelow habove
        | nan => exact absurd rfl hx

end Binary64
end ImagePipeline
