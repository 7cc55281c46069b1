import ImagePipeline.Proofs.Binary64.Monotone
import Mathlib.Data.Nat.Sqrt
import Mathlib.Tactic.Ring

/-!
# Integer parts of square roots

The square root of a natural number of at most 52 binary digits is rounded to a number with the
integer part of the exact root.  Rounding keeps the order, so the rounded root does not fall
below the integer part, which is exact; and the root of the number below the next square is
further away from that integer than the next number below it is.

## Main results

* `rootApprox_bounds` — the root of a number lies away from the next integer.
* `Binary64.floor?_sqrtNat` — the integer part of a rounded root is the integer root.
-/

namespace ImagePipeline

/-- A root taken to 64 binary places stays away from the integer `a` above it. -/
theorem lt_of_sq_le {n t a : ℕ} (ht : t * t ≤ n * 4 ^ 64) (hn : n < a * a) (ha : a ≤ 2 ^ 26) :
    t + 2 ^ 37 < a * 2 ^ 64 := by
  by_contra hle
  have hreach : (a * 2 ^ 64 : ℤ) - 2 ^ 37 ≤ t := by
    have h : (a * 2 ^ 64 : ℤ) ≤ t + 2 ^ 37 := by exact_mod_cast not_lt.mp hle
    linarith
  have hpos : (1 : ℤ) ≤ a := by
    have h : 0 < a := Nat.pos_of_ne_zero (by rintro rfl; omega)
    exact_mod_cast h
  have ha' : (a : ℤ) ≤ 2 ^ 26 := by exact_mod_cast ha
  -- then the square of the root is above the greatest square that it may be
  have hsquare : ((a * 2 ^ 64 : ℤ) - 2 ^ 37) * (a * 2 ^ 64 - 2 ^ 37) ≤ t * t :=
    mul_self_le_mul_self (by linarith) hreach
  have hbound : (t * t : ℤ) ≤ (a * a - 1) * 4 ^ 64 := by
    have hn' : (n : ℤ) ≤ a * a - 1 := by
      have h : (n : ℤ) < a * a := by exact_mod_cast hn
      linarith
    have ht' : (t * t : ℤ) ≤ n * 4 ^ 64 := by exact_mod_cast ht
    exact ht'.trans (mul_le_mul_of_nonneg_right hn' (by norm_num))
  have hexpand : ((a * 2 ^ 64 : ℤ) - 2 ^ 37) * (a * 2 ^ 64 - 2 ^ 37) =
      a * a * 4 ^ 64 - a * 2 ^ 102 + 2 ^ 74 := by ring
  linarith

/-- What a root is rounded from is the root taken to 64 binary places, or half a place more. -/
theorem rootApprox_near (n : ℕ) : (floorSqrt (n * 4 ^ 64) : ℚ) ≤ rootApprox n * 2 ^ 64 ∧
    rootApprox n * 2 ^ 64 ≤ floorSqrt (n * 4 ^ 64) + 1 / 2 := by
  have hunit : (2 ^ 64 : ℚ) ≠ 0 := by positivity
  unfold rootApprox
  simp only
  split <;> rw [div_mul_cancel₀ _ hunit] <;> constructor <;> linarith

/-- **The root of a number** lies between its integer part and a number below the next
integer. -/
theorem rootApprox_bounds {n : ℕ} (hn : n < 2 ^ 52) : (n.sqrt : ℚ) ≤ rootApprox n ∧
    ∃ m : ℕ, m < (n.sqrt + 1) * 2 ^ 27 ∧ rootApprox n ≤ m * 2 ^ (-27 : ℤ) := by
  obtain ⟨hlow, hhigh⟩ := floorSqrt_bounds (n * 4 ^ 64)
  obtain ⟨hnear, hnear'⟩ := rootApprox_near n
  generalize floorSqrt (n * 4 ^ 64) = t at hlow hhigh hnear hnear'
  constructor
  · have hreached : n.sqrt * 2 ^ 64 < t + 1 := by
      refine lt_of_mul_self_lt_mul_self₀ (Nat.zero_le _) (lt_of_le_of_lt ?_ hhigh)
      calc n.sqrt * 2 ^ 64 * (n.sqrt * 2 ^ 64) = n.sqrt * n.sqrt * 4 ^ 64 := by ring
        _ ≤ n * 4 ^ 64 := Nat.mul_le_mul_right _ n.sqrt_le
    have hcast : (n.sqrt * 2 ^ 64 : ℚ) ≤ t := by exact_mod_cast Nat.lt_succ_iff.mp hreached
    linarith
  · have hroot : n.sqrt < 2 ^ 26 := Nat.sqrt_lt.mpr (by omega)
    have haway := lt_of_sq_le hlow (Nat.lt_succ_sqrt n) hroot
    have hcast : (t : ℚ) + 2 ^ 37 + 1 ≤ (n.sqrt + 1) * 2 ^ 64 := by exact_mod_cast haway
    obtain ⟨m, hm⟩ : ∃ m, (n.sqrt + 1) * 2 ^ 27 = m + 1 := ⟨_, (Nat.succ_pred (by omega)).symm⟩
    have hpred : ((n.sqrt : ℚ) + 1) * 2 ^ 27 = m + 1 := by exact_mod_cast hm
    have hstep : (2 : ℚ) ^ (-27 : ℤ) = 1 / 2 ^ 27 := by norm_num
    refine ⟨m, by omega, ?_⟩
    rw [hstep]
    linarith

namespace Binary64

/-- **The integer part of a rounded root** is the integer root. -/
theorem floor?_sqrtNat {n : ℕ} (hn : n < 2 ^ 52) : (sqrtNat n).floor? = some (n.sqrt : ℤ) := by
  obtain ⟨hlow, m, hm, hhigh⟩ := rootApprox_bounds hn
  have hroot : n.sqrt < 2 ^ 26 := Nat.sqrt_lt.mpr (by omega)
  have hnonneg : 0 ≤ rootApprox n := (Nat.cast_nonneg _).trans hlow
  have hbelow : (m : ℚ) * 2 ^ (-27 : ℤ) < n.sqrt + 1 := by
    have hcast : (m : ℚ) < (n.sqrt + 1) * 2 ^ 27 := by exact_mod_cast hm
    have hstep : (2 : ℚ) ^ (-27 : ℤ) = 1 / 2 ^ 27 := by norm_num
    rw [hstep]
    linarith
  have hlow' : (n.sqrt : ℚ) ≤ rounded (rootApprox n) := by
    have h := rounded_mono (Nat.cast_nonneg _) hlow
    rwa [rounded_natCast (by omega)] at h
  have hhigh' : rounded (rootApprox n) < n.sqrt + 1 := by
    have h := rounded_mono hnonneg hhigh
    rw [rounded_scaled (by omega) (by norm_num) (by norm_num)] at h
    exact h.trans_lt hbelow
  have hvalue : (sqrtNat n).toRat? = some (rounded (rootApprox n)) := by
    refine toRat?_ofRat_eq_rounded hnonneg ?_ false
    have hroot' : (n.sqrt : ℚ) + 1 ≤ 2 ^ (26 : ℤ) := by exact_mod_cast hroot
    exact ((hhigh.trans_lt hbelow).trans_le hroot').trans (two_zpow_lt_iff.mpr (by norm_num))
  rw [floor?_eq_floor hvalue, Option.some.injEq]
  exact Int.floor_eq_iff.mpr ⟨by exact_mod_cast hlow', by exact_mod_cast hhigh'⟩

end Binary64
end ImagePipeline
