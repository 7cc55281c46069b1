import ImagePipeline.Binary64.Decimal
import ImagePipeline.Proofs.Binary64.Rounding
import Mathlib.Tactic.NormNum

/-!
# The shortest decimal reads back

The search for the shortest decimal only returns decimals that are nearest to the
magnitude it was started with, whichever of its grids it stops at, and reading the
digits of such a decimal never takes one of the short cuts for exponents that are
out of range.

## Main results

* `Magnitude.ofRat?_shortest` — the shortest decimal of a magnitude is nearest to it.
* `Binary64.ofDecimal_of_ofRat?` — the digits of a decimal nearest to a magnitude
  are read as that magnitude.
-/

namespace ImagePipeline

/-! ### Values of decimals -/

namespace Decimal

theorem toRat_nonneg (d : Decimal) : 0 ≤ d.toRat := by
  unfold toRat
  positivity

/-- A decimal is zero exactly if its digits are. -/
theorem toRat_eq_zero_iff {d : Decimal} : d.toRat = 0 ↔ d.digits = 0 := by
  unfold toRat
  have h : (10 : ℚ) ^ d.exponent ≠ 0 := by positivity
  rw [mul_eq_zero, or_iff_left h, Nat.cast_eq_zero]

/-- Zeros put behind the digits and taken off the exponent keep the value. -/
theorem toRat_of_digits_mul {d : Decimal} {m k : ℕ} {e : ℤ} (hm : m = d.digits * 10 ^ k)
    (he : e + k = d.exponent) : Decimal.toRat ⟨m, e⟩ = d.toRat := by
  have hten : (10 : ℚ) ^ d.exponent = 10 ^ k * 10 ^ e := by
    rw [← he, zpow_add₀ (by norm_num), zpow_natCast, mul_comm]
  rw [Decimal.toRat, Decimal.toRat, hm, hten]
  push_cast
  ring

/-- Moving zeros from the digits into the exponent keeps the value. -/
theorem toRat_dropZeros : ∀ (n : ℕ) (d : Decimal), (dropZeros n d).toRat = d.toRat := by
  intro n
  induction n with
  | zero => intro d; rfl
  | succ n ih =>
    intro d
    rw [dropZeros]
    split
    · next h =>
      have hdigits : d.digits / 10 * 10 = d.digits :=
        Nat.div_mul_cancel (Nat.dvd_of_mod_eq_zero h.2)
      have hzero := toRat_of_digits_mul (d := ⟨d.digits / 10, d.exponent + 1⟩) (k := 1)
        (e := d.exponent) (m := d.digits) (by simpa using hdigits.symm) rfl
      rw [ih]
      exact hzero.symm
    · rfl

theorem toRat_normalize (d : Decimal) : d.normalize.toRat = d.toRat := toRat_dropZeros _ _

end Decimal

/-! ### The search -/

namespace Magnitude

/-- Zero has no nearest magnitude in the sense of the search. -/
theorem ofRat?_zero : ofRat? 0 = none := by
  have hbinade : binade 0 = -1 := by
    have h : ¬ (2 : ℚ) ^ (0 : ℤ) ≤ 0 := by norm_num
    have hdef : binade 0 = if (2 : ℚ) ^ (0 : ℤ) ≤ 0 then 0 else 0 - 1 := rfl
    rw [hdef, if_neg h]
    rfl
  have hgrid : gridExponent 0 = -53 := by
    unfold gridExponent
    rw [hbinade]
    rfl
  have hround : roundHalfEven 0 = 0 := roundHalfEven_natCast 0
  unfold ofRat?
  simp only [hgrid, zero_div, hround]
  decide

/-- The exact expansion has the value of the magnitude. -/
theorem toRat_expansion (a : Magnitude) : a.expansion.toRat = a.toRat := by
  unfold expansion
  split
  · next h =>
    have hexp : a.exponent = -(a.exponent.natAbs : ℤ) := by omega
    have hten : (10 : ℚ) ^ a.exponent = 2 ^ a.exponent * 5 ^ a.exponent := by
      rw [← mul_zpow]
      norm_num
    have hfive : (5 : ℚ) ^ a.exponent.natAbs * 5 ^ a.exponent = 1 := by
      rw [hexp, Int.natAbs_neg, Int.natAbs_natCast, zpow_neg, zpow_natCast]
      exact mul_inv_cancel₀ (by positivity)
    rw [Decimal.toRat, toRat, hten]
    push_cast
    calc (a.mantissa : ℚ) * 5 ^ a.exponent.natAbs * (2 ^ a.exponent * 5 ^ a.exponent)
        = a.mantissa * 2 ^ a.exponent * (5 ^ a.exponent.natAbs * 5 ^ a.exponent) := by ring
      _ = a.mantissa * 2 ^ a.exponent := by rw [hfive, mul_one]
  · next h =>
    have hexp : a.exponent = (a.exponent.toNat : ℤ) := by omega
    rw [Decimal.toRat, toRat, zpow_zero, mul_one]
    conv_rhs => rw [hexp, zpow_natCast]
    push_cast
    rfl

/-- The shortest decimal of a magnitude is nearest to it. -/
theorem ofRat?_shortest {a : Magnitude} (ha : a.mantissa ≠ 0) :
    ofRat? a.shortest.toRat = some a := by
  unfold shortest
  simp only
  split
  · next d h =>
    obtain ⟨n, -, hn⟩ := List.exists_of_findSome?_eq_some h
    rw [Decimal.toRat_normalize]
    exact ofRat?_of_onGrid? hn
  · rw [Decimal.toRat_normalize, toRat_expansion]
    exact ofRat?_toRat ha

end Magnitude

/-! ### Reading digits -/

/-- Eight is at most ten, three binary places are at most a decimal one. -/
theorem two_zpow_three_mul_le (k : ℕ) : (2 : ℚ) ^ (3 * k : ℤ) ≤ 10 ^ (k : ℤ) := by
  rw [zpow_mul, zpow_natCast, zpow_natCast]
  exact pow_le_pow_left₀ (by norm_num) (by norm_num) k

namespace Binary64

/-- The digits of a decimal nearest to a magnitude are read as that magnitude. -/
theorem ofDecimal_of_ofRat? (negative : Bool) {d : Decimal} {length : ℕ} {a : Magnitude}
    (hlength : d.digits < 10 ^ length) (h : Magnitude.ofRat? d.toRat = some a)
    (ha : a.mantissa ≠ 0) :
    ofDecimal negative d.digits length d.exponent = .finite negative a := by
  have hdigits : d.digits ≠ 0 := by
    intro h0
    rw [Decimal.toRat_eq_zero_iff.mpr h0, Magnitude.ofRat?_zero] at h
    exact absurd h (by simp)
  have hpos : 0 < d.toRat :=
    lt_of_le_of_ne (Decimal.toRat_nonneg d) fun h0 => hdigits (Decimal.toRat_eq_zero_iff.mp h0.symm)
  have hone : (1 : ℚ) ≤ d.digits := by exact_mod_cast Nat.pos_of_ne_zero hdigits
  have hten : (0 : ℚ) < 10 ^ d.exponent := by positivity
  -- a decimal in the range of the format has no exponent that is cut short
  have hhigh : ¬ 400 < d.exponent := by
    intro hlt
    have hbelow := Magnitude.lt_of_ofRat? hpos h
    have habove : (2 : ℚ) ^ (1024 : ℤ) ≤ d.toRat := by
      calc (2 : ℚ) ^ (1024 : ℤ) ≤ 2 ^ (3 * (401 : ℕ) : ℤ) := two_zpow_le_iff.mpr (by norm_num)
        _ ≤ 10 ^ ((401 : ℕ) : ℤ) := two_zpow_three_mul_le 401
        _ ≤ 10 ^ d.exponent := zpow_le_zpow_right₀ (by norm_num) (by omega)
        _ = 1 * 10 ^ d.exponent := (one_mul _).symm
        _ ≤ d.toRat := mul_le_mul_of_nonneg_right hone hten.le
    linarith
  have hlow : ¬ d.exponent + length < -400 := by
    intro hlt
    have habove := Magnitude.le_of_ofRat? hpos h ha
    have hcast : (d.digits : ℚ) < 10 ^ (length : ℤ) := by
      rw [zpow_natCast]
      exact_mod_cast hlength
    have hbelow : d.toRat < (2 : ℚ) ^ (-1075 : ℤ) := by
      calc d.toRat < 10 ^ (length : ℤ) * 10 ^ d.exponent := mul_lt_mul_of_pos_right hcast hten
        _ = 10 ^ (length + d.exponent) := (zpow_add₀ (by norm_num) _ _).symm
        _ ≤ 10 ^ (-((401 : ℕ) : ℤ)) := zpow_le_zpow_right₀ (by norm_num) (by omega)
        _ ≤ 2 ^ (-(3 * (401 : ℕ) : ℤ)) := by
          rw [zpow_neg, zpow_neg]
          exact inv_anti₀ (by positivity) (two_zpow_three_mul_le 401)
        _ ≤ 2 ^ (-1075 : ℤ) := two_zpow_le_iff.mpr (by norm_num)
    linarith
  unfold ofDecimal
  rw [if_neg hdigits, if_neg hhigh, if_neg hlow, h]

end Binary64
end ImagePipeline
