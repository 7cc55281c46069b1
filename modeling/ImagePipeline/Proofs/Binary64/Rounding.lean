import ImagePipeline.Binary64.Rounding
import Mathlib.Algebra.Order.Field.Power
import Mathlib.Data.Rat.Floor
import Mathlib.Tactic.Linarith
import Mathlib.Tactic.Positivity

/-!
# Rounding to the grid of magnitudes

What the search for the nearest magnitude does to a rational: a rational that is a
magnitude stays as it is, and one that has a magnitude at all lies in the range of
the format.

## Main results

* `roundHalfEven_bounds` — the nearest integer is at most a half away.
* `binade_bounds` — the binade of a rational holds it.
* `Magnitude.ofRat?_toRat` — a magnitude that is not zero is its own nearest one.
* `Magnitude.lt_of_ofRat?`, `Magnitude.le_of_ofRat?` — the range.
-/

namespace ImagePipeline

/-! ### The nearest integer -/

/-- An integer is its own nearest integer. -/
@[simp] theorem roundHalfEven_natCast (n : ℕ) : roundHalfEven (n : ℚ) = n := by
  have hf : (n : ℚ).floor.toNat = n := by
    have h := Rat.floor_intCast (n : ℤ)
    rw [Int.cast_natCast] at h
    rw [h, Int.toNat_natCast]
  unfold roundHalfEven
  rw [hf]
  norm_num

/-- The nearest integer is at most a half away. -/
theorem roundHalfEven_bounds {q : ℚ} (hq : 0 ≤ q) :
    q - 1 / 2 ≤ (roundHalfEven q : ℚ) ∧ (roundHalfEven q : ℚ) ≤ q + 1 / 2 := by
  have hfloor : 0 ≤ q.floor := Int.floor_nonneg.mpr hq
  have hcast : ((q.floor.toNat : ℕ) : ℚ) = (q.floor : ℚ) := by
    exact_mod_cast Int.toNat_of_nonneg hfloor
  have hle : (q.floor : ℚ) ≤ q := Int.floor_le q
  have hlt : q < (q.floor : ℚ) + 1 := Int.lt_floor_add_one q
  unfold roundHalfEven
  simp only [hcast]
  split
  · next h => rw [hcast]; constructor <;> linarith
  · next h =>
    split
    · next h' => push_cast; rw [hcast]; constructor <;> linarith
    · next h' =>
      -- halfway between two integers: the even one is chosen, and both are a half away
      have hmod : q.floor.toNat % 2 = 0 ∨ q.floor.toNat % 2 = 1 := Nat.mod_two_eq_zero_or_one _
      rcases hmod with h0 | h1
      · rw [h0]; push_cast; rw [hcast]; constructor <;> linarith
      · rw [h1]; push_cast; rw [hcast]; constructor <;> linarith

/-! ### The binade -/

/-- A power of two with an exponent above another is above its power. -/
theorem two_zpow_le_iff {m n : ℤ} : (2 : ℚ) ^ m ≤ 2 ^ n ↔ m ≤ n :=
  zpow_le_zpow_iff_right₀ one_lt_two

theorem two_zpow_lt_iff {m n : ℤ} : (2 : ℚ) ^ m < 2 ^ n ↔ m < n :=
  zpow_lt_zpow_iff_right₀ one_lt_two

theorem two_zpow_mul (m n : ℤ) : (2 : ℚ) ^ m * 2 ^ n = 2 ^ (m + n) :=
  (zpow_add₀ two_ne_zero m n).symm

/-- A natural number lies between the powers of two around its logarithm. -/
theorem log2_bounds {n : ℕ} (hn : n ≠ 0) :
    (2 : ℚ) ^ (n.log2 : ℤ) ≤ n ∧ (n : ℚ) < 2 ^ ((n.log2 : ℤ) + 1) := by
  have hle : 2 ^ n.log2 ≤ n := Nat.log2_self_le hn
  have hlt : n < 2 ^ (n.log2 + 1) := Nat.lt_log2_self
  constructor
  · rw [zpow_natCast]
    exact_mod_cast hle
  · have h : ((n.log2 : ℤ) + 1) = ((n.log2 + 1 : ℕ) : ℤ) := by push_cast; rfl
    rw [h, zpow_natCast]
    exact_mod_cast hlt

/-- The binade of a positive rational holds it. -/
theorem binade_bounds {q : ℚ} (hq : 0 < q) :
    (2 : ℚ) ^ binade q ≤ q ∧ q < 2 ^ (binade q + 1) := by
  set a := q.num.natAbs with ha
  set k : ℤ := (a.log2 : ℤ) - (q.den.log2 : ℤ) with hk
  have hnum : 0 < q.num := Rat.num_pos.mpr hq
  have ha0 : a ≠ 0 := by omega
  obtain ⟨hn₁, hn₂⟩ := log2_bounds ha0
  obtain ⟨hd₁, hd₂⟩ := log2_bounds q.den_nz
  have hdpos : (0 : ℚ) < q.den := by exact_mod_cast q.den_pos
  have hval : q * q.den = a := by
    have h : (a : ℤ) = q.num := Int.natAbs_of_nonneg hnum.le
    rw [Rat.mul_den_eq_num, ← h, Int.cast_natCast]
  -- the quotient of numerator and denominator is less than a binade off
  have hlow : (2 : ℚ) ^ (k - 1) < q := by
    have h : (2 : ℚ) ^ (k - 1) * q.den < q * q.den := by
      calc (2 : ℚ) ^ (k - 1) * q.den < 2 ^ (k - 1) * 2 ^ ((q.den.log2 : ℤ) + 1) :=
            mul_lt_mul_of_pos_left hd₂ (by positivity)
        _ = 2 ^ (a.log2 : ℤ) := by rw [two_zpow_mul]; congr 1; omega
        _ ≤ a := hn₁
        _ = q * q.den := hval.symm
    exact lt_of_mul_lt_mul_right h hdpos.le
  have hhigh : q < (2 : ℚ) ^ (k + 1) := by
    have h : q * q.den < (2 : ℚ) ^ (k + 1) * q.den := by
      calc q * q.den = a := hval
        _ < 2 ^ ((a.log2 : ℤ) + 1) := hn₂
        _ = 2 ^ (k + 1) * 2 ^ (q.den.log2 : ℤ) := by rw [two_zpow_mul]; congr 1; omega
        _ ≤ 2 ^ (k + 1) * q.den := mul_le_mul_of_nonneg_left hd₁ (by positivity)
    exact lt_of_mul_lt_mul_right h hdpos.le
  have hdef : binade q = if (2 : ℚ) ^ k ≤ q then k else k - 1 := rfl
  rw [hdef]
  split
  · next h => exact ⟨h, hhigh⟩
  · next h =>
    refine ⟨hlow.le, ?_⟩
    rw [sub_add_cancel]
    exact not_le.mp h

/-- A positive rational at or above a power of two has no lower binade. -/
theorem le_binade {q : ℚ} (hq : 0 < q) {k : ℤ} (h : (2 : ℚ) ^ k ≤ q) : k ≤ binade q := by
  have hlt : (2 : ℚ) ^ k < 2 ^ (binade q + 1) := lt_of_le_of_lt h (binade_bounds hq).2
  rw [two_zpow_lt_iff] at hlt
  omega

/-- A positive rational below a power of two lies in a binade below it. -/
theorem binade_lt {q : ℚ} (hq : 0 < q) {k : ℤ} (h : q < (2 : ℚ) ^ k) : binade q < k := by
  have hlt : (2 : ℚ) ^ binade q < 2 ^ k := lt_of_le_of_lt (binade_bounds hq).1 h
  rwa [two_zpow_lt_iff] at hlt

/-! ### Magnitudes -/

namespace Magnitude

theorem ext {a b : Magnitude} (hm : a.mantissa = b.mantissa) (he : a.exponent = b.exponent) :
    a = b := by
  obtain ⟨m, e, h⟩ := a
  obtain ⟨m', e', h'⟩ := b
  obtain rfl : m = m' := hm
  obtain rfl : e = e' := he
  rfl

theorem toRat_nonneg (a : Magnitude) : 0 ≤ a.toRat := by
  unfold toRat
  positivity

theorem toRat_pos {a : Magnitude} (ha : a.mantissa ≠ 0) : 0 < a.toRat := by
  have h : (0 : ℚ) < a.mantissa := by exact_mod_cast Nat.pos_of_ne_zero ha
  unfold toRat
  positivity

/-- What is made of a mantissa and an exponent: the two as they are, or the mantissa
halved and the exponent raised. -/
theorem eq_of_ofParts? {m : ℕ} {e : ℤ} {a : Magnitude} (h : ofParts? m e = some a) :
    (a.mantissa = m ∧ a.exponent = e) ∨ (a.mantissa = m / 2 ∧ a.exponent = e + 1) := by
  unfold ofParts? at h
  split at h
  · obtain rfl := Option.some.inj h
    exact Or.inl ⟨rfl, rfl⟩
  · split at h
    · obtain rfl := Option.some.inj h
      exact Or.inr ⟨rfl, rfl⟩
    · exact absurd h (by simp)

/-- The grid around a magnitude is its own. -/
theorem gridExponent_toRat {a : Magnitude} (ha : a.mantissa ≠ 0) :
    gridExponent a.toRat = a.exponent := by
  have hpos := toRat_pos ha
  obtain ⟨hm, hlow, -, hcase⟩ := a.canonical
  have hupper : a.toRat < 2 ^ (53 + a.exponent) := by
    rw [← two_zpow_mul]
    have h : (a.mantissa : ℚ) < 2 ^ (53 : ℤ) := by exact_mod_cast hm
    exact mul_lt_mul_of_pos_right h (by positivity)
  have hbinade : binade a.toRat < 53 + a.exponent := binade_lt hpos hupper
  unfold gridExponent
  rcases hcase with hnormal | hleast
  · have hlower : (2 : ℚ) ^ (52 + a.exponent) ≤ a.toRat := by
      rw [← two_zpow_mul]
      have h : (2 : ℚ) ^ (52 : ℤ) ≤ a.mantissa := by exact_mod_cast hnormal
      exact mul_le_mul_of_nonneg_right h (by positivity)
    have := le_binade hpos hlower
    omega
  · omega

/-- A magnitude that is not zero is its own nearest one. -/
theorem ofRat?_toRat {a : Magnitude} (ha : a.mantissa ≠ 0) : ofRat? a.toRat = some a := by
  have hscaled : a.toRat / 2 ^ a.exponent = (a.mantissa : ℚ) := by
    unfold toRat
    rw [mul_div_assoc, div_self (by positivity), mul_one]
  unfold ofRat?
  simp only [gridExponent_toRat ha, hscaled, roundHalfEven_natCast]
  unfold ofParts?
  rw [dif_pos a.canonical]

/-- A rational with a nearest magnitude lies below the range. -/
theorem lt_of_ofRat? {q : ℚ} {a : Magnitude} (hq : 0 < q) (h : ofRat? q = some a) :
    q < 2 ^ (1024 : ℤ) := by
  have hexp : a.exponent ≤ 971 := a.canonical.2.2.1
  have hgrid : binade q - 52 ≤ gridExponent q := le_max_right _ _
  have hle : gridExponent q ≤ a.exponent := by
    rcases eq_of_ofParts? h with ⟨-, he⟩ | ⟨-, he⟩ <;> omega
  calc q < 2 ^ (binade q + 1) := (binade_bounds hq).2
    _ ≤ 2 ^ (1024 : ℤ) := two_zpow_le_iff.mpr (by omega)

/-- A rational whose nearest magnitude is not zero lies above half the least
magnitude. -/
theorem le_of_ofRat? {q : ℚ} {a : Magnitude} (hq : 0 < q) (h : ofRat? q = some a)
    (ha : a.mantissa ≠ 0) : (2 : ℚ) ^ (-1075 : ℤ) ≤ q := by
  have hround : 1 ≤ roundHalfEven (q / 2 ^ gridExponent q) := by
    rcases eq_of_ofParts? h with ⟨hm, -⟩ | ⟨hm, -⟩ <;> omega
  set e := gridExponent q with he
  have hpos : (0 : ℚ) < 2 ^ e := by positivity
  have hhalf : (1 : ℚ) / 2 ≤ q / 2 ^ e := by
    have h₁ : (1 : ℚ) ≤ (roundHalfEven (q / 2 ^ e) : ℚ) := by exact_mod_cast hround
    have h₂ := (roundHalfEven_bounds (q := q / 2 ^ e) (by positivity)).2
    linarith
  have hgrid : -1074 ≤ e := le_max_left _ _
  calc (2 : ℚ) ^ (-1075 : ℤ) ≤ 2 ^ (e - 1) := two_zpow_le_iff.mpr (by omega)
    _ = 1 / 2 * 2 ^ e := by rw [zpow_sub_one₀ two_ne_zero]; ring
    _ ≤ q := (le_div_iff₀ hpos).mp hhalf

end Magnitude
end ImagePipeline
