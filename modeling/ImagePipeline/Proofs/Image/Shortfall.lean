import ImagePipeline.Proofs.Image.Vignette

/-!
# Levels that fall short

What a vignette makes of a channel value, against the exact product of the value and the square
of a fraction, cut off to an integer.  The three roundings of the computed product move it by
less than a fraction with a small denominator stays away from every integer that it is not, so
the two levels agree unless the exact product is an integer itself.  Then the square of the
reduced denominator divides the channel value.  Hence the denominator is at most 15, only a few
products are left, and computing them shows which of them are rounded below the integer: there
are thirty, and their levels are too small by one.

## Main definitions

* `Vignette.computedLevel` — the integer part of the rounded product.
* `Vignette.shortfalls`, `Vignette.FallsShort` — the products that are rounded below an integer.

## Main results

* `Vignette.computedLevel_of_not_dvd` — a product that is no integer is cut off correctly.
* `Vignette.computedLevel_of_dvd` — a product that is one falls short or does not.
* `Node.apply_vignette_levels` — the levels of a darkened image.
-/

namespace ImagePipeline

open Binary64

namespace Vignette

/-- The channel value `v` times the square of the part `r` of the way, as it is computed. -/
def computedLevel (v : ℕ) (r : ℚ) : ℤ := ⌊rounded (v * shade r)⌋

/-- A channel value whose product with the square of a fraction is an integer. -/
structure Shortfall where
  numerator : ℕ
  denominator : ℕ
  value : ℕ
  deriving DecidableEq

/-- The products that are integers and rounded to less. -/
def shortfalls : List Shortfall :=
  [⟨1, 7, 49⟩, ⟨1, 7, 98⟩, ⟨1, 7, 147⟩, ⟨1, 7, 196⟩, ⟨2, 7, 49⟩, ⟨2, 7, 98⟩, ⟨2, 7, 147⟩,
    ⟨2, 7, 196⟩, ⟨3, 7, 147⟩, ⟨3, 7, 245⟩, ⟨4, 7, 49⟩, ⟨4, 7, 98⟩, ⟨4, 7, 147⟩, ⟨4, 7, 196⟩,
    ⟨6, 7, 147⟩, ⟨6, 7, 245⟩, ⟨7, 10, 100⟩, ⟨7, 10, 200⟩, ⟨3, 11, 121⟩, ⟨3, 11, 242⟩,
    ⟨5, 11, 121⟩, ⟨5, 11, 242⟩, ⟨6, 11, 121⟩, ⟨6, 11, 242⟩, ⟨10, 11, 121⟩, ⟨10, 11, 242⟩,
    ⟨11, 12, 144⟩, ⟨9, 13, 169⟩, ⟨1, 14, 196⟩, ⟨11, 15, 225⟩]

/-- The product of the channel value `v` and the square of the fraction of `n` and `m` is an
integer and rounded to less. -/
def FallsShort (n m v : ℕ) : Prop :=
  ∃ s ∈ shortfalls, n * s.denominator = s.numerator * m ∧ v = s.value

instance (n m v : ℕ) : Decidable (FallsShort n m v) :=
  inferInstanceAs (Decidable (∃ s ∈ shortfalls, _))

/-- **The level of a channel value** at a distance. -/
theorem toNat_darken_factor {m d : ℕ} (hm : 0 < m) (hm' : m < 2 ^ 53) (hd : d ≤ m) (v : UInt8) :
    ((darken (factor m d) v).toNat : ℤ) = computedLevel v.toNat ((m - d : ℕ) / m) :=
  toNat_darken (toRat?_factor hm hm' hd) (shade_nonneg _)
    (shade_le_one (by positivity) (part_le_one hm d)) v

/-! ### Products that are no integers -/

/-- The square of a fraction is rounded three times. -/
theorem abs_shade_sub_le {r : ℚ} (hr : 0 ≤ r) (hr' : r ≤ 1) : |shade r - r * r| ≤ 3 / 2 ^ 53 := by
  have hstep : (2 : ℚ) ^ ((1 : ℤ) - 54) = 1 / 2 ^ 53 := by norm_num
  have hrounded := rounded_nonneg r
  have hrounded' := rounded_le_one hr hr'
  have hfirst := abs_rounded_sub_le hr (k := 1) (by norm_num) (by norm_num)
    (hr'.trans_lt (by norm_num))
  have hsecond := abs_rounded_sub_le (mul_nonneg hrounded hrounded) (k := 1) (by norm_num)
    (by norm_num) ((mul_le_one₀ hrounded' hrounded hrounded').trans_lt (by norm_num))
  rw [hstep] at hfirst hsecond
  -- squaring doubles the error of the fraction
  have hsquare : |rounded r * rounded r - r * r| ≤ 2 / 2 ^ 53 := by
    have hfactors : rounded r * rounded r - r * r = (rounded r - r) * (rounded r + r) := by ring
    rw [hfactors, abs_mul, abs_of_nonneg (add_nonneg hrounded hr)]
    calc |rounded r - r| * (rounded r + r) ≤ 1 / 2 ^ 53 * 2 :=
          mul_le_mul hfirst (by linarith) (by linarith) (by norm_num)
      _ = 2 / 2 ^ 53 := by ring
  calc |shade r - r * r| ≤ |shade r - rounded r * rounded r| + |rounded r * rounded r - r * r| :=
        abs_sub_le _ _ _
    _ ≤ 1 / 2 ^ 53 + 2 / 2 ^ 53 := add_le_add hsecond hsquare
    _ = 3 / 2 ^ 53 := by ring

/-- **The computed product** is next to the exact one. -/
theorem abs_product_sub_lt {r v : ℚ} (hr : 0 ≤ r) (hr' : r ≤ 1) (hv : 0 ≤ v) (hv' : v ≤ 255) :
    |rounded (v * shade r) - v * (r * r)| < 1 / 2 ^ 43 := by
  have hshade := shade_le_one hr hr'
  have hproduct := abs_rounded_sub_le (mul_nonneg hv (shade_nonneg r)) (k := 8) (by norm_num)
    (by norm_num) ((mul_le_of_le_one_right hv hshade).trans_lt (hv'.trans_lt (by norm_num)))
  have hfactor : |v * shade r - v * (r * r)| ≤ 255 * (3 / 2 ^ 53) := by
    rw [← mul_sub, abs_mul, abs_of_nonneg hv]
    exact mul_le_mul hv' (abs_shade_sub_le hr hr') (abs_nonneg _) (by norm_num)
  calc |rounded (v * shade r) - v * (r * r)|
      ≤ |rounded (v * shade r) - v * shade r| + |v * shade r - v * (r * r)| := abs_sub_le _ _ _
    _ ≤ 2 ^ ((8 : ℤ) - 54) + 255 * (3 / 2 ^ 53) := add_le_add hproduct hfactor
    _ < 1 / 2 ^ 43 := by norm_num

/-- A rational next to a fraction that is no integer has the integer part of the fraction. -/
theorem floor_eq_of_near {n d : ℕ} (hd : 0 < d) (h : ¬ d ∣ n) {q : ℚ}
    (hq : |q - n / d| < 1 / d) : ⌊q⌋ = ((n / d : ℕ) : ℤ) := by
  have hpos : (0 : ℚ) < d := by exact_mod_cast hd
  have hdivision : (n : ℚ) / d = (n / d : ℕ) + (n % d : ℕ) / d := by
    rw [eq_comm, ← eq_sub_iff_add_eq', div_eq_iff hpos.ne', sub_mul, div_mul_cancel₀ _ hpos.ne']
    have hcast : ((n / d * d + n % d : ℕ) : ℚ) = n := by rw [Nat.div_add_mod']
    push_cast at hcast
    linarith
  have hlow : (1 : ℚ) / d ≤ (n % d : ℕ) / d := by
    refine div_le_div_of_nonneg_right ?_ hpos.le
    exact_mod_cast Nat.one_le_iff_ne_zero.mpr fun hzero => h (Nat.dvd_of_mod_eq_zero hzero)
  have hhigh : ((n % d : ℕ) : ℚ) / d ≤ 1 - 1 / d := by
    rw [div_le_iff₀ hpos, sub_mul, div_mul_cancel₀ _ hpos.ne', one_mul]
    have hmod : ((n % d : ℕ) : ℚ) + 1 ≤ d := by exact_mod_cast Nat.mod_lt n hd
    linarith
  rw [hdivision] at hq
  obtain ⟨hbelow, habove⟩ := abs_lt.mp hq
  refine Int.floor_eq_iff.mpr ⟨?_, ?_⟩
  · rw [Int.cast_natCast]; linarith
  · rw [Int.cast_natCast]; linarith

/-- **A product that is no integer is cut off correctly.** -/
theorem computedLevel_of_not_dvd {m n v : ℕ} (hm : 0 < m) (hm' : m ^ 2 ≤ 2 ^ 43) (hn : n ≤ m)
    (hv : v ≤ 255) (h : ¬ m ^ 2 ∣ v * n ^ 2) :
    computedLevel v (n / m) = ((v * n ^ 2 / m ^ 2 : ℕ) : ℤ) := by
  have hpos : (0 : ℚ) < m := by exact_mod_cast hm
  have hle : (n : ℚ) / m ≤ 1 := (div_le_one₀ hpos).mpr (by exact_mod_cast hn)
  refine floor_eq_of_near (pow_pos hm 2) h ?_
  have hexact : ((v * n ^ 2 : ℕ) : ℚ) / (m ^ 2 : ℕ) = v * ((n : ℚ) / m * (n / m)) := by
    push_cast
    field_simp
  rw [hexact]
  refine (abs_product_sub_lt (by positivity) hle (Nat.cast_nonneg v)
    (by exact_mod_cast hv)).trans_le ?_
  exact one_div_le_one_div_of_le (by positivity) (by exact_mod_cast hm')

/-! ### Products that are integers -/

/-- Fractions with few binary digits are not rounded at all. -/
theorem computedLevel_dyadic {a j v : ℕ} (hj : j ≤ 3) (ha : a ≤ 2 ^ j) (hv : v ≤ 255) :
    computedLevel v (a / (2 ^ j : ℕ)) = ((v * a ^ 2 / (2 ^ j) ^ 2 : ℕ) : ℤ) := by
  have hpow : 2 ^ j ≤ 2 ^ 3 := Nat.pow_le_pow_right two_pos hj
  have hsquare' : a ^ 2 ≤ (2 ^ 3) ^ 2 := Nat.pow_le_pow_left (ha.trans hpow) 2
  have hproduct' : v * a ^ 2 ≤ 255 * (2 ^ 3) ^ 2 := Nat.mul_le_mul hv hsquare'
  have hfraction : (a : ℚ) / (2 ^ j : ℕ) = a * 2 ^ (-j : ℤ) := by
    rw [Nat.cast_pow, Nat.cast_ofNat, zpow_neg, zpow_natCast, div_eq_mul_inv]
  have hsquare : (a : ℚ) * 2 ^ (-j : ℤ) * (a * 2 ^ (-j : ℤ)) =
      (a ^ 2 : ℕ) * 2 ^ (-(2 * j) : ℤ) := by
    rw [show (-(2 * j) : ℤ) = -j + -j by ring, ← two_zpow_mul, Nat.cast_pow]
    ring
  have hshade : shade (a * 2 ^ (-j : ℤ)) = (a ^ 2 : ℕ) * 2 ^ (-(2 * j) : ℤ) := by
    rw [shade, rounded_scaled (by omega) (by omega) (by omega), hsquare,
      rounded_scaled (by omega) (by omega) (by omega)]
  have hproduct : (v : ℚ) * ((a ^ 2 : ℕ) * 2 ^ (-(2 * j) : ℤ)) =
      (v * a ^ 2 : ℕ) * 2 ^ (-(2 * j) : ℤ) := by
    rw [Nat.cast_mul, mul_assoc]
  have hdivision : ((v * a ^ 2 : ℕ) : ℚ) * 2 ^ (-(2 * j) : ℤ) =
      (v * a ^ 2 : ℕ) / ((2 ^ j) ^ 2 : ℕ) := by
    rw [zpow_neg, ← div_eq_mul_inv, mul_comm (2 : ℤ), zpow_mul, zpow_natCast, Nat.cast_pow,
      Nat.cast_pow, Nat.cast_ofNat]
    rfl
  rw [computedLevel, hfraction, hshade, hproduct, rounded_scaled (by omega) (by omega) (by omega),
    hdivision, Rat.floor_natCast_div_natCast, Int.natCast_ediv]

/-- **Every other product that is an integer** and not zero is one of these. -/
theorem computedLevel_reduced : ∀ b ∈ [3, 5, 6, 7, 9, 10, 11, 12, 13, 14, 15], ∀ a < b,
    a.Coprime b → ∀ k < 28, b * b * (k + 1) < 256 →
    computedLevel (b * b * (k + 1)) ((a : ℚ) / b) +
      (if FallsShort a b (b * b * (k + 1)) then 1 else 0) = (a * a * (k + 1) : ℕ) := by
  decide +kernel

/-- No fraction with few binary digits falls short. -/
theorem not_fallsShort_dyadic {a j v : ℕ} (hj : j ≤ 3) : ¬ FallsShort a (2 ^ j) v := by
  rintro ⟨s, hs, hfraction, -⟩
  have hall : ∀ s ∈ shortfalls, s.numerator.Coprime s.denominator ∧
      ∀ j ≤ 3, ¬ s.denominator ∣ 2 ^ j := by decide
  obtain ⟨hcoprime, hdenominator⟩ := hall s hs
  refine hdenominator j hj (hcoprime.symm.dvd_of_dvd_mul_left ?_)
  rw [← hfraction]
  exact Nat.dvd_mul_left _ _

theorem not_fallsShort_zero (n m : ℕ) : ¬ FallsShort n m 0 := by
  rintro ⟨s, hs, -, hzero⟩
  have hall : ∀ s ∈ shortfalls, 0 ≠ s.value := by decide
  exact hall s hs hzero

/-- What falls short is an integer. -/
theorem FallsShort.dvd {n m v : ℕ} (h : FallsShort n m v) : m ^ 2 ∣ v * n ^ 2 := by
  obtain ⟨s, hs, hfraction, rfl⟩ := h
  have hvalue : s.denominator ^ 2 ∣ s.value := by
    have hall : ∀ s ∈ shortfalls, s.denominator ^ 2 ∣ s.value := by decide
    exact hall s hs
  obtain ⟨k, hk⟩ := hvalue
  refine ⟨s.numerator ^ 2 * k, ?_⟩
  calc s.value * n ^ 2 = (n * s.denominator) ^ 2 * k := by rw [hk]; ring
    _ = m ^ 2 * (s.numerator ^ 2 * k) := by rw [hfraction]; ring

/-- Falling short is about the fraction, not about its terms. -/
theorem fallsShort_mul_iff {a b g v : ℕ} (hg : 0 < g) :
    FallsShort (a * g) (b * g) v ↔ FallsShort a b v := by
  have hterms : ∀ p q : ℕ, a * g * q = p * (b * g) ↔ a * q = p * b := by
    intro p q
    rw [Nat.mul_right_comm, ← Nat.mul_assoc, Nat.mul_left_inj hg.ne']
  unfold FallsShort
  simp only [hterms]

/-- A product of a reduced fraction that is an integer and not zero. -/
theorem computedLevel_of_coprime {a b k : ℕ} (hb : 0 < b) (ha : a ≤ b) (hcoprime : a.Coprime b)
    (hk : 0 < k) (hv : b * b * k ≤ 255) : computedLevel (b * b * k) (a / b) +
      (if FallsShort a b (b * b * k) then 1 else 0) = (a * a * k : ℕ) := by
  have hsquare : b * b < 16 * 16 := by
    have h := Nat.le_mul_of_pos_right (b * b) hk
    omega
  have hsmall : b < 16 := lt_of_mul_self_lt_mul_self₀ (by norm_num) hsquare
  have hcases : ∀ b < 16, 0 < b → (∃ j ≤ 3, b = 2 ^ j) ∨
      b ∈ [3, 5, 6, 7, 9, 10, 11, 12, 13, 14, 15] := by decide
  rcases hcases b hsmall hb with ⟨j, hj, rfl⟩ | hmem
  · rw [if_neg (not_fallsShort_dyadic hj), add_zero, computedLevel_dyadic hj ha hv, Int.natCast_inj]
    refine Nat.div_eq_of_eq_mul_right (by positivity) ?_
    ring
  · obtain ⟨i, rfl⟩ := Nat.exists_eq_add_one_of_ne_zero hk.ne'
    have hall : ∀ b ∈ [3, 5, 6, 7, 9, 10, 11, 12, 13, 14, 15], 3 ≤ b := by decide
    have hthree := hall b hmem
    have hlt : a < b := by
      refine lt_of_le_of_ne ha fun heq => ?_
      rw [heq, Nat.coprime_self] at hcoprime
      omega
    have hi : i < 28 := by
      have h : 9 * (i + 1) ≤ b * b * (i + 1) :=
        Nat.mul_le_mul_right _ (Nat.mul_le_mul hthree hthree)
      omega
    exact computedLevel_reduced b hmem a hlt hcoprime i hi (Nat.lt_succ_iff.mpr hv)

/-- **A product that is an integer** is computed, or one less where it falls short. -/
theorem computedLevel_of_dvd {m n v : ℕ} (hm : 0 < m) (hn : n ≤ m) (hv : v ≤ 255)
    (h : m ^ 2 ∣ v * n ^ 2) : computedLevel v (n / m) + (if FallsShort n m v then 1 else 0) =
      (v * n ^ 2 / m ^ 2 : ℕ) := by
  have hgcd : 0 < n.gcd m := Nat.gcd_pos_of_pos_right n hm
  obtain ⟨a, b, hcoprime, hna, hmb⟩ := Nat.exists_coprime n m
  generalize n.gcd m = g at hgcd hna hmb
  subst hna hmb
  have hb : 0 < b := Nat.pos_of_mul_pos_right hm
  have hfraction : ((a * g : ℕ) : ℚ) / (b * g : ℕ) = a / b := by
    rw [Nat.cast_mul, Nat.cast_mul, mul_div_mul_right _ _ (by exact_mod_cast hgcd.ne')]
  have hdvd : b ^ 2 ∣ v := by
    have h' : b ^ 2 ∣ v * a ^ 2 := by
      refine Nat.dvd_of_mul_dvd_mul_right (pow_pos hgcd 2) ?_
      rwa [← mul_pow, mul_assoc, ← mul_pow]
    exact (hcoprime.symm.pow 2 2).dvd_of_dvd_mul_right h'
  obtain ⟨k, rfl⟩ := hdvd
  have hexact : b ^ 2 * k * (a * g) ^ 2 / (b * g) ^ 2 = a * a * k := by
    refine Nat.div_eq_of_eq_mul_right (pow_pos hm 2) ?_
    ring
  rw [hfraction, hexact, Nat.pow_two]
  simp only [fallsShort_mul_iff hgcd]
  rcases Nat.eq_zero_or_pos k with rfl | hk
  · rw [Nat.mul_zero, if_neg (not_fallsShort_zero a b), computedLevel, Nat.cast_zero, zero_mul,
      rounded_zero, Int.floor_zero]
    rfl
  · exact computedLevel_of_coprime hb (Nat.le_of_mul_le_mul_right hn hgcd) hcoprime hk
      (by rwa [Nat.pow_two] at hv)

/-- **The level of a channel value** is the exact one, or one less where it falls short. -/
theorem computedLevel_eq {m n v : ℕ} (hm : 0 < m) (hm' : m ^ 2 ≤ 2 ^ 43) (hn : n ≤ m)
    (hv : v ≤ 255) : computedLevel v (n / m) + (if FallsShort n m v then 1 else 0) =
      (v * n ^ 2 / m ^ 2 : ℕ) := by
  by_cases hdvd : m ^ 2 ∣ v * n ^ 2
  · exact computedLevel_of_dvd hm hn hv hdvd
  · rw [if_neg fun h => hdvd h.dvd, add_zero]
    exact computedLevel_of_not_dvd hm hm' hn hv hdvd

/-! ### Darkened images -/

section

variable {width height x y : ℕ} (hwidth : 0 < width) (hheight : 0 < height)

include hwidth hheight

/-- Nothing changes in an image with one pixel. -/
theorem darken_brightness_single (hsingle : (width, height) = (1, 1)) (v : UInt8) :
    darken (brightness width height x y) v = v := by
  have hnear : distanceSq (width / 2) (height / 2) 0 0 < 2 ^ 52 := by
    obtain ⟨rfl, rfl⟩ := Prod.mk.inj hsingle
    norm_num [distanceSq]
  exact darken_eq_self ((fallsOff hnear hwidth hheight).single hsingle x y) v

/-- **The level of a channel value** of a pixel, from the integer roots of the two squares. -/
theorem toNat_darken_brightness (hmany : (width, height) ≠ (1, 1))
    (hnear : distanceSq (width / 2) (height / 2) 0 0 ≤ 2 ^ 43) (hx : x < width) (hy : y < height)
    {m d : ℕ} (hm : m = (distanceSq (width / 2) (height / 2) 0 0).sqrt)
    (hd : d = (distanceSq (width / 2) (height / 2) x y).sqrt) (v : UInt8) :
    (darken (brightness width height x y) v).toNat +
      (if FallsShort (m - d) m v.toNat then 1 else 0) = v.toNat * (m - d) ^ 2 / m ^ 2 := by
  have hnear' := hnear.trans_lt (show 2 ^ 43 < 2 ^ 52 by norm_num)
  have hreach : reach width height = m := (reach_eq_sqrt hnear').trans hm.symm
  have hdistance : distance (width / 2) (height / 2) x y = d :=
    ((fallsOff hnear' hwidth hheight).distance_eq x y hx hy).trans hd.symm
  have hpos : 0 < m := by
    rw [← hreach]
    exact Nat.pos_of_ne_zero ((reach_eq_zero_iff hwidth hheight hnear').not.mpr hmany)
  have hsquare : m ^ 2 ≤ 2 ^ 43 := by
    rw [hm, Nat.pow_two]
    exact (Nat.sqrt_le _).trans hnear
  have hle : d ≤ m := by
    rw [← hreach, ← hdistance]
    exact distance_le_reach hnear' hx hy
  have hsmall : m < 2 ^ 53 := hreach ▸ reach_lt hnear'
  have hlevel := computedLevel_eq hpos hsquare (Nat.sub_le m d) (Nat.lt_succ_iff.mp v.toNat_lt)
  rw [← toNat_darken_factor hpos hsmall hle] at hlevel
  rw [brightness, hreach, hdistance]
  exact_mod_cast hlevel

end

end Vignette

open Vignette

/-- **The levels of a vignette.**  Every channel value is multiplied by the square of the part of
the way to the centre and cut off to an integer, exactly, or to one less if the exact product is
one of the integers that are missed.  Distances are integer roots; alpha stays; an image with
one pixel stays as it is. -/
theorem Node.apply_vignette_levels (s : Sources) (img : Image) (hs : HasPixels img.size)
    (hwidth : img.width < 2 ^ 20) (hheight : img.height < 2 ^ 20) :
    ∃ out, Node.vignette.apply s img = .ok (out, s) ∧ (img.size = (1, 1) → out = img) ∧
      (img.size ≠ (1, 1) → ∃ f : ℕ → ℕ → UInt8 → UInt8,
        img.IsRecoloured (fun x y => Colours.map (f x y)) out ∧
        ∀ x y m d, x < img.width → y < img.height →
          m = (distanceSq (img.width / 2) (img.height / 2) 0 0).sqrt →
          d = (distanceSq (img.width / 2) (img.height / 2) x y).sqrt → ∀ v : UInt8,
            (f x y v).toNat + (if FallsShort (m - d) m v.toNat then 1 else 0) =
              v.toNat * (m - d) ^ 2 / m ^ 2) := by
  have hnear : distanceSq (img.width / 2) (img.height / 2) 0 0 < 2 ^ 39 :=
    distanceSq_origin_lt (k := 19) hwidth hheight
  refine ⟨img.vignette, rfl, fun hsingle => ?_, fun hmany => ?_⟩
  · refine Image.ext_get? rfl rfl fun x y _ _ => ?_
    have hdarken : ∀ v, darken (brightness img.width img.height x y) v = v :=
      darken_brightness_single hs.1 hs.2 hsingle
    rw [Image.get?_vignette]
    simp only [Pixel.mapColour, hdarken, Option.map_id']
  · exact ⟨_, Image.isRecoloured_vignette img, fun x y m d hx hy hm hd v =>
      toNat_darken_brightness hs.1 hs.2 hmany (hnear.le.trans (by norm_num)) hx hy hm hd v⟩

/-- In a row of fourteen pixels the second one has come a seventh of the way and falls short; the
fourth one has come three sevenths of it and does not. -/
theorem Node.apply_vignette_levels_fourteen :
    let s : Sources := ⟨fun _ => .ofList [], fun _ => .ofList []⟩
    let img : Image := .ofFn 14 1 fun _ _ => .grey 49 200
    HasPixels img.size ∧ img.width < 2 ^ 20 ∧ img.height < 2 ^ 20 ∧ ∃ out,
      Node.vignette.apply s img = .ok (out, s) ∧ out.get? 1 0 = some (.grey 0 200) ∧
        out.get? 3 0 = some (.grey 9 200) := by
  intro s img
  have hs : HasPixels img.size := ⟨by decide, by decide⟩
  have hwidth : img.width < 2 ^ 20 := by decide
  have hheight : img.height < 2 ^ 20 := by decide
  obtain ⟨out, happly, -, hmany⟩ := Node.apply_vignette_levels s img hs hwidth hheight
  obtain ⟨f, hf, hlevel⟩ := hmany (by decide)
  have hreach : 7 = (distanceSq (img.width / 2) (img.height / 2) 0 0).sqrt := by decide +kernel
  have hsecond : 6 = (distanceSq (img.width / 2) (img.height / 2) 1 0).sqrt := by decide +kernel
  have hfourth : 4 = (distanceSq (img.width / 2) (img.height / 2) 3 0).sqrt := by decide +kernel
  have hblack : f 1 0 49 = 0 := by
    have h := hlevel 1 0 7 6 (by decide) (by decide) hreach hsecond 49
    rw [if_pos (by decide), show (49 : UInt8).toNat * (7 - 6) ^ 2 / 7 ^ 2 = 1 from rfl] at h
    exact UInt8.toNat_inj.mp (Nat.succ.inj h)
  have hnine : f 3 0 49 = 9 := by
    have h := hlevel 3 0 7 4 (by decide) (by decide) hreach hfourth 49
    rw [if_neg (by decide), show (49 : UInt8).toNat * (7 - 4) ^ 2 / 7 ^ 2 = 9 from rfl] at h
    exact UInt8.toNat_inj.mp h
  have hget : ∀ x < 14, out.get? x 0 = some (.grey (f x 0 49) 200) := by
    intro x hx
    rw [hf.get?_eq, Image.get?_ofFn _ hx (by decide)]
    rfl
  exact ⟨hs, hwidth, hheight, out, happly, by rw [hget 1 (by decide), hblack],
    by rw [hget 3 (by decide), hnine]⟩

/-- A seventh of the way squared makes one of 49, but the level that is computed is zero. -/
theorem Vignette.misses_exact_level :
    let img : Image := .ofFn 14 1 fun _ _ => .grey 49 255
    let m := (distanceSq (img.width / 2) (img.height / 2) 0 0).sqrt
    let d := (distanceSq (img.width / 2) (img.height / 2) 1 0).sqrt
    img.vignette.get? 1 0 = some (.grey 0 255) ∧ 49 * (m - d) ^ 2 / m ^ 2 = 1 := by
  decide +kernel

end ImagePipeline
