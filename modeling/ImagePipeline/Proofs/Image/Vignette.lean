import ImagePipeline.Proofs.Binary64.SquareRoot
import ImagePipeline.Proofs.Image.Recolouring
import ImagePipeline.Proofs.Node.Sizes

/-!
# Darkness grows outward

The factor of a pixel is computed from two distances, and every step of the way keeps the
order: the integer part of a root, the quotient, its square, the product with a channel value
and its integer part.  The quotient lies between zero and one, where nothing is clipped, since
no pixel is further from the centre than the origin is.

## Main definitions

* `Vignette.part` — the part of the way to the centre, as it is computed.
* `Vignette.shade` — the value of a factor as a function of the exact part of the way.
* `Vignette.FallsOff` — how the factors of an image are distributed.
* `Vignette.DarkensOutward` — how the channel values of an image are darkened.

## Main results

* `Vignette.distance_eq_sqrt`, `Vignette.distance_le_reach` — the distances.
* `Vignette.toRat?_factor` — the value of a factor.
* `Vignette.toNat_darken` — the level that a channel value is darkened to.
* `Vignette.apply_vignette_outward` — factors and levels of any image.
-/

namespace ImagePipeline

open Binary64

namespace Vignette

/-! ### Distances -/

/-- The square of the distance of two places. -/
def distanceSq (x₀ y₀ x₁ y₁ : ℕ) : ℕ :=
  ((x₀ : ℤ) - x₁).natAbs * ((x₀ : ℤ) - x₁).natAbs + ((y₀ : ℤ) - y₁).natAbs * ((y₀ : ℤ) - y₁).natAbs

/-- **The distance of two places** is the integer root of its square. -/
theorem distance_eq_sqrt {x₀ y₀ x₁ y₁ : ℕ} (h : distanceSq x₀ y₀ x₁ y₁ < 2 ^ 52) :
    distance x₀ y₀ x₁ y₁ = (distanceSq x₀ y₀ x₁ y₁).sqrt := by
  have hroot := floor?_sqrtNat h
  unfold distanceSq at hroot ⊢
  unfold distance
  simp only [hroot, Option.getD_some, Int.toNat_natCast]

section

variable {width height x y k : ℕ}

/-- No pixel is further from the centre than the origin is. -/
theorem distanceSq_le (hx : x < width) (hy : y < height) :
    distanceSq (width / 2) (height / 2) x y ≤ distanceSq (width / 2) (height / 2) 0 0 := by
  have hdx : (((width / 2 : ℕ) : ℤ) - x).natAbs ≤ (((width / 2 : ℕ) : ℤ) - (0 : ℕ)).natAbs := by
    omega
  have hdy : (((height / 2 : ℕ) : ℤ) - y).natAbs ≤ (((height / 2 : ℕ) : ℤ) - (0 : ℕ)).natAbs := by
    omega
  exact Nat.add_le_add (Nat.mul_le_mul hdx hdx) (Nat.mul_le_mul hdy hdy)

theorem distanceSq_origin (x₀ y₀ : ℕ) : distanceSq x₀ y₀ 0 0 = x₀ * x₀ + y₀ * y₀ := by
  simp [distanceSq]

/-- The square of the distance of the origin to the centre is bounded by the extents. -/
theorem distanceSq_origin_lt (hwidth : width < 2 ^ (k + 1)) (hheight : height < 2 ^ (k + 1)) :
    distanceSq (width / 2) (height / 2) 0 0 < 2 ^ (2 * k + 1) := by
  have hw : width / 2 < 2 ^ k := by rw [pow_succ] at hwidth; omega
  have hh : height / 2 < 2 ^ k := by rw [pow_succ] at hheight; omega
  have hpow : 2 ^ (2 * k + 1) = 2 ^ k * 2 ^ k + 2 ^ k * 2 ^ k := by ring
  rw [distanceSq_origin, hpow]
  exact Nat.add_lt_add (Nat.mul_lt_mul'' hw hw) (Nat.mul_lt_mul'' hh hh)

theorem reach_eq_sqrt (h : distanceSq (width / 2) (height / 2) 0 0 < 2 ^ 52) :
    reach width height = (distanceSq (width / 2) (height / 2) 0 0).sqrt := distance_eq_sqrt h

/-- **No pixel is further from the centre than the origin.** -/
theorem distance_le_reach (h : distanceSq (width / 2) (height / 2) 0 0 < 2 ^ 52) (hx : x < width)
    (hy : y < height) : distance (width / 2) (height / 2) x y ≤ reach width height := by
  have hle := distanceSq_le hx hy
  rw [reach_eq_sqrt h, distance_eq_sqrt (hle.trans_lt h)]
  exact Nat.sqrt_le_sqrt hle

end

theorem distance_self {x y : ℕ} : distance x y x y = 0 := by
  have hzero : distanceSq x y x y = 0 := by simp [distanceSq]
  rw [distance_eq_sqrt (by rw [hzero]; norm_num), hzero, Nat.sqrt_zero]

/-- The origin is the centre of an image with one pixel and of no other. -/
theorem reach_eq_zero_iff {width height : ℕ} (hwidth : 0 < width) (hheight : 0 < height)
    (h : distanceSq (width / 2) (height / 2) 0 0 < 2 ^ 52) :
    reach width height = 0 ↔ (width, height) = (1, 1) := by
  rw [reach_eq_sqrt h, Nat.sqrt_eq_zero, distanceSq_origin, Nat.add_eq_zero_iff,
    mul_self_eq_zero, mul_self_eq_zero, Prod.mk.injEq]
  omega

/-! ### Factors -/

/-- The part of the way from the origin to the centre that a place at distance `d` has come,
where the origin is at distance `m`. -/
def part (m d : ℕ) : Binary64 := (ofNat m - ofNat d) / ofNat m

theorem factor_eq (m d : ℕ) : factor m d = if m = 0 then ofNat 1 else
    (part m d).clamp (ofNat 0) (ofNat 1) * (part m d).clamp (ofNat 0) (ofNat 1) := rfl

/-- The value of a factor, given the exact part of the way. -/
def shade (r : ℚ) : ℚ := rounded (rounded r * rounded r)

theorem toRat?_ofNat {n : ℕ} (hn : n < 2 ^ 53) : (ofNat n).toRat? = some (n : ℚ) :=
  toRat?_ofRat_natCast hn false

theorem rounded_one : rounded 1 = 1 := by exact_mod_cast rounded_natCast (n := 1) (by norm_num)

/-- What lies between zero and one is rounded to something between zero and one. -/
theorem rounded_le_one {q : ℚ} (hq : 0 ≤ q) (h : q ≤ 1) : rounded q ≤ 1 :=
  rounded_one ▸ rounded_mono hq h

theorem lt_two_zpow_of_le {q : ℚ} (h : q ≤ 255) : q < 2 ^ (1023 : ℤ) := by
  have h₁ : q < 2 ^ (8 : ℤ) := h.trans_lt (by norm_num)
  exact h₁.trans (two_zpow_lt_iff.mpr (by norm_num))

section

variable {m d : ℕ}

theorem part_le_one (hm : 0 < m) (d : ℕ) : ((m - d : ℕ) : ℚ) / m ≤ 1 :=
  (div_le_one₀ (by exact_mod_cast hm)).mpr (by exact_mod_cast Nat.sub_le m d)

/-- Only the quotient is rounded. -/
theorem toRat?_part (hm : 0 < m) (hm' : m < 2 ^ 53) (hd : d ≤ m) :
    (part m d).toRat? = some (rounded ((m - d : ℕ) / m)) := by
  have hpos : (0 : ℚ) < m := by exact_mod_cast hm
  obtain ⟨s, hdifference⟩ := exists_sub_eq_ofRat (toRat?_ofNat hm')
    (toRat?_ofNat (n := d) (by omega))
  rw [← Nat.cast_sub hd] at hdifference
  have hexact : (ofNat m - ofNat d).toRat? = some ((m - d : ℕ) : ℚ) := by
    rw [hdifference]
    exact toRat?_ofRat_natCast (by omega) s
  obtain ⟨t, hquotient⟩ := exists_div_eq_ofRat hexact (toRat?_ofNat hm') hpos.ne'
  have hle : ((m - d : ℕ) : ℚ) / m ≤ 255 := (part_le_one hm d).trans (by norm_num)
  rw [part, hquotient]
  exact toRat?_ofRat_eq_rounded (by positivity) (lt_two_zpow_of_le hle) t

/-- **The clipping of the part of the way never acts.** -/
theorem clamp_part (hm : 0 < m) (hm' : m < 2 ^ 53) (hd : d ≤ m) :
    (part m d).clamp (ofNat 0) (ofNat 1) = part m d := by
  refine clamp_eq_self (toRat?_part hm hm' hd) (toRat?_ofNat (by norm_num))
    (toRat?_ofNat (by norm_num)) ?_ ?_
  · rw [Nat.cast_zero]
    exact rounded_nonneg _
  · rw [Nat.cast_one]
    exact rounded_le_one (by positivity) (part_le_one hm d)

/-- **The value of a factor.** -/
theorem toRat?_factor (hm : 0 < m) (hm' : m < 2 ^ 53) (hd : d ≤ m) :
    (factor m d).toRat? = some (shade ((m - d : ℕ) / m)) := by
  rw [factor_eq, if_neg hm.ne', clamp_part hm hm' hd]
  have hpart := toRat?_part hm hm' hd
  have hle := rounded_le_one (by positivity) (part_le_one hm d)
  have hnonneg := rounded_nonneg (((m - d : ℕ) : ℚ) / m)
  obtain ⟨s, hsquare⟩ := exists_mul_eq_ofRat hpart hpart
  rw [hsquare]
  refine toRat?_ofRat_eq_rounded (mul_nonneg hnonneg hnonneg) (lt_two_zpow_of_le ?_) s
  exact (mul_le_one₀ hle hnonneg hle).trans (by norm_num)

end

theorem shade_nonneg (r : ℚ) : 0 ≤ shade r := rounded_nonneg _

@[simp] theorem shade_zero : shade 0 = 0 := by rw [shade, rounded_zero, mul_zero, rounded_zero]

@[simp] theorem shade_one : shade 1 = 1 := by rw [shade, rounded_one, mul_one, rounded_one]

theorem shade_mono {p q : ℚ} (hp : 0 ≤ p) (hpq : p ≤ q) : shade p ≤ shade q := by
  have hrounded := rounded_mono hp hpq
  exact rounded_mono (mul_self_nonneg _) (mul_self_le_mul_self (rounded_nonneg p) hrounded)

theorem shade_le_one {r : ℚ} (hr : 0 ≤ r) (hr' : r ≤ 1) : shade r ≤ 1 :=
  shade_one ▸ shade_mono hr hr'

/-! ### Levels -/

section

variable {f g : Binary64} {t u : ℚ} {v w : UInt8}

/-- The integer part of the rounded product is no greater than the channel value. -/
theorem floor_rounded_le (ht : 0 ≤ t) (ht' : t ≤ 1) : ⌊rounded (v.toNat * t)⌋ ≤ v.toNat := by
  have hrounded := rounded_mono (by positivity : 0 ≤ (v.toNat : ℚ) * t)
    (mul_le_of_le_one_right (Nat.cast_nonneg _) ht')
  rw [rounded_natCast (v.toNat_lt.trans (by norm_num))] at hrounded
  have hfloor := Int.floor_mono hrounded
  rwa [Int.floor_natCast] at hfloor

/-- The integer part of the product of a channel value and a factor. -/
theorem truncate?_mul_factor (hf : f.toRat? = some t) (ht : 0 ≤ t) (ht' : t ≤ 1) (v : UInt8) :
    (Luminance.ofByte v * f).truncate? = some ⌊rounded (v.toNat * t)⌋ := by
  have hbyte : (Luminance.ofByte v).toRat? = some (v.toNat : ℚ) :=
    toRat?_ofNat (v.toNat_lt.trans (by norm_num))
  have hnonneg : 0 ≤ (v.toNat : ℚ) * t := by positivity
  have hle : (v.toNat : ℚ) * t ≤ v.toNat := mul_le_of_le_one_right (Nat.cast_nonneg _) ht'
  have hmax : (v.toNat : ℚ) ≤ 255 := by exact_mod_cast Nat.lt_succ_iff.mp v.toNat_lt
  obtain ⟨s, hproduct⟩ := exists_mul_eq_ofRat hbyte hf
  have hvalue : (Luminance.ofByte v * f).toRat? = some (rounded (v.toNat * t)) := by
    rw [hproduct]
    exact toRat?_ofRat_eq_rounded hnonneg (lt_two_zpow_of_le (hle.trans hmax)) s
  exact truncate?_eq_floor hvalue (rounded_nonneg _)

/-- **A channel value is darkened** to the integer part of the rounded product, and the
clipping does not act. -/
theorem toNat_darken (hf : f.toRat? = some t) (ht : 0 ≤ t) (ht' : t ≤ 1) (v : UInt8) :
    ((darken f v).toNat : ℤ) = ⌊rounded (v.toNat * t)⌋ := by
  have hlower : 0 ≤ ⌊rounded (v.toNat * t)⌋ := Int.floor_nonneg.mpr (rounded_nonneg _)
  have hupper := floor_rounded_le (v := v) ht ht'
  have hbound := v.toNat_lt
  rw [darken, truncate?_mul_factor hf ht ht', Option.getD_some, toNat_toByte]
  omega

/-- No channel value is darkened to a greater one. -/
theorem darken_le (hf : f.toRat? = some t) (ht : 0 ≤ t) (ht' : t ≤ 1) (v : UInt8) :
    darken f v ≤ v := by
  have hfloor := floor_rounded_le (v := v) ht ht'
  rw [← toNat_darken hf ht ht'] at hfloor
  exact UInt8.le_iff_toNat_le.mpr (by exact_mod_cast hfloor)

/-- The factor one darkens nothing. -/
theorem darken_eq_self (hf : f.toRat? = some 1) (v : UInt8) : darken f v = v := by
  have h := toNat_darken hf zero_le_one le_rfl v
  rw [mul_one, rounded_natCast (v.toNat_lt.trans (by norm_num)), Int.floor_natCast] at h
  exact UInt8.toNat_inj.mp (by exact_mod_cast h)

/-- **Darkening keeps the order** of channel values and of factors. -/
theorem darken_mono (hf : f.toRat? = some t) (hg : g.toRat? = some u) (ht : 0 ≤ t) (htu : t ≤ u)
    (hu : u ≤ 1) (hvw : v ≤ w) : darken f v ≤ darken g w := by
  have hcast : (v.toNat : ℚ) ≤ w.toNat := by exact_mod_cast UInt8.le_iff_toNat_le.mp hvw
  have hproduct : (v.toNat : ℚ) * t ≤ w.toNat * u :=
    mul_le_mul hcast htu ht (Nat.cast_nonneg _)
  have h := Int.floor_mono (rounded_mono (by positivity) hproduct)
  rw [← toNat_darken hf ht (htu.trans hu), ← toNat_darken hg (ht.trans htu) hu] at h
  exact UInt8.le_iff_toNat_le.mpr (by exact_mod_cast h)

end

/-! ### Outward -/

/-- The distance of a place from the centre of an image of the given extents. -/
def fromCentre (width height x y : ℕ) : ℕ := distance (width / 2) (height / 2) x y

/-- The factors of an image of the given extents fall from one in the centre to zero at the
distance of the origin. -/
structure FallsOff (width height : ℕ) : Prop where
  /-- The distances are integer roots of sums of squares. -/
  distance_eq : ∀ x y, x < width → y < height →
    fromCentre width height x y = (distanceSq (width / 2) (height / 2) x y).sqrt
  distance_le : ∀ x y, x < width → y < height → fromCentre width height x y ≤ reach width height
  /-- The clipping of the part of the way never acts. -/
  unclipped : reach width height ≠ 0 → ∀ x y, x < width → y < height →
    (part (reach width height) (fromCentre width height x y)).clamp (ofNat 0) (ofNat 1) =
      part (reach width height) (fromCentre width height x y)
  bounds : ∀ x y, x < width → y < height →
    ∃ q, (brightness width height x y).toRat? = some q ∧ 0 ≤ q ∧ q ≤ 1
  centre : width / 2 < width ∧ height / 2 < height ∧
    (brightness width height (width / 2) (height / 2)).toRat? = some 1
  /-- Nothing is darkened in an image with one pixel. -/
  single : (width, height) = (1, 1) → ∀ x y, (brightness width height x y).toRat? = some 1
  /-- The origin is dark, and so is every other place at its distance. -/
  origin : (width, height) ≠ (1, 1) → (brightness width height 0 0).toRat? = some 0 ∧
    ∀ x y, x < width → y < height → fromCentre width height x y = reach width height →
      (brightness width height x y).toRat? = some 0
  /-- Factors depend on the distance alone. -/
  congr : ∀ x y x' y', fromCentre width height x y = fromCentre width height x' y' →
    brightness width height x y = brightness width height x' y'
  /-- Factors do not increase with the distance. -/
  antitone : ∀ x y x' y', x < width → y < height → x' < width → y' < height →
    fromCentre width height x y ≤ fromCentre width height x' y' →
    ∃ q q', (brightness width height x y).toRat? = some q ∧
      (brightness width height x' y').toRat? = some q' ∧ q' ≤ q
  /-- The rows of factors of a whole image, if there is room for them, hold these factors. -/
  rows : ∀ rs, rowsOf width height = .ok rs → ∀ x y, x < width → y < height →
    (rs[y]?.bind fun r => r[x]?) = some (brightness width height x y)

/-- A function of column, row and channel value darkens an image of the given extents outward. -/
structure DarkensOutward (width height : ℕ) (f : ℕ → ℕ → UInt8 → UInt8) : Prop where
  le_self : ∀ x y v, x < width → y < height → f x y v ≤ v
  centre : ∀ v, f (width / 2) (height / 2) v = v
  /-- What is further out and not brighter does not become brighter. -/
  mono : ∀ x y x' y' v v', x < width → y < height → x' < width → y' < height →
    fromCentre width height x' y' ≤ fromCentre width height x y → v ≤ v' → f x y v ≤ f x' y' v'

section

variable {width height : ℕ}

/-- The value of the factor of a pixel, as a function of its distance. -/
def shadeAt (width height d : ℕ) : ℚ :=
  if reach width height = 0 then 1
  else shade ((reach width height - d : ℕ) / reach width height)

theorem shadeAt_nonneg (width height d : ℕ) : 0 ≤ shadeAt width height d := by
  unfold shadeAt
  split
  · exact zero_le_one
  · exact shade_nonneg _

theorem shadeAt_antitone {d d' : ℕ} (h : d ≤ d') :
    shadeAt width height d' ≤ shadeAt width height d := by
  unfold shadeAt
  split
  · exact le_rfl
  · refine shade_mono (by positivity) (div_le_div_of_nonneg_right ?_ (by positivity))
    exact_mod_cast Nat.sub_le_sub_left h _

theorem shadeAt_zero (width height : ℕ) : shadeAt width height 0 = 1 := by
  unfold shadeAt
  split
  · rfl
  · next h => rw [Nat.sub_zero, div_self (by exact_mod_cast h), shade_one]

theorem shadeAt_le_one (width height d : ℕ) : shadeAt width height d ≤ 1 :=
  shadeAt_zero width height ▸ shadeAt_antitone (Nat.zero_le d)

theorem shadeAt_reach (h : reach width height ≠ 0) :
    shadeAt width height (reach width height) = 0 := by
  rw [shadeAt, if_neg h, Nat.sub_self, Nat.cast_zero, zero_div, shade_zero]

variable {x y : ℕ} (hnear : distanceSq (width / 2) (height / 2) 0 0 < 2 ^ 52)

include hnear

theorem reach_lt : reach width height < 2 ^ 53 := by
  rw [reach_eq_sqrt hnear]
  exact (Nat.sqrt_le_self _).trans_lt (hnear.trans (by norm_num))

/-- **The factor of a pixel.** -/
theorem toRat?_brightness (hx : x < width) (hy : y < height) :
    (brightness width height x y).toRat? =
      some (shadeAt width height (fromCentre width height x y)) := by
  have hdistance := distance_le_reach hnear hx hy
  unfold brightness shadeAt
  split
  · next h =>
    rw [factor_eq, if_pos h]
    exact toRat?_ofNat (by norm_num)
  · next h => exact toRat?_factor (Nat.pos_of_ne_zero h) (reach_lt hnear) hdistance

/-- **The factors fall from the centre to the origin.** -/
theorem fallsOff (hwidth : 0 < width) (hheight : 0 < height) : FallsOff width height := by
  have hcentre : fromCentre width height (width / 2) (height / 2) = 0 := distance_self
  have hcentre_x : width / 2 < width := Nat.div_lt_self hwidth one_lt_two
  have hcentre_y : height / 2 < height := Nat.div_lt_self hheight one_lt_two
  have hsingle := reach_eq_zero_iff hwidth hheight hnear
  refine
    { distance_eq := fun x y hx hy => distance_eq_sqrt ((distanceSq_le hx hy).trans_lt hnear)
      distance_le := fun x y hx hy => distance_le_reach hnear hx hy
      unclipped := fun h x y hx hy => clamp_part (Nat.pos_of_ne_zero h) (reach_lt hnear)
        (distance_le_reach hnear hx hy)
      bounds := fun x y hx hy => ⟨_, toRat?_brightness hnear hx hy, shadeAt_nonneg _ _ _,
        shadeAt_le_one _ _ _⟩
      centre := ⟨hcentre_x, hcentre_y, ?_⟩
      single := fun h x y => ?_
      origin := fun h => ?_
      congr := fun x y x' y' h => congrArg (factor (reach width height)) h
      antitone := fun x y x' y' hx hy hx' hy' h => ⟨_, _, toRat?_brightness hnear hx hy,
        toRat?_brightness hnear hx' hy', shadeAt_antitone h⟩
      rows := fun rs hrs x y hx hy => ?_ }
  · rw [toRat?_brightness hnear hcentre_x hcentre_y, hcentre, shadeAt_zero]
  · rw [brightness, factor_eq, if_pos (hsingle.mpr h)]
    exact toRat?_ofNat (by norm_num)
  · have hdark : ∀ x y, x < width → y < height → fromCentre width height x y = reach width height →
        (brightness width height x y).toRat? = some 0 := fun x y hx hy hd => by
      rw [toRat?_brightness hnear hx hy, hd, shadeAt_reach (hsingle.not.mpr h)]
    exact ⟨hdark 0 0 hwidth hheight rfl, hdark⟩
  · have hrows : rs = Vignette.rows width height := by
      unfold rowsOf at hrs
      simp only at hrs
      split at hrs
      · exact absurd hrs (by simp)
      · split at hrs
        · exact absurd hrs (by simp)
        · split at hrs
          · exact absurd hrs (by simp)
          · exact (Except.ok.inj hrs).symm
    simp [hrows, Vignette.rows, hx, hy]

/-- **Multiplying by the factors darkens outward.** -/
theorem darkensOutward (hwidth : 0 < width) (hheight : 0 < height) :
    DarkensOutward width height fun x y => darken (brightness width height x y) := by
  obtain ⟨hcentre_x, hcentre_y, hcentre⟩ := (fallsOff hnear hwidth hheight).centre
  refine ⟨fun x y v hx hy => ?_, fun v => darken_eq_self hcentre v,
    fun x y x' y' v v' hx hy hx' hy' hd hv => ?_⟩
  · exact darken_le (toRat?_brightness hnear hx hy) (shadeAt_nonneg _ _ _) (shadeAt_le_one _ _ _) v
  · exact darken_mono (toRat?_brightness hnear hx hy) (toRat?_brightness hnear hx' hy')
      (shadeAt_nonneg _ _ _) (shadeAt_antitone hd) (shadeAt_le_one _ _ _) hv

end

/-- **A vignette falls off outward.**  In every image with pixels the factors fall from exactly
one in the centre to exactly zero at the distance of the origin, and depend on nothing but the
distance.  So no channel value becomes greater when it is multiplied by its factor, the centre
keeps its colours, and what is further out and not brighter does not become brighter; and this
is what the node does to the colours of every pixel. -/
theorem apply_vignette_outward {width height : ℕ} (hwidth : 0 < width) (hheight : 0 < height)
    (hwidth' : width < 2 ^ 26) (hheight' : height < 2 ^ 26) :
    FallsOff width height ∧
    DarkensOutward width height (fun x y => darken (brightness width height x y)) ∧
    ∀ (s : Sources) (img : Image), img.size = (width, height) →
      ∃ out, Node.vignette.apply s img = .ok (out, s) ∧
        img.IsRecoloured (fun x y => Colours.map (darken (brightness width height x y))) out := by
  have hnear : distanceSq (width / 2) (height / 2) 0 0 < 2 ^ 52 :=
    (distanceSq_origin_lt (k := 25) hwidth' hheight').trans (by norm_num)
  refine ⟨fallsOff hnear hwidth hheight, darkensOutward hnear hwidth hheight,
    fun s img hsize => ?_⟩
  obtain ⟨rfl, rfl⟩ := Prod.mk.inj hsize
  exact ⟨img.vignette, rfl, Image.isRecoloured_vignette img⟩

/-- In a row of four greys the third one is the centre and the first one is dark. -/
theorem apply_vignette_outward_four_greys :
    let s : Sources := ⟨fun _ => .ofList [], fun _ => .ofList []⟩
    let img : Image := ⟨4, 1, #[.grey 90 1, .grey 80 2, .grey 70 3, .grey 60 4], rfl⟩
    (0 < 4 ∧ 0 < 1 ∧ 4 < 2 ^ 26 ∧ 1 < 2 ^ 26) ∧ img.size = (4, 1) ∧
      (brightness 4 1 0 0).toRat? = some 0 ∧
      ∃ out, Node.vignette.apply s img = .ok (out, s) ∧ out.get? 2 0 = some (.grey 70 3) := by
  intro s img
  obtain ⟨hfalls, houtward, himage⟩ := @apply_vignette_outward 4 1 (by decide) (by decide)
    (by decide) (by decide)
  obtain ⟨hdark, -⟩ := hfalls.origin (by decide)
  obtain ⟨out, happly, hdarkened⟩ := himage s img rfl
  refine ⟨by decide, rfl, hdark, out, happly, ?_⟩
  have hcentre : darken (brightness 4 1 2 0) 70 = 70 := houtward.centre 70
  rw [hdarkened.get?_eq, show img.get? 2 0 = some (.grey 70 3) from rfl, Option.map_some]
  show some (Pixel.mk (darken (brightness 4 1 2 0) 70) (darken (brightness 4 1 2 0) 70)
    (darken (brightness 4 1 2 0) 70) 3) = _
  rw [hcentre]
  rfl

end Vignette
end ImagePipeline
