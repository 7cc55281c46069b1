import ImagePipeline.Image.Luminance
import ImagePipeline.Proofs.Binary64.Nearest
import Mathlib.Algebra.Order.Ring.Abs

/-!
# The level of a colour

The luminance is computed with rounded weights, rounded products and rounded sums.  All of
them together are off by far less than the gap between an integer and the middle of two of
them, so the level is a nearest integer to the exact luminance, and a grey keeps its level.

## Main results

* `exists_toRat?_ofColour` — how far the computed luminance is from the exact one.
* `nearestInt?_ofColour`, `level_near` — the level is nearest to the exact luminance.
* `level_self`, `level_mono`, `level_bounds` — greys, brighter colours, and the parts of a colour.
* `Image.grey_nearest` — the levels of a grey image.
-/

namespace ImagePipeline
namespace Luminance

open Binary64

/-- The luminance of a colour, in parts of ten thousand of a level. -/
def exact (r g b : UInt8) : ℤ := 2126 * r.toNat + 7152 * g.toNat + 722 * b.toNat

/-- One of the products that the luminance is summed up from. -/
theorem exists_toRat?_weighted {w : ℚ} (hw : 0 ≤ w) (hw' : w < 1) (v : UInt8) :
    ∃ t, (ofRat false w * ofByte v).toRat? = some t ∧ 0 ≤ t ∧ |t - w * v.toNat| ≤ 1 / 10 ^ 12 := by
  have hv : (v.toNat : ℚ) ≤ 255 := by exact_mod_cast Nat.le_of_lt_succ v.toNat_lt
  have hv₀ : (0 : ℚ) ≤ v.toNat := v.toNat.cast_nonneg
  obtain ⟨p, hp, hp₀, hpw⟩ := exists_toRat?_ofRat (k := 0) hw (by norm_num) (by norm_num)
    (by simpa using hw') false
  obtain ⟨u, hu, hu₀, huv⟩ := exists_toRat?_ofRat (k := 8) hv₀ (by norm_num) (by norm_num)
    (hv.trans_lt (by norm_num)) false
  have hε : (2 : ℚ) ^ ((0 : ℤ) - 54) ≤ 1 / 10 ^ 16 := by norm_num
  have hε' : (2 : ℚ) ^ ((8 : ℤ) - 54) ≤ 1 / 10 ^ 13 := by norm_num
  obtain ⟨hpw₁, hpw₂⟩ := abs_le.mp (hpw.trans hε)
  obtain ⟨huv₁, huv₂⟩ := abs_le.mp (huv.trans hε')
  have hp₁ : p ≤ 2 := by linarith
  have hu₁ : u ≤ 255.5 := by linarith
  obtain ⟨t, ht, ht₀, htpu⟩ := exists_toRat?_mul (k := 9) hp hu (mul_nonneg hp₀ hu₀) (by norm_num)
    (by norm_num) (by nlinarith)
  have hε'' : (2 : ℚ) ^ ((9 : ℤ) - 54) ≤ 1 / 10 ^ 13 := by norm_num
  refine ⟨t, ht, ht₀, ?_⟩
  -- the product of two rounded factors is off by the error of either times the other
  have hfactors : p * u - w * v.toNat = (p - w) * u + w * (u - v.toNat) := by ring
  have hfirst : |(p - w) * u| ≤ 1 / 10 ^ 13 := by
    rw [abs_mul, abs_of_nonneg hu₀]
    have habs : |p - w| ≤ 1 / 10 ^ 16 := abs_le.mpr ⟨by linarith, by linarith⟩
    calc |p - w| * u ≤ 1 / 10 ^ 16 * 255.5 := mul_le_mul habs hu₁ hu₀ (by norm_num)
      _ ≤ 1 / 10 ^ 13 := by norm_num
  have hsecond : |w * (u - v.toNat)| ≤ 1 / 10 ^ 13 := by
    rw [abs_mul, abs_of_nonneg hw]
    have habs : |u - v.toNat| ≤ 1 / 10 ^ 13 := abs_le.mpr ⟨by linarith, by linarith⟩
    calc w * |u - v.toNat| ≤ 1 * (1 / 10 ^ 13) := mul_le_mul hw'.le habs (abs_nonneg _) zero_le_one
      _ = 1 / 10 ^ 13 := one_mul _
  obtain ⟨hfirst₁, hfirst₂⟩ := abs_le.mp hfirst
  obtain ⟨hsecond₁, hsecond₂⟩ := abs_le.mp hsecond
  obtain ⟨htpu₁, htpu₂⟩ := abs_le.mp (htpu.trans hε'')
  exact abs_le.mpr ⟨by linarith, by linarith⟩

/-- **The computed luminance** is next to the exact one. -/
theorem exists_toRat?_ofColour (r g b : UInt8) :
    ∃ t, (ofColour r g b).toRat? = some t ∧ |t - exact r g b / 10000| ≤ 1 / 10 ^ 11 := by
  obtain ⟨x, hx, hx₀, hxr⟩ := exists_toRat?_weighted (w := 2126 / 10000) (by norm_num)
    (by norm_num) r
  obtain ⟨y, hy, hy₀, hyg⟩ := exists_toRat?_weighted (w := 7152 / 10000) (by norm_num)
    (by norm_num) g
  obtain ⟨z, hz, hz₀, hzb⟩ := exists_toRat?_weighted (w := 722 / 10000) (by norm_num)
    (by norm_num) b
  have hr : (r.toNat : ℚ) ≤ 255 := by exact_mod_cast Nat.le_of_lt_succ r.toNat_lt
  have hg : (g.toNat : ℚ) ≤ 255 := by exact_mod_cast Nat.le_of_lt_succ g.toNat_lt
  have hb : (b.toNat : ℚ) ≤ 255 := by exact_mod_cast Nat.le_of_lt_succ b.toNat_lt
  have hε : (2 : ℚ) ^ ((10 : ℤ) - 54) ≤ 1 / 10 ^ 13 := by norm_num
  obtain ⟨hxr₁, hxr₂⟩ := abs_le.mp hxr
  obtain ⟨hyg₁, hyg₂⟩ := abs_le.mp hyg
  obtain ⟨hzb₁, hzb₂⟩ := abs_le.mp hzb
  obtain ⟨xy, hxy, hxy₀, hsum⟩ := exists_toRat?_add (k := 10) hx hy (add_nonneg hx₀ hy₀)
    (by norm_num) (by norm_num) (by norm_num; linarith)
  obtain ⟨hsum₁, hsum₂⟩ := abs_le.mp (hsum.trans hε)
  obtain ⟨t, ht, -, hsum'⟩ := exists_toRat?_add (k := 10) hxy hz (add_nonneg hxy₀ hz₀)
    (by norm_num) (by norm_num) (by norm_num; linarith)
  obtain ⟨hsum'₁, hsum'₂⟩ := abs_le.mp (hsum'.trans hε)
  refine ⟨t, ht, ?_⟩
  unfold exact
  push_cast
  exact abs_le.mpr ⟨by linarith, by linarith⟩

/-- **The luminance is rounded to the level**, which needs no clipping and is a nearest integer to
the exact luminance. -/
theorem nearestInt?_ofColour (r g b : UInt8) :
    (ofColour r g b).nearestInt? = some ((level r g b).toNat : ℤ) ∧
      |10000 * ((level r g b).toNat : ℤ) - exact r g b| ≤ 5000 := by
  obtain ⟨t, ht, hexact⟩ := exists_toRat?_ofColour r g b
  obtain ⟨n, hn, hnear, -⟩ := exists_nearestInt? ht
  have hlevel : ((level r g b).toNat : ℤ) = max 0 (min 255 n) := by
    rw [level, hn, Option.getD_some, toNat_toByte]
  -- the errors do not add up to the next integer
  obtain ⟨hexact₁, hexact₂⟩ := abs_le.mp hexact
  obtain ⟨hnear₁, hnear₂⟩ := abs_le.mp hnear
  have hupper : (10000 * n - exact r g b : ℚ) < 5001 := by linarith
  have hlower : (-5001 : ℚ) < 10000 * n - exact r g b := by linarith
  have hupper' : 10000 * n - exact r g b < 5001 := by exact_mod_cast hupper
  have hlower' : -5001 < 10000 * n - exact r g b := by exact_mod_cast hlower
  have hr := r.toNat_lt
  have hg := g.toNat_lt
  have hb := b.toNat_lt
  have hunclipped : ((level r g b).toNat : ℤ) = n := by
    unfold exact at hupper' hlower'
    omega
  rw [hunclipped, abs_le]
  exact ⟨hn, by omega, by omega⟩

/-- **The level of a colour is a nearest integer to its exact luminance.** -/
theorem level_near (r g b : UInt8) : |10000 * ((level r g b).toNat : ℤ) - exact r g b| ≤ 5000 :=
  (nearestInt?_ofColour r g b).2

/-- **A grey keeps its level.** -/
theorem level_self (v : UInt8) : level v v v = v := by
  have h := level_near v v v
  unfold exact at h
  rw [abs_le] at h
  exact UInt8.toNat_inj.mp (by omega)

/-- **A brighter colour has no lower level.**  Two colours whose exact luminance is halfway between
two levels may be rounded differently, but none of them is brighter than the other in all of its
parts. -/
theorem level_mono {r g b r' g' b' : UInt8} (hr : r ≤ r') (hg : g ≤ g') (hb : b ≤ b') :
    level r g b ≤ level r' g' b' := by
  have hr' := UInt8.le_iff_toNat_le.mp hr
  have hg' := UInt8.le_iff_toNat_le.mp hg
  have hb' := UInt8.le_iff_toNat_le.mp hb
  by_cases heq : r.toNat = r'.toNat ∧ g.toNat = g'.toNat ∧ b.toNat = b'.toNat
  · obtain ⟨hr, hg, hb⟩ := heq
    rw [UInt8.toNat_inj.mp hr, UInt8.toNat_inj.mp hg, UInt8.toNat_inj.mp hb]
    exact UInt8.le_refl _
  · have h := level_near r g b
    have h' := level_near r' g' b'
    unfold exact at h h'
    rw [abs_le] at h h'
    exact UInt8.le_iff_toNat_le.mpr (by omega)

/-- The level of a colour lies between its least and its greatest part. -/
theorem level_bounds (r g b : UInt8) : min r.toNat (min g.toNat b.toNat) ≤ (level r g b).toNat ∧
    (level r g b).toNat ≤ max r.toNat (max g.toNat b.toNat) := by
  have h := level_near r g b
  unfold exact at h
  rw [abs_le] at h
  omega

/-- The level `v` is the luminance of a colour, rounded to a nearest integer. -/
structure IsNearestLevel (r g b v : UInt8) : Prop where
  /-- The computed luminance is rounded to the level and not clipped. -/
  unclipped : (ofColour r g b).nearestInt? = some (v.toNat : ℤ)
  near : |10000 * (v.toNat : ℤ) - exact r g b| ≤ 5000
  eq_of_grey : r = g → g = b → v = r
  min_le : min r.toNat (min g.toNat b.toNat) ≤ v.toNat
  le_max : v.toNat ≤ max r.toNat (max g.toNat b.toNat)

theorem isNearestLevel_level (r g b : UInt8) : IsNearestLevel r g b (level r g b) := by
  obtain ⟨hunclipped, hnear⟩ := nearestInt?_ofColour r g b
  obtain ⟨hmin, hmax⟩ := level_bounds r g b
  refine ⟨hunclipped, hnear, ?_, hmin, hmax⟩
  rintro rfl rfl
  exact level_self r

end Luminance

/-- **Turning an image grey** replaces every colour by a nearest integer to its exact luminance and
keeps alpha; a pixel whose parts are all at least as bright does not become darker. -/
theorem Image.grey_nearest (img : Image) : img.grey.size = img.size ∧
    ∀ x y p, img.get? x y = some p → ∃ v, img.grey.get? x y = some (.grey v p.alpha) ∧
      Luminance.IsNearestLevel p.red p.green p.blue v ∧
      ∀ (img' : Image) x' y' p' v', img'.get? x' y' = some p' →
        img'.grey.get? x' y' = some (.grey v' p'.alpha) →
        p.red ≤ p'.red → p.green ≤ p'.green → p.blue ≤ p'.blue → v ≤ v' := by
  have hget : ∀ (img : Image) x y p, img.get? x y = some p →
      img.grey.get? x y = some (.grey (Luminance.level p.red p.green p.blue) p.alpha) := by
    intro img x y p hp
    rw [get?_grey, hp]
    rfl
  refine ⟨size_grey img, fun x y p hp => ⟨_, hget img x y p hp,
    Luminance.isNearestLevel_level _ _ _, fun img' x' y' p' v' hp' hv' hred hgreen hblue => ?_⟩⟩
  have hlevel : v' = Luminance.level p'.red p'.green p'.blue := by
    have h := Option.some.inj (hv'.symm.trans (hget img' x' y' p' hp'))
    exact (Pixel.mk.inj h).1
  rw [hlevel]
  exact Luminance.level_mono hred hgreen hblue

/-- A colour halfway between the levels 15 and 16, and one that is a little greener. -/
theorem Image.grey_nearest_halfway :
    let img : Image := ⟨2, 1, #[⟨0, 14, 76, 7⟩, ⟨0, 15, 76, 8⟩], rfl⟩
    img.get? 0 0 = some ⟨0, 14, 76, 7⟩ ∧ img.get? 1 0 = some ⟨0, 15, 76, 8⟩ ∧
      ∃ v v', img.grey.get? 0 0 = some (.grey v 7) ∧ img.grey.get? 1 0 = some (.grey v' 8) ∧
        |10000 * (v.toNat : ℤ) - 155000| ≤ 5000 ∧ v ≤ v' := by
  intro img
  obtain ⟨-, hgrey⟩ := img.grey_nearest
  obtain ⟨v, hv, hnearest, hmono⟩ := hgrey 0 0 ⟨0, 14, 76, 7⟩ rfl
  obtain ⟨v', hv', -, -⟩ := hgrey 1 0 ⟨0, 15, 76, 8⟩ rfl
  exact ⟨rfl, rfl, v, v', hv, hv', hnearest.near,
    hmono img 1 0 ⟨0, 15, 76, 8⟩ v' rfl hv' (by decide) (by decide) (by decide)⟩

end ImagePipeline
