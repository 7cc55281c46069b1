import ImagePipeline.Proofs.Image.Crop
import ImagePipeline.Proofs.Image.Luminance
import ImagePipeline.Proofs.Image.Noise
import ImagePipeline.Proofs.Image.Vignette

/-!
# Darker images

An image is no brighter than another one of its size if no colour channel of any pixel is.  What
a pixel is turned into by grey, by the factor of its place or by an offset grows with its colours,
so images in other colours are ordered as the images from before are, and regions of them as well.

## Main definitions

* `Image.Dimmer` — an image is nowhere brighter than another one.

## Main results

* `Vignette.exists_toRat?_brightness` — the factors of images of any extents lie between zero and
  one.
* `Image.Dimmer.recolour`, `Image.Dimmer.cut` — what keeps the order of images.
-/

namespace ImagePipeline

open Binary64

/-! ### Factors of any extents -/

namespace Vignette

/-- What is left of a number, once its fraction and its sign are cut off, is a number. -/
theorem isFinite_ofNat_floor? (x : Binary64) :
    (ofNat (x.floor?.getD 0).toNat).isFinite = true := by
  cases hfloor : x.floor? with
  | none => rfl
  | some n =>
    have hpart := isFinite_ofInt_of_floor? hfloor
    rw [Option.getD_some]
    rcases Int.le_total 0 n with hn | hn
    · obtain ⟨k, rfl⟩ := Int.eq_ofNat_of_zero_le hn
      simpa [ofInt, ofNat] using hpart
    · rw [Int.toNat_of_nonpos hn]
      rfl

/-- A distance is a number, so only the rounding of its value is left. -/
theorem toRat?_ofNat_distance (x₀ y₀ x₁ y₁ : ℕ) : (ofNat (distance x₀ y₀ x₁ y₁)).toRat? =
    some (rounded (distance x₀ y₀ x₁ y₁ : ℕ)) := by
  obtain ⟨q, hq⟩ := isFinite_iff.mp (isFinite_ofNat_floor? (sqrtNat (distanceSq x₀ y₀ x₁ y₁)))
  have hvalue : (ofNat (distance x₀ y₀ x₁ y₁)).toRat? = some q := hq
  rw [hvalue, eq_rounded_of_toRat? (Nat.cast_nonneg _) hvalue]

/-- Every part of a way is a number, if only an infinity. -/
theorem part_ne_nan {m d : ℕ} {p q : ℚ} (hm : (ofNat m).toRat? = some p)
    (hd : (ofNat d).toRat? = some q) (hp : p ≠ 0) : part m d ≠ .nan := by
  obtain ⟨s, hdifference⟩ := exists_sub_eq_ofRat hm hd
  refine div_ne_nan ?_ hm hp
  rw [hdifference]
  exact ofRat_ne_nan s _

/-- **Factors lie between zero and one**, whatever the extents: a part of the way that is not
is clamped. -/
theorem exists_toRat?_brightness (width height x y : ℕ) :
    ∃ t, (brightness width height x y).toRat? = some t ∧ 0 ≤ t ∧ t ≤ 1 := by
  unfold brightness
  have hreach : (ofNat (reach width height)).toRat? = some (rounded (reach width height : ℕ)) :=
    toRat?_ofNat_distance _ _ _ _
  have hdistance := toRat?_ofNat_distance (width / 2) (height / 2) x y
  generalize reach width height = m at hreach ⊢
  generalize distance (width / 2) (height / 2) x y = d at hdistance ⊢
  rw [factor_eq]
  split
  · exact ⟨1, toRat?_ofNat (by norm_num), zero_le_one, le_rfl⟩
  · next hm =>
    have hpos : 1 ≤ rounded (m : ℚ) := by
      rw [← rounded_one]
      exact rounded_mono zero_le_one (by exact_mod_cast Nat.pos_of_ne_zero hm)
    have hnumber := part_ne_nan hreach hdistance (by linarith)
    obtain ⟨r, hr, hlow, hhigh⟩ := exists_toRat?_clamp (toRat?_ofNat (n := 0) (by norm_num))
      (toRat?_ofNat (n := 1) (by norm_num)) (by norm_num) hnumber
    rw [Nat.cast_zero] at hlow
    rw [Nat.cast_one] at hhigh
    obtain ⟨s, hsquare⟩ := exists_mul_eq_ofRat hr hr
    have hle : r * r ≤ 1 := mul_le_one₀ hhigh hlow hhigh
    refine ⟨rounded (r * r), ?_, rounded_nonneg _, rounded_le_one (mul_self_nonneg r) hle⟩
    rw [hsquare]
    exact toRat?_ofRat_eq_rounded (mul_self_nonneg r) (lt_two_zpow_of_le (by linarith)) s

end Vignette

/-! ### Colours -/

theorem Pixel.colours_le_iff {p q : Pixel} :
    p.colours ≤ q.colours ↔ ∀ c, p.value c ≤ q.value c := by
  constructor
  · rintro ⟨hred, hgreen, hblue⟩ c
    cases c with
    | red => exact hred
    | green => exact hgreen
    | blue => exact hblue
  · intro h
    exact ⟨h .red, h .green, h .blue⟩

namespace Colours

variable {c c' : Colours}

/-- The grey of a brighter colour is no darker. -/
theorem toGrey_le (h : c ≤ c') : c.toGrey ≤ c'.toGrey := by
  obtain ⟨hred, hgreen, hblue⟩ := h
  have hlevel := Luminance.level_mono hred hgreen hblue
  exact ⟨hlevel, hlevel, hlevel⟩

/-- A function that keeps the order of channel values keeps that of colours. -/
theorem map_le {f : UInt8 → UInt8} (hf : ∀ v w, v ≤ w → f v ≤ f w) (h : c ≤ c') :
    c.map f ≤ c'.map f := by
  obtain ⟨hred, hgreen, hblue⟩ := h
  exact ⟨hf _ _ hred, hf _ _ hgreen, hf _ _ hblue⟩

end Colours

/-- Cutting off sums keeps the order of channel values. -/
theorem Noise.shift_mono (offset : ℤ) {v w : UInt8} (h : v ≤ w) :
    shift offset v ≤ shift offset w := by
  have hv := toNat_shift offset v
  have hw := toNat_shift offset w
  rw [UInt8.le_iff_toNat_le] at h ⊢
  omega

/-! ### Images -/

namespace Image

/-- The image `a` is nowhere brighter than the image `b` of the same size, in no colour channel. -/
structure Dimmer (a b : Image) : Prop where
  size_eq : a.size = b.size
  value_le : ∀ x y p q, a.get? x y = some p → b.get? x y = some q → ∀ c, p.value c ≤ q.value c

variable {a b a' b' : Image} {f : ℕ → ℕ → Colours → Colours}

theorem Dimmer.refl (img : Image) : Dimmer img img := by
  refine ⟨rfl, fun x y p q hp hq c => ?_⟩
  obtain rfl : p = q := Option.some.inj (hp.symm.trans hq)
  exact UInt8.le_refl _

/-- **New colours that grow with the old ones keep the order of images.** -/
theorem Dimmer.recolour (h : Dimmer a b) (ha : IsRecoloured f a a') (hb : IsRecoloured f b b')
    (hf : ∀ x y c c', c ≤ c' → f x y c ≤ f x y c') : Dimmer a' b' := by
  refine ⟨by rw [ha.size_eq, hb.size_eq, h.size_eq], fun x y p q hp hq => ?_⟩
  rw [ha.get?_eq] at hp
  rw [hb.get?_eq] at hq
  obtain ⟨p₀, hp₀, rfl⟩ := Option.map_eq_some_iff.mp hp
  obtain ⟨q₀, hq₀, rfl⟩ := Option.map_eq_some_iff.mp hq
  exact Pixel.colours_le_iff.mp
    (hf x y _ _ (Pixel.colours_le_iff.mpr (h.value_le x y p₀ q₀ hp₀ hq₀)))

/-- **Regions are ordered as the images are.** -/
theorem Dimmer.cut {r : Region} (h : Dimmer a b) (ha : IsCut r a a') (hb : IsCut r b b') :
    Dimmer a' b' := by
  have hwidth : a'.width = b'.width := ha.width_eq.trans hb.width_eq.symm
  have hheight : a'.height = b'.height := ha.height_eq.trans hb.height_eq.symm
  exact ⟨Prod.ext hwidth hheight, fun x y p q hp hq =>
    h.value_le _ _ p q (ha.get?_of_get? hp) (hb.get?_of_get? hq)⟩

theorem Dimmer.grey (h : Dimmer a b) : Dimmer a.grey b.grey :=
  h.recolour (isRecoloured_grey a) (isRecoloured_grey b) fun _ _ _ _ => Colours.toGrey_le

theorem Dimmer.vignette (h : Dimmer a b) : Dimmer a.vignette b.vignette := by
  obtain ⟨hwidth, hheight⟩ := Prod.mk.inj h.size_eq
  have hb := isRecoloured_vignette b
  rw [← hwidth, ← hheight] at hb
  refine h.recolour (isRecoloured_vignette a) hb fun x y c c' hc => Colours.map_le ?_ hc
  intro v w hvw
  obtain ⟨t, ht, hlow, hhigh⟩ := Vignette.exists_toRat?_brightness a.width a.height x y
  exact Vignette.darken_mono ht ht hlow le_rfl hhigh hvw

theorem Dimmer.addNoise (h : Dimmer a b) (band : Noise.Band) (d : Noise.Draws) :
    Dimmer (a.addNoise band d).1 (b.addNoise band d).1 := by
  obtain ⟨hwidth, -⟩ := Prod.mk.inj h.size_eq
  have hb := isRecoloured_addNoise band d b
  rw [← hwidth] at hb
  exact h.recolour (isRecoloured_addNoise band d a) hb fun x y c c' =>
    Colours.map_le fun _ _ => Noise.shift_mono _

end Image
end ImagePipeline
