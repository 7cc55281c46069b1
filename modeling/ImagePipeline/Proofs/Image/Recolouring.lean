import ImagePipeline.Image.Creation
import ImagePipeline.Image.Noise
import ImagePipeline.Image.Stretch
import ImagePipeline.Image.Vignette
import Mathlib.Data.Int.Notation
import Mathlib.Data.Nat.Notation

/-!
# Images in other colours

Grey, stretched, darkened and noisy images are the same image in other colours: every pixel
keeps its place and its alpha, and its new colours are a function of its place and of its
old colours.  The function may depend on the colours of the whole image, but not on alpha.

## Main definitions

* `Pixel.colours`, `Pixel.ofColours` — the colours of a pixel beside its alpha.
* `Image.IsRecoloured` — an image is another one in other colours.
* `Image.SameColours` — two images differ in alpha only.
* `Image.CarriesAlpha` — an image has the alpha of another one from a corner on.

## Main results

* `isRecoloured_grey`, `isRecoloured_spread_grey`, `isRecoloured_vignette`,
  `isRecoloured_addNoise` — what the images of nodes show.
* `IsRecoloured.carriesAlpha`, `SameColours.recolour` — what all of them have in common.
-/

namespace ImagePipeline

/-- The red, the green and the blue part of a colour. -/
abbrev Colours := UInt8 × UInt8 × UInt8

/-- Applies a function to the three parts of a colour. -/
def Colours.map (f : UInt8 → UInt8) (c : Colours) : Colours := (f c.1, f c.2.1, f c.2.2)

/-- The grey of a level. -/
def Colours.grey (v : UInt8) : Colours := (v, v, v)

/-- The grey of the luminance of a colour. -/
def Colours.toGrey (c : Colours) : Colours := .grey (Luminance.level c.1 c.2.1 c.2.2)

namespace Pixel

/-- The colours of a pixel. -/
def colours (p : Pixel) : Colours := (p.red, p.green, p.blue)

/-- The pixel of given colours and alpha. -/
def ofColours (c : Colours) (alpha : UInt8) : Pixel := ⟨c.1, c.2.1, c.2.2, alpha⟩

end Pixel

namespace Image

/-- The image `out` is the image `img` in other colours, given by column, row and the colours
from before. -/
structure IsRecoloured (f : ℕ → ℕ → Colours → Colours) (img out : Image) : Prop where
  size_eq : out.size = img.size
  get?_eq : ∀ x y, out.get? x y = (img.get? x y).map fun p => .ofColours (f x y p.colours) p.alpha

/-- Two images of one size have the same colours, whatever their alpha. -/
structure SameColours (a b : Image) : Prop where
  size_eq : a.size = b.size
  colours_eq : ∀ x y, (a.get? x y).map Pixel.colours = (b.get? x y).map Pixel.colours

/-- The pixels of the image `out` have the alpha of those of `img` from column `x` and row `y`
on, which are all there. -/
def CarriesAlpha (x y : ℕ) (img out : Image) : Prop :=
  ∀ i j p, out.get? i j = some p → ∃ q, img.get? (x + i) (y + j) = some q ∧ q.alpha = p.alpha

variable {img out a b a' b' : Image} {f : ℕ → ℕ → Colours → Colours}

/-! ### The images of nodes -/

theorem isRecoloured_grey (img : Image) : IsRecoloured (fun _ _ => Colours.toGrey) img img.grey :=
  ⟨size_grey img, fun x y => get?_grey img x y⟩

/-- The colour of a grey level that is spread between bounds; equal bounds leave it. -/
def spreadColours (lo hi : UInt8) (c : Colours) : Colours :=
  if lo = hi then c else .grey (stretchLevel lo hi c.1)

theorem isRecoloured_spread (lo hi : UInt8) (img : Image) :
    IsRecoloured (fun _ _ => spreadColours lo hi) img (img.spread lo hi) := by
  refine ⟨size_spread lo hi img, fun x y => ?_⟩
  unfold spread spreadColours
  by_cases h : lo = hi
  · simp only [h, if_true]
    cases img.get? x y <;> rfl
  · simp only [h, if_false, get?_map]
    rfl

/-- The levels of an image, row by row. -/
def levels (img : Image) : List UInt8 := img.grey.toList.map Pixel.red

/-- A stretched image is the grey image, spread between its extremes. -/
theorem stretch?_eq (img : Image) :
    img.stretch? = (extremes? img.levels).map fun e => img.grey.spread e.1 e.2 := rfl

theorem isRecoloured_vignette (img : Image) :
    IsRecoloured (fun x y => Colours.map (Vignette.darken
      (Vignette.brightness img.width img.height x y))) img img.vignette :=
  ⟨size_vignette img, fun x y => get?_vignette img x y⟩

/-- The offset of a pixel of an image with the given number of columns. -/
def noiseOffset (b : Noise.Band) (d : Noise.Draws) (width x y : ℕ) : ℤ :=
  if b.isEmpty then b.low else d.offset b (y * width + x)

theorem isRecoloured_addNoise (b : Noise.Band) (d : Noise.Draws) (img : Image) :
    IsRecoloured (fun x y => Colours.map (Noise.shift (noiseOffset b d img.width x y))) img
      (img.addNoise b d).1 := by
  refine ⟨size_addNoise b d img, fun x y => ?_⟩
  unfold addNoise noiseOffset
  split
  · exact get?_map _ _ _ _
  · exact get?_mapAt _ _ _ _

/-! ### What they have in common -/

theorem IsRecoloured.trans {g : ℕ → ℕ → Colours → Colours} (h : IsRecoloured f img a)
    (h' : IsRecoloured g a out) : IsRecoloured (fun x y c => g x y (f x y c)) img out := by
  refine ⟨h'.size_eq.trans h.size_eq, fun x y => ?_⟩
  rw [h'.get?_eq, h.get?_eq, Option.map_map]
  rfl

theorem isRecoloured_spread_grey (lo hi : UInt8) (img : Image) :
    IsRecoloured (fun _ _ c => spreadColours lo hi c.toGrey) img (img.grey.spread lo hi) :=
  (isRecoloured_grey img).trans (isRecoloured_spread lo hi img.grey)

/-- **An image in other colours keeps its alpha.** -/
theorem IsRecoloured.carriesAlpha (h : IsRecoloured f img out) : CarriesAlpha 0 0 img out := by
  intro i j p hp
  rw [h.get?_eq] at hp
  obtain ⟨q, hq, rfl⟩ := Option.map_eq_some_iff.mp hp
  exact ⟨q, by rwa [Nat.zero_add, Nat.zero_add], rfl⟩

theorem CarriesAlpha.refl (img : Image) : CarriesAlpha 0 0 img img := fun i j p hp =>
  ⟨p, by rwa [Nat.zero_add, Nat.zero_add], rfl⟩

theorem CarriesAlpha.trans {x y x' y' : ℕ} (h : CarriesAlpha x y img a)
    (h' : CarriesAlpha x' y' a out) : CarriesAlpha (x + x') (y + y') img out := by
  intro i j p hp
  obtain ⟨q, hq, hqp⟩ := h' i j p hp
  obtain ⟨r, hr, hrq⟩ := h _ _ q hq
  exact ⟨r, by rwa [Nat.add_assoc, Nat.add_assoc], hrq.trans hqp⟩

theorem SameColours.refl (img : Image) : SameColours img img := ⟨rfl, fun _ _ => rfl⟩

/-- **Alpha has no part in the new colours.** -/
theorem SameColours.recolour (h : SameColours a b) (ha : IsRecoloured f a a')
    (hb : IsRecoloured f b b') : SameColours a' b' := by
  refine ⟨by rw [ha.size_eq, hb.size_eq, h.size_eq], fun x y => ?_⟩
  rw [ha.get?_eq, hb.get?_eq, Option.map_map, Option.map_map]
  -- both sides are a function of the colours from before
  have hcolours := congrArg (Option.map (f x y)) (h.colours_eq x y)
  rwa [Option.map_map, Option.map_map] at hcolours

theorem SameColours.withoutAlpha_eq (h : SameColours a b) : a.withoutAlpha = b.withoutAlpha := by
  obtain ⟨hwidth, hheight⟩ := Prod.mk.inj h.size_eq
  refine ext_get? hwidth hheight fun x y _ _ => ?_
  have hcolours := congrArg (Option.map fun c => Pixel.ofColours c 255) (h.colours_eq x y)
  rw [Option.map_map, Option.map_map] at hcolours
  unfold withoutAlpha
  rw [get?_map, get?_map]
  exact hcolours

/-- Images of the same colours have the same levels. -/
theorem SameColours.levels_eq (h : SameColours a b) : a.levels = b.levels := by
  have hlevels : ∀ img : Image, img.levels = img.withoutAlpha.levels := by
    intro img
    simp [levels, grey, withoutAlpha, map, toList, Pixel.toGrey, Pixel.grey]
  rw [hlevels a, hlevels b, h.withoutAlpha_eq]

end Image
end ImagePipeline
