import ImagePipeline.Image.Luminance

/-!
# Stretching the contrast

The grey levels of an image are spread over the whole range of a channel: the
darkest becomes 0, the brightest 255, and those between keep their proportion.

## Main definitions

* `extremes?` — the least and the greatest of a list of levels.
* `stretchLevel` — a level within given bounds, spread over the range.
* `Image.stretch?` — the image in grey with its contrast stretched; an image
  without pixels has no extremes.
-/

namespace ImagePipeline

/-- The least and the greatest of a list of levels, if there is one. -/
def extremes? : List UInt8 → Option (UInt8 × UInt8)
  | [] => none
  | v :: vs => some (vs.foldl (fun (lo, hi) w => (min lo w, max hi w)) (v, v))

/-- The level `v` within the bounds `lo` and `hi`, spread over the range of a
channel. -/
def stretchLevel (lo hi v : UInt8) : UInt8 :=
  let x := Binary64.ofNat 255 * (Luminance.ofByte v - Luminance.ofByte lo) /
    Binary64.ofNat (hi.toNat - lo.toNat)
  toByte (x.nearestInt?.getD 0)

/-- Spreads the levels of a grey image between given bounds. -/
def Image.spread (lo hi : UInt8) (img : Image) : Image :=
  if lo = hi then img else img.map fun p => .grey (stretchLevel lo hi p.red) p.alpha

/-- The image in grey with its contrast stretched. -/
def Image.stretch? (img : Image) : Option Image :=
  let grey := img.grey
  (extremes? (grey.toList.map Pixel.red)).map fun (lo, hi) => grey.spread lo hi

@[simp] theorem Image.size_spread (lo hi : UInt8) (img : Image) :
    (img.spread lo hi).size = img.size := by
  unfold spread
  split <;> rfl

/-- Stretching keeps the extents. -/
theorem Image.size_of_stretch? {img out : Image} (h : img.stretch? = some out) :
    out.size = img.size := by
  obtain ⟨⟨lo, hi⟩, -, rfl⟩ := Option.map_eq_some_iff.1 h
  simp

end ImagePipeline
