import ImagePipeline.Image.Basic
import ImagePipeline.Binary64.Arithmetic

/-!
# Luminance

The brightness of a colour as the eye weighs its parts, after ITU-R BT.709, and
the conversion of an image to grey.

## Main definitions

* `Luminance.ofColour` — the weighted sum of three channels, in binary64.
* `Luminance.level` — the luminance as a channel value.
* `Image.grey` — the image in grey; alpha stays.
-/

namespace ImagePipeline
namespace Luminance

/-- The weight of red. -/
def redWeight : Binary64 := .ofRat false (2126 / 10000)

/-- The weight of green. -/
def greenWeight : Binary64 := .ofRat false (7152 / 10000)

/-- The weight of blue. -/
def blueWeight : Binary64 := .ofRat false (722 / 10000)

/-- A channel value as a number. -/
def ofByte (b : UInt8) : Binary64 := .ofNat b.toNat

/-- The luminance of a colour. -/
def ofColour (r g b : UInt8) : Binary64 :=
  redWeight * ofByte r + greenWeight * ofByte g + blueWeight * ofByte b

/-- The luminance of a colour, to the nearest channel value. -/
def level (r g b : UInt8) : UInt8 := toByte ((ofColour r g b).nearestInt?.getD 0)

end Luminance

/-- The pixel in grey. -/
def Pixel.toGrey (p : Pixel) : Pixel := .grey (Luminance.level p.red p.green p.blue) p.alpha

/-- The image in grey. -/
def Image.grey (img : Image) : Image := img.map Pixel.toGrey

@[simp] theorem Pixel.alpha_toGrey (p : Pixel) : p.toGrey.alpha = p.alpha := rfl

@[simp] theorem Image.size_grey (img : Image) : img.grey.size = img.size := rfl

/-- The view of a grey image. -/
@[simp] theorem Image.get?_grey (img : Image) (x y : Nat) :
    img.grey.get? x y = (img.get? x y).map Pixel.toGrey := Image.get?_map _ _ _ _

end ImagePipeline
