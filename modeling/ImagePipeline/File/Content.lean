import ImagePipeline.File.Bitmap
import ImagePipeline.File.Png
import ImagePipeline.Image.Creation
import ImagePipeline.Text.Utf8

/-!
# File contents

What a file holds: plain bytes, or a picture in one of the supported formats.  A
picture is its format together with the image that reading it back gives.  Two of
the formats have an encoder; where the bytes of a picture of the others are asked
for, they are the signature of the format and the channels of the pixels.

## Main definitions

* `Format` — the formats, and `Format.ofName?`, the format of a file type.
* `Format.encode?` — the bytes of a picture, for the formats with an encoder.
* `Content` — what a file holds.
* `Content.ofImage`, `Content.image?` — writing and reading a picture.
* `Content.ofBytes`, `Content.toBytes` — the bytes of a file.
-/

namespace ImagePipeline

/-- The picture formats. -/
inductive Format where
  /-- Keeps all four channels. -/
  | png
  /-- Keeps the three colours. -/
  | bmp
  /-- Keeps the extents and comes near the colours. -/
  | jpeg
  /-- Keeps the extents and comes near the colours. -/
  | gif
  deriving DecidableEq, Repr

namespace Format

/-- The file types that can be read and written, in the order they are listed
in. -/
def fileTypes : List String := ["png", "bmp", "jpg", "jpeg", "gif"]

/-- The format of a file type. -/
def ofName? (name : String) : Option Format :=
  if name = "png" then some .png
  else if name = "bmp" then some .bmp
  else if name = "jpg" then some .jpeg
  else if name = "jpeg" then some .jpeg
  else if name = "gif" then some .gif
  else none

/-- Exactly the listed file types have a format. -/
theorem ofName?_isSome_iff {name : String} : (ofName? name).isSome ↔ name ∈ fileTypes := by
  unfold ofName? fileTypes
  repeat' split
  all_goals simp_all

/-- The bytes that a file of the format starts with. -/
def signature : Format → List UInt8
  | .png => [0x89, 0x50, 0x4E, 0x47, 0x0D, 0x0A, 0x1A, 0x0A]
  | .bmp => [0x42, 0x4D]
  | .jpeg => [0xFF, 0xD8, 0xFF]
  | .gif => [0x47, 0x49, 0x46, 0x38, 0x37, 0x61]

/-- Whether a format keeps alpha. -/
def keepsAlpha : Format → Bool
  | .png => true
  | .gif => true
  | _ => false

/-- The image that reading a picture back gives. -/
def stored (f : Format) (img : Image) : Image := if f.keepsAlpha then img else img.withoutAlpha

/-- The bytes of a picture, for the formats with an encoder. -/
def encode? : Format → Image → Option (List UInt8)
  | .png, img => some (Png.encode img)
  | .bmp, img => some (Bitmap.encode img)
  | _, _ => none

/-- Writing a picture as PNG keeps every pixel. -/
@[simp] theorem stored_png (img : Image) : stored .png img = img := rfl

end Format

/-- What a file holds. -/
inductive Content where
  /-- Bytes that are no picture. -/
  | bytes (data : List UInt8)
  /-- A picture, as reading it back gives it. -/
  | picture (format : Format) (image : Image)
  deriving DecidableEq

namespace Content

/-- The content of a text file. -/
def ofText (s : String) : Content := .bytes (Utf8.encode s.toList)

/-- The content of a picture file. -/
def ofImage (f : Format) (img : Image) : Content := .picture f (f.stored img)

/-- The image of a picture file. -/
def image? : Content → Option Image
  | .bytes _ => none
  | .picture _ img => some img

/-- The content of a file with the given bytes. -/
def ofBytes (data : List UInt8) : Content :=
  match Bitmap.decode? data with
  | some img => .picture .bmp img
  | none => .bytes data

/-- The bytes of a file. -/
def toBytes : Content → List UInt8
  | .bytes data => data
  | .picture f img =>
    (f.encode? img).getD (f.signature ++ img.toList.flatMap Pixel.channels)

/-- The number of bytes of a file. -/
def size (c : Content) : Nat := c.toBytes.length

@[simp] theorem image?_ofImage (f : Format) (img : Image) :
    (ofImage f img).image? = some (f.stored img) := rfl

end Content
end ImagePipeline
