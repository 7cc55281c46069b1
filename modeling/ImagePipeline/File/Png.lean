import ImagePipeline.Image.Basic

/-!
# Writing PNG files

The PNG format without compression: a signature, and chunks for the extents, the
rows and the end.  Every row is a filter byte, which is zero, and the four
channels of its pixels; the rows are cut into stored blocks.  Reading is not
provided.

## Main definitions

* `Png.crc32`, `Png.adler32` — the two checksums of the format.
* `Png.encode` — the bytes of an image.
-/

namespace ImagePipeline

-- `^` is the power of the core library here, whatever else an importer has in scope.
attribute [local instance (high)] instPowNat

namespace Png

/-- A number in four bytes, most significant byte first. -/
def bigEndian (n : Nat) : List UInt8 :=
  [(n / 2 ^ (24 : Nat)).toUInt8, (n / 2 ^ (16 : Nat)).toUInt8, (n / 2 ^ (8 : Nat)).toUInt8,
    n.toUInt8]

/-- One bit of the checksum of chunks. -/
def crcBit (c : UInt32) : UInt32 :=
  if c &&& 1 = 1 then (c >>> 1) ^^^ 0xEDB88320 else c >>> 1

/-- The checksum of chunks. -/
def crc32 (data : List UInt8) : UInt32 :=
  (data.foldl (fun c b => Nat.repeat crcBit 8 (c ^^^ b.toUInt32)) 0xFFFFFFFF) ^^^ 0xFFFFFFFF

/-- The checksum of the rows. -/
def adler32 (data : List UInt8) : Nat :=
  let (a, b) := data.foldl (fun (a, b) v =>
    let a' := (a + v.toNat) % 65521
    (a', (b + a') % 65521)) (1, 0)
  b * 65536 + a

/-- A chunk of a kind. -/
def chunk (kind : String) (data : List UInt8) : List UInt8 :=
  let body := kind.toUTF8.toList ++ data
  bigEndian data.length ++ body ++ bigEndian (crc32 body).toNat

/-- The greatest size of a stored block. -/
def blockLimit : Nat := 65535

/-- A stored block; the flag marks the last one. -/
def block (isLast : Bool) (data : List UInt8) : List UInt8 :=
  let n := data.length
  let inverse := blockLimit - n
  (if isLast then 1 else 0) :: n.toUInt8 :: (n / 256).toUInt8 :: inverse.toUInt8 ::
    (inverse / 256).toUInt8 :: data

/-- Cuts data into stored blocks. -/
def blocks (data : List UInt8) : List UInt8 :=
  if data.length ≤ blockLimit then block true data
  else block false (data.take blockLimit) ++ blocks (data.drop blockLimit)
termination_by data.length
decreasing_by
  simp only [List.length_drop, blockLimit] at *
  omega

/-- The rows of an image with their filter bytes. -/
def rowBytes (img : Image) : List UInt8 :=
  img.rows.flatMap fun row => 0 :: row.flatMap Pixel.channels

/-- The bytes of an image. -/
def encode (img : Image) : List UInt8 :=
  let rows := rowBytes img
  [0x89, 0x50, 0x4E, 0x47, 0x0D, 0x0A, 0x1A, 0x0A] ++
    chunk "IHDR" (bigEndian img.width ++ bigEndian img.height ++ [8, 6, 0, 0, 0]) ++
    chunk "IDAT" ([0x78, 0x01] ++ blocks rows ++ bigEndian (adler32 rows)) ++ chunk "IEND" []

end Png
end ImagePipeline
