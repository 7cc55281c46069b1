import ImagePipeline.Image.Basic

/-!
# Bitmap files

The uncompressed form of the BMP format: a header, and the rows of the image from
the last one up, each filled with zeros to a multiple of four bytes.  A pixel is
its three colours, blue first; alpha is not kept.

## Main definitions

* `Bitmap.encode` — the bytes of an image.
* `Bitmap.decode?` — the image of such bytes.
-/

namespace ImagePipeline

-- `^` is the power of the core library here, whatever else an importer has in scope.
attribute [local instance (high)] instPowNat

namespace Bitmap

/-- A number in the given count of bytes, least significant byte first. -/
def littleEndian : Nat → Nat → List UInt8
  | 0, _ => []
  | k + 1, n => n.toUInt8 :: littleEndian k (n / 256)

@[simp] theorem length_littleEndian (k n : Nat) : (littleEndian k n).length = k := by
  induction k generalizing n with
  | zero => rfl
  | succ k ih => rw [littleEndian, List.length_cons, ih]

/-- The number of bytes that fill a row of `width` pixels up. -/
def padding (width : Nat) : Nat := (4 - width * 3 % 4) % 4

/-- The number of bytes in front of the rows. -/
def headerSize : Nat := 54

/-- The header of an image of the given extents. -/
def header (width height : Nat) : List UInt8 :=
  let size := (width * 3 + padding width) * height
  [0x42, 0x4D] ++ littleEndian 4 (headerSize + size) ++ littleEndian 4 0 ++
    littleEndian 4 headerSize ++ littleEndian 4 40 ++ littleEndian 4 width ++
    littleEndian 4 height ++ littleEndian 2 1 ++ littleEndian 2 24 ++ littleEndian 4 0 ++
    littleEndian 4 size ++ littleEndian 4 3780 ++ littleEndian 4 3780 ++ littleEndian 4 0 ++
    littleEndian 4 0

/-- A header is as long as it says. -/
@[simp] theorem length_header (width height : Nat) :
    (header width height).length = headerSize := by
  simp [header, headerSize]

/-- The bytes of a row. -/
def encodeRow (row : List Pixel) : List UInt8 :=
  row.flatMap (fun p => [p.blue, p.green, p.red]) ++ List.replicate (padding row.length) 0

/-- The bytes of an image. -/
def encode (img : Image) : List UInt8 :=
  header img.width img.height ++ img.rows.reverse.flatMap encodeRow

/-- The number in `k` bytes from the place `i` on, least significant byte first. -/
def number (data : Array UInt8) (i : Nat) : Nat → Nat
  | 0 => 0
  | k + 1 => (data.getD i 0).toNat + 256 * number data (i + 1) k

/-- The image of an uncompressed file with three or four bytes for a pixel.  A
negative height means that the rows are stored from the first one down. -/
def decode? (bytes : List UInt8) : Option Image :=
  let data := bytes.toArray
  let start := number data 10 4
  let width := number data 18 4
  let storedHeight := number data 22 4
  let topDown := 2 ^ (31 : Nat) ≤ storedHeight
  let height := if topDown then 2 ^ (32 : Nat) - storedHeight else storedHeight
  let depth := number data 28 2
  let stride := (width * depth + 31) / 32 * 4
  if bytes.take 2 = [0x42, 0x4D] ∧ 40 ≤ number data 14 4 ∧ (depth = 24 ∨ depth = 32) ∧
      number data 30 4 = 0 ∧ 0 < width ∧ 0 < height ∧ start + stride * height ≤ data.size then
    some (Image.ofFn width height fun x y =>
      let row := if topDown then y else height - 1 - y
      let i := start + stride * row + x * (depth / 8)
      ⟨data.getD (i + 2) 0, data.getD (i + 1) 0, data.getD i 0, 255⟩)
  else none

end Bitmap
end ImagePipeline
