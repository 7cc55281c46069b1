import ImagePipeline.Image.Paint
import ImagePipeline.Image.Storage
import ImagePipeline.Numeral.Integer

/-!
# Making images

The sources an image can be made from besides files: extents with a background
colour, a raster of numbers with a shape, and raw bytes in one of five pixel
arrangements.

## Main definitions

* `Extent` — an extent as a caller gives it, and `Extent.toInt`.
* `CreationError` — why no image can be made.
* `Image.ofColour`, `Image.blank`, `Image.create` — an image of one colour.
* `Raster`, `Image.ofRaster` — numbers with a shape.
* `Arrangement`, `Image.ofBytes` — raw bytes.
-/

namespace ImagePipeline

/-- An extent as a caller gives it. -/
inductive Extent where
  | whole (n : Int)
  | real (x : Binary64)
  | text (s : String)
  /-- A value that is no number, with the name of its kind. -/
  | other (kind : String)
  deriving DecidableEq

/-- Why no image can be made. -/
inductive CreationError where
  | noSource
  | missingExtent
  /-- An extent is a text that is no integer. -/
  | extentText (e : Numeral.IntegerError)
  /-- An extent is not a finite number; the flag says whether it is infinite. -/
  | extentNotFinite (infinite : Bool)
  | extentKind (kind : String)
  | invalidSize (width height : Int)
  | storage (e : StorageError)
  | background (e : PaintError)
  | elementType (name : String)
  /-- A raster has a shape that is no image's. -/
  | shape (dims : List Nat)
  | unsupported (kind : String)
  deriving DecidableEq

/-- The wording of a creation error. -/
def CreationError.message : CreationError → String
  | .noSource => "Either a source or a size has to be provided"
  | .missingExtent => "tuple index out of range"
  | .extentText e => e.message
  | .extentNotFinite true => "cannot convert float infinity to integer"
  | .extentNotFinite false => "cannot convert float NaN to integer"
  | .extentKind kind =>
    "int() argument must be a string, a bytes-like object or a real number, not '" ++ kind ++ "'"
  | .invalidSize width height =>
    if Numeral.InLimit width ∧ Numeral.InLimit height then
      "Invalid image size " ++ toString width ++ "x" ++ toString height
    else Numeral.overlongMessage
  | .storage e => e.message
  | .background e => e.message
  | .elementType name => "Expected uint8 dtype, got " ++ name
  | .shape dims =>
    "Expected image (H, W), (H, W, 3) or (H, W, 4), got shape " ++ tupleText dims
  | .unsupported kind => "Unsupported image source: " ++ kind

/-- An extent as an integer: a fraction is cut off, a text is read. -/
def Extent.toInt : Extent → Except CreationError Int
  | .whole n => .ok n
  | .real x =>
    match x.truncate? with
    | some n => .ok n
    | none => .error (.extentNotFinite (x != .nan))
  | .text s =>
    match Numeral.readInteger s.toList with
    | .ok n => .ok n
    | .error e => .error (.extentText e)
  | .other kind => .error (.extentKind kind)

namespace Image

/-! ### One colour -/

/-- The image of the given extents in which every pixel is `p`. -/
def fill (width height : Nat) (p : Pixel) : Image := ofFn width height fun _ _ => p

/-- The memory that the pixels of an image take. -/
def storage (width height : Nat) : Storage := ⟨[height, width, 4], 1, "uint8"⟩

/-- An image of one colour, given by its entries. -/
def ofColour (width height : Nat) (entries : List Int) : Except CreationError Image :=
  match channels? entries with
  | .error e => .error (.background e)
  | .ok [r, g, b, a] => .ok (fill width height ⟨r, g, b, a⟩)
  | .ok [v] => .ok (fill width height ⟨v, v, v, v⟩)
  | .ok _ => .error (.background (.entries entries.length [height, width, 4]))

/-- An image of one colour, which is black if none is given. -/
def blank (width height : Int) (colour : Option (List Int)) : Except CreationError Image :=
  if width < 1 ∨ height < 1 then .error (.invalidSize width height)
  else
    match (storage width.toNat height.toNat).error? with
    | some e => .error (.storage e)
    | none => ofColour width.toNat height.toNat (withAlpha (colour.getD [0, 0, 0]))

/-- An image of one colour, whose extents are as a caller gives them. -/
def create (extents : Option (List Extent)) (colour : Option (List Int)) :
    Except CreationError Image :=
  match extents with
  | none => .error .noSource
  | some [] => .error .missingExtent
  | some (w :: r) => do
    let width ← w.toInt
    match r with
    | [] => .error .missingExtent
    | h :: _ => do
      let height ← h.toInt
      blank width height colour

/-! ### Rasters -/

end Image

/-- Numbers with a shape, the last dimension running fastest. -/
structure Raster where
  elementType : String
  shape : List Nat
  entry : Nat → UInt8

namespace Image

/-- The image of a raster: rows and columns of grey levels, or with a third
dimension of three colours, or of four channels. -/
def ofRaster (r : Raster) : Except CreationError Image :=
  if r.elementType ≠ "uint8" then .error (.elementType r.elementType)
  else
    match r.shape with
    | [h, w] => .ok (ofFn w h fun x y => .grey (r.entry (y * w + x)) 255)
    | [h, w, 3] =>
      .ok (ofFn w h fun x y =>
        let i := (y * w + x) * 3
        ⟨r.entry i, r.entry (i + 1), r.entry (i + 2), 255⟩)
    | [h, w, 4] =>
      .ok (ofFn w h fun x y =>
        let i := (y * w + x) * 4
        ⟨r.entry i, r.entry (i + 1), r.entry (i + 2), r.entry (i + 3)⟩)
    | dims => .error (.shape dims)

/-- The image with the colours of another one and alpha 255. -/
def withoutAlpha (img : Image) : Image := img.map fun p => ⟨p.red, p.green, p.blue, 255⟩

end Image

/-! ### Raw bytes -/

/-- The arrangements of raw pixel bytes. -/
inductive Arrangement where
  /-- One bit a pixel, the first pixel of eight in the highest bit; every row
  starts a new byte. -/
  | bits
  | grey
  | greyAlpha
  | colours
  | coloursAlpha
  deriving DecidableEq, Repr

namespace Image

/-- The image of raw bytes in the given arrangement. -/
def ofBytes (a : Arrangement) (width height : Nat) (byte : Nat → UInt8) : Image :=
  ofFn width height fun x y =>
    let i := y * width + x
    match a with
    | .bits =>
      let b := byte (y * ((width + 7) / 8) + x / 8)
      .grey (if b.toNat.testBit (7 - x % 8) then 255 else 0) 255
    | .grey => .grey (byte i) 255
    | .greyAlpha => .grey (byte (2 * i)) (byte (2 * i + 1))
    | .colours => ⟨byte (3 * i), byte (3 * i + 1), byte (3 * i + 2), 255⟩
    | .coloursAlpha => ⟨byte (4 * i), byte (4 * i + 1), byte (4 * i + 2), byte (4 * i + 3)⟩

end Image
end ImagePipeline
