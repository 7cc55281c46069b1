import ImagePipeline.Image.Basic
import ImagePipeline.Numeral.Integer

/-!
# Colours and single pixels

Reading and painting one pixel.  A colour is a list of numbers as a caller gives
them: three numbers are a colour without alpha and are painted with alpha 255,
four name all channels, one fills them.  Four numbers are stored one after
another, so that those in front of a refused one stay stored; in every other case
the whole colour is converted before anything is stored.

## Main definitions

* `PaintError` — why a pixel cannot be read or painted, and `PaintError.family`.
* `channel?` — a number as the value of a channel.
* `Image.pixelAt` — the pixel at a coordinate of any sign.
* `Image.paint` — paints a pixel: the image afterwards, and the error if any.
-/

namespace ImagePipeline

-- `^` is the power of the core library here, whatever else an importer has in scope.
attribute [local instance (high)] instPowNat

/-- Why a pixel cannot be read or painted. -/
inductive PaintError where
  /-- The coordinate lies outside an image of the given extents. -/
  | outside (x y : Int) (width height : Nat)
  /-- The coordinate lies outside, and cannot be written. -/
  | overlong
  /-- A number is no channel value. -/
  | channel (value : Int)
  /-- A colour of the given number of entries fits no pixel of a target of the
  given shape. -/
  | entries (count : Nat) (target : List Nat)
  deriving DecidableEq, Repr

/-- The family of a paint error. -/
def PaintError.family : PaintError → ErrorFamily
  | .outside .. => .index
  | .overlong => .value
  | .channel _ => .overflow
  | .entries .. => .value

/-- Whether an integer fits a signed word of 64 bits. -/
def fitsWord (n : Int) : Bool := -2 ^ (63 : Nat) ≤ n && n < 2 ^ (63 : Nat)

/-- The wording of a paint error. -/
def PaintError.message : PaintError → String
  | .outside x y width height =>
    "Pixel (" ++ toString x ++ "," ++ toString y ++ ") out of bounds for image of size " ++
      toString width ++ "x" ++ toString height
  | .overlong => Numeral.overlongMessage
  | .channel value =>
    if fitsWord value then "Python integer " ++ toString value ++ " out of bounds for uint8"
    else "Python int too large to convert to C long"
  | .entries count target =>
    "could not broadcast input array from shape (" ++ toString count ++ ",) into shape (" ++
      String.intercalate "," (target.map toString) ++ (if target.length = 1 then ",)" else ")")

/-- A number as the value of a channel. -/
def channel? (n : Int) : Option UInt8 := if 0 ≤ n ∧ n ≤ 255 then some n.toNat.toUInt8 else none

/-- A channel value has the number it was made from. -/
theorem channel?_eq_some {n : Int} {b : UInt8} (h : channel? n = some b) : (b.toNat : Int) = n := by
  unfold channel? at h
  split at h
  · next hn =>
    obtain rfl := Option.some.inj h
    have hlt : n.toNat < 256 := by omega
    simp only [Nat.toUInt8, UInt8.toNat_ofNat', Nat.reducePow, Nat.mod_eq_of_lt hlt]
    omega
  · exact absurd h (by simp)

/-- Converts a whole colour, or names its first entry that is no channel
value. -/
def channels? : List Int → Except PaintError (List UInt8)
  | [] => .ok []
  | n :: ns =>
    match channel? n with
    | none => .error (.channel n)
    | some b =>
      match channels? ns with
      | .error e => .error e
      | .ok bs => .ok (b :: bs)

/-- A colour of three entries with alpha 255 added; every other one as it is. -/
def withAlpha (colour : List Int) : List Int :=
  if colour.length = 3 then colour ++ [255] else colour

namespace Pixel

/-- Stores four numbers into a pixel one after another, up to the first that is no
channel value. -/
def store (old : Pixel) (r g b a : Int) : Pixel × Option PaintError :=
  match channel? r with
  | none => (old, some (.channel r))
  | some r' =>
    match channel? g with
    | none => (⟨r', old.green, old.blue, old.alpha⟩, some (.channel g))
    | some g' =>
      match channel? b with
      | none => (⟨r', g', old.blue, old.alpha⟩, some (.channel b))
      | some b' =>
        match channel? a with
        | none => (⟨r', g', b', old.alpha⟩, some (.channel a))
        | some a' => (⟨r', g', b', a'⟩, none)

/-- Paints a pixel with a colour: the pixel afterwards, and the error if any. -/
def paint (old : Pixel) (colour : List Int) : Pixel × Option PaintError :=
  match withAlpha colour with
  | [r, g, b, a] => old.store r g b a
  | entries =>
    match channels? entries with
    | .error e => (old, some e)
    | .ok [v] => (⟨v, v, v, v⟩, none)
    | .ok _ => (old, some (.entries entries.length [4]))

end Pixel

namespace Image

/-- Whether a coordinate lies inside the image. -/
def contains (img : Image) (x y : Int) : Bool :=
  0 ≤ x && x < img.width && 0 ≤ y && y < img.height

/-- The error of a coordinate outside an image. -/
def outsideError (img : Image) (x y : Int) : PaintError :=
  if Numeral.InLimit x ∧ Numeral.InLimit y then .outside x y img.width img.height else .overlong

/-- The pixel at a coordinate of any sign, counted from the upper left corner. -/
def pixelAt (img : Image) (x y : Int) : Except PaintError Pixel :=
  if img.contains x y then
    match img.get? x.toNat y.toNat with
    | some p => .ok p
    | none => .error (img.outsideError x y)
  else .error (img.outsideError x y)

/-- Paints the pixel at a coordinate with a colour: the image afterwards, and the
error if any. -/
def paint (img : Image) (x y : Int) (colour : List Int) : Image × Option PaintError :=
  match img.pixelAt x y with
  | .error e => (img, some e)
  | .ok old =>
    let (p, e) := old.paint colour
    (img.set x.toNat y.toNat p, e)

/-- Painting keeps the extents. -/
@[simp] theorem size_paint (img : Image) (x y : Int) (colour : List Int) :
    (img.paint x y colour).1.size = img.size := by
  unfold paint
  split <;> rfl

end Image
end ImagePipeline
