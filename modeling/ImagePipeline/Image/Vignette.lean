import ImagePipeline.Image.Luminance
import ImagePipeline.Image.Storage

/-!
# The vignette

An image is darkened towards its periphery.  The distance of a pixel to the
centre and that of the corner at the origin are cut down to integers; the
brightness of a pixel is the square of the part of the way from the corner to the
centre that it has come.

## Main definitions

* `Vignette.distance` — the integer distance of two places.
* `Vignette.brightness` — the factor of a pixel.
* `Vignette.darken` — a channel value times a factor.
* `Vignette.rows`, `Vignette.rowsOf` — the factors of a whole image.
* `Image.vignette` — the darkened image; alpha stays.
-/

namespace ImagePipeline

-- `^` is the power of the core library here, whatever else an importer has in scope.
attribute [local instance (high)] instPowNat

namespace Vignette

/-- The distance of the places `(x₀, y₀)` and `(x₁, y₁)`, cut down to an
integer. -/
def distance (x₀ y₀ x₁ y₁ : Nat) : Nat :=
  let dx := ((x₀ : Int) - x₁).natAbs
  let dy := ((y₀ : Int) - y₁).natAbs
  ((Binary64.sqrtNat (dx * dx + dy * dy)).floor?.getD 0).toNat

/-- The distance of the corner at the origin to the centre of an image of the
given extents. -/
def reach (width height : Nat) : Nat := distance (width / 2) (height / 2) 0 0

/-- The factor of a place at distance `d`, where the corner is at distance `m`.
If the corner is the centre, nothing is darkened. -/
def factor (m d : Nat) : Binary64 :=
  if m = 0 then .ofNat 1
  else
    let part := ((Binary64.ofNat m - .ofNat d) / .ofNat m).clamp (.ofNat 0) (.ofNat 1)
    part * part

/-- The factor of column `x` in row `y` of an image of the given extents. -/
def brightness (width height x y : Nat) : Binary64 :=
  factor (reach width height) (distance (width / 2) (height / 2) x y)

/-- The factors of an image of the given extents, row by row. -/
def rows (width height : Nat) : List (List Binary64) :=
  (List.range height).map fun y => (List.range width).map fun x => brightness width height x y

/-- Why extents have no factors. -/
inductive ExtentError where
  /-- The square of the distance of the corner to the centre exceeds 64 bits. -/
  | tooFar
  | negative
  | storage (e : StorageError)
  deriving DecidableEq, Repr

/-- The wording of extents without factors. -/
def ExtentError.message : ExtentError → String
  | .tooFar =>
    "loop of ufunc does not support argument 0 of type int which has no callable sqrt method"
  | .negative => "negative dimensions are not allowed"
  | .storage e => e.message

/-- The arrays that the coordinates of all pixels take: one of both coordinates,
and one of every row and column. -/
def coordinates (width height : Nat) : List Storage :=
  [[2, height, width], [height], [width]].map fun shape => ⟨shape, 8, "int64"⟩

/-- The factors of an image of any extents, row by row, if it has some. -/
def rowsOf (width height : Int) : Except ExtentError (List (List Binary64)) :=
  let x := (width / 2).natAbs
  let y := (height / 2).natAbs
  if 2 ^ (64 : Nat) ≤ x * x + y * y then .error .tooFar
  else if width < 0 ∨ height < 0 then .error .negative
  else
    match (coordinates width.toNat height.toNat).findSome? Storage.error? with
    | some e => .error (.storage e)
    | none => .ok (rows width.toNat height.toNat)

/-- A channel value times a factor, cut off to a channel value. -/
def darken (f : Binary64) (v : UInt8) : UInt8 :=
  toByte ((Luminance.ofByte v * f).truncate?.getD 0)

end Vignette

/-- The image darkened towards its periphery. -/
def Image.vignette (img : Image) : Image :=
  let reach := Vignette.reach img.width img.height
  img.mapAt fun x y p =>
    let f := Vignette.factor reach (Vignette.distance (img.width / 2) (img.height / 2) x y)
    p.mapColour (Vignette.darken f)

@[simp] theorem Image.size_vignette (img : Image) : img.vignette.size = img.size := rfl

/-- The view of a darkened image. -/
@[simp] theorem Image.get?_vignette (img : Image) (x y : Nat) :
    img.vignette.get? x y = (img.get? x y).map fun p =>
      p.mapColour (Vignette.darken (Vignette.brightness img.width img.height x y)) :=
  Image.get?_mapAt _ _ _ _

end ImagePipeline
