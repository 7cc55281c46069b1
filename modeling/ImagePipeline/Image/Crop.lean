import ImagePipeline.Image.Basic
import ImagePipeline.Numeral.Integer

/-!
# Cropping

Cutting a rectangle out of an image.  The rectangle has to lie inside the image
completely.  The cut itself is a slice, which would take any bounds: it counts
negative ones from the end and shortens what reaches beyond the image.

## Main definitions

* `Region` — a rectangle of integers of any sign, and `Region.InLimit`.
* `BoundsError` — why a region cannot be cut out.
* `Region.check` — the check against the extents of an image.
* `sliceBound`, `Image.slice` — slices between bounds of any sign.
* `Image.crop` — the cut.
-/

namespace ImagePipeline

/-- A rectangle: its upper left corner and its extents. -/
structure Region where
  /-- The column of the corner. -/
  x : Int
  /-- The row of the corner. -/
  y : Int
  width : Int
  height : Int
  deriving DecidableEq, Repr

/-- The integers of a region can be written. -/
def Region.InLimit (r : Region) : Prop :=
  Numeral.InLimit r.x ∧ Numeral.InLimit r.y ∧ Numeral.InLimit r.width ∧ Numeral.InLimit r.height

instance (r : Region) : Decidable r.InLimit := inferInstanceAs (Decidable (_ ∧ _ ∧ _ ∧ _))

/-- Why a region cannot be cut out of an image. -/
inductive BoundsError where
  | noPixel (width height : Int)
  /-- The region is not inside an image of the given extents. -/
  | exceeds (region : Region) (width height : Nat)
  /-- An integer that the error would name cannot be written. -/
  | overlong
  deriving DecidableEq, Repr

/-- A region that cannot be cut out asks for places outside, as a coordinate does
that no pixel has. -/
def BoundsError.family : BoundsError → ErrorFamily
  | .overlong => .value
  | _ => .index

/-- A pair of integers in parentheses. -/
def pairText (a b : Int) : String := "(" ++ toString a ++ "," ++ toString b ++ ")"

/-- The wording of a bounds error. -/
def BoundsError.message : BoundsError → String
  | .noPixel width height =>
    "Crop size must be positive, got " ++ toString width ++ "x" ++ toString height
  | .exceeds r width height =>
    "Crop region origin=" ++ pairText r.x r.y ++ " size=" ++ pairText r.width r.height ++
      " exceeds image of size " ++ toString width ++ "x" ++ toString height
  | .overlong => Numeral.overlongMessage

namespace Region

/-- Whether a region has pixels and lies inside an image of the given extents. -/
def Fits (r : Region) (width height : Nat) : Prop :=
  0 < r.width ∧ 0 < r.height ∧ 0 ≤ r.x ∧ 0 ≤ r.y ∧ r.x + r.width ≤ width ∧
    r.y + r.height ≤ height

instance (r : Region) (width height : Nat) : Decidable (r.Fits width height) :=
  inferInstanceAs (Decidable (_ ∧ _ ∧ _ ∧ _ ∧ _ ∧ _))

/-- Why a region cannot be cut out of an image of the given extents, if it
cannot. -/
def check (r : Region) (width height : Nat) : Option BoundsError :=
  if r.width ≤ 0 ∨ r.height ≤ 0 then
    if Numeral.InLimit r.width ∧ Numeral.InLimit r.height then some (.noPixel r.width r.height)
    else some .overlong
  else if r.x < 0 ∨ r.y < 0 ∨ (width : Int) < r.x + r.width ∨ (height : Int) < r.y + r.height then
    if r.InLimit then some (.exceeds r width height) else some .overlong
  else none

/-- The check passes exactly the regions that fit. -/
theorem check_eq_none_iff {r : Region} {width height : Nat} :
    r.check width height = none ↔ r.Fits width height := by
  unfold check Fits
  repeat' split
  all_goals simp; omega

/-- A region that can be written is refused for the places that it asks for. -/
theorem family_of_check {r : Region} {width height : Nat} {e : BoundsError} (h : r.InLimit)
    (he : r.check width height = some e) : e.family = .index := by
  have hextents : Numeral.InLimit r.width ∧ Numeral.InLimit r.height := h.2.2
  unfold check at he
  rw [if_pos hextents, if_pos h] at he
  split at he
  · obtain rfl := Option.some.inj he
    rfl
  · split at he
    · obtain rfl := Option.some.inj he
      rfl
    · exact absurd he (by simp)

end Region

/-- The place among `n` that the bound of a slice stands for: a negative one is
counted from the end, and one that lies outside is moved to the nearer end. -/
def sliceBound (n : Nat) (i : Int) : Nat := if i < 0 then (i + n).toNat else min i.toNat n

/-- A bound that lies inside a row stands for itself. -/
theorem sliceBound_eq {n : Nat} {i : Int} (h₀ : 0 ≤ i) (h₁ : i ≤ n) :
    (sliceBound n i : Int) = i := by
  unfold sliceBound
  split <;> omega

/-- The part of an image between two columns and two rows, each given as the bound
of a slice. -/
def Image.slice (left right top bottom : Int) (img : Image) : Image :=
  let x := sliceBound img.width left
  let y := sliceBound img.height top
  ofFn (sliceBound img.width right - x) (sliceBound img.height bottom - y) fun i j =>
    (img.get? (x + i) (y + j)).getD default

/-- The region of an image, or why there is none. -/
def Image.crop (r : Region) (img : Image) : Except BoundsError Image :=
  match r.check img.width img.height with
  | some e => .error e
  | none => .ok (img.slice r.x (r.x + r.width) r.y (r.y + r.height))

end ImagePipeline
