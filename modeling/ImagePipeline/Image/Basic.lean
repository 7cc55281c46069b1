/-!
# Images

An image is a rectangle of pixels with a red, a green, a blue and an alpha
channel of one byte each, stored row by row.  Either extent may be zero.

## Main definitions

* `Pixel`, `Image` — the types.
* `ErrorFamily` — the families of errors about them.
* `Image.get?` — the pixel in a column and row, the view that all statements
  about images are made in.
* `Image.ofFn`, `Image.map`, `Image.mapAt`, `Image.set` — the ways of making
  images, each with the lemma that says what `get?` sees afterwards.
* `Image.ext_get?` — two images with the same extents and the same view are
  equal.
* `Image.describe` — the size in words.
-/

namespace ImagePipeline

/-- A pixel: three colour channels and the alpha channel. -/
structure Pixel where
  red : UInt8
  green : UInt8
  blue : UInt8
  /-- The alpha channel, 255 where nothing shines through. -/
  alpha : UInt8
  deriving DecidableEq, Repr, Inhabited

namespace Pixel

/-- The grey pixel of one level. -/
def grey (level alpha : UInt8) : Pixel := ⟨level, level, level, alpha⟩

/-- Applies a function to the three colour channels and keeps alpha. -/
def mapColour (f : UInt8 → UInt8) (p : Pixel) : Pixel := ⟨f p.red, f p.green, f p.blue, p.alpha⟩

/-- The four channels in order. -/
def channels (p : Pixel) : List UInt8 := [p.red, p.green, p.blue, p.alpha]

@[simp] theorem alpha_grey (v a : UInt8) : (grey v a).alpha = a := rfl

@[simp] theorem alpha_mapColour (f : UInt8 → UInt8) (p : Pixel) :
    (p.mapColour f).alpha = p.alpha := rfl

end Pixel

/-- The families of errors about images that callers tell apart. -/
inductive ErrorFamily where
  /-- A place outside an image is asked for. -/
  | index
  | value
  /-- A number is too large or too small for where it goes. -/
  | overflow
  deriving DecidableEq, Repr

/-- An image: its extents and its pixels, row by row. -/
structure Image where
  width : Nat
  height : Nat
  pixels : Array Pixel
  /-- There is one pixel for every column of every row. -/
  size_pixels : pixels.size = width * height
  deriving DecidableEq, Repr

namespace Image

/-- The place of column `x` in row `y` lies among the pixels. -/
theorem index_lt {width height x y : Nat} (hx : x < width) (hy : y < height) :
    y * width + x < width * height := by
  calc y * width + x < y * width + width := by omega
    _ = (y + 1) * width := by rw [Nat.add_mul, Nat.one_mul]
    _ ≤ height * width := Nat.mul_le_mul_right _ hy
    _ = width * height := Nat.mul_comm _ _

theorem index_mod {width x y : Nat} (hx : x < width) : (y * width + x) % width = x := by
  rw [Nat.add_comm, Nat.add_mul_mod_self_right, Nat.mod_eq_of_lt hx]

theorem index_div {width x y : Nat} (hx : x < width) : (y * width + x) / width = y := by
  rw [Nat.add_comm, Nat.add_mul_div_right _ _ (by omega), Nat.div_eq_of_lt hx, Nat.zero_add]

/-- The image without pixels. -/
def empty : Image := ⟨0, 0, #[], rfl⟩

instance : Inhabited Image := ⟨empty⟩

/-- The extents of an image: columns, then rows. -/
def size (img : Image) : Nat × Nat := (img.width, img.height)

/-- Whether an image has no pixel. -/
def isEmpty (img : Image) : Bool := img.width * img.height == 0

/-- The pixel in column `x` of row `y`, if the image has one there. -/
def get? (img : Image) (x y : Nat) : Option Pixel :=
  if x < img.width then img.pixels[y * img.width + x]? else none

/-- The image of the given extents whose pixels are given by column and row. -/
def ofFn (width height : Nat) (f : Nat → Nat → Pixel) : Image :=
  ⟨width, height, Array.ofFn fun i : Fin (width * height) => f (i.val % width) (i.val / width),
    Array.size_ofFn⟩

/-- Applies a function to every pixel. -/
def map (f : Pixel → Pixel) (img : Image) : Image :=
  ⟨img.width, img.height, img.pixels.map f, by rw [Array.size_map, img.size_pixels]⟩

/-- Applies a function of column, row and pixel to every pixel. -/
def mapAt (f : Nat → Nat → Pixel → Pixel) (img : Image) : Image :=
  ⟨img.width, img.height, img.pixels.mapIdx fun i p => f (i % img.width) (i / img.width) p,
    by rw [Array.size_mapIdx, img.size_pixels]⟩

/-- Puts a pixel into column `x` of row `y`; outside the image nothing changes. -/
def set (img : Image) (x y : Nat) (p : Pixel) : Image :=
  ⟨img.width, img.height,
    if x < img.width then img.pixels.setIfInBounds (y * img.width + x) p else img.pixels,
    by split <;> simp [img.size_pixels]⟩

/-- The pixels as a list, row by row. -/
def toList (img : Image) : List Pixel := img.pixels.toList

/-- The pixels as a list of rows. -/
def rows (img : Image) : List (List Pixel) :=
  (List.range img.height).map fun y => (img.toList.drop (y * img.width)).take img.width

/-- The size of an image in words. -/
def describe (img : Image) : String :=
  "Image (RGBA " ++ toString img.width ++ "x" ++ toString img.height ++ ")"

/-! ### What the view sees -/

@[simp] theorem width_ofFn (w h : Nat) (f : Nat → Nat → Pixel) : (ofFn w h f).width = w := rfl
@[simp] theorem height_ofFn (w h : Nat) (f : Nat → Nat → Pixel) : (ofFn w h f).height = h := rfl
@[simp] theorem width_map (f : Pixel → Pixel) (img : Image) : (img.map f).width = img.width := rfl
@[simp] theorem height_map (f : Pixel → Pixel) (img : Image) :
    (img.map f).height = img.height := rfl
@[simp] theorem width_mapAt (f : Nat → Nat → Pixel → Pixel) (img : Image) :
    (img.mapAt f).width = img.width := rfl
@[simp] theorem height_mapAt (f : Nat → Nat → Pixel → Pixel) (img : Image) :
    (img.mapAt f).height = img.height := rfl
@[simp] theorem width_set (img : Image) (x y : Nat) (p : Pixel) :
    (img.set x y p).width = img.width := rfl
@[simp] theorem height_set (img : Image) (x y : Nat) (p : Pixel) :
    (img.set x y p).height = img.height := rfl

/-- An image has a pixel exactly inside its extents. -/
theorem get?_isSome_iff {img : Image} {x y : Nat} :
    (img.get? x y).isSome ↔ x < img.width ∧ y < img.height := by
  by_cases hx : x < img.width
  · by_cases hy : y < img.height
    · simp [get?, hx, hy, img.size_pixels, index_lt hx hy]
    · have h := Nat.mul_le_mul_left img.width (Nat.le_of_not_lt hy)
      rw [Nat.mul_comm img.width y] at h
      have h' : ¬y * img.width + x < img.pixels.size := by rw [img.size_pixels]; omega
      simp [get?, hx, hy, h']
  · simp [get?, hx]

theorem get?_eq_none_iff {img : Image} {x y : Nat} :
    img.get? x y = none ↔ ¬(x < img.width ∧ y < img.height) := by
  rw [← get?_isSome_iff]
  cases img.get? x y <;> simp

/-- An image made from a function shows its values. -/
theorem get?_ofFn {w h x y : Nat} (f : Nat → Nat → Pixel) (hx : x < w) (hy : y < h) :
    (ofFn w h f).get? x y = some (f x y) := by
  have h := index_lt hx hy
  simp [get?, ofFn, hx, h, index_mod hx, index_div hx]

/-- A mapped image shows the mapped pixels. -/
@[simp] theorem get?_map (f : Pixel → Pixel) (img : Image) (x y : Nat) :
    (img.map f).get? x y = (img.get? x y).map f := by
  by_cases hx : x < img.width <;> simp [get?, map, hx]

/-- An image mapped by place shows the mapped pixels. -/
@[simp] theorem get?_mapAt (f : Nat → Nat → Pixel → Pixel) (img : Image) (x y : Nat) :
    (img.mapAt f).get? x y = (img.get? x y).map (f x y) := by
  by_cases hx : x < img.width
  · simp [get?, mapAt, hx, index_mod hx, index_div hx]
  · simp [get?, hx]

/-- Two images with the same extents and the same pixel everywhere are equal. -/
theorem ext_get? {a b : Image} (hw : a.width = b.width) (hh : a.height = b.height)
    (h : ∀ x y, x < a.width → y < a.height → a.get? x y = b.get? x y) : a = b := by
  obtain ⟨w, k, p, hp⟩ := a
  obtain ⟨w', k', q, hq⟩ := b
  obtain rfl : w = w' := hw
  obtain rfl : k = k' := hh
  congr 1
  apply Array.ext (hp.trans hq.symm)
  intro i hip hiq
  have hi : i < w * k := hp ▸ hip
  have hw0 : 0 < w := by
    rcases Nat.eq_zero_or_pos w with h0 | h0
    · rw [h0, Nat.zero_mul] at hi; omega
    · exact h0
  have hx : i % w < w := Nat.mod_lt _ hw0
  have hy : i / w < k := (Nat.div_lt_iff_lt_mul hw0).2 (by rw [Nat.mul_comm]; exact hi)
  have hi' : i / w * w + i % w = i := by rw [Nat.mul_comm]; exact Nat.div_add_mod i w
  have := h (i % w) (i / w) hx hy
  simpa [get?, hx, hi', hip, hiq] using this

/-- Setting a pixel is seen at its place and nowhere else. -/
theorem get?_set (img : Image) (x y : Nat) (p : Pixel) (x' y' : Nat) :
    (img.set x y p).get? x' y' =
      if x' = x ∧ y' = y then (img.get? x y).map fun _ => p else img.get? x' y' := by
  by_cases hx : x < img.width
  · by_cases hx' : x' < img.width
    · by_cases e : x' = x ∧ y' = y
      · obtain ⟨rfl, rfl⟩ := e
        simp only [set, hx, if_true, get?, and_self, Array.getElem?_setIfInBounds]
        by_cases h : y' * img.width + x' < img.pixels.size <;> simp [h]
      · have hne : y * img.width + x ≠ y' * img.width + x' := by
          intro heq
          apply e
          have h1 := congrArg (· % img.width) heq
          have h2 := congrArg (· / img.width) heq
          simp only [index_mod hx, index_mod hx', index_div hx, index_div hx'] at h1 h2
          exact ⟨h1.symm, h2.symm⟩
        simp [set, get?, hx, hx', e, Array.getElem?_setIfInBounds_ne hne]
    · have e : ¬(x' = x ∧ y' = y) := by rintro ⟨rfl, rfl⟩; exact hx' hx
      simp [set, get?, hx, hx', e]
  · by_cases e : x' = x ∧ y' = y
    · obtain ⟨rfl, rfl⟩ := e
      simp [set, get?, hx]
    · simp [set, hx, e]

end Image
end ImagePipeline
