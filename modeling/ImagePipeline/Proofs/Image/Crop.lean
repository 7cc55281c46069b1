import ImagePipeline.Image.Crop
import Mathlib.Data.Nat.Notation
import Mathlib.Data.Int.Notation

/-!
# What a crop shows

Cutting a region out of an image, through the view of images: the region has to fit, and the
result shows the pixels of the image from the corner of the region on.

## Main definitions

* `Image.IsCut` — an image is a region of another one.

## Main results

* `Image.slice_of_fits` — the slice of a region that fits.
* `Image.crop_eq_ok_iff` — a crop makes the region, and nothing else.
-/

namespace ImagePipeline
namespace Image

/-- The image `out` is the region `r` of the image `img`. -/
structure IsCut (r : Region) (img out : Image) : Prop where
  fits : r.Fits img.width img.height
  width_eq : out.width = r.width.toNat
  height_eq : out.height = r.height.toNat
  get?_eq : ∀ i j, i < out.width → j < out.height →
    out.get? i j = img.get? (r.x.toNat + i) (r.y.toNat + j)

variable {r : Region} {img out out' : Image}

/-- The pixels of a region that fits lie inside the image. -/
theorem isSome_get?_of_fits (h : r.Fits img.width img.height) {i j : ℕ} (hi : i < r.width.toNat)
    (hj : j < r.height.toNat) : (img.get? (r.x.toNat + i) (r.y.toNat + j)).isSome := by
  unfold Region.Fits at h
  rw [get?_isSome_iff]
  omega

/-- A pixel of a region is a pixel of the image. -/
theorem IsCut.get?_of_get? (h : IsCut r img out) {i j : ℕ} {p : Pixel}
    (hp : out.get? i j = some p) : img.get? (r.x.toNat + i) (r.y.toNat + j) = some p := by
  obtain ⟨hi, hj⟩ := get?_isSome_iff.mp (Option.isSome_of_mem hp)
  rw [← h.get?_eq i j hi hj, hp]

theorem IsCut.unique (h : IsCut r img out) (h' : IsCut r img out') : out = out' := by
  have hwidth : out.width = out'.width := h.width_eq.trans h'.width_eq.symm
  have hheight : out.height = out'.height := h.height_eq.trans h'.height_eq.symm
  refine ext_get? hwidth hheight fun i j hi hj => ?_
  rw [h.get?_eq i j hi hj, h'.get?_eq i j (hwidth ▸ hi) (hheight ▸ hj)]

/-- The bounds that a region that fits is sliced at stand for themselves. -/
theorem sliceBounds_of_fits (h : r.Fits img.width img.height) :
    (sliceBound img.width r.x : ℤ) = r.x ∧
      (sliceBound img.width (r.x + r.width) : ℤ) = r.x + r.width ∧
      (sliceBound img.height r.y : ℤ) = r.y ∧
      (sliceBound img.height (r.y + r.height) : ℤ) = r.y + r.height := by
  obtain ⟨hwidth, hheight, hx, hy, hright, hbottom⟩ := h
  exact ⟨sliceBound_eq hx (by omega), sliceBound_eq (by omega) hright,
    sliceBound_eq hy (by omega), sliceBound_eq (by omega) hbottom⟩

/-- **The slice of a region that fits is the region**: it is not counted from an end, and it
is not shortened. -/
theorem slice_of_fits (h : r.Fits img.width img.height) :
    img.slice r.x (r.x + r.width) r.y (r.y + r.height) =
      ofFn r.width.toNat r.height.toNat fun i j =>
        (img.get? (r.x.toNat + i) (r.y.toNat + j)).getD default := by
  obtain ⟨hleft, hright, htop, hbottom⟩ := sliceBounds_of_fits h
  have hx : sliceBound img.width r.x = r.x.toNat := by omega
  have hy : sliceBound img.height r.y = r.y.toNat := by omega
  have hwidth : sliceBound img.width (r.x + r.width) - r.x.toNat = r.width.toNat := by omega
  have hheight : sliceBound img.height (r.y + r.height) - r.y.toNat = r.height.toNat := by omega
  simp only [slice, hx, hy, hwidth, hheight]

theorem isCut_of_crop (h : crop r img = .ok out) : IsCut r img out := by
  unfold crop at h
  cases hcheck : r.check img.width img.height with
  | some e => simp [hcheck] at h
  | none =>
    have hfits := Region.check_eq_none_iff.mp hcheck
    simp only [hcheck, slice_of_fits hfits] at h
    obtain rfl := Except.ok.inj h
    refine ⟨hfits, rfl, rfl, fun i j hi hj => ?_⟩
    rw [width_ofFn] at hi
    rw [height_ofFn] at hj
    rw [get?_ofFn _ hi hj]
    -- no pixel of the region has to be made up
    obtain ⟨p, hp⟩ := Option.isSome_iff_exists.mp (isSome_get?_of_fits hfits hi hj)
    rw [hp, Option.getD_some]

theorem exists_crop_of_fits (h : r.Fits img.width img.height) : ∃ out, crop r img = .ok out := by
  have hcheck : r.check img.width img.height = none := Region.check_eq_none_iff.mpr h
  exact ⟨_, by simp only [crop, hcheck]; rfl⟩

/-- **A crop makes the region**, and nothing else. -/
theorem crop_eq_ok_iff : crop r img = .ok out ↔ IsCut r img out := by
  refine ⟨isCut_of_crop, fun h => ?_⟩
  obtain ⟨out', hout'⟩ := exists_crop_of_fits h.fits
  rw [hout', (isCut_of_crop hout').unique h]

/-- A crop is refused by its check. -/
theorem crop_eq_error_iff {e : BoundsError} :
    crop r img = .error e ↔ r.check img.width img.height = some e := by
  unfold crop
  cases r.check img.width img.height <;> simp

end Image
end ImagePipeline
