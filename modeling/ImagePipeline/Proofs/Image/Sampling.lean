import ImagePipeline.Proofs.Image.Crop
import ImagePipeline.Proofs.Image.Paint
import ImagePipeline.Proofs.Node.Makes

/-!
# Crops as samples

A crop goes through if and only if every pixel that it asks for can be read, and then its result
shows these pixels.  The check compares corners only: since a region is a rectangle, it lies
inside the image as soon as its first and its last pixel do.

## Main definitions

* `Region.Samplable` — a region has pixels, and all of them can be read.
* `Image.Samples` — an image shows the pixels of a region of another one.

## Main results

* `Region.fits_iff_samplable` — what the check of the corners comes to.
* `Node.apply_crop_samples` — a crop samples its region or refuses it.
-/

namespace ImagePipeline

/-- The region has pixels, and the image has all of them. -/
def Region.Samplable (r : Region) (img : Image) : Prop :=
  0 < r.width ∧ 0 < r.height ∧ ∀ i j : ℤ, 0 ≤ i → i < r.width → 0 ≤ j → j < r.height →
    ∃ p, img.pixelAt (r.x + i) (r.y + j) = .ok p

/-- The image `out` shows the pixels of the region `r` of the image `img`.  The bounds that it
is sliced at stand for themselves: none is counted from the end of a row or a column, and none
is moved to it. -/
structure Image.Samples (r : Region) (img out : Image) : Prop where
  width_eq : (out.width : ℤ) = r.width
  height_eq : (out.height : ℤ) = r.height
  pixelAt_eq : ∀ i j : ℤ, 0 ≤ i → i < r.width → 0 ≤ j → j < r.height →
    out.pixelAt i j = img.pixelAt (r.x + i) (r.y + j)
  left_eq : (sliceBound img.width r.x : ℤ) = r.x
  right_eq : (sliceBound img.width (r.x + r.width) : ℤ) = r.x + r.width
  top_eq : (sliceBound img.height r.y : ℤ) = r.y
  bottom_eq : (sliceBound img.height (r.y + r.height) : ℤ) = r.y + r.height

variable {r : Region} {img out : Image}

/-- **The check of the corners decides about all pixels.** -/
theorem Region.fits_iff_samplable : r.Fits img.width img.height ↔ r.Samplable img := by
  constructor
  · rintro ⟨hwidth, hheight, hx, hy, hright, hbottom⟩
    refine ⟨hwidth, hheight, fun i j hi hi' hj hj' => ?_⟩
    rw [Image.exists_pixelAt_iff, Image.contains_iff]
    omega
  · rintro ⟨hwidth, hheight, hall⟩
    -- the first pixel and the last one
    have hfirst := hall 0 0 (Int.le_refl 0) hwidth (Int.le_refl 0) hheight
    have hlast := hall (r.width - 1) (r.height - 1) (by omega) (by omega) (by omega) (by omega)
    rw [Image.exists_pixelAt_iff, Image.contains_iff] at hfirst hlast
    unfold Fits
    omega

theorem Image.IsCut.samples (h : IsCut r img out) : Samples r img out := by
  obtain ⟨hleft, hright, htop, hbottom⟩ := sliceBounds_of_fits h.fits
  obtain ⟨hwidth, hheight, hx, hy, -, -⟩ := h.fits
  have hwidth_eq : (out.width : ℤ) = r.width := by
    rw [h.width_eq]
    omega
  have hheight_eq : (out.height : ℤ) = r.height := by
    rw [h.height_eq]
    omega
  refine ⟨hwidth_eq, hheight_eq, fun i j hi hi' hj hj' => ?_, hleft, hright, htop, hbottom⟩
  obtain ⟨p, hp⟩ := exists_pixelAt_iff.mpr (contains_iff.mpr (show
    0 ≤ i ∧ i < out.width ∧ 0 ≤ j ∧ j < out.height by omega))
  obtain ⟨-, -, hget⟩ := pixelAt_eq_ok_iff.mp hp
  have hsource := h.get?_of_get? hget
  rw [← Int.toNat_add hx hi, ← Int.toNat_add hy hj] at hsource
  rw [hp, pixelAt_eq_ok_iff.mpr ⟨by omega, by omega, hsource⟩]

/-- **A crop samples its region or refuses it.**  It goes through if and only if the region has
pixels and every one of them can be read from the image; its result then has the size of the
region and shows these pixels.  Otherwise it is refused by its check, with an error of the family
of those that reading a pixel outside an image gives, if the integers of the region can be
written. -/
theorem Node.apply_crop_samples (r : Region) (s : Sources) (img : Image) :
    ((∃ out s', (Node.crop r).apply s img = .ok (out, s')) ↔ r.Samplable img) ∧
    (∀ out s', (Node.crop r).apply s img = .ok (out, s') → Image.Samples r img out ∧ s' = s) ∧
    ∀ f, (Node.crop r).apply s img = .error f →
      ∃ e, f = .bounds e ∧ (r.InLimit → e.family = .index) ∧
        r.check img.width img.height = some e := by
  have hmakes : ∀ out s', (Node.crop r).apply s img = .ok (out, s') →
      Image.IsCut r img out ∧ s' = s := by
    intro out s' h
    cases Node.apply_eq_ok_iff.mp h with
    | crop hcrop => exact ⟨Image.isCut_of_crop hcrop, rfl⟩
  refine ⟨⟨?_, fun h => ?_⟩, fun out s' h => ?_, fun f h => ?_⟩
  · rintro ⟨out, s', h⟩
    exact Region.fits_iff_samplable.mp (hmakes out s' h).1.fits
  · obtain ⟨out, hout⟩ := Image.exists_crop_of_fits (Region.fits_iff_samplable.mpr h)
    exact ⟨out, s, Node.apply_eq_ok_iff.mpr (.crop hout)⟩
  · obtain ⟨hcut, rfl⟩ := hmakes out s' h
    exact ⟨hcut.samples, rfl⟩
  · simp only [Node.apply] at h
    split at h
    · exact absurd h (by simp)
    · next e hcrop =>
      have hcheck := Image.crop_eq_error_iff.mp hcrop
      exact ⟨e, (Except.error.inj h).symm, fun hr => Region.family_of_check hr hcheck, hcheck⟩

/-- In a row of three columns the slice from −2 to −1 is the second column, but the crop at the
column −2 is refused, while the crop at the column 1 makes it. -/
theorem Node.apply_crop_samples_negative :
    let s : Sources := ⟨fun _ => .ofList [], fun _ => .ofList []⟩
    let img : Image := ⟨3, 1, #[.grey 10 1, .grey 20 2, .grey 30 3], rfl⟩
    (img.slice (-2) (-1) 0 1).get? 0 0 = some (.grey 20 2) ∧
      (∃ e, (Node.crop ⟨-2, 0, 1, 1⟩).apply s img = .error (.bounds e) ∧ e.family = .index) ∧
      ∃ out, (Node.crop ⟨1, 0, 1, 1⟩).apply s img = .ok (out, s) ∧
        out.pixelAt 0 0 = .ok (.grey 20 2) := by
  intro s img
  refine ⟨by decide +kernel, ?_, ?_⟩
  · obtain ⟨hiff, -, hrefused⟩ := Node.apply_crop_samples ⟨-2, 0, 1, 1⟩ s img
    cases happly : (Node.crop ⟨-2, 0, 1, 1⟩).apply s img with
    | ok made =>
      obtain ⟨-, -, hall⟩ := hiff.mp ⟨made.1, made.2, happly⟩
      obtain ⟨p, hp⟩ := hall 0 0 (by decide) (by decide) (by decide) (by decide)
      exact absurd (Image.pixelAt_eq_ok_iff.mp hp).1 (by decide)
    | error f =>
      obtain ⟨e, rfl, hfamily, -⟩ := hrefused f happly
      exact ⟨e, rfl, hfamily (by decide)⟩
  · obtain ⟨hiff, hsamples, -⟩ := Node.apply_crop_samples ⟨1, 0, 1, 1⟩ s img
    obtain ⟨out, s', hout⟩ := hiff.mpr (Region.fits_iff_samplable.mp (by decide))
    obtain ⟨h, rfl⟩ := hsamples out s' hout
    exact ⟨out, hout, (h.pixelAt_eq 0 0 (by decide) (by decide) (by decide) (by decide)).trans rfl⟩

end ImagePipeline
