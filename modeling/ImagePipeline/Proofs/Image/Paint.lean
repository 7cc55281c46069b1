import ImagePipeline.Image.Paint
import Mathlib.Data.Int.Notation
import Mathlib.Data.Nat.Notation

/-!
# What painting does

Painting that goes through puts one pixel into the image, which depends on the colour alone.

## Main definitions

* `Pixel.ofEntries?` — the pixel that a colour stands for, if it stands for one.

## Main results

* `Image.pixelAt_eq_ok_iff`, `Image.exists_pixelAt_iff` — reading a pixel.
* `Image.paint_eq_none` — painting that goes through.
-/

namespace ImagePipeline

/-- The pixel that a colour stands for: one entry fills all channels, three are opaque. -/
def Pixel.ofEntries? (colour : List ℤ) : Option Pixel :=
  match channels? (withAlpha colour) with
  | .ok [v] => some ⟨v, v, v, v⟩
  | .ok [r, g, b, a] => some ⟨r, g, b, a⟩
  | _ => none

namespace Pixel

theorem store_eq_none {old p : Pixel} {r g b a : ℤ} (h : old.store r g b a = (p, none)) :
    channels? [r, g, b, a] = .ok p.channels := by
  unfold store at h
  cases hr : channel? r with
  | none => simp [hr] at h
  | some r' =>
    cases hg : channel? g with
    | none => simp [hr, hg] at h
    | some g' =>
      cases hb : channel? b with
      | none => simp [hr, hg, hb] at h
      | some b' =>
        cases ha : channel? a with
        | none => simp [hr, hg, hb, ha] at h
        | some a' =>
          simp only [hr, hg, hb, ha] at h
          obtain rfl := (Prod.mk.inj h).1
          simp [channels?, hr, hg, hb, ha, channels]

/-- A pixel that has been painted is the one that the colour stands for. -/
theorem paint_eq_none {old p : Pixel} {colour : List ℤ} (h : old.paint colour = (p, none)) :
    ofEntries? colour = some p := by
  unfold paint at h
  unfold ofEntries?
  split at h
  · next r g b a hentries =>
    rw [hentries, store_eq_none h]
    rfl
  · next hentries =>
    split at h
    · exact absurd (Prod.mk.inj h).2 (by simp)
    · next v hv =>
      rw [hv]
      exact congrArg some (Prod.mk.inj h).1
    · exact absurd (Prod.mk.inj h).2 (by simp)

end Pixel

namespace Image

theorem contains_iff {img : Image} {x y : ℤ} :
    img.contains x y = true ↔ 0 ≤ x ∧ x < img.width ∧ 0 ≤ y ∧ y < img.height := by
  simp [contains, and_assoc]

/-- Reading a pixel finds what the view of the image shows, and never counts from the end. -/
theorem pixelAt_eq_ok_iff {img : Image} {x y : ℤ} {p : Pixel} :
    img.pixelAt x y = .ok p ↔ 0 ≤ x ∧ 0 ≤ y ∧ img.get? x.toNat y.toNat = some p := by
  unfold pixelAt
  constructor
  · intro h
    split at h
    · next hcontains =>
      obtain ⟨hx, -, hy, -⟩ := contains_iff.mp hcontains
      refine ⟨hx, hy, ?_⟩
      split at h
      · next hget => rw [hget, Except.ok.inj h]
      · exact absurd h (by simp)
    · exact absurd h (by simp)
  · rintro ⟨hx, hy, hget⟩
    obtain ⟨hwidth, hheight⟩ := get?_isSome_iff.mp (Option.isSome_of_mem hget)
    rw [if_pos (contains_iff.mpr (by omega)), hget]

theorem pixelAt_of_not_contains {img : Image} {x y : ℤ} (h : img.contains x y = false) :
    img.pixelAt x y = .error (img.outsideError x y) := by
  rw [pixelAt, h]
  rfl

/-- A pixel can be read exactly inside the image. -/
theorem exists_pixelAt_iff {img : Image} {x y : ℤ} :
    (∃ p, img.pixelAt x y = .ok p) ↔ img.contains x y = true := by
  rw [contains_iff]
  constructor
  · rintro ⟨p, hp⟩
    obtain ⟨hx, hy, hget⟩ := pixelAt_eq_ok_iff.mp hp
    obtain ⟨hwidth, hheight⟩ := get?_isSome_iff.mp (Option.isSome_of_mem hget)
    omega
  · rintro ⟨hx, hwidth, hy, hheight⟩
    have hthere : (img.get? x.toNat y.toNat).isSome := by
      rw [get?_isSome_iff]
      omega
    obtain ⟨p, hp⟩ := Option.isSome_iff_exists.mp hthere
    exact ⟨p, pixelAt_eq_ok_iff.mpr ⟨hx, hy, hp⟩⟩

/-- **Painting that goes through** puts the pixel of the colour at its place. -/
theorem paint_eq_none {img img' : Image} {x y : ℤ} {colour : List ℤ}
    (h : img.paint x y colour = (img', none)) : img.contains x y = true ∧
      ∃ p, Pixel.ofEntries? colour = some p ∧ img' = img.set x.toNat y.toNat p := by
  unfold paint at h
  split at h
  · exact absurd (Prod.mk.inj h).2 (by simp)
  · next old hold =>
    rcases hpaint : old.paint colour with ⟨p, e⟩
    rw [hpaint] at h
    obtain ⟨rfl, rfl⟩ := Prod.mk.inj h
    refine ⟨?_, p, Pixel.paint_eq_none hpaint, rfl⟩
    unfold pixelAt at hold
    split at hold
    · assumption
    · exact absurd hold (by simp)

end Image
end ImagePipeline
