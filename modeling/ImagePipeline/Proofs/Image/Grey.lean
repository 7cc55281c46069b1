import ImagePipeline.Proofs.Image.Crop
import ImagePipeline.Proofs.Image.Luminance
import ImagePipeline.Proofs.Image.Recolouring

/-!
# Grey images

Images whose pixels are grey.  What changes the three parts of a colour alike keeps an image
grey, and turning a grey image grey changes nothing at all, since a grey keeps its level.

## Main definitions

* `Colours.IsGrey`, `Image.IsGrey` — a colour and an image without hue.

## Main results

* `isGrey_grey`, `isGrey_of_stretch?` — images that are turned grey are.
* `IsRecoloured.isGrey`, `IsCut.isGrey` — grey images stay grey.
* `IsGrey.grey_eq` — a grey image is its own grey image.
-/

namespace ImagePipeline

/-- A colour is grey: its three parts are the same. -/
def Colours.IsGrey (c : Colours) : Prop := c.1 = c.2.1 ∧ c.2.1 = c.2.2

namespace Colours

theorem isGrey_grey (v : UInt8) : (grey v).IsGrey := ⟨rfl, rfl⟩

theorem isGrey_toGrey (c : Colours) : c.toGrey.IsGrey := isGrey_grey _

theorem IsGrey.map {c : Colours} (h : c.IsGrey) (f : UInt8 → UInt8) : (c.map f).IsGrey :=
  ⟨congrArg f h.1, congrArg f h.2⟩

theorem IsGrey.spreadColours {c : Colours} (h : c.IsGrey) (lo hi : UInt8) :
    (Image.spreadColours lo hi c).IsGrey := by
  unfold Image.spreadColours
  split
  · exact h
  · exact isGrey_grey _

/-- The grey of a grey is itself. -/
theorem IsGrey.toGrey_eq {c : Colours} (h : c.IsGrey) : c.toGrey = c := by
  obtain ⟨r, g, b⟩ := c
  obtain ⟨rfl, rfl⟩ : r = g ∧ g = b := h
  rw [toGrey, Luminance.level_self]
  rfl

end Colours

namespace Image

/-- Every pixel of an image is grey. -/
def IsGrey (img : Image) : Prop := ∀ x y p, img.get? x y = some p → p.colours.IsGrey

variable {img out : Image} {f : ℕ → ℕ → Colours → Colours}

/-- An image is grey if the colours that it has been given are. -/
theorem IsRecoloured.isGrey (h : IsRecoloured f img out)
    (hf : ∀ x y p, img.get? x y = some p → (f x y p.colours).IsGrey) : IsGrey out := by
  intro x y p hp
  rw [h.get?_eq] at hp
  obtain ⟨q, hq, rfl⟩ := Option.map_eq_some_iff.mp hp
  exact hf x y q hq

theorem isGrey_grey (img : Image) : IsGrey img.grey :=
  (isRecoloured_grey img).isGrey fun _ _ _ _ => Colours.isGrey_toGrey _

theorem isGrey_of_stretch? (h : img.stretch? = some out) : IsGrey out := by
  rw [stretch?_eq] at h
  obtain ⟨⟨lo, hi⟩, -, rfl⟩ := Option.map_eq_some_iff.mp h
  exact (isRecoloured_spread_grey lo hi img).isGrey fun _ _ _ _ =>
    (Colours.isGrey_toGrey _).spreadColours lo hi

theorem IsGrey.vignette (h : IsGrey img) : IsGrey img.vignette :=
  (isRecoloured_vignette img).isGrey fun x y p hp => (h x y p hp).map _

theorem IsGrey.addNoise (h : IsGrey img) (b : Noise.Band) (d : Noise.Draws) :
    IsGrey (img.addNoise b d).1 :=
  (isRecoloured_addNoise b d img).isGrey fun x y p hp => (h x y p hp).map _

theorem IsCut.isGrey {r : Region} (h : IsCut r img out) (hgrey : IsGrey img) : IsGrey out := by
  intro i j p hp
  exact hgrey _ _ p (h.get?_of_get? hp)

/-- **Turning a grey image grey changes nothing.** -/
theorem IsGrey.grey_eq (h : IsGrey img) : img.grey = img := by
  refine ext_get? rfl rfl fun x y _ _ => ?_
  rw [(isRecoloured_grey img).get?_eq]
  cases hp : img.get? x y with
  | none => rfl
  | some p =>
    rw [Option.map_some, (h x y p hp).toGrey_eq]
    rfl

end Image
end ImagePipeline
