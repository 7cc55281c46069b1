import ImagePipeline.Node.Apply
import ImagePipeline.Proofs.Image.Crop
import Mathlib.Data.Int.Notation
import Mathlib.Data.Nat.Notation

/-!
# Sizes of images and nodes

What a node does to the size of an image, and whether it makes an image at all, can be
told from the size alone, for the built-in nodes on images that have pixels.

## Main definitions

* `Node.IsNumeric` — the built-in nodes whose amount, if they have one, is a number, and whose
  integers, if they have some, can be written.
* `Node.Admissible` — a node suits a size.
* `Node.nextSize` — the size of what a node makes of an image of a size.
* `sizeAfter`, `AllAdmissible` — the same for one node after another.

## Main results

* `Node.apply_of_admissible` — a node makes an image of a size that suits it.
* `Node.apply_of_not_admissible` — only a crop does not suit a size.
* `firstInadmissible` — nodes suit a size, or one of them is the first that does not.
-/

namespace ImagePipeline

/-- Both extents of a size are at least one. -/
def HasPixels (size : ℕ × ℕ) : Prop := 0 < size.1 ∧ 0 < size.2

theorem Image.exists_stretch? {img : Image} (h : HasPixels img.size) :
    ∃ out, img.stretch? = some out := by
  -- an image with pixels has a level, so it has a least and a greatest one
  have hne : img.grey.toList.map Pixel.red ≠ [] := by
    intro hnil
    have hlength := congrArg List.length hnil
    have hpixels : img.grey.toList.length = img.width * img.height := img.grey.size_pixels
    rw [List.length_map, hpixels, List.length_nil] at hlength
    exact absurd hlength (Nat.ne_of_gt (Nat.mul_pos h.1 h.2))
  unfold stretch?
  cases hred : img.grey.toList.map Pixel.red with
  | nil => exact absurd hred hne
  | cons v vs => exact ⟨_, by simp only [hred, extremes?, Option.map_some]; rfl⟩

namespace Node

/-- The built-in nodes whose amount of noise, if they have one, is a number, and whose integers,
if they have some, can be written. -/
def IsNumeric : Node → Prop
  | .noise (.whole _) _ => False
  | .crop r => r.InLimit
  | .custom _ => False
  | _ => True

theorem IsNumeric.inLimit {n : Node} (h : n.IsNumeric) : n.InLimit := by
  cases n with
  | noise amount source =>
    cases amount with
    | whole m => exact absurd h (by simp [IsNumeric])
    | real x => exact trivial
  | crop r => exact h
  | greyscale | normalise | vignette | custom _ => exact trivial

/-- A node suits the size of an image: only a crop needs more than pixels. -/
def Admissible (n : Node) (size : ℕ × ℕ) : Prop :=
  match n with
  | .crop r => r.Fits size.1 size.2
  | _ => True

/-- The size of what a node makes of an image of the given size. -/
def nextSize (n : Node) (size : ℕ × ℕ) : ℕ × ℕ :=
  match n with
  | .crop r => (r.width.toNat, r.height.toNat)
  | _ => size

theorem hasPixels_nextSize {n : Node} {size : ℕ × ℕ} (hs : HasPixels size)
    (h : n.Admissible size) : HasPixels (n.nextSize size) := by
  cases n with
  | crop r =>
    obtain ⟨hwidth, hheight, -⟩ := h
    exact ⟨by simpa [nextSize] using hwidth, by simpa [nextSize] using hheight⟩
  | _ => exact hs

/-- **A node makes an image of a size that suits it**, and the size of what it makes is
known. -/
theorem apply_of_admissible {n : Node} {img : Image} (hn : n.IsNumeric) (hs : HasPixels img.size)
    (h : n.Admissible img.size) (s : Sources) :
    ∃ out s', n.apply s img = .ok (out, s') ∧ out.size = n.nextSize img.size := by
  cases n with
  | greyscale => exact ⟨_, _, rfl, rfl⟩
  | normalise =>
    obtain ⟨out, hout⟩ := Image.exists_stretch? hs
    exact ⟨out, s, by simp only [apply, hout], Image.size_of_stretch? hout⟩
  | vignette => exact ⟨_, _, rfl, rfl⟩
  | noise amount source =>
    cases amount with
    | whole m => exact absurd hn (by simp [IsNumeric])
    | real x => exact ⟨_, _, rfl, Image.size_addNoise _ _ _⟩
  | crop r =>
    obtain ⟨out, hout⟩ := Image.exists_crop_of_fits h
    have hcut := Image.isCut_of_crop hout
    exact ⟨out, s, by simp only [apply, hout], Prod.ext hcut.width_eq hcut.height_eq⟩
  | custom k => exact absurd hn (by simp [IsNumeric])

/-- **Only a crop does not suit a size**, and then it names its bounds. -/
theorem apply_of_not_admissible {n : Node} {img : Image} (hn : n.IsNumeric)
    (h : ¬ n.Admissible img.size) (s : Sources) :
    ∃ r e, n = .crop r ∧ r.check img.width img.height = some e ∧ e.family = .index ∧
      n.apply s img = .error (.bounds e) := by
  cases n with
  | crop r =>
    cases hcheck : r.check img.width img.height with
    | none => exact absurd (Region.check_eq_none_iff.mp hcheck) h
    | some e =>
      exact ⟨r, e, rfl, hcheck, Region.family_of_check hn hcheck,
        by simp only [apply, Image.crop, hcheck]⟩
  | _ => exact absurd trivial h

end Node

/-! ### One node after another -/

/-- The size after nodes, each of which suits the size before it. -/
def sizeAfter (size : ℕ × ℕ) : List Node → ℕ × ℕ
  | [] => size
  | n :: ns => sizeAfter (n.nextSize size) ns

/-- Every node suits the size that it is applied to. -/
def AllAdmissible (size : ℕ × ℕ) : List Node → Prop
  | [] => True
  | n :: ns => n.Admissible size ∧ AllAdmissible (n.nextSize size) ns

theorem allAdmissible_append_iff {size : ℕ × ℕ} {a b : List Node} :
    AllAdmissible size (a ++ b) ↔ AllAdmissible size a ∧ AllAdmissible (sizeAfter size a) b := by
  induction a generalizing size with
  | nil => simp [AllAdmissible, sizeAfter]
  | cons n a ih => rw [List.cons_append, AllAdmissible, AllAdmissible, ih, sizeAfter, and_assoc]

/-- Nodes suit a size, or one of them is the first that does not. -/
theorem firstInadmissible (size : ℕ × ℕ) (ns : List Node) :
    AllAdmissible size ns ∨ ∃ before n after, ns = before ++ n :: after ∧
      AllAdmissible size before ∧ ¬ n.Admissible (sizeAfter size before) := by
  induction ns generalizing size with
  | nil => exact Or.inl trivial
  | cons n ns ih =>
    by_cases hn : n.Admissible size
    · rcases ih (n.nextSize size) with h | ⟨before, m, after, rfl, hbefore, hm⟩
      · exact Or.inl ⟨hn, h⟩
      · exact Or.inr ⟨n :: before, m, after, rfl, ⟨hn, hbefore⟩, hm⟩
    · exact Or.inr ⟨[], n, ns, rfl, trivial, hn⟩

end ImagePipeline
