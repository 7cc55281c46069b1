import ImagePipeline.Node.Apply
import Mathlib.Data.Nat.Notation

/-!
# What nodes make

The ways in which a node makes an image, one for each kind of node, and what nodes make of
an image one after another.

## Main definitions

* `Node.Makes` — a node makes an image.
* `applyAll` — what nodes make one after another, or why one of them makes nothing.

## Main results

* `Node.apply_eq_ok_iff` — a node makes what it says.
* `applyAll_cons_eq_ok_iff` — the first node of several.
-/

namespace ImagePipeline

/-- The node makes the image `out` of the image `img`, and leaves the sources `s'` of `s`. -/
inductive Node.Makes (s : Sources) (img : Image) : Node → Image → Sources → Prop
  | greyscale : Makes s img .greyscale img.grey s
  | normalise {out : Image} (h : img.stretch? = some out) : Makes s img .normalise out s
  | vignette : Makes s img .vignette img.vignette s
  | noise {amount : Noise.Amount} {id : Option ℕ} {b : Noise.Band} (h : amount.band? = some b) :
      Makes s img (.noise amount id) (img.addNoise b (s.draws id)).1
        (s.keep id (img.addNoise b (s.draws id)).2)
  | crop {r : Region} {out : Image} (h : Image.crop r img = .ok out) : Makes s img (.crop r) out s
  | custom {k : CustomKind} {out : Image} (h : k.behaviour.apply img = .ok out) :
      Makes s img (.custom k) out s

namespace Node

variable {n : Node} {s s' : Sources} {img out : Image}

theorem makes_of_apply (h : n.apply s img = .ok (out, s')) : n.Makes s img out s' := by
  cases n with
  | greyscale =>
    obtain ⟨rfl, rfl⟩ := Prod.mk.inj (Except.ok.inj h)
    exact .greyscale
  | normalise =>
    simp only [apply] at h
    split at h
    · next hstretch =>
      obtain ⟨rfl, rfl⟩ := Prod.mk.inj (Except.ok.inj h)
      exact .normalise hstretch
    · exact absurd h (by simp)
  | vignette =>
    obtain ⟨rfl, rfl⟩ := Prod.mk.inj (Except.ok.inj h)
    exact .vignette
  | noise amount id =>
    simp only [apply] at h
    split at h
    · exact absurd h (by simp)
    · next hband =>
      obtain ⟨rfl, rfl⟩ := Prod.mk.inj (Except.ok.inj h)
      exact .noise hband
  | crop r =>
    simp only [apply] at h
    split at h
    · next hcrop =>
      obtain ⟨rfl, rfl⟩ := Prod.mk.inj (Except.ok.inj h)
      exact .crop hcrop
    · exact absurd h (by simp)
  | custom k =>
    simp only [apply] at h
    split at h
    · next hcustom =>
      obtain ⟨rfl, rfl⟩ := Prod.mk.inj (Except.ok.inj h)
      exact .custom hcustom
    · exact absurd h (by simp)

/-- **A node makes what it says**, and in no other way. -/
theorem apply_eq_ok_iff : n.apply s img = .ok (out, s') ↔ n.Makes s img out s' := by
  refine ⟨makes_of_apply, fun h => ?_⟩
  cases h with
  | greyscale => rfl
  | normalise h => simp only [apply, h]
  | vignette => rfl
  | noise h => simp only [apply, h]
  | crop h => simp only [apply, h]
  | custom h => simp only [apply, h]

end Node

/-! ### One node after another -/

/-- What nodes make of an image one after another, or why the first that makes none does
not. -/
def applyAll : List Node → Sources → Image → Except Failure (Image × Sources)
  | [], s, img => .ok (img, s)
  | n :: ns, s, img =>
    match n.apply s img with
    | .error e => .error e
    | .ok (img', s') => applyAll ns s' img'

section

variable {n : Node} {ns : List Node} {s s' : Sources} {img out : Image}

theorem applyAll_nil_eq_ok_iff : applyAll [] s img = .ok (out, s') ↔ out = img ∧ s' = s := by
  rw [applyAll, Except.ok.injEq, Prod.mk.injEq, eq_comm, @eq_comm _ s]

theorem applyAll_cons_eq_ok_iff : applyAll (n :: ns) s img = .ok (out, s') ↔
    ∃ img₁ s₁, n.Makes s img img₁ s₁ ∧ applyAll ns s₁ img₁ = .ok (out, s') := by
  rw [applyAll]
  constructor
  · intro h
    split at h
    · exact absurd h (by simp)
    · next hfirst => exact ⟨_, _, Node.apply_eq_ok_iff.mp hfirst, h⟩
  · rintro ⟨img₁, s₁, hfirst, h⟩
    rw [Node.apply_eq_ok_iff.mpr hfirst]
    exact h

end

end ImagePipeline
