import ImagePipeline.Proofs.Node.Makes
import Mathlib.Algebra.BigOperators.Group.List.Basic
import Mathlib.Algebra.GroupWithZero.Nat

/-!
# The draws of nodes

What applying a node takes from the sources: a noise node whose band has members takes one
draw for every pixel of the image that it is applied to, and nothing else takes any.

## Main definitions

* `Node.demand`, `Node.freshDemand` — what a node takes from the source of a number, and from
  the row of fresh sources.
* `applications` — the nodes that are applied one after another, with their images.
* `demand`, `freshDemand` — what several applications take.

## Main results

* `Node.Makes.sourcesAfter` — the sources after a node has been applied.
* `sourcesAfter_nil`, `SourcesAfter.cons` — the sources after several applications.
-/

namespace ImagePipeline

namespace Noise.Draws

theorem advance_advance (d : Draws) (m n : ℕ) : (d.advance m).advance n = d.advance (m + n) := by
  rw [advance, advance, advance, Nat.add_assoc]

end Noise.Draws

/-! ### One node -/

namespace Node

/-- How many draws a node takes from the source of the number `id` when it is applied to an
image. -/
def demand (id : ℕ) (n : Node) (img : Image) : ℕ :=
  match n with
  | .noise amount (some i) =>
    match amount.band? with
    | some b => if i = id ∧ b.isEmpty = false then img.width * img.height else 0
    | none => 0
  | _ => 0

/-- How many fresh sources a node takes. -/
def freshDemand : Node → ℕ
  | .noise _ none => 1
  | _ => 0

end Node

/-- The sources `s'` are what is left of the sources `s` once the given numbers of draws have
been taken from those that nodes own, and a number of fresh ones. -/
structure SourcesAfter (s : Sources) (owned : ℕ → ℕ) (fresh : ℕ) (s' : Sources) : Prop where
  owned_eq : ∀ id, s'.owned id = (s.owned id).advance (owned id)
  fresh_eq : ∀ k, s'.fresh k = s.fresh (k + fresh)

namespace SourcesAfter

theorem refl (s : Sources) : SourcesAfter s (fun _ => 0) 0 s := ⟨fun _ => rfl, fun _ => rfl⟩

theorem trans {s s' s'' : Sources} {m m' : ℕ → ℕ} {k k' : ℕ} (h : SourcesAfter s m k s')
    (h' : SourcesAfter s' m' k' s'') : SourcesAfter s (fun id => m id + m' id) (k + k') s'' where
  owned_eq id := by rw [h'.owned_eq, h.owned_eq, Noise.Draws.advance_advance]
  fresh_eq j := by rw [h'.fresh_eq, h.fresh_eq, Nat.add_assoc, Nat.add_comm k']

end SourcesAfter

/-- What is left of a source once noise has been drawn from it. -/
theorem Image.draws_addNoise (b : Noise.Band) (d : Noise.Draws) (img : Image) :
    (img.addNoise b d).2 = d.advance (if b.isEmpty = false then img.width * img.height else 0) := by
  unfold addNoise
  cases hb : b.isEmpty <;> simp

/-- **A node takes its draws and nothing else.** -/
theorem Node.Makes.sourcesAfter {n : Node} {s s' : Sources} {img out : Image}
    (h : n.Makes s img out s') : SourcesAfter s (fun id => n.demand id img) n.freshDemand s' := by
  cases h with
  | greyscale => exact .refl s
  | normalise _ => exact .refl s
  | vignette => exact .refl s
  | @noise amount id b hband =>
    cases id with
    | none => exact ⟨fun _ => rfl, fun _ => rfl⟩
    | some i =>
      refine ⟨fun id => ?_, fun _ => rfl⟩
      by_cases hid : id = i
      · subst hid
        simp [Sources.keep, Sources.draws, demand, hband, Image.draws_addNoise]
      · simp [Sources.keep, demand, hband, hid, Ne.symm hid]
  | crop _ => exact .refl s
  | custom _ => exact .refl s

/-! ### One node after another -/

/-- The nodes that are applied one after another, each with the image that it is applied to,
up to the first that cannot be put into words or makes no image. -/
def applications : List Node → Sources → Image → List (Node × Image)
  | [], _, _ => []
  | n :: ns, s, img =>
    if n.InLimit then
      match n.apply s img with
      | .error _ => []
      | .ok (img', s') => (n, img) :: applications ns s' img'
    else []

/-- How many draws are taken from the source of the number `id` altogether. -/
def demand (id : ℕ) (steps : List (Node × Image)) : ℕ :=
  (steps.map fun step => step.1.demand id step.2).sum

/-- How many fresh sources are taken altogether. -/
def freshDemand (steps : List (Node × Image)) : ℕ :=
  (steps.map fun step => step.1.freshDemand).sum

theorem sourcesAfter_nil (s : Sources) :
    SourcesAfter s (fun id => demand id []) (freshDemand []) s := .refl s

/-- What is taken by the first application comes before what the others take. -/
theorem SourcesAfter.cons {n : Node} {img : Image} {steps : List (Node × Image)}
    {s s' s'' : Sources} (h : SourcesAfter s (fun id => n.demand id img) n.freshDemand s')
    (hsteps : SourcesAfter s' (fun id => demand id steps) (freshDemand steps) s'') :
    SourcesAfter s (fun id => demand id ((n, img) :: steps)) (freshDemand ((n, img) :: steps))
      s'' := by
  simpa [demand, freshDemand] using h.trans hsteps

end ImagePipeline
