import ImagePipeline.Proofs.Image.Crop
import ImagePipeline.Proofs.Image.Recolouring
import ImagePipeline.Proofs.Run.Pairs
import ImagePipeline.Proofs.Run.Results
import Mathlib.Algebra.BigOperators.Group.List.Basic
import Mathlib.Algebra.Group.Prod

/-!
# Alpha in a run

Nodes carry alpha along and never look at it.  A crop moves the corner that the alpha of the
result is read from; every other node leaves alpha where it is, and what a node makes of the
colours is the same for images that differ in alpha only.

## Main definitions

* `Node.origin`, `cropOrigin` — the corner that a crop, or all of them, move to.

## Main results

* `Node.Makes.carriesAlpha`, `carriesAlpha_of_applyAll` — alpha is carried along.
* `Node.respects_sameColours` — alpha has no part in what a node makes.
* `run_alpha` — both for a whole run.
-/

namespace ImagePipeline

open Image

/-! ### Crops -/

theorem Image.IsCut.carriesAlpha {r : Region} {img out : Image} (h : IsCut r img out) :
    CarriesAlpha r.x.toNat r.y.toNat img out :=
  fun _ _ p hp => ⟨p, h.get?_of_get? hp, rfl⟩

theorem Image.SameColours.cut {r : Region} {a b a' b' : Image} (h : SameColours a b)
    (ha : IsCut r a a') (hb : IsCut r b b') : SameColours a' b' := by
  have hwidth : a'.width = b'.width := ha.width_eq.trans hb.width_eq.symm
  have hheight : a'.height = b'.height := ha.height_eq.trans hb.height_eq.symm
  refine ⟨Prod.ext hwidth hheight, fun i j => ?_⟩
  by_cases hij : i < a'.width ∧ j < a'.height
  · rw [ha.get?_eq i j hij.1 hij.2, hb.get?_eq i j (hwidth ▸ hij.1) (hheight ▸ hij.2)]
    exact h.colours_eq _ _
  · rw [get?_eq_none_iff.mpr hij, get?_eq_none_iff.mpr (by rwa [← hwidth, ← hheight])]

/-! ### Nodes -/

namespace Node

/-- The corner that a node moves to: that of its region, if it is a crop. -/
def origin : Node → ℤ × ℤ
  | .crop r => (r.x, r.y)
  | _ => 0

/-- **A built-in node carries alpha along**, from the corner that it moves to. -/
theorem Makes.carriesAlpha {n : Node} {s s' : Sources} {img out : Image} (h : n.Makes s img out s')
    (hn : n.kind ∈ Kind.builtIn) :
    ∃ x y : ℕ, n.origin = ((x : ℤ), (y : ℤ)) ∧ CarriesAlpha x y img out := by
  cases h with
  | greyscale => exact ⟨0, 0, rfl, (isRecoloured_grey img).carriesAlpha⟩
  | normalise h =>
    rw [stretch?_eq] at h
    obtain ⟨⟨lo, hi⟩, -, rfl⟩ := Option.map_eq_some_iff.mp h
    exact ⟨0, 0, rfl, (isRecoloured_spread_grey lo hi img).carriesAlpha⟩
  | vignette => exact ⟨0, 0, rfl, (isRecoloured_vignette img).carriesAlpha⟩
  | noise h => exact ⟨0, 0, rfl, (isRecoloured_addNoise _ _ img).carriesAlpha⟩
  | @crop r out h =>
    have hcut := crop_eq_ok_iff.mp h
    obtain ⟨-, -, hx, hy, -⟩ := hcut.fits
    exact ⟨r.x.toNat, r.y.toNat, by simp [origin, hx, hy], hcut.carriesAlpha⟩
  | custom h => exact absurd hn (by simp [kind, Kind.builtIn])

/-- **A node does not look at alpha.** -/
theorem respects_sameColours (n : Node) : n.Respects SameColours := by
  intro s a b h
  obtain ⟨hwidth, hheight⟩ := Prod.mk.inj h.size_eq
  cases n with
  | greyscale => exact .makes s (.recolour h (isRecoloured_grey a) (isRecoloured_grey b))
  | normalise =>
    -- the extremes are taken over the levels, which are the same in both images
    simp only [apply, stretch?_eq, h.levels_eq]
    cases extremes? b.levels with
    | none => exact .fails _
    | some e => exact .makes s (.recolour h (isRecoloured_spread_grey e.1 e.2 a)
        (isRecoloured_spread_grey e.1 e.2 b))
  | vignette =>
    have hb := isRecoloured_vignette b
    rw [← hwidth, ← hheight] at hb
    exact .makes s (.recolour h (isRecoloured_vignette a) hb)
  | noise amount id =>
    refine respects_noise amount id (fun _ _ h => h.size_eq) (fun band d a b h => ?_) s a b h
    have hb := isRecoloured_addNoise band d b
    rw [← (Prod.mk.inj h.size_eq).1] at hb
    exact .recolour h (isRecoloured_addNoise band d a) hb
  | crop r => exact respects_crop r (fun _ _ h => h.size_eq) (fun _ _ _ _ h => h.cut) s a b h
  | custom k => exact respects_custom k SameColours.refl s a b h

end Node

/-! ### One node after another -/

/-- The corner that nodes move to one after another. -/
def cropOrigin (nodes : List Node) : ℤ × ℤ := (nodes.map Node.origin).sum

/-- **Built-in nodes carry alpha along**, from the corner that they move to. -/
theorem carriesAlpha_of_applyAll {nodes : List Node} (hnodes : ∀ n ∈ nodes, n.kind ∈ Kind.builtIn)
    {s s' : Sources} {img out : Image} (h : applyAll nodes s img = .ok (out, s')) :
    ∃ x y : ℕ, cropOrigin nodes = ((x : ℤ), (y : ℤ)) ∧ CarriesAlpha x y img out := by
  induction nodes generalizing s img with
  | nil =>
    obtain ⟨rfl, -⟩ := applyAll_nil_eq_ok_iff.mp h
    exact ⟨0, 0, rfl, .refl out⟩
  | cons n nodes ih =>
    obtain ⟨hn, hnodes⟩ := List.forall_mem_cons.mp hnodes
    obtain ⟨img₁, s₁, hfirst, hrest⟩ := applyAll_cons_eq_ok_iff.mp h
    obtain ⟨x, y, horigin, hcarries⟩ := hfirst.carriesAlpha hn
    obtain ⟨x', y', horigin', hcarries'⟩ := ih hnodes hrest
    refine ⟨x + x', y + y', ?_, hcarries.trans hcarries'⟩
    rw [cropOrigin, List.map_cons, List.sum_cons, ← cropOrigin, horigin, horigin']
    rfl

namespace Run

/-- **A run carries alpha beside the colours.**  If it goes through, every pixel of its result
has the alpha of the pixel that lies behind it in the image that the run began with, the corners
of all crops added up; and on an image that differs in alpha only it ends in the same way, with
a result that differs in alpha only. -/
theorem run_alpha (o : Options) (nodes : Pipeline) (s : State) :
    ((∀ n ∈ nodes, n.kind ∈ Kind.builtIn) → (run o nodes s).2 = none →
      ∃ x y : ℕ, cropOrigin nodes = ((x : ℤ), (y : ℤ)) ∧
        CarriesAlpha x y s.image (run o nodes s).1.image) ∧
    (o.IgnoresBytes → ∀ t : State, SameColours s.image t.image → t.sources = s.sources →
      s.tree.SameShape t.tree →
      (run o nodes t).2 = (run o nodes s).2 ∧
        SameColours (run o nodes s).1.image (run o nodes t).1.image ∧
        (run o nodes t).1.sources = (run o nodes s).1.sources) := by
  constructor
  · intro hnodes hnone
    exact carriesAlpha_of_applyAll hnodes (applyAll_of_run_eq_none hnone)
  · intro ho t hcolours hsources hshape
    have h : Matches SameColours s.reports t.reports (run o nodes s) (run o nodes t) :=
      matches_run ho (fun _ _ h => h.size_eq) (fun n _ => n.respects_sameColours) hcolours hsources
        hshape
    exact ⟨h.stop, h.image, h.sources⟩

/-- A crop to the second of two columns keeps the alpha of that column, and the stretched colours
do not change if both columns get another alpha. -/
theorem run_alpha_second_column :
    let o : Options := ⟨false, false, .ofChars ['.'], "output", ['p', 'n', 'g'], fun _ => none⟩
    let sources : Sources := ⟨fun _ => .ofList [], fun _ => .ofList []⟩
    let img : Image := ⟨2, 1, #[⟨1, 2, 3, 4⟩, ⟨5, 6, 7, 8⟩], rfl⟩
    let img' : Image := img.map fun p => .ofColours p.colours 9
    let nodes : Pipeline := [.normalise, .crop ⟨1, 0, 1, 1⟩]
    let final (i : Image) : State × Option Stop := run o nodes ⟨i, sources, .empty, [], []⟩
    (∃ p, (final img).1.image.get? 0 0 = some p ∧ p.alpha = 8) ∧ (final img').2 = none ∧
      SameColours (final img).1.image (final img').1.image := by
  intro o sources img img' nodes final
  obtain ⟨hcarries, hpair⟩ := run_alpha o nodes ⟨img, sources, .empty, [], []⟩
  have hnone : (final img).2 = none := by decide +kernel
  obtain ⟨x, y, horigin, halpha⟩ := hcarries (by decide) hnone
  have hcorner : cropOrigin nodes = (1, 0) := rfl
  obtain ⟨hx, hy⟩ := Prod.mk.inj (horigin.symm.trans hcorner)
  obtain rfl : x = 1 := Int.ofNat_inj.mp hx
  obtain rfl : y = 0 := Int.ofNat_inj.mp hy
  have hcolours : SameColours img img' :=
    ⟨rfl, fun x y => by rw [get?_map, Option.map_map]; rfl⟩
  obtain ⟨hstop, hsame, -⟩ := hpair (fun h => absurd h (by decide))
    ⟨img', sources, .empty, [], []⟩ hcolours rfl (.refl _)
  refine ⟨?_, hstop.trans hnone, hsame⟩
  have hsome : ((final img).1.image.get? 0 0).isSome := by decide +kernel
  obtain ⟨p, hp⟩ := Option.isSome_iff_exists.mp hsome
  obtain ⟨q, hq, hqp⟩ := halpha 0 0 p hp
  obtain rfl : (⟨5, 6, 7, 8⟩ : Pixel) = q := Option.some.inj hq
  exact ⟨p, hp, hqp.symm⟩

end Run
end ImagePipeline
