import ImagePipeline.Proofs.Image.Brightness
import ImagePipeline.Proofs.Run.Pairs

/-!
# Brightness in a run

Two images of one size, one of them nowhere brighter, are put through the same nodes with the same
draws.  Every node but the one that stretches the contrast makes images of them that are ordered in
the same way, or of neither, so the two runs end alike.  All of this rests on the integers that the
nodes compute being channel values already when they are stored: a value that left the range of
bytes would come back at its other end.

## Main definitions

* `Node.StoresExactly` — the stored channel values are the integers that a node computes.

## Main results

* `Node.respects_dimmer` — a node keeps the order of images.
* `Node.storesExactly` — no node stores anything else than it computes.
* `run_brightness` — both for a whole run.
-/

namespace ImagePipeline

open Image

namespace Node

/-- **A node that does not stretch the contrast keeps the order of images.** -/
theorem respects_dimmer {n : Node} (hn : n ≠ .normalise) : n.Respects Dimmer := by
  intro s a b h
  cases n with
  | greyscale => exact .makes s h.grey
  | normalise => exact absurd rfl hn
  | vignette => exact .makes s h.vignette
  | noise amount id =>
    exact respects_noise amount id (fun _ _ h => h.size_eq) (fun band d _ _ h => h.addNoise band d)
      s a b h
  | crop r => exact respects_crop r (fun _ _ h => h.size_eq) (fun _ _ _ _ h => h.cut) s a b h
  | custom k => exact respects_custom k Dimmer.refl s a b h

/-- The colour channels that a node stores in the image `out`, made of the image `img`, are the
integers that it computes.  Nothing is computed by crops and custom nodes. -/
inductive StoresExactly (s : Sources) (img out : Image) : Node → Prop
  /-- The rounded luminance is a channel value. -/
  | greyscale (h : ∀ x y p q, img.get? x y = some p → out.get? x y = some q → ∀ c,
      (Luminance.ofColour p.red p.green p.blue).nearestInt? = some ((q.value c).toNat : ℤ)) :
      StoresExactly s img out .greyscale
  /-- The integer part of the product is a channel value. -/
  | vignette (h : ∀ x y p q, img.get? x y = some p → out.get? x y = some q → ∀ c,
      (Luminance.ofByte (p.value c) * Vignette.brightness img.width img.height x y).truncate? =
        some ((q.value c).toNat : ℤ)) : StoresExactly s img out .vignette
  /-- The sum is one of words of 64 bits, and it is cut off before it is stored. -/
  | noise {amount : Noise.Amount} {id : Option ℕ} {b : Noise.Band} (hb : amount.band? = some b)
      (h : ∀ x y p q, img.get? x y = some p → out.get? x y = some q →
        Noise.Moves (Noise.offsetAt b (s.draws id) img.width x y) p q) :
      StoresExactly s img out (.noise amount id)
  | crop {r : Region} (h : IsCut r img out) : StoresExactly s img out (.crop r)
  | custom {k : CustomKind} (h : k.behaviour.apply img = .ok out) :
      StoresExactly s img out (.custom k)

/-- **No node stores anything else than it computes**, unless it stretches the contrast. -/
theorem storesExactly {n : Node} (hn : n ≠ .normalise) {s s' : Sources} {img out : Image}
    (h : n.apply s img = .ok (out, s')) : n.StoresExactly s img out := by
  cases makes_of_apply h with
  | greyscale =>
    refine .greyscale fun x y p q hp hq c => ?_
    rw [get?_grey, hp] at hq
    obtain rfl := Option.some.inj hq
    rw [(Luminance.nearestInt?_ofColour p.red p.green p.blue).1]
    cases c <;> rfl
  | normalise => exact absurd rfl hn
  | vignette =>
    refine .vignette fun x y p q hp hq c => ?_
    rw [get?_vignette, hp] at hq
    obtain rfl := Option.some.inj hq
    obtain ⟨t, ht, hlow, hhigh⟩ := Vignette.exists_toRat?_brightness img.width img.height x y
    rw [Vignette.truncate?_mul_factor ht hlow hhigh, ← Vignette.toNat_darken ht hlow hhigh]
    cases c <;> rfl
  | @noise amount id b hb =>
    obtain ⟨x, -, rfl⟩ := Option.map_eq_some_iff.mp hb
    refine .noise hb fun i j p q hp hq => ?_
    obtain ⟨q', hq', hmoves⟩ := (Noise.disturbs_addNoise x (s.draws id) img).moves i j p hp
    obtain rfl : q' = q := Option.some.inj (hq'.symm.trans hq)
    exact hmoves
  | crop hcrop => exact .crop (crop_eq_ok_iff.mp hcrop)
  | custom hcustom => exact .custom hcustom

end Node

namespace Run

/-- **A run that does not stretch the contrast keeps the order of images.**  On an image that is
nowhere brighter, with the same draws, it ends in the same way as on the other, with a result that
is nowhere brighter.  Whatever image a node of the run is applied to, and whatever has been drawn
before, it stores the integers that it computes. -/
theorem run_brightness {o : Options} (ho : o.IgnoresBytes) {nodes : Pipeline}
    (hnodes : Node.normalise ∉ nodes) {s t : State} (himage : Dimmer s.image t.image)
    (hsources : t.sources = s.sources) (hshape : s.tree.SameShape t.tree) :
    (run o nodes t).2 = (run o nodes s).2 ∧
      Dimmer (run o nodes s).1.image (run o nodes t).1.image ∧
      (run o nodes t).1.sources = (run o nodes s).1.sources ∧
      ∀ n ∈ nodes, ∀ sources img out sources', n.apply sources img = .ok (out, sources') →
        n.StoresExactly sources img out := by
  have hne : ∀ n ∈ nodes, n ≠ .normalise := fun n hn h => hnodes (h ▸ hn)
  have hmatches : Matches Dimmer s.reports t.reports (run o nodes s) (run o nodes t) :=
    matches_run ho (fun _ _ h => h.size_eq) (fun n hn => Node.respects_dimmer (hne n hn)) himage
      hsources hshape
  exact ⟨hmatches.stop, hmatches.image, hmatches.sources, fun n hn _ _ _ _ happly =>
    Node.storesExactly (hne n hn) happly⟩

/-- Offsets that cut off channel values at either end keep the order of two images of four columns,
one of them nine levels brighter. -/
theorem run_brightness_nine_levels :
    let o : Options := ⟨false, false, .ofChars ['.'], "output", ['p', 'n', 'g'], fun _ => none⟩
    let sources : Sources := ⟨fun _ => .ofList [], fun _ => .ofList [509, 250, 0, 300]⟩
    let dark : Image :=
      ⟨4, 1, #[⟨0, 10, 20, 1⟩, ⟨250, 3, 77, 2⟩, ⟨90, 91, 92, 3⟩, ⟨1, 2, 255, 4⟩], rfl⟩
    let bright : Image := dark.map fun p => p.mapColour (Noise.shift 9)
    let nodes : Pipeline := [.vignette, .noise (.real (.ofNat 1)) (some 0), .crop ⟨1, 0, 3, 1⟩,
      .greyscale]
    let final (i : Image) : State × Option Stop := run o nodes ⟨i, sources, .empty, [], []⟩
    Dimmer dark bright ∧ (final dark).2 = none ∧ (final bright).2 = none ∧
      Dimmer (final dark).1.image (final bright).1.image := by
  intro o sources dark bright nodes final
  have himage : Dimmer dark bright := by
    refine ⟨rfl, fun x y p q hp hq c => ?_⟩
    rw [get?_map, hp] at hq
    obtain rfl := Option.some.inj hq
    have hshift := Noise.toNat_shift 9 (p.value c)
    have hvalue := Noise.value_lt p c
    have hle : p.value c ≤ Noise.shift 9 (p.value c) := UInt8.le_iff_toNat_le.mpr (by omega)
    cases c <;> exact hle
  have hnone : (final dark).2 = none := by decide +kernel
  obtain ⟨hstop, horder, -⟩ := @run_brightness o (fun h => absurd h (by decide)) nodes (by decide)
    ⟨dark, sources, .empty, [], []⟩ ⟨bright, sources, .empty, [], []⟩ himage rfl (.refl _)
  exact ⟨himage, hnone, hstop.trans hnone, horder⟩

end Run
end ImagePipeline
