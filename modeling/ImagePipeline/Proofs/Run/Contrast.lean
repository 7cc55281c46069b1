import ImagePipeline.Proofs.Image.Stretch
import ImagePipeline.Proofs.Run.Grey

/-!
# Stretching once is enough

A stretched image whose levels differed has the levels 0 and 255, and spreading between those
bounds changes no level.  If they did not differ, it is the grey image, which has the same one
level.  Either way stretching it again returns it, and so does turning it grey; and an image has
the levels of its grey image.  So nodes that do nothing but turn grey and stretch make the
stretched image as soon as one of them stretches, however many they are and in any order.

## Main results

* `stretchLevel_full` — spreading over the whole range changes no level.
* `Image.stretch?_eq_some_iff` — a stretched image by the extremes of its levels.
* `Image.stretch?_grey`, `Image.stretch?_of_stretch?` — grey images and stretched ones stretched.
* `applyAll_of_turnsGrey` — nodes that turn grey, with one among them that stretches.
* `Node.normalise_absorbs` — the three ways to combine two of them.
-/

namespace ImagePipeline

open Binary64

theorem level_in_range (v : UInt8) : 0 ≤ v ∧ v ≤ 255 :=
  ⟨UInt8.le_iff_toNat_le.mpr (Nat.zero_le _),
    UInt8.le_iff_toNat_le.mpr (Nat.le_of_lt_succ v.toNat_lt)⟩

theorem stretchExact_full (v : UInt8) : stretchExact 0 255 v = v.toNat := by
  show 255 * ((v.toNat : ℚ) - (0 : ℕ)) / (((255 : ℕ) : ℚ) - (0 : ℕ)) = v.toNat
  rw [Nat.cast_zero, sub_zero, sub_zero, Nat.cast_ofNat]
  exact mul_div_cancel_left₀ _ (by norm_num)

/-- **Spreading over the whole range changes no level.** -/
theorem stretchLevel_full (v : UInt8) : stretchLevel 0 255 v = v := by
  obtain ⟨hlower, hupper⟩ := level_in_range v
  obtain ⟨-, hnearest⟩ := nearestInt?_stretchQuotient hlower hupper (by decide)
  rw [stretchExact_full] at hnearest
  have hlevel := hnearest.eq (by exact_mod_cast IsNearestEven.intCast v.toNat)
  exact UInt8.toNat_inj.mp (by exact_mod_cast hlevel)

/-- A grey keeps its level, and so its colour, when it is spread over the whole range. -/
theorem Colours.IsGrey.spreadColours_full {c : Colours} (h : c.IsGrey) :
    Image.spreadColours 0 255 c = c := by
  obtain ⟨r, g, b⟩ := c
  obtain ⟨rfl, rfl⟩ : r = g ∧ g = b := h
  rw [Image.spreadColours, if_neg (by decide), stretchLevel_full]
  rfl

namespace Image

variable {img out : Image} {lo hi : UInt8}

theorem HasExtremes.lo_le_hi (h : img.HasExtremes lo hi) : lo ≤ hi := by
  obtain ⟨x, y, p, hp, rfl⟩ := h.exists_lo
  exact (h.bounds x y p hp).2

/-- **A stretched image** is the grey image, spread between its extremes; there is none if there
are no extremes. -/
theorem stretch?_eq_some_iff :
    img.stretch? = some out ↔ ∃ lo hi, img.HasExtremes lo hi ∧ out = img.grey.spread lo hi := by
  rw [stretch?_eq, Option.map_eq_some_iff]
  constructor
  · rintro ⟨⟨lo, hi⟩, he, rfl⟩
    exact ⟨lo, hi, hasExtremes_of_extremes? he, rfl⟩
  · rintro ⟨lo, hi, h, rfl⟩
    cases hlevels : img.levels with
    | nil =>
      have hmem := mem_levels_iff.mpr h.exists_lo
      rw [hlevels] at hmem
      exact absurd hmem List.not_mem_nil
    | cons v vs =>
      -- the extremes that are found are those that are known
      obtain ⟨e, he⟩ : ∃ e, extremes? img.levels = some e := ⟨_, by rw [hlevels, extremes?]⟩
      obtain ⟨rfl, rfl⟩ := h.eq (hasExtremes_of_extremes? he)
      exact ⟨e, by rwa [← hlevels], rfl⟩

/-- An image has the levels of its grey image. -/
theorem stretch?_grey (img : Image) : img.grey.stretch? = img.stretch? := by
  rw [stretch?_eq, stretch?_eq, levels, levels, (isGrey_grey img).grey_eq]

theorem IsGrey.spread_full (h : img.IsGrey) : img.spread 0 255 = img := by
  have hrecoloured := isRecoloured_spread 0 255 img
  obtain ⟨hwidth, hheight⟩ := Prod.mk.inj hrecoloured.size_eq
  refine ext_get? hwidth hheight fun x y _ _ => ?_
  rw [hrecoloured.get?_eq]
  cases hp : img.get? x y with
  | none => rfl
  | some p =>
    rw [Option.map_some, (h x y p hp).spreadColours_full]
    rfl

theorem IsGrey.level_eq (h : img.IsGrey) {x y : ℕ} {p : Pixel} (hp : img.get? x y = some p) :
    p.level = p.red := by
  obtain ⟨hred, hgreen⟩ : p.red = p.green ∧ p.green = p.blue := h x y p hp
  rw [Pixel.level, ← hgreen, ← hred, Luminance.level_self]

/-- A grey image with a black pixel and a white one has the whole range of levels. -/
theorem IsGrey.hasExtremes_full (h : img.IsGrey)
    (hblack : ∃ x y p, img.get? x y = some p ∧ p.red = 0)
    (hwhite : ∃ x y p, img.get? x y = some p ∧ p.red = 255) : img.HasExtremes 0 255 := by
  obtain ⟨x, y, p, hp, hred⟩ := hblack
  obtain ⟨x', y', p', hp', hred'⟩ := hwhite
  refine ⟨⟨x, y, p, hp, (h.level_eq hp).trans hred⟩,
    ⟨x', y', p', hp', (h.level_eq hp').trans hred'⟩, fun _ _ q _ => level_in_range q.level⟩

/-- **A stretched image is stretched already.** -/
theorem stretch?_of_stretch? (h : img.stretch? = some out) : out.stretch? = some out := by
  have hgrey := isGrey_of_stretch? h
  obtain ⟨lo, hi, he, hout⟩ := stretch?_eq_some_iff.mp h
  by_cases hone : lo = hi
  · -- all levels are the same, and the image has only been turned grey
    rw [spread, if_pos hone] at hout
    rw [hout, stretch?_grey, h, hout]
  · have hlt : lo < hi := UInt8.lt_of_le_of_ne he.lo_le_hi hone
    have hstretched := isStretched_spread he hlt
    rw [← hout] at hstretched
    refine stretch?_eq_some_iff.mpr ⟨0, 255, ?_, ?_⟩
    · exact hgrey.hasExtremes_full hstretched.exists_black hstretched.exists_white
    · rw [hgrey.grey_eq, hgrey.spread_full]

end Image

/-! ### Nodes that turn grey -/

section

variable {n : Node} {ns : List Node} {s : Sources} {img out : Image}

/-- **A node that turns grey does nothing to what is stretched already.** -/
theorem Node.TurnsGrey.makes_of_stretch? (hn : n.TurnsGrey) (h : img.stretch? = some out) :
    n.Makes s out out s := by
  rcases hn.eq_or_eq with rfl | rfl
  · have hmakes : Node.Makes s out .greyscale out.grey s := .greyscale
    rwa [(Image.isGrey_of_stretch? h).grey_eq] at hmakes
  · exact .normalise (Image.stretch?_of_stretch? h)

theorem applyAll_of_stretched (hns : ∀ n ∈ ns, n.TurnsGrey) (h : img.stretch? = some out) :
    applyAll ns s out = .ok (out, s) := by
  induction ns with
  | nil => rfl
  | cons n ns ih =>
    obtain ⟨hn, hns⟩ := List.forall_mem_cons.mp hns
    exact applyAll_cons_eq_ok_iff.mpr ⟨out, s, hn.makes_of_stretch? h, ih hns⟩

/-- **One node that stretches settles the image**, among any number of nodes that turn grey. -/
theorem applyAll_of_turnsGrey (hns : ∀ n ∈ ns, n.TurnsGrey) (hmem : Node.normalise ∈ ns)
    (h : img.stretch? = some out) : applyAll ns s img = .ok (out, s) := by
  induction ns generalizing img with
  | nil => exact absurd hmem List.not_mem_nil
  | cons n ns ih =>
    obtain ⟨hn, hothers⟩ := List.forall_mem_cons.mp hns
    rcases hn.eq_or_eq with rfl | rfl
    · -- the first node turns the image grey, and a later one stretches it
      have hlater : Node.normalise ∈ ns := by simpa using hmem
      have hgrey : img.grey.stretch? = some out := (Image.stretch?_grey img).trans h
      exact applyAll_cons_eq_ok_iff.mpr ⟨img.grey, s, .greyscale, ih hothers hlater hgrey⟩
    · exact applyAll_cons_eq_ok_iff.mpr ⟨out, s, .normalise h, applyAll_of_stretched hothers h⟩

end

/-- **Stretching the contrast is idempotent and absorbs turning grey.**  An image with pixels is
stretched to one image, and that is also what is made of it by stretching it twice, by turning it
grey first, and by turning it grey afterwards. -/
theorem Node.normalise_absorbs (s : Sources) (img : Image) (hs : HasPixels img.size) :
    ∃ out, Node.normalise.apply s img = .ok (out, s) ∧
      applyAll [.normalise, .normalise] s img = .ok (out, s) ∧
      applyAll [.greyscale, .normalise] s img = .ok (out, s) ∧
      applyAll [.normalise, .greyscale] s img = .ok (out, s) := by
  obtain ⟨out, hout⟩ := Image.exists_stretch? hs
  have htwo : ∀ a b : Node, a.TurnsGrey → b.TurnsGrey → Node.normalise ∈ [a, b] →
      applyAll [a, b] s img = .ok (out, s) := by
    intro a b ha hb hmem
    refine applyAll_of_turnsGrey (fun n hn => ?_) hmem hout
    rcases List.mem_pair.mp hn with rfl | rfl
    · exact ha
    · exact hb
  refine ⟨out, apply_eq_ok_iff.mpr (.normalise hout), ?_, ?_, ?_⟩
  · exact htwo .normalise .normalise trivial trivial (by simp)
  · exact htwo .greyscale .normalise trivial trivial (by simp)
  · exact htwo .normalise .greyscale trivial trivial (by simp)

/-- Two colours of different levels become black and white, and stay so. -/
theorem Node.normalise_absorbs_two_colours :
    let s : Sources := ⟨fun _ => .ofList [], fun _ => .ofList []⟩
    let img : Image := ⟨2, 1, #[⟨10, 20, 30, 4⟩, ⟨200, 100, 50, 5⟩], rfl⟩
    let out : Image := ⟨2, 1, #[.grey 0 4, .grey 255 5], rfl⟩
    HasPixels img.size ∧ applyAll [.normalise, .normalise] s img = .ok (out, s) ∧
      applyAll [.greyscale, .normalise] s img = .ok (out, s) ∧
      applyAll [.normalise, .greyscale] s img = .ok (out, s) := by
  intro s img out
  have hs : HasPixels img.size := ⟨by decide, by decide⟩
  obtain ⟨made, hmade, htwice, hbefore, hafter⟩ := Node.normalise_absorbs s img hs
  have hout : img.stretch? = some out := by decide +kernel
  have happly := Node.apply_eq_ok_iff.mpr (Node.Makes.normalise (s := s) hout)
  obtain ⟨rfl, -⟩ := Prod.mk.inj (Except.ok.inj (happly.symm.trans hmade))
  exact ⟨hs, htwice, hbefore, hafter⟩

end ImagePipeline
