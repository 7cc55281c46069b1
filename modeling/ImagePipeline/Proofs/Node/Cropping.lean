import ImagePipeline.Proofs.Image.Grey
import ImagePipeline.Proofs.Node.Makes
import Mathlib.Algebra.BigOperators.Group.List.Basic

/-!
# Crops one after another

A region of a region is a region, whose corner is the sum of both corners and which has the
extents of the inner one.  So crops one after another are a single one.  Turning an image grey
commutes with a crop, and doing it twice does no more than doing it once, so what crops and
greyscale nodes make depends on the crops alone, and on whether there is a greyscale node at all.

## Main definitions

* `Region.inside`, `Region.fused` — a region of a region, and regions one inside another.
* `cropAll` — crops one after another.
* `regions` — the regions that nodes crop to.
* `OnlyCropsAndGreys` — there are no nodes but crops and greyscale nodes.
* `turnedBy` — an image as it is, or grey if one of the nodes is a greyscale node.

## Main results

* `isCut_fused_of_cropAll` — crops one after another are a single one.
* `cropAll_grey` — grey images are cropped as the images are.
* `applyAll_eq` — what crops and greyscale nodes make.
-/

namespace ImagePipeline

open Image

variable {img mid out : Image} {r q : Region} {rs : List Region}

/-! ### Regions of regions -/

namespace Region

/-- The region `inner` of the region `outer`. -/
def inside (outer inner : Region) : Region :=
  ⟨outer.x + inner.x, outer.y + inner.y, inner.width, inner.height⟩

/-- The last of several regions, each inside the one before: its corner is the sum of all
corners. -/
def fused (rs : List Region) (h : rs ≠ []) : Region :=
  ⟨(rs.map Region.x).sum, (rs.map Region.y).sum, (rs.getLast h).width, (rs.getLast h).height⟩

theorem fused_singleton (r : Region) : fused [r] (List.cons_ne_nil r []) = r := by
  simp [fused]

theorem fused_cons (r : Region) (h : rs ≠ []) :
    fused (r :: rs) (List.cons_ne_nil r rs) = r.inside (fused rs h) := by
  simp [fused, inside, List.getLast_cons h]

end Region

/-- **A region of a region is a region.** -/
theorem Image.IsCut.trans (h : IsCut r img mid) (h' : IsCut q mid out) :
    IsCut (r.inside q) img out := by
  have hfits := h.fits
  have hfits' := h'.fits
  rw [h.width_eq, h.height_eq] at hfits'
  unfold Region.Fits at hfits hfits'
  have hx : (r.x + q.x).toNat = r.x.toNat + q.x.toNat := by omega
  have hy : (r.y + q.y).toNat = r.y.toNat + q.y.toNat := by omega
  refine ⟨?_, h'.width_eq, h'.height_eq, fun i j hi hj => ?_⟩
  · unfold Region.Fits Region.inside
    dsimp only
    omega
  · obtain ⟨p, hp⟩ := Option.isSome_iff_exists.mp (get?_isSome_iff.mpr ⟨hi, hj⟩)
    have hsource := h.get?_of_get? (h'.get?_of_get? hp)
    show out.get? i j = img.get? ((r.x + q.x).toNat + i) ((r.y + q.y).toNat + j)
    rw [hp, hx, hy, Nat.add_assoc, Nat.add_assoc, hsource]

/-- Crops one after another. -/
def cropAll : List Region → Image → Except BoundsError Image
  | [], img => .ok img
  | r :: rs, img =>
    match Image.crop r img with
    | .error e => .error e
    | .ok img' => cropAll rs img'

theorem cropAll_cons_eq_ok_iff : cropAll (r :: rs) img = .ok out ↔
    ∃ mid, Image.crop r img = .ok mid ∧ cropAll rs mid = .ok out := by
  rw [cropAll]
  cases Image.crop r img <;> simp

/-- **Crops one after another are a single one.** -/
theorem isCut_fused_of_cropAll (hrs : rs ≠ []) (h : cropAll rs img = .ok out) :
    IsCut (Region.fused rs hrs) img out := by
  induction rs generalizing img with
  | nil => exact absurd rfl hrs
  | cons r rs ih =>
    obtain ⟨mid, hfirst, hrest⟩ := cropAll_cons_eq_ok_iff.mp h
    have hcut := isCut_of_crop hfirst
    cases rs with
    | nil =>
      obtain rfl : mid = out := Except.ok.inj hrest
      rwa [Region.fused_singleton]
    | cons q rs =>
      rw [Region.fused_cons r (List.cons_ne_nil q rs)]
      exact hcut.trans (ih (List.cons_ne_nil q rs) hrest)

/-- Crops that do not go through end at one of them. -/
theorem exists_refused {e : BoundsError} (h : cropAll rs img = .error e) :
    ∃ before r after mid, rs = before ++ r :: after ∧ cropAll before img = .ok mid ∧
      Image.crop r mid = .error e := by
  induction rs generalizing img with
  | nil => exact absurd h (by simp [cropAll])
  | cons r rs ih =>
    rw [cropAll] at h
    cases hcrop : Image.crop r img with
    | error e' =>
      rw [hcrop] at h
      obtain rfl : e' = e := Except.error.inj h
      exact ⟨[], r, rs, img, rfl, rfl, hcrop⟩
    | ok mid =>
      rw [hcrop] at h
      obtain ⟨before, q, after, last, rfl, hbefore, hq⟩ := ih h
      exact ⟨r :: before, q, after, last, rfl, cropAll_cons_eq_ok_iff.mpr ⟨mid, hcrop, hbefore⟩, hq⟩

/-! ### Crops of grey images -/

theorem Image.grey_grey (img : Image) : img.grey.grey = img.grey := (isGrey_grey img).grey_eq

theorem Image.IsCut.grey (h : IsCut r img out) : IsCut r img.grey out.grey where
  fits := h.fits
  width_eq := h.width_eq
  height_eq := h.height_eq
  get?_eq i j hi hj := by rw [get?_grey, get?_grey, h.get?_eq i j hi hj]

/-- **A grey image is cropped as the image is.** -/
theorem Image.crop_grey (r : Region) (img : Image) :
    crop r img.grey = (crop r img).map Image.grey := by
  cases h : crop r img with
  | error e =>
    -- the check looks at the extents only
    have hcheck := crop_eq_error_iff.mp h
    have hrefused : crop r img.grey = .error e := crop_eq_error_iff.mpr hcheck
    exact hrefused
  | ok out => exact crop_eq_ok_iff.mpr (isCut_of_crop h).grey

theorem cropAll_grey (rs : List Region) (img : Image) :
    cropAll rs img.grey = (cropAll rs img).map Image.grey := by
  induction rs generalizing img with
  | nil => rfl
  | cons r rs ih =>
    rw [cropAll, cropAll, crop_grey]
    cases Image.crop r img with
    | error e => rfl
    | ok mid => exact ih mid

/-! ### Crops and greyscale nodes -/

/-- The region that a node crops to. -/
def Node.region? : Node → Option Region
  | .crop r => some r
  | _ => none

theorem Node.region?_eq_some_iff {n : Node} : n.region? = some r ↔ n = .crop r := by
  cases n <;> simp [region?]

/-- The regions that nodes crop to. -/
def regions (ns : List Node) : List Region := ns.filterMap Node.region?

theorem regions_append (ns ns' : List Node) : regions (ns ++ ns') = regions ns ++ regions ns' :=
  List.filterMap_append

theorem regions_map_crop (rs : List Region) : regions (rs.map .crop) = rs := by
  rw [regions, List.filterMap_map]
  exact List.filterMap_some

/-- There are no nodes but crops and greyscale nodes. -/
def OnlyCropsAndGreys (ns : List Node) : Prop := ∀ n ∈ ns, n = .greyscale ∨ ∃ r, n = .crop r

/-- The image as it is, or grey if one of the nodes is a greyscale node. -/
def turnedBy (ns : List Node) (img : Image) : Image := if .greyscale ∈ ns then img.grey else img

variable {ns : List Node}

theorem size_turnedBy (ns : List Node) (img : Image) : (turnedBy ns img).size = img.size := by
  unfold turnedBy
  split <;> rfl

theorem turnedBy_crop_cons (r : Region) (ns : List Node) (img : Image) :
    turnedBy (.crop r :: ns) img = turnedBy ns img := by
  simp [turnedBy]

theorem turnedBy_map_crop (rs : List Region) (img : Image) :
    turnedBy (rs.map .crop) img = img := by
  simp [turnedBy]

theorem turnedBy_greyscale_cons (ns : List Node) (img : Image) :
    turnedBy (.greyscale :: ns) img = turnedBy ns img.grey := by
  simp [turnedBy, grey_grey]

/-- **What crops and greyscale nodes make** is what the crops make, turned grey if there is a
greyscale node; and they fail as the crops do. -/
theorem applyAll_eq (hns : OnlyCropsAndGreys ns) (s : Sources) (img : Image) :
    applyAll ns s img =
      match cropAll (regions ns) img with
      | .ok out => .ok (turnedBy ns out, s)
      | .error e => .error (.bounds e) := by
  induction ns generalizing img with
  | nil => rfl
  | cons n ns ih =>
    obtain ⟨hn, hrest⟩ := List.forall_mem_cons.mp hns
    rcases hn with rfl | ⟨r, rfl⟩
    · have hregions : regions (.greyscale :: ns) = regions ns := rfl
      show applyAll ns s img.grey = _
      rw [ih hrest, hregions, cropAll_grey]
      cases cropAll (regions ns) img with
      | error e => rfl
      | ok out => simp only [Except.map, turnedBy_greyscale_cons]
    · have hregions : regions (.crop r :: ns) = r :: regions ns := rfl
      rw [hregions, cropAll, applyAll, Node.apply]
      cases Image.crop r img with
      | error e => rfl
      | ok mid =>
        simp only [turnedBy_crop_cons]
        exact ih hrest mid

/-- Where the regions are cut in two, so are the nodes. -/
theorem exists_crop_of_regions_eq {before after : List Region}
    (h : regions ns = before ++ r :: after) :
    ∃ front back, ns = front ++ .crop r :: back ∧ regions front = before := by
  obtain ⟨front, tail, rfl, hfront, htail⟩ := List.filterMap_eq_append_iff.mp h
  obtain ⟨greys, n, back, rfl, hgreys, hn, -⟩ := List.filterMap_eq_cons_iff.mp htail
  obtain rfl := Node.region?_eq_some_iff.mp hn
  have hnone : regions greys = [] := List.filterMap_eq_nil_iff.mpr hgreys
  refine ⟨front ++ greys, back, by rw [List.append_assoc], ?_⟩
  rw [regions_append, hnone, List.append_nil]
  exact hfront

end ImagePipeline
