import ImagePipeline.Proofs.Binary64.Nearest
import ImagePipeline.Proofs.Image.Grey
import ImagePipeline.Proofs.Node.Sizes

/-!
# Exact contrast

Stretching multiplies a level by 255 and divides it by the range of the levels.  Differences
and products of levels are integers and exact, so the quotient is the only result that is
rounded.  Its denominator is at most 255: unless the quotient is the middle of two integers,
and then it is exact, it is further away from every middle than rounding can move it.  So the
nearest integer of the computed quotient is the nearest integer of the exact one.

## Main definitions

* `Pixel.level` — the grey level of a pixel.
* `Image.HasExtremes` — the least and the greatest grey level of an image.
* `stretchQuotient`, `stretchExact` — the spread level as it is computed, and the exact one.
* `Image.IsStretched` — an image with its grey levels spread exactly.

## Main results

* `exists_nearestInt?_ratio` — dividing by a small number and rounding twice is exact.
* `isStretched_spread` — spreading between the extremes.
* `Node.apply_normalise_exact` — stretching the contrast of any image with pixels.
-/

namespace ImagePipeline

open Binary64

/-! ### Extremes -/

/-- The least and the greatest of a list of levels, both of which are in it. -/
structure AreExtremes (vs : List UInt8) (lo hi : UInt8) : Prop where
  lo_mem : lo ∈ vs
  hi_mem : hi ∈ vs
  bounds : ∀ v ∈ vs, lo ≤ v ∧ v ≤ hi

theorem min_level_cases (a b : UInt8) : (min a b = a ∧ a ≤ b) ∨ (min a b = b ∧ b ≤ a) := by
  show ((if a ≤ b then a else b) = a ∧ _) ∨ ((if a ≤ b then a else b) = b ∧ _)
  split
  · next h => exact Or.inl ⟨rfl, h⟩
  · next h => exact Or.inr ⟨rfl, (UInt8.le_total a b).resolve_left h⟩

theorem max_level_cases (a b : UInt8) : (max a b = b ∧ a ≤ b) ∨ (max a b = a ∧ b ≤ a) := by
  show ((if a ≤ b then b else a) = b ∧ _) ∨ ((if a ≤ b then b else a) = a ∧ _)
  split
  · next h => exact Or.inl ⟨rfl, h⟩
  · next h => exact Or.inr ⟨rfl, (UInt8.le_total a b).resolve_left h⟩

/-- One more level is compared with either extreme. -/
theorem AreExtremes.concat {vs : List UInt8} {lo hi : UInt8} (h : AreExtremes vs lo hi)
    (w : UInt8) : AreExtremes (vs ++ [w]) (min lo w) (max hi w) := by
  have hlast : w ∈ vs ++ [w] := List.mem_append_right _ (List.mem_singleton_self w)
  have hmin : min lo w ∈ vs ++ [w] ∧ min lo w ≤ lo ∧ min lo w ≤ w := by
    rcases min_level_cases lo w with ⟨hmin, hle⟩ | ⟨hmin, hle⟩ <;> rw [hmin]
    · exact ⟨List.mem_append_left _ h.lo_mem, UInt8.le_refl lo, hle⟩
    · exact ⟨hlast, hle, UInt8.le_refl w⟩
  have hmax : max hi w ∈ vs ++ [w] ∧ hi ≤ max hi w ∧ w ≤ max hi w := by
    rcases max_level_cases hi w with ⟨hmax, hle⟩ | ⟨hmax, hle⟩ <;> rw [hmax]
    · exact ⟨hlast, hle, UInt8.le_refl w⟩
    · exact ⟨List.mem_append_left _ h.hi_mem, UInt8.le_refl hi, hle⟩
  refine ⟨hmin.1, hmax.1, fun v hv => ?_⟩
  rcases List.mem_append.mp hv with hold | hnew
  · obtain ⟨hlo, hhi⟩ := h.bounds v hold
    exact ⟨UInt8.le_trans hmin.2.1 hlo, UInt8.le_trans hhi hmax.2.1⟩
  · obtain rfl := List.mem_singleton.mp hnew
    exact ⟨hmin.2.2, hmax.2.2⟩

theorem areExtremes_foldl (vs : List UInt8) {us : List UInt8} {lo hi : UInt8}
    (h : AreExtremes us lo hi) :
    ∃ lo' hi', vs.foldl (fun (lo, hi) w => (min lo w, max hi w)) (lo, hi) = (lo', hi') ∧
      AreExtremes (us ++ vs) lo' hi' := by
  induction vs generalizing us lo hi with
  | nil => exact ⟨lo, hi, rfl, by rwa [List.append_nil]⟩
  | cons w vs ih =>
    obtain ⟨lo', hi', hfold, hextremes⟩ := ih (h.concat w)
    exact ⟨lo', hi', hfold, by rwa [List.append_assoc] at hextremes⟩

/-- **The extremes of a list** are its least and its greatest level. -/
theorem areExtremes_of_extremes? {vs : List UInt8} {e : UInt8 × UInt8}
    (h : extremes? vs = some e) : AreExtremes vs e.1 e.2 := by
  cases vs with
  | nil => exact absurd h (by simp [extremes?])
  | cons v vs =>
    have hfirst : AreExtremes [v] v v := by
      refine ⟨List.mem_singleton_self v, List.mem_singleton_self v, fun u hu => ?_⟩
      obtain rfl := List.mem_singleton.mp hu
      exact ⟨UInt8.le_refl u, UInt8.le_refl u⟩
    obtain ⟨lo, hi, hfold, hextremes⟩ := areExtremes_foldl vs hfirst
    obtain rfl : (lo, hi) = e := hfold.symm.trans (Option.some.inj h)
    exact hextremes

/-- The grey level of a pixel. -/
def Pixel.level (p : Pixel) : UInt8 := Luminance.level p.red p.green p.blue

namespace Image

/-- The least and the greatest grey level of an image. -/
structure HasExtremes (img : Image) (lo hi : UInt8) : Prop where
  exists_lo : ∃ x y p, img.get? x y = some p ∧ p.level = lo
  exists_hi : ∃ x y p, img.get? x y = some p ∧ p.level = hi
  bounds : ∀ x y p, img.get? x y = some p → lo ≤ p.level ∧ p.level ≤ hi

/-- An image has one least and one greatest level. -/
theorem HasExtremes.eq {img : Image} {lo hi lo' hi' : UInt8} (h : img.HasExtremes lo hi)
    (h' : img.HasExtremes lo' hi') : lo = lo' ∧ hi = hi' := by
  obtain ⟨x, y, p, hp, rfl⟩ := h.exists_lo
  obtain ⟨x', y', p', hp', rfl⟩ := h'.exists_lo
  obtain ⟨u, v, q, hq, rfl⟩ := h.exists_hi
  obtain ⟨u', v', q', hq', rfl⟩ := h'.exists_hi
  exact ⟨UInt8.le_antisymm (h.bounds x' y' p' hp').1 (h'.bounds x y p hp).1,
    UInt8.le_antisymm (h'.bounds u v q hq).2 (h.bounds u' v' q' hq').2⟩

theorem mem_toList_iff {img : Image} {p : Pixel} :
    p ∈ img.toList ↔ ∃ x y, img.get? x y = some p := by
  rw [toList, Array.mem_toList_iff, Array.mem_iff_getElem?]
  constructor
  · rintro ⟨i, hi⟩
    obtain ⟨hlt, -⟩ := Array.getElem?_eq_some_iff.mp hi
    rw [img.size_pixels] at hlt
    have hwidth : 0 < img.width := Nat.pos_of_mul_pos_right (Nat.zero_lt_of_lt hlt)
    refine ⟨i % img.width, i / img.width, ?_⟩
    rw [get?, if_pos (Nat.mod_lt i hwidth), Nat.mul_comm, Nat.div_add_mod, hi]
  · rintro ⟨x, y, hp⟩
    rw [get?] at hp
    split at hp
    · exact ⟨_, hp⟩
    · exact absurd hp (by simp)

/-- The levels of an image are the grey levels of its pixels. -/
theorem mem_levels_iff {img : Image} {v : UInt8} :
    v ∈ img.levels ↔ ∃ x y p, img.get? x y = some p ∧ p.level = v := by
  rw [levels, List.mem_map]
  constructor
  · rintro ⟨g, hg, rfl⟩
    obtain ⟨x, y, hxy⟩ := mem_toList_iff.mp hg
    rw [get?_grey] at hxy
    obtain ⟨p, hp, rfl⟩ := Option.map_eq_some_iff.mp hxy
    exact ⟨x, y, p, hp, rfl⟩
  · rintro ⟨x, y, p, hp, rfl⟩
    exact ⟨p.toGrey, mem_toList_iff.mpr ⟨x, y, by rw [get?_grey, hp, Option.map_some]⟩, rfl⟩

theorem hasExtremes_of_extremes? {img : Image} {e : UInt8 × UInt8}
    (h : extremes? img.levels = some e) : img.HasExtremes e.1 e.2 := by
  have hextremes := areExtremes_of_extremes? h
  exact ⟨mem_levels_iff.mp hextremes.lo_mem, mem_levels_iff.mp hextremes.hi_mem,
    fun x y p hp => hextremes.bounds _ (mem_levels_iff.mpr ⟨x, y, p, hp, rfl⟩)⟩

end Image

/-! ### The quotient -/

/-- A fraction that is no multiple of a half is at least a half of the unit of its denominator
away from the middle of two integers. -/
theorem one_div_le_abs_sub_middle {n d : ℕ} (hd : 0 < d) (h : ¬ d ∣ 2 * n) (m : ℤ) :
    1 / (2 * d : ℚ) ≤ |(n : ℚ) / d - (m + 1 / 2)| := by
  have hpos : (0 : ℚ) < d := by exact_mod_cast hd
  -- twice the numerator is at least one away from every odd multiple of the denominator
  have hne : (2 : ℤ) * n - d * (2 * m + 1) ≠ 0 := by
    intro hzero
    have hmultiple : ((2 * n : ℕ) : ℤ) = d * (2 * m + 1) := by
      push_cast
      omega
    exact h (Int.natCast_dvd_natCast.mp ⟨_, hmultiple⟩)
  have hgap : (1 : ℚ) ≤ |(2 : ℚ) * n - d * (2 * m + 1)| := by exact_mod_cast Int.one_le_abs hne
  have hdistance : (n : ℚ) / d - (m + 1 / 2) = (2 * n - d * (2 * m + 1)) / (2 * d) := by
    field_simp
  rw [hdistance, abs_div, abs_of_pos (a := (2 * d : ℚ)) (by positivity)]
  exact div_le_div_of_nonneg_right hgap (by positivity)

/-- **Dividing by a small number is as good as exact**: the nearest integer of the rounded
quotient is the nearest integer of the exact one. -/
theorem exists_nearestInt?_ratio {n d : ℕ} (hd : 0 < d) (hd' : d ≤ 255) (hn : n ≤ 255 * d)
    (s : Bool) :
    ∃ w, (ofRat s (n / d)).nearestInt? = some w ∧ IsNearestEven w ((n : ℚ) / d) := by
  have hpos : (0 : ℚ) < d := by exact_mod_cast hd
  by_cases hmiddle : d ∣ 2 * n
  · -- a multiple of a half has few binary digits
    obtain ⟨j, hj⟩ := hmiddle
    have hvalue : (n : ℚ) / d = j * 2 ^ (-1 : ℤ) := by
      have hcast : (2 : ℚ) * n = d * j := by exact_mod_cast hj
      rw [zpow_neg_one, div_eq_iff hpos.ne']
      linarith
    have hsmall : j ≤ 510 := by
      refine Nat.le_of_mul_le_mul_left ?_ hd
      rw [← hj]
      omega
    rw [hvalue]
    exact exists_nearestInt? (toRat?_ofRat (by omega) (by norm_num) (by norm_num) s)
  · have hupper : (n : ℚ) / d < 2 ^ (8 : ℤ) := by
      have hcast : (n : ℚ) ≤ 255 * d := by exact_mod_cast hn
      have hle : (n : ℚ) / d ≤ 255 := (div_le_iff₀ hpos).mpr hcast
      exact hle.trans_lt (by norm_num)
    obtain ⟨r, hr, -, herror⟩ := exists_toRat?_ofRat (k := 8) (by positivity) (by norm_num)
      (by norm_num) hupper s
    obtain ⟨w, hw, hnearest⟩ := exists_nearestInt? hr
    refine ⟨w, hw, hnearest.of_near fun m => ?_⟩
    have hd₂ : (d : ℚ) ≤ 255 := by exact_mod_cast hd'
    calc |r - (n : ℚ) / d| ≤ 2 ^ ((8 : ℤ) - 54) := herror
      _ < 1 / (2 * 255) := by norm_num
      _ ≤ 1 / (2 * d) := one_div_le_one_div_of_le (by positivity) (by linarith)
      _ ≤ |(n : ℚ) / d - (m + 1 / 2)| := one_div_le_abs_sub_middle hd hmiddle m

/-- The spread level as it is computed, before it is rounded to an integer. -/
def stretchQuotient (lo hi v : UInt8) : Binary64 :=
  ofNat 255 * (Luminance.ofByte v - Luminance.ofByte lo) / ofNat (hi.toNat - lo.toNat)

theorem stretchLevel_eq (lo hi v : UInt8) :
    stretchLevel lo hi v = toByte ((stretchQuotient lo hi v).nearestInt?.getD 0) := rfl

/-- The exact spread level. -/
def stretchExact (lo hi v : UInt8) : ℚ :=
  255 * ((v.toNat : ℚ) - lo.toNat) / ((hi.toNat : ℚ) - lo.toNat)

section

variable {lo hi v w : UInt8}

/-- Only the quotient of two exact integers is rounded. -/
theorem exists_stretchQuotient_eq (hlo : lo ≤ v) (h : lo < hi) :
    ∃ s, stretchQuotient lo hi v =
      ofRat s ((255 * (v.toNat - lo.toNat) : ℕ) / (hi.toNat - lo.toNat : ℕ)) := by
  have hlo' : lo.toNat ≤ v.toNat := hlo
  have h' : lo.toNat < hi.toNat := h
  have hv := v.toNat_lt
  have hhi := hi.toNat_lt
  have hbyte : ∀ b : UInt8, (Luminance.ofByte b).toRat? = some (b.toNat : ℚ) := fun b =>
    toRat?_ofRat_natCast (lt_of_lt_of_le b.toNat_lt (by norm_num)) false
  obtain ⟨s, hdifference⟩ := exists_sub_eq_ofRat (hbyte v) (hbyte lo)
  rw [← Nat.cast_sub hlo'] at hdifference
  have hexact : (Luminance.ofByte v - Luminance.ofByte lo).toRat? =
      some ((v.toNat - lo.toNat : ℕ) : ℚ) := by
    rw [hdifference]
    exact toRat?_ofRat_natCast (by omega) s
  have hfactor : (ofNat 255).toRat? = some ((255 : ℕ) : ℚ) :=
    toRat?_ofRat_natCast (by norm_num) false
  obtain ⟨t, hproduct⟩ := exists_mul_eq_ofRat hfactor hexact
  rw [← Nat.cast_mul] at hproduct
  have hexact' : (ofNat 255 * (Luminance.ofByte v - Luminance.ofByte lo)).toRat? =
      some ((255 * (v.toNat - lo.toNat) : ℕ) : ℚ) := by
    rw [hproduct]
    exact toRat?_ofRat_natCast (by omega) t
  have hrange : (ofNat (hi.toNat - lo.toNat)).toRat? = some ((hi.toNat - lo.toNat : ℕ) : ℚ) :=
    toRat?_ofRat_natCast (by omega) false
  have hne : ((hi.toNat - lo.toNat : ℕ) : ℚ) ≠ 0 := by
    rw [Nat.cast_ne_zero]
    omega
  exact exists_div_eq_ofRat hexact' hrange hne

theorem stretchExact_eq (hlo : lo ≤ v) (h : lo < hi) : stretchExact lo hi v =
    ((255 * (v.toNat - lo.toNat) : ℕ) : ℚ) / (hi.toNat - lo.toNat : ℕ) := by
  have hlo' : lo.toNat ≤ v.toNat := hlo
  have h' : lo.toNat ≤ hi.toNat := le_of_lt h
  rw [stretchExact, Nat.cast_mul, Nat.cast_sub hlo', Nat.cast_sub h', Nat.cast_ofNat]

theorem stretchExact_mono (h : lo < hi) (hvw : v ≤ w) :
    stretchExact lo hi v ≤ stretchExact lo hi w := by
  have hrange : (lo.toNat : ℚ) < hi.toNat := by exact_mod_cast (show lo.toNat < hi.toNat from h)
  have hcast : (v.toNat : ℚ) ≤ w.toNat := by exact_mod_cast (show v.toNat ≤ w.toNat from hvw)
  unfold stretchExact
  exact div_le_div_of_nonneg_right (by linarith) (by linarith)

theorem stretchExact_lo (lo hi : UInt8) : stretchExact lo hi lo = 0 := by
  unfold stretchExact
  rw [sub_self, mul_zero, zero_div]

theorem stretchExact_hi (h : lo < hi) : stretchExact lo hi hi = 255 := by
  have hrange : (lo.toNat : ℚ) < hi.toNat := by exact_mod_cast (show lo.toNat < hi.toNat from h)
  unfold stretchExact
  exact mul_div_cancel_right₀ _ (by linarith)

/-- **The computed level is the nearest integer of the exact one**, and needs no clipping. -/
theorem nearestInt?_stretchQuotient (hlo : lo ≤ v) (hhi : v ≤ hi) (h : lo < hi) :
    (stretchQuotient lo hi v).nearestInt? = some ((stretchLevel lo hi v).toNat : ℤ) ∧
      IsNearestEven (stretchLevel lo hi v).toNat (stretchExact lo hi v) := by
  have hlo' : lo.toNat ≤ v.toNat := hlo
  have hhi' : v.toNat ≤ hi.toNat := hhi
  have h' : lo.toNat < hi.toNat := h
  have hmax := hi.toNat_lt
  obtain ⟨s, hquotient⟩ := exists_stretchQuotient_eq hlo h
  obtain ⟨n, hn, hnearest⟩ := exists_nearestInt?_ratio (n := 255 * (v.toNat - lo.toNat))
    (d := hi.toNat - lo.toNat) (by omega) (by omega)
    (Nat.mul_le_mul_left 255 (by omega)) s
  rw [← hquotient] at hn
  rw [← stretchExact_eq hlo h] at hnearest
  -- the exact level lies between 0 and 255, and so does its nearest integer
  have hlower : 0 ≤ n := by
    refine (IsNearestEven.intCast 0).mono hnearest ?_
    rw [Int.cast_zero, ← stretchExact_lo lo hi]
    exact stretchExact_mono h hlo
  have hupper : n ≤ 255 := by
    refine hnearest.mono (IsNearestEven.intCast 255) ?_
    rw [Int.cast_ofNat, ← stretchExact_hi h]
    exact stretchExact_mono h hhi
  have hlevel : ((stretchLevel lo hi v).toNat : ℤ) = n := by
    rw [stretchLevel_eq, hn, Option.getD_some, toNat_toByte]
    omega
  rw [hlevel]
  exact ⟨hn, hnearest⟩

/-- Spreading keeps the order of levels. -/
theorem stretchLevel_mono (hlo : lo ≤ v) (hvw : v ≤ w) (hhi : w ≤ hi) (h : lo < hi) :
    stretchLevel lo hi v ≤ stretchLevel lo hi w := by
  obtain ⟨-, hv⟩ := nearestInt?_stretchQuotient hlo (UInt8.le_trans hvw hhi) h
  obtain ⟨-, hw⟩ := nearestInt?_stretchQuotient (UInt8.le_trans hlo hvw) hhi h
  have hle := hv.mono hw (stretchExact_mono h hvw)
  exact UInt8.le_iff_toNat_le.mpr (by omega)

theorem stretchLevel_lo (h : lo < hi) : stretchLevel lo hi lo = 0 := by
  obtain ⟨-, hnearest⟩ := nearestInt?_stretchQuotient (UInt8.le_refl lo) (UInt8.le_of_lt h) h
  rw [stretchExact_lo] at hnearest
  have hzero := hnearest.eq (by exact_mod_cast IsNearestEven.intCast 0)
  exact UInt8.toNat_inj.mp (by exact_mod_cast hzero)

theorem stretchLevel_hi (h : lo < hi) : stretchLevel lo hi hi = 255 := by
  obtain ⟨-, hnearest⟩ := nearestInt?_stretchQuotient (UInt8.le_of_lt h) (UInt8.le_refl hi) h
  rw [stretchExact_hi h] at hnearest
  have htop := hnearest.eq (by exact_mod_cast IsNearestEven.intCast 255)
  exact UInt8.toNat_inj.mp (by exact_mod_cast htop)

end

/-! ### Stretched images -/

namespace Image

/-- The image `out` is the image `img` in grey, with its levels spread from the range between
`lo` and `hi` over the range of a channel. -/
structure IsStretched (lo hi : UInt8) (img out : Image) : Prop where
  size_eq : out.size = img.size
  /-- Every level is the nearest integer of the exact one, without being clipped. -/
  nearest : ∀ x y p, img.get? x y = some p → ∃ w : UInt8, out.get? x y = some (.grey w p.alpha) ∧
    (stretchQuotient lo hi p.level).nearestInt? = some (w.toNat : ℤ) ∧
    IsNearestEven w.toNat (stretchExact lo hi p.level)
  exists_black : ∃ x y p, out.get? x y = some p ∧ p.red = 0
  exists_white : ∃ x y p, out.get? x y = some p ∧ p.red = 255
  mono : ∀ x y p x' y' p' o o', img.get? x y = some p → img.get? x' y' = some p' →
    out.get? x y = some o → out.get? x' y' = some o' → p.level ≤ p'.level → o.red ≤ o'.red

/-- **Spreading between the extremes** is exact. -/
theorem isStretched_spread {img : Image} {lo hi : UInt8} (he : img.HasExtremes lo hi)
    (h : lo < hi) : IsStretched lo hi img (img.grey.spread lo hi) := by
  have hget : ∀ x y p, img.get? x y = some p → (img.grey.spread lo hi).get? x y =
      some (.grey (stretchLevel lo hi p.level) p.alpha) := by
    intro x y p hp
    rw [(isRecoloured_spread_grey lo hi img).get?_eq, hp, Option.map_some, spreadColours,
      if_neg (UInt8.ne_of_lt h)]
    rfl
  refine ⟨size_spread lo hi img.grey, fun x y p hp => ?_, ?_, ?_, ?_⟩
  · obtain ⟨hlo, hhi⟩ := he.bounds x y p hp
    obtain ⟨hcomputed, hnearest⟩ := nearestInt?_stretchQuotient hlo hhi h
    exact ⟨_, hget x y p hp, hcomputed, hnearest⟩
  · obtain ⟨x, y, p, hp, hlevel⟩ := he.exists_lo
    exact ⟨x, y, _, hget x y p hp, by rw [hlevel]; exact stretchLevel_lo h⟩
  · obtain ⟨x, y, p, hp, hlevel⟩ := he.exists_hi
    exact ⟨x, y, _, hget x y p hp, by rw [hlevel]; exact stretchLevel_hi h⟩
  · intro x y p x' y' p' o o' hp hp' ho ho' hle
    obtain rfl := Option.some.inj ((hget x y p hp).symm.trans ho)
    obtain rfl := Option.some.inj ((hget x' y' p' hp').symm.trans ho')
    exact stretchLevel_mono (he.bounds x y p hp).1 hle (he.bounds x' y' p' hp').2 h

end Image

/-- **Stretching the contrast is exact.**  An image with pixels has a least and a greatest grey
level.  If they differ, every pixel becomes the grey of the nearest integer of the exact spread
level; if not, the image becomes grey and nothing else. -/
theorem Node.apply_normalise_exact (s : Sources) (img : Image) (hs : HasPixels img.size) :
    ∃ out lo hi, Node.normalise.apply s img = .ok (out, s) ∧ img.HasExtremes lo hi ∧
      (lo < hi → img.IsStretched lo hi out) ∧ (lo = hi → out = img.grey) := by
  obtain ⟨out, hout⟩ := Image.exists_stretch? hs
  have happly : Node.normalise.apply s img = .ok (out, s) := by
    rw [Node.apply]
    simp only [hout]
  rw [Image.stretch?_eq] at hout
  obtain ⟨⟨lo, hi⟩, he, rfl⟩ := Option.map_eq_some_iff.mp hout
  have hextremes := Image.hasExtremes_of_extremes? he
  refine ⟨_, lo, hi, happly, hextremes, fun h => Image.isStretched_spread hextremes h, fun h => ?_⟩
  rw [Image.spread, if_pos h]

/-- Of three greys the middle one is halfway between 127 and 128, and becomes the even level. -/
theorem Node.apply_normalise_exact_three_greys :
    let s : Sources := ⟨fun _ => .ofList [], fun _ => .ofList []⟩
    let img : Image := ⟨3, 1, #[.grey 10 4, .grey 11 5, .grey 12 6], rfl⟩
    HasPixels img.size ∧ ∃ out, Node.normalise.apply s img = .ok (out, s) ∧
      img.IsStretched 10 12 out ∧ out.get? 1 0 = some (.grey 128 5) := by
  intro s img
  have hs : HasPixels img.size := ⟨by decide, by decide⟩
  obtain ⟨out, lo, hi, happly, hextremes, hstretched, -⟩ := Node.apply_normalise_exact s img hs
  have hknown : img.HasExtremes 10 12 :=
    Image.hasExtremes_of_extremes? (e := (10, 12)) (by decide +kernel)
  obtain ⟨rfl, rfl⟩ := hextremes.eq hknown
  have h := hstretched (by decide)
  refine ⟨hs, out, happly, h, ?_⟩
  obtain ⟨w, hw, -, hnearest⟩ := h.nearest 1 0 (.grey 11 5) rfl
  have hexact : stretchExact 10 12 (Pixel.grey 11 5).level = 127.5 := by
    rw [Pixel.level, Pixel.grey, Luminance.level_self]
    show 255 * (((11 : ℕ) : ℚ) - (10 : ℕ)) / (((12 : ℕ) : ℚ) - (10 : ℕ)) = 127.5
    norm_num
  have hmiddle : IsNearestEven 128 (127.5 : ℚ) := ⟨by norm_num, fun _ => by decide⟩
  rw [hexact] at hnearest
  have hlevel := hnearest.eq hmiddle
  have heven : w = 128 := UInt8.toNat_inj.mp (by exact_mod_cast hlevel)
  rw [hw, heven]
  rfl

end ImagePipeline
