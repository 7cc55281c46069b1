import ImagePipeline.Proofs.Binary64.Accuracy
import ImagePipeline.Proofs.Binary64.Comparison
import Mathlib.Algebra.Order.Ring.Abs
import Mathlib.Tactic.FieldSimp

/-!
# Nearest integers and exact results

The nearest integer of a rational is determined by what it is: at most a half away, and even
if it is halfway between two.  It stays the same for every other rational that is nearer to
the first than the middle of two integers is, which is how a result that was rounded once can
have the nearest integer of the exact one.  Rationals with few binary digits are not rounded
at all, and those that are too large have no nearest magnitude.

## Main definitions

* `IsNearestEven` — an integer is nearest to a rational, a half going to the even one.

## Main results

* `IsNearestEven.mono`, `IsNearestEven.eq` — there is one, and it grows with the rational.
* `IsNearestEven.of_near` — it is shared by rationals that are near enough.
* `Binary64.exists_nearestInt?` — the nearest integer of a number.
* `Binary64.toRat?_ofRat` — a rational with at most 53 binary digits is exact.
* `Magnitude.ofRat?_eq_none_iff` — the rationals that are too large.
* `Binary64.isFinite_ofRat_iff`, `Binary64.isFinite_ofInt_of_floor?` — what is not too large for a
  number.
-/

namespace ImagePipeline

/-- The integer `n` is nearest to the rational `q`; halfway between two it is the even one. -/
structure IsNearestEven (n : ℤ) (q : ℚ) : Prop where
  near : |(n : ℚ) - q| ≤ 1 / 2
  even : |(n : ℚ) - q| = 1 / 2 → Even n

namespace IsNearestEven

variable {m n : ℤ} {p q : ℚ}

theorem neg (h : IsNearestEven n q) : IsNearestEven (-n) (-q) := by
  have habs : |((-n : ℤ) : ℚ) - -q| = |(n : ℚ) - q| := by
    rw [← abs_neg]
    congr 1
    push_cast
    ring
  refine ⟨by rw [habs]; exact h.near, fun hhalf => ?_⟩
  rw [habs] at hhalf
  exact (h.even hhalf).neg

/-- **The nearest integer grows with the rational.** -/
theorem mono (hm : IsNearestEven m p) (hn : IsNearestEven n q) (hpq : p ≤ q) : m ≤ n := by
  by_contra hlt
  obtain ⟨-, habove⟩ := abs_le.mp hm.near
  obtain ⟨hbelow, -⟩ := abs_le.mp hn.near
  -- then both lie a half away from one rational between them, and both are even
  have hstep : (n : ℚ) + 1 ≤ m := by exact_mod_cast not_le.mp hlt
  have hmp : (m : ℚ) - p = 1 / 2 := by linarith
  have hnq : (n : ℚ) - q = -(1 / 2) := by linarith
  have hnext : m = n + 1 := by
    have hcast : (m : ℚ) = n + 1 := by linarith
    exact_mod_cast hcast
  have hmeven : Even m := hm.even (by rw [hmp]; norm_num)
  have hneven : Even n := hn.even (by rw [hnq]; norm_num)
  rw [hnext] at hmeven
  exact (Int.not_even_iff_odd.mpr hneven.add_one) hmeven

/-- A rational has one nearest integer. -/
theorem eq (hm : IsNearestEven m q) (hn : IsNearestEven n q) : m = n :=
  le_antisymm (hm.mono hn le_rfl) (hn.mono hm le_rfl)

/-- An integer is nearest to itself. -/
theorem intCast (n : ℤ) : IsNearestEven n n := by
  refine ⟨by simp, fun h => ?_⟩
  rw [sub_self, abs_zero] at h
  norm_num at h

/-- **Rationals share their nearest integer** if they are nearer to each other than one of them
is to the middle of any two integers. -/
theorem of_near (h : IsNearestEven n p)
    (hmiddle : ∀ m : ℤ, |p - q| < |q - (m + 1 / 2)|) : IsNearestEven n q := by
  obtain ⟨hbelow, habove⟩ := abs_le.mp h.near
  obtain ⟨hdistance, hdistance'⟩ := abs_le.mp (le_refl |p - q|)
  have hupper : q - n < 1 / 2 := by
    by_contra hge
    have hnear := hmiddle n
    rw [abs_of_nonneg (a := q - (n + 1 / 2)) (by linarith)] at hnear
    linarith
  have hlower : -(1 / 2) < q - n := by
    by_contra hle
    have hnear := hmiddle (n - 1)
    push_cast at hnear
    rw [abs_of_nonpos (a := q - (n - 1 + 1 / 2)) (by linarith)] at hnear
    linarith
  have hlt : |(n : ℚ) - q| < 1 / 2 := abs_lt.mpr ⟨by linarith, by linarith⟩
  exact ⟨hlt.le, fun hhalf => absurd hhalf hlt.ne⟩

end IsNearestEven

/-- **The nearest integer** is nearest, and even halfway between two. -/
theorem isNearestEven_roundHalfEven {q : ℚ} (hq : 0 ≤ q) : IsNearestEven (roundHalfEven q) q := by
  obtain ⟨hbelow, habove⟩ := roundHalfEven_bounds hq
  refine ⟨abs_le.mpr ⟨by push_cast; linarith, by push_cast; linarith⟩, fun hhalf => ?_⟩
  have hfloor : 0 ≤ q.floor := Int.floor_nonneg.mpr hq
  have hcast : ((q.floor.toNat : ℕ) : ℚ) = (q.floor : ℚ) := by
    exact_mod_cast Int.toNat_of_nonneg hfloor
  have hle : (q.floor : ℚ) ≤ q := Int.floor_le q
  have hlt : q < (q.floor : ℚ) + 1 := Int.lt_floor_add_one q
  unfold roundHalfEven at hhalf ⊢
  simp only [hcast] at hhalf ⊢
  split at hhalf
  · next h =>
    -- below the middle the integer is less than a half away
    rw [Int.cast_natCast, hcast, abs_sub_comm, abs_of_nonneg (by linarith)] at hhalf
    linarith
  · next h =>
    rw [if_neg h]
    split at hhalf
    · next h' =>
      rw [Int.cast_natCast, Nat.cast_add_one, hcast, abs_of_nonneg (by linarith)] at hhalf
      linarith
    · next h' =>
      rw [if_neg h', Int.even_coe_nat]
      exact Nat.even_iff.mpr (by omega)

/-! ### Exact results -/

namespace Binary64

/-- **A rational with at most 53 binary digits is exact.** -/
theorem toRat?_ofRat {m : ℕ} (hm : m < 2 ^ 53) {k : ℤ} (hk : -1074 ≤ k) (hk' : k ≤ 970)
    (s : Bool) : (ofRat s (m * 2 ^ k)).toRat? = some ((m : ℚ) * 2 ^ k) := by
  have hstep : (0 : ℚ) < 2 ^ k := by positivity
  unfold ofRat
  rcases Nat.eq_zero_or_pos m with rfl | hpos
  · cases s <;> simp [toRat?, Magnitude.toRat, Magnitude.zero]
  · have hq : (0 : ℚ) < m * 2 ^ k := mul_pos (by exact_mod_cast hpos) hstep
    have hbound : (m * 2 ^ k : ℚ) < 2 ^ (k + 53) := by
      calc (m * 2 ^ k : ℚ) < 2 ^ (53 : ℤ) * 2 ^ k :=
            mul_lt_mul_of_pos_right (by exact_mod_cast hm) hstep
        _ = 2 ^ (k + 53) := by rw [two_zpow_mul, add_comm]
    obtain ⟨a, ha, hvalue⟩ := Magnitude.exists_ofRat? hq
      (hbound.trans_le (two_zpow_le_iff.mpr (by omega)))
    -- the rational is a multiple of its grid, whose step is no greater than `2 ^ k`
    set e := Magnitude.gridExponent (m * 2 ^ k : ℚ) with he
    have hgrid : e ≤ k := by
      have hbinade := binade_lt hq hbound
      rw [he, Magnitude.gridExponent]
      omega
    have hmultiple : (m * 2 ^ k : ℚ) / 2 ^ e = ((m * 2 ^ (k - e).toNat : ℕ) : ℚ) := by
      rw [mul_div_assoc, ← zpow_sub₀ two_ne_zero, Nat.cast_mul, Nat.cast_pow, Nat.cast_ofNat,
        ← zpow_natCast, Int.toNat_of_nonneg (by omega)]
    have hexact : a.toRat = m * 2 ^ k := by
      rw [hvalue, hmultiple, roundHalfEven_natCast, ← hmultiple]
      exact div_mul_cancel₀ _ (by positivity)
    have habs : (m * 2 ^ k : ℚ).abs = m * 2 ^ k := Rat.abs_of_nonneg hq.le
    have hnegative : decide ((m * 2 ^ k : ℚ) < 0) = false := decide_eq_false (not_lt.mpr hq.le)
    rw [if_neg hq.ne', habs, ha]
    simp only [hnegative]
    show some a.toRat = _
    rw [hexact]

/-- A natural number with at most 53 binary digits is exact. -/
theorem toRat?_ofRat_natCast {n : ℕ} (hn : n < 2 ^ 53) (s : Bool) :
    (ofRat s n).toRat? = some (n : ℚ) := by
  have h := toRat?_ofRat hn (k := 0) (by norm_num) (by norm_num) s
  rwa [zpow_zero, mul_one] at h

section

variable {x y : Binary64} {p q : ℚ}

/-- **A number has a nearest integer.** -/
theorem exists_nearestInt? (hx : x.toRat? = some p) :
    ∃ n, x.nearestInt? = some n ∧ IsNearestEven n p := by
  obtain ⟨s, a, rfl, rfl⟩ := exists_eq_finite hx
  have hnearest := isNearestEven_roundHalfEven a.toRat_nonneg
  cases s with
  | false => exact ⟨_, rfl, hnearest⟩
  | true => exact ⟨_, rfl, hnearest.neg⟩

theorem exists_sub_eq_ofRat (hx : x.toRat? = some p) (hy : y.toRat? = some q) :
    ∃ s, x - y = ofRat s (p - q) := by
  have hneg : (-y).toRat? = some (-q) := by rw [toRat?_neg, hy, Option.map_some]
  rw [sub_eq_add_neg]
  show ∃ s, x + -y = _
  exact exists_add_eq_ofRat hx hneg

theorem exists_div_eq_ofRat (hx : x.toRat? = some p) (hy : y.toRat? = some q) (hq : q ≠ 0) :
    ∃ s, x / y = ofRat s (p / q) := by
  obtain ⟨s, a, rfl, rfl⟩ := exists_eq_finite hx
  obtain ⟨t, b, rfl, rfl⟩ := exists_eq_finite hy
  have hb : b.isZero = false := by
    refine beq_eq_false_iff_ne.mpr fun hzero => hq ?_
    cases t <;> simp [signedRat, Magnitude.toRat, hzero]
  refine ⟨s ^^ t, ?_⟩
  show (if b.isZero then _ else ofRat (s ^^ t) (signedRat s a / signedRat t b)) = _
  rw [hb]
  rfl

/-- A rounded result is a number, if only an infinity. -/
theorem ofRat_ne_nan (s : Bool) (q : ℚ) : ofRat s q ≠ .nan := by
  unfold ofRat
  split
  · simp
  · cases Magnitude.ofRat? q.abs <;> simp

theorem div_ne_nan (hx : x ≠ .nan) (hy : y.toRat? = some q) (hq : q ≠ 0) : x / y ≠ .nan := by
  cases hvalue : x.toRat? with
  | some p =>
    obtain ⟨s, hquotient⟩ := exists_div_eq_ofRat hvalue hy hq
    rw [hquotient]
    exact ofRat_ne_nan s (p / q)
  | none =>
    obtain ⟨t, b, rfl, -⟩ := exists_eq_finite hy
    cases x with
    | finite u c => cases u <;> exact absurd hvalue (by simp [toRat?])
    | infinity u => exact fun h => absurd h (by simp [HDiv.hDiv, Div.div, div])
    | nan => exact absurd rfl hx

end

end Binary64

/-! ### The range -/

namespace Magnitude

theorem ofParts?_eq_none {m : ℕ} {e : ℤ} (h : 2 ^ 53 ≤ m ∧ e = 971 ∨ 972 ≤ e) :
    ofParts? m e = none := by
  have hfull : ¬ Canonical m e := by
    rintro ⟨hm, -, he, -⟩
    omega
  have hhalved : ¬ Canonical (m / 2) (e + 1) := by
    rintro ⟨-, -, he, -⟩
    omega
  rw [ofParts?, dif_neg hfull, dif_neg hhalved]

/-- The grid of the rationals of the last binade. -/
theorem gridExponent_eq {q : ℚ} (hlow : (2 : ℚ) ^ (1023 : ℤ) ≤ q) (hhigh : q < 2 ^ (1024 : ℤ)) :
    gridExponent q = 971 := by
  have hq : 0 < q := lt_of_lt_of_le (by positivity) hlow
  have hle := le_binade hq hlow
  have hlt := binade_lt hq hhigh
  unfold gridExponent
  omega

/-- Of the greatest exponent there is no magnitude for a rounded mantissa from a half below the
least mantissa that is too large on. -/
theorem ofParts?_roundHalfEven_eq_none_iff {r : ℚ} (hr : (2 : ℚ) ^ 52 ≤ r) :
    ofParts? (roundHalfEven r) 971 = none ↔ (2 : ℚ) ^ 53 - 1 / 2 ≤ r := by
  have hnearest := isNearestEven_roundHalfEven (q := r) (by linarith)
  have hmantissa : 2 ^ 52 ≤ roundHalfEven r := le_roundHalfEven (by exact_mod_cast hr)
  generalize roundHalfEven r = m at hnearest hmantissa
  obtain ⟨hnear, hnear'⟩ := abs_le.mp hnearest.near
  rw [Int.cast_natCast] at hnear hnear'
  constructor
  · intro hnone
    by_contra hlt
    have hupper : (m : ℚ) < 2 ^ 53 := by linarith
    have hcanonical : Canonical m 971 :=
      ⟨by exact_mod_cast hupper, by norm_num, le_rfl, Or.inl hmantissa⟩
    rw [ofParts?, dif_pos hcanonical] at hnone
    exact absurd hnone (by simp)
  · intro hle
    refine ofParts?_eq_none (Or.inl ⟨?_, rfl⟩)
    by_contra hlt
    -- only the greatest mantissa is as near, and it is odd
    have hupper : (m : ℚ) + 1 ≤ 2 ^ 53 := by exact_mod_cast not_le.mp hlt
    have hodd : m + 1 = 2 ^ 53 := by
      have hcast : (m : ℚ) + 1 = 2 ^ 53 := by linarith
      exact_mod_cast hcast
    have hmiddle : ((m : ℤ) : ℚ) - r = -(1 / 2) := by
      rw [Int.cast_natCast]
      linarith
    have heven := hnearest.even (by rw [hmiddle]; norm_num)
    rw [Int.even_coe_nat, Nat.even_iff] at heven
    omega

/-- **A rational has no nearest magnitude** from the middle between the greatest magnitude and
the power of two above it on. -/
theorem ofRat?_eq_none_iff {q : ℚ} (hq : 0 < q) :
    ofRat? q = none ↔ ((2 : ℚ) ^ 54 - 1) * 2 ^ (970 : ℤ) ≤ q := by
  have hunit : (0 : ℚ) < 2 ^ (970 : ℤ) := by positivity
  have hstep : (2 : ℚ) ^ (971 : ℤ) = 2 * 2 ^ (970 : ℤ) := (two_zpow_mul 1 970).symm
  have hlast : (2 : ℚ) ^ (1023 : ℤ) = (2 : ℚ) ^ 53 * 2 ^ (970 : ℤ) :=
    (two_zpow_mul 53 970).symm
  have hnext : (2 : ℚ) ^ (1024 : ℤ) = (2 : ℚ) ^ 54 * 2 ^ (970 : ℤ) :=
    (two_zpow_mul 54 970).symm
  generalize (2 : ℚ) ^ (970 : ℤ) = c at hunit hstep hlast hnext ⊢
  have hdef : ofRat? q = ofParts? (roundHalfEven (q / 2 ^ gridExponent q)) (gridExponent q) := rfl
  rcases lt_or_ge q (2 ^ (1023 : ℤ)) with hsmall | hbinade
  · obtain ⟨a, ha, -⟩ := exists_ofRat? hq hsmall
    rw [hlast] at hsmall
    exact ⟨fun h => absurd (ha.symm.trans h) (by simp),
      fun h => by linarith only [hsmall, h, hunit]⟩
  · rcases lt_or_ge q (2 ^ (1024 : ℤ)) with hbelow | hlarge
    · rw [hdef, gridExponent_eq hbinade hbelow]
      have hlower : (2 : ℚ) ^ 52 ≤ q / 2 ^ (971 : ℤ) := by
        rw [hstep, le_div_iff₀ (by positivity)]
        rw [hlast] at hbinade
        linarith
      rw [ofParts?_roundHalfEven_eq_none_iff hlower, hstep, le_div_iff₀ (by positivity)]
      constructor <;> intro h <;> linarith
    · have hgrid : 972 ≤ gridExponent q := by
        have hle := le_binade hq hlarge
        unfold gridExponent
        omega
      rw [hnext] at hlarge
      rw [hdef, ofParts?_eq_none (Or.inr hgrid)]
      exact ⟨fun _ => by linarith only [hlarge, hunit], fun _ => rfl⟩

end Magnitude

/-- **A rational is too large for a number** from the middle between the greatest number and the
power of two above it on, whatever its sign. -/
theorem Binary64.isFinite_ofRat_iff {s : Bool} {q : ℚ} :
    (ofRat s q).isFinite = true ↔ |q| < (2 ^ 54 - 1) * 2 ^ (970 : ℤ) := by
  unfold ofRat
  by_cases hq : q = 0
  · rw [if_pos hq, hq, abs_zero]
    exact ⟨fun _ => mul_pos (by norm_num) (by positivity), fun _ => rfl⟩
  · have habs : q.abs = |q| := by
      rcases le_total 0 q with h | h
      · rw [abs_of_nonneg h, Rat.abs_of_nonneg h]
      · rw [abs_of_nonpos h, Rat.abs_of_nonpos h]
    have hrange := Magnitude.ofRat?_eq_none_iff (abs_pos.mpr hq)
    rw [if_neg hq, habs]
    refine Iff.trans ?_ ((not_congr hrange).trans not_le)
    cases Magnitude.ofRat? |q| <;> simp [isFinite]

/-- The integers that are not too large for a number. -/
theorem Binary64.isFinite_ofInt_iff (n : ℤ) :
    (ofInt n).isFinite = true ↔ |n| < (2 ^ 54 - 1) * 2 ^ 970 := by
  have hbound : ((2 : ℚ) ^ 54 - 1) * 2 ^ (970 : ℤ) = (((2 ^ 54 - 1) * 2 ^ 970 : ℤ) : ℚ) := by
    rw [Int.cast_mul, Int.cast_sub, Int.cast_pow, Int.cast_pow, Int.cast_ofNat, Int.cast_one,
      zpow_ofNat]
  unfold ofInt
  rw [isFinite_ofRat_iff, hbound, ← Int.cast_abs, Int.cast_lt]

theorem Binary64.isFinite_iff {x : Binary64} : x.isFinite = true ↔ ∃ q, x.toRat? = some q := by
  cases x with
  | finite s a => cases s <;> simp [isFinite, toRat?]
  | infinity s => simp [isFinite, toRat?]
  | nan => simp [isFinite, toRat?]

/-- A magnitude is at most the greatest one. -/
theorem Magnitude.toRat_le (a : Magnitude) : a.toRat ≤ (((2 ^ 53 - 1) * 2 ^ 971 : ℤ) : ℚ) := by
  obtain ⟨hmantissa, -, hexponent, -⟩ := a.canonical
  have hmantissa' : (a.mantissa : ℚ) ≤ 2 ^ 53 - 1 := by
    have hle : a.mantissa + 1 ≤ 2 ^ 53 := hmantissa
    rw [le_sub_iff_add_le]
    exact_mod_cast hle
  have hpower : (2 : ℚ) ^ a.exponent ≤ 2 ^ (971 : ℤ) := two_zpow_le_iff.mpr hexponent
  rw [toRat, Int.cast_mul, Int.cast_sub, Int.cast_pow, Int.cast_pow, Int.cast_ofNat, Int.cast_one,
    ← zpow_ofNat (2 : ℚ) 971]
  exact mul_le_mul hmantissa' hpower (by positivity) (by norm_num)

/-- **The integer part of a number is a number.** -/
theorem Binary64.isFinite_ofInt_of_floor? {x : Binary64} {n : ℤ} (h : x.floor? = some n) :
    (ofInt n).isFinite = true := by
  obtain ⟨q, hq, rfl⟩ := Option.map_eq_some_iff.mp h
  obtain ⟨s, a, -, rfl⟩ := exists_eq_finite hq
  have hupper := a.toRat_le
  have hlower := a.toRat_nonneg
  have hgreatest : ((2 ^ 53 - 1) * 2 ^ 971 : ℤ) < (2 ^ 54 - 1) * 2 ^ 970 := by
    have hunit : (0 : ℤ) < 2 ^ 970 := by positivity
    rw [pow_succ (2 : ℤ) 970]
    generalize (2 : ℤ) ^ 970 = unit at hunit ⊢
    linarith
  generalize ((2 ^ 53 - 1) * 2 ^ 971 : ℤ) = greatest at hupper hgreatest
  have hbounds : -(greatest : ℚ) ≤ signedRat s a ∧ signedRat s a ≤ greatest := by
    cases s <;> simp only [signedRat] <;> constructor <;> simp <;> linarith
  have hfloor : -greatest ≤ ⌊signedRat s a⌋ := Int.le_floor.mpr (by exact_mod_cast hbounds.1)
  have hfloor' : ⌊signedRat s a⌋ ≤ greatest := by
    exact_mod_cast (Int.floor_le (signedRat s a)).trans hbounds.2
  show (ofInt ⌊signedRat s a⌋).isFinite = true
  rw [isFinite_ofInt_iff, abs_lt]
  exact ⟨(neg_lt_neg hgreatest).trans_le hfloor, hfloor'.trans_lt hgreatest⟩

end ImagePipeline
