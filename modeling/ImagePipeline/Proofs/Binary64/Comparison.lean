import ImagePipeline.Binary64.Arithmetic
import ImagePipeline.Proofs.Binary64.Rounding

/-!
# Comparing numbers and cutting them down

Finite numbers compare as their values do, and so the lesser and the greater of two of
them have the lesser and the greater value.  What is brought between two finite bounds
is finite even if it was an infinity or no number before, and the integer that it is cut
down to lies between the same bounds.

## Main results

* `ofRat_neg`, `Binary64.mul_neg` — signs in rounded results and in products.
* `lt_eq_true_iff` — the order of finite numbers.
* `toRat?_greatest_least` — what is brought between finite bounds is between them.
* `exists_truncate?` — a number within integer bounds has an integer part within them.
* `truncate?_neg`, `abs_truncate?` — integer parts of both signs.
-/

namespace ImagePipeline
namespace Binary64

theorem toRat?_neg (x : Binary64) : (-x).toRat? = x.toRat?.map fun q => -q := by
  cases x with
  | finite s a =>
    cases s with
    | false => rfl
    | true => exact congrArg some (Rat.neg_neg a.toRat).symm
  | infinity s => rfl
  | nan => rfl

theorem signedRat_not (s : Bool) (a : Magnitude) : signedRat (!s) a = -signedRat s a := by
  cases s with
  | false => rfl
  | true => exact (Rat.neg_neg a.toRat).symm

theorem toRat?_finite (s : Bool) (a : Magnitude) :
    (finite s a).toRat? = some (signedRat s a) := by
  cases s <;> rfl

theorem abs_signedRat (s : Bool) (a : Magnitude) : |signedRat s a| = a.toRat := by
  cases s with
  | false => exact abs_of_nonneg a.toRat_nonneg
  | true => exact (abs_neg a.toRat).trans (abs_of_nonneg a.toRat_nonneg)

/-- Rounding does not depend on the sign. -/
theorem ofRat_neg (s : Bool) (q : ℚ) : ofRat (!s) (-q) = -ofRat s q := by
  unfold ofRat
  by_cases hq : q = 0
  · rw [if_pos hq, if_pos (neg_eq_zero.mpr hq)]
    rfl
  · have habs : (-q).abs = q.abs := by
      rcases le_total 0 q with h | h
      · rw [Rat.abs_of_nonneg h, Rat.abs_of_nonpos (neg_nonpos.mpr h), Rat.neg_neg]
      · rw [Rat.abs_of_nonpos h, Rat.abs_of_nonneg (neg_nonneg.mpr h)]
    have hsign : decide (-q < 0) = !decide (q < 0) := by
      rcases lt_or_gt_of_ne hq with h | h
      · simp [h, h.le]
      · simp [h, h.le]
    rw [if_neg hq, if_neg (neg_ne_zero.mpr hq), habs, hsign]
    cases Magnitude.ofRat? q.abs <;> rfl

/-- The product of a number with the other sign has the other sign. -/
protected theorem mul_neg (x y : Binary64) : x * -y = -(x * y) := by
  cases x with
  | nan => rfl
  | infinity s =>
    cases y with
    | nan => rfl
    | infinity t => cases s <;> cases t <;> rfl
    | finite t b =>
      show (if b.isZero then nan else infinity (s ^^ !t)) =
        -(if b.isZero then nan else infinity (s ^^ t))
      rw [Bool.xor_not]
      split <;> rfl
  | finite s a =>
    cases y with
    | nan => rfl
    | infinity t =>
      show (if a.isZero then nan else infinity (s ^^ !t)) =
        -(if a.isZero then nan else infinity (s ^^ t))
      rw [Bool.xor_not]
      split <;> rfl
    | finite t b =>
      show ofRat (s ^^ !t) (signedRat s a * signedRat (!t) b) =
        -ofRat (s ^^ t) (signedRat s a * signedRat t b)
      rw [signedRat_not, mul_neg, Bool.xor_not, ofRat_neg]

/-- Finite numbers compare as their values do. -/
theorem lt_eq_true_iff {x y : Binary64} {p q : ℚ} (hx : x.toRat? = some p)
    (hy : y.toRat? = some q) : lt x y = true ↔ p < q := by
  cases x with
  | finite s a =>
    cases y with
    | finite t b =>
      cases s <;> cases t <;>
        · obtain rfl := Option.some.inj hx
          obtain rfl := Option.some.inj hy
          exact decide_eq_true_iff
    | infinity t => exact absurd hy (by simp [toRat?])
    | nan => exact absurd hy (by simp [toRat?])
  | infinity s => exact absurd hx (by simp [toRat?])
  | nan => exact absurd hx (by simp [toRat?])

theorem toRat?_least {x y : Binary64} {p q : ℚ} (hx : x.toRat? = some p)
    (hy : y.toRat? = some q) : (least x y).toRat? = some (min p q) := by
  unfold least
  split
  · next h =>
    rw [lt_eq_true_iff hy hx] at h
    rw [hy, min_eq_right h.le]
  · next h =>
    rw [lt_eq_true_iff hy hx, not_lt] at h
    rw [hx, min_eq_left h]

theorem toRat?_greatest {x y : Binary64} {p q : ℚ} (hx : x.toRat? = some p)
    (hy : y.toRat? = some q) : (greatest x y).toRat? = some (max p q) := by
  unfold greatest
  split
  · next h =>
    rw [lt_eq_true_iff hx hy] at h
    rw [hy, max_eq_right h.le]
  · next h =>
    rw [lt_eq_true_iff hx hy, not_lt] at h
    rw [hx, max_eq_left h]

/-- **Whatever is brought between finite bounds is finite and lies between them.** -/
theorem toRat?_greatest_least {low high : Binary64} {l h : ℚ} (hlow : low.toRat? = some l)
    (hhigh : high.toRat? = some h) (hle : l ≤ h) (x : Binary64) :
    ∃ q, (greatest low (least high x)).toRat? = some q ∧ l ≤ q ∧ q ≤ h := by
  have hupper : ∃ q, (greatest low high).toRat? = some q ∧ l ≤ q ∧ q ≤ h :=
    ⟨max l h, toRat?_greatest hlow hhigh, le_max_left l h, max_le hle le_rfl⟩
  cases hx : x.toRat? with
  | some p =>
    exact ⟨max l (min h p), toRat?_greatest hlow (toRat?_least hhigh hx), le_max_left _ _,
      max_le hle (min_le_left h p)⟩
  | none =>
    cases x with
    | finite s a => cases s <;> exact absurd hx (by simp [toRat?])
    | nan =>
      -- nothing is below a number that is none, so the upper bound stays
      have hleast : least high .nan = high := by simp [least, lt]
      rw [hleast]
      exact hupper
    | infinity s =>
      cases high with
      | finite t b =>
        cases s with
        | false => exact hupper
        | true =>
          -- the infinity below everything is replaced by the lower bound
          cases low with
          | finite u c => exact ⟨l, hlow, le_rfl, hle⟩
          | infinity u => exact absurd hlow (by simp [toRat?])
          | nan => exact absurd hlow (by simp [toRat?])
      | infinity t => exact absurd hhigh (by simp [toRat?])
      | nan => exact absurd hhigh (by simp [toRat?])

/-- A number within integer bounds is cut down to an integer within them. -/
theorem exists_truncate? {x : Binary64} {q : ℚ} {bound : ℤ} (hx : x.toRat? = some q)
    (hlow : ((-bound : ℤ) : ℚ) ≤ q) (hhigh : q ≤ bound) :
    ∃ n, x.truncate? = some n ∧ -bound ≤ n ∧ n ≤ bound := by
  cases x with
  | finite s a =>
    have hfloor : 0 ≤ a.toRat.floor := Int.floor_nonneg.mpr a.toRat_nonneg
    have hle : a.toRat ≤ bound → a.toRat.floor ≤ bound := fun h =>
      Int.cast_le.mp (le_trans (Int.floor_le a.toRat) h)
    cases s with
    | false =>
      obtain rfl := Option.some.inj hx
      have hfloor' := hle hhigh
      exact ⟨a.toRat.floor, rfl, by omega, hfloor'⟩
    | true =>
      obtain rfl := Option.some.inj hx
      rw [Int.cast_neg, neg_le_neg_iff] at hlow
      have hfloor' := hle hlow
      exact ⟨-a.toRat.floor, rfl, by omega, by omega⟩
  | infinity s => exact absurd hx (by simp [toRat?])
  | nan => exact absurd hx (by simp [toRat?])

theorem truncate?_neg (x : Binary64) : (-x).truncate? = x.truncate?.map fun n => -n := by
  cases x with
  | finite s a =>
    cases s with
    | false => rfl
    | true => exact congrArg some (Int.neg_neg a.toRat.floor).symm
  | infinity s => rfl
  | nan => rfl

/-- Cutting off rounds the magnitude of a number down. -/
theorem abs_truncate? {x : Binary64} {q : ℚ} {n : ℤ} (hx : x.toRat? = some q)
    (hn : x.truncate? = some n) : |n| = ⌊|q|⌋ := by
  cases x with
  | finite s a =>
    have hfloor : 0 ≤ a.toRat.floor := Int.floor_nonneg.mpr a.toRat_nonneg
    have hmagnitude : |a.toRat| = a.toRat := abs_of_nonneg a.toRat_nonneg
    cases s with
    | false =>
      obtain rfl := Option.some.inj hx
      obtain rfl : a.toRat.floor = n := Option.some.inj hn
      rw [abs_of_nonneg hfloor, hmagnitude]
      rfl
    | true =>
      obtain rfl := Option.some.inj hx
      obtain rfl : -a.toRat.floor = n := Option.some.inj hn
      rw [abs_neg, abs_neg, abs_of_nonneg hfloor, hmagnitude]
      rfl
  | infinity s => exact absurd hx (by simp [toRat?])
  | nan => exact absurd hx (by simp [toRat?])

end Binary64
end ImagePipeline
