import ImagePipeline.Binary64.Basic

/-!
# Rounding to binary64

Every arithmetic operation is computed exactly on rational numbers and rounded
once, to the nearest binary64 number, a value halfway between two of them to the
one with the even mantissa.

## Main definitions

* `roundHalfEven` — the nearest integer of a rational that is not negative.
* `binade` — the integer part of the binary logarithm.
* `Magnitude.ofRat?` — the magnitude nearest to a rational, if it is in range.
* `Binary64.ofRat` — the number nearest to a rational.
* `floorSqrt` — the integer square root.
-/

namespace ImagePipeline

-- `^` is the power of the core library here, whatever else an importer has in scope.
attribute [local instance (high)] instPowNat

/-- The nearest integer of a rational that is not negative, a half going to the
even neighbour. -/
def roundHalfEven (q : Rat) : Nat :=
  let f := q.floor.toNat
  let d := q - (f : Rat)
  if d < 1 / 2 then f
  else if 1 / 2 < d then f + 1
  else f + f % 2

/-- The exponent of the greatest power of two that is at most `q`, for a
positive `q`. -/
def binade (q : Rat) : Int :=
  let k : Int := (q.num.natAbs.log2 : Int) - (q.den.log2 : Int)
  if (2 : Rat) ^ k ≤ q then k else k - 1

namespace Magnitude

/-- The magnitude with the given mantissa and exponent.  A mantissa of 2⁵³, which
rounding up can produce, is halved; what is still out of range has none. -/
def ofParts? (mantissa : Nat) (exponent : Int) : Option Magnitude :=
  if h : Canonical mantissa exponent then some ⟨mantissa, exponent, h⟩
  else if h : Canonical (mantissa / 2) (exponent + 1) then some ⟨mantissa / 2, exponent + 1, h⟩
  else none

/-- The exponent of the grid of magnitudes around the rational `q`. -/
def gridExponent (q : Rat) : Int := max (-1074) (binade q - 52)

/-- The magnitude nearest to a rational that is not negative, if it is in
range. -/
def ofRat? (q : Rat) : Option Magnitude :=
  let e := gridExponent q
  ofParts? (roundHalfEven (q / (2 : Rat) ^ e)) e

end Magnitude

namespace Binary64

/-- The number nearest to the rational `q`, where `negative` is the sign of a
result that is zero. -/
def ofRat (negative : Bool) (q : Rat) : Binary64 :=
  if q = 0 then .finite negative .zero
  else
    match Magnitude.ofRat? q.abs with
    | some a => .finite (decide (q < 0)) a
    | none => .infinity (decide (q < 0))

/-- The number nearest to an integer. -/
def ofInt (n : Int) : Binary64 := ofRat false n

/-- The number nearest to a natural number. -/
def ofNat (n : Nat) : Binary64 := ofRat false n

end Binary64

/-! ### Square roots -/

/-- Fixes the bits of a square root of `n` from bit `b - 1` down to bit zero,
where `r` holds the bits above. -/
def floorSqrtFrom (n : Nat) : Nat → Nat → Nat
  | 0, r => r
  | b + 1, r => floorSqrtFrom n b (if (r + 2 ^ b) * (r + 2 ^ b) ≤ n then r + 2 ^ b else r)

/-- The greatest integer whose square is at most `n`. -/
def floorSqrt (n : Nat) : Nat := floorSqrtFrom n (n.log2 / 2 + 1) 0

theorem floorSqrtFrom_bounds (n : Nat) : ∀ (b r : Nat), r * r ≤ n → n < (r + 2 ^ b) * (r + 2 ^ b) →
    floorSqrtFrom n b r * floorSqrtFrom n b r ≤ n ∧
      n < (floorSqrtFrom n b r + 1) * (floorSqrtFrom n b r + 1)
  | 0, r, h₁, h₂ => by simpa [floorSqrtFrom] using ⟨h₁, h₂⟩
  | b + 1, r, h₁, h₂ => by
    rw [floorSqrtFrom]
    have hp : 2 ^ (b + 1) = 2 ^ b + 2 ^ b := by rw [Nat.pow_succ]; omega
    split
    · next h =>
      exact floorSqrtFrom_bounds n b _ h (by rw [hp, ← Nat.add_assoc] at h₂; exact h₂)
    · next h => exact floorSqrtFrom_bounds n b r h₁ (by omega)

/-- The integer square root is the greatest integer whose square is at most
`n`. -/
theorem floorSqrt_bounds (n : Nat) :
    floorSqrt n * floorSqrt n ≤ n ∧ n < (floorSqrt n + 1) * (floorSqrt n + 1) := by
  refine floorSqrtFrom_bounds n _ 0 (by simp) ?_
  rw [Nat.zero_add, ← Nat.pow_add]
  calc n < 2 ^ (n.log2 + 1) := Nat.lt_log2_self
    _ ≤ 2 ^ (n.log2 / 2 + 1 + (n.log2 / 2 + 1)) := Nat.pow_le_pow_right (by omega) (by omega)

/-- A rational that rounds to binary64 as the square root of `n` does: the root
cut off after 64 binary places, moved into the middle of the gap to the next such
number unless the root is exact.  No binary64 number, nor any middle of two
neighbouring ones, lies strictly inside that gap. -/
def rootApprox (n : Nat) : Rat :=
  let s := floorSqrt (n * 4 ^ (64 : Nat))
  if s * s = n * 4 ^ (64 : Nat) then (s : Rat) / 2 ^ (64 : Nat)
  else ((s : Rat) + 1 / 2) / 2 ^ (64 : Nat)

/-- The number nearest to the square root of a natural number. -/
def Binary64.sqrtNat (n : Nat) : Binary64 := Binary64.ofRat false (rootApprox n)

end ImagePipeline
