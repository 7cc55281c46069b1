import ImagePipeline.Binary64.Rounding

/-!
# Decimals

Decimal fractions beside binary64 numbers: the number nearest to a decimal, and
the shortest decimal that a number is nearest to.  A number of `n` digits lies on
the grid of a power of ten; on each grid only the two points around the number
can read back as it, so the search tries both, from the coarsest grid to the
seventeenth, and falls back on the exact expansion, which always reads back.

## Main definitions

* `Decimal` — digits times a power of ten.
* `Binary64.ofDecimal` — the number nearest to a decimal.
* `Magnitude.shortest` — the shortest decimal that reads back as a magnitude.

## Main results

* `Magnitude.ofRat?_of_onGrid?` — a decimal taken from a grid reads
  back as the magnitude it was made for.
-/

namespace ImagePipeline

-- `^` is the power of the core library here, whatever else an importer has in scope.
attribute [local instance (high)] instPowNat

/-- A decimal: digits times a power of ten. -/
structure Decimal where
  /-- The digits, read as one number. -/
  digits : Nat
  /-- The exponent of ten. -/
  exponent : Int
  deriving DecidableEq, Repr, Inhabited

namespace Decimal

/-- The exact value of a decimal. -/
def toRat (d : Decimal) : Rat := (d.digits : Rat) * (10 : Rat) ^ d.exponent

/-- Moves up to `n` zeros from the end of the digits into the exponent. -/
def dropZeros : Nat → Decimal → Decimal
  | 0, d => d
  | n + 1, d =>
    if d.digits ≠ 0 ∧ d.digits % 10 = 0 then dropZeros n ⟨d.digits / 10, d.exponent + 1⟩ else d

/-- The decimal of the same value whose digits do not end in zero. -/
def normalize (d : Decimal) : Decimal := dropZeros (d.digits.log2 + 1) d

end Decimal

namespace Binary64

/-- The number nearest to `mantissa` times ten to the `exponent`, where the
mantissa is written with `length` digits.  Exponents so large or small that the
result is certain are not computed with. -/
def ofDecimal (negative : Bool) (mantissa length : Nat) (exponent : Int) : Binary64 :=
  if mantissa = 0 then .finite negative .zero
  else if 400 < exponent then .infinity negative
  else if exponent + length < -400 then .finite negative .zero
  else
    match Magnitude.ofRat? (Decimal.toRat ⟨mantissa, exponent⟩) with
    | some a => .finite negative a
    | none => .infinity negative

end Binary64

/-- The exponent of the greatest power of ten that is at most `q`, for a positive
`q`. -/
def decade (q : Rat) : Int :=
  let k : Int := ((Nat.toDigits 10 q.num.natAbs).length : Int) - (Nat.toDigits 10 q.den).length
  if (10 : Rat) ^ k ≤ q then k else k - 1

namespace Magnitude

/-- The two points around the rational `scaled` on the grid of the integers, the
nearer one first; of two equally near ones the even one is first. -/
def neighbours (scaled : Rat) : List Nat :=
  let low := scaled.floor.toNat
  let nearest := roundHalfEven scaled
  [nearest, if nearest = low then low + 1 else low]

/-- The point of the grid of `10 ^ exponent` that reads back as `a`, the nearer
one if both neighbours do. -/
def onGrid? (a : Magnitude) (exponent : Int) : Option Decimal :=
  ((neighbours (a.toRat / (10 : Rat) ^ exponent)).map fun d => Decimal.mk d exponent).find?
    fun d => ofRat? d.toRat == some a

/-- The exact decimal expansion of a magnitude. -/
def expansion (a : Magnitude) : Decimal :=
  if a.exponent < 0 then ⟨a.mantissa * 5 ^ a.exponent.natAbs, a.exponent⟩
  else ⟨a.mantissa * 2 ^ a.exponent.toNat, 0⟩

/-- The shortest decimal of a magnitude that is not zero. -/
def shortest (a : Magnitude) : Decimal :=
  let k := decade a.toRat
  match (List.range 17).findSome? fun n : Nat => a.onGrid? (k - (n : Int)) with
  | some d => d.normalize
  | none => a.expansion.normalize

/-- A point taken from a grid reads back. -/
theorem ofRat?_of_onGrid? {a : Magnitude} {e : Int} {d : Decimal} (h : a.onGrid? e = some d) :
    ofRat? d.toRat = some a := by
  simpa using List.find?_some h

end Magnitude
end ImagePipeline
