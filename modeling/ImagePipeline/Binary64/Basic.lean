/-!
# Binary64 numbers

The numbers of the IEEE 754 format binary64: zeros and finite numbers of either
sign, two infinities, and one number that is none.  A finite magnitude is held in
its canonical form, a mantissa below 2⁵³ times a power of two, so that equal
magnitudes are equal values of the type.

## Main definitions

* `Magnitude` — a finite magnitude, with its exact value `Magnitude.toRat`.
* `Binary64` — a number.
* `Binary64.toRat?` — the exact value of a finite number.
* `Binary64.lt` — the order; nothing is below or above a number that is none.
-/

namespace ImagePipeline

-- `^` is the power of the core library here, whatever else an importer has in scope.
attribute [local instance (high)] instPowNat

/-- The condition on mantissa and exponent that makes a finite magnitude
canonical: the exponent lies in its range, and the mantissa has 53 digits unless
the exponent is the least one. -/
def Canonical (mantissa : Nat) (exponent : Int) : Prop :=
  mantissa < 2 ^ (53 : Nat) ∧ -1074 ≤ exponent ∧ exponent ≤ 971 ∧
    (2 ^ (52 : Nat) ≤ mantissa ∨ exponent = -1074)

instance (mantissa : Nat) (exponent : Int) : Decidable (Canonical mantissa exponent) :=
  inferInstanceAs (Decidable (_ ∧ _ ∧ _ ∧ (_ ∨ _)))

/-- A finite magnitude: a mantissa times a power of two, in canonical form. -/
structure Magnitude where
  mantissa : Nat
  /-- The exponent of two. -/
  exponent : Int
  canonical : Canonical mantissa exponent
  deriving DecidableEq

namespace Magnitude

/-- The magnitude zero. -/
def zero : Magnitude := ⟨0, -1074, by decide⟩

instance : Inhabited Magnitude := ⟨zero⟩

/-- The exact value of a magnitude. -/
def toRat (a : Magnitude) : Rat := (a.mantissa : Rat) * (2 : Rat) ^ a.exponent

/-- Whether a magnitude is zero. -/
def isZero (a : Magnitude) : Bool := a.mantissa == 0

end Magnitude

/-- A binary64 number. -/
inductive Binary64 where
  /-- A finite number: its sign, which a zero has too, and its magnitude. -/
  | finite (negative : Bool) (magnitude : Magnitude)
  | infinity (negative : Bool)
  | nan
  deriving DecidableEq

namespace Binary64

/-- The zero without a minus sign. -/
def zero : Binary64 := .finite false .zero

instance : Inhabited Binary64 := ⟨zero⟩

/-- The exact value of a finite number. -/
def toRat? : Binary64 → Option Rat
  | .finite true a => some (-a.toRat)
  | .finite false a => some a.toRat
  | .infinity _ => none
  | .nan => none

/-- Whether a number is finite. -/
def isFinite : Binary64 → Bool
  | .finite _ _ => true
  | _ => false

/-- The number with the other sign. -/
def neg : Binary64 → Binary64
  | .finite s a => .finite (!s) a
  | .infinity s => .infinity (!s)
  | .nan => .nan

instance : Neg Binary64 := ⟨neg⟩

/-- Whether the first number is below the second. -/
def lt : Binary64 → Binary64 → Bool
  | .nan, _ => false
  | _, .nan => false
  | .infinity s, .infinity t => s && !t
  | .infinity s, .finite _ _ => s
  | .finite _ _, .infinity t => !t
  | .finite s a, .finite t b =>
    let x := if s then -a.toRat else a.toRat
    let y := if t then -b.toRat else b.toRat
    x < y

/-- Whether two numbers compare as equal: the two zeros do, and a number that is
none equals nothing. -/
def beq : Binary64 → Binary64 → Bool
  | .finite s a, .finite t b => (a.isZero && b.isZero) || (s == t && a == b)
  | .infinity s, .infinity t => s == t
  | _, _ => false

/-- The lesser of two numbers: the second if it is below the first, else the
first. -/
def least (x y : Binary64) : Binary64 := if lt y x then y else x

/-- The greater of two numbers: the second if it is above the first, else the
first. -/
def greatest (x y : Binary64) : Binary64 := if lt x y then y else x

@[simp] theorem neg_neg (x : Binary64) : - -x = x := by
  cases x <;> simp [Neg.neg, neg]

end Binary64
end ImagePipeline
