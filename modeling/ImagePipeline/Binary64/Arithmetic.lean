import ImagePipeline.Binary64.Rounding

/-!
# Arithmetic on binary64 numbers

Sum, difference, product and quotient, each the exact result rounded once, and
the ways from a number to an integer.

## Main definitions

* `add`, `sub`, `mul`, `div` — the four operations.
* `truncate?`, `floor?`, `nearestInt?` — the integer next to a finite number,
  towards zero, downwards, or nearest with a half going to the even one.
* `clamp` — a number brought into an interval.
* `toByte` — an integer brought into the range of a byte.
-/

namespace ImagePipeline
namespace Binary64

/-- The signed exact value of a finite number. -/
def signedRat (negative : Bool) (a : Magnitude) : Rat := if negative then -a.toRat else a.toRat

/-- The sum. -/
def add : Binary64 → Binary64 → Binary64
  | .nan, _ => .nan
  | _, .nan => .nan
  | .infinity s, .infinity t => if s == t then .infinity s else .nan
  | .infinity s, .finite _ _ => .infinity s
  | .finite _ _, .infinity t => .infinity t
  | .finite s a, .finite t b => ofRat (s && t) (signedRat s a + signedRat t b)

/-- The difference. -/
def sub (x y : Binary64) : Binary64 := add x (-y)

/-- The product. -/
def mul : Binary64 → Binary64 → Binary64
  | .nan, _ => .nan
  | _, .nan => .nan
  | .infinity s, .infinity t => .infinity (s ^^ t)
  | .infinity s, .finite t b => if b.isZero then .nan else .infinity (s ^^ t)
  | .finite s a, .infinity t => if a.isZero then .nan else .infinity (s ^^ t)
  | .finite s a, .finite t b => ofRat (s ^^ t) (signedRat s a * signedRat t b)

/-- The quotient. -/
def div : Binary64 → Binary64 → Binary64
  | .nan, _ => .nan
  | _, .nan => .nan
  | .infinity _, .infinity _ => .nan
  | .infinity s, .finite t _ => .infinity (s ^^ t)
  | .finite s _, .infinity t => .finite (s ^^ t) .zero
  | .finite s a, .finite t b =>
    if b.isZero then (if a.isZero then .nan else .infinity (s ^^ t))
    else ofRat (s ^^ t) (signedRat s a / signedRat t b)

instance : Add Binary64 := ⟨add⟩
instance : Sub Binary64 := ⟨sub⟩
instance : Mul Binary64 := ⟨mul⟩
instance : Div Binary64 := ⟨div⟩

/-- A number brought into the interval from `low` to `high`. -/
def clamp (x low high : Binary64) : Binary64 :=
  if lt x low then low else if lt high x then high else x

/-! ### From numbers to integers -/

/-- The integer part of a finite number, cut off towards zero. -/
def truncate? : Binary64 → Option Int
  | .finite s a =>
    let n : Int := a.toRat.floor
    some (if s then -n else n)
  | _ => none

/-- The greatest integer that is at most a finite number. -/
def floor? (x : Binary64) : Option Int := x.toRat?.map Rat.floor

/-- The nearest integer of a finite number, a half going to the even one. -/
def nearestInt? : Binary64 → Option Int
  | .finite s a =>
    let n : Int := roundHalfEven a.toRat
    some (if s then -n else n)
  | _ => none

end Binary64

/-- An integer brought into the range of a byte. -/
def toByte (n : Int) : UInt8 := (max 0 (min 255 n)).toNat.toUInt8

/-- A byte keeps the integers in its range. -/
theorem toNat_toByte (n : Int) : ((toByte n).toNat : Int) = max 0 (min 255 n) := by
  unfold toByte
  rw [Nat.toUInt8, UInt8.toNat_ofNat']
  have h : (max 0 (min 255 n)).toNat < 256 := by omega
  rw [Nat.mod_eq_of_lt h]
  omega

end ImagePipeline
