import ImagePipeline.Binary64.Arithmetic
import ImagePipeline.Binary64.Decimal

/-!
# Numbers as text

Two ways of writing a number: with the fewest digits that read back, and with a
fixed count of decimal places.

## Main definitions

* `Layout` — the decisions of the shortest form, and `Layout.standard`, the one
  this library writes.
* `Binary64.toText` — the shortest form of a number.
* `Binary64.toFixed` — the form with a fixed count of places.
-/

namespace ImagePipeline

/-- The decisions that a shortest form takes beside its digits. -/
structure Layout where
  positionalFrom : Int
  positionalBelow : Int
  keepsPoint : Bool
  exponentWidth : Nat

/-- Numbers are written positionally from 10⁻⁴ up to, but not including, 10¹⁶,
integers end in a point and a zero, and exponents have a sign and at least two
digits. -/
def Layout.standard : Layout := ⟨-4, 16, true, 2⟩

/-- The digits of a natural number in base ten. -/
def decimalDigits (n : Nat) : List Char := Nat.toDigits 10 n

/-- Digits with zeros in front, at least `width` of them. -/
def padZeros (width : Nat) (ds : List Char) : List Char :=
  List.replicate (width - ds.length) '0' ++ ds

/-- Writes a decimal whose digits do not end in zero. -/
def Layout.write (l : Layout) (d : Decimal) : List Char :=
  let ds := decimalDigits d.digits
  let first : Int := d.exponent + (ds.length : Int) - 1
  if l.positionalFrom ≤ first ∧ first < l.positionalBelow then
    if 0 ≤ d.exponent then
      ds ++ List.replicate d.exponent.toNat '0' ++ (if l.keepsPoint then ['.', '0'] else [])
    else if 0 ≤ first then
      ds.take (first.toNat + 1) ++ '.' :: ds.drop (first.toNat + 1)
    else
      '0' :: '.' :: List.replicate (-first - 1).toNat '0' ++ ds
  else
    let mark := if first < 0 then '-' else '+'
    let head :=
      match ds with
      | [] => []
      | [c] => [c]
      | c :: r => c :: '.' :: r
    head ++ 'e' :: mark :: padZeros l.exponentWidth (decimalDigits first.natAbs)

namespace Binary64

/-- The shortest form of a number, as a list of characters. -/
def digitsText : Binary64 → List Char
  | .nan => ['n', 'a', 'n']
  | .infinity s => (if s then ['-'] else []) ++ ['i', 'n', 'f']
  | .finite s a =>
    (if s then ['-'] else []) ++
      (if a.isZero then ['0', '.', '0'] else Layout.standard.write a.shortest)

/-- The shortest form of a number: the fewest digits that read back as it. -/
def toText (x : Binary64) : String := String.ofList x.digitsText

/-- The form of a number with `places` digits after the point, a half going to
the even digit.  The sign of a result that is zero is kept. -/
def toFixed (places : Nat) : Binary64 → String
  | .nan => "nan"
  | .infinity s => if s then "-inf" else "inf"
  | .finite s a =>
    let ds := padZeros (places + 1) (decimalDigits (roundHalfEven (a.toRat * 10 ^ places)))
    let whole := ds.take (ds.length - places)
    let fraction := ds.drop (ds.length - places)
    String.ofList ((if s then ['-'] else []) ++ whole ++
      (if places = 0 then [] else '.' :: fraction))

end Binary64
end ImagePipeline
