import ImagePipeline.Binary64.Decimal
import ImagePipeline.Numeral.Integer

/-!
# Real numerals

Reading a text as a binary64 number: an optional sign, then digits with an
optional point and an optional exponent, or one of the words for the numbers that
are not finite.  Digits and blanks of all scripts are accepted as in integers,
and single underscores may stand between two digits.

## Main definitions

* `Literal` — the parts of a finite numeral.
* `scanLiteral` — takes a numeral apart.
* `readReal` — the reader.
-/

namespace ImagePipeline
namespace Numeral

open Text

/-- The parts of a finite numeral without its sign. -/
structure Literal where
  /-- The digits in front of the point. -/
  whole : List Char
  /-- The digits after the point. -/
  fraction : List Char
  /-- The exponent of ten that is written out. -/
  exponent : Int
  deriving DecidableEq, Repr

/-- The number nearest to a literal with a sign. -/
def Literal.value (l : Literal) (negative : Bool) : Binary64 :=
  let ds := l.whole ++ l.fraction
  .ofDecimal negative (digitsValue ds) ds.length (l.exponent - (l.fraction.length : Int))

/-- Reads the exponent of a numeral: nothing, or a letter, an optional sign and
digits that reach the end. -/
def scanExponent : List Char → Option Int
  | [] => some 0
  | c :: r =>
    if c = 'e' ∨ c = 'E' then
      let (negative, ds) := splitSign r
      if ds.isEmpty || !ds.all isDigit then none
      else some (if negative then -(digitsValue ds : Int) else digitsValue ds)
    else none

/-- Takes a finite numeral without a sign apart.  There is a digit in front of the
point or after it. -/
def scanLiteral (s : List Char) : Option Literal :=
  let whole := s.takeWhile isDigit
  let (fraction, rest) :=
    match s.dropWhile isDigit with
    | '.' :: r => (r.takeWhile isDigit, r.dropWhile isDigit)
    | r => ([], r)
  if whole.isEmpty && fraction.isEmpty then none
  else (scanExponent rest).map fun e => ⟨whole, fraction, e⟩

/-- Reads a numeral without blanks and underscores. -/
def scanReal (s : List Char) : Option Binary64 :=
  let (negative, unsigned) := splitSign s
  let word := unsigned.map Char.toLower
  if word = ['i', 'n', 'f'] ∨ word = ['i', 'n', 'f', 'i', 'n', 'i', 't', 'y'] then
    some (.infinity negative)
  else if word = ['n', 'a', 'n'] then some .nan
  else (scanLiteral unsigned).map fun l => l.value negative

/-- The error of a text that is no real numeral. -/
structure RealError where
  text : List Char
  deriving DecidableEq, Repr

/-- The wording of a real error. -/
def RealError.message (e : RealError) : String :=
  "could not convert string to float: " ++ String.ofList (quoted e.text)

/-- Reads a text as a binary64 number. -/
def readReal (text : List Char) : Except RealError Binary64 :=
  let s := trimAscii (toAscii text)
  if !underscoresOk false s then .error ⟨text⟩
  else
    match scanReal (s.filter fun c => c != '_') with
    | some x => .ok x
    | none => .error ⟨text⟩

end Numeral
end ImagePipeline
