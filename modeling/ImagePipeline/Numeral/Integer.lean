import ImagePipeline.Text.Blank
import ImagePipeline.Text.Digit
import ImagePipeline.Text.Quoted

/-!
# Integer numerals

Reading a text as an integer in base ten.  A numeral is an optional sign and a
run of digits of any script, in which single underscores may stand between two
digits; blanks may surround it.  Numerals of more than `digitLimit` digits are
refused, so that a text cannot ask for an unbounded amount of work.

An integer with more digits is not written either.  Only integers that a caller
chooses can get that long; what counts something (extents, bytes, lines, steps)
never does, and is written as it is.

## Main definitions

* `toAscii` — a text with the digits and blanks of all scripts made ASCII.
* `IntegerError` — why a text is no integer.
* `readInteger` — the reader.
* `InLimit` — an integer that can be written.
-/

namespace ImagePipeline
namespace Numeral

open Text

/-- How one character of a numeral reads in ASCII: a digit as the ASCII digit of
the same value, a blank as a space, any other character beyond ASCII as one that
occurs in no numeral. -/
def asciiForm (c : Char) : Char :=
  if c.toNat < 127 then c
  else if isBlank c then ' '
  else
    match decimalDigit? c with
    | some d => digitChar d
    | none => '?'

/-- A text with the digits and blanks of all scripts made ASCII.  A text that is
ASCII already stays as it is. -/
def toAscii (s : List Char) : List Char :=
  if s.all fun c => c.toNat < 128 then s else s.map asciiForm

/-- A text without the ASCII blanks at its ends. -/
def trimAscii (s : List Char) : List Char := dropTail isAsciiBlank (s.dropWhile isAsciiBlank)

/-- Whether a character is an ASCII digit. -/
def isDigit (c : Char) : Bool := (asciiDigit? c).isSome

/-- The number that a list of digits denotes in base ten. -/
def digitsValue (ds : List Char) : Nat :=
  ds.foldl (fun n c => 10 * n + (asciiDigit? c).getD 0) 0

/-- Takes a sign off the front of a numeral: whether it is a minus, and the
rest. -/
def splitSign : List Char → Bool × List Char
  | '-' :: r => (true, r)
  | '+' :: r => (false, r)
  | r => (false, r)

/-- Whether every underscore of a run of digits and underscores has a digit on
both sides; `before` says whether a digit precedes the run. -/
def underscoresOk (before : Bool) : List Char → Bool
  | [] => true
  | c :: r =>
    if c = '_' then
      before && (match r with
        | [] => false
        | d :: _ => isDigit d) && underscoresOk false r
    else underscoresOk (isDigit c) r

/-- The greatest number of digits a numeral may have. -/
def digitLimit : Nat := 4300

/-- What is said about a numeral with too many digits, around what is known of
their number. -/
def overlong (known : String) : String :=
  "Exceeds the limit (4300 digits) for integer string conversion" ++ known ++
    "; use sys.set_int_max_str_digits() to increase the limit"

/-- Why a text is no integer. -/
inductive IntegerError where
  | invalid (text : List Char)
  | tooLong (digits : Nat)
  deriving DecidableEq, Repr

/-- The wording of an integer error.  The text is shown quoted, and only the
first two hundred characters of the quoted form. -/
def IntegerError.message : IntegerError → String
  | .invalid text =>
    "invalid literal for int() with base 10: " ++ String.ofList ((quoted text).take 200)
  | .tooLong digits => overlong (": value has " ++ toString digits ++ " digits")

/-- Reads a text as an integer in base ten. -/
def readInteger (text : List Char) : Except IntegerError Int :=
  let (negative, unsigned) := splitSign ((toAscii text).dropWhile isAsciiBlank)
  let run := unsigned.takeWhile fun c => isDigit c || c == '_'
  let rest := unsigned.dropWhile fun c => isDigit c || c == '_'
  let digits := run.filter isDigit
  if !underscoresOk false run then .error (.invalid text)
  else if digits.length > digitLimit then .error (.tooLong digits.length)
  else if digits.isEmpty || !rest.all isAsciiBlank then .error (.invalid text)
  else
    let n : Int := digitsValue digits
    .ok (if negative then -n else n)

/-! ### Writing -/

/-- An integer of at most `digitLimit` digits, which can be written. -/
def InLimit (n : Int) : Prop := (Nat.toDigits 10 n.natAbs).length ≤ digitLimit

instance (n : Int) : Decidable (InLimit n) := inferInstanceAs (Decidable (_ ≤ _))

/-- The wording of an integer that is to be written and has too many digits. -/
def overlongMessage : String := overlong ""

end Numeral
end ImagePipeline
