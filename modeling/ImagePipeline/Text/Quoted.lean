import ImagePipeline.Text.Printable

/-!
# Quoted texts

A text is shown in messages between quotation marks, with everything that could
be misread written as an escape.  The mark is the apostrophe, unless the text
holds an apostrophe and no double quote.

## Main definitions

* `escape` — how one character is written between given marks.
* `quoteMark` — the mark a text is written with.
* `quoted` — the quoted form of a text.
-/

namespace ImagePipeline
namespace Text

/-- The apostrophe. -/
def apostrophe : Char := Char.ofNat 39

/-- The double quote. -/
def doubleQuote : Char := Char.ofNat 34

/-- The hexadecimal digits of `n`, at least `width` of them. -/
def hexDigits (width n : Nat) : List Char :=
  let ds := Nat.toDigits 16 n
  List.replicate (width - ds.length) '0' ++ ds

/-- How the character `c` is written between two marks `mark`: the mark and the
backslash after a backslash, three controls by a letter, a printable character as
it is, and every other one by its number in two, four or eight digits. -/
def escape (mark c : Char) : List Char :=
  if c = mark ∨ c = '\\' then ['\\', c]
  else if c = '\n' then ['\\', 'n']
  else if c = '\r' then ['\\', 'r']
  else if c = '\t' then ['\\', 't']
  else if isPrintable c then [c]
  else if c.toNat < 0x100 then '\\' :: 'x' :: hexDigits 2 c.toNat
  else if c.toNat < 0x10000 then '\\' :: 'u' :: hexDigits 4 c.toNat
  else '\\' :: 'U' :: hexDigits 8 c.toNat

/-- The mark a text is written with. -/
def quoteMark (s : List Char) : Char :=
  if s.contains apostrophe && !s.contains doubleQuote then doubleQuote else apostrophe

/-- The quoted form of a text. -/
def quoted (s : List Char) : List Char :=
  let mark := quoteMark s
  mark :: s.flatMap (escape mark) ++ [mark]

end Text

/-- The quoted form of a string. -/
def quote (s : String) : String := String.ofList (Text.quoted s.toList)

end ImagePipeline
