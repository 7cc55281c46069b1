/-!
# Cutting into lines

One cutter for every kind of line end: it works on a list of symbols, ends a
line at every symbol of a class, and counts a carriage return followed by a line
feed as one end.  A line end at the very end of the list starts no further line.
Texts are cut at ten characters, bytes at two.

## Main definitions

* `Lines.cut` — the cutter.
* `Text.lines` — the lines of a text.
* `Bytes.lines` — the lines of a byte string.
-/

namespace ImagePipeline

namespace Lines

/-- Puts the symbol `c`, which ends no line, in front of the first line. -/
def consLine {α : Type} (c : α) : List (List α) → List (List α)
  | [] => [[c]]
  | l :: ls => (c :: l) :: ls

/-- Cuts a list into lines at the symbols of the class `ends`.  The symbol `cr`
in front of `lf` is passed over, so that the two together are one line end. -/
def cut {α : Type} [DecidableEq α] (ends : α → Bool) (cr lf : α) : List α → List (List α)
  | [] => []
  | c :: r =>
    if ends c then
      if c = cr ∧ r.head? = some lf then cut ends cr lf r else [] :: cut ends cr lf r
    else consLine c (cut ends cr lf r)

@[simp] theorem cut_nil {α : Type} [DecidableEq α] (ends : α → Bool) (cr lf : α) :
    cut ends cr lf [] = [] := rfl

end Lines

namespace Text

/-- The characters that end a line of a text: line feed, vertical tab, form
feed, carriage return, three information separators, next line, and the line
and paragraph separators. -/
def isLineEnd (c : Char) : Bool :=
  let n := c.toNat
  (10 ≤ n && n ≤ 13) || (28 ≤ n && n ≤ 30) || n == 0x85 || n == 0x2028 || n == 0x2029

/-- The lines of a text. -/
def lines (s : List Char) : List (List Char) := Lines.cut isLineEnd '\r' '\n' s

/-- A text without the line feeds and carriage returns at its end. -/
def chomp (s : List Char) : List Char :=
  (s.reverse.dropWhile fun c => c == '\n' || c == '\r').reverse

end Text

namespace Bytes

/-- The bytes that end a line: line feed and carriage return. -/
def isLineEnd (b : UInt8) : Bool := b == 10 || b == 13

/-- The lines of a byte string. -/
def lines (s : List UInt8) : List (List UInt8) := Lines.cut isLineEnd 13 10 s

end Bytes

end ImagePipeline
