/-!
# UTF-8

Writing a text as bytes, and reading bytes as a text.  Reading goes one encoded
character at a time; an ill-formed place is reported with the number of bytes
that form the longest start of a character there, at least one, because that is
the stretch a reader with replacement turns into one U+FFFD.

## Main definitions

* `encodeChar`, `encode` — the bytes of a character and of a text.
* `leadRange?` — the number of bytes a lead byte announces, and the range its
  second byte must lie in.
* `step` — reads one character, or says how long the ill-formed start is.
* `decode` — reads a whole byte string, or gives the offset of the first byte
  that belongs to no well-formed character.
* `decodeLossy` — reads any byte string, with one U+FFFD per ill-formed start.
-/

namespace ImagePipeline
namespace Utf8

/-- The bytes of a character. -/
def encodeChar (c : Char) : List UInt8 :=
  let n := c.toNat
  if n < 0x80 then [n.toUInt8]
  else if n < 0x800 then [(0xC0 + n / 64).toUInt8, (0x80 + n % 64).toUInt8]
  else if n < 0x10000 then
    [(0xE0 + n / 4096).toUInt8, (0x80 + n / 64 % 64).toUInt8, (0x80 + n % 64).toUInt8]
  else
    [(0xF0 + n / 262144).toUInt8, (0x80 + n / 4096 % 64).toUInt8, (0x80 + n / 64 % 64).toUInt8,
      (0x80 + n % 64).toUInt8]

/-- The bytes of a text. -/
def encode (s : List Char) : List UInt8 := s.flatMap encodeChar

/-- The character that stands for an ill-formed start. -/
def replacement : Char := Char.ofNat 0xFFFD

/-- Whether a byte continues a character. -/
def isContinuation (b : UInt8) : Bool := 0x80 ≤ b && b ≤ 0xBF

/-- For a lead byte: how many bytes follow it, and the least and greatest second
byte.  The narrow ranges rule out overlong forms, surrogates and numbers beyond
U+10FFFF. -/
def leadRange? (b : UInt8) : Option (Nat × UInt8 × UInt8) :=
  if 0xC2 ≤ b ∧ b ≤ 0xDF then some (1, 0x80, 0xBF)
  else if b = 0xE0 then some (2, 0xA0, 0xBF)
  else if b = 0xED then some (2, 0x80, 0x9F)
  else if 0xE1 ≤ b ∧ b ≤ 0xEF then some (2, 0x80, 0xBF)
  else if b = 0xF0 then some (3, 0x90, 0xBF)
  else if b = 0xF4 then some (3, 0x80, 0x8F)
  else if 0xF1 ≤ b ∧ b ≤ 0xF3 then some (3, 0x80, 0xBF)
  else none

/-- The number in the low six bits of a continuation byte. -/
def payload (b : UInt8) : Nat := b.toNat % 64

/-- What is found at the start of a byte string that is not empty. -/
inductive Step where
  /-- A well-formed character of the given length. -/
  | char (c : Char) (length : Nat)
  /-- An ill-formed start of the given length. -/
  | illFormed (length : Nat)
  deriving DecidableEq, Repr

/-- The number of bytes of a step. -/
def Step.length : Step → Nat
  | .char _ n => n
  | .illFormed n => n

/-- Reads what starts with the byte `b`, followed by the bytes `r`. -/
def step (b : UInt8) (r : List UInt8) : Step :=
  if b < 0x80 then .char (Char.ofNat b.toNat) 1
  else
    match leadRange? b with
    | none => .illFormed 1
    | some (following, low, high) =>
      match r with
      | [] => .illFormed 1
      | b₁ :: r₁ =>
        if b₁ < low ∨ high < b₁ then .illFormed 1
        else if following = 1 then
          .char (Char.ofNat (b.toNat % 32 * 64 + payload b₁)) 2
        else
          match r₁ with
          | [] => .illFormed 2
          | b₂ :: r₂ =>
            if !isContinuation b₂ then .illFormed 2
            else if following = 2 then
              .char (Char.ofNat (b.toNat % 16 * 4096 + payload b₁ * 64 + payload b₂)) 3
            else
              match r₂ with
              | [] => .illFormed 3
              | b₃ :: _ =>
                if !isContinuation b₃ then .illFormed 3
                else
                  .char (Char.ofNat (b.toNat % 8 * 262144 + payload b₁ * 4096 + payload b₂ * 64 +
                    payload b₃)) 4

/-- Reads `s`, which starts at the given offset of the whole byte string. -/
def decodeFrom (offset : Nat) : List UInt8 → Except Nat (List Char)
  | [] => .ok []
  | b :: r =>
    match step b r with
    | .illFormed _ => .error offset
    | .char c n => do
      let rest ← decodeFrom (offset + n) (r.drop (n - 1))
      return c :: rest
termination_by s => s.length
decreasing_by simp only [List.length_drop, List.length_cons]; omega

/-- Reads a byte string, or gives the offset of the first byte that belongs to no
well-formed character. -/
def decode (s : List UInt8) : Except Nat (List Char) := decodeFrom 0 s

/-- Reads any byte string, with one replacement character per ill-formed start. -/
def decodeLossy : List UInt8 → List Char
  | [] => []
  | b :: r =>
    match step b r with
    | .illFormed n => replacement :: decodeLossy (r.drop (n - 1))
    | .char c n => c :: decodeLossy (r.drop (n - 1))
termination_by s => s.length
decreasing_by all_goals (simp only [List.length_drop, List.length_cons]; omega)

/-- The byte order mark. -/
def byteOrderMark : List UInt8 := [0xEF, 0xBB, 0xBF]

/-- A byte string without one leading byte order mark. -/
def dropByteOrderMark (s : List UInt8) : List UInt8 :=
  if byteOrderMark.isPrefixOf s then s.drop 3 else s

end Utf8
end ImagePipeline
