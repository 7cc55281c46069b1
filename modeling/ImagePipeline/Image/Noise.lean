import ImagePipeline.Image.Basic
import ImagePipeline.Binary64.Arithmetic

/-!
# Noise

Every pixel is made brighter or darker by an integer offset drawn for it, the
same for its three colours.  The offsets come from a half-open band around zero
whose width is set by an amount.

## Main definitions

* `Amount` — an amount, and `Amount.band?`, its band.
* `band` — the band of a number.
* `Draws` — a source of integers, and `Draws.offset`, the next ones in a band.
* `Image.addNoise` — the noisy image and the source afterwards; alpha stays.
-/

namespace ImagePipeline

-- `^` is the power of the core library here, whatever else an importer has in scope.
attribute [local instance (high)] instPowNat

namespace Noise

/-- The greatest offset a band may reach. -/
def bandLimit : Int := 2 ^ (62 : Nat)

/-- A half-open range of integers. -/
structure Band where
  low : Int
  /-- The first integer above the members. -/
  high : Int
  deriving DecidableEq, Repr

/-- Whether a band has no member. -/
def Band.isEmpty (b : Band) : Bool := b.low == b.high

/-- The band of the number `x`: 255 times as wide to either side, cut down to
integers, and at most `bandLimit`. -/
def band (x : Binary64) : Band :=
  let scaled := Binary64.greatest (.ofInt (-bandLimit))
    (.least (.ofInt bandLimit) (.ofNat 255 * x))
  let low := (-scaled).truncate?.getD 0
  let high := scaled.truncate?.getD 0
  ⟨min low high, max low high⟩

/-- An amount of noise. -/
inductive Amount where
  | real (x : Binary64)
  | whole (n : Int)
  deriving DecidableEq

namespace Amount

/-- An amount as a number, unless it is too large for one. -/
def toNumber? : Amount → Option Binary64
  | .real x => some x
  | .whole n =>
    let x := Binary64.ofInt n
    if x.isFinite then some x else none

/-- The band of an amount, unless it is too large for a number. -/
def band? (a : Amount) : Option Band := a.toNumber?.map band

/-- Whether two amounts compare as equal. -/
def beq : Amount → Amount → Bool
  | .real x, .real y => x.beq y
  | .whole m, .whole n => m == n
  | .real x, .whole n => x.toRat? == some (n : Rat)
  | .whole m, .real y => y.toRat? == some (m : Rat)

end Amount

/-- A source of integers: an endless row of them, and how many are used up. -/
structure Draws where
  sequence : Nat → Int
  /-- How many are used up. -/
  position : Nat

namespace Draws

/-- The source that repeats a list for ever; an empty list repeats zero. -/
def ofList (ds : List Int) : Draws :=
  let a := ds.toArray
  ⟨fun i => a.getD (i % a.size) 0, 0⟩

/-- The source that a seed starts: an evenly spaced row of words, each mixed by
itself. -/
def ofSeed (seed : UInt64) : Draws :=
  let mix (i : Nat) : Int :=
    let z := seed + (i + 1).toUInt64 * 0x9E3779B97F4A7C15
    let z := (z ^^^ (z >>> 30)) * 0xBF58476D1CE4E5B9
    let z := (z ^^^ (z >>> 27)) * 0x94D049BB133111EB
    (z ^^^ (z >>> 31)).toNat
  ⟨mix, 0⟩

/-- The integer that comes `i` places after the next one, brought into a band. -/
def offset (s : Draws) (b : Band) (i : Nat) : Int :=
  b.low + s.sequence (s.position + i) % (b.high - b.low)

/-- The source after `n` integers more. -/
def advance (s : Draws) (n : Nat) : Draws := ⟨s.sequence, s.position + n⟩

@[simp] theorem position_advance (s : Draws) (n : Nat) :
    (s.advance n).position = s.position + n := rfl

@[simp] theorem advance_zero (s : Draws) : s.advance 0 = s := rfl

/-- An offset lies in its band. -/
theorem offset_mem {b : Band} (h : b.low < b.high) (s : Draws) (i : Nat) :
    b.low ≤ s.offset b i ∧ s.offset b i < b.high := by
  have h₁ := Int.emod_nonneg (s.sequence (s.position + i)) (b := b.high - b.low) (by omega)
  have h₂ := Int.emod_lt_of_pos (s.sequence (s.position + i)) (b := b.high - b.low) (by omega)
  unfold offset
  omega

end Draws

/-- A channel value moved by an offset, cut off to a channel value. -/
def shift (offset : Int) (v : UInt8) : UInt8 := toByte ((v.toNat : Int) + offset)

end Noise

open Noise

/-- The image with an offset of the band added to every pixel, and the source
afterwards.  An empty band adds its own bound and draws nothing. -/
def Image.addNoise (b : Band) (s : Draws) (img : Image) : Image × Draws :=
  if b.isEmpty then (img.map fun p => p.mapColour (shift b.low), s)
  else
    (img.mapAt fun x y p => p.mapColour (shift (s.offset b (y * img.width + x))),
      s.advance (img.width * img.height))

@[simp] theorem Image.size_addNoise (b : Band) (s : Draws) (img : Image) :
    (img.addNoise b s).1.size = img.size := by
  unfold addNoise
  split <;> rfl

end ImagePipeline
