import ImagePipeline.Image.Album
import ImagePipeline.Image.Stretch
import ImagePipeline.Image.Vignette
import ImagePipeline.Node.Basic

/-!
# Applying nodes

What a node makes of an image.  Noise nodes also use up draws of their source.

## Main definitions

* `Sources` — the sources of draws: those that nodes own, and a row of fresh ones
  for the others.
* `Failure` — why a node makes no image.
* `Node.apply` — the image that a node makes, and the sources afterwards.
-/

namespace ImagePipeline

/-- The sources of draws. -/
structure Sources where
  /-- The sources for nodes that own none; every use takes the next one. -/
  fresh : Nat → Noise.Draws
  /-- The sources that nodes own, by number. -/
  owned : Nat → Noise.Draws

namespace Sources

/-- The source of a node. -/
def draws (s : Sources) : Option Nat → Noise.Draws
  | none => s.fresh 0
  | some id => s.owned id

/-- Keeps a source as a node has left it; a fresh one is used up. -/
def keep (s : Sources) (id : Option Nat) (d : Noise.Draws) : Sources :=
  match id with
  | none => ⟨fun k => s.fresh (k + 1), s.owned⟩
  | some i => ⟨s.fresh, fun j => if j = i then d else s.owned j⟩

end Sources

/-- Why a node makes no image. -/
inductive Failure where
  | bounds (e : BoundsError)
  /-- The image has no pixel, hence no least level. -/
  | noLevel
  /-- The amount of noise is too large for a number. -/
  | amountTooLarge
  | creation (e : CreationError)
  | custom (label message : String)
  deriving DecidableEq

/-- The wording of a failure. -/
def Failure.message : Failure → String
  | .bounds e => e.message
  | .noLevel => "zero-size array to reduction operation minimum which has no identity"
  | .amountTooLarge => tooLargeMessage
  | .creation e => e.message
  | .custom _ message => message

/-- The image that a behaviour makes. -/
def Behaviour.apply (b : Behaviour) (img : Image) : Except Failure Image :=
  match b with
  | .copy => .ok img
  | .blank width height =>
    match Image.blank width height none with
    | .ok out => .ok out
    | .error e => .error (.creation e)
  | .give out => .ok out
  | .fail label message => .error (.custom label message)

/-- The image that a node makes, and the sources afterwards. -/
def Node.apply (n : Node) (s : Sources) (img : Image) : Except Failure (Image × Sources) :=
  match n with
  | .greyscale => .ok (img.grey, s)
  | .normalise =>
    match img.stretch? with
    | some out => .ok (out, s)
    | none => .error .noLevel
  | .vignette => .ok (img.vignette, s)
  | .noise amount id =>
    match amount.band? with
    | none => .error .amountTooLarge
    | some b =>
      let (out, d) := img.addNoise b (s.draws id)
      .ok (out, s.keep id d)
  | .crop r =>
    match Image.crop r img with
    | .ok out => .ok (out, s)
    | .error e => .error (.bounds e)
  | .custom k =>
    match k.behaviour.apply img with
    | .ok out => .ok (out, s)
    | .error e => .error e

end ImagePipeline
