import ImagePipeline.Image.Creation
import ImagePipeline.Node.Apply

/-!
# Operations on pictures

What a caller can do with pictures, and what becomes of their buffers.  A node never changes
the buffer that it is given: it makes a buffer of its own, which it may then change in place.

## Main definitions

* `Studio` — an album and the sources of draws.
* `PictureError` — why an operation gives no picture.
* `Studio.process`, `Studio.processAll` — applies a node, or nodes one after another.
* `Operation`, `Studio.perform`, `Studio.performAll` — the operations.
-/

namespace ImagePipeline

/-- Why an operation gives no picture. -/
inductive PictureError where
  /-- There is no picture of the given number. -/
  | missing
  | creation (e : CreationError)
  | node (e : Failure)
  | paint (e : PaintError)
  /-- A run has been stopped after a step. -/
  | stopped
  deriving DecidableEq

/-- An album, and the sources that nodes draw from. -/
structure Studio where
  album : Album
  sources : Sources

namespace Studio

/-- The studio without pictures. -/
def start (sources : Sources) : Studio := ⟨.empty, sources⟩

/-- Adds a picture with a buffer of its own. -/
def add (s : Studio) (img : Image) : Studio × Except PictureError Nat :=
  (⟨s.album.add img, s.sources⟩, .ok s.album.size)

/-- Adds a copy of an image and changes it in place. -/
def addChanged (s : Studio) (img : Image) (f : Image → Image) : Studio × Except PictureError Nat :=
  (⟨(s.album.add img).modify s.album.size f, s.sources⟩, .ok s.album.size)

/-- Stretches the contrast of an image: a picture of it in grey is made first, and kept if its
levels are all the same; else a copy of it is changed. -/
def addStretched (s : Studio) (img : Image) : Studio × Except PictureError Nat :=
  let s' : Studio := ⟨s.album.add img.grey, s.sources⟩
  match extremes? (img.grey.toList.map Pixel.red) with
  | none => (s', .error (.node .noLevel))
  | some (lo, hi) =>
    if lo = hi then (s', .ok s.album.size) else s'.addChanged img.grey (Image.spread lo hi)

/-- Applies a node to a picture. -/
def process (s : Studio) (n : Node) (picture : Nat) : Studio × Except PictureError Nat :=
  match s.album.image? picture with
  | none => (s, .error .missing)
  | some img =>
    match n with
    | .greyscale => s.add img.grey
    | .normalise => s.addStretched img
    | .vignette => s.addChanged img Image.vignette
    | .noise amount id =>
      match amount.band? with
      | none => (s, .error (.node .amountTooLarge))
      | some b =>
        let d := s.sources.draws id
        let s' : Studio := ⟨s.album, s.sources.keep id (img.addNoise b d).2⟩
        s'.addChanged img fun copy => (copy.addNoise b d).1
    | .crop r =>
      match Image.crop r img with
      | .ok region => s.add region
      | .error e => (s, .error (.node (.bounds e)))
    | .custom k =>
      match k.behaviour.apply img with
      | .ok out => s.add out
      | .error e => (s, .error (.node e))

/-- Applies nodes one after another, the first to the given picture. -/
def processAll (s : Studio) : List Node → Nat → Studio × Except PictureError Nat
  | [], picture => (s, .ok picture)
  | n :: ns, picture =>
    match s.process n picture with
    | (s', .error e) => (s', .error e)
    | (s', .ok picture') => s'.processAll ns picture'

end Studio

/-- What a caller can do with pictures. -/
inductive Operation where
  /-- An image of one colour. -/
  | blank (width height : Int) (colour : Option (List Int))
  /-- The image of an array that no picture shows. -/
  | raster (r : Raster)
  /-- The image of a file. -/
  | decoded (img : Image)
  /-- The image of the whole array that a picture shows. -/
  | share (picture : Nat)
  /-- The image of the colours of a picture, without its alpha. -/
  | colours (picture : Nat)
  | copy (picture : Nat)
  | grey (picture : Nat)
  | node (n : Node) (picture : Nat)
  /-- A run over nodes.  It is stopped after a number of steps if the next node cannot be put
  into words, if the result of a step cannot be saved, or if an observer interrupts it. -/
  | run (nodes : List Node) (picture : Nat) (stop : Option Nat)
  | paint (picture : Nat) (x y : Int) (colour : List Int)

namespace Studio

/-- Adds an image that has been made of a picture, if it is there. -/
def addMade (s : Studio) (picture : Nat) (f : Image → Image) : Studio × Except PictureError Nat :=
  match s.album.image? picture with
  | none => (s, .error .missing)
  | some img => s.add (f img)

/-- Adds an image, unless none could be made. -/
def addCreated (s : Studio) (made : Except CreationError Image) :
    Studio × Except PictureError Nat :=
  match made with
  | .ok img => s.add img
  | .error e => (s, .error (.creation e))

/-- Runs nodes on a picture, if it is there; the run may be stopped after a number of steps. -/
def run (s : Studio) (nodes : List Node) (picture : Nat) (stop : Option Nat) :
    Studio × Except PictureError Nat :=
  match s.album.image? picture, stop with
  | none, _ => (s, .error .missing)
  | some _, none => s.processAll nodes picture
  | some _, some steps =>
    match s.processAll (nodes.take steps) picture with
    | (s', .ok _) => (s', .error .stopped)
    | (s', .error e) => (s', .error e)

/-- Carries out an operation: the studio afterwards, and the picture that it gives. -/
def perform (s : Studio) : Operation → Studio × Except PictureError Nat
  | .blank width height colour => s.addCreated (Image.blank width height colour)
  | .raster r => s.addCreated (Image.ofRaster r)
  | .decoded img => s.add img
  | .share picture =>
    match s.album.image? picture with
    | none => (s, .error .missing)
    | some _ => (⟨s.album.share picture, s.sources⟩, .ok s.album.size)
  | .colours picture => s.addMade picture Image.withoutAlpha
  | .copy picture => s.addMade picture id
  | .grey picture => s.addMade picture Image.grey
  | .node n picture => s.process n picture
  | .run nodes picture stop => s.run nodes picture stop
  | .paint picture x y colour =>
    match s.album.image? picture with
    | none => (s, .error .missing)
    | some _ =>
      match s.album.paint picture x y colour with
      | (a, none) => (⟨a, s.sources⟩, .ok picture)
      | (a, some e) => (⟨a, s.sources⟩, .error (.paint e))

/-- Carries out operations one after another, whatever becomes of each. -/
def performAll (s : Studio) : List Operation → Studio
  | [] => s
  | op :: ops => (s.perform op).1.performAll ops

end Studio
end ImagePipeline
