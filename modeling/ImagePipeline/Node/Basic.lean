import ImagePipeline.Binary64.Writing
import ImagePipeline.Image.Crop
import ImagePipeline.Image.Noise

/-!
# Nodes

A node is one step of a pipeline: it turns an image into an image.  Five kinds of
node are built in; further kinds can be registered, and are known by what they do
to an image.

## Main definitions

* `CustomKind`, `Kind` — the kinds of node, with their keyword, display name and
  parameter labels.
* `Node` — a node with its parameters.
* `Node.InLimit` — the integers among the parameters can be written.
* `Node.words`, `Node.info?` — the parameters in words, and whether they can be written.
* `Node.values`, `Node.line` — the parameters as literals, and the definition line
  of the node.
* `TextError` — why a node has no literals.
* `Node.beq` — when two nodes compare as equal.
-/

namespace ImagePipeline

/-- What a node of a registered kind does to its image. -/
inductive Behaviour where
  | copy
  | blank (width height : Int)
  /-- Makes the same image of every image. -/
  | give (img : Image)
  /-- Fails with a message; the label names the kind of failure. -/
  | fail (label message : String)
  deriving DecidableEq, Repr

/-- A registered kind of node. -/
structure CustomKind where
  typeName : String
  /-- The word that stands for the kind in definitions. -/
  keyword : String
  /-- The name shown to people; empty if the name of the kind will do. -/
  displayName : String
  /-- The labels of the parameters, in order. -/
  labels : List String
  behaviour : Behaviour
  /-- The parameters in words. -/
  info : String
  deriving DecidableEq, Repr

/-- The kinds of node. -/
inductive Kind where
  | greyscale
  /-- Turns the image grey and stretches its contrast. -/
  | normalise
  | vignette
  | noise
  | crop
  | custom (kind : CustomKind)
  deriving DecidableEq, Repr

namespace Kind

/-- The word that stands for a kind in definitions. -/
def keyword : Kind → String
  | .greyscale => "greyscale"
  | .normalise => "normalise"
  | .vignette => "vignette"
  | .noise => "noise"
  | .crop => "crop"
  | .custom k => k.keyword

/-- The name of a kind. -/
def typeName : Kind → String
  | .greyscale => "GreyScale"
  | .normalise => "Normalise"
  | .vignette => "Vignette"
  | .noise => "Noise"
  | .crop => "Crop"
  | .custom k => k.typeName

/-- The name of a kind that is shown to people. -/
def displayName : Kind → String
  | .custom k => if k.displayName = "" then k.typeName else k.displayName
  | k => k.typeName

/-- The labels of the parameters of a kind, in order. -/
def labels : Kind → List String
  | .noise => ["noise_amount"]
  | .crop => ["origin", "size"]
  | .custom k => k.labels
  | _ => []

/-- Whether the nodes of a kind have parameters. -/
def isParameterized (k : Kind) : Bool := !k.labels.isEmpty

/-- The kinds that are built in. -/
def builtIn : List Kind := [.greyscale, .normalise, .vignette, .noise, .crop]

end Kind

/-- A node. -/
inductive Node where
  | greyscale
  /-- Turns the image grey and stretches its contrast. -/
  | normalise
  | vignette
  /-- Adds noise of an amount.  A node without a source of its own takes a fresh one
  for every use. -/
  | noise (amount : Noise.Amount) (source : Option Nat)
  | crop (region : Region)
  | custom (kind : CustomKind)
  deriving DecidableEq

namespace Node

/-- The kind of a node. -/
def kind : Node → Kind
  | .greyscale => .greyscale
  | .normalise => .normalise
  | .vignette => .vignette
  | .noise _ _ => .noise
  | .crop _ => .crop
  | .custom k => .custom k

/-- The name of a node that is shown to people. -/
def name (n : Node) : String := n.kind.displayName

/-- A noise node with another source; any other node as it is. -/
def withSource (id : Nat) : Node → Node
  | .noise a _ => .noise a (some id)
  | n => n

end Node

/-! ### Parameters as text -/

/-- An amount as people read it. -/
def Noise.Amount.text : Noise.Amount → String
  | .real x => x.toText
  | .whole n => toString n

/-- Two integers with an x between them. -/
def timesText (a b : Int) : String := toString a ++ "x" ++ toString b

/-- Why a node has no literals. -/
inductive TextError where
  /-- An amount is too large for a number. -/
  | amountTooLarge
  /-- An integer has too many digits. -/
  | overlong
  deriving DecidableEq

/-- The wording of a whole number that is too large. -/
def tooLargeMessage : String := "int too large to convert to float"

/-- The wording of a text error. -/
def TextError.message : TextError → String
  | .amountTooLarge => tooLargeMessage
  | .overlong => Numeral.overlongMessage

namespace Node

/-- The integers among the parameters of a node can be written. -/
def InLimit : Node → Prop
  | .noise (.whole m) _ => Numeral.InLimit m
  | .crop r => r.InLimit
  | _ => True

instance : (n : Node) → Decidable n.InLimit
  | .noise (.whole m) _ => inferInstanceAs (Decidable (Numeral.InLimit m))
  | .crop r => inferInstanceAs (Decidable r.InLimit)
  | .noise (.real _) _ | .greyscale | .normalise | .vignette | .custom _ => isTrue trivial

/-- The parameters of a node in words, empty if it has none. -/
def words : Node → String
  | .noise a _ => "(noise_amount=" ++ a.text ++ ")"
  | .crop r => "(origin=" ++ pairText r.x r.y ++ ", size=" ++ pairText r.width r.height ++ ")"
  | .custom k => k.info
  | _ => ""

/-- The parameters of a node in words, if its integers can be written. -/
def info? (n : Node) : Option String := if n.InLimit then some n.words else none

theorem info?_eq_some {n : Node} (h : n.InLimit) : n.info? = some n.words := if_pos h

theorem info?_eq_none_iff {n : Node} : n.info? = none ↔ ¬ n.InLimit := by
  unfold info?
  split <;> simp [*]

/-- A node as an expression, if its integers can be written. -/
def expression? (n : Node) : Option String :=
  if n.InLimit then
    some <| match n with
    | .noise a _ => "Noise(noise_amount=" ++ a.text ++ ")"
    | .crop r =>
      "Crop(x=" ++ toString r.x ++ ", y=" ++ toString r.y ++ ", width=" ++ toString r.width ++
        ", height=" ++ toString r.height ++ ")"
    | n => n.kind.typeName ++ "()"
  else none

/-- The parameters of a node as literals under their labels. -/
def values : Node → Except TextError (List (String × String))
  | .noise a _ =>
    match a.toNumber? with
    | some x => .ok [("noise_amount", x.toText)]
    | none => .error .amountTooLarge
  | .crop r =>
    if r.InLimit then
      .ok [("origin", timesText r.x r.y), ("size", timesText r.width r.height)]
    else .error .overlong
  | _ => .ok []

/-- The tag that marks a definition line. -/
def declarationTag : String := "node"

/-- The definition line of a node with the given literals. -/
def lineWith (n : Node) (values : List (String × String)) : String :=
  String.intercalate " "
    ((declarationTag ++ "=" ++ n.kind.keyword) :: values.map fun (l, v) => l ++ "=" ++ v)

/-- The definition line of a node, if its parameters have literals. -/
def line (n : Node) : Except TextError String := n.values.map n.lineWith

/-- Whether two nodes compare as equal: nodes of one kind with equal parameters,
whatever their sources. -/
def beq : Node → Node → Bool
  | .noise a _, .noise b _ => a.beq b
  | .crop r, .crop s => r == s
  | .custom k, .custom l => k == l
  | m, n => m == n

end Node
end ImagePipeline
