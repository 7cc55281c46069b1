import ImagePipeline.Node.Basic
import ImagePipeline.Numeral.Real
import ImagePipeline.Text.Split

/-!
# Nodes from literals

Making a node from the raw values of its parameters.

## Main definitions

* `ValueError` — why the values make no node.
* `readPair` — reads two integers with an x between them.
* `Kind.ofValues` — the node of a kind with the given values.
-/

namespace ImagePipeline

/-- Why raw values make no node. -/
inductive ValueError where
  /-- There is no value for a label. -/
  | missing (label : String)
  | pair (text : List Char)
  | integer (e : Numeral.IntegerError)
  | real (e : Numeral.RealError)
  /-- The amount of noise is not finite. -/
  | notFinite (x : Binary64)
  deriving DecidableEq

/-- The wording of a value error. -/
def ValueError.message : ValueError → String
  | .missing label => quote label
  | .pair text => "Expected a pair like '10x20', got " ++ String.ofList (Text.quoted text)
  | .integer e => e.message
  | .real e => e.message
  | .notFinite x => "noise_amount must be finite, got " ++ x.toText

/-- Reads an integer. -/
def readInt (text : List Char) : Except ValueError Int :=
  match Numeral.readInteger text with
  | .ok n => .ok n
  | .error e => .error (.integer e)

/-- Reads two integers with an x between them. -/
def readPair (text : List Char) : Except ValueError (Int × Int) :=
  match splitOn 'x' text with
  | [a, b] =>
    match readInt a with
    | .error e => .error e
    | .ok m =>
      match readInt b with
      | .error e => .error e
      | .ok n => .ok (m, n)
  | _ => .error (.pair text)

/-- Reads an amount of noise. -/
def readAmount (text : List Char) : Except ValueError Noise.Amount :=
  match Numeral.readReal text with
  | .error e => .error (.real e)
  | .ok x => if x.isFinite then .ok (.real x) else .error (.notFinite x)

/-- The value under a label. -/
def valueOf (values : List (String × List Char)) (label : String) :
    Except ValueError (List Char) :=
  match values.lookup label with
  | some v => .ok v
  | none => .error (.missing label)

/-- The node of a kind with the given values.  Registered kinds take any values
and ignore them. -/
def Kind.ofValues (k : Kind) (values : List (String × List Char)) : Except ValueError Node :=
  match k with
  | .greyscale => .ok .greyscale
  | .normalise => .ok .normalise
  | .vignette => .ok .vignette
  | .custom c => .ok (.custom c)
  | .noise => do
    let text ← valueOf values "noise_amount"
    let amount ← readAmount text
    return .noise amount none
  | .crop => do
    let origin ← valueOf values "origin"
    let (x, y) ← readPair origin
    let size ← valueOf values "size"
    let (width, height) ← readPair size
    return .crop ⟨x, y, width, height⟩

/-- The node of a kind without parameters. -/
def Kind.plain : Kind → Node
  | .greyscale => .greyscale
  | .normalise => .normalise
  | .vignette => .vignette
  | .noise => .noise (.real .zero) none
  | .crop => .crop ⟨0, 0, 1, 1⟩
  | .custom c => .custom c

end ImagePipeline
