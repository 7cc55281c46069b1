import ImagePipeline.Definition.Error
import ImagePipeline.Node.Registry
import ImagePipeline.Text.Lines

/-!
# Definition lines

One line of a definition declares one node, or none.  A line with one equals sign
declares a node without parameters, a line with more of them a node with
parameters, each a label and a value with an equals sign between them.  Blank
lines and comments declare nothing.

A keyword that no kind has is an error in a strict reading; otherwise a kind that
is built in takes its place, one without parameters or one with them.

## Main definitions

* `LineKind`, `classify` — the three kinds of line.
* `declaredKeyword` — the keyword of a declaration.
* `resolve` — the kind of a keyword, with the fallback.
* `readArguments` — parameters as labels and values.
* `readLine` — the node that a line declares.
-/

namespace ImagePipeline
namespace Definition

open Text

/-- The kinds of line. -/
inductive LineKind where
  /-- A blank line or a comment. -/
  | skip
  /-- The declaration of a node without parameters. -/
  | parameterless
  /-- The declaration of a node with parameters. -/
  | parameterized
  deriving DecidableEq, Repr

/-- The name of a kind of line. -/
def LineKind.name : LineKind → String
  | .skip => "skip"
  | .parameterless => "parameterless"
  | .parameterized => "parameterized"

/-- The kind of a line, by the number of its equals signs. -/
def classify (line : List Char) : Except Reason LineKind :=
  let s := trim line
  if s = [] ∨ s.head? = some '#' then .ok .skip
  else
    match s.count '=' with
    | 0 => .error .noDeclaration
    | 1 => .ok .parameterless
    | _ => .ok .parameterized

/-- The keyword of a declaration: a tag, an equals sign, and one word. -/
def declaredKeyword (declaration : List Char) : Except Reason String :=
  let (tag, rest) := (cutFirst '=' declaration).getD (declaration, [])
  if trim tag ≠ Node.declarationTag.toList then .error (.wrongTag (trim tag))
  else
    match words rest with
    | [] => .error .missingKeyword
    | [w] => .ok (String.ofList w)
    | w :: _ => .error (.textAfter w)

/-- The kind that takes the place of an unknown one without parameters. -/
def plainFallback : Kind := .vignette

/-- The kind that takes the place of an unknown one with parameters. -/
def parameterizedFallback : Kind := .crop

/-- The kind of a keyword.  An unknown keyword is an error if `strict` is set;
otherwise `fallback` takes its place. -/
def resolve (r : Registry) (strict : Bool) (fallback : Kind) (number : Int) (line : List Char)
    (keyword : String) : Reading Kind :=
  match r.find? keyword with
  | some k => .done k
  | none =>
    if strict then .failed ⟨number, line, .unknownKeyword keyword⟩
    else ⟨[⟨number, keyword, fallback⟩], .ok fallback⟩

/-- Takes the arguments of a declaration apart: each has to be the label it
belongs to, an equals sign, and a value. -/
def readArguments : List String → List (List Char) → Except Reason (List (String × List Char))
  | label :: labels, argument :: arguments =>
    match cutFirst '=' argument with
    | none => .error (.wrongLabel label argument)
    | some (key, value) =>
      if key ≠ label.toList then .error (.wrongLabel label argument)
      else
        match readArguments labels arguments with
        | .error e => .error e
        | .ok rest => .ok ((label, value) :: rest)
  | _, _ => .ok []

/-- The node of a kind declared without parameters. -/
def plainNode (k : Kind) (keyword : String) : Except Reason Node :=
  if k.isParameterized then .error (.needsParameters keyword k.labels) else .ok k.plain

/-- The node of a kind declared with the given arguments. -/
def parameterizedNode (k : Kind) (keyword : String) (arguments : List (List Char)) :
    Except Reason Node :=
  if !k.isParameterized then .error (.takesNoParameters keyword)
  else if arguments.length ≠ k.labels.length then
    .error (.wrongCount k.keyword k.labels arguments.length)
  else
    match readArguments k.labels arguments with
    | .error e => .error e
    | .ok values =>
      match k.ofValues values with
      | .error e => .error (.invalidValue e)
      | .ok n => .ok n

/-- A result about a line, as a reading. -/
def about {α : Type} (number : Int) (line : List Char) : Except Reason α → Reading α
  | .ok a => .done a
  | .error e => .failed ⟨number, line, e⟩

/-- The node that a line without parameters declares. -/
def readPlain (r : Registry) (strict : Bool) (number : Int) (line : List Char) : Reading Node :=
  (about number line (declaredKeyword line)).andThen fun keyword =>
    (resolve r strict plainFallback number line keyword).andThen fun k =>
      about number line (plainNode k keyword)

/-- The node that a line with parameters declares. -/
def readParameterized (r : Registry) (strict : Bool) (number : Int) (line : List Char) :
    Reading Node :=
  let tokens := words line
  (about number line (declaredKeyword (tokens.headD []))).andThen fun keyword =>
    (resolve r strict parameterizedFallback number line keyword).andThen fun k =>
      about number line (parameterizedNode k keyword tokens.tail)

/-- The node that a line declares, if it declares one.  Line ends at the end of
the line do not belong to it. -/
def readLine (r : Registry) (strict : Bool) (number : Int) (text : List Char) :
    Reading (Option Node) :=
  let line := chomp text
  (about number line (classify line)).andThen fun
    | .skip => .done none
    | .parameterless => (readPlain r strict number line).andThen fun n => .done (some n)
    | .parameterized => (readParameterized r strict number line).andThen fun n => .done (some n)

end Definition
end ImagePipeline
