import ImagePipeline.Node.Values

/-!
# Errors and warnings of definitions

What can be wrong with a line of a definition, and what is remarked on while it
is read.

## Main definitions

* `Reason` — what is wrong with a line.
* `ParseError` — a line with what is wrong with it.
* `Fallback` — the remark that an unknown keyword was replaced.
* `Reading` — the outcome of reading: the remarks and the result.
-/

namespace ImagePipeline
namespace Definition

/-- What is wrong with a line. -/
inductive Reason where
  | noDeclaration
  | wrongTag (tag : List Char)
  | missingKeyword
  | textAfter (keyword : List Char)
  | unknownKeyword (keyword : String)
  /-- The kind has parameters, but none are given. -/
  | needsParameters (keyword : String) (labels : List String)
  /-- The kind has no parameters, but some are given. -/
  | takesNoParameters (keyword : String)
  /-- The kind has another number of parameters. -/
  | wrongCount (keyword : String) (labels : List String) (given : Nat)
  /-- A parameter stands under another label. -/
  | wrongLabel (label : String) (argument : List Char)
  | invalidValue (e : ValueError)
  /-- A byte of the line belongs to no character. -/
  | invalidByte (byte : UInt8) (offset : Nat)
  deriving DecidableEq

/-- The wording of a reason. -/
def Reason.message : Reason → String
  | .noDeclaration => "expected a node declaration like 'node=<keyword>'"
  | .wrongTag tag => "expected declaration tag 'node=', got '" ++ String.ofList tag ++ "='"
  | .missingKeyword => "missing node keyword"
  | .textAfter keyword => "unexpected text after node keyword '" ++ String.ofList keyword ++ "'"
  | .unknownKeyword keyword => "unknown node keyword '" ++ keyword ++ "'"
  | .needsParameters keyword labels =>
    "'" ++ keyword ++ "' requires the parameters " ++ String.intercalate ", " labels
  | .takesNoParameters keyword => "'" ++ keyword ++ "' takes no parameters"
  | .wrongCount keyword labels given =>
    "'" ++ keyword ++ "' expects " ++ toString labels.length ++ " parameter(s) (" ++
      String.intercalate ", " labels ++ "), got " ++ toString given
  | .wrongLabel label argument =>
    "expected '" ++ label ++ "=<value>', got '" ++ String.ofList argument ++ "'"
  | .invalidValue e => "invalid value: " ++ e.message
  | .invalidByte byte offset =>
    "invalid UTF-8 byte 0x" ++ String.ofList (Text.hexDigits 2 byte.toNat) ++ " at offset " ++
      toString offset

/-- A line with what is wrong with it. -/
structure ParseError where
  lineNumber : Int
  /-- The line without its end. -/
  line : List Char
  reason : Reason
  deriving DecidableEq

/-- The wording of a parse error, from its parts in words. -/
def parseMessage (lineNumber line reason : String) : String :=
  "line " ++ lineNumber ++ ": " ++ reason ++ ": " ++ line

/-- The wording of a parse error. -/
def ParseError.message (e : ParseError) : String :=
  parseMessage (toString e.lineNumber) (quote (String.ofList e.line)) e.reason.message

/-- The remark that an unknown keyword was replaced by a kind. -/
structure Fallback where
  lineNumber : Int
  keyword : String
  /-- The kind that takes its place. -/
  kind : Kind
  deriving DecidableEq

/-- The wording of a fallback. -/
def Fallback.message (f : Fallback) : String :=
  "Line " ++ toString f.lineNumber ++ ": unknown node keyword '" ++ f.keyword ++
    "', falling back to " ++ f.kind.typeName

/-- The outcome of reading: the fallbacks on the way, and the result. -/
structure Reading (α : Type) where
  /-- The fallbacks, in the order of their lines. -/
  fallbacks : List Fallback
  result : Except ParseError α

namespace Reading

/-- A result without fallbacks. -/
def done {α : Type} (a : α) : Reading α := ⟨[], .ok a⟩

/-- An error without fallbacks. -/
def failed {α : Type} (e : ParseError) : Reading α := ⟨[], .error e⟩

/-- Goes on with a result; the fallbacks of both parts are kept. -/
def andThen {α β : Type} (r : Reading α) (f : α → Reading β) : Reading β :=
  match r.result with
  | .error e => ⟨r.fallbacks, .error e⟩
  | .ok a => ⟨r.fallbacks ++ (f a).fallbacks, (f a).result⟩

end Reading
end Definition
end ImagePipeline
