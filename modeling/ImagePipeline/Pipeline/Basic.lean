import ImagePipeline.Definition.Document
import ImagePipeline.Node.Apply

/-!
# Pipelines

A pipeline is a row of nodes, applied from the first to the last.  It can be
described, written as a definition, and saved to a file.

## Main definitions

* `Pipeline` — a row of nodes.
* `Pipeline.describe?` — its steps in words.
* `Pipeline.text` — its definition.
* `Pipeline.save` — writes the definition to a file.
* `Pipeline.get?` — a node by its place from either end.
* `Pipeline.readsBack` — whether its definition declares it again.
-/

namespace ImagePipeline

/-- A row of nodes. -/
abbrev Pipeline := List Node

/-- One step of a pipeline in words. -/
structure StepDescription where
  /-- The number of the step, from one. -/
  step : Nat
  name : String
  info : String
  deriving DecidableEq, Repr

namespace Pipeline

/-- The nodes from the given step on in words. -/
def describeFrom? (step : Nat) : Pipeline → Option (List StepDescription)
  | [] => some []
  | n :: p =>
    match Node.info? n, describeFrom? (step + 1) p with
    | some info, some rest => some (⟨step, n.name, info⟩ :: rest)
    | _, _ => none

/-- The steps of a pipeline in words, if every node has words. -/
def describe? (p : Pipeline) : Option (List StepDescription) := describeFrom? 1 p

/-- The definition of a pipeline, a line for every node, or why the first node
without a line has none. -/
def text : Pipeline → Except TextError String
  | [] => .ok ""
  | n :: p =>
    match Node.line n with
    | .error e => .error e
    | .ok line =>
      match text p with
      | .error e => .error e
      | .ok rest => .ok (line ++ "\n" ++ rest)

/-- The node at a place; negative places count from the end. -/
def get? (p : Pipeline) (index : Int) : Option Node :=
  if 0 ≤ index then p[index.toNat]?
  else if -(p.length : Int) ≤ index then p[(p.length + index).toNat]?
  else none

/-- The wording of a place at which there is no node. -/
def indexMessage (index : Int) : String :=
  if fitsWord index then "list index out of range"
  else "cannot fit 'int' into an index-sized integer"

/-- Whether two pipelines compare as equal, node by node. -/
def beq : Pipeline → Pipeline → Bool
  | [], [] => true
  | m :: p, n :: q => Node.beq m n && beq p q
  | _, _ => false

/-- Whether reading the definition of a pipeline gives it back, if it has one. -/
def readsBack (r : Registry) (strict : Bool) (p : Pipeline) : Bool :=
  match text p with
  | .error _ => false
  | .ok s =>
    match (Definition.readText r strict s.toList).result with
    | .ok q => beq q p
    | .error _ => false

/-- Why a pipeline is not saved. -/
inductive SaveError where
  | file (e : FileError)
  /-- A node has no definition line. -/
  | text (e : TextError)
  deriving DecidableEq

/-- The wording of a save error. -/
def SaveError.message : SaveError → String
  | .file e => e.message
  | .text e => e.message

/-- Writes the definition of a pipeline to the file at a written path.  The file is
emptied before the definition is made. -/
def save (p : Pipeline) (t : FileTree) (path : String) : FileTree × Option SaveError :=
  match t.writable path with
  | .error e => (t, some (.file e))
  | .ok place =>
    match text p with
    | .error e => (t.insert place (.file (.bytes [])), some (.text e))
    | .ok s => (t.insert place (.file (.ofText s)), none)

end Pipeline
end ImagePipeline
