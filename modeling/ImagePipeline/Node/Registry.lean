import ImagePipeline.Node.Basic

/-!
# The registry of kinds

Which kind of node a keyword stands for.  A kind registered under a keyword takes
the place of the one that had it.

## Main definitions

* `Registry` — keywords with their kinds, and `Registry.standard`.
* `Registry.find?` — the kind of a keyword.
* `Registry.register` — adds a kind; a kind without a keyword is refused.
-/

namespace ImagePipeline

/-- Keywords with the kinds they stand for. -/
structure Registry where
  /-- The keywords and their kinds, in the order of registration. -/
  kinds : List (String × Kind)
  deriving DecidableEq

/-- A kind that is refused because it has no keyword. -/
structure KeywordError where
  typeName : String
  deriving DecidableEq, Repr

/-- The wording of a keyword error. -/
def KeywordError.message (e : KeywordError) : String := e.typeName ++ " does not define a keyword"

namespace Registry

/-- The registry of the kinds that are built in. -/
def standard : Registry := ⟨Kind.builtIn.map fun k => (k.keyword, k)⟩

instance : Inhabited Registry := ⟨standard⟩

/-- The kind that a keyword stands for. -/
def find? (r : Registry) (keyword : String) : Option Kind := r.kinds.lookup keyword

/-- Adds a kind under its keyword. -/
def register (r : Registry) (k : Kind) : Except KeywordError Registry :=
  if k.keyword = "" then .error ⟨k.typeName⟩
  else .ok ⟨(k.keyword, k) :: r.kinds.filter fun x => x.1 != k.keyword⟩

/-- The keywords in the order of their characters. -/
def keywords (r : Registry) : List String :=
  (r.kinds.map Prod.fst).mergeSort fun a b => decide (a ≤ b)

end Registry
end ImagePipeline
