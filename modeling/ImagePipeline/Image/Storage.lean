import ImagePipeline.Binary64.Writing

/-!
# Storage

The memory that an array of numbers takes.  Dimensions and sizes are counted in
64 bits with a sign, and no array is larger than what a machine can be expected to
hold.

## Main definitions

* `Storage` — the shape of an array and the type of its elements.
* `Storage.bytes` — the number of bytes it takes.
* `StorageError`, `Storage.error?` — why an array cannot be had.
-/

namespace ImagePipeline

-- `^` is the power of the core library here, whatever else an importer has in scope.
attribute [local instance (high)] instPowNat

/-- A list of dimensions in parentheses, a single one followed by a comma. -/
def tupleText (dims : List Nat) : String :=
  "(" ++ String.intercalate ", " (dims.map toString) ++ (if dims.length = 1 then ",)" else ")")

/-- The shape of an array and the type of its elements. -/
structure Storage where
  shape : List Nat
  elementBytes : Nat
  elementType : String
  deriving DecidableEq, Repr

/-- Why an array cannot be had. -/
inductive StorageError where
  /-- A dimension exceeds 64 bits. -/
  | dimension
  /-- The number of bytes exceeds 64 bits. -/
  | size
  | memory (s : Storage)
  deriving DecidableEq, Repr

namespace Storage

/-- The number of bytes that an array takes. -/
def bytes (s : Storage) : Nat := s.shape.foldl (· * ·) s.elementBytes

/-- The number of bytes by which the size of an array is judged: empty dimensions
are passed over. -/
def span (s : Storage) : Nat := (s.shape.filter (· != 0)).foldl (· * ·) s.elementBytes

/-- What dimensions and sizes stay below. -/
def countLimit : Nat := 2 ^ (63 : Nat)

/-- The largest array that is made, in bytes. -/
def memoryLimit : Nat := 2 ^ (34 : Nat)

/-- Why an array cannot be had, if it cannot. -/
def error? (s : Storage) : Option StorageError :=
  if s.shape.any fun d => countLimit ≤ d then some .dimension
  else if countLimit ≤ s.span then some .size
  else if memoryLimit < s.bytes then some (.memory s)
  else none

end Storage

/-! ### Sizes in words -/

/-- The units of size, each 1024 times the one before. -/
def sizeUnits : List String := ["bytes", "KiB", "MiB", "GiB", "TiB", "PiB", "EiB"]

/-- A number from one on with three significant digits, or with all digits in front
of the point if it has more. -/
def threeDigits (x : Binary64) : String :=
  let two := x.toFixed 2
  let one := x.toFixed 1
  if two.length ≤ 4 then two
  else if one.length ≤ 4 then one
  else x.toFixed 0 ++ "."

/-- A number of bytes in the largest unit that it fills, after rounding. -/
def sizeText (bytes : Nat) : String :=
  let unit := Nat.log2 bytes / 10
  let amount : Binary64 := .ofNat bytes / .ofNat (1024 ^ unit)
  let (unit, amount) :=
    if amount.nearestInt? = some 1024 then (unit + 1, amount / .ofNat 1024) else (unit, amount)
  (if unit = 0 then amount.toFixed 0 else threeDigits amount) ++ " " ++ sizeUnits.getD unit "EiB"

/-- The wording of an array that cannot be had. -/
def StorageError.message : StorageError → String
  | .dimension => "Maximum allowed dimension exceeded"
  | .size =>
    "array is too big; `arr.size * arr.dtype.itemsize` is larger than the maximum possible size."
  | .memory s =>
    "Unable to allocate " ++ sizeText s.bytes ++ " for an array with shape " ++
      tupleText s.shape ++ " and data type " ++ s.elementType

end ImagePipeline
