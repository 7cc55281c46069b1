import ImagePipeline.Text.Split

/-!
# Paths

A path is a list of names below the working directory or below the root.  The
normal form of a written path drops empty names and single dots and keeps double
dots, which only the file tree can resolve.

## Main definitions

* `Path` — a path in normal form, with `Path.ofString` and `Path.toString`.
* `Path.parent`, `Path.join` — the neighbours of a path.
* `Path.suffix` — the ending of the last name, from its last dot on.
* `segments` — the names of a written path, with the dots kept.
-/

namespace ImagePipeline

/-- A path in normal form. -/
structure Path where
  /-- How many slashes stand in front: none for a path below the working
  directory, one or two for one below the root. -/
  slashes : Nat
  names : List String
  deriving DecidableEq, Repr, Inhabited

namespace Path

/-- The working directory. -/
def here : Path := ⟨0, []⟩

/-- The normal form of a written path.  Exactly two slashes in front are kept, any
other number of them counts as one. -/
def ofChars (s : List Char) : Path :=
  let leading := (s.takeWhile fun c => c == '/').length
  let names := ((splitOn '/' s).map String.ofList).filter fun n => n != "" && n != "."
  ⟨if leading = 0 then 0 else if leading = 2 then 2 else 1, names⟩

/-- The normal form of a written path. -/
def ofString (s : String) : Path := ofChars s.toList

/-- A path as text; the working directory is a dot. -/
def toString (p : Path) : String :=
  if p.slashes = 0 ∧ p.names = [] then "."
  else String.ofList (List.replicate p.slashes '/') ++ String.intercalate "/" p.names

/-- The last name of a path, empty if it has none. -/
def name (p : Path) : String := p.names.getLastD ""

/-- The path without its last name. -/
def parent (p : Path) : Path := ⟨p.slashes, p.names.dropLast⟩

/-- A written path below `p`, unless it starts at the root. -/
def join (p : Path) (s : String) : Path :=
  let q := ofString s
  if q.slashes = 0 then ⟨p.slashes, p.names ++ q.names⟩ else q

/-- The ending of a name: from its last dot on, unless that dot is the first or
the last character. -/
def suffixOf (name : List Char) : List Char :=
  let ending := (name.reverse.takeWhile fun c => c != '.').reverse
  if ending.length < name.length ∧ ending ≠ [] ∧ ending.length + 1 < name.length then
    '.' :: ending
  else []

/-- The ending of the last name. -/
def suffix (p : Path) : List Char := suffixOf p.name.toList

end Path

/-- The names of a written path from the root or the working directory, with
single and double dots kept. -/
def segments (s : List Char) : List String :=
  ((splitOn '/' s).filter fun n => !n.isEmpty).map String.ofList

end ImagePipeline
