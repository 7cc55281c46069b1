import ImagePipeline.File.Content
import ImagePipeline.File.Path
import ImagePipeline.Text.Quoted

/-!
# File trees

Directories and files below a working directory, and the operations that a
program asks of them: looking a path up, reading a file, making a directory, and
opening a file for writing.  A place is a list of names from a directory on that
is always there: the working directory, one above it, or the root.

## Main definitions

* `Place` — where something stands.
* `FileTree` — the tree, and `FileTree.lookup`, what stands at a place.
* `FileError` — why an operation is refused.
* `FileTree.resolve` — the place that a written path leads to.
* `FileTree.read`, `FileTree.write` — the contents of files.
* `FileTree.makeDirectory`, `FileTree.makeDirectories` — making directories.
-/

namespace ImagePipeline

/-- What stands at a place. -/
inductive Entry where
  | directory
  | file (content : Content)
  deriving DecidableEq

/-- The content of an entry that is a file. -/
def Entry.content? : Entry → Option Content
  | .directory => none
  | .file c => some c

/-- The directories that are always there. -/
inductive Anchor where
  /-- The directory so many levels above the working directory. -/
  | above (levels : Nat)
  | root
  deriving DecidableEq, Repr

/-- A place: names from a directory on that is always there. -/
structure Place where
  /-- Where the names start. -/
  anchor : Anchor
  names : List String
  deriving DecidableEq, Repr

namespace Place

/-- The place of names below the working directory. -/
def below (names : List String) : Place := ⟨.above 0, names⟩

/-- The place that a written path starts from. -/
def start (s : List Char) : Place := if s.head? = some '/' then ⟨.root, []⟩ else .below []

/-- The place of a name in the directory at a place. -/
def child (p : Place) (name : String) : Place := ⟨p.anchor, p.names ++ [name]⟩

/-- The place of the directory that holds a place; the root holds itself. -/
def parent (p : Place) : Place :=
  match p.anchor, p.names with
  | .above n, [] => ⟨.above (n + 1), []⟩
  | a, names => ⟨a, names.dropLast⟩

/-- The longest name that a directory can hold, in bytes. -/
def nameLimit : Nat := 255

end Place

/-- Why a file operation is refused. -/
inductive FileError.Cause where
  | missing
  | present
  /-- A name on the way is no directory. -/
  | notDirectory
  | isDirectory
  /-- A name is longer than any directory can hold, or a path longer than any can
  be. -/
  | nameTooLong
  | nullCharacter
  deriving DecidableEq, Repr

/-- The refusal of a file operation, with the path it was asked for. -/
structure FileError where
  cause : FileError.Cause
  /-- The path as it was written. -/
  path : String
  deriving DecidableEq, Repr

/-- The wording of a refusal. -/
def FileError.message (e : FileError) : String :=
  match e.cause with
  | .missing => "[Errno 2] No such file or directory: " ++ quote e.path
  | .present => "[Errno 17] File exists: " ++ quote e.path
  | .notDirectory => "[Errno 20] Not a directory: " ++ quote e.path
  | .isDirectory => "[Errno 21] Is a directory: " ++ quote e.path
  | .nameTooLong => "[Errno 36] File name too long: " ++ quote e.path
  | .nullCharacter => "embedded null byte"

/-- The directories and files that are known, in the order they were made. -/
structure FileTree where
  entries : List (Place × Entry)
  deriving DecidableEq

namespace FileTree

/-- The tree without directories and files. -/
def empty : FileTree := ⟨[]⟩

instance : Inhabited FileTree := ⟨empty⟩

/-- What stands at a place. -/
def lookup (t : FileTree) (p : Place) : Option Entry :=
  if p.names = [] then some .directory else t.entries.lookup p

/-- Puts an entry at a place, in place of what stands there. -/
def insert (t : FileTree) (p : Place) (e : Entry) : FileTree :=
  if t.entries.any fun x => x.1 == p then
    ⟨t.entries.map fun x => if x.1 = p then (p, e) else x⟩
  else ⟨t.entries ++ [(p, e)]⟩

/-- Puts an entry at a place and makes the directories above it. -/
def insertDeep (t : FileTree) (p : Place) (e : Entry) : FileTree :=
  let parents := (List.range p.names.length).map fun n => Place.mk p.anchor (p.names.take n)
  let t' := parents.foldl (fun t q => if (t.lookup q).isSome then t else t.insert q .directory) t
  if e = .directory ∧ (t'.lookup p).isSome then t' else t'.insert p e

/-! ### Finding places -/

/-- Goes one name further from a place. -/
def enter (t : FileTree) (p : Place) (name : String) : Except FileError.Cause Place :=
  match t.lookup p with
  | none => .error .missing
  | some (.file _) => .error .notDirectory
  | some .directory =>
    if name = "." then .ok p
    else if name = ".." then .ok p.parent
    else if Place.nameLimit < name.utf8ByteSize then .error .nameTooLong
    else if (t.lookup (p.child name)).isSome then .ok (p.child name)
    else .error .missing

/-- Goes along names from a place; everything on the way has to be there. -/
def follow (t : FileTree) : Place → List String → Except FileError.Cause Place
  | p, [] => .ok p
  | p, n :: ns =>
    match t.enter p n with
    | .error e => .error e
    | .ok q => follow t q ns

/-- The longest written path that leads anywhere, in bytes. -/
def pathLimit : Nat := 4095

/-- Why a written path leads nowhere whatever a tree holds. -/
def pathFault? (path : String) : Option FileError.Cause :=
  if path.toList.contains '\x00' then some .nullCharacter
  else if path = "" then some .missing
  else if pathLimit < path.utf8ByteSize then some .nameTooLong
  else none

/-- Whether a written path asks for a directory by ending in a slash. -/
def endsInSlash (s : List Char) : Bool := s.getLast? == some '/'

/-- The place that a written path leads to. -/
def resolve (t : FileTree) (path : String) : Except FileError Place :=
  let s := path.toList
  match pathFault? path with
  | some c => .error ⟨c, path⟩
  | none =>
    let names := segments s
    match t.follow (.start s) (if endsInSlash s then names ++ ["."] else names) with
    | .error c => .error ⟨c, path⟩
    | .ok p => .ok p

/-- What a written path leads to, if anything. -/
def find? (t : FileTree) (path : String) : Option Entry :=
  match t.resolve path with
  | .error _ => none
  | .ok p => t.lookup p

/-- Whether a written path leads to anything. -/
def contains (t : FileTree) (path : String) : Bool := (t.find? path).isSome

/-- The directory that the last name of a written path stands in, which has to be
there, and that name.  If the last name is a dot or two, there is no place for it. -/
def target (t : FileTree) (path : String) : Except FileError (Place × Option String) :=
  let s := path.toList
  match pathFault? path with
  | some c => .error ⟨c, path⟩
  | none =>
    let names := segments s
    match t.follow (.start s) (names.dropLast ++ ["."]) with
    | .error c => .error ⟨c, path⟩
    | .ok p =>
      match names.getLast? with
      | none => .ok (p, none)
      | some n =>
        if n = "." ∨ n = ".." then .ok (p, none) else .ok (p, some n)

/-! ### Reading and writing -/

/-- The content of the file that a written path leads to. -/
def read (t : FileTree) (path : String) : Except FileError Content :=
  match t.resolve path with
  | .error e => .error e
  | .ok p =>
    match t.lookup p with
    | some (.file c) => .ok c
    | some .directory => .error ⟨.isDirectory, path⟩
    | none => .error ⟨.missing, path⟩

/-- The place of the file that opening a written path for writing makes or
empties. -/
def writable (t : FileTree) (path : String) : Except FileError Place :=
  match t.target path with
  | .error e => .error e
  | .ok (_, none) => .error ⟨.isDirectory, path⟩
  | .ok (p, some n) =>
    if endsInSlash path.toList then .error ⟨.isDirectory, path⟩
    else if Place.nameLimit < n.utf8ByteSize then .error ⟨.nameTooLong, path⟩
    else
      match t.lookup (p.child n) with
      | some .directory => .error ⟨.isDirectory, path⟩
      | _ => .ok (p.child n)

/-- Writes a whole file at a written path. -/
def write (t : FileTree) (path : String) (c : Content) : Except FileError FileTree :=
  match t.writable path with
  | .error e => .error e
  | .ok p => .ok (t.insert p (.file c))

/-! ### Making directories -/

/-- Makes the directory of a written path, in a directory that is there. -/
def makeDirectory (t : FileTree) (path : String) : Except FileError FileTree :=
  match t.target path with
  | .error e => .error e
  | .ok (_, none) => .error ⟨.present, path⟩
  | .ok (p, some n) =>
    if Place.nameLimit < n.utf8ByteSize then .error ⟨.nameTooLong, path⟩
    else if (t.lookup (p.child n)).isSome then .error ⟨.present, path⟩
    else .ok (t.insert (p.child n) .directory)

/-- What becomes of a refusal to make a directory: it does not matter if the
directory is there, unless something on the way is missing. -/
def excuse (t : FileTree) (e : FileError) : Option FileError :=
  match e.cause with
  | .missing => some e
  | .nullCharacter => some e
  | _ => if t.find? e.path = some .directory then none else some e

/-- Makes the directory whose names are given from the last one up, together with
the directories above it that are missing.  What has been made before a refusal
stays.  However many directories are missing, one is tried after the other: a limit
on the depth of calls, which a machine may have, is left out of account. -/
def makeDirectoriesUp (slashes : Nat) (t : FileTree) : List String → FileTree × Option FileError
  | [] =>
    match t.makeDirectory (Path.toString ⟨slashes, []⟩) with
    | .ok t' => (t', none)
    | .error e => (t, t.excuse e)
  | n :: above =>
    let path := Path.toString ⟨slashes, (n :: above).reverse⟩
    match t.makeDirectory path with
    | .ok t' => (t', none)
    | .error e =>
      if e.cause = .missing then
        match makeDirectoriesUp slashes t above with
        | (t', some e') => (t', some e')
        | (t', none) =>
          match t'.makeDirectory path with
          | .ok t'' => (t'', none)
          | .error e' => (t', t'.excuse e')
      else (t, t.excuse e)

/-- Makes a directory together with those above it that are missing; a directory
that is there is left alone. -/
def makeDirectories (t : FileTree) (p : Path) : FileTree × Option FileError :=
  makeDirectoriesUp p.slashes t p.names.reverse

/-! ### Listing -/

/-- What stands below the working directory, by the names on the way to it. -/
def local? (x : Place × Entry) : Option (String × Entry) :=
  if x.1.anchor = .above 0 then some (String.intercalate "/" x.1.names, x.2) else none

/-- The files below the working directory. -/
def files (t : FileTree) : List (String × Content) :=
  (t.entries.filterMap local?).filterMap fun x => x.2.content?.map fun c => (x.1, c)

/-- All that stands below the working directory, directories with a slash at the
end, in the order of the characters. -/
def listing (t : FileTree) : List String :=
  let all := (t.entries.filterMap local?).map fun (name, e) =>
    match e with
    | .directory => name ++ "/"
    | .file _ => name
  all.mergeSort fun a b => decide (a ≤ b)

end FileTree
end ImagePipeline
