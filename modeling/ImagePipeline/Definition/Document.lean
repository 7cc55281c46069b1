import ImagePipeline.Definition.Line
import ImagePipeline.File.Tree

/-!
# Definitions

A definition is a row of lines, read from a text or from the bytes of a file.
Both may start with a byte order mark, which is passed over.  The lines of a file
are cut before they are decoded, and all of them are decoded before any is read.

## Main definitions

* `readLines` — the nodes that lines declare.
* `readText` — the nodes that a text declares.
* `decodeLines` — the lines of a byte string.
* `readBytes` — the nodes that a byte string declares.
* `DocumentError`, `load` — the nodes that a file declares.
-/

namespace ImagePipeline
namespace Definition

/-- The nodes that lines declare, where the first of them has the given number. -/
def readLinesFrom (r : Registry) (strict : Bool) (number : Int) :
    List (List Char) → Reading (List Node)
  | [] => .done []
  | line :: lines =>
    (readLine r strict number line).andThen fun node =>
      (readLinesFrom r strict (number + 1) lines).andThen fun nodes =>
        .done (node.toList ++ nodes)

/-- The nodes that lines declare; the first line has number one. -/
def readLines (r : Registry) (strict : Bool) (lines : List (List Char)) : Reading (List Node) :=
  readLinesFrom r strict 1 lines

/-- A text without one leading byte order mark. -/
def dropMark : List Char → List Char
  | [] => []
  | c :: s => if c = Char.ofNat 0xFEFF then s else c :: s

/-- The nodes that a text declares. -/
def readText (r : Registry) (strict : Bool) (text : List Char) : Reading (List Node) :=
  readLines r strict (Text.lines (dropMark text))

/-- The characters of lines of bytes, where the first of them has the given
number. -/
def decodeLinesFrom (number : Int) : List (List UInt8) → Except ParseError (List (List Char))
  | [] => .ok []
  | line :: lines =>
    match Utf8.decode line with
    | .error offset =>
      .error ⟨number, Utf8.decodeLossy line, .invalidByte (line.getD offset 0) offset⟩
    | .ok s =>
      match decodeLinesFrom (number + 1) lines with
      | .error e => .error e
      | .ok rest => .ok (s :: rest)

/-- The lines of a byte string, or the first line that is not well formed. -/
def decodeLines (data : List UInt8) : Except ParseError (List (List Char)) :=
  decodeLinesFrom 1 (Bytes.lines (Utf8.dropByteOrderMark data))

/-- The nodes that a byte string declares. -/
def readBytes (r : Registry) (strict : Bool) (data : List UInt8) : Reading (List Node) :=
  match decodeLines data with
  | .error e => .failed e
  | .ok lines => readLines r strict lines

/-- Why a file declares no nodes. -/
inductive DocumentError where
  | file (e : FileError)
  | parse (e : ParseError)
  deriving DecidableEq

/-- The wording of a document error. -/
def DocumentError.message : DocumentError → String
  | .file e => e.message
  | .parse e => e.message

/-- The remark that a definition has been loaded. -/
def loadedMessage (count : Nat) (path : String) : String :=
  "Loaded " ++ toString count ++ " node(s) from " ++ path

/-- The nodes that the file at a written path declares, with the fallbacks on the
way. -/
def load (r : Registry) (strict : Bool) (t : FileTree) (path : String) :
    List Fallback × Except DocumentError (List Node) :=
  match t.read path with
  | .error e => ([], .error (.file e))
  | .ok c =>
    let reading := readBytes r strict c.toBytes
    (reading.fallbacks,
      match reading.result with
      | .error e => .error (.parse e)
      | .ok nodes => .ok nodes)

end Definition
end ImagePipeline
