import ImagePipeline.File.Tree

/-!
# Pictures in files

Loading an image from a file, and saving one under a name whose ending says the
format.

## Main definitions

* `LoadError`, `FileTree.loadImage` — loading.
* `fileType` — the file type that the ending of a path names.
* `SaveError`, `FileTree.saveImage` — saving.
* `FileTree.writeImage` — saving under a stem, to which an extension is added.
-/

namespace ImagePipeline

/-- Why no image can be loaded. -/
inductive LoadError where
  | notFound (path : String)
  | file (e : FileError)
  | unidentified (path : String)
  deriving DecidableEq, Repr

/-- The wording of a load error. -/
def LoadError.message : LoadError → String
  | .notFound path => "Could not read image: " ++ path
  | .file e => e.message
  | .unidentified path => "cannot identify image file " ++ quote path

/-- Why an image cannot be saved. -/
inductive SaveError where
  /-- The ending of the name is no picture format. -/
  | fileType (suffix : List Char)
  | emptyImage
  | file (e : FileError)
  deriving DecidableEq, Repr

/-- The wording of a save error. -/
def SaveError.message : SaveError → String
  | .fileType suffix =>
    "Unsupported image file type: " ++ String.ofList (Text.quoted suffix)
  | .emptyImage => "cannot write empty image"
  | .file e => e.message

/-- An extension without the dots in front. -/
def dropDots (s : List Char) : List Char := s.dropWhile fun c => c == '.'

/-- The name of the file type that an extension means, with or without dots in
front and in either case. -/
def fileType (extension : List Char) : String :=
  String.ofList ((dropDots extension).map Char.toLower)

namespace FileTree

/-- The image of the picture file at a written path. -/
def loadImage (t : FileTree) (path : String) : Except LoadError Image :=
  if !t.contains path then .error (.notFound path)
  else
    match t.read path with
    | .error e => .error (.file e)
    | .ok c =>
      match c.image? with
      | none => .error (.unidentified path)
      | some img => .ok img

/-- Saves an image at a path in the format that its ending names. -/
def saveImage (t : FileTree) (p : Path) (img : Image) : Except SaveError FileTree :=
  match Format.ofName? (fileType p.suffix) with
  | none => .error (.fileType p.suffix)
  | some f =>
    if img.isEmpty then .error .emptyImage
    else
      match t.write p.toString (.ofImage f img) with
      | .error e => .error (.file e)
      | .ok t' => .ok t'

/-- The path of a picture with the given stem and extension. -/
def picturePath (stem : String) (extension : List Char) : Path :=
  .ofChars (stem.toList ++ '.' :: dropDots extension)

/-- Saves an image under a stem with an extension added: where it is, and the
tree afterwards. -/
def writeImage (t : FileTree) (stem : String) (extension : List Char) (img : Image) :
    Except SaveError (Path × FileTree) :=
  let p := picturePath stem extension
  (t.saveImage p img).map fun t' => (p, t')

end FileTree
end ImagePipeline
