import ImagePipeline.CommandLine.Session
import ImagePipeline.Settings.Validation

/-!
# The command

Reads the arguments, the environment and the files that the arguments name,
performs a session on them, and writes what the session has made.  Bitmap files
are read; bitmap and PNG files are written.

## Main definitions

* `snapshot` — what stands on the way to a written path.
* `store` — writes what is new in a file tree.
* `main` — the command.
-/

namespace ImagePipeline
namespace CommandLine

/-! ### Files -/

/-- What stands at a written path, if anything does. -/
def inspect (path : String) : IO (Option Entry) := do
  try
    let data ← IO.FS.readBinFile path
    return some (.file (.ofBytes data.toList))
  catch
    | .noFileOrDirectory .. => return none
    | _ => return some .directory

/-- The place that a name leads to from another one. -/
def stepTo (p : Place) (name : String) : Place :=
  if name = "." then p else if name = ".." then p.parent else p.child name

/-- A place as a written path. -/
def pathOf (p : Place) : String :=
  match p.anchor with
  | .root => "/" ++ String.intercalate "/" p.names
  | .above n => String.intercalate "/" (List.replicate n ".." ++ p.names)

/-- Adds to a tree what stands on the way to a written path and at its end. -/
def snapshot (t : FileTree) (path : String) : IO FileTree := do
  let mut t := t
  let mut p := Place.start path.toList
  for name in segments path.toList do
    p := stepTo p name
    if (t.lookup p).isNone then
      match ← inspect (pathOf p) with
      | some e => t := t.insert p e
      | none => break
  return t

/-- Adds to a tree what stands at the paths that arguments name. -/
def snapshotArguments (a : Arguments) : IO FileTree := do
  let mut t := FileTree.empty
  for path in [a.image, a.pipeline, a.saveDirectory, a.outputDirectory].filterMap id do
    t ← snapshot t path
  return t

/-- Writes what one tree has and another one has not. -/
def store (before after : FileTree) : IO Unit := do
  for (p, e) in after.entries do
    if before.lookup p ≠ some e then
      match e with
      | .directory => IO.FS.createDirAll (pathOf p)
      | .file (.bytes data) => IO.FS.writeBinFile (pathOf p) ⟨data.toArray⟩
      | .file (.picture f img) =>
        match f.encode? img with
        | some data => IO.FS.writeBinFile (pathOf p) ⟨data.toArray⟩
        | none => throw (.userError ("There is no encoder for the file " ++ pathOf p))

/-! ### Sessions -/

/-- The settings in the environment. -/
def environment : IO (List (String × String)) :=
  settingNames.filterMapM fun name => do
    let key := EnvironmentRules.standard.tag ++ name
    return (← IO.getEnv key).map fun v => (key, v)

/-- Sources that differ from run to run. -/
def freshSources : IO Sources := do
  let bytes ← IO.getRandomBytes 8
  let seed := bytes.toList.foldl (fun n b => n * 256 + b.toUInt64) 0
  return ⟨fun k => .ofSeed (seed + k.toUInt64 <<< 32), fun _ => .ofSeed seed⟩

/-- The synopsis of the command. -/
def synopsis : String :=
  "usage: " ++ programName ++ " [-h] [--logging] [--save-intermediate] " ++
    "[--save-dir SAVE_DIR] [--output-dir OUTPUT_DIR] [--strict] image pipeline"

/-- One use of the command under the given settings: the exit code. -/
def runSession (settings : Settings) (arguments : List String) : IO UInt32 := do
  let tree ← match parse arguments with
    | .ok a => snapshotArguments a
    | .error _ => pure FileTree.empty
  let session : Session := ⟨settings, .standard, ← freshSources, tree⟩
  match session.start arguments with
  | .refused .help => IO.println synopsis; return 0
  | .refused (.usage e) =>
    IO.eprintln synopsis
    IO.eprintln (usageLine e)
    return 2
  | .unknownLevel t => IO.eprintln t.message; return 1
  | .unnamed shown after =>
    store tree after
    for line in shown ++ [unnamedMessage] do IO.eprintln line
    return 1
  | .finished code shown after =>
    store tree after
    for line in shown do IO.eprintln line
    return code.toUInt32

/-- One use of the command: the settings are read, and a session performed. -/
def runCommand (arguments : List String) : IO UInt32 := do
  match Settings.read (← environment) [] with
  | .error issues =>
    for i in issues do IO.eprintln (i.location ++ ": " ++ i.kind.message)
    return 1
  | .ok settings => runSession settings arguments

end CommandLine
end ImagePipeline

/-- The command. -/
def main (arguments : List String) : IO UInt32 :=
  ImagePipeline.CommandLine.runCommand arguments
