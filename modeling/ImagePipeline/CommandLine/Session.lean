import ImagePipeline.CommandLine.Arguments
import ImagePipeline.Settings.Basic

/-!
# Sessions

One use of the command: it loads an image and a definition, runs the pipeline on
the image, and saves the result.  Whatever goes wrong on the way is told in one
message, and nothing further is done.

## Main definitions

* `Session` — what a use of the command starts from.
* `SessionError` — what can go wrong.
* `Session.perform` — the work itself, and `Ending`, how it ends.
* `Outcome`, `Session.start` — a use of the command, from its arguments on.
-/

namespace ImagePipeline
namespace CommandLine

/-- What a use of the command starts from. -/
structure Session where
  settings : Settings
  registry : Registry
  sources : Sources
  tree : FileTree

/-- What can go wrong in a session. -/
inductive SessionError where
  | unnamedImage
  | image (e : LoadError)
  | definition (e : Definition.DocumentError)
  | run (e : Run.Stop)
  | directory (e : FileError)
  | picture (e : SaveError)

/-- The wording of a session error. -/
def SessionError.message : SessionError → String
  | .unnamedImage => (CreationError.unsupported "list").message
  | .image e => e.message
  | .definition e => e.message
  | .run .overlong => Numeral.overlongMessage
  | .run (.failed e) => e.message
  | .run (.interrupted e) => e.message
  | .directory e => e.message
  | .picture e => e.message

/-- Fallbacks as messages. -/
def warnings (fallbacks : List Definition.Fallback) : List LogEntry :=
  fallbacks.map fun f => ⟨.warning, f.message⟩

/-- How the work of a session ends. -/
inductive Ending where
  | saved (p : Path)
  | failed (e : SessionError)
  /-- A path is needed where the arguments name none.  This breaks the session
  off. -/
  | unnamed

/-- What a session has done: the messages, the file tree, and how it ends. -/
structure Work where
  log : List LogEntry
  tree : FileTree
  ending : Ending

namespace Session

/-- The options of the run of a session. -/
def runOptions (s : Session) (a : Arguments) (directory : String) : Run.Options :=
  s.settings.runOptions a.logging a.saveIntermediate (.ofString directory) fun _ => none

/-- Saves the final picture of a session in a directory. -/
def saveFinal (s : Session) (directory : String) (t : FileTree) (img : Image) :
    FileTree × Ending :=
  let directory := Path.ofString directory
  match t.makeDirectories directory with
  | (t', some e) => (t', .failed (.directory e))
  | (t', none) =>
    match t'.writeImage (directory.join s.settings.finalOutputName).toString
        s.settings.imageExtension.toList img with
    | .error e => (t', .failed (.picture e))
    | .ok (p, t'') => (t'', .saved p)

/-- Loads the image that the arguments name. -/
def loadImage (s : Session) (a : Arguments) : Except SessionError Image :=
  match a.image with
  | none => .error .unnamedImage
  | some path => (s.tree.loadImage path).mapError .image

/-- Runs nodes on an image and saves the result; `log` is what has been told
before. -/
def transform (s : Session) (a : Arguments) (img : Image) (nodes : List Node)
    (log : List LogEntry) : Work :=
  match a.saveDirectory with
  | none => ⟨log, s.tree, .unnamed⟩
  | some directory =>
    match Run.run (s.runOptions a directory) nodes ⟨img, s.sources, s.tree, log, []⟩ with
    | (r, some stop) => ⟨r.log, r.tree, .failed (.run stop)⟩
    | (r, none) =>
      match a.outputDirectory with
      | none => ⟨r.log, r.tree, .unnamed⟩
      | some directory =>
        let (t, ending) := s.saveFinal directory r.tree r.image
        ⟨r.log, t, ending⟩

/-- Loads the definition that the arguments name, runs it on an image, and saves
the result. -/
def follow (s : Session) (a : Arguments) (img : Image) : Work :=
  match a.pipeline with
  | none => ⟨[], s.tree, .unnamed⟩
  | some name =>
    let strict := s.settings.strictness (if a.strict then some true else none)
    let (fallbacks, loaded) := Definition.load s.registry strict s.tree name
    match loaded with
    | .error e => ⟨warnings fallbacks, s.tree, .failed (.definition e)⟩
    | .ok nodes =>
      let remark := Definition.loadedMessage nodes.length name
      s.transform a img nodes (warnings fallbacks ++ [⟨.debug, remark⟩])

/-- Loads, runs and saves. -/
def perform (s : Session) (a : Arguments) : Work :=
  match s.loadImage a with
  | .error e => ⟨[], s.tree, .failed e⟩
  | .ok img => s.follow a img

end Session

/-- The message that work ends with, unless it is broken off. -/
def Ending.closing : Ending → List LogEntry
  | .saved p => [⟨.info, "Image is saved as " ++ p.toString⟩]
  | .failed e => [⟨.error, "Error: " ++ e.message⟩]
  | .unnamed => []

/-- The exit code of work that is not broken off. -/
def Ending.exitCode? : Ending → Option Nat
  | .saved _ => some 0
  | .failed _ => some 1
  | .unnamed => none

/-- All messages of work. -/
def Work.messages (w : Work) : List LogEntry := w.log ++ w.ending.closing

/-- How a use of the command ends. -/
inductive Outcome where
  | refused (r : Refusal)
  | unknownLevel (t : Threshold)
  /-- A path is missing: the messages that are shown until then, and the file
  tree. -/
  | unnamed (shown : List String) (tree : FileTree)
  /-- The work is done, or has failed: the exit code, the messages that are shown,
  and the file tree. -/
  | finished (exitCode : Nat) (shown : List String) (tree : FileTree)

/-- The wording of a path that is missing. -/
def unnamedMessage : String := "expected str, bytes or os.PathLike object, not list"

/-- The name under which the command speaks of itself. -/
def programName : String := "pixelnodes"

/-- The last line of what is said about wrong arguments. -/
def usageLine (e : UsageError) : String := programName ++ ": error: " ++ e.message

/-- One use of the command, from its arguments on. -/
def Session.start (s : Session) (argv : List String) : Outcome :=
  match parse argv with
  | .error r => .refused r
  | .ok a =>
    match s.settings.threshold.weight? with
    | none => .unknownLevel s.settings.threshold
    | some threshold =>
      let w := s.perform a
      let shown := (w.messages.filter (LogEntry.passes threshold)).map LogEntry.message
      match w.ending.exitCode? with
      | none => .unnamed shown w.tree
      | some code => .finished code shown w.tree

end CommandLine
end ImagePipeline
