import ImagePipeline.Run.Basic

/-!
# Settings

The settings of the program with their standard values.

## Main definitions

* `Settings` — the settings, and `Settings.standard`.
* `Settings.runOptions` — what a run takes from the settings.
-/

namespace ImagePipeline

/-- The settings. -/
structure Settings where
  /-- The extension of pictures that are saved under a stem. -/
  imageExtension : String
  /-- What the names of saved results start with. -/
  intermediateStem : String
  finalOutputName : String
  strictKeywords : Bool
  threshold : Threshold
  deriving DecidableEq, Repr

namespace Settings

/-- The standard settings. -/
def standard : Settings := ⟨"png", "output", "finalOutput", false, .named "INFO"⟩

instance : Inhabited Settings := ⟨standard⟩

/-- Whether a reading is strict: as asked for, or else as the settings say. -/
def strictness (s : Settings) (asked : Option Bool) : Bool := asked.getD s.strictKeywords

/-- The options of a run under these settings. -/
def runOptions (s : Settings) (logSteps saveSteps : Bool) (directory : Path)
    (observer : Report → Option Run.Interruption) : Run.Options :=
  ⟨logSteps, saveSteps, directory, s.intermediateStem, s.imageExtension.toList, observer⟩

/-- The extension that a picture is written with: the one asked for, unless it is
empty, or else that of the settings. -/
def writeExtension (s : Settings) (asked : Option String) : List Char :=
  match asked with
  | none => s.imageExtension.toList
  | some e => if e = "" then s.imageExtension.toList else e.toList

end Settings
end ImagePipeline
