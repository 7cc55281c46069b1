import ImagePipeline.Settings.Basic
import ImagePipeline.Settings.Environment

/-!
# Reading settings

Settings come from named values given by a caller and from the environment, in
this order of preference.  Every field is checked by itself, and all that is wrong
is reported at once: first the fields in their order, then the values that are no
settings, in the order they are given.

## Main definitions

* `Issue` — what is wrong with a value.
* `readExtension`, `readFlag`, `readText` — the checks.
* `Settings.read` — the settings, or all issues.
-/

namespace ImagePipeline

-- `^` is the power of the core library here, whatever else an importer has in scope.
attribute [local instance (high)] instPowNat

/-- What is wrong with a value. -/
inductive Issue.Kind where
  | notText
  /-- It is of a kind that holds no truth value. -/
  | notFlag
  /-- It does not say whether it is true. -/
  | unclearFlag
  | extension (value : String)
  | unknown
  deriving DecidableEq, Repr

/-- What is wrong with the value of a name. -/
structure Issue where
  location : String
  kind : Issue.Kind
  deriving DecidableEq, Repr

/-- The code of an issue. -/
def Issue.Kind.code : Issue.Kind → String
  | .notText => "string_type"
  | .notFlag => "bool_type"
  | .unclearFlag => "bool_parsing"
  | .extension _ => "value_error"
  | .unknown => "extra_forbidden"

/-- The wording of an issue. -/
def Issue.Kind.message : Issue.Kind → String
  | .notText => "Input should be a valid string"
  | .notFlag => "Input should be a valid boolean"
  | .unclearFlag => "Input should be a valid boolean, unable to interpret input"
  | .extension value =>
    "Value error, Unsupported image extension " ++ quote value ++ ", expected one of " ++
      String.intercalate ", " Format.fileTypes
  | .unknown => "Extra inputs are not permitted"

/-! ### Checks -/

/-- A value as a text. -/
def readText : RawValue → Except Issue.Kind String
  | .text s => .ok s
  | _ => .error .notText

/-- The threshold that a value names. -/
def readThreshold (v : RawValue) : Except Issue.Kind Threshold := (readText v).map .named

/-- The file type that a value means as an extension. -/
def readExtension (v : RawValue) : Except Issue.Kind String :=
  match readText v with
  | .error e => .error e
  | .ok s =>
    let t := fileType s.toList
    if t ∈ Format.fileTypes then .ok t else .error (.extension s)

/-- The words for true. -/
def trueWords : List String := ["1", "on", "t", "true", "y", "yes"]

/-- The words for false. -/
def falseWords : List String := ["0", "off", "f", "false", "n", "no"]

/-- A number as a truth value. -/
def flagOfInt (n : Int) : Except Issue.Kind Bool :=
  if !fitsWord n then .error .notFlag
  else if n = 0 then .ok false
  else if n = 1 then .ok true
  else .error .unclearFlag

/-- A value as a truth value: one of the words for it in either case, or the
number one or zero.  A fraction has to lie strictly within the range of the whole
numbers. -/
def readFlag : RawValue → Except Issue.Kind Bool
  | .flag b => .ok b
  | .text s =>
    let w := String.ofList (s.toList.map Char.toLower)
    if w ∈ trueWords then .ok true
    else if w ∈ falseWords then .ok false
    else .error .unclearFlag
  | .whole n => flagOfInt n
  | .real x =>
    match x.toRat? with
    | none => .error .notFlag
    | some q =>
      if q.den = 1 ∧ q.num.natAbs < 2 ^ (63 : Nat) then flagOfInt q.num else .error .notFlag
  | _ => .error .notFlag

/-! ### Sources -/

/-- The names of the settings, in order. -/
def settingNames : List String :=
  ["IMAGE_EXTENSION", "INTERMEDIATE_PREFIX", "FINAL_OUTPUT_NAME", "STRICT_KEYWORDS", "LOG_LEVEL"]

/-- The raw value of a setting: as given, or else as in the environment. -/
def rawSetting? (environment : List (String × String)) (given : List (String × RawValue))
    (name : String) : Option RawValue :=
  match givenValue? given name with
  | some v => some v
  | none => (EnvironmentRules.ofGiven given).value? environment name

/-- Whether a name that a caller gives is neither a setting nor a rule. -/
def isUnknown (name : String) : Bool :=
  !(settingNames.any fun s => sameName name s) && !EnvironmentRules.names.contains name

/-- Checks the value of a setting; without one the standard value holds. -/
def checked {α : Type} (read : RawValue → Except Issue.Kind α) (standard : α) (name : String)
    (value : Option RawValue) : Except Issue α :=
  match value with
  | none => .ok standard
  | some v =>
    match read v with
    | .ok a => .ok a
    | .error k => .error ⟨name, k⟩

/-- The issue of a check that fails. -/
def issueOf {α : Type} : Except Issue α → List Issue
  | .ok _ => []
  | .error e => [e]

namespace Settings

/-- The settings that an environment and given values make, or all that is wrong
with them. -/
def read (environment : List (String × String)) (given : List (String × RawValue)) :
    Except (List Issue) Settings :=
  let raw := rawSetting? environment given
  let extension := checked readExtension standard.imageExtension "IMAGE_EXTENSION"
    (raw "IMAGE_EXTENSION")
  let stem := checked readText standard.intermediateStem "INTERMEDIATE_PREFIX"
    (raw "INTERMEDIATE_PREFIX")
  let final := checked readText standard.finalOutputName "FINAL_OUTPUT_NAME"
    (raw "FINAL_OUTPUT_NAME")
  let strict := checked readFlag standard.strictKeywords "STRICT_KEYWORDS" (raw "STRICT_KEYWORDS")
  let level := checked readThreshold standard.threshold "LOG_LEVEL" (raw "LOG_LEVEL")
  let unknown := (given.map Prod.fst).filter isUnknown
  match extension, stem, final, strict, level, unknown with
  | .ok e, .ok i, .ok f, .ok s, .ok l, [] => .ok ⟨e, i, f, s, l⟩
  | _, _, _, _, _, _ =>
    .error (issueOf extension ++ issueOf stem ++ issueOf final ++ issueOf strict ++
      issueOf level ++ unknown.map fun n => ⟨n, .unknown⟩)

end Settings
end ImagePipeline
