import ImagePipeline.Binary64.Basic

/-!
# Raw settings

The values that settings are read from: values that a caller gives by name, and
the variables of an environment.  The case of letters in a name does not count.
Some names that a caller may use are no settings but rules for the look-up in the
environment.

## Main definitions

* `RawValue` — a value as a caller gives it.
* `VariableError` — why a variable cannot stand in an environment.
* `EnvironmentRules` — how names are looked up, and `EnvironmentRules.ofGiven`.
* `EnvironmentRules.value?` — the value of a setting in an environment.
* `givenValue?` — the value of a setting among given ones.
-/

namespace ImagePipeline

/-- A value as a caller gives it. -/
inductive RawValue where
  | null
  | text (s : String)
  | flag (b : Bool)
  | whole (n : Int)
  | real (x : Binary64)
  /-- A collection, of which only counts whether it is empty. -/
  | collection (isEmpty : Bool)
  deriving DecidableEq

/-- Whether a value asks for something: nothing, zero, the empty text and the empty
collection do not. -/
def RawValue.holds : RawValue → Bool
  | .null => false
  | .text s => s != ""
  | .flag b => b
  | .whole n => n != 0
  | .real x => x.toRat? != some 0
  | .collection isEmpty => !isEmpty

/-! ### Names -/

/-- A name in lower case.  Beside the letters of ASCII the Kelvin sign counts,
because its lower case is the letter k. -/
def lowerName (s : String) : String :=
  String.ofList (s.toList.map fun c => if c = Char.ofNat 0x212A then 'k' else c.toLower)

/-- Whether two names are the same but for the case of letters. -/
def sameName (a b : String) : Bool := lowerName a == lowerName b

/-! ### Variables -/

/-- Why a variable cannot stand in an environment. -/
inductive VariableError where
  /-- Its name or its value holds a null character. -/
  | nullCharacter
  /-- Its name holds an equals sign. -/
  | equalsSign
  | unnamed
  deriving DecidableEq, Repr

/-- The wording of a variable that cannot stand in an environment. -/
def VariableError.message : VariableError → String
  | .nullCharacter => "embedded null byte"
  | .equalsSign => "illegal environment variable name"
  | .unnamed => "[Errno 22] Invalid argument"

/-- Why a variable cannot stand in an environment, if it cannot. -/
def variableError? (v : String × String) : Option VariableError :=
  let name := v.1.toList
  if name.contains '\x00' || v.2.toList.contains '\x00' then some .nullCharacter
  else if name.contains '=' then some .equalsSign
  else if name = [] then some .unnamed
  else none

/-! ### Looking up -/

/-- How settings are looked up in an environment. -/
structure EnvironmentRules where
  tag : String
  exactCase : Bool
  /-- Whether empty values are passed over. -/
  skipEmpty : Bool
  /-- The text that stands for nothing, if there is one. -/
  nullText : Option String
  deriving DecidableEq, Repr

namespace EnvironmentRules

/-- The standard rules. -/
def standard : EnvironmentRules := ⟨"PIXELNODES_", false, false, none⟩

instance : Inhabited EnvironmentRules := ⟨standard⟩

/-- The names that a caller sets rules with.  Those on nested settings, on further
files and on arguments do not bear on the look-up in an environment. -/
def names : List String :=
  ["_case_sensitive", "_nested_model_default_partial_update", "_env_prefix", "_env_prefix_target",
    "_env_file", "_env_file_encoding", "_env_ignore_empty", "_env_nested_delimiter",
    "_env_nested_max_split", "_env_parse_none_str", "_env_parse_enums", "_cli_prog_name",
    "_cli_parse_args", "_cli_settings_source", "_cli_parse_none_str", "_cli_hide_none_type",
    "_cli_avoid_json", "_cli_enforce_required", "_cli_use_class_docs_for_groups",
    "_cli_exit_on_error", "_cli_prefix", "_cli_flag_prefix_char", "_cli_implicit_flags",
    "_cli_ignore_unknown_args", "_cli_kebab_case", "_cli_shortcuts", "_secrets_dir",
    "_build_sources"]

/-- The rules that a caller sets; where nothing is set the standard ones hold. -/
def ofGiven (given : List (String × RawValue)) : EnvironmentRules :=
  let asked (name : String) : Bool := ((given.lookup name).map RawValue.holds).getD false
  let text? (name : String) : Option String :=
    match given.lookup name with
    | some (.text s) => some s
    | _ => none
  ⟨(text? "_env_prefix").getD standard.tag, asked "_case_sensitive", asked "_env_ignore_empty",
    text? "_env_parse_none_str"⟩

/-- Whether a variable is the one of a setting. -/
def isFor (r : EnvironmentRules) (setting key : String) : Bool :=
  if r.exactCase then key == r.tag ++ setting else sameName key (r.tag ++ setting)

/-- The value of a setting in an environment; of several spellings of its name the
last one counts. -/
def value? (r : EnvironmentRules) (environment : List (String × String)) (setting : String) :
    Option RawValue :=
  let counted := environment.filter fun v => !(r.skipEmpty && v.2 == "")
  (counted.reverse.find? fun v => r.isFor setting v.1).map fun v =>
    if r.nullText = some v.2 then .null else .text v.2

end EnvironmentRules

/-- The value of a setting among given ones: under its own name, or else under the
first one that is the same but for the case of letters. -/
def givenValue? (given : List (String × RawValue)) (setting : String) : Option RawValue :=
  match given.lookup setting with
  | some v => some v
  | none => (given.find? fun v => sameName v.1 setting).map Prod.snd

end ImagePipeline
