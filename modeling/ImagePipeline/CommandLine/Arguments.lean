import ImagePipeline.Text.Digit
import ImagePipeline.Text.Quoted
import ImagePipeline.Text.Split

/-!
# Arguments

The arguments of the command: two file names, and options that may stand anywhere
between them.  A long option may be shortened as long as only one option starts
that way, and may carry its value after an equals sign.  Two dashes by themselves
end the options.

Arguments are first sorted into words, then taken from left to right: file names
as long as some are missing, options with their values, and everything else as
unknown.

## Main definitions

* `Switch` — the options.
* `Arguments` — what the arguments say.
* `UsageError`, `Refusal` — why they say nothing.
* `Word`, `classify` — sorting.
* `parse` — taking.
-/

namespace ImagePipeline
namespace CommandLine

open Text

/-- The options. -/
inductive Switch where
  | help
  | logging
  | saveIntermediate
  | saveDirectory
  | outputDirectory
  | strict
  deriving DecidableEq, Repr

namespace Switch

/-- The spellings of the options, in the order they are listed in. -/
def spellings : List (String × Switch) :=
  [("-h", .help), ("--help", .help), ("--logging", .logging),
    ("--save-intermediate", .saveIntermediate), ("--save-dir", .saveDirectory),
    ("--output-dir", .outputDirectory), ("--strict", .strict)]

/-- Whether an option has a value. -/
def takesValue : Switch → Bool
  | .saveDirectory => true
  | .outputDirectory => true
  | _ => false

/-- All spellings of an option. -/
def display (o : Switch) : String :=
  String.intercalate "/" ((spellings.filter fun x => x.2 == o).map Prod.fst)

end Switch

/-- What the arguments say. -/
structure Arguments where
  /-- The file of the image, if its place is not taken by a separator. -/
  image : Option String
  /-- The file of the definition, if its place is not taken by a separator. -/
  pipeline : Option String
  logging : Bool
  saveIntermediate : Bool
  /-- The directory for the results of steps, if its place is not taken by a
  separator. -/
  saveDirectory : Option String
  /-- The directory for the final picture, if its place is not taken by a
  separator. -/
  outputDirectory : Option String
  strict : Bool
  deriving DecidableEq, Repr

/-- What is wrong with arguments. -/
inductive UsageError where
  /-- An argument is the start of several options. -/
  | ambiguous (argument : String) (candidates : List String)
  /-- An option has no value. -/
  | missingValue (option : Switch)
  /-- An option has a value that it does not take. -/
  | ignoredValue (option : Switch) (value : List Char)
  | required (names : List String)
  /-- Arguments are left over. -/
  | unrecognized (arguments : List String)
  deriving DecidableEq, Repr

/-- The wording of a usage error. -/
def UsageError.message : UsageError → String
  | .ambiguous argument candidates =>
    "ambiguous option: " ++ argument ++ " could match " ++ String.intercalate ", " candidates
  | .missingValue o => "argument " ++ o.display ++ ": expected one argument"
  | .ignoredValue o value =>
    "argument " ++ o.display ++ ": ignored explicit argument " ++ String.ofList (quoted value)
  | .required names => "the following arguments are required: " ++ String.intercalate ", " names
  | .unrecognized arguments => "unrecognized arguments: " ++ String.intercalate " " arguments

/-- Why arguments are not followed. -/
inductive Refusal where
  | help
  | usage (e : UsageError)
  deriving DecidableEq, Repr

/-! ### Words -/

/-- The kinds of argument. -/
inductive Word where
  | plain
  /-- The pair of dashes that ends the options. -/
  | separator
  /-- An option, with the value behind the equals sign of a long one. -/
  | option (switch : Switch) (value : Option (List Char))
  /-- A short option with letters attached to it, be it directly or behind an
  equals sign. -/
  | letters (switch : Switch) (attached : List Char)
  /-- Something that looks like an option but is none. -/
  | unknown
  deriving DecidableEq, Repr

/-- Whether a word is an option or looks like one. -/
def Word.isOption : Word → Bool
  | .option _ _ => true
  | .letters _ _ => true
  | .unknown => true
  | _ => false

/-- Whether a text is a dash with a decimal number after it. -/
def isNegativeNumber (s : List Char) : Bool :=
  let isDecimal (c : Char) : Bool := (decimalDigit? c).isSome
  let trimmed := if s.getLast? = some '\n' then s.dropLast else s
  match trimmed with
  | '-' :: r =>
    match cutFirst '.' r with
    | none => !r.isEmpty && r.all isDecimal
    | some (whole, fraction) =>
      whole.all isDecimal && !fraction.isEmpty && fraction.all isDecimal
  | _ => false

/-- The options that an argument which is none of their spellings may mean: those
that a long argument is the start of, or the short option that an argument with
one dash starts with. -/
def candidates (s : List Char) : List (String × Word) :=
  match s with
  | '-' :: '-' :: _ =>
    let (start, value) :=
      match cutFirst '=' s with
      | none => (s, none)
      | some (a, b) => (a, some b)
    (Switch.spellings.filter fun x => start.isPrefixOf x.1.toList).map fun x =>
      (x.1, .option x.2 value)
  | _ =>
    Switch.spellings.filterMap fun x =>
      if x.1.toList = s.take 2 then some (x.1, .letters x.2 (s.drop 2))
      else if s.isPrefixOf x.1.toList then some (x.1, .option x.2 none)
      else none

/-- What an argument that no option is meant by is: a file name or a value if it
is a negative number or has a space in it. -/
def otherWord (s : List Char) : Word :=
  if isNegativeNumber s || s.contains ' ' then .plain else .unknown

/-- The option that an argument names exactly, with what stands behind its equals
sign. -/
def exactOption? (s : List Char) : Option Word :=
  match Switch.spellings.lookup (String.ofList s) with
  | some o => some (.option o none)
  | none =>
    (cutFirst '=' s).bind fun (name, value) =>
      (Switch.spellings.lookup (String.ofList name)).map fun o =>
        if name.length = 2 then .letters o value else .option o (some value)

/-- The kind of an argument in front of the pair of dashes. -/
def classify (argument : String) : Except UsageError Word :=
  let s := argument.toList
  if s.head? ≠ some '-' ∨ s = ['-'] then .ok .plain
  else
    match exactOption? s with
    | some w => .ok w
    | none =>
      match candidates s with
      | [] => .ok (otherWord s)
      | [c] => .ok c.2
      | cs => .error (.ambiguous argument (cs.map Prod.fst))

/-- Sorts arguments into words. -/
def sortWords : List String → Except UsageError (List (String × Word))
  | [] => .ok []
  | a :: rest =>
    if a = "--" then .ok ((a, .separator) :: rest.map fun b => (b, .plain))
    else
      match classify a with
      | .error e => .error e
      | .ok w =>
        match sortWords rest with
        | .error e => .error e
        | .ok ws => .ok ((a, w) :: ws)

/-! ### Taking words -/

/-- What has been taken. -/
structure Taken where
  /-- The file names, as far as there is one in each place. -/
  names : List (Option String)
  /-- The options with their values, as far as they have one, later ones first. -/
  options : List (Switch × Option String)
  /-- What is left over. -/
  extras : List String

/-- Takes one file name, with the separator on either side of it.  A pair of dashes
that stands alone in the place of a name is taken for a separator too, which
leaves no name. -/
def takeName (ws : List (String × Word)) : Option (Option String × List (String × Word)) :=
  let isSeparator (w : String × Word) : Bool := w.2 == .separator
  let before := ws.takeWhile isSeparator
  match ws.dropWhile isSeparator with
  | (a, .plain) :: rest =>
    let after := rest.takeWhile isSeparator
    let name := if a = "--" ∧ before = [] ∧ after = [] then none else some a
    some (name, rest.dropWhile isSeparator)
  | _ => none

/-- Takes up to `n` file names. -/
def takeNames : Nat → List (String × Word) → List (Option String) × List (String × Word)
  | 0, ws => ([], ws)
  | n + 1, ws =>
    match takeName ws with
    | none => ([], ws)
    | some (a, rest) =>
      let (names, ws') := takeNames n rest
      (a :: names, ws')

/-- Follows the letters attached to a short option without a value, which have to
be short options without a value in turn. -/
def followLetters (o : Switch) : List Char → Except Refusal Unit
  | [] => .error (.usage (.ignoredValue o []))
  | c :: r =>
    match Switch.spellings.lookup (String.ofList ['-', c]) with
    | none => .error (.usage (.ignoredValue o (c :: r)))
    | some o' => if r = [] then .ok () else followLetters o' r

/-- Takes an option without a value: help ends everything. -/
def takeFlag (o : Switch) (t : Taken) : Except Refusal Taken :=
  if o = .help then .error .help else .ok { t with options := (o, none) :: t.options }

/-- Takes an option with a value.  A value that is a pair of dashes is taken for a
separator, which leaves none. -/
def takeValue (o : Switch) (value : String) (t : Taken) : Taken :=
  { t with options := (o, if value = "--" then none else some value) :: t.options }

/-- Takes an option, given the word behind it: what is taken then, and whether the
next word is its value. -/
def takeOption (o : Switch) (value : Option (List Char)) (next : Option (String × Word))
    (t : Taken) : Except Refusal (Taken × Bool) :=
  if o.takesValue then
    match value, next with
    | some v, _ => .ok (takeValue o (String.ofList v) t, false)
    | none, some (a, .plain) => .ok (takeValue o a t, true)
    | none, _ => .error (.usage (.missingValue o))
  else
    match value with
    | some v => .error (.usage (.ignoredValue o v))
    | none => (takeFlag o t).map fun t' => (t', false)

/-- Takes a short option with letters attached to it, which are its value if it has
one. -/
def takeLetters (o : Switch) (attached : List Char) (t : Taken) : Except Refusal Taken :=
  if o.takesValue then .ok (takeValue o (String.ofList attached) t)
  else
    match followLetters o attached with
    | .error e => .error e
    | .ok () => takeFlag o t

/-- The file names in order. -/
def nameLabels : List String := ["image", "pipeline"]

/-- Takes all words from left to right. -/
def takeWords (ws : List (String × Word)) (t : Taken) : Except Refusal Taken :=
  match ws with
  | [] => .ok t
  | (a, w) :: rest =>
    match w with
    | .unknown => takeWords rest { t with extras := t.extras ++ [a] }
    | .option o value =>
      match takeOption o value rest.head? t with
      | .error e => .error e
      | .ok (t', false) => takeWords rest t'
      | .ok (t', true) => takeWords rest.tail t'
    | .letters o attached =>
      match takeLetters o attached t with
      | .error e => .error e
      | .ok t' => takeWords rest t'
    | _ =>
      let (names, ws') := takeNames (nameLabels.length - t.names.length) ((a, w) :: rest)
      if ws'.length < rest.length + 1 then takeWords ws' { t with names := t.names ++ names }
      else
        let skipped := rest.takeWhile fun x => !x.2.isOption
        takeWords (rest.dropWhile fun x => !x.2.isOption)
          { t with extras := t.extras ++ a :: skipped.map Prod.fst }
termination_by ws.length
decreasing_by
  all_goals
    have htail : rest.tail.length = rest.length - 1 := List.length_tail
    have hdrop := (List.dropWhile_sublist (l := rest) fun x => !x.2.isOption).length_le
    rw [List.length_cons]
    omega

/-- The value of an option, if it has one. -/
def Taken.value (t : Taken) (o : Switch) (standard : String) : Option String :=
  (t.options.lookup o).getD (some standard)

/-- Whether an option is given. -/
def Taken.has (t : Taken) (o : Switch) : Bool := (t.options.lookup o).isSome

/-- What has been taken as arguments: both file names have to be there, and nothing
may be left over. -/
def Taken.arguments (t : Taken) : Except Refusal Arguments :=
  match t.names, t.extras with
  | [image, pipeline], [] =>
    .ok ⟨image, pipeline, t.has .logging, t.has .saveIntermediate,
      t.value .saveDirectory "intermediate", t.value .outputDirectory ".", t.has .strict⟩
  | [_, _], extras => .error (.usage (.unrecognized extras))
  | names, _ => .error (.usage (.required (nameLabels.drop names.length)))

/-- What arguments say. -/
def parse (argv : List String) : Except Refusal Arguments :=
  match sortWords argv with
  | .error e => .error (.usage e)
  | .ok ws =>
    match takeWords ws ⟨[], [], []⟩ with
    | .error e => .error e
    | .ok t => t.arguments

end CommandLine
end ImagePipeline
