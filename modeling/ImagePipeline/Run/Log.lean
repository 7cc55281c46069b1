import ImagePipeline.Text.Quoted

/-!
# Logs

A log is a row of messages, each at a level.

## Main definitions

* `Level` — the levels, with their weights.
* `LogEntry` — a message at a level.
* `Threshold` — what is hidden, and `Threshold.weight?`.
* `LogEntry.passes` — whether a message is shown at a threshold.
-/

namespace ImagePipeline

/-- The levels of messages, in increasing weight. -/
inductive Level where
  | debug
  | info
  | warning
  | error
  deriving DecidableEq, Repr

namespace Level

/-- The weight of a level. -/
def weight : Level → Nat
  | .debug => 10
  | .info => 20
  | .warning => 30
  | .error => 40

/-- The name of a level. -/
def name : Level → String
  | .debug => "DEBUG"
  | .info => "INFO"
  | .warning => "WARNING"
  | .error => "ERROR"

end Level

/-- A message at a level. -/
structure LogEntry where
  level : Level
  message : String
  deriving DecidableEq, Repr

/-- How the threshold of messages is chosen. -/
inductive Threshold where
  | named (name : String)
  | weight (n : Int)
  /-- Not at all. -/
  | unset
  /-- By something else, which is written so. -/
  | unsuitable (text : String)
  deriving DecidableEq, Repr

namespace Threshold

/-- The names of thresholds with their weights. -/
def names : List (String × Nat) :=
  [("CRITICAL", 50), ("FATAL", 50), ("ERROR", 40), ("WARN", 30), ("WARNING", 30), ("INFO", 20),
    ("DEBUG", 10), ("NOTSET", 0)]

/-- The name that a threshold is chosen by; empty if it is not chosen by one. -/
def name : Threshold → String
  | .named name => name
  | _ => ""

/-- The weight below which a threshold hides messages.  One that is not chosen
hides what is no warning. -/
def weight? : Threshold → Option Int
  | .named name => (names.lookup name).map fun n => (n : Int)
  | .weight n => some n
  | .unset => some Level.warning.weight
  | .unsuitable _ => none

/-- The wording of a threshold without a weight. -/
def message : Threshold → String
  | .named name => "Unknown level: " ++ quote name
  | .unsuitable text => "Level not an integer or a valid string: " ++ text
  | _ => ""

end Threshold

/-- Whether a message is shown at a threshold. -/
def LogEntry.passes (threshold : Int) (e : LogEntry) : Bool := threshold ≤ e.level.weight

end ImagePipeline
