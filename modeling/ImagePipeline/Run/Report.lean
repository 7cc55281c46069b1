import ImagePipeline.Binary64.Writing
import ImagePipeline.File.Path
import ImagePipeline.Text.Blank

/-!
# Step reports

What is told about one step of a run: the node, the size of its image before and
after, and the file its result was saved to.

## Main definitions

* `Report` — a report.
* `Report.headerLines`, `Report.resultLines`, `Report.lines` — the report in
  lines, with the labels aligned to the right.
-/

namespace ImagePipeline

/-- The report of one step. -/
structure Report where
  step : Int
  name : String
  info : String
  input : String
  output : String
  artifact : Option Path
  artifactBytes : Option Int
  deriving DecidableEq

namespace Report

/-- The width that labels are aligned to. -/
def labelWidth : Nat := 20

/-- The number of bytes of a megabyte. -/
def bytesPerMegabyte : Nat := 1000000

/-- A label aligned to the right. -/
def label (s : String) : String := String.ofList (List.replicate (labelWidth - s.length) ' ') ++ s

/-- The size of the saved file in megabytes. -/
def megabytes? (r : Report) : Option Binary64 :=
  r.artifactBytes.map fun n => .ofRat false ((n : Rat) / (bytesPerMegabyte : Rat))

/-- The lines that are known before the node is applied.  Blanks at the end of the
first are left out. -/
def headerLines (r : Report) : List String :=
  [String.ofList (Text.trimRight (label "Node:" ++ " " ++ r.name ++ " " ++ r.info).toList),
    label "Input dimensions:" ++ " " ++ r.input]

/-- The lines that tell the result. -/
def resultLines (r : Report) : List String :=
  (label "Output dimensions:" ++ " " ++ r.output) ::
    match r.artifact with
    | none => []
    | some p =>
      (label "Save as:" ++ " " ++ p.toString) ::
        match r.megabytes? with
        | none => []
        | some x => [label "Output size:" ++ " " ++ x.toFixed 3 ++ " MB"]

/-- The report in lines. -/
def lines (r : Report) : List String := r.headerLines ++ r.resultLines

end Report
end ImagePipeline
