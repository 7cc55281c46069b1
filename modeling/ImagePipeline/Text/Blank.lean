/-!
# Blanks, trimming and words

Which characters separate words, and the two ways of using them: taking the
blanks off both ends of a text, and cutting a text into its words.  Texts are
lists of characters here, so that every function is a recursion on the text.

## Main definitions

* `isBlank` — the blanks of a text: every character with the Unicode property
  White_Space, and the four information separators.
* `isAsciiBlank` — the six blanks that may surround an ASCII numeral.
* `trim` — a text without the blanks at its ends.
* `words` — the maximal runs of characters that are not blank.
-/

namespace ImagePipeline
namespace Text

/-- The blanks of a text. -/
def isBlank (c : Char) : Bool :=
  let n := c.toNat
  (9 ≤ n && n ≤ 13) || (28 ≤ n && n ≤ 32) || n == 0x85 || n == 0xA0 || n == 0x1680 ||
    (0x2000 ≤ n && n ≤ 0x200A) || n == 0x2028 || n == 0x2029 || n == 0x202F ||
    n == 0x205F || n == 0x3000

/-- The blanks that may surround a numeral written in ASCII: the space and the
five controls from the tab to the carriage return. -/
def isAsciiBlank (c : Char) : Bool :=
  let n := c.toNat
  (9 ≤ n && n ≤ 13) || n == 32

/-- Every blank of ASCII numerals is a blank. -/
theorem isBlank_of_isAsciiBlank {c : Char} (h : isAsciiBlank c = true) : isBlank c = true := by
  simp only [isAsciiBlank, isBlank, Bool.or_eq_true, Bool.and_eq_true, decide_eq_true_eq,
    beq_iff_eq] at h ⊢
  omega

/-! ### Trimming -/

/-- A list without the longest run of members satisfying `p` at its end. -/
def dropTail {α : Type} (p : α → Bool) (s : List α) : List α :=
  (s.reverse.dropWhile p).reverse

@[simp] theorem dropTail_nil {α : Type} (p : α → Bool) : dropTail p ([] : List α) = [] := rfl

/-- A text without the blanks at its end. -/
def trimRight (s : List Char) : List Char := dropTail isBlank s

/-- A text without the blanks at its ends. -/
def trim (s : List Char) : List Char := trimRight (s.dropWhile isBlank)

@[simp] theorem trim_nil : trim [] = [] := rfl

/-! ### Words -/

/-- Puts the character `c`, which is not blank, in front of the text `r` whose
words are `ws`: it starts a word of its own if a blank or nothing follows. -/
def consWord (c : Char) (r : List Char) (ws : List (List Char)) : List (List Char) :=
  match r, ws with
  | d :: _, w :: ws' => if isBlank d then [c] :: w :: ws' else (c :: w) :: ws'
  | _, _ => [c] :: ws

/-- The words of a text: the maximal runs of characters that are not blank. -/
def words : List Char → List (List Char)
  | [] => []
  | c :: r => if isBlank c then words r else consWord c r (words r)

@[simp] theorem words_nil : words [] = [] := rfl

/-- A blank in front changes no word. -/
theorem words_cons_of_isBlank {c : Char} (h : isBlank c = true) (r : List Char) :
    words (c :: r) = words r := by
  rw [words, if_pos h]

/-- A text of blanks has no word. -/
theorem words_of_all_isBlank {s : List Char} (h : ∀ c ∈ s, isBlank c = true) : words s = [] := by
  induction s with
  | nil => rfl
  | cons c r ih =>
    rw [words_cons_of_isBlank (h c (by simp)) r]
    exact ih fun d hd => h d (by simp [hd])

end Text
end ImagePipeline
