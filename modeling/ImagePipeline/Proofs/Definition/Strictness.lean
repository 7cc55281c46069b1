import ImagePipeline.Definition.Document
import ImagePipeline.Proofs.Definition.Declaration

/-!
# Strict and lenient readings

A strict reading of lines is the lenient one up to the first unknown keyword, where it
ends.  The relation between the two is kept by every way of putting readings together,
so that it has to be shown for the look-up of a keyword only.

## Main definitions

* `Tightens` — what a strict reading makes of what a lenient one makes.
* `IsLine` — the text of a numbered line.

## Main results

* `Tightens.andThen` — the relation is kept from part to part.
* `tightens_readLine`, `tightens_readLinesFrom` — a line, and lines one after another.
* `readLines_strict_of_lenient` — strict reading is lenient reading without fallbacks.
-/

namespace ImagePipeline
namespace Definition

open Text

/-- A strict reading beside a lenient one of the same lines: it is the same if there is
no fallback, and otherwise it ends at the line of the first one.  The lines that are read
are given as a relation between numbers and texts. -/
inductive Tightens {α : Type} (line : ℤ → List Char → Prop) (lenient strict : Reading α) : Prop
  /-- There is no fallback. -/
  | same (hnone : lenient.fallbacks = []) (hstrict : strict = lenient)
  /-- The first fallback is the error of the strict reading. -/
  | unknown {w : Fallback} {ws : List Fallback} {text : List Char}
      (hfirst : lenient.fallbacks = w :: ws) (hline : line w.lineNumber text)
      (hstrict : strict = .failed ⟨w.lineNumber, text, .unknownKeyword w.keyword⟩)

section

variable {α β : Type} {line line' : ℤ → List Char → Prop}

theorem Tightens.mono {r s : Reading α} (h : Tightens line r s)
    (hsub : ∀ n text, line n text → line' n text) : Tightens line' r s := by
  cases h with
  | same hnone hstrict => exact .same hnone hstrict
  | unknown hfirst hline hstrict => exact .unknown hfirst (hsub _ _ hline) hstrict

/-- **The relation is kept from part to part**: what follows an unknown keyword is not
reached by the strict reading. -/
theorem Tightens.andThen {r s : Reading α} {f g : α → Reading β} (h : Tightens line r s)
    (hrest : ∀ a, Tightens line (f a) (g a)) : Tightens line (r.andThen f) (s.andThen g) := by
  cases h with
  | unknown hfirst hline hstrict =>
    subst hstrict
    obtain ⟨fallbacks, result⟩ := r
    obtain rfl : fallbacks = _ := hfirst
    cases result with
    | error e => exact .unknown rfl hline rfl
    | ok a => exact .unknown rfl hline rfl
  | same hnone hstrict =>
    subst hstrict
    obtain ⟨fallbacks, result⟩ := s
    obtain rfl : fallbacks = [] := hnone
    cases result with
    | error e => exact .same rfl rfl
    | ok a =>
      show Tightens line ((Reading.done a).andThen f) ((Reading.done a).andThen g)
      rw [Reading.done_andThen, Reading.done_andThen]
      exact hrest a

theorem tightens_done (a : α) : Tightens line (.done a) (.done a) := .same rfl rfl

theorem tightens_about (number : ℤ) (text : List Char) (x : Except Reason α) :
    Tightens line (about number text x) (about number text x) := by
  refine .same ?_ rfl
  cases x <;> rfl

/-- The look-up of a keyword is the one place where the two readings part. -/
theorem tightens_resolve (r : Registry) (fallback : Kind) {number : ℤ} {text : List Char}
    (keyword : String) (h : line number text) :
    Tightens line (resolve r false fallback number text keyword)
      (resolve r true fallback number text keyword) := by
  unfold resolve
  cases r.find? keyword with
  | some k => exact tightens_done k
  | none => exact .unknown (w := ⟨number, keyword, fallback⟩) rfl h rfl

end

section

variable {r : Registry} {number : ℤ}

/-- A line on its own, without its end. -/
def IsLine (number : ℤ) (text : List Char) (n : ℤ) (line : List Char) : Prop :=
  n = number ∧ line = chomp text

theorem tightens_readPlain (text : List Char) :
    Tightens (IsLine number text) (readPlain r false number (chomp text))
      (readPlain r true number (chomp text)) := by
  unfold readPlain
  refine (tightens_about _ _ _).andThen fun keyword => ?_
  refine (tightens_resolve r plainFallback keyword ⟨rfl, rfl⟩).andThen fun k => ?_
  exact tightens_about _ _ _

theorem tightens_readParameterized (text : List Char) :
    Tightens (IsLine number text) (readParameterized r false number (chomp text))
      (readParameterized r true number (chomp text)) := by
  unfold readParameterized
  refine (tightens_about _ _ _).andThen fun keyword => ?_
  refine (tightens_resolve r parameterizedFallback keyword ⟨rfl, rfl⟩).andThen fun k => ?_
  exact tightens_about _ _ _

/-- **A strict reading of a line ends at its unknown keyword**, whatever else is wrong
with the line behind the keyword. -/
theorem tightens_readLine (text : List Char) :
    Tightens (IsLine number text) (readLine r false number text)
      (readLine r true number text) := by
  unfold readLine
  refine (tightens_about _ _ _).andThen fun kind => ?_
  cases kind with
  | skip => exact tightens_done none
  | parameterless => exact (tightens_readPlain text).andThen fun n => tightens_done (some n)
  | parameterized => exact (tightens_readParameterized text).andThen fun n => tightens_done (some n)

/-- A numbered line of lines, the first of which has the given number. -/
def IsLineOf (number : ℤ) (lines : List (List Char)) (n : ℤ) (line : List Char) : Prop :=
  ∃ before text after, lines = before ++ text :: after ∧ n = number + before.length ∧
    line = chomp text

theorem isLineOf_head {text : List Char} (lines : List (List Char)) {n : ℤ} {line : List Char}
    (h : IsLine number text n line) : IsLineOf number (text :: lines) n line := by
  obtain ⟨rfl, rfl⟩ := h
  exact ⟨[], text, lines, rfl, by simp, rfl⟩

theorem isLineOf_tail (text : List Char) {lines : List (List Char)} {n : ℤ} {line : List Char}
    (h : IsLineOf (number + 1) lines n line) : IsLineOf number (text :: lines) n line := by
  obtain ⟨before, text', after, rfl, rfl, rfl⟩ := h
  refine ⟨text :: before, text', after, rfl, ?_, rfl⟩
  rw [List.length_cons]
  omega

/-- **A strict reading of lines ends at the first unknown keyword**, before any later
line is read. -/
theorem tightens_readLinesFrom (lines : List (List Char)) :
    Tightens (IsLineOf number lines) (readLinesFrom r false number lines)
      (readLinesFrom r true number lines) := by
  induction lines generalizing number with
  | nil => exact tightens_done []
  | cons text lines ih =>
    unfold readLinesFrom
    refine Tightens.andThen ((tightens_readLine text).mono fun n l => isLineOf_head lines) ?_
    intro node
    refine Tightens.andThen (ih.mono fun n l => isLineOf_tail text) ?_
    intro nodes
    exact tightens_done _

end

/-! ### The main result -/

/-- A remark on an unknown keyword has the words of the error in it. -/
theorem Fallback.message_eq (w : Fallback) : w.message =
    "Line " ++ toString w.lineNumber ++ ": " ++ (Reason.unknownKeyword w.keyword).message ++
      ", falling back to " ++ w.kind.typeName := by
  have hfront : ": unknown node keyword '" = ": " ++ "unknown node keyword '" := by decide
  have hback : "', falling back to " = "'" ++ ", falling back to " := by decide
  have hreason : (Reason.unknownKeyword w.keyword).message =
      "unknown node keyword '" ++ w.keyword ++ "'" := rfl
  rw [Fallback.message, hreason, hfront, hback]
  simp only [String.append_assoc]

/-- **Strict reading is lenient reading without fallbacks.**  If a lenient reading of
lines has no fallback, then the strict one has the same outcome.  Otherwise the strict
one fails at the line of the first fallback, for the unknown keyword that the fallback
names.  A strict reading never has a fallback itself, and if it succeeds then the lenient
one has none. -/
theorem readLines_strict_of_lenient (r : Registry) (lines : List (List Char)) :
    ((readLines r false lines).fallbacks = [] →
      readLines r true lines = readLines r false lines) ∧
    (∀ w ws, (readLines r false lines).fallbacks = w :: ws →
      ∃ before text after, lines = before ++ text :: after ∧ w.lineNumber = before.length + 1 ∧
        readLines r true lines =
          .failed ⟨w.lineNumber, chomp text, .unknownKeyword w.keyword⟩ ∧
        w.message = "Line " ++ toString w.lineNumber ++ ": " ++
          (Reason.unknownKeyword w.keyword).message ++ ", falling back to " ++ w.kind.typeName) ∧
    (readLines r true lines).fallbacks = [] ∧
    (∀ nodes, (readLines r true lines).result = .ok nodes →
      (readLines r false lines).fallbacks = []) := by
  have htight : Tightens (IsLineOf 1 lines) (readLines r false lines) (readLines r true lines) :=
    tightens_readLinesFrom lines
  cases htight with
  | same hnone hstrict =>
    refine ⟨fun _ => hstrict, ?_, hstrict ▸ hnone, fun _ _ => hnone⟩
    intro w ws hfirst
    exact absurd (hnone.symm.trans hfirst) (by simp)
  | unknown hfirst hline hstrict =>
    refine ⟨?_, ?_, by rw [hstrict]; rfl, ?_⟩
    · intro hnone
      exact absurd (hnone.symm.trans hfirst) (by simp)
    · intro w ws hfirst'
      obtain ⟨rfl, rfl⟩ := List.cons.inj (hfirst.symm.trans hfirst')
      obtain ⟨before, text, after, hlines, hnumber, rfl⟩ := hline
      exact ⟨before, text, after, hlines, hnumber.trans (Int.add_comm _ _), hstrict,
        Fallback.message_eq _⟩
    · intro nodes hok
      rw [hstrict] at hok
      exact absurd hok (by simp [Reading.failed])

/-- Behind a comment and a known keyword, an unknown keyword on the third line ends a
strict reading there, although a parameter of that line has the wrong label and the last
line has no equals sign.  Without it, the last line ends both readings. -/
theorem readLines_strict_of_lenient_blur :
    let front := ["# blur".toList, "node=greyscale".toList]
    let blur := "node=blur by=2\r".toList
    readLines .standard true (front ++ [blur, "blur".toList]) =
        .failed ⟨3, "node=blur by=2".toList, .unknownKeyword "blur"⟩ ∧
      readLines .standard true (front ++ ["blur".toList]) =
        readLines .standard false (front ++ ["blur".toList]) := by
  intro front blur
  obtain ⟨hsame, -⟩ := readLines_strict_of_lenient .standard (front ++ ["blur".toList])
  obtain ⟨-, hfirst, -⟩ :=
    readLines_strict_of_lenient .standard (front ++ [blur, "blur".toList])
  refine ⟨?_, hsame rfl⟩
  obtain ⟨before, text, after, hlines, hnumber, hstrict, -⟩ := hfirst ⟨3, "blur", .crop⟩ [] rfl
  -- the line of number three is the one behind two others
  have hlength : before.length = 2 := by
    simp only at hnumber
    omega
  obtain ⟨rfl, hrest⟩ := List.append_inj hlines hlength.symm
  obtain ⟨rfl, -⟩ := List.cons.inj hrest
  exact hstrict

end Definition
end ImagePipeline
