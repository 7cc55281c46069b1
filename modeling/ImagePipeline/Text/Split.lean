/-!
# Cutting at a separator

Two ways of cutting a list at a separator: at every place where it stands, and at
the first one only.

## Main definitions

* `splitOn` — the pieces between all separators.
* `cutFirst` — what stands before and after the first separator.

## Main results

* `length_splitOn` — there is one piece more than there are separators.
* `cutFirst_eq_none_iff` — only a list without the separator is not cut.
-/

namespace ImagePipeline

/-- Puts a member in front of the first piece. -/
def consPiece {α : Type} (c : α) : List (List α) → List (List α)
  | [] => [[c]]
  | p :: ps => (c :: p) :: ps

/-- The pieces of a list between the members equal to `x`. -/
def splitOn {α : Type} [DecidableEq α] (x : α) : List α → List (List α)
  | [] => [[]]
  | c :: r => if c = x then [] :: splitOn x r else consPiece c (splitOn x r)

/-- What stands before and after the first member equal to `x`, if there is
one. -/
def cutFirst {α : Type} [DecidableEq α] (x : α) : List α → Option (List α × List α)
  | [] => none
  | c :: r => if c = x then some ([], r) else (cutFirst x r).map fun (a, b) => (c :: a, b)

/-- There is one piece more than there are separators. -/
theorem length_splitOn {α : Type} [DecidableEq α] (x : α) (s : List α) :
    (splitOn x s).length = s.count x + 1 := by
  induction s with
  | nil => rfl
  | cons c r ih =>
    rw [splitOn]
    split
    · next h => subst h; simp [ih]
    · next h =>
      rw [List.count_cons_of_ne h, ← ih]
      cases hr : splitOn x r with
      | nil => rw [hr] at ih; simp at ih
      | cons p ps => rfl

/-- Only a list without the separator is not cut. -/
theorem cutFirst_eq_none_iff {α : Type} [DecidableEq α] {x : α} {s : List α} :
    cutFirst x s = none ↔ x ∉ s := by
  induction s with
  | nil => simp [cutFirst]
  | cons c r ih =>
    rw [cutFirst]
    by_cases h : c = x
    · simp [h]
    · simp [h, ih, Ne.symm h]

/-- A cut list is what stands before, the separator, and what stands after. -/
theorem eq_of_cutFirst {α : Type} [DecidableEq α] {x : α} {s a b : List α}
    (h : cutFirst x s = some (a, b)) : s = a ++ x :: b ∧ x ∉ a := by
  induction s generalizing a with
  | nil => simp [cutFirst] at h
  | cons c r ih =>
    rw [cutFirst] at h
    split at h
    · next hc =>
      simp only [Option.some.injEq, Prod.mk.injEq] at h
      obtain ⟨rfl, rfl⟩ := h
      simp [hc]
    · next hc =>
      obtain ⟨⟨a', b'⟩, hr, he⟩ := Option.map_eq_some_iff.1 h
      simp only [Prod.mk.injEq] at he
      obtain ⟨rfl, rfl⟩ := he
      obtain ⟨rfl, hn⟩ := ih hr
      exact ⟨rfl, by simp [hn, Ne.symm hc]⟩

end ImagePipeline
