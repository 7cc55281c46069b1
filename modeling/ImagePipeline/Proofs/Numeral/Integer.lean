import ImagePipeline.Numeral.Integer
import ImagePipeline.Proofs.Text.Words
import Mathlib.Tactic.Ring

/-!
# Integers as text and back

The digits that are written for an integer are read as that integer, and no text is
read as an integer that cannot be written.

## Main results

* `inLimit_iff` — how large an integer in the limit may be.
* `digitsValue_append`, `digitsValue_lt` — the value of a row of digits.
* `toString_injective` — different integers are written differently.
* `readInteger_toString` — an integer in the limit reads back.
* `inLimit_of_readInteger` — what is read is in the limit.
-/

namespace ImagePipeline
namespace Numeral

open Text

theorem inLimit_iff {n : ℤ} : InLimit n ↔ n.natAbs < 10 ^ digitLimit :=
  Nat.length_toDigits_le_iff (by decide) (by decide)

/-! ### Characters of numerals -/

/-- A digit lies between the zero and the nine of ASCII. -/
theorem isDigit_iff {c : Char} : isDigit c = true ↔ 48 ≤ c.toNat ∧ c.toNat ≤ 57 := by
  unfold isDigit asciiDigit?
  split
  · next h => simpa using h
  · next h => simpa using h

/-- The digits are those of the core library. -/
theorem isDigit_of_coreIsDigit {c : Char} (h : c.isDigit = true) : isDigit c = true := by
  have hbounds := Char.isDigit_iff_toNat.mp h
  exact isDigit_iff.mpr hbounds

theorem asciiDigit?_of_isDigit {c : Char} (h : isDigit c = true) :
    asciiDigit? c = some (c.toNat - 48) := by
  unfold asciiDigit?
  rw [if_pos (isDigit_iff.mp h)]

/-- A character that is read as it stands: beyond the blanks and the letters of no
other alphabet. -/
theorem isBlank_of_bounds {c : Char} (h₁ : 33 ≤ c.toNat) (h₂ : c.toNat < 127) :
    isBlank c = false := by
  rw [Bool.eq_false_iff]
  intro h
  simp only [isBlank, Bool.or_eq_true, Bool.and_eq_true, decide_eq_true_eq, beq_iff_eq] at h
  omega

theorem isAsciiBlank_of_isBlank_eq_false {c : Char} (h : isBlank c = false) :
    isAsciiBlank c = false := by
  rw [Bool.eq_false_iff]
  intro h'
  rw [isBlank_of_isAsciiBlank h'] at h
  exact absurd h (by simp)

theorem isBlank_of_isDigit {c : Char} (h : isDigit c = true) : isBlank c = false := by
  obtain ⟨h₁, h₂⟩ := isDigit_iff.mp h
  exact isBlank_of_bounds (by omega) (by omega)

/-- No digit is one of the other characters of a numeral. -/
theorem ne_of_isDigit {c d : Char} (h : isDigit c = true) (hd : isDigit d = false) : c ≠ d := by
  rintro rfl
  rw [h] at hd
  exact absurd hd (by simp)

/-- A text of ASCII characters stays as it is. -/
theorem toAscii_of_lt {s : List Char} (h : ∀ c ∈ s, c.toNat < 128) : toAscii s = s := by
  unfold toAscii
  rw [if_pos]
  rw [List.all_eq_true]
  intro c hc
  exact decide_eq_true (h c hc)

/-- Nothing stands in front of a text that starts with no blank. -/
theorem dropWhile_isAsciiBlank {s : List Char} (h : ∀ c ∈ s, isBlank c = false) :
    s.dropWhile isAsciiBlank = s := by
  rw [List.dropWhile_eq_self_iff]
  intro hl
  rw [isAsciiBlank_of_isBlank_eq_false (h _ (List.getElem_mem hl))]
  simp

/-- Without an underscore no underscore is misplaced. -/
theorem underscoresOk_of_notMem {s : List Char} (h : '_' ∉ s) (before : Bool) :
    underscoresOk before s = true := by
  induction s generalizing before with
  | nil => rfl
  | cons c s ih =>
    have hc : c ≠ '_' := fun e => h (by simp [e])
    have hs : '_' ∉ s := fun e => h (List.mem_cons_of_mem _ e)
    unfold underscoresOk
    rw [if_neg hc]
    exact ih hs _

/-- A minus in front of a text is its sign. -/
theorem splitSign_minus (s : List Char) : splitSign ('-' :: s) = (true, s) := rfl

/-- A plus in front of a text is its sign. -/
theorem splitSign_plus (s : List Char) : splitSign ('+' :: s) = (false, s) := rfl

/-- A text that starts with a digit has no sign. -/
theorem splitSign_of_isDigit {c : Char} (h : isDigit c = true) (s : List Char) :
    splitSign (c :: s) = (false, c :: s) := by
  have hminus : c ≠ '-' := ne_of_isDigit h (by decide)
  have hplus : c ≠ '+' := ne_of_isDigit h (by decide)
  unfold splitSign
  split
  · next h' => exact absurd (List.cons.inj h').1 hminus
  · next h' => exact absurd (List.cons.inj h').1 hplus
  · rfl

/-- A minus in front of a text that starts with a digit is its sign, and so is none. -/
theorem splitSign_signed (negative : Bool) {c : Char} (h : isDigit c = true) (s : List Char) :
    splitSign ((if negative then ['-'] else []) ++ c :: s) = (negative, c :: s) := by
  cases negative with
  | true => exact splitSign_minus (c :: s)
  | false => exact splitSign_of_isDigit h s

theorem forall_mem_signed {p : Char → Prop} (hminus : p '-') {s : List Char} (hs : ∀ c ∈ s, p c)
    (negative : Bool) : ∀ c ∈ (if negative then ['-'] else []) ++ s, p c := by
  rw [List.forall_mem_append]
  refine ⟨?_, hs⟩
  cases negative <;> simp [hminus]

/-! ### Rows of digits -/

/-- The digits in front count as often as the places behind them say. -/
theorem digitsValue_append (a b : List Char) :
    digitsValue (a ++ b) = digitsValue a * 10 ^ b.length + digitsValue b := by
  -- the value of the digits in front is what the fold over the others starts from
  have key : ∀ (b : List Char) (n : ℕ),
      b.foldl (fun n c => 10 * n + (asciiDigit? c).getD 0) n =
        n * 10 ^ b.length + digitsValue b := by
    intro b
    induction b with
    | nil => intro n; simp [digitsValue]
    | cons c b ih =>
      intro n
      have h : digitsValue (c :: b) = (10 * 0 + (asciiDigit? c).getD 0) * 10 ^ b.length
        + digitsValue b := ih _
      rw [List.foldl_cons, ih, h, List.length_cons, pow_succ]
      ring
  rw [digitsValue, List.foldl_append]
  exact key b _

theorem digitsValue_cons (c : Char) (b : List Char) :
    digitsValue (c :: b) = (asciiDigit? c).getD 0 * 10 ^ b.length + digitsValue b := by
  have h := digitsValue_append [c] b
  simpa [digitsValue] using h

/-- A row of digits is worth less than the power of ten of its length. -/
theorem digitsValue_lt (ds : List Char) : digitsValue ds < 10 ^ ds.length := by
  induction ds with
  | nil => simp [digitsValue]
  | cons c ds ih =>
    have hc : (asciiDigit? c).getD 0 ≤ 9 := by
      unfold asciiDigit?
      split
      · rw [Option.getD_some]; omega
      · simp
    rw [digitsValue_cons, List.length_cons, pow_succ]
    calc (asciiDigit? c).getD 0 * 10 ^ ds.length + digitsValue ds
        < (asciiDigit? c).getD 0 * 10 ^ ds.length + 10 ^ ds.length := by omega
      _ = ((asciiDigit? c).getD 0 + 1) * 10 ^ ds.length := by ring
      _ ≤ 10 * 10 ^ ds.length := Nat.mul_le_mul_right _ (by omega)
      _ = 10 ^ ds.length * 10 := Nat.mul_comm _ _

/-- Zeros are worth nothing. -/
theorem digitsValue_replicate_zero (n : ℕ) : digitsValue (List.replicate n '0') = 0 := by
  induction n with
  | zero => rfl
  | succ n ih =>
    have hzero : asciiDigit? '0' = some 0 := rfl
    rw [List.replicate_succ, digitsValue_cons, ih, hzero]
    simp

/-- On digits the value is the one of the core library. -/
theorem digitsValue_eq_ofDigitChars {ds : List Char} (h : ∀ c ∈ ds, isDigit c = true) :
    digitsValue ds = Nat.ofDigitChars 10 ds 0 := by
  induction ds with
  | nil => rfl
  | cons c ds ih =>
    have hc := asciiDigit?_of_isDigit (h c (by simp))
    have hds := ih fun d hd => h d (List.mem_cons_of_mem _ hd)
    have hinit := @Nat.ofDigitChars_eq_ofDigitChars_zero ds (10 * 0 + (c.toNat - '0'.toNat))
    have hzero : '0'.toNat = 48 := rfl
    rw [digitsValue_cons, hc, Option.getD_some, hds, Nat.ofDigitChars_cons, hinit, hzero]
    ring

/-- The digits of a natural number are digits. -/
theorem isDigit_of_mem_toDigits {n : ℕ} {c : Char} (h : c ∈ Nat.toDigits 10 n) :
    isDigit c = true :=
  isDigit_of_coreIsDigit (Nat.isDigit_of_mem_toDigits (by decide) (by decide) h)

/-- The digits of a natural number have its value. -/
theorem digitsValue_toDigits (n : ℕ) : digitsValue (Nat.toDigits 10 n) = n := by
  rw [digitsValue_eq_ofDigitChars fun c hc => isDigit_of_mem_toDigits hc]
  exact Nat.ofDigitChars_ten_toDigits

/-! ### Integers -/

/-- An integer is written with a minus if it is negative. -/
theorem toList_toString (n : ℤ) :
    (toString n).toList = (if n < 0 then ['-'] else []) ++ Nat.toDigits 10 n.natAbs := by
  rw [Int.toString_eq_repr, Int.repr_eq_if]
  split
  · next h =>
    have habs : n.toNat = n.natAbs := by omega
    rw [if_neg (by omega), Nat.toList_repr, habs, List.nil_append]
  · next h =>
    have habs : (-n).toNat = n.natAbs := by omega
    rw [if_pos (by omega), String.toList_append, Nat.toList_repr, habs]
    rfl

/-- An integer is written with digits and a minus. -/
theorem isDigit_or_eq_minus_of_mem_toString {n : ℤ} {c : Char} (h : c ∈ (toString n).toList) :
    isDigit c = true ∨ c = '-' := by
  rw [toList_toString, List.mem_append] at h
  rcases h with h | h
  · split at h
    · exact Or.inr (List.mem_singleton.mp h)
    · exact absurd h (by simp)
  · exact Or.inl (isDigit_of_mem_toDigits h)

theorem exists_isDigit_mem_toString (n : ℤ) : ∃ c ∈ (toString n).toList, isDigit c = true := by
  refine ⟨(Nat.toDigits 10 n.natAbs).head Nat.toDigits_ne_nil, ?_,
    isDigit_of_mem_toDigits (List.head_mem _)⟩
  rw [toList_toString, List.mem_append]
  exact Or.inr (List.head_mem _)

/-- An integer is written in the form of a sign and a row of digits. -/
theorem splitSign_toString (n : ℤ) :
    splitSign (toString n).toList = (decide (n < 0), Nat.toDigits 10 n.natAbs) := by
  have hsign := splitSign_signed (decide (n < 0)) (c := (Nat.toDigits 10 n.natAbs).head
    Nat.toDigits_ne_nil) (isDigit_of_mem_toDigits (List.head_mem _)) (Nat.toDigits 10 n.natAbs).tail
  rw [List.cons_head_tail] at hsign
  rw [toList_toString, ← hsign]
  simp only [decide_eq_true_eq]

/-- Different integers are written differently. -/
theorem toString_injective : Function.Injective (toString : ℤ → String) := by
  intro m n h
  have hsplit := splitSign_toString m
  rw [h, splitSign_toString n, Prod.mk.injEq, decide_eq_decide] at hsplit
  obtain ⟨hsign, hdigits⟩ := hsplit
  have habs := congrArg digitsValue hdigits
  rw [digitsValue_toDigits, digitsValue_toDigits] at habs
  omega

/-- What the reader makes of an optional minus and a row of digits. -/
theorem readInteger_sign_append (negative : Bool) {ds : List Char} (hne : ds ≠ [])
    (hds : ∀ c ∈ ds, isDigit c = true) (hlength : ds.length ≤ digitLimit) :
    readInteger ((if negative then ['-'] else []) ++ ds) =
      .ok (if negative then -(digitsValue ds : ℤ) else digitsValue ds) := by
  have hblank : ∀ c ∈ (if negative then ['-'] else []) ++ ds, isBlank c = false :=
    forall_mem_signed (by decide) (fun c hc => isBlank_of_isDigit (hds c hc)) negative
  have hascii : ∀ c ∈ (if negative then ['-'] else []) ++ ds, c.toNat < 128 := by
    refine forall_mem_signed (by decide) ?_ negative
    intro c hc
    have := isDigit_iff.mp (hds c hc)
    omega
  have hsign : splitSign ((if negative then ['-'] else []) ++ ds) = (negative, ds) := by
    cases ds with
    | nil => exact absurd rfl hne
    | cons c ds => exact splitSign_signed negative (hds c (by simp)) ds
  -- a row of digits without underscores is taken whole, and nothing is left behind it
  have hrun : ∀ c ∈ ds, (isDigit c || c == '_') = true := fun c hc => by simp [hds c hc]
  have htake : ds.takeWhile (fun c => isDigit c || c == '_') = ds :=
    List.takeWhile_eq_self_iff.mpr hrun
  have hdrop : ds.dropWhile (fun c => isDigit c || c == '_') = [] :=
    List.dropWhile_eq_nil_iff.mpr hrun
  have hfilter : ds.filter isDigit = ds := List.filter_eq_self.mpr hds
  have hunder : underscoresOk false ds = true := by
    apply underscoresOk_of_notMem
    intro h
    exact ne_of_isDigit (hds _ h) (by decide) rfl
  have hempty : ds.isEmpty = false := by simpa using hne
  unfold readInteger
  rw [toAscii_of_lt hascii, dropWhile_isAsciiBlank hblank, hsign]
  simp only [htake, hdrop, hfilter, hunder, hempty]
  rw [if_neg (by simp), if_neg (by omega), if_neg (by simp)]

/-- An integer in the limit reads back. -/
theorem readInteger_toString {n : ℤ} (h : InLimit n) :
    readInteger (toString n).toList = .ok n := by
  have hread := readInteger_sign_append (decide (n < 0)) Nat.toDigits_ne_nil
    (fun c hc => isDigit_of_mem_toDigits hc) h
  rw [digitsValue_toDigits] at hread
  rw [toList_toString]
  simp only [decide_eq_true_eq] at hread
  rw [hread]
  congr 1
  split <;> omega

/-- What is read is in the limit. -/
theorem inLimit_of_readInteger {text : List Char} {n : ℤ} (h : readInteger text = .ok n) :
    InLimit n := by
  unfold readInteger at h
  simp only at h
  split at h
  · exact absurd h (by simp)
  · split at h
    · exact absurd h (by simp)
    · next hlength =>
      split at h
      · exact absurd h (by simp)
      · -- what is accepted is made of at most `digitLimit` digits
        set ds := List.filter isDigit (List.takeWhile (fun c => isDigit c || c == '_')
          (splitSign ((toAscii text).dropWhile isAsciiBlank)).2) with hds
        have hvalue : digitsValue ds < 10 ^ digitLimit :=
          lt_of_lt_of_le (digitsValue_lt ds) (Nat.pow_le_pow_right (by decide) (by omega))
        have hn := Except.ok.inj h
        have habs : n.natAbs = digitsValue ds := by
          rw [← hn]
          split <;> omega
        rw [inLimit_iff]
        omega

end Numeral
end ImagePipeline
