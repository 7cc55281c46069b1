import ImagePipeline.Binary64.Writing
import ImagePipeline.Numeral.Real
import ImagePipeline.Proofs.Binary64.Decimal
import ImagePipeline.Proofs.Numeral.Integer
import Mathlib.Tactic.FieldSimp

/-!
# Numbers as text and back

The shortest form of a finite number is read as that number, sign of zero included.
The layout of the form (positional, with leading zeros, or with an exponent) only
decides how the digits are spread over the parts of the numeral, not what decimal
they stand for.

## Main definitions

* `NumeralChar` — the characters that the form of a finite number consists of.
* `Literal.decimal` — the decimal that a numeral stands for.
* `Spells` — a text that spells a decimal.

## Main results

* `spells_write` — a written decimal is read as a decimal of its value.
* `numeralChar_of_mem_digitsText` — a finite number is written with digits, a point,
  an exponent mark and signs.
* `readReal_digitsText` — the form of a finite number reads back.
-/

namespace ImagePipeline
namespace Numeral

open Text

/-! ### Characters -/

/-- The characters that the form of a finite number consists of. -/
def NumeralChar (c : Char) : Prop := isDigit c = true ∨ c ∈ ['.', 'e', '+', '-']

instance (c : Char) : Decidable (NumeralChar c) := inferInstanceAs (Decidable (_ ∨ _))

theorem NumeralChar.bounds {c : Char} (h : NumeralChar c) : 33 ≤ c.toNat ∧ c.toNat < 127 := by
  rcases h with h | h
  · have := isDigit_iff.mp h
    omega
  · have hall : ∀ d ∈ ['.', 'e', '+', '-'], 33 ≤ d.toNat ∧ d.toNat < 127 :=
      forall_mem_of_all (by decide)
    exact hall c h

theorem NumeralChar.not_blank {c : Char} (h : NumeralChar c) : isBlank c = false :=
  isBlank_of_bounds h.bounds.1 h.bounds.2

theorem NumeralChar.ne {c d : Char} (h : NumeralChar c) (hd : ¬ NumeralChar d) : c ≠ d := by
  rintro rfl
  exact hd h

/-- No digit becomes a letter in lower case. -/
theorem toLower_of_isDigit {c : Char} (h : isDigit c = true) : c.toLower = c := by
  have hbounds := isDigit_iff.mp h
  have hval : c.toNat = c.val.toNat := rfl
  unfold Char.toLower
  rw [dif_neg]
  rintro ⟨h', -⟩
  rw [ge_iff_le, UInt32.le_iff_toNat_le] at h'
  have hA : 'A'.val.toNat = 65 := rfl
  omega

/-! ### Parts of a numeral -/

/-- The decimal that a numeral stands for. -/
def Literal.decimal (l : Literal) : Decimal :=
  ⟨digitsValue (l.whole ++ l.fraction), l.exponent - (l.fraction.length : ℤ)⟩

/-- A numeral whose decimal is nearest to a magnitude has that magnitude as its
value. -/
theorem Literal.value_of_ofRat? {l : Literal} (negative : Bool) {a : Magnitude}
    (h : Magnitude.ofRat? l.decimal.toRat = some a) (ha : a.mantissa ≠ 0) :
    l.value negative = .finite negative a :=
  Binary64.ofDecimal_of_ofRat? negative (digitsValue_lt (l.whole ++ l.fraction)) h ha

/-- A row of digits is taken up to the first other character. -/
theorem takeWhile_isDigit_append {w t : List Char} (hw : ∀ c ∈ w, isDigit c = true)
    (ht : ∀ c ∈ t.head?, isDigit c = false) : (w ++ t).takeWhile isDigit = w := by
  rw [List.takeWhile_append_of_pos hw]
  cases t with
  | nil => simp
  | cons c t => simp [ht c (by simp)]

theorem dropWhile_isDigit_append {w t : List Char} (hw : ∀ c ∈ w, isDigit c = true)
    (ht : ∀ c ∈ t.head?, isDigit c = false) : (w ++ t).dropWhile isDigit = t := by
  rw [List.dropWhile_append_of_pos hw]
  cases t with
  | nil => simp
  | cons c t => simp [ht c (by simp)]

/-- A numeral with a point is cut at the point and behind the digits after it. -/
theorem scanLiteral_point {w f t : List Char} (hne : w ≠ []) (hw : ∀ c ∈ w, isDigit c = true)
    (hf : ∀ c ∈ f, isDigit c = true) (ht : ∀ c ∈ t.head?, isDigit c = false) :
    scanLiteral (w ++ '.' :: (f ++ t)) = (scanExponent t).map fun e => ⟨w, f, e⟩ := by
  have hpoint : ∀ c ∈ ('.' :: (f ++ t)).head?, isDigit c = false := by
    intro c hc
    rw [List.head?_cons, Option.mem_some_iff] at hc
    rw [← hc]
    decide
  have hempty : w.isEmpty = false := by simpa using hne
  unfold scanLiteral
  simp only [takeWhile_isDigit_append hw hpoint, dropWhile_isDigit_append hw hpoint,
    takeWhile_isDigit_append hf ht, dropWhile_isDigit_append hf ht, hempty, Bool.false_and]
  rfl

/-- A numeral without a point is cut behind its digits. -/
theorem scanLiteral_whole {w t : List Char} (hne : w ≠ []) (hw : ∀ c ∈ w, isDigit c = true)
    (ht : ∀ c ∈ t.head?, isDigit c = false) (hpoint : ∀ c ∈ t.head?, c ≠ '.') :
    scanLiteral (w ++ t) = (scanExponent t).map fun e => ⟨w, [], e⟩ := by
  have hempty : w.isEmpty = false := by simpa using hne
  unfold scanLiteral
  simp only [takeWhile_isDigit_append hw ht, dropWhile_isDigit_append hw ht]
  cases t with
  | nil => simp [hempty]
  | cons c t =>
    have hc : c ≠ '.' := hpoint c (by simp)
    split
    · next heq => exact absurd (List.cons.inj heq).1 hc
    · simp [hempty]

/-- The written exponent of a number. -/
def exponentText (width : ℕ) (e : ℤ) : List Char :=
  'e' :: (if e < 0 then '-' else '+') :: padZeros width (decimalDigits e.natAbs)

theorem isDigit_of_mem_replicate_zero (n : ℕ) : ∀ c ∈ List.replicate n '0', isDigit c = true := by
  intro c hc
  rw [(List.mem_replicate.mp hc).2]
  decide

theorem isDigit_of_mem_padZeros {width : ℕ} {ds : List Char} (h : ∀ c ∈ ds, isDigit c = true) :
    ∀ c ∈ padZeros width ds, isDigit c = true := by
  intro c hc
  rcases List.mem_append.mp hc with hc | hc
  · exact isDigit_of_mem_replicate_zero _ c hc
  · exact h c hc

theorem digitsValue_padZeros (width : ℕ) (ds : List Char) :
    digitsValue (padZeros width ds) = digitsValue ds := by
  rw [padZeros, digitsValue_append, digitsValue_replicate_zero, Nat.zero_mul, Nat.zero_add]

theorem head?_exponentText_not_digit (width : ℕ) (e : ℤ) :
    ∀ c ∈ (exponentText width e).head?, isDigit c = false := by
  intro c hc
  rw [exponentText, List.head?_cons, Option.mem_some_iff] at hc
  rw [← hc]
  decide

theorem head?_exponentText_ne_point (width : ℕ) (e : ℤ) :
    ∀ c ∈ (exponentText width e).head?, c ≠ '.' := by
  intro c hc
  rw [exponentText, List.head?_cons, Option.mem_some_iff] at hc
  rw [← hc]
  decide

/-- A written exponent is read back. -/
theorem scanExponent_exponentText (width : ℕ) (e : ℤ) :
    scanExponent (exponentText width e) = some e := by
  set ds := padZeros width (decimalDigits e.natAbs) with hds
  have hdigits : ∀ c ∈ ds, isDigit c = true :=
    isDigit_of_mem_padZeros fun c hc => isDigit_of_mem_toDigits hc
  have hvalue : digitsValue ds = e.natAbs := by
    rw [hds, digitsValue_padZeros, decimalDigits, digitsValue_toDigits]
  have hne : ds ≠ [] := by
    rw [hds, padZeros]
    simp [decimalDigits]
  have hsign : splitSign ((if e < 0 then '-' else '+') :: ds) = (decide (e < 0), ds) := by
    split
    · next h => rw [splitSign_minus]; simp [h]
    · next h => rw [splitSign_plus]; simp [h]
  have hgood : (ds.isEmpty || !ds.all isDigit) = false := by
    rw [Bool.or_eq_false_iff, List.isEmpty_eq_false_iff]
    refine ⟨hne, ?_⟩
    rw [List.all_eq_true.mpr hdigits]
    rfl
  rw [exponentText, scanExponent, if_pos (Or.inl rfl), hsign]
  simp only [hgood, hvalue]
  rw [if_neg (by simp)]
  congr 1
  split
  · next h => have := of_decide_eq_true h; omega
  · next h =>
    have : ¬ e < 0 := fun h' => h (decide_eq_true h')
    omega

/-! ### Written decimals -/

/-- A text that spells a decimal: it starts with a digit, consists of the characters
of numerals, and is read as a decimal of the same value. -/
structure Spells (s : List Char) (d : Decimal) : Prop where
  /-- The text starts with a digit. -/
  head : ∃ c r, s = c :: r ∧ isDigit c = true
  /-- The text has the characters of numerals. -/
  chars : ∀ c ∈ s, NumeralChar c
  /-- The text is read as the decimal. -/
  scan : ∃ l, scanLiteral s = some l ∧ l.decimal.toRat = d.toRat

/-- The digits in front start the text with a digit. -/
theorem head_of_digits {w : List Char} (hne : w ≠ []) (hw : ∀ c ∈ w, isDigit c = true)
    (t : List Char) : ∃ c r, w ++ t = c :: r ∧ isDigit c = true := by
  cases w with
  | nil => exact absurd rfl hne
  | cons c w => exact ⟨c, w ++ t, rfl, hw c (by simp)⟩

theorem spells_point {w f t : List Char} {e : ℤ} {d : Decimal} (hne : w ≠ [])
    (hw : ∀ c ∈ w, isDigit c = true) (hf : ∀ c ∈ f, isDigit c = true)
    (ht : ∀ c ∈ t.head?, isDigit c = false) (hchars : ∀ c ∈ t, NumeralChar c)
    (hscan : scanExponent t = some e)
    (hvalue : Decimal.toRat ⟨digitsValue (w ++ f), e - (f.length : ℤ)⟩ = d.toRat) :
    Spells (w ++ '.' :: (f ++ t)) d := by
  refine ⟨head_of_digits hne hw _, ?_, ⟨w, f, e⟩, ?_, hvalue⟩
  · intro c hc
    rcases List.mem_append.mp hc with hc | hc
    · exact Or.inl (hw c hc)
    · rcases List.mem_cons.mp hc with rfl | hc
      · decide
      · rcases List.mem_append.mp hc with hc | hc
        · exact Or.inl (hf c hc)
        · exact hchars c hc
  · rw [scanLiteral_point hne hw hf ht, hscan]
    rfl

theorem spells_whole {w t : List Char} {e : ℤ} {d : Decimal} (hne : w ≠ [])
    (hw : ∀ c ∈ w, isDigit c = true) (ht : ∀ c ∈ t.head?, isDigit c = false)
    (hpoint : ∀ c ∈ t.head?, c ≠ '.') (hchars : ∀ c ∈ t, NumeralChar c)
    (hscan : scanExponent t = some e)
    (hvalue : Decimal.toRat ⟨digitsValue w, e⟩ = d.toRat) : Spells (w ++ t) d := by
  refine ⟨head_of_digits hne hw _, ?_, ⟨w, [], e⟩, ?_, ?_⟩
  · intro c hc
    rcases List.mem_append.mp hc with hc | hc
    · exact Or.inl (hw c hc)
    · exact hchars c hc
  · rw [scanLiteral_whole hne hw ht hpoint, hscan]
    rfl
  · simpa [Literal.decimal] using hvalue

theorem numeralChar_of_mem_exponentText {width : ℕ} {e : ℤ} {c : Char}
    (h : c ∈ exponentText width e) : NumeralChar c := by
  rcases List.mem_cons.mp h with rfl | h
  · decide
  · rcases List.mem_cons.mp h with rfl | h
    · split <;> decide
    · exact Or.inl (isDigit_of_mem_padZeros (fun c hc => isDigit_of_mem_toDigits hc) c h)

section

variable {ds : List Char} {d : Decimal}

/-- The digits with zeros behind them, and a fraction of one zero. -/
theorem spells_zeros_behind (hne : ds ≠ []) (hds : ∀ c ∈ ds, isDigit c = true)
    (hvalue : digitsValue ds = d.digits) (hexp : 0 ≤ d.exponent) :
    Spells (ds ++ List.replicate d.exponent.toNat '0' ++ ['.', '0']) d := by
  have hw : ∀ c ∈ ds ++ List.replicate d.exponent.toNat '0', isDigit c = true := by
    rw [List.forall_mem_append]
    exact ⟨hds, isDigit_of_mem_replicate_zero _⟩
  refine spells_point (f := ['0']) (t := []) (e := 0) (by simp [hne]) hw
    (isDigit_of_mem_replicate_zero 1) (by simp) (by simp) rfl ?_
  have hdigits : digitsValue (ds ++ List.replicate d.exponent.toNat '0' ++ ['0']) =
      d.digits * 10 ^ (d.exponent.toNat + 1) := by
    have hlast : digitsValue ['0'] = 0 := digitsValue_replicate_zero 1
    rw [digitsValue_append, digitsValue_append, hvalue, digitsValue_replicate_zero, hlast,
      List.length_replicate, List.length_singleton, pow_succ]
    ring
  refine Decimal.toRat_of_digits_mul hdigits ?_
  rw [List.length_singleton]
  omega

/-- The digits with the point behind the first `n` of them. -/
theorem spells_point_between (hne : ds ≠ []) (hds : ∀ c ∈ ds, isDigit c = true)
    (hvalue : digitsValue ds = d.digits) {n : ℕ} (hn : n ≠ 0)
    (hlength : ((ds.drop n).length : ℤ) = -d.exponent) :
    Spells (ds.take n ++ '.' :: ds.drop n) d := by
  have htake : ds.take n ≠ [] := by
    rw [Ne, List.take_eq_nil_iff, not_or]
    exact ⟨hn, hne⟩
  have hw : ∀ c ∈ ds.take n, isDigit c = true := fun c hc => hds c (List.mem_of_mem_take hc)
  have hf : ∀ c ∈ ds.drop n, isDigit c = true := fun c hc => hds c (List.mem_of_mem_drop hc)
  have key := spells_point (t := []) (e := 0) (d := d) htake hw hf (by simp) (by simp) rfl ?_
  · rwa [List.append_nil] at key
  · rw [List.take_append_drop, hvalue, hlength]
    exact Decimal.toRat_of_digits_mul (k := 0) (by simp) (by simp)

/-- The digits with zeros and the point in front of them. -/
theorem spells_zeros_in_front (hds : ∀ c ∈ ds, isDigit c = true)
    (hvalue : digitsValue ds = d.digits) {n : ℕ} (hlength : (n + ds.length : ℤ) = -d.exponent) :
    Spells ('0' :: '.' :: (List.replicate n '0' ++ ds)) d := by
  have hf : ∀ c ∈ List.replicate n '0' ++ ds, isDigit c = true := by
    rw [List.forall_mem_append]
    exact ⟨isDigit_of_mem_replicate_zero n, hds⟩
  have key := spells_point (w := ['0']) (t := []) (e := 0) (d := d) (by simp)
    (isDigit_of_mem_replicate_zero 1) hf (by simp) (by simp) rfl ?_
  · rwa [List.append_nil] at key
  · have hfirst : digitsValue ['0'] = 0 := digitsValue_replicate_zero 1
    have hdigits : digitsValue (['0'] ++ (List.replicate n '0' ++ ds)) = d.digits * 10 ^ 0 := by
      rw [digitsValue_append, digitsValue_append, digitsValue_replicate_zero, hvalue, hfirst]
      simp
    refine Decimal.toRat_of_digits_mul hdigits ?_
    rw [List.length_append, List.length_replicate]
    push_cast
    omega

/-- One digit, and the exponent. -/
theorem spells_digit_exponent {c : Char} (hc : isDigit c = true)
    (hvalue : digitsValue [c] = d.digits) (width : ℕ) :
    Spells ([c] ++ exponentText width d.exponent) d := by
  refine spells_whole (by simp) (by simpa using hc) (head?_exponentText_not_digit width _)
    (head?_exponentText_ne_point width _) (fun x hx => numeralChar_of_mem_exponentText hx)
    (scanExponent_exponentText width _) ?_
  rw [hvalue]

/-- One digit in front of the point, the others behind it, and the exponent. -/
theorem spells_digits_exponent {c : Char} {r : List Char} (hds : ∀ x ∈ c :: r, isDigit x = true)
    (hvalue : digitsValue (c :: r) = d.digits) (width : ℕ) {first : ℤ}
    (hfirst : first = d.exponent + r.length) :
    Spells ([c] ++ '.' :: (r ++ exponentText width first)) d := by
  obtain ⟨hc, hr⟩ := List.forall_mem_cons.mp hds
  refine spells_point (by simp) (by simpa using hc) hr (head?_exponentText_not_digit width _)
    (fun x hx => numeralChar_of_mem_exponentText hx) (scanExponent_exponentText width _) ?_
  rw [List.singleton_append, hvalue, hfirst, add_sub_cancel_right]

end

/-- **A written decimal spells the decimal**: the four ways of writing spread the same
digits. -/
theorem spells_write (d : Decimal) : Spells (Layout.standard.write d) d := by
  set ds := decimalDigits d.digits with hds
  have hne : ds ≠ [] := Nat.toDigits_ne_nil
  have hdigits : ∀ c ∈ ds, isDigit c = true := fun c hc => isDigit_of_mem_toDigits hc
  have hvalue : digitsValue ds = d.digits := digitsValue_toDigits d.digits
  have hpos : 0 < ds.length := List.length_pos_iff.mpr hne
  unfold Layout.write
  simp only [← hds, Layout.standard]
  split
  · split
    · next hexp => exact spells_zeros_behind hne hdigits hvalue hexp
    · split
      · next hfirst =>
        refine spells_point_between hne hdigits hvalue (Nat.succ_ne_zero _) ?_
        rw [List.length_drop]
        omega
      · next hfirst =>
        refine spells_zeros_in_front hdigits hvalue ?_
        omega
  · match hcase : ds with
    | [] => exact absurd rfl hne
    | [c] =>
      have hfirst : d.exponent + (([c] : List Char).length : ℤ) - 1 = d.exponent := by simp
      rw [hfirst]
      exact spells_digit_exponent (hdigits c (by simp)) hvalue 2
    | c :: c' :: r =>
      refine spells_digits_exponent hdigits hvalue 2 ?_
      rw [List.length_cons]
      push_cast
      omega

/-! ### Finite numbers -/

theorem spells_zero : Spells ['0', '.', '0'] ⟨0, 0⟩ := by
  have hpoint := spells_point (w := ['0']) (f := ['0']) (t := []) (e := 0) (d := ⟨0, 0⟩) (by simp)
    (forall_mem_of_all (by decide)) (forall_mem_of_all (by decide)) (by simp) (by simp) rfl
  refine hpoint ?_
  have hvalue : digitsValue (['0'] ++ ['0']) = 0 := digitsValue_replicate_zero 2
  rw [hvalue, Decimal.toRat_eq_zero_iff.mpr rfl, Decimal.toRat_eq_zero_iff.mpr rfl]

/-- The digits of a finite number behind its sign. -/
def unsignedText (a : Magnitude) : List Char :=
  if a.isZero then ['0', '.', '0'] else Layout.standard.write a.shortest

theorem digitsText_finite (negative : Bool) (a : Magnitude) :
    (Binary64.finite negative a).digitsText = (if negative then ['-'] else []) ++ unsignedText a :=
  rfl

/-- The text of a magnitude spells a decimal that is read as the magnitude. -/
theorem exists_spells_unsignedText (a : Magnitude) :
    ∃ d, Spells (unsignedText a) d ∧
      ∀ (negative : Bool) (l : Literal), l.decimal.toRat = d.toRat →
        l.value negative = .finite negative a := by
  cases hzero : a.isZero with
  | true =>
    refine ⟨⟨0, 0⟩, ?_, ?_⟩
    · rw [unsignedText, if_pos hzero]
      exact spells_zero
    · intro negative l hl
      have hdigits : digitsValue (l.whole ++ l.fraction) = 0 := by
        have hnull : Decimal.toRat ⟨0, 0⟩ = 0 := Decimal.toRat_eq_zero_iff.mpr rfl
        exact Decimal.toRat_eq_zero_iff.mp (hl.trans hnull)
      have hm : a.mantissa = 0 := by simpa [Magnitude.isZero] using hzero
      have ha : a = .zero := by
        refine Magnitude.ext hm ?_
        rcases a.canonical.2.2.2 with h | h
        · omega
        · exact h
      rw [Literal.value, Binary64.ofDecimal, if_pos hdigits, ha]
  | false =>
    have hm : a.mantissa ≠ 0 := by simpa [Magnitude.isZero] using hzero
    refine ⟨a.shortest, ?_, ?_⟩
    · rw [unsignedText, if_neg (by simp [hzero])]
      exact spells_write a.shortest
    · intro negative l hl
      refine l.value_of_ofRat? negative ?_ hm
      rw [hl]
      exact Magnitude.ofRat?_shortest hm

/-- A finite number is written with digits, a point, an exponent mark and signs. -/
theorem numeralChar_of_mem_digitsText {x : Binary64} (hx : x.isFinite = true) {c : Char}
    (h : c ∈ x.digitsText) : NumeralChar c := by
  cases x with
  | nan => exact absurd hx (by simp [Binary64.isFinite])
  | infinity s => exact absurd hx (by simp [Binary64.isFinite])
  | finite negative a =>
    obtain ⟨d, hd, -⟩ := exists_spells_unsignedText a
    rw [digitsText_finite] at h
    exact forall_mem_signed (by decide) hd.chars negative c h

/-- A numeral without blanks and underscores is read in one go. -/
theorem readReal_of_numeralChar {s : List Char} (hs : ∀ c ∈ s, NumeralChar c) {x : Binary64}
    (h : scanReal s = some x) : readReal s = .ok x := by
  have hblank : ∀ c ∈ s, isAsciiBlank c = false :=
    fun c hc => isAsciiBlank_of_isBlank_eq_false (hs c hc).not_blank
  have hascii : toAscii s = s := toAscii_of_lt fun c hc => by have := (hs c hc).bounds; omega
  have htrim : trimAscii s = s := by
    rw [trimAscii, dropWhile_isAsciiBlank fun c hc => (hs c hc).not_blank,
      dropTail_of_forall hblank]
  have hunder : '_' ∉ s := fun hc => (hs _ hc).ne (by decide) rfl
  have hfilter : s.filter (fun c => c != '_') = s := by
    rw [List.filter_eq_self]
    intro c hc
    simpa using (hs c hc).ne (d := '_') (by decide)
  unfold readReal
  simp only [hascii, htrim, underscoresOk_of_notMem hunder, hfilter, h]
  rw [if_neg (by simp)]

/-- A numeral that starts with a digit behind its sign is none of the words. -/
theorem scanReal_sign_append (negative : Bool) {s : List Char} {c : Char} {r : List Char}
    (hs : s = c :: r) (hc : isDigit c = true) :
    scanReal ((if negative then ['-'] else []) ++ s) =
      (scanLiteral s).map fun l => l.value negative := by
  have hsign : splitSign ((if negative then ['-'] else []) ++ s) = (negative, s) := by
    rw [hs, splitSign_signed negative hc]
  have hi : c ≠ 'i' := ne_of_isDigit hc (by decide)
  have hn : c ≠ 'n' := ne_of_isDigit hc (by decide)
  have hword : s.map Char.toLower = c :: r.map Char.toLower := by
    rw [hs, List.map_cons, toLower_of_isDigit hc]
  unfold scanReal
  simp only [hsign, hword, List.cons.injEq, hi, hn, false_and, or_self, if_false]

/-- **The shortest form of a finite number reads back**, with the sign of a zero. -/
theorem readReal_digitsText {x : Binary64} (hx : x.isFinite = true) :
    readReal x.digitsText = .ok x := by
  cases x with
  | nan => exact absurd hx (by simp [Binary64.isFinite])
  | infinity s => exact absurd hx (by simp [Binary64.isFinite])
  | finite negative a =>
    obtain ⟨d, hd, hread⟩ := exists_spells_unsignedText a
    obtain ⟨c, r, hcr, hc⟩ := hd.head
    obtain ⟨l, hl, hvalue⟩ := hd.scan
    apply readReal_of_numeralChar fun c hc => numeralChar_of_mem_digitsText hx hc
    rw [digitsText_finite, scanReal_sign_append negative hcr hc, hl, Option.map_some,
      hread negative l hvalue]

end Numeral
end ImagePipeline
