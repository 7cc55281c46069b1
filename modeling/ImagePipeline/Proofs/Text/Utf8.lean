import ImagePipeline.Text.Lines
import ImagePipeline.Text.Utf8
import Mathlib.Data.Nat.Notation

/-!
# Texts as bytes

The bytes of a text are read back as that text, and where a text is cut at line feeds and
carriage returns, its bytes are cut at the same places: no byte of a longer character is a
line end.

## Main definitions

* `Text.isPlainEnd`, `Text.plainLines` — the lines of a text that is cut where bytes are.

## Main results

* `Utf8.step_encodeChar` — a character is read from the front of its bytes.
* `Utf8.decode_encode` — the bytes of a text are read back.
* `Utf8.isPrefixOf_encode_iff` — a byte order mark is a character of its own.
* `Bytes.lines_encode` — the lines of the bytes are the bytes of the lines.
-/

namespace ImagePipeline
namespace Utf8

/-! ### Characters -/

theorem toNat_toUInt8 {n : ℕ} (h : n < 256) : n.toUInt8.toNat = n := by
  rw [Nat.toUInt8, UInt8.toNat_ofNat', Nat.mod_eq_of_lt h]

theorem leadRange?_two {b : UInt8} (h₁ : 0xC2 ≤ b.toNat) (h₂ : b.toNat ≤ 0xDF) :
    leadRange? b = some (1, 0x80, 0xBF) := by
  rw [leadRange?, if_pos ⟨UInt8.le_iff_toNat_le.mpr h₁, UInt8.le_iff_toNat_le.mpr h₂⟩]

/-- The second of three bytes keeps away from overlong forms and from surrogates. -/
theorem leadRange?_three {b : UInt8} (h₁ : 0xE0 ≤ b.toNat) (h₂ : b.toNat ≤ 0xEF) :
    ∃ low high, leadRange? b = some (2, low, high) ∧
      ∀ m, 0x80 ≤ m → m ≤ 0xBF → (b.toNat = 0xE0 → 0xA0 ≤ m) → (b.toNat = 0xED → m ≤ 0x9F) →
        low.toNat ≤ m ∧ m ≤ high.toNat := by
  refine ⟨if b.toNat = 0xE0 then 0xA0 else 0x80, if b.toNat = 0xED then 0x9F else 0xBF, ?_, ?_⟩
  · unfold leadRange?
    simp only [UInt8.le_iff_toNat_le, ← UInt8.toNat_inj, UInt8.reduceToNat]
    grind
  · intro m hlow hhigh hfirst hlast
    constructor
    · split <;> simp only [UInt8.reduceToNat] <;> omega
    · split <;> simp only [UInt8.reduceToNat] <;> omega

/-- The second of four bytes keeps away from overlong forms and from numbers that are no
characters. -/
theorem leadRange?_four {b : UInt8} (h₁ : 0xF0 ≤ b.toNat) (h₂ : b.toNat ≤ 0xF4) :
    ∃ low high, leadRange? b = some (3, low, high) ∧
      ∀ m, 0x80 ≤ m → m ≤ 0xBF → (b.toNat = 0xF0 → 0x90 ≤ m) → (b.toNat = 0xF4 → m ≤ 0x8F) →
        low.toNat ≤ m ∧ m ≤ high.toNat := by
  refine ⟨if b.toNat = 0xF0 then 0x90 else 0x80, if b.toNat = 0xF4 then 0x8F else 0xBF, ?_, ?_⟩
  · unfold leadRange?
    simp only [UInt8.le_iff_toNat_le, ← UInt8.toNat_inj, UInt8.reduceToNat]
    grind
  · intro m hlow hhigh hfirst hlast
    constructor
    · split <;> simp only [UInt8.reduceToNat] <;> omega
    · split <;> simp only [UInt8.reduceToNat] <;> omega

theorem isContinuation_iff {b : UInt8} :
    isContinuation b = true ↔ 0x80 ≤ b.toNat ∧ b.toNat ≤ 0xBF := by
  rw [isContinuation, Bool.and_eq_true, decide_eq_true_eq, decide_eq_true_eq,
    UInt8.le_iff_toNat_le, UInt8.le_iff_toNat_le]
  rfl

section

variable {b b₁ b₂ b₃ low high : UInt8}

theorem not_lt_and_not_outside (hb : 0x80 ≤ b.toNat) (hlow : low.toNat ≤ b₁.toNat)
    (hhigh : b₁.toNat ≤ high.toNat) : ¬ b < 0x80 ∧ ¬ (b₁ < low ∨ high < b₁) := by
  have hascii : (0x80 : UInt8).toNat = 0x80 := rfl
  rw [UInt8.lt_iff_toNat_lt, UInt8.lt_iff_toNat_lt, UInt8.lt_iff_toNat_lt, hascii]
  omega

theorem step_one (hb : b.toNat < 0x80) (r : List UInt8) :
    step b r = .char (Char.ofNat b.toNat) 1 := by
  rw [step, if_pos (UInt8.lt_iff_toNat_lt.mpr hb)]

theorem step_two (hb : 0x80 ≤ b.toNat) (hlead : leadRange? b = some (1, low, high))
    (hlow : low.toNat ≤ b₁.toNat) (hhigh : b₁.toNat ≤ high.toNat) (r : List UInt8) :
    step b (b₁ :: r) = .char (Char.ofNat (b.toNat % 32 * 64 + payload b₁)) 2 := by
  obtain ⟨hascii, hrange⟩ := not_lt_and_not_outside hb hlow hhigh
  simp [step, hascii, hlead, hrange]

theorem step_three (hb : 0x80 ≤ b.toNat) (hlead : leadRange? b = some (2, low, high))
    (hlow : low.toNat ≤ b₁.toNat) (hhigh : b₁.toNat ≤ high.toNat)
    (h₂ : isContinuation b₂ = true) (r : List UInt8) :
    step b (b₁ :: b₂ :: r) =
      .char (Char.ofNat (b.toNat % 16 * 4096 + payload b₁ * 64 + payload b₂)) 3 := by
  obtain ⟨hascii, hrange⟩ := not_lt_and_not_outside hb hlow hhigh
  simp [step, hascii, hlead, hrange, h₂]

theorem step_four (hb : 0x80 ≤ b.toNat) (hlead : leadRange? b = some (3, low, high))
    (hlow : low.toNat ≤ b₁.toNat) (hhigh : b₁.toNat ≤ high.toNat)
    (h₂ : isContinuation b₂ = true) (h₃ : isContinuation b₃ = true) (r : List UInt8) :
    step b (b₁ :: b₂ :: b₃ :: r) =
      .char (Char.ofNat (b.toNat % 8 * 262144 + payload b₁ * 4096 + payload b₂ * 64 +
        payload b₃)) 4 := by
  obtain ⟨hascii, hrange⟩ := not_lt_and_not_outside hb hlow hhigh
  simp [step, hascii, hlead, hrange, h₂, h₃]

end

/-- **A character is read from the front of its bytes**, whatever follows them. -/
theorem step_encodeChar (c : Char) (r : List UInt8) :
    ∃ b bs, encodeChar c = b :: bs ∧ step b (bs ++ r) = .char c (bs.length + 1) := by
  have hvalid : c.toNat < 0xD800 ∨ 0xDFFF < c.toNat ∧ c.toNat < 0x110000 := c.valid
  have hback : Char.ofNat c.toNat = c := Char.ofNat_toNat c
  unfold encodeChar
  generalize c.toNat = n at hvalid hback
  dsimp only
  have htail : ∀ m, (0x80 + m % 64).toUInt8.toNat = 0x80 + m % 64 := fun m =>
    toNat_toUInt8 (by omega)
  have hcontinues : ∀ m, isContinuation (0x80 + m % 64).toUInt8 = true := fun m =>
    isContinuation_iff.mpr (by rw [htail]; omega)
  have hpayload : ∀ m, payload (0x80 + m % 64).toUInt8 = m % 64 := fun m => by
    rw [payload, htail]
    omega
  split
  · next h =>
    have hb : n.toUInt8.toNat = n := toNat_toUInt8 (by omega)
    refine ⟨_, [], rfl, ?_⟩
    rw [step_one (by omega), hb, hback]
    rfl
  · split
    · next h =>
      have hb : (0xC0 + n / 64).toUInt8.toNat = 0xC0 + n / 64 := toNat_toUInt8 (by omega)
      have hn : (0xC0 + n / 64) % 32 * 64 + n % 64 = n := by omega
      refine ⟨_, [_], rfl, ?_⟩
      rw [List.singleton_append, step_two (by omega) (leadRange?_two (by omega) (by omega))
        (by rw [htail]; exact Nat.le_add_right _ _)
        (by rw [htail]; show _ ≤ 0xBF; omega), hpayload, hb, hn, hback]
      rfl
    · split
      · next h =>
        have hb : (0xE0 + n / 4096).toUInt8.toNat = 0xE0 + n / 4096 := toNat_toUInt8 (by omega)
        have hn : (0xE0 + n / 4096) % 16 * 4096 + n / 64 % 64 * 64 + n % 64 = n := by omega
        obtain ⟨low, high, hlead, hrange⟩ :=
          leadRange?_three (b := (0xE0 + n / 4096).toUInt8) (by omega) (by omega)
        obtain ⟨hlow, hhigh⟩ :=
          hrange (0x80 + n / 64 % 64) (by omega) (by omega) (by omega) (by omega)
        rw [← htail] at hlow hhigh
        refine ⟨_, [_, _], rfl, ?_⟩
        rw [List.cons_append, List.singleton_append,
          step_three (by omega) hlead hlow hhigh (hcontinues n), hpayload, hpayload, hb, hn, hback]
        rfl
      · next h =>
        have hb : (0xF0 + n / 262144).toUInt8.toNat = 0xF0 + n / 262144 :=
          toNat_toUInt8 (by omega)
        have hn : (0xF0 + n / 262144) % 8 * 262144 + n / 4096 % 64 * 4096 + n / 64 % 64 * 64 +
          n % 64 = n := by omega
        obtain ⟨low, high, hlead, hrange⟩ :=
          leadRange?_four (b := (0xF0 + n / 262144).toUInt8) (by omega) (by omega)
        obtain ⟨hlow, hhigh⟩ :=
          hrange (0x80 + n / 4096 % 64) (by omega) (by omega) (by omega) (by omega)
        rw [← htail] at hlow hhigh
        refine ⟨_, [_, _, _], rfl, ?_⟩
        rw [List.cons_append, List.cons_append, List.singleton_append,
          step_four (by omega) hlead hlow hhigh (hcontinues _) (hcontinues n), hpayload, hpayload,
          hpayload, hb, hn, hback]
        rfl

/-! ### Texts -/

/-- **Reading goes on behind a text** as it would start there. -/
theorem decodeFrom_encode_append (s : List Char) (r : List UInt8) (offset : ℕ) :
    decodeFrom offset (encode s ++ r) =
      (decodeFrom (offset + (encode s).length) r).map (s ++ ·) := by
  induction s generalizing offset with
  | nil =>
    show decodeFrom offset r = (decodeFrom offset r).map fun t => [] ++ t
    cases decodeFrom offset r <;> rfl
  | cons c s ih =>
    obtain ⟨b, bs, hchar, hstep⟩ := step_encodeChar c (encode s ++ r)
    have hencode : encode (c :: s) = b :: (bs ++ encode s) := by
      rw [encode, List.flatMap_cons, hchar]
      rfl
    rw [hencode, List.cons_append, List.append_assoc, decodeFrom, hstep]
    simp only [Nat.add_sub_cancel, List.drop_left, ih, List.length_cons, List.length_append]
    rw [show offset + (bs.length + 1) + (encode s).length =
      offset + (bs.length + (encode s).length + 1) by omega]
    cases decodeFrom (offset + (bs.length + (encode s).length + 1)) r <;> rfl

/-- **The bytes of a text are read back.** -/
theorem decode_encode (s : List Char) : decode (encode s) = .ok s := by
  have h := decodeFrom_encode_append s [] 0
  rw [List.append_nil, decodeFrom] at h
  rw [decode, h]
  exact congrArg Except.ok s.append_nil

theorem encode_cons (c : Char) (s : List Char) : encode (c :: s) = encodeChar c ++ encode s :=
  List.flatMap_cons

/-- Only a text that starts with a byte order mark starts with the bytes of one. -/
theorem isPrefixOf_encode_iff {s : List Char} :
    byteOrderMark.isPrefixOf (encode s) = true ↔ s.head? = some (Char.ofNat 0xFEFF) := by
  rw [List.isPrefixOf_iff_prefix]
  constructor
  · rintro ⟨r, hr⟩
    cases s with
    | nil => exact absurd hr (by simp [byteOrderMark, encode])
    | cons c s =>
      -- the same step reads the first character of either side
      obtain ⟨b, bs, hchar, hstep⟩ := step_encodeChar c (encode s)
      rw [encode_cons, hchar] at hr
      obtain ⟨rfl, hbs⟩ := List.cons.inj hr
      have hbs' : bs ++ encode s = [0xBB, 0xBF] ++ r := hbs.symm
      rw [hbs'] at hstep
      have hmark : step 0xEF ([0xBB, 0xBF] ++ r) = .char (Char.ofNat 0xFEFF) 3 := rfl
      rw [List.head?_cons, (Step.char.inj (hstep.symm.trans hmark)).1]
  · intro h
    obtain ⟨s, rfl⟩ := List.head?_eq_some_iff.mp h
    exact ⟨encode s, by rw [encode_cons]; rfl⟩

/-! ### Single bytes -/

theorem encodeChar_of_lt {c : Char} (h : c.toNat < 0x80) : encodeChar c = [c.toNat.toUInt8] := by
  simp only [encodeChar, if_pos h]

/-- The bytes of a character beyond ASCII are beyond ASCII. -/
theorem le_of_mem_encodeChar {c : Char} (h : 0x80 ≤ c.toNat) {b : UInt8}
    (hb : b ∈ encodeChar c) : 0x80 ≤ b.toNat := by
  have hvalid : c.toNat < 0x110000 := by
    have hc : c.toNat < 0xD800 ∨ 0xDFFF < c.toNat ∧ c.toNat < 0x110000 := c.valid
    omega
  unfold encodeChar at hb
  generalize c.toNat = n at h hvalid hb
  have htail : ∀ m, 0x80 ≤ (0x80 + m % 64).toUInt8.toNat := fun m => by
    rw [toNat_toUInt8 (by omega)]
    omega
  dsimp only at hb
  rw [if_neg (by omega)] at hb
  split at hb
  · have hlead : 0x80 ≤ (0xC0 + n / 64).toUInt8.toNat := by
      rw [toNat_toUInt8 (by omega)]
      omega
    simp only [List.mem_cons, List.not_mem_nil, or_false] at hb
    rcases hb with rfl | rfl
    · exact hlead
    · exact htail _
  · split at hb
    · have hlead : 0x80 ≤ (0xE0 + n / 4096).toUInt8.toNat := by
        rw [toNat_toUInt8 (by omega)]
        omega
      simp only [List.mem_cons, List.not_mem_nil, or_false] at hb
      rcases hb with rfl | rfl | rfl
      · exact hlead
      · exact htail _
      · exact htail _
    · have hlead : 0x80 ≤ (0xF0 + n / 262144).toUInt8.toNat := by
        rw [toNat_toUInt8 (by omega)]
        omega
      simp only [List.mem_cons, List.not_mem_nil, or_false] at hb
      rcases hb with rfl | rfl | rfl | rfl
      · exact hlead
      · exact htail _
      · exact htail _
      · exact htail _

/-- A byte of ASCII stands for its character only. -/
theorem eq_toUInt8_iff (a : Char) {c : Char} (ha : a.toNat < 0x80) {b : UInt8}
    (hb : b ∈ encodeChar c) :
    b = a.toNat.toUInt8 ↔ c = a := by
  have hbyte : a.toNat.toUInt8.toNat = a.toNat := toNat_toUInt8 (by omega)
  rcases Nat.lt_or_ge c.toNat 0x80 with hc | hc
  · rw [encodeChar_of_lt hc, List.mem_singleton] at hb
    have hbyte' : c.toNat.toUInt8.toNat = c.toNat := toNat_toUInt8 (by omega)
    rw [hb, ← UInt8.toNat_inj, hbyte, hbyte']
    exact Char.toNat_inj
  · have hle := le_of_mem_encodeChar hc hb
    constructor
    · rintro rfl
      omega
    · rintro rfl
      omega

end Utf8

/-! ### Lines -/

namespace Text

/-- The characters that end a line of bytes as well: line feed and carriage return. -/
def isPlainEnd (c : Char) : Bool := c == '\n' || c == '\r'

/-- The lines of a text that is cut at line feeds and carriage returns only. -/
def plainLines (s : List Char) : List (List Char) := Lines.cut isPlainEnd '\r' '\n' s

end Text

namespace Lines

variable {α : Type} [DecidableEq α] {ends ends' : α → Bool} {cr lf : α}

/-- Symbols that end no line stand in front of the first line. -/
theorem cut_append {l : List α} (hne : l ≠ []) (hl : ∀ c ∈ l, ends c = false) (r : List α) :
    cut ends cr lf (l ++ r) = match cut ends cr lf r with
      | [] => [l]
      | m :: ms => (l ++ m) :: ms := by
  induction l with
  | nil => exact absurd rfl hne
  | cons c l ih =>
    have hc : ends c = false := hl c List.mem_cons_self
    rw [List.cons_append, cut, if_neg (by simp [hc])]
    cases l with
    | nil =>
      rw [List.nil_append]
      cases cut ends cr lf r <;> rfl
    | cons d l =>
      rw [ih (by simp) fun e he => hl e (List.mem_cons_of_mem _ he)]
      cases cut ends cr lf r <;> rfl

/-- Only the symbols of a list decide where it is cut. -/
theorem cut_congr {s : List α} (h : ∀ c ∈ s, ends c = ends' c) :
    cut ends cr lf s = cut ends' cr lf s := by
  induction s with
  | nil => rfl
  | cons c s ih =>
    rw [cut, cut, h c List.mem_cons_self, ih fun d hd => h d (List.mem_cons_of_mem _ hd)]

end Lines

theorem Bytes.isLineEnd_of_mem_encodeChar {c : Char} {b : UInt8} (hb : b ∈ Utf8.encodeChar c) :
    Bytes.isLineEnd b = Text.isPlainEnd c := by
  have hfeed : b = 10 ↔ c = '\n' := Utf8.eq_toUInt8_iff '\n' (by decide) hb
  have hreturn : b = 13 ↔ c = '\r' := Utf8.eq_toUInt8_iff '\r' (by decide) hb
  rw [Bytes.isLineEnd, Text.isPlainEnd, Bool.eq_iff_iff]
  simp only [Bool.or_eq_true, beq_iff_eq, hfeed, hreturn]

/-- **The lines of the bytes of a text are the bytes of its lines**, if both are cut at
line feeds and carriage returns. -/
theorem Bytes.lines_encode (s : List Char) :
    Bytes.lines (Utf8.encode s) = (Text.plainLines s).map Utf8.encode := by
  unfold Bytes.lines Text.plainLines
  induction s with
  | nil => rfl
  | cons c s ih =>
    rw [Utf8.encode_cons]
    cases hc : Text.isPlainEnd c with
    | false =>
      have hne : Utf8.encodeChar c ≠ [] := by
        obtain ⟨b, bs, hchar, -⟩ := Utf8.step_encodeChar c []
        rw [hchar]
        exact List.cons_ne_nil b bs
      rw [Lines.cut_append hne fun b hb => (isLineEnd_of_mem_encodeChar hb).trans hc, ih,
        Lines.cut, if_neg (by simp [hc])]
      cases Lines.cut Text.isPlainEnd '\r' '\n' s with
      | nil => simp [Lines.consLine, Utf8.encode]
      | cons l ls => simp [Lines.consLine, Utf8.encode]
    | true =>
      -- a line end is one byte, and a line feed behind it is one as well
      have hlt : c.toNat < 0x80 := by
        simp only [Text.isPlainEnd, Bool.or_eq_true, beq_iff_eq] at hc
        rcases hc with rfl | rfl <;> decide
      have hmem : c.toNat.toUInt8 ∈ Utf8.encodeChar c := by
        rw [Utf8.encodeChar_of_lt hlt]
        exact List.mem_singleton_self _
      have hreturn : c.toNat.toUInt8 = 13 ↔ c = '\r' := Utf8.eq_toUInt8_iff '\r' (by decide) hmem
      have hfeed : (Utf8.encode s).head? = some 10 ↔ s.head? = some '\n' := by
        cases s with
        | nil => simp [Utf8.encode]
        | cons d s =>
          obtain ⟨b, bs, hchar, -⟩ := Utf8.step_encodeChar d []
          have hb : b = 10 ↔ d = '\n' :=
            Utf8.eq_toUInt8_iff '\n' (by decide) (by rw [hchar]; exact List.mem_cons_self)
          rw [Utf8.encode_cons, hchar]
          simp [hb]
      rw [Utf8.encodeChar_of_lt hlt, List.singleton_append, Lines.cut,
        isLineEnd_of_mem_encodeChar hmem, if_pos hc, Lines.cut, if_pos hc, ih]
      simp only [hreturn, hfeed]
      split <;> rfl

end ImagePipeline
