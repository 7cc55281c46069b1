import ImagePipeline.Text.Blank
import ImagePipeline.Text.Lines
import ImagePipeline.Text.Split
import Mathlib.Data.List.DropRight
import Mathlib.Data.List.TakeWhile

/-!
# Blanks at the ends, and the words in between

How trimming, cutting into words and cutting into lines see a text: blanks at its
end are invisible to all of them, the words hold its other characters in order, and
a text put together from words and single blanks is cut into those words again.

## Main results

* `flatten_words` — the words hold the characters that are not blank.
* `words_append_of_blank`, `trim_append_of_blank` — blanks at the end do not count.
* `words_append_cons` — a word in front of a blank is the first word.
* `head?_trim` — a trimmed text starts with the first character that is not blank.
* `cutFirst_append` — where a list is cut is decided by the first separator.
* `splitOn_intercalate` — pieces that are put together are cut again.
* `lines_append_newline` — a line in front of a line feed is the first line.
-/

namespace ImagePipeline

/-! ### Cutting at the first separator -/

/-- A list is cut at its first separator. -/
theorem cutFirst_append {α : Type} [DecidableEq α] {x : α} {a : List α} (b : List α)
    (ha : x ∉ a) : cutFirst x (a ++ x :: b) = some (a, b) := by
  induction a with
  | nil => simp [cutFirst]
  | cons c a ih =>
    have hc : c ≠ x := fun h => ha (by simp [h])
    have ha' : x ∉ a := fun h => ha (List.mem_cons_of_mem _ h)
    rw [List.cons_append, cutFirst, if_neg hc, ih ha']
    rfl

/-- The pieces of a list without the separator are the list itself. -/
theorem splitOn_of_notMem {α : Type} [DecidableEq α] {x : α} {s : List α} (h : x ∉ s) :
    splitOn x s = [s] := by
  induction s with
  | nil => rfl
  | cons c s ih =>
    have hc : c ≠ x := fun e => h (by simp [e])
    have hs : x ∉ s := fun e => h (List.mem_cons_of_mem _ e)
    rw [splitOn, if_neg hc, ih hs]
    rfl

/-- The piece in front of the first separator comes first. -/
theorem splitOn_append {α : Type} [DecidableEq α] {x : α} {a : List α} (b : List α)
    (ha : x ∉ a) : splitOn x (a ++ x :: b) = a :: splitOn x b := by
  induction a with
  | nil => rw [List.nil_append, splitOn, if_pos rfl]
  | cons c a ih =>
    have hc : c ≠ x := fun e => ha (by simp [e])
    have ha' : x ∉ a := fun e => ha (List.mem_cons_of_mem _ e)
    rw [List.cons_append, splitOn, if_neg hc, ih ha']
    rfl

/-- A list has exactly two pieces if one separator stands between them. -/
theorem splitOn_eq_pair_iff {α : Type} [DecidableEq α] {x : α} {s a b : List α} :
    splitOn x s = [a, b] ↔ s = a ++ x :: b ∧ x ∉ a ∧ x ∉ b := by
  constructor
  · intro h
    -- there is one separator less than there are pieces
    have hcount : s.count x = 1 := by
      have hlength := length_splitOn x s
      rw [h] at hlength
      simpa using hlength.symm
    have hmem : x ∈ s := List.count_pos_iff.mp (by omega)
    cases hcut : cutFirst x s with
    | none => exact absurd hmem (cutFirst_eq_none_iff.mp hcut)
    | some p =>
      obtain ⟨a', b'⟩ := p
      obtain ⟨rfl, ha'⟩ := eq_of_cutFirst hcut
      have hb' : x ∉ b' := by
        rw [List.count_append, List.count_cons_self, List.count_eq_zero_of_not_mem ha'] at hcount
        exact List.count_eq_zero.mp (by omega)
      rw [splitOn_append b' ha', splitOn_of_notMem hb'] at h
      simp only [List.cons.injEq, and_true] at h
      obtain ⟨rfl, rfl⟩ := h
      exact ⟨rfl, ha', hb'⟩
  · rintro ⟨rfl, ha, hb⟩
    rw [splitOn_append b ha, splitOn_of_notMem hb]

/-- No piece holds the separator. -/
theorem notMem_of_mem_splitOn {α : Type} [DecidableEq α] {x : α} {s p : List α}
    (hp : p ∈ splitOn x s) : x ∉ p := by
  induction s generalizing p with
  | nil =>
    obtain rfl := List.mem_singleton.mp hp
    simp
  | cons c s ih =>
    rw [splitOn] at hp
    split at hp
    · rcases List.mem_cons.mp hp with rfl | hp
      · simp
      · exact ih hp
    · next hc =>
      cases hpieces : splitOn x s with
      | nil =>
        rw [hpieces] at hp
        obtain rfl := List.mem_singleton.mp hp
        simpa using Ne.symm hc
      | cons q qs =>
        rw [hpieces] at hp ih
        rcases List.mem_cons.mp hp with rfl | hp
        · rw [List.mem_cons, not_or]
          exact ⟨Ne.symm hc, ih List.mem_cons_self⟩
        · exact ih (List.mem_cons_of_mem q hp)

/-- Separators in front make empty pieces. -/
theorem splitOn_replicate_append {α : Type} [DecidableEq α] (x : α) (n : ℕ) (s : List α) :
    splitOn x (List.replicate n x ++ s) = List.replicate n [] ++ splitOn x s := by
  induction n with
  | zero => rfl
  | succ n ih =>
    rw [List.replicate_succ, List.cons_append, splitOn, if_pos rfl, ih]
    rfl

/-- What is added behind a list without a separator at its end goes to its last piece, which is not
empty. -/
theorem exists_splitOn_append {α : Type} [DecidableEq α] {x : α} {s b : List α} (hs : s ≠ [])
    (hlast : s.getLast? ≠ some x) (hb : x ∉ b) :
    ∃ pieces a, a ≠ [] ∧ splitOn x (s ++ b) = pieces ++ [a ++ b] := by
  induction s with
  | nil => exact absurd rfl hs
  | cons c s ih =>
    cases s with
    | nil =>
      have hc : x ≠ c := fun h => hlast (by rw [h]; rfl)
      have hnot : x ∉ c :: b := List.not_mem_cons_of_ne_of_not_mem hc hb
      exact ⟨[], [c], List.cons_ne_nil c [], splitOn_of_notMem hnot⟩
    | cons d s =>
      obtain ⟨pieces, a, ha, hsplit⟩ := ih (List.cons_ne_nil d s) (by simpa using hlast)
      rw [List.cons_append, splitOn, hsplit]
      split
      · exact ⟨[] :: pieces, a, ha, rfl⟩
      · cases pieces with
        | nil => exact ⟨[], c :: a, List.cons_ne_nil c a, rfl⟩
        | cons p ps => exact ⟨(c :: p) :: ps, a, ha, rfl⟩

/-- Pieces that are put together are cut again. -/
theorem splitOn_intercalate {α : Type} [DecidableEq α] {x : α} {pieces : List (List α)}
    (hne : pieces ≠ []) (h : ∀ p ∈ pieces, x ∉ p) :
    splitOn x ([x].intercalate pieces) = pieces := by
  induction pieces with
  | nil => exact absurd rfl hne
  | cons p ps ih =>
    obtain ⟨hp, hps⟩ := List.forall_mem_cons.mp h
    cases ps with
    | nil => rw [List.intercalate_singleton, splitOn_of_notMem hp]
    | cons q qs =>
      rw [List.intercalate_cons_cons, List.append_assoc, List.singleton_append, splitOn_append _ hp,
        ih (by simp) hps]

namespace Text

/-- A text that passes a test has it hold of every character. -/
theorem forall_mem_of_all {p : Char → Prop} [DecidablePred p] {s : List Char}
    (h : s.all (fun c => decide (p c)) = true) : ∀ c ∈ s, p c :=
  fun c hc => of_decide_eq_true (List.all_eq_true.mp h c hc)

/-! ### Words -/

/-- A word grows by a character in front, unless a blank separates them; either way
the characters stay in order. -/
theorem flatten_consWord (c : Char) (r : List Char) (ws : List (List Char)) :
    (consWord c r ws).flatten = c :: ws.flatten := by
  unfold consWord
  split
  · split <;> simp
  · simp

/-- The words hold the characters that are not blank, in order. -/
theorem flatten_words (s : List Char) : (words s).flatten = s.filter fun c => !isBlank c := by
  induction s with
  | nil => rfl
  | cons c r ih =>
    cases hc : isBlank c with
    | true => rw [words_cons_of_isBlank hc, ih, List.filter_cons_of_neg (by simp [hc])]
    | false =>
      rw [words, if_neg (by simp [hc]), flatten_consWord, ih,
        List.filter_cons_of_pos (by simp [hc])]

/-- A character that is not blank occurs in the words as often as in the text. -/
theorem count_flatten_words {x : Char} (hx : isBlank x = false) (s : List Char) :
    (words s).flatten.count x = s.count x := by
  rw [flatten_words, List.count_filter (by simp [hx])]

/-- Words have characters, none of which is blank. -/
theorem ne_nil_and_not_blank_of_mem_words {s w : List Char} (hw : w ∈ words s) :
    w ≠ [] ∧ ∀ c ∈ w, isBlank c = false := by
  refine ⟨?_, ?_⟩
  · induction s generalizing w with
    | nil => exact absurd hw (by simp)
    | cons c r ih =>
      rw [words] at hw
      split at hw
      · exact ih hw
      · unfold consWord at hw
        split at hw
        · next d r' v vs hv =>
          -- the first word grows or is left as it is, and the others stay
          have hrest : ∀ u ∈ v :: vs, u ≠ [] := fun u hu => ih (by rw [hv]; exact hu)
          split at hw
          · rcases List.mem_cons.mp hw with rfl | hw
            · simp
            · exact hrest w hw
          · rcases List.mem_cons.mp hw with rfl | hw
            · simp
            · exact hrest w (List.mem_cons_of_mem _ hw)
        · rcases List.mem_cons.mp hw with rfl | hw
          · simp
          · exact ih hw
  · intro c hc
    have hmem : c ∈ (words s).flatten := List.mem_flatten.mpr ⟨w, hw, hc⟩
    rw [flatten_words, List.mem_filter] at hmem
    simpa using hmem.2

/-- Blanks at the end change no word. -/
theorem words_append_of_blank (s : List Char) {t : List Char} (ht : ∀ c ∈ t, isBlank c = true) :
    words (s ++ t) = words s := by
  induction s with
  | nil => exact words_of_all_isBlank ht
  | cons c r ih =>
    rw [List.cons_append, words, words, ih]
    split
    · rfl
    · -- only an empty rest can start with one of the new blanks, and it has no word
      cases r with
      | nil =>
        cases t with
        | nil => rfl
        | cons d t => simp [consWord]
      | cons d r => cases words (d :: r) <;> rfl

/-- A text without blanks is its own word. -/
theorem words_of_no_blank {w : List Char} (hne : w ≠ []) (hw : ∀ c ∈ w, isBlank c = false) :
    words w = [w] := by
  induction w with
  | nil => exact absurd rfl hne
  | cons c r ih =>
    have hc : isBlank c = false := hw c (by simp)
    rw [words, if_neg (by simp [hc])]
    cases r with
    | nil => rfl
    | cons d r =>
      have hd : isBlank d = false := hw d (by simp)
      rw [ih (by simp) fun e he => hw e (List.mem_cons_of_mem _ he)]
      simp [consWord, hd]

/-- A word in front of a blank is the first word. -/
theorem words_append_cons {w : List Char} {b : Char} (r : List Char) (hne : w ≠ [])
    (hw : ∀ c ∈ w, isBlank c = false) (hb : isBlank b = true) :
    words (w ++ b :: r) = w :: words r := by
  induction w with
  | nil => exact absurd rfl hne
  | cons c v ih =>
    have hc : isBlank c = false := hw c (by simp)
    rw [List.cons_append, words, if_neg (by simp [hc])]
    cases v with
    | nil =>
      rw [List.nil_append, words_cons_of_isBlank hb]
      cases words r <;> simp [consWord, hb]
    | cons d v =>
      have hd : isBlank d = false := hw d (by simp)
      rw [ih (by simp) fun e he => hw e (List.mem_cons_of_mem _ he)]
      simp [consWord, hd]

/-! ### Trimming -/

/-- Members satisfying `p` at the end of a list are dropped. -/
theorem dropTail_append {α : Type} {p : α → Bool} (s : List α) {t : List α}
    (ht : ∀ c ∈ t, p c = true) : dropTail p (s ++ t) = dropTail p s := by
  unfold dropTail
  rw [List.reverse_append, List.dropWhile_append_of_pos]
  intro c hc
  exact ht c (List.mem_reverse.mp hc)

/-- A list without members satisfying `p` keeps its end. -/
theorem dropTail_of_forall {α : Type} {p : α → Bool} {s : List α} (hs : ∀ c ∈ s, p c = false) :
    dropTail p s = s := by
  have h : s.reverse.dropWhile p = s.reverse := by
    rw [List.dropWhile_eq_self_iff]
    intro hl
    rw [hs _ (List.mem_reverse.mp (List.getElem_mem hl))]
    simp
  rw [dropTail, h, List.reverse_reverse]

/-- What is dropped at the end of a list satisfies `p`. -/
theorem exists_eq_dropTail_append {α : Type} (p : α → Bool) (s : List α) :
    ∃ t, s = dropTail p s ++ t ∧ ∀ c ∈ t, p c = true := by
  refine ⟨(s.reverse.takeWhile p).reverse, ?_, ?_⟩
  · rw [dropTail, ← List.reverse_append, List.takeWhile_append_dropWhile, List.reverse_reverse]
  · intro c hc
    exact List.mem_takeWhile_imp (List.mem_reverse.mp hc)

/-- Blanks at the end are trimmed. -/
theorem trim_append_of_blank (s : List Char) {t : List Char} (ht : ∀ c ∈ t, isBlank c = true) :
    trim (s ++ t) = trim s := by
  unfold trim trimRight
  rw [List.dropWhile_append]
  split
  · next h =>
    have hs : s.dropWhile isBlank = [] := by simpa using h
    have htail : t.dropWhile isBlank = [] := List.dropWhile_eq_nil_iff.mpr ht
    rw [hs, htail]
  · exact dropTail_append _ ht

/-- A text without blanks is trimmed already. -/
theorem trim_of_no_blank {s : List Char} (hs : ∀ c ∈ s, isBlank c = false) : trim s = s := by
  have hfront : s.dropWhile isBlank = s := by
    rw [List.dropWhile_eq_self_iff]
    intro hl
    rw [hs _ (List.getElem_mem hl)]
    simp
  rw [trim, trimRight, hfront, dropTail_of_forall hs]

/-- A trimmed text starts with the first character that is not blank. -/
theorem head?_trim (s : List Char) : (trim s).head? = s.find? fun c => !isBlank c := by
  rw [List.find?_not_eq_head?_dropWhile]
  obtain ⟨t, hst, ht⟩ := exists_eq_dropTail_append isBlank (s.dropWhile isBlank)
  have htrim : trim s = dropTail isBlank (s.dropWhile isBlank) := rfl
  cases hfront : s.dropWhile isBlank with
  | nil => rw [htrim, hfront]; rfl
  | cons c r =>
    -- the first character is not blank, so it is not among those dropped at the end
    have hc : ¬ isBlank c = true := by
      have h := List.dropWhile_get_zero_not isBlank s (by rw [hfront]; simp)
      simpa [hfront] using h
    rw [← htrim, hfront] at hst
    cases hmain : trim s with
    | nil =>
      rw [hmain, List.nil_append] at hst
      exact absurd (ht c (by rw [← hst]; simp)) hc
    | cons d u =>
      rw [hmain, List.cons_append] at hst
      rw [List.head?_cons, List.head?_cons, (List.cons.inj hst).1]

/-- Trimming takes away blanks only. -/
theorem count_trim {x : Char} (hx : isBlank x = false) (s : List Char) :
    (trim s).count x = s.count x := by
  obtain ⟨t, hst, ht⟩ := exists_eq_dropTail_append isBlank (s.dropWhile isBlank)
  have hfront : (s.takeWhile isBlank).count x = 0 :=
    List.count_eq_zero.mpr fun h => by simp [List.mem_takeWhile_imp h] at hx
  have htail : t.count x = 0 := List.count_eq_zero.mpr fun h => by simp [ht x h] at hx
  calc (trim s).count x = (s.dropWhile isBlank).count x := by
        conv_rhs => rw [hst, List.count_append, htail]
        rfl
    _ = s.count x := by
        conv_rhs => rw [← List.takeWhile_append_dropWhile (p := isBlank) (l := s)]
        rw [List.count_append, hfront, Nat.zero_add]

/-! ### Line ends -/

/-- What is taken off the end of a line is blank. -/
theorem exists_eq_chomp_append (s : List Char) :
    ∃ t, s = chomp s ++ t ∧ ∀ c ∈ t, isBlank c = true := by
  obtain ⟨t, hst, ht⟩ := exists_eq_dropTail_append (fun c => c == '\n' || c == '\r') s
  refine ⟨t, hst, ?_⟩
  intro c hc
  have h := ht c hc
  simp only [Bool.or_eq_true, beq_iff_eq] at h
  rcases h with rfl | rfl <;> decide

@[simp] theorem words_chomp (s : List Char) : words (chomp s) = words s := by
  obtain ⟨t, hst, ht⟩ := exists_eq_chomp_append s
  conv_rhs => rw [hst, words_append_of_blank _ ht]

@[simp] theorem trim_chomp (s : List Char) : trim (chomp s) = trim s := by
  obtain ⟨t, hst, ht⟩ := exists_eq_chomp_append s
  conv_rhs => rw [hst, trim_append_of_blank _ ht]

/-- A line in front of a line feed is the first line. -/
theorem lines_append_newline {l : List Char} (r : List Char) (hl : ∀ c ∈ l, isLineEnd c = false) :
    lines (l ++ '\n' :: r) = l :: lines r := by
  induction l with
  | nil =>
    have hend : isLineEnd '\n' = true := by decide
    have hcr : ¬ ('\n' = '\r' ∧ r.head? = some '\n') := by simp
    rw [List.nil_append, lines, Lines.cut, if_pos hend, if_neg hcr]
    rfl
  | cons c l ih =>
    have hc : isLineEnd c = false := hl c (by simp)
    have ih' := ih fun d hd => hl d (List.mem_cons_of_mem _ hd)
    rw [lines] at ih'
    rw [List.cons_append, lines, Lines.cut, if_neg (by simp [hc]), ih']
    rfl

end Text
end ImagePipeline
