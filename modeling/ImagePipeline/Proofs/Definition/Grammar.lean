import ImagePipeline.Proofs.Definition.Declaration

/-!
# The grammar of definition lines

Which lines declare a node is said by a grammar that knows nothing of the order in
which a line is checked, and the reader of lines is shown to accept exactly that
grammar.

## Main definitions

* `IsSkipped` — blank lines and comments.
* `DeclaresWord` — a line with one equals sign between the tag and one word.
* `Declares` — the grammar of the lines that declare a node.
* `kindOfCount` — the kind of a line by the number of its equals signs.

## Main results

* `readPlain_eq_ok_iff`, `readParameterized_eq_ok_iff` — the two readers of
  declarations.
* `located_of_readLine` — an error names the line that it is about.
* `readLine_iff_declares` — the reader of lines accepts exactly the grammar.
-/

namespace ImagePipeline
namespace Definition

open Text Numeral

/-! ### The grammar -/

/-- A blank line or a comment. -/
def IsSkipped (line : List Char) : Prop := trim line = [] ∨ (trim line).head? = some '#'

/-- A line with one equals sign, the tag in front of it and one word behind it. -/
def DeclaresWord (line word : List Char) : Prop :=
  ∃ a b, line = a ++ '=' :: b ∧ '=' ∉ a ∧ '=' ∉ b ∧ trim a = "node".toList ∧ words b = [word]

/-- **The grammar of definition lines**: the node that a line declares, and the
fallbacks on the way, of which a strict reading has none. -/
inductive Declares (strict : Bool) (number : ℤ) (line : List Char) : Node → List Fallback → Prop
  /-- The keyword of a kind without parameters. -/
  | plain {k : Kind} (hk : k ∈ [Kind.greyscale, .normalise, .vignette])
      (hline : DeclaresWord line k.keyword.toList) : Declares strict number line k.plain []
  /-- The noise keyword and a finite amount. -/
  | noise {value : List Char} {x : Binary64}
      (hline : words line = ["node=noise".toList, "noise_amount=".toList ++ value])
      (hvalue : readReal value = .ok x) (hfinite : x.isFinite = true) :
      Declares strict number line (.noise (.real x) none) []
  /-- The crop keyword, the corner and the size. -/
  | crop {origin size : List Char} {r : Region}
      (hline : words line =
        ["node=crop".toList, "origin=".toList ++ origin, "size=".toList ++ size])
      (horigin : IsPair origin r.x r.y) (hsize : IsPair size r.width r.height) :
      Declares strict number line (.crop r) []
  /-- An unknown keyword without parameters. -/
  | plainFallback {keyword : String} (hstrict : strict = false) (hunknown : IsUnknown keyword)
      (hline : DeclaresWord line keyword.toList) :
      Declares strict number line .vignette [⟨number, keyword, .vignette⟩]
  /-- An unknown keyword with the parameters of a crop. -/
  | cropFallback {keyword : String} {origin size : List Char} {r : Region}
      (hstrict : strict = false) (hunknown : IsUnknown keyword) (hne : keyword.toList ≠ [])
      (hline : words line =
        ["node=".toList ++ keyword.toList, "origin=".toList ++ origin, "size=".toList ++ size])
      (horigin : IsPair origin r.x r.y) (hsize : IsPair size r.width r.height) :
      Declares strict number line (.crop r) [⟨number, keyword, .crop⟩]

/-! ### Lines and their ends -/

theorem not_isSkipped_of_find? {line : List Char}
    (h : line.find? (fun c => !isBlank c) = some 'n') : ¬ IsSkipped line := by
  rw [← head?_trim] at h
  rintro (htrim | htrim)
  · rw [htrim] at h
    exact absurd h (by simp)
  · rw [htrim] at h
    exact absurd h (by decide)

theorem DeclaresWord.not_isSkipped {line word : List Char} (h : DeclaresWord line word) :
    ¬ IsSkipped line := by
  obtain ⟨a, b, rfl, -, -, htrim, -⟩ := h
  apply not_isSkipped_of_find?
  have ha : a.find? (fun c => !isBlank c) = some 'n' := by rw [← head?_trim, htrim]; rfl
  rw [List.find?_append, ha, Option.some_or]

theorem DeclaresWord.count_eq_one {line word : List Char} (h : DeclaresWord line word) :
    line.count '=' = 1 := by
  obtain ⟨a, b, rfl, ha, hb, -⟩ := h
  rw [List.count_append, List.count_cons_self, List.count_eq_zero_of_not_mem ha,
    List.count_eq_zero_of_not_mem hb]

theorem not_isSkipped_of_words {line w : List Char} {ws : List (List Char)}
    (h : words line = ("node=".toList ++ w) :: ws) : ¬ IsSkipped line := by
  apply not_isSkipped_of_find?
  rw [← List.head?_filter, ← flatten_words, h]
  rfl

/-- Blanks at the end do not change what a line declares. -/
theorem declaresWord_append_iff {line t word : List Char} (ht : ∀ c ∈ t, isBlank c = true) :
    DeclaresWord (line ++ t) word ↔ DeclaresWord line word := by
  have hmem : '=' ∉ t := fun h => absurd (ht '=' h) (by decide)
  constructor
  · rintro ⟨a, b, hline, ha, hb, htrim, hwords⟩
    cases hcut : cutFirst '=' line with
    | none =>
      have hno : '=' ∉ line ++ t := by
        rw [List.mem_append, not_or]
        exact ⟨cutFirst_eq_none_iff.mp hcut, hmem⟩
      exact absurd (by rw [hline]; simp) hno
    | some p =>
      -- the sign stands in front of the blanks, so these belong to what is behind it
      obtain ⟨a', b'⟩ := p
      obtain ⟨rfl, ha'⟩ := eq_of_cutFirst hcut
      have hsame : cutFirst '=' (a ++ '=' :: b) = some (a', b' ++ t) := by
        rw [← hline, List.append_assoc, List.cons_append, cutFirst_append _ ha']
      rw [cutFirst_append b ha] at hsame
      obtain ⟨rfl, rfl⟩ := Prod.mk.inj (Option.some.inj hsame)
      rw [words_append_of_blank b' ht] at hwords
      exact ⟨a, b', rfl, ha, fun h => hb (List.mem_append_left _ h), htrim, hwords⟩
  · rintro ⟨a, b, rfl, ha, hb, htrim, hwords⟩
    refine ⟨a, b ++ t, by simp, ha, ?_, htrim, ?_⟩
    · rw [List.mem_append, not_or]
      exact ⟨hb, hmem⟩
    · rw [words_append_of_blank b ht, hwords]

theorem declaresWord_chomp_iff {text word : List Char} :
    DeclaresWord (chomp text) word ↔ DeclaresWord text word := by
  obtain ⟨t, hst, ht⟩ := exists_eq_chomp_append text
  conv_rhs => rw [hst]
  exact (declaresWord_append_iff ht).symm

theorem isSkipped_chomp_iff {text : List Char} : IsSkipped (chomp text) ↔ IsSkipped text := by
  rw [IsSkipped, IsSkipped, trim_chomp]

theorem declares_chomp_iff {strict : Bool} {number : ℤ} {text : List Char} {node : Node}
    {ws : List Fallback} :
    Declares strict number (chomp text) node ws ↔ Declares strict number text node ws := by
  constructor
  · rintro (⟨hk, hline⟩ | ⟨hline, hvalue, hfinite⟩ | ⟨hline, horigin, hsize⟩ |
      ⟨hstrict, hunknown, hline⟩ | ⟨hstrict, hunknown, hne, hline, horigin, hsize⟩)
    · exact .plain hk (declaresWord_chomp_iff.mp hline)
    · exact .noise (words_chomp text ▸ hline) hvalue hfinite
    · exact .crop (words_chomp text ▸ hline) horigin hsize
    · exact .plainFallback hstrict hunknown (declaresWord_chomp_iff.mp hline)
    · exact .cropFallback hstrict hunknown hne (words_chomp text ▸ hline) horigin hsize
  · rintro (⟨hk, hline⟩ | ⟨hline, hvalue, hfinite⟩ | ⟨hline, horigin, hsize⟩ |
      ⟨hstrict, hunknown, hline⟩ | ⟨hstrict, hunknown, hne, hline, horigin, hsize⟩)
    · exact .plain hk (declaresWord_chomp_iff.mpr hline)
    · exact .noise ((words_chomp text).symm ▸ hline) hvalue hfinite
    · exact .crop ((words_chomp text).symm ▸ hline) horigin hsize
    · exact .plainFallback hstrict hunknown (declaresWord_chomp_iff.mpr hline)
    · exact .cropFallback hstrict hunknown hne ((words_chomp text).symm ▸ hline) horigin hsize

/-! ### The kind of a line -/

theorem classify_of_isSkipped {line : List Char} (h : IsSkipped line) :
    classify line = .ok .skip := by
  unfold IsSkipped at h
  rw [classify, if_pos h]

/-- The kind of a line that is not skipped, by the number of its equals signs. -/
def kindOfCount : ℕ → Except Reason LineKind
  | 0 => .error .noDeclaration
  | 1 => .ok .parameterless
  | _ => .ok .parameterized

theorem classify_of_not_isSkipped {line : List Char} (h : ¬ IsSkipped line) :
    classify line = kindOfCount (line.count '=') := by
  unfold IsSkipped at h
  rw [classify, if_neg h, count_trim (by decide)]
  rfl

theorem classify_of_count_eq_one {line : List Char} (h : ¬ IsSkipped line)
    (hcount : line.count '=' = 1) : classify line = .ok .parameterless := by
  rw [classify_of_not_isSkipped h, hcount]
  rfl

theorem classify_of_two_le_count {line : List Char} (h : ¬ IsSkipped line)
    (hcount : 2 ≤ line.count '=') : classify line = .ok .parameterized := by
  obtain ⟨n, hn⟩ := Nat.exists_eq_add_of_le' hcount
  rw [classify_of_not_isSkipped h, hn]
  rfl

theorem classify_eq_skip_iff {line : List Char} :
    classify line = .ok .skip ↔ IsSkipped line := by
  refine ⟨fun h => ?_, classify_of_isSkipped⟩
  by_contra hskip
  rw [classify_of_not_isSkipped hskip] at h
  unfold kindOfCount at h
  split at h <;> simp at h

theorem classify_eq_parameterless_iff {line : List Char} :
    classify line = .ok .parameterless ↔ ¬ IsSkipped line ∧ line.count '=' = 1 := by
  refine ⟨fun h => ?_, fun h => classify_of_count_eq_one h.1 h.2⟩
  by_cases hskip : IsSkipped line
  · rw [classify_of_isSkipped hskip] at h
    exact absurd h (by simp)
  · rw [classify_of_not_isSkipped hskip] at h
    unfold kindOfCount at h
    split at h
    · exact absurd h (by simp)
    · next hcount => exact ⟨hskip, hcount⟩
    · exact absurd h (by simp)

theorem classify_eq_parameterized_iff {line : List Char} :
    classify line = .ok .parameterized ↔ ¬ IsSkipped line ∧ 2 ≤ line.count '=' := by
  refine ⟨fun h => ?_, fun h => classify_of_two_le_count h.1 h.2⟩
  by_cases hskip : IsSkipped line
  · rw [classify_of_isSkipped hskip] at h
    exact absurd h (by simp)
  · rw [classify_of_not_isSkipped hskip] at h
    unfold kindOfCount at h
    split at h
    · exact absurd h (by simp)
    · exact absurd h (by simp)
    · next hzero hone => exact ⟨hskip, (Nat.two_le_iff _).mpr ⟨hzero, hone⟩⟩

/-! ### The two readers of declarations -/

/-- A kind without parameters that is built in is one of three. -/
theorem mem_builtIn_iff_plain {k : Kind} :
    (k ∈ Kind.builtIn ∧ k.isParameterized = false) ↔
      k ∈ [Kind.greyscale, .normalise, .vignette] := by
  cases k with
  | custom c => simp [Kind.builtIn]
  | _ => decide

/-- With one equals sign, the keyword of a declaration is its one word. -/
theorem declaredKeyword_word_iff {line : List Char} {keyword : String}
    (hcount : line.count '=' = 1) :
    declaredKeyword line = .ok keyword ↔ DeclaresWord line keyword.toList := by
  rw [declaredKeyword_eq_ok_iff]
  constructor
  · rintro ⟨a, b, rfl, ha, htrim, hwords⟩
    refine ⟨a, b, rfl, ha, ?_, htrim, hwords⟩
    rw [List.count_append, List.count_cons_self, List.count_eq_zero_of_not_mem ha] at hcount
    exact List.count_eq_zero.mp (by omega)
  · rintro ⟨a, b, hline, ha, -, htrim, hwords⟩
    exact ⟨a, b, hline, ha, htrim, hwords⟩

/-- A line with one equals sign is read by its one word. -/
theorem readPlain_eq_ok_iff {strict : Bool} {number : ℤ} {line : List Char} {node : Node}
    {ws : List Fallback} (hcount : line.count '=' = 1) :
    readPlain .standard strict number line = ⟨ws, .ok node⟩ ↔
      ∃ keyword k, DeclaresWord line keyword.toList ∧
        resolve .standard strict plainFallback number line keyword = ⟨ws, .ok k⟩ ∧
        k.isParameterized = false ∧ node = k.plain := by
  rw [readPlain, Reading.andThen_eq_ok_iff]
  constructor
  · rintro ⟨ws₁, keyword, ws₂, hkeyword, hrest, rfl⟩
    obtain ⟨ws₃, k, ws₄, hk, hnode, rfl⟩ := Reading.andThen_eq_ok_iff.mp hrest
    obtain ⟨hdeclared, rfl⟩ := about_eq_ok_iff.mp hkeyword
    obtain ⟨hmade, rfl⟩ := about_eq_ok_iff.mp hnode
    rw [List.nil_append, List.append_nil]
    exact ⟨keyword, k, (declaredKeyword_word_iff hcount).mp hdeclared, hk,
      plainNode_eq_ok_iff.mp hmade⟩
  · rintro ⟨keyword, k, hword, hk, hmade⟩
    refine ⟨[], keyword, ws, about_eq_ok_iff.mpr ⟨?_, rfl⟩, ?_, rfl⟩
    · exact (declaredKeyword_word_iff hcount).mpr hword
    · exact Reading.andThen_eq_ok_iff.mpr ⟨ws, k, [], hk,
        about_eq_ok_iff.mpr ⟨plainNode_eq_ok_iff.mpr hmade, rfl⟩, (List.append_nil ws).symm⟩

/-- Any other line is read by its first word, and the others are arguments. -/
theorem readParameterized_eq_ok_iff {strict : Bool} {number : ℤ} {line : List Char} {node : Node}
    {ws : List Fallback} :
    readParameterized .standard strict number line = ⟨ws, .ok node⟩ ↔
      ∃ keyword k arguments, words line = ("node=".toList ++ keyword.toList) :: arguments ∧
        keyword.toList ≠ [] ∧
        resolve .standard strict parameterizedFallback number line keyword = ⟨ws, .ok k⟩ ∧
        parameterizedNode k keyword arguments = .ok node := by
  have hfirst : ∀ {token rest}, words line = token :: rest → ∀ c ∈ token, isBlank c = false :=
    fun h => (ne_nil_and_not_blank_of_mem_words (s := line) (by rw [h]; simp)).2
  rw [readParameterized, Reading.andThen_eq_ok_iff]
  constructor
  · rintro ⟨ws₁, keyword, ws₂, hkeyword, hrest, rfl⟩
    obtain ⟨ws₃, k, ws₄, hk, hnode, rfl⟩ := Reading.andThen_eq_ok_iff.mp hrest
    obtain ⟨hdeclared, rfl⟩ := about_eq_ok_iff.mp hkeyword
    obtain ⟨hmade, rfl⟩ := about_eq_ok_iff.mp hnode
    rw [List.nil_append, List.append_nil]
    cases hwords : words line with
    | nil =>
      rw [hwords, List.headD_nil] at hdeclared
      obtain ⟨a, b, hab, -⟩ := declaredKeyword_eq_ok_iff.mp hdeclared
      exact absurd hab (by simp)
    | cons token arguments =>
      rw [hwords] at hdeclared hmade
      obtain ⟨rfl, hne⟩ := (declaredKeyword_token_iff (hfirst hwords)).mp hdeclared
      exact ⟨keyword, k, arguments, rfl, hne, hk, hmade⟩
  · rintro ⟨keyword, k, arguments, hwords, hne, hk, hmade⟩
    refine ⟨[], keyword, ws, about_eq_ok_iff.mpr ⟨?_, rfl⟩, ?_, rfl⟩
    · rw [hwords]
      exact (declaredKeyword_token_iff (hfirst hwords)).mpr ⟨rfl, hne⟩
    · refine Reading.andThen_eq_ok_iff.mpr ⟨ws, k, [], hk, about_eq_ok_iff.mpr ⟨?_, rfl⟩,
        (List.append_nil ws).symm⟩
      rw [hwords]
      exact hmade

theorem readLine_of_classify {r : Registry} {strict : Bool} {number : ℤ} {text : List Char}
    {kind : LineKind} (h : classify (chomp text) = .ok kind) :
    readLine r strict number text = match kind with
      | .skip => .done none
      | .parameterless =>
        (readPlain r strict number (chomp text)).andThen fun n => .done (some n)
      | .parameterized =>
        (readParameterized r strict number (chomp text)).andThen fun n => .done (some n) := by
  simp only [readLine, about, h, Reading.done_andThen]
  cases kind <;> rfl

theorem readLine_of_classify_error {r : Registry} {strict : Bool} {number : ℤ} {text : List Char}
    {reason : Reason} (h : classify (chomp text) = .error reason) :
    readLine r strict number text = .failed ⟨number, chomp text, reason⟩ := by
  simp only [readLine, about, h, Reading.failed_andThen]

theorem readLine_eq_some_iff {strict : Bool} {number : ℤ} {text : List Char} {node : Node}
    {ws : List Fallback} :
    readLine .standard strict number text = ⟨ws, .ok (some node)⟩ ↔
      (classify (chomp text) = .ok .parameterless ∧
        readPlain .standard strict number (chomp text) = ⟨ws, .ok node⟩) ∨
      (classify (chomp text) = .ok .parameterized ∧
        readParameterized .standard strict number (chomp text) = ⟨ws, .ok node⟩) := by
  have hsome : ∀ r : Reading Node, (r.andThen fun n => .done (some n)) = ⟨ws, .ok (some node)⟩ ↔
      r = ⟨ws, .ok node⟩ := by
    rintro ⟨vs, result⟩
    cases result <;> simp [Reading.andThen, Reading.done]
  cases hclass : classify (chomp text) with
  | error e => simp [readLine_of_classify_error hclass, Reading.failed]
  | ok kind =>
    rw [readLine_of_classify hclass]
    cases kind with
    | skip => simp [Reading.done]
    | parameterless => simp [hsome]
    | parameterized => simp [hsome]

/-! ### The reader and the grammar -/

/-- A line with one word behind its one equals sign declares the kind of the word. -/
theorem readLine_of_declaresWord {strict : Bool} {number : ℤ} {text : List Char}
    {keyword : String} {k : Kind} {ws : List Fallback} (hword : DeclaresWord text keyword.toList)
    (hk : resolve .standard strict plainFallback number (chomp text) keyword = ⟨ws, .ok k⟩)
    (hplain : k.isParameterized = false) :
    readLine .standard strict number text = ⟨ws, .ok (some k.plain)⟩ := by
  have hword' := declaresWord_chomp_iff.mpr hword
  refine readLine_eq_some_iff.mpr (Or.inl ⟨?_, ?_⟩)
  · exact classify_of_count_eq_one hword'.not_isSkipped hword'.count_eq_one
  · exact (readPlain_eq_ok_iff hword'.count_eq_one).mpr ⟨keyword, k, hword', hk, hplain, rfl⟩

/-- A line with arguments that make a node of the kind of its keyword declares that
node. -/
theorem readLine_of_words {strict : Bool} {number : ℤ} {text : List Char} (keyword : String)
    {k : Kind} {arguments : List (List Char)} {node : Node} {ws : List Fallback}
    (hwords : words text = ("node=".toList ++ keyword.toList) :: arguments)
    (hne : keyword.toList ≠ []) (harguments : ∃ argument ∈ arguments, '=' ∈ argument)
    (hk : resolve .standard strict parameterizedFallback number (chomp text) keyword = ⟨ws, .ok k⟩)
    (hmade : parameterizedNode k keyword arguments = .ok node) :
    readLine .standard strict number text = ⟨ws, .ok (some node)⟩ := by
  have hwords' : words (chomp text) = ("node=".toList ++ keyword.toList) :: arguments := by
    rw [words_chomp, hwords]
  refine readLine_eq_some_iff.mpr (Or.inr ⟨?_, ?_⟩)
  · -- one sign stands in the first word, and one in an argument
    refine classify_of_two_le_count (not_isSkipped_of_words hwords') ?_
    obtain ⟨argument, hmem, heq⟩ := harguments
    have hfirst : 0 < ("node=".toList ++ keyword.toList).count '=' :=
      List.count_pos_iff.mpr (List.mem_append_left _ (by decide))
    have hrest : 0 < arguments.flatten.count '=' :=
      List.count_pos_iff.mpr (List.mem_flatten.mpr ⟨argument, hmem, heq⟩)
    rw [← count_flatten_words (by decide), hwords', List.flatten_cons, List.count_append]
    omega
  · exact readParameterized_eq_ok_iff.mpr ⟨keyword, k, arguments, hwords', hne, hk, hmade⟩

/-- What the grammar derives is read. -/
theorem Declares.readLine_eq {strict : Bool} {number : ℤ} {text : List Char} {node : Node}
    {ws : List Fallback} (h : Declares strict number text node ws) :
    readLine .standard strict number text = ⟨ws, .ok (some node)⟩ := by
  cases h with
  | plain hk hline =>
    obtain ⟨hmem, hplain⟩ := mem_builtIn_iff_plain.mpr hk
    exact readLine_of_declaresWord hline (resolve_eq_ok_iff.mpr (Or.inl ⟨hmem, rfl, rfl⟩)) hplain
  | noise hline hvalue hfinite =>
    refine readLine_of_words "noise" hline (by decide) ⟨_, List.mem_singleton_self _, ?_⟩
      (resolve_eq_ok_iff.mpr (Or.inl ⟨by decide, rfl, rfl⟩))
      (parameterizedNode_noise_iff.mpr ⟨_, _, rfl, hvalue, hfinite, rfl⟩)
    exact List.mem_append_left _ (by decide)
  | crop hline horigin hsize =>
    refine readLine_of_words "crop" hline (by decide) ⟨_, List.mem_cons_self, ?_⟩
      (resolve_eq_ok_iff.mpr (Or.inl ⟨by decide, rfl, rfl⟩))
      (parameterizedNode_crop_iff.mpr ⟨_, _, _, rfl, horigin, hsize, rfl⟩)
    exact List.mem_append_left _ (by decide)
  | plainFallback hstrict hunknown hline =>
    exact readLine_of_declaresWord hline
      (resolve_eq_ok_iff.mpr (Or.inr ⟨hunknown, hstrict, rfl, rfl⟩)) rfl
  | cropFallback hstrict hunknown hne hline horigin hsize =>
    refine readLine_of_words _ hline hne ⟨_, List.mem_cons_self, ?_⟩
      (resolve_eq_ok_iff.mpr (Or.inr ⟨hunknown, hstrict, rfl, rfl⟩))
      (parameterizedNode_crop_iff.mpr ⟨_, _, _, rfl, horigin, hsize, rfl⟩)
    exact List.mem_append_left _ (by decide)

/-- A kind with parameters that is built in makes a noise node or a crop node. -/
theorem parameterizedNode_cases {k : Kind} (hk : k ∈ Kind.builtIn) {keyword : String}
    {arguments : List (List Char)} {node : Node}
    (h : parameterizedNode k keyword arguments = .ok node) :
    (k = .noise ∧ ∃ value x, arguments = ["noise_amount=".toList ++ value] ∧
      readReal value = .ok x ∧ x.isFinite = true ∧ node = .noise (.real x) none) ∨
    (k = .crop ∧ ∃ (origin size : List Char) (r : Region),
      arguments = ["origin=".toList ++ origin, "size=".toList ++ size] ∧
        IsPair origin r.x r.y ∧ IsPair size r.width r.height ∧ node = .crop r) := by
  cases k with
  | custom c => exact absurd hk (by simp [Kind.builtIn])
  | noise => exact Or.inl ⟨rfl, parameterizedNode_noise_iff.mp h⟩
  | crop => exact Or.inr ⟨rfl, parameterizedNode_crop_iff.mp h⟩
  | greyscale => exact absurd h (by simp [parameterizedNode, Kind.isParameterized, Kind.labels])
  | normalise => exact absurd h (by simp [parameterizedNode, Kind.isParameterized, Kind.labels])
  | vignette => exact absurd h (by simp [parameterizedNode, Kind.isParameterized, Kind.labels])

/-- What is read is derived by the grammar. -/
theorem declares_of_readLine {strict : Bool} {number : ℤ} {text : List Char} {node : Node}
    {ws : List Fallback}
    (h : readLine .standard strict number text = ⟨ws, .ok (some node)⟩) :
    Declares strict number text node ws := by
  rw [← declares_chomp_iff]
  rcases readLine_eq_some_iff.mp h with ⟨hclass, hread⟩ | ⟨hclass, hread⟩
  · obtain ⟨-, hcount⟩ := classify_eq_parameterless_iff.mp hclass
    obtain ⟨keyword, k, hline, hk, hplain, rfl⟩ := (readPlain_eq_ok_iff hcount).mp hread
    rcases resolve_eq_ok_iff.mp hk with ⟨hmem, rfl, rfl⟩ | ⟨hunknown, hstrict, rfl, rfl⟩
    · exact .plain (mem_builtIn_iff_plain.mp ⟨hmem, hplain⟩) hline
    · exact .plainFallback hstrict hunknown hline
  · obtain ⟨keyword, k, arguments, hwords, hne, hk, hmade⟩ :=
      readParameterized_eq_ok_iff.mp hread
    rcases resolve_eq_ok_iff.mp hk with ⟨hmem, rfl, rfl⟩ | ⟨hunknown, hstrict, rfl, rfl⟩
    · rcases parameterizedNode_cases hmem hmade with
        ⟨rfl, value, x, rfl, hvalue, hfinite, rfl⟩ |
        ⟨rfl, origin, size, r, rfl, horigin, hsize, rfl⟩
      · exact .noise hwords hvalue hfinite
      · exact .crop hwords horigin hsize
    · obtain ⟨origin, size, r, rfl, horigin, hsize, rfl⟩ := parameterizedNode_crop_iff.mp hmade
      exact .cropFallback hstrict hunknown hne hwords horigin hsize

/-! ### Errors -/

theorem error_of_about {α : Type} {number : ℤ} {line : List Char} {x : Except Reason α}
    {e : ParseError} (h : (about number line x).result = .error e) :
    ∃ reason, x = .error reason ∧ e = ⟨number, line, reason⟩ := by
  cases x with
  | error reason => exact ⟨reason, rfl, (Except.error.inj h).symm⟩
  | ok a => exact absurd h (by simp [about, Reading.done])

theorem error_of_resolve {r : Registry} {strict : Bool} {fallback : Kind} {number : ℤ}
    {line : List Char} {keyword : String} {e : ParseError}
    (h : (resolve r strict fallback number line keyword).result = .error e) :
    e = ⟨number, line, .unknownKeyword keyword⟩ := by
  unfold resolve at h
  split at h
  · exact absurd h (by simp [Reading.done])
  · split at h
    · exact (Except.error.inj h).symm
    · exact absurd h (by simp)

theorem mem_builtIn_of_resolve {strict : Bool} {fallback k : Kind} {number : ℤ}
    {line : List Char} {keyword : String} (hfallback : fallback ∈ Kind.builtIn)
    (h : (resolve .standard strict fallback number line keyword).result = .ok k) :
    k ∈ Kind.builtIn := by
  have hk : resolve .standard strict fallback number line keyword =
      ⟨(resolve .standard strict fallback number line keyword).fallbacks, .ok k⟩ := by rw [← h]
  rcases resolve_eq_ok_iff.mp hk with ⟨hmem, -, -⟩ | ⟨-, -, rfl, -⟩
  · exact hmem
  · exact hfallback

theorem declaredKeyword_ne_invalidValue (declaration : List Char) (v : ValueError) :
    declaredKeyword declaration ≠ .error (.invalidValue v) := by
  unfold declaredKeyword
  split
  split
  · simp
  · split <;> simp

theorem plainNode_ne_invalidValue (k : Kind) (keyword : String) (v : ValueError) :
    plainNode k keyword ≠ .error (.invalidValue v) := by
  unfold plainNode
  split <;> simp

/-- What is wrong with a line stands in one of its parts. -/
theorem error_of_readLine {r : Registry} {strict : Bool} {number : ℤ} {text : List Char}
    {e : ParseError} (h : (readLine r strict number text).result = .error e) :
    classify (chomp text) = .error .noDeclaration ∧ e = ⟨number, chomp text, .noDeclaration⟩ ∨
      (readPlain r strict number (chomp text)).result = .error e ∨
      (readParameterized r strict number (chomp text)).result = .error e := by
  have hsome : ∀ p : Reading Node,
      (p.andThen fun n => Reading.done (some n)).result = .error e → p.result = .error e := by
    intro p hp
    rcases Reading.error_of_andThen hp with hp | ⟨a, -, ha⟩
    · exact hp
    · exact absurd ha (by simp [Reading.done])
  cases hclass : classify (chomp text) with
  | error reason =>
    have hskip : ¬ IsSkipped (chomp text) := fun hs => by
      rw [classify_of_isSkipped hs] at hclass
      exact absurd hclass (by simp)
    rw [readLine_of_classify_error hclass] at h
    rw [classify_of_not_isSkipped hskip] at hclass
    unfold kindOfCount at hclass
    split at hclass
    · obtain rfl := Except.error.inj hclass
      exact Or.inl ⟨rfl, (Except.error.inj h).symm⟩
    · exact absurd hclass (by simp)
    · exact absurd hclass (by simp)
  | ok kind =>
    rw [readLine_of_classify hclass] at h
    cases kind with
    | skip => exact absurd h (by simp [Reading.done])
    | parameterless => exact Or.inr (Or.inl (hsome _ h))
    | parameterized => exact Or.inr (Or.inr (hsome _ h))

theorem located_of_about {α : Type} {number : ℤ} {line : List Char} {x : Except Reason α}
    {e : ParseError} (h : (about number line x).result = .error e)
    (hx : ∀ label, x ≠ .error (.invalidValue (.missing label))) :
    ∃ reason, e = ⟨number, line, reason⟩ ∧ ∀ label, reason ≠ .invalidValue (.missing label) := by
  obtain ⟨reason, rfl, rfl⟩ := error_of_about h
  refine ⟨reason, rfl, ?_⟩
  rintro label rfl
  exact hx label rfl

/-- An error names the line that it is about, and no label has been looked up in vain. -/
theorem located_of_readLine {strict : Bool} {number : ℤ} {text : List Char} {e : ParseError}
    (h : (readLine .standard strict number text).result = .error e) :
    ∃ reason, e = ⟨number, chomp text, reason⟩ ∧
      ∀ label, reason ≠ .invalidValue (.missing label) := by
  rcases error_of_readLine h with ⟨-, rfl⟩ | h | h
  · exact ⟨_, rfl, by simp⟩
  · rcases Reading.error_of_andThen h with h | ⟨keyword, -, h⟩
    · exact located_of_about h fun _ => declaredKeyword_ne_invalidValue _ _
    · rcases Reading.error_of_andThen h with h | ⟨k, -, h⟩
      · exact ⟨_, error_of_resolve h, by simp⟩
      · exact located_of_about h fun _ => plainNode_ne_invalidValue k keyword _
  · rcases Reading.error_of_andThen h with h | ⟨keyword, -, h⟩
    · exact located_of_about h fun _ => declaredKeyword_ne_invalidValue _ _
    · rcases Reading.error_of_andThen h with h | ⟨k, hk, h⟩
      · exact ⟨_, error_of_resolve h, by simp⟩
      · -- only values that are looked up by their labels could be missing
        have hmem := mem_builtIn_of_resolve (by decide) hk
        exact located_of_about h (parameterizedNode_ne_missing hmem keyword _)

/-! ### The main result -/

theorem readLine_eq_none_iff {r : Registry} {strict : Bool} {number : ℤ} {text : List Char} :
    (readLine r strict number text).result = .ok none ↔ IsSkipped text := by
  have hsome : ∀ p : Reading Node, (p.andThen fun n => .done (some n)).result ≠ .ok none := by
    rintro ⟨vs, result⟩
    cases result <;> simp [Reading.andThen, Reading.done]
  rw [← isSkipped_chomp_iff, ← classify_eq_skip_iff]
  cases hclass : classify (chomp text) with
  | error reason => simp [readLine_of_classify_error hclass, Reading.failed]
  | ok kind =>
    rw [readLine_of_classify hclass]
    cases kind with
    | skip => simp [Reading.done]
    | parameterless => simpa using hsome _
    | parameterized => simpa using hsome _

/-- **The reader of lines accepts exactly the grammar.**  A line declares nothing
exactly if it is blank or a comment; it declares a node exactly if the grammar
derives the node from it; any other line is an error that carries the number and the
text of the line, the cause of which is never a missing label.  A line with
parameters always has a first word. -/
theorem readLine_iff_declares (strict : Bool) (number : ℤ) (text : List Char) :
    ((readLine .standard strict number text).result = .ok none ↔ IsSkipped text) ∧
    (∀ node ws, readLine .standard strict number text = ⟨ws, .ok (some node)⟩ ↔
      Declares strict number text node ws) ∧
    ((∃ reason, (readLine .standard strict number text).result =
        .error ⟨number, chomp text, reason⟩ ∧ ∀ label, reason ≠ .invalidValue (.missing label)) ↔
      ¬ IsSkipped text ∧ ∀ node ws, ¬ Declares strict number text node ws) ∧
    ¬ (classify (chomp text) = .ok .parameterized ∧ words (chomp text) = []) := by
  have hnode : ∀ node ws, readLine .standard strict number text = ⟨ws, .ok (some node)⟩ ↔
      Declares strict number text node ws :=
    fun node ws => ⟨declares_of_readLine, Declares.readLine_eq⟩
  refine ⟨readLine_eq_none_iff, hnode, ⟨?_, ?_⟩, ?_⟩
  · rintro ⟨reason, herror, -⟩
    constructor
    · intro hskip
      rw [readLine_eq_none_iff.mpr hskip] at herror
      exact absurd herror (by simp)
    · intro node ws hd
      rw [(hnode node ws).mpr hd] at herror
      exact absurd herror (by simp)
  · rintro ⟨hskip, hno⟩
    rcases hread : readLine .standard strict number text with ⟨ws, e | _ | node⟩
    · obtain ⟨reason, rfl, hreason⟩ := located_of_readLine (congrArg Reading.result hread)
      exact ⟨reason, rfl, hreason⟩
    · exact absurd (readLine_eq_none_iff.mp (congrArg Reading.result hread)) hskip
    · exact absurd ((hnode node ws).mp hread) (hno node ws)
  · -- the equals signs of a line stand in its words, so there is one
    rintro ⟨hclass, hwords⟩
    obtain ⟨-, hcount⟩ := classify_eq_parameterized_iff.mp hclass
    rw [← count_flatten_words (by decide), hwords] at hcount
    exact absurd hcount (by simp)

end Definition
end ImagePipeline
