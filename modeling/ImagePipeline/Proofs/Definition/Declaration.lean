import ImagePipeline.Definition.Line
import ImagePipeline.Proofs.Text.Words

/-!
# The parts of a declaration

What each part of a definition line has to look like for the readers of the parts to
succeed: the keyword, its kind, the arguments, and the values of the node.

## Main definitions

* `IsUnknown` — a keyword of no kind that is built in.
* `IsPair` — a text of two integers with an x between them.

## Main results

* `Reading.andThen_eq_ok_iff` — a reading in two parts succeeds if both do.
* `declaredKeyword_eq_ok_iff` — the keyword of a declaration.
* `resolve_eq_ok_iff` — the kind of a keyword.
* `readArguments_eq_ok_iff` — the arguments of a declaration.
* `parameterizedNode_noise_iff`, `parameterizedNode_crop_iff` — the nodes with
  parameters.
-/

namespace ImagePipeline

/-! ### Reading part after part -/

namespace Definition
namespace Reading

variable {α β : Type}

@[simp] theorem done_andThen (a : α) (f : α → Reading β) : (done a).andThen f = f a := rfl

@[simp] theorem failed_andThen (e : ParseError) (f : α → Reading β) :
    (failed e).andThen f = failed e := rfl

theorem andThen_eq_ok_iff {r : Reading α} {f : α → Reading β} {ws : List Fallback} {b : β} :
    r.andThen f = ⟨ws, .ok b⟩ ↔
      ∃ ws₁ a ws₂, r = ⟨ws₁, .ok a⟩ ∧ f a = ⟨ws₂, .ok b⟩ ∧ ws = ws₁ ++ ws₂ := by
  obtain ⟨vs, result⟩ := r
  cases result with
  | error e => simp [andThen]
  | ok a =>
    simp only [andThen, mk.injEq, Except.ok.injEq]
    constructor
    · rintro ⟨rfl, h⟩
      exact ⟨vs, a, (f a).fallbacks, ⟨rfl, rfl⟩, by rw [← h], rfl⟩
    · rintro ⟨ws₁, a', ws₂, ⟨rfl, rfl⟩, h, rfl⟩
      rw [h]
      exact ⟨rfl, rfl⟩

theorem result_andThen_eq_ok_iff {r : Reading α} {f : α → Reading β} {b : β} :
    (r.andThen f).result = .ok b ↔ ∃ a, r.result = .ok a ∧ (f a).result = .ok b := by
  obtain ⟨vs, result⟩ := r
  cases result <;> simp [andThen]

/-- A reading in two parts fails with an error of one of them. -/
theorem error_of_andThen {r : Reading α} {f : α → Reading β} {e : ParseError}
    (h : (r.andThen f).result = .error e) :
    r.result = .error e ∨ ∃ a, r.result = .ok a ∧ (f a).result = .error e := by
  obtain ⟨vs, result⟩ := r
  cases result with
  | error e' => exact Or.inl (by simpa [andThen] using h)
  | ok a => exact Or.inr ⟨a, rfl, h⟩

end Reading

theorem about_eq_ok_iff {α : Type} {number : ℤ} {line : List Char} {x : Except Reason α}
    {ws : List Fallback} {a : α} : about number line x = ⟨ws, .ok a⟩ ↔ x = .ok a ∧ ws = [] := by
  cases x with
  | error e => simp [about, Reading.failed]
  | ok b => simp [about, Reading.done, and_comm, eq_comm]

/-! ### Keywords -/

/-- A keyword of no kind that is built in. -/
def IsUnknown (keyword : String) : Prop := ∀ k ∈ Kind.builtIn, k.keyword ≠ keyword

instance (keyword : String) : Decidable (IsUnknown keyword) :=
  inferInstanceAs (Decidable (∀ k ∈ Kind.builtIn, _))

theorem find?_standard_eq_some_iff {keyword : String} {k : Kind} :
    Registry.standard.find? keyword = some k ↔ k ∈ Kind.builtIn ∧ k.keyword = keyword := by
  constructor
  · intro h
    obtain ⟨l₁, l₂, hl, -⟩ := List.lookup_eq_some_iff.mp h
    have hmem : (keyword, k) ∈ Kind.builtIn.map fun k => (k.keyword, k) := by
      have : Registry.standard.kinds = Kind.builtIn.map fun k => (k.keyword, k) := rfl
      rw [← this, hl]
      simp
    obtain ⟨k', hk', heq⟩ := List.mem_map.mp hmem
    obtain ⟨rfl, rfl⟩ := Prod.mk.inj heq
    exact ⟨hk', rfl⟩
  · rintro ⟨hk, rfl⟩
    have hall : ∀ k ∈ Kind.builtIn, Registry.standard.find? k.keyword = some k := by decide
    exact hall k hk

theorem find?_standard_eq_none_iff {keyword : String} :
    Registry.standard.find? keyword = none ↔ IsUnknown keyword := by
  constructor
  · intro h k hk hkeyword
    rw [find?_standard_eq_some_iff.mpr ⟨hk, hkeyword⟩] at h
    exact absurd h (by simp)
  · intro h
    cases hfind : Registry.standard.find? keyword with
    | none => rfl
    | some k =>
      obtain ⟨hk, hkeyword⟩ := find?_standard_eq_some_iff.mp hfind
      exact absurd hkeyword (h k hk)

/-- A keyword resolves to its kind, or in a lenient reading to the fallback. -/
theorem resolve_eq_ok_iff {strict : Bool} {fallback k : Kind} {number : ℤ} {line : List Char}
    {keyword : String} {ws : List Fallback} :
    resolve .standard strict fallback number line keyword = ⟨ws, .ok k⟩ ↔
      (k ∈ Kind.builtIn ∧ k.keyword = keyword ∧ ws = []) ∨
        (IsUnknown keyword ∧ strict = false ∧ k = fallback ∧
          ws = [⟨number, keyword, fallback⟩]) := by
  unfold resolve
  cases hfind : Registry.standard.find? keyword with
  | some k' =>
    -- keywords of built-in kinds differ, so the kind that is found is the one that was meant
    have hk' := find?_standard_eq_some_iff.mp hfind
    have hknown : ¬ IsUnknown keyword := fun h => h k' hk'.1 hk'.2
    simp only [Reading.done, Reading.mk.injEq, Except.ok.injEq]
    constructor
    · rintro ⟨rfl, rfl⟩
      exact Or.inl ⟨hk'.1, hk'.2, rfl⟩
    · rintro (⟨h₁, h₂, rfl⟩ | ⟨h, -⟩)
      · rw [find?_standard_eq_some_iff.mpr ⟨h₁, h₂⟩] at hfind
        exact ⟨rfl, (Option.some.inj hfind).symm⟩
      · exact absurd h hknown
  | none =>
    have hunknown := find?_standard_eq_none_iff.mp hfind
    cases strict with
    | true =>
      simp only [if_true, Reading.failed, Reading.mk.injEq, reduceCtorEq, and_false, false_iff]
      rintro (⟨h₁, h₂, -⟩ | ⟨-, h, -⟩)
      · exact hunknown k h₁ h₂
      · exact absurd h (by simp)
    | false =>
      simp only [Bool.false_eq_true, if_false, Reading.mk.injEq, Except.ok.injEq]
      constructor
      · rintro ⟨rfl, rfl⟩
        exact Or.inr ⟨hunknown, trivial, rfl, rfl⟩
      · rintro (⟨h₁, h₂, -⟩ | ⟨-, -, rfl, rfl⟩)
        · exact absurd h₂ (hunknown k h₁)
        · exact ⟨rfl, rfl⟩

/-- The keyword of a declaration is the one word behind the first equals sign, in
front of which the tag stands. -/
theorem declaredKeyword_eq_ok_iff {declaration : List Char} {keyword : String} :
    declaredKeyword declaration = .ok keyword ↔
      ∃ a b, declaration = a ++ '=' :: b ∧ '=' ∉ a ∧ Text.trim a = "node".toList ∧
        Text.words b = [keyword.toList] := by
  unfold declaredKeyword
  cases hcut : cutFirst '=' declaration with
  | none =>
    have hno := cutFirst_eq_none_iff.mp hcut
    simp only [Option.getD_none]
    constructor
    · intro h
      split at h
      · exact absurd h (by simp)
      · exact absurd h (by simp)
    · rintro ⟨a, b, rfl, -⟩
      exact absurd (by simp) hno
  | some p =>
    obtain ⟨a, b⟩ := p
    simp only [Option.getD_some]
    have htag : Node.declarationTag.toList = "node".toList := rfl
    rw [htag]
    constructor
    · intro h
      split at h
      · exact absurd h (by simp)
      · next htrim =>
        obtain ⟨hdecl, ha⟩ := eq_of_cutFirst hcut
        refine ⟨a, b, hdecl, ha, not_not.mp htrim, ?_⟩
        split at h
        · exact absurd h (by simp)
        · next w hwords =>
          rw [hwords, ← Except.ok.inj h, String.toList_ofList]
        · exact absurd h (by simp)
    · rintro ⟨a', b', hdecl, ha', htrim, hwords⟩
      rw [hdecl, cutFirst_append b' ha'] at hcut
      obtain ⟨rfl, rfl⟩ := Prod.mk.inj (Option.some.inj hcut)
      rw [if_neg (not_not.mpr htrim), hwords]
      exact congrArg Except.ok String.ofList_toList

/-- A declaration without blanks is the tag, an equals sign and the keyword. -/
theorem declaredKeyword_token_iff {token : List Char} {keyword : String}
    (htoken : ∀ c ∈ token, Text.isBlank c = false) :
    declaredKeyword token = .ok keyword ↔
      token = "node=".toList ++ keyword.toList ∧ keyword.toList ≠ [] := by
  have htag : "node=".toList = "node".toList ++ ['='] := by decide
  rw [declaredKeyword_eq_ok_iff, htag]
  constructor
  · rintro ⟨a, b, rfl, -, htrim, hwords⟩
    have ha : Text.trim a = a :=
      Text.trim_of_no_blank fun c hc => htoken c (List.mem_append_left _ hc)
    have hb : ∀ c ∈ b, Text.isBlank c = false :=
      fun c hc => htoken c (List.mem_append_right _ (List.mem_cons_of_mem _ hc))
    have hne : b ≠ [] := by
      rintro rfl
      exact absurd hwords (by simp)
    rw [Text.words_of_no_blank hne hb] at hwords
    obtain rfl : b = keyword.toList := by simpa using hwords
    rw [← htrim, ha]
    exact ⟨by simp, hne⟩
  · rintro ⟨rfl, hne⟩
    refine ⟨"node".toList, keyword.toList, by simp, by decide, by decide, ?_⟩
    exact Text.words_of_no_blank hne fun c hc => htoken c (List.mem_append_right _ hc)

/-! ### Arguments -/

/-- Arguments are read exactly if each is its label, an equals sign and a value. -/
theorem readArguments_eq_ok_iff {labels : List String} {arguments : List (List Char)}
    {values : List (String × List Char)} (hlabels : ∀ l ∈ labels, '=' ∉ l.toList)
    (hlength : arguments.length = labels.length) :
    readArguments labels arguments = .ok values ↔
      values.map Prod.fst = labels ∧
        arguments = values.map fun (label, value) => label.toList ++ '=' :: value := by
  induction labels generalizing arguments values with
  | nil =>
    obtain rfl : arguments = [] := List.length_eq_zero_iff.mp hlength
    cases values <;> simp [readArguments]
  | cons label labels ih =>
    cases arguments with
    | nil => exact absurd hlength (by simp)
    | cons argument arguments =>
      have hlabel : '=' ∉ label.toList := hlabels label (by simp)
      have ih' : ∀ values, readArguments labels arguments = .ok values ↔ _ := fun values =>
        ih (fun l hl => hlabels l (List.mem_cons_of_mem _ hl)) (by simpa using hlength)
      rw [readArguments]
      constructor
      · intro h
        cases hcut : cutFirst '=' argument with
        | none => rw [hcut] at h; exact absurd h (by simp)
        | some p =>
          obtain ⟨key, value⟩ := p
          rw [hcut] at h
          simp only at h
          split at h
          · exact absurd h (by simp)
          · next hkey =>
            cases hrest : readArguments labels arguments with
            | error e => rw [hrest] at h; exact absurd h (by simp)
            | ok rest =>
              rw [hrest] at h
              obtain rfl := Except.ok.inj h
              obtain ⟨hfst, hargs⟩ := (ih' rest).mp hrest
              obtain ⟨harg, -⟩ := eq_of_cutFirst hcut
              rw [not_not] at hkey
              rw [List.map_cons, List.map_cons, hfst, ← hargs, harg, hkey]
              exact ⟨rfl, rfl⟩
      · rintro ⟨hfst, hargs⟩
        cases values with
        | nil => exact absurd hfst (by simp)
        | cons p rest =>
          obtain ⟨label', value⟩ := p
          rw [List.map_cons] at hfst hargs
          obtain ⟨rfl, hfst'⟩ := List.cons.inj hfst
          obtain ⟨rfl, hargs'⟩ := List.cons.inj hargs
          rw [cutFirst_append value hlabel, (ih' rest).mpr ⟨hfst', hargs'⟩]
          simp

theorem readArguments_ne_invalidValue (labels : List String) (arguments : List (List Char))
    (e : ValueError) : readArguments labels arguments ≠ .error (.invalidValue e) := by
  induction labels generalizing arguments with
  | nil => simp [readArguments]
  | cons label labels ih =>
    cases arguments with
    | nil => simp [readArguments]
    | cons argument arguments =>
      rw [readArguments]
      split
      · simp
      · split
        · simp
        · split
          · next e' he' =>
            intro h
            rw [Except.error.inj h] at he'
            exact ih arguments he'
          · simp

end Definition

/-! ### Values -/

open Numeral

theorem readInt_eq_ok_iff {text : List Char} {n : ℤ} :
    readInt text = .ok n ↔ readInteger text = .ok n := by
  unfold readInt
  split <;> simp [*]

/-- A text of two integers with an x between them, which stands in neither. -/
def IsPair (text : List Char) (m n : ℤ) : Prop :=
  ∃ a b, text = a ++ 'x' :: b ∧ 'x' ∉ a ∧ 'x' ∉ b ∧ readInteger a = .ok m ∧ readInteger b = .ok n

theorem readPair_eq_ok_iff {text : List Char} {m n : ℤ} :
    readPair text = .ok (m, n) ↔ IsPair text m n := by
  constructor
  · intro h
    unfold readPair at h
    split at h
    · next a b hsplit =>
      obtain ⟨rfl, ha, hb⟩ := splitOn_eq_pair_iff.mp hsplit
      cases hm : readInt a with
      | error e => rw [hm] at h; exact absurd h (by simp)
      | ok m' =>
        rw [hm] at h
        cases hn : readInt b with
        | error e => simp only [hn] at h; exact absurd h (by simp)
        | ok n' =>
          simp only [hn, Except.ok.injEq, Prod.mk.injEq] at h
          obtain ⟨rfl, rfl⟩ := h
          exact ⟨a, b, rfl, ha, hb, readInt_eq_ok_iff.mp hm, readInt_eq_ok_iff.mp hn⟩
    · exact absurd h (by simp)
  · rintro ⟨a, b, rfl, ha, hb, hm, hn⟩
    unfold readPair
    rw [splitOn_eq_pair_iff.mpr ⟨rfl, ha, hb⟩]
    simp only [readInt_eq_ok_iff.mpr hm, readInt_eq_ok_iff.mpr hn]

theorem readAmount_eq_ok_iff {text : List Char} {amount : Noise.Amount} :
    readAmount text = .ok amount ↔
      ∃ x, readReal text = .ok x ∧ x.isFinite = true ∧ amount = .real x := by
  unfold readAmount
  constructor
  · intro h
    cases hread : readReal text with
    | error e => rw [hread] at h; exact absurd h (by simp)
    | ok x =>
      rw [hread] at h
      simp only at h
      split at h
      · next hfinite => exact ⟨x, rfl, hfinite, (Except.ok.inj h).symm⟩
      · exact absurd h (by simp)
  · rintro ⟨x, hx, hfinite, rfl⟩
    rw [hx]
    simp only [hfinite, if_true]

theorem ofValues_noise (value : List Char) :
    Kind.noise.ofValues [("noise_amount", value)] =
      (readAmount value).map fun amount => .noise amount none := by
  show ((readAmount value).bind fun amount => .ok (Node.noise amount none)) = _
  cases readAmount value <;> rfl

theorem ofValues_crop (origin size : List Char) :
    Kind.crop.ofValues [("origin", origin), ("size", size)] =
      (readPair origin).bind fun p => (readPair size).map fun q => .crop ⟨p.1, p.2, q.1, q.2⟩ := by
  show ((readPair origin).bind fun p => (readPair size).bind fun q =>
    .ok (Node.crop ⟨p.1, p.2, q.1, q.2⟩)) = _
  cases readPair origin with
  | error e => rfl
  | ok p => cases readPair size <;> rfl

/-- The value of a noise node is a finite number. -/
theorem ofValues_noise_iff {value : List Char} {node : Node} :
    Kind.noise.ofValues [("noise_amount", value)] = .ok node ↔
      ∃ x, readReal value = .ok x ∧ x.isFinite = true ∧ node = .noise (.real x) none := by
  rw [ofValues_noise]
  constructor
  · intro h
    cases hread : readAmount value with
    | error e => rw [hread] at h; exact absurd h (by simp [Except.map])
    | ok amount =>
      rw [hread] at h
      obtain ⟨x, hx, hfinite, rfl⟩ := readAmount_eq_ok_iff.mp hread
      exact ⟨x, hx, hfinite, (Except.ok.inj h).symm⟩
  · rintro ⟨x, hx, hfinite, rfl⟩
    rw [readAmount_eq_ok_iff.mpr ⟨x, hx, hfinite, rfl⟩]
    rfl

/-- The values of a crop node are two pairs. -/
theorem ofValues_crop_iff {origin size : List Char} {node : Node} :
    Kind.crop.ofValues [("origin", origin), ("size", size)] = .ok node ↔
      ∃ r : Region, IsPair origin r.x r.y ∧ IsPair size r.width r.height ∧ node = .crop r := by
  rw [ofValues_crop]
  constructor
  · intro h
    cases hp : readPair origin with
    | error e => rw [hp] at h; exact absurd h (by simp [Except.bind])
    | ok p =>
      cases hq : readPair size with
      | error e => rw [hp, hq] at h; exact absurd h (by simp [Except.bind, Except.map])
      | ok q =>
        rw [hp, hq] at h
        exact ⟨⟨p.1, p.2, q.1, q.2⟩, readPair_eq_ok_iff.mp hp, readPair_eq_ok_iff.mp hq,
          (Except.ok.inj h).symm⟩
  · rintro ⟨r, hp, hq, rfl⟩
    rw [readPair_eq_ok_iff.mpr hp, readPair_eq_ok_iff.mpr hq]
    rfl

theorem readAmount_ne_missing (text : List Char) (label : String) :
    readAmount text ≠ .error (.missing label) := by
  unfold readAmount
  split
  · simp
  · split <;> simp

theorem readInt_ne_missing (text : List Char) (label : String) :
    readInt text ≠ .error (.missing label) := by
  unfold readInt
  split <;> simp

theorem readPair_ne_missing (text : List Char) (label : String) :
    readPair text ≠ .error (.missing label) := by
  unfold readPair
  split
  · next a b _ =>
    split
    · next e he =>
      intro h
      rw [Except.error.inj h] at he
      exact readInt_ne_missing a label he
    · split
      · next e he =>
        intro h
        rw [Except.error.inj h] at he
        exact readInt_ne_missing b label he
      · simp
  · simp

/-- Values that stand under the labels of a built-in kind are all found. -/
theorem ofValues_ne_missing {k : Kind} (hk : k ∈ Kind.builtIn) {values : List (String × List Char)}
    (hvalues : values.map Prod.fst = k.labels) (label : String) :
    k.ofValues values ≠ .error (.missing label) := by
  cases k with
  | greyscale => simp [Kind.ofValues]
  | normalise => simp [Kind.ofValues]
  | vignette => simp [Kind.ofValues]
  | custom c => exact absurd hk (by simp [Kind.builtIn])
  | noise =>
    obtain ⟨⟨l, value⟩, rfl, rfl⟩ := List.map_eq_singleton_iff.mp hvalues
    rw [ofValues_noise]
    cases hread : readAmount value with
    | error e =>
      intro h
      rw [Except.error.inj h] at hread
      exact readAmount_ne_missing value label hread
    | ok amount => simp [Except.map]
  | crop =>
    obtain ⟨⟨l₁, origin⟩, rest, rfl, rfl, hrest⟩ := List.map_eq_cons_iff.mp hvalues
    obtain ⟨⟨l₂, size⟩, rfl, rfl⟩ := List.map_eq_singleton_iff.mp hrest
    rw [ofValues_crop]
    cases hp : readPair origin with
    | error e =>
      intro h
      rw [Except.error.inj h] at hp
      exact readPair_ne_missing origin label hp
    | ok p =>
      cases hq : readPair size with
      | error e =>
        intro h
        rw [Except.error.inj h] at hq
        exact readPair_ne_missing size label hq
      | ok q => simp [Except.bind, Except.map]

/-! ### Nodes -/

namespace Definition

theorem plainNode_eq_ok_iff {k : Kind} {keyword : String} {node : Node} :
    plainNode k keyword = .ok node ↔ k.isParameterized = false ∧ node = k.plain := by
  unfold plainNode
  cases hk : k.isParameterized with
  | true => simp
  | false => simp [eq_comm]

theorem parameterizedNode_eq_ok_iff {k : Kind} {keyword : String} {arguments : List (List Char)}
    {node : Node} (hlabels : ∀ l ∈ k.labels, '=' ∉ l.toList) :
    parameterizedNode k keyword arguments = .ok node ↔
      k.isParameterized = true ∧ ∃ values, values.map Prod.fst = k.labels ∧
        arguments = values.map (fun (label, value) => label.toList ++ '=' :: value) ∧
        k.ofValues values = .ok node := by
  unfold parameterizedNode
  constructor
  · intro h
    split at h
    · exact absurd h (by simp)
    · next hk =>
      split at h
      · exact absurd h (by simp)
      · next hlength =>
        rw [not_not] at hlength
        cases hargs : readArguments k.labels arguments with
        | error e => rw [hargs] at h; exact absurd h (by simp)
        | ok values =>
          rw [hargs] at h
          obtain ⟨hfst, hvalues⟩ := (readArguments_eq_ok_iff hlabels hlength).mp hargs
          cases hnode : k.ofValues values with
          | error e => simp only [hnode] at h; exact absurd h (by simp)
          | ok n =>
            simp only [hnode, Except.ok.injEq] at h
            rw [h] at hnode
            exact ⟨by simpa using hk, values, hfst, hvalues, hnode⟩
  · rintro ⟨hk, values, hfst, hargs, hnode⟩
    have hlength : arguments.length = k.labels.length := by
      rw [hargs, ← hfst, List.length_map, List.length_map]
    rw [if_neg (by simp [hk]), if_neg (not_not.mpr hlength),
      (readArguments_eq_ok_iff hlabels hlength).mpr ⟨hfst, hargs⟩]
    simp only [hnode]

/-- A noise node has one argument, its amount. -/
theorem parameterizedNode_noise_iff {keyword : String} {arguments : List (List Char)}
    {node : Node} :
    parameterizedNode .noise keyword arguments = .ok node ↔
      ∃ value x, arguments = ["noise_amount=".toList ++ value] ∧ readReal value = .ok x ∧
        x.isFinite = true ∧ node = .noise (.real x) none := by
  have hlabel : "noise_amount=".toList = "noise_amount".toList ++ ['='] := by decide
  rw [parameterizedNode_eq_ok_iff (by decide), hlabel]
  constructor
  · rintro ⟨-, values, hfst, rfl, hnode⟩
    obtain ⟨⟨l, value⟩, rfl, rfl⟩ := List.map_eq_singleton_iff.mp hfst
    obtain ⟨x, hx, hfinite, rfl⟩ := ofValues_noise_iff.mp hnode
    exact ⟨value, x, by simp, hx, hfinite, rfl⟩
  · rintro ⟨value, x, rfl, hx, hfinite, rfl⟩
    exact ⟨rfl, [("noise_amount", value)], rfl, by simp,
      ofValues_noise_iff.mpr ⟨x, hx, hfinite, rfl⟩⟩

/-- A crop node has two arguments, its corner and its size. -/
theorem parameterizedNode_crop_iff {keyword : String} {arguments : List (List Char)}
    {node : Node} :
    parameterizedNode .crop keyword arguments = .ok node ↔
      ∃ (origin size : List Char) (r : Region),
        arguments = ["origin=".toList ++ origin, "size=".toList ++ size] ∧
          IsPair origin r.x r.y ∧ IsPair size r.width r.height ∧ node = .crop r := by
  have horigin : "origin=".toList = "origin".toList ++ ['='] := by decide
  have hsize : "size=".toList = "size".toList ++ ['='] := by decide
  rw [parameterizedNode_eq_ok_iff (by decide), horigin, hsize]
  constructor
  · rintro ⟨-, values, hfst, rfl, hnode⟩
    obtain ⟨⟨l₁, origin⟩, rest, rfl, rfl, hrest⟩ := List.map_eq_cons_iff.mp hfst
    obtain ⟨⟨l₂, size⟩, rfl, rfl⟩ := List.map_eq_singleton_iff.mp hrest
    obtain ⟨r, hr₁, hr₂, rfl⟩ := ofValues_crop_iff.mp hnode
    exact ⟨origin, size, r, by simp, hr₁, hr₂, rfl⟩
  · rintro ⟨origin, size, r, rfl, hr₁, hr₂, rfl⟩
    exact ⟨rfl, [("origin", origin), ("size", size)], rfl, by simp,
      ofValues_crop_iff.mpr ⟨r, hr₁, hr₂, rfl⟩⟩

/-- No argument of a declared node is looked up in vain. -/
theorem parameterizedNode_ne_missing {k : Kind} (hk : k ∈ Kind.builtIn) (keyword : String)
    (arguments : List (List Char)) (label : String) :
    parameterizedNode k keyword arguments ≠ .error (.invalidValue (.missing label)) := by
  have hlabels : ∀ k ∈ Kind.builtIn, ∀ l ∈ k.labels, '=' ∉ l.toList := by decide
  unfold parameterizedNode
  split
  · simp
  · split
    · simp
    · next hlength =>
      rw [not_not] at hlength
      cases hargs : readArguments k.labels arguments with
      | error e =>
        simp only [ne_eq, Except.error.injEq]
        rintro rfl
        exact readArguments_ne_invalidValue _ _ _ hargs
      | ok values =>
        obtain ⟨hfst, -⟩ := (readArguments_eq_ok_iff (hlabels k hk) hlength).mp hargs
        cases hnode : k.ofValues values with
        | error e =>
          simp only [hnode, ne_eq, Except.error.injEq, Reason.invalidValue.injEq]
          rintro rfl
          exact ofValues_ne_missing hk hfst label hnode
        | ok n => simp [hnode]

end Definition
end ImagePipeline
