import ImagePipeline.Definition.Document
import ImagePipeline.Proofs.Definition.Grammar
import ImagePipeline.Proofs.Text.Utf8

/-!
# Definitions in files

Which line of a file an error names, and how a file compares with the text that it holds.
A file is decoded as a whole before any of its lines is read, so that a line that is no
text is named even if a malformed line stands in front of it.

## Main definitions

* `IsUndecodable`, `IsMalformed`, `IsBad` — what can be wrong with a line of a file.
* `Names` — every error of a reading names a given line.

## Main results

* `readLinesFrom_of_malformed`, `readLinesFrom_of_forall` — texts of lines.
* `decodeLinesFrom_of_undecodable`, `decodeLinesFrom_of_forall` — lines of bytes.
* `load_bad_line` — which line an error names.
* `readBytes_encode`, `load_text` — a file and the text that it holds.
-/

namespace ImagePipeline

/-- A list with a member of a property has a first one. -/
theorem exists_first {α : Type} {p : α → Prop} {l : List α} (h : ∃ x ∈ l, p x) :
    ∃ before x after, l = before ++ x :: after ∧ p x ∧ ∀ b ∈ before, ¬ p b := by
  classical
  obtain ⟨x, hx, hpx⟩ := h
  have hsome : (l.find? fun x => decide (p x)).isSome := by
    rw [List.find?_isSome]
    exact ⟨x, hx, decide_eq_true hpx⟩
  obtain ⟨y, hy⟩ := Option.isSome_iff_exists.mp hsome
  obtain ⟨hpy, before, after, hl, hbefore⟩ := List.find?_eq_some_iff_append.mp hy
  refine ⟨before, y, after, hl, of_decide_eq_true hpy, fun b hb => ?_⟩
  simpa using hbefore b hb

namespace Definition

open Text

/-! ### What can be wrong with a line -/

/-- Bytes that are no text. -/
def IsUndecodable (line : List UInt8) : Prop := ∃ offset, Utf8.decode line = .error offset

/-- A text that is no line of a definition. -/
def IsMalformed (r : Registry) (strict : Bool) (text : List Char) : Prop :=
  ∃ e, (readLine r strict 1 text).result = .error e

/-- Bytes that are no text, or whose text is no line of a definition. -/
def IsBad (r : Registry) (strict : Bool) (line : List UInt8) : Prop :=
  IsUndecodable line ∨ ∃ text, Utf8.decode line = .ok text ∧ IsMalformed r strict text

section

variable {r : Registry} {strict : Bool}

theorem toOption_andThen {α β : Type} (p : Reading α) (f : α → Reading β) :
    (p.andThen f).result.toOption = p.result.toOption.bind fun a => (f a).result.toOption := by
  obtain ⟨ws, e | a⟩ := p <;> rfl

theorem toOption_about {α : Type} (number : ℤ) (line : List Char) (x : Except Reason α) :
    (about number line x).result.toOption = x.toOption := by
  cases x <;> rfl

theorem toOption_resolve (fallback : Kind) (number : ℤ) (line : List Char) (keyword : String) :
    (resolve r strict fallback number line keyword).result.toOption =
      match r.find? keyword with
      | some k => some k
      | none => if strict then none else some fallback := by
  unfold resolve
  cases r.find? keyword with
  | some k => rfl
  | none => cases strict <;> rfl

/-- What a line declares does not depend on its number. -/
theorem toOption_readLine (r : Registry) (strict : Bool) (m n : ℤ) (text : List Char) :
    (readLine r strict m text).result.toOption = (readLine r strict n text).result.toOption := by
  simp only [readLine, toOption_andThen, toOption_about]
  congr 1
  funext kind
  cases kind with
  | skip => rfl
  | parameterless =>
    simp only [readPlain, toOption_andThen, toOption_about, toOption_resolve]
  | parameterized =>
    simp only [readParameterized, toOption_andThen, toOption_about, toOption_resolve]

theorem result_andThen_of_error {α β : Type} {p : Reading α} {f : α → Reading β} {e : ParseError}
    (h : p.result = .error e) : (p.andThen f).result = .error e := by
  simp only [Reading.andThen, h]

theorem result_andThen_of_ok {α β : Type} {p : Reading α} {f : α → Reading β} {a : α}
    (h : p.result = .ok a) : (p.andThen f).result = (f a).result := by
  simp only [Reading.andThen, h]

/-- Every error of a reading names the given line. -/
def Names {α : Type} (number : ℤ) (line : List Char) (p : Reading α) : Prop :=
  ∀ e, p.result = .error e → ∃ reason, e = ⟨number, line, reason⟩

theorem names_about {α : Type} (number : ℤ) (line : List Char) (x : Except Reason α) :
    Names number line (about number line x) := by
  intro e h
  obtain ⟨reason, -, rfl⟩ := error_of_about h
  exact ⟨reason, rfl⟩

theorem names_resolve (fallback : Kind) (number : ℤ) (line : List Char) (keyword : String) :
    Names number line (resolve r strict fallback number line keyword) :=
  fun _ h => ⟨_, error_of_resolve h⟩

theorem Names.andThen {α β : Type} {line : List Char} {p : Reading α} {f : α → Reading β}
    (hp : Names number line p) (hf : ∀ a, Names number line (f a)) :
    Names number line (p.andThen f) := by
  intro e h
  rcases Reading.error_of_andThen h with h | ⟨a, -, h⟩
  · exact hp e h
  · exact hf a e h

/-- An error names the line that is read, whatever kinds are registered. -/
theorem names_readLine (number : ℤ) (text : List Char) :
    Names number (chomp text) (readLine r strict number text) := by
  have hdone : ∀ n : Option Node, Names number (chomp text) (.done n) :=
    fun n e h => absurd h (by simp [Reading.done])
  unfold readLine
  refine (names_about _ _ _).andThen fun kind => ?_
  cases kind with
  | skip => exact hdone none
  | parameterless =>
    refine Names.andThen ?_ fun n => hdone (some n)
    unfold readPlain
    refine (names_about _ _ _).andThen fun keyword => ?_
    exact (names_resolve _ _ _ keyword).andThen fun k => names_about _ _ _
  | parameterized =>
    refine Names.andThen ?_ fun n => hdone (some n)
    unfold readParameterized
    refine (names_about _ _ _).andThen fun keyword => ?_
    exact (names_resolve _ _ _ keyword).andThen fun k => names_about _ _ _

theorem exists_error_of_isMalformed (number : ℤ) {text : List Char}
    (h : IsMalformed r strict text) :
    ∃ reason, (readLine r strict number text).result = .error ⟨number, chomp text, reason⟩ := by
  obtain ⟨e, he⟩ := h
  have hnone := toOption_readLine r strict number 1 text
  rw [he] at hnone
  cases hread : (readLine r strict number text).result with
  | ok node => rw [hread] at hnone; exact absurd hnone (by simp [Except.toOption])
  | error e' =>
    obtain ⟨reason, rfl⟩ := names_readLine number text e' hread
    exact ⟨reason, rfl⟩

theorem exists_ok_of_not_isMalformed {text : List Char} (h : ¬ IsMalformed r strict text) :
    ∃ node, ∀ n, (readLine r strict n text).result = .ok node := by
  cases hread : (readLine r strict 1 text).result with
  | error e => exact absurd ⟨e, hread⟩ h
  | ok node =>
    refine ⟨node, fun n => ?_⟩
    have hsome := toOption_readLine r strict n 1 text
    rw [hread] at hsome
    cases hread' : (readLine r strict n text).result with
    | error e => rw [hread'] at hsome; exact absurd hsome (by simp [Except.toOption])
    | ok node' =>
      rw [hread'] at hsome
      rw [Option.some.inj hsome]

/-! ### Lines one after another -/

/-- **Texts of lines are read up to the first malformed one**, which the error names. -/
theorem readLinesFrom_of_malformed (number : ℤ) {before : List (List Char)} {text : List Char}
    (after : List (List Char)) (hbefore : ∀ t ∈ before, ¬ IsMalformed r strict t)
    (h : IsMalformed r strict text) :
    ∃ reason, (readLinesFrom r strict number (before ++ text :: after)).result =
      .error ⟨number + before.length, chomp text, reason⟩ := by
  induction before generalizing number with
  | nil =>
    obtain ⟨reason, hread⟩ := exists_error_of_isMalformed number h
    refine ⟨reason, ?_⟩
    rw [List.nil_append, readLinesFrom, result_andThen_of_error hread]
    simp
  | cons t before ih =>
    obtain ⟨ht, hbefore⟩ := List.forall_mem_cons.mp hbefore
    obtain ⟨node, hnode⟩ := exists_ok_of_not_isMalformed ht
    obtain ⟨reason, hrest⟩ := ih (number + 1) hbefore
    have hcount : number + 1 + (before.length : ℤ) = number + (t :: before).length := by
      rw [List.length_cons]
      omega
    rw [hcount] at hrest
    refine ⟨reason, ?_⟩
    rw [List.cons_append, readLinesFrom, result_andThen_of_ok (hnode number),
      result_andThen_of_error hrest]

/-- **Texts of lines, none of which is malformed, declare their nodes in order.** -/
theorem readLinesFrom_of_forall (number : ℤ) {texts : List (List Char)}
    (h : ∀ t ∈ texts, ¬ IsMalformed r strict t) :
    ∃ nodes : List (Option Node),
      texts.map (fun t => (readLine r strict 1 t).result) = nodes.map .ok ∧
        (readLinesFrom r strict number texts).result = .ok (nodes.filterMap id) := by
  induction texts generalizing number with
  | nil => exact ⟨[], rfl, rfl⟩
  | cons t texts ih =>
    obtain ⟨ht, htexts⟩ := List.forall_mem_cons.mp h
    obtain ⟨node, hnode⟩ := exists_ok_of_not_isMalformed ht
    obtain ⟨nodes, hnodes, hrest⟩ := ih (number + 1) htexts
    refine ⟨node :: nodes, by rw [List.map_cons, List.map_cons, hnode, hnodes], ?_⟩
    rw [readLinesFrom, result_andThen_of_ok (hnode number), result_andThen_of_ok hrest]
    cases node <;> rfl

/-- **Lines of bytes are decoded up to the first that is no text**, which the error
names. -/
theorem decodeLinesFrom_of_undecodable (number : ℤ) {before : List (List UInt8)} {line : List UInt8}
    (after : List (List UInt8)) {offset : ℕ} (hbefore : ∀ b ∈ before, ¬ IsUndecodable b)
    (h : Utf8.decode line = .error offset) :
    decodeLinesFrom number (before ++ line :: after) =
      .error ⟨number + before.length, Utf8.decodeLossy line,
        .invalidByte (line.getD offset 0) offset⟩ := by
  induction before generalizing number with
  | nil =>
    rw [List.nil_append, decodeLinesFrom, h]
    simp
  | cons b before ih =>
    obtain ⟨hb, hbefore⟩ := List.forall_mem_cons.mp hbefore
    have hcount : number + 1 + (before.length : ℤ) = number + (b :: before).length := by
      rw [List.length_cons]
      omega
    rw [List.cons_append, decodeLinesFrom]
    cases hdecode : Utf8.decode b with
    | error offset' => exact absurd ⟨offset', hdecode⟩ hb
    | ok text => simp only [ih (number + 1) hbefore, hcount]

/-- **Lines of bytes that are texts are decoded.** -/
theorem decodeLinesFrom_of_forall (number : ℤ) {lines : List (List UInt8)}
    (h : ∀ b ∈ lines, ¬ IsUndecodable b) :
    ∃ texts, lines.map Utf8.decode = texts.map .ok ∧ decodeLinesFrom number lines = .ok texts := by
  induction lines generalizing number with
  | nil => exact ⟨[], rfl, rfl⟩
  | cons b lines ih =>
    obtain ⟨hb, hlines⟩ := List.forall_mem_cons.mp h
    obtain ⟨texts, hmap, hdecode⟩ := ih (number + 1) hlines
    cases hfirst : Utf8.decode b with
    | error offset => exact absurd ⟨offset, hfirst⟩ hb
    | ok text =>
      refine ⟨text :: texts, by rw [List.map_cons, List.map_cons, hfirst, hmap], ?_⟩
      rw [decodeLinesFrom, hfirst, hdecode]

end

/-! ### The line that an error names -/

section

variable {r : Registry} {strict : Bool} {t : FileTree} {path : String} {c : Content}

theorem result_load (hfile : t.read path = .ok c) :
    (load r strict t path).2 = match (readBytes r strict c.toBytes).result with
      | .error e => .error (.parse e)
      | .ok nodes => .ok nodes := by
  cases hread : (readBytes r strict c.toBytes).result <;> simp only [load, hfile, hread]

theorem load_of_undecodable (r : Registry) (strict : Bool) (hfile : t.read path = .ok c)
    {before : List (List UInt8)} {line : List UInt8} (after : List (List UInt8)) {offset : ℕ}
    (hlines : Bytes.lines (Utf8.dropByteOrderMark c.toBytes) = before ++ line :: after)
    (hbefore : ∀ b ∈ before, ¬ IsUndecodable b) (h : Utf8.decode line = .error offset) :
    (load r strict t path).2 = .error (.parse ⟨before.length + 1, Utf8.decodeLossy line,
      .invalidByte (line.getD offset 0) offset⟩) := by
  rw [result_load hfile, readBytes, decodeLines, hlines,
    decodeLinesFrom_of_undecodable 1 after hbefore h, Int.add_comm]
  rfl

theorem load_of_malformed (hfile : t.read path = .ok c) {before : List (List UInt8)}
    {line : List UInt8} {after : List (List UInt8)}
    (hlines : Bytes.lines (Utf8.dropByteOrderMark c.toBytes) = before ++ line :: after)
    (hbefore : ∀ b ∈ before, ¬ IsBad r strict b) (hafter : ∀ b ∈ after, ¬ IsUndecodable b)
    {text : List Char} (htext : Utf8.decode line = .ok text) (h : IsMalformed r strict text) :
    ∃ reason, (load r strict t path).2 =
      .error (.parse ⟨before.length + 1, chomp text, reason⟩) := by
  have hdecodable : ∀ b ∈ before ++ line :: after, ¬ IsUndecodable b := by
    intro b hb
    rcases List.mem_append.mp hb with hb | hb
    · exact fun hu => hbefore b hb (Or.inl hu)
    · rcases List.mem_cons.mp hb with rfl | hb
      · rintro ⟨offset, hoffset⟩
        exact absurd (hoffset.symm.trans htext) (by simp)
      · exact hafter b hb
  obtain ⟨texts, hmap, hdecode⟩ := decodeLinesFrom_of_forall 1 hdecodable
  -- the texts are cut where the lines are
  rw [List.map_append, List.map_cons, htext] at hmap
  obtain ⟨tb, ts, rfl, htb, hts⟩ := List.map_eq_append_iff.mp hmap.symm
  obtain ⟨text', ta, rfl, htext', -⟩ := List.map_eq_cons_iff.mp hts
  obtain rfl := Except.ok.inj htext'
  have hlength : tb.length = before.length := by simpa using congrArg List.length htb
  have hfront : ∀ s ∈ tb, ¬ IsMalformed r strict s := by
    intro s hs hbad
    have hmem : Except.ok s ∈ before.map Utf8.decode := by
      rw [← htb]
      exact List.mem_map_of_mem hs
    obtain ⟨b, hb, hbs⟩ := List.mem_map.mp hmem
    exact hbefore b hb (Or.inr ⟨s, hbs, hbad⟩)
  obtain ⟨reason, hread⟩ := readLinesFrom_of_malformed 1 ta hfront h
  refine ⟨reason, ?_⟩
  rw [result_load hfile, readBytes, decodeLines, hlines, hdecode]
  simp only [readLines, hread, hlength, Int.add_comm]

theorem load_of_forall (hfile : t.read path = .ok c)
    (h : ∀ b ∈ Bytes.lines (Utf8.dropByteOrderMark c.toBytes), ¬ IsBad r strict b) :
    ∃ (texts : List (List Char)) (nodes : List (Option Node)),
      (Bytes.lines (Utf8.dropByteOrderMark c.toBytes)).map Utf8.decode = texts.map .ok ∧
        texts.map (fun s => (readLine r strict 1 s).result) = nodes.map .ok ∧
        (load r strict t path).2 = .ok (nodes.filterMap id) := by
  obtain ⟨texts, hmap, hdecode⟩ :=
    decodeLinesFrom_of_forall 1 fun b hb hu => h b hb (Or.inl hu)
  have hfine : ∀ s ∈ texts, ¬ IsMalformed r strict s := by
    intro s hs hbad
    have hmem : Except.ok s ∈ (Bytes.lines (Utf8.dropByteOrderMark c.toBytes)).map Utf8.decode := by
      rw [hmap]
      exact List.mem_map_of_mem hs
    obtain ⟨b, hb, hbs⟩ := List.mem_map.mp hmem
    exact h b hb (Or.inr ⟨s, hbs, hbad⟩)
  obtain ⟨nodes, hnodes, hread⟩ := readLinesFrom_of_forall 1 hfine
  refine ⟨texts, nodes, hmap, hnodes, ?_⟩
  rw [result_load hfile, readBytes, decodeLines, hdecode]
  simp only [readLines, hread]

/-- **Which line the error of a file names.**  If no line of a file is bad, then its
nodes are those of its lines in order.  Otherwise its first bad line is named exactly if
that line is no text itself or all lines behind it are texts; the first line that is no
text is named in any case, with its first byte that belongs to no character. -/
theorem load_bad_line (hfile : t.read path = .ok c) (r : Registry) (strict : Bool) :
    ((∀ b ∈ Bytes.lines (Utf8.dropByteOrderMark c.toBytes), ¬ IsBad r strict b) →
      ∃ (texts : List (List Char)) (nodes : List (Option Node)),
        (Bytes.lines (Utf8.dropByteOrderMark c.toBytes)).map Utf8.decode = texts.map .ok ∧
          texts.map (fun s => (readLine r strict 1 s).result) = nodes.map .ok ∧
          (load r strict t path).2 = .ok (nodes.filterMap id)) ∧
    (∀ before line after,
      Bytes.lines (Utf8.dropByteOrderMark c.toBytes) = before ++ line :: after →
      (∀ b ∈ before, ¬ IsBad r strict b) → IsBad r strict line →
        ((∃ e, (load r strict t path).2 = .error (.parse e) ∧ e.lineNumber = before.length + 1) ↔
          IsUndecodable line ∨ ∀ b ∈ after, ¬ IsUndecodable b)) ∧
    (∀ before line after offset,
      Bytes.lines (Utf8.dropByteOrderMark c.toBytes) = before ++ line :: after →
      (∀ b ∈ before, ¬ IsUndecodable b) → Utf8.decode line = .error offset →
        (load r strict t path).2 = .error (.parse ⟨before.length + 1, Utf8.decodeLossy line,
          .invalidByte (line.getD offset 0) offset⟩)) := by
  refine ⟨load_of_forall hfile, ?_, fun before line after offset hlines hbefore h =>
    load_of_undecodable r strict hfile after hlines hbefore h⟩
  intro before line after hlines hbefore hline
  have hbefore' : ∀ b ∈ before, ¬ IsUndecodable b := fun b hb hu => hbefore b hb (Or.inl hu)
  by_cases hu : IsUndecodable line
  · refine iff_of_true ?_ (Or.inl hu)
    obtain ⟨offset, hoffset⟩ := hu
    exact ⟨_, load_of_undecodable r strict hfile after hlines hbefore' hoffset, rfl⟩
  · obtain ⟨text, htext, hmalformed⟩ := hline.resolve_left hu
    constructor
    · rintro ⟨e, hload, hnumber⟩
      by_contra hno
      rw [not_or, not_forall] at hno
      obtain ⟨-, b, hb⟩ := hno
      rw [Classical.not_imp, not_not] at hb
      -- the first line behind it that is no text is the one that is named
      obtain ⟨front, line', rest, rfl, ⟨offset, hoffset⟩, hfront⟩ := exists_first ⟨b, hb.1, hb.2⟩
      have hlines' : Bytes.lines (Utf8.dropByteOrderMark c.toBytes) =
          (before ++ line :: front) ++ line' :: rest := by
        rw [hlines, List.append_assoc, List.cons_append]
      have hload' := load_of_undecodable r strict hfile rest hlines' (by
        intro d hd
        rcases List.mem_append.mp hd with hd | hd
        · exact hbefore' d hd
        · rcases List.mem_cons.mp hd with rfl | hd
          · exact hu
          · exact hfront d hd) hoffset
      obtain rfl := DocumentError.parse.inj (Except.error.inj (hload.symm.trans hload'))
      simp only [List.length_append, List.length_cons] at hnumber
      omega
    · intro h
      obtain ⟨reason, hload⟩ :=
        load_of_malformed hfile hlines hbefore (h.resolve_left hu) htext hmalformed
      exact ⟨_, hload, rfl⟩

/-- A malformed line stands behind a blank one: it is named, unless a line behind it is no
text. -/
theorem load_bad_line_second :
    let t : FileTree := ⟨[(.below ["a"], .file (.bytes [10, 98])),
      (.below ["b"], .file (.bytes [10, 98, 10, 0xFF]))]⟩
    (∃ e, (load .standard false t "a").2 = .error (.parse e) ∧ e.lineNumber = 2) ∧
      ¬ (∃ e, (load .standard false t "b").2 = .error (.parse e) ∧ e.lineNumber = 2) := by
  intro t
  have hblank : ¬ IsBad .standard false [] := by
    rintro (⟨offset, h⟩ | ⟨text, h, e, he⟩)
    · exact absurd (h.symm.trans (Utf8.decode_encode [])) (by simp)
    · obtain rfl := Except.ok.inj (h.symm.trans (Utf8.decode_encode []))
      have hnone : (readLine .standard false 1 []).result = .ok none := rfl
      exact absurd (he.symm.trans hnone) (by simp)
  have htext : Utf8.decode [98] = .ok ['b'] := Utf8.decode_encode ['b']
  have hbad : IsBad .standard false [98] := Or.inr ⟨['b'], htext, _, rfl⟩
  have hbefore : ∀ b ∈ [([] : List UInt8)], ¬ IsBad .standard false b := by
    simpa using hblank
  have hlast : Utf8.decode [0xFF] = .error 0 := by
    rw [Utf8.decode, Utf8.decodeFrom]
    rfl
  have ha : t.read "a" = .ok (.bytes [10, 98]) := rfl
  have hb : t.read "b" = .ok (.bytes [10, 98, 10, 0xFF]) := rfl
  obtain ⟨-, hnamed, -⟩ := load_bad_line ha .standard false
  obtain ⟨-, hnamed', -⟩ := load_bad_line hb .standard false
  refine ⟨(hnamed [[]] [98] [] rfl hbefore hbad).mpr (Or.inr (by simp)), fun h => ?_⟩
  rcases (hnamed' [[]] [98] [[0xFF]] rfl hbefore hbad).mp h with ⟨offset, hoffset⟩ | hafter
  · exact absurd (hoffset.symm.trans htext) (by simp)
  · exact hafter [0xFF] (by simp) ⟨0, hlast⟩

/-- The first line of a file is malformed and its second line is no text: the error names
the second. -/
theorem load_passes_over_malformed_line :
    let t : FileTree := ⟨[(.below ["a"], .file (.bytes [98, 10, 0xFF]))]⟩
    Bytes.lines [98, 10, 0xFF] = [[98], [0xFF]] ∧ IsBad .standard false [98] ∧
      (load .standard false t "a").2 =
        .error (.parse ⟨2, [Utf8.replacement], .invalidByte 0xFF 0⟩) := by
  intro t
  have htext : Utf8.decode [98] = .ok ['b'] := Utf8.decode_encode ['b']
  have hfile : t.read "a" = .ok (.bytes [98, 10, 0xFF]) := rfl
  have hlast : Utf8.decode [0xFF] = .error 0 := by
    rw [Utf8.decode, Utf8.decodeFrom]
    rfl
  have hlossy : Utf8.decodeLossy [0xFF] = [Utf8.replacement] := by
    rw [Utf8.decodeLossy]
    show [Utf8.replacement] ++ Utf8.decodeLossy [] = _
    rw [Utf8.decodeLossy]
    rfl
  have hlines : Bytes.lines [98, 10, 0xFF] = [[98]] ++ [0xFF] :: [] := rfl
  have hbefore : ∀ b ∈ [[98]], ¬ IsUndecodable b := by
    intro b hb
    obtain rfl := List.mem_singleton.mp hb
    rintro ⟨offset, h⟩
    exact absurd (h.symm.trans htext) (by simp)
  refine ⟨hlines, Or.inr ⟨['b'], htext, _, rfl⟩, ?_⟩
  rw [load_of_undecodable .standard false hfile [] hlines hbefore hlast, hlossy]
  rfl

end

/-! ### Texts and the files that hold them -/

theorem dropByteOrderMark_encode (s : List Char) :
    Utf8.dropByteOrderMark (Utf8.encode s) = Utf8.encode (dropMark s) := by
  unfold Utf8.dropByteOrderMark
  cases hmark : Utf8.byteOrderMark.isPrefixOf (Utf8.encode s) with
  | true =>
    obtain ⟨s, rfl⟩ := List.head?_eq_some_iff.mp (Utf8.isPrefixOf_encode_iff.mp hmark)
    rw [if_pos rfl, Utf8.encode_cons, dropMark, if_pos rfl]
    rfl
  | false =>
    rw [if_neg (by simp)]
    cases s with
    | nil => rfl
    | cons c s =>
      have hc : c ≠ Char.ofNat 0xFEFF := by
        rintro rfl
        rw [Utf8.isPrefixOf_encode_iff.mpr rfl] at hmark
        exact absurd hmark (by simp)
      rw [dropMark, if_neg hc]

theorem decodeLinesFrom_map_encode (number : ℤ) (texts : List (List Char)) :
    decodeLinesFrom number (texts.map Utf8.encode) = .ok texts := by
  induction texts generalizing number with
  | nil => rfl
  | cons s texts ih =>
    rw [List.map_cons, decodeLinesFrom, Utf8.decode_encode]
    simp only [ih]

/-- **The bytes of a text declare what its lines do**, if it is cut at line feeds and
carriage returns only. -/
theorem readBytes_encode (r : Registry) (strict : Bool) (s : List Char) :
    readBytes r strict (Utf8.encode s) = readLines r strict (plainLines (dropMark s)) := by
  rw [readBytes, decodeLines, dropByteOrderMark_encode, Bytes.lines_encode,
    decodeLinesFrom_map_encode]

theorem mem_of_mem_dropMark {s : List Char} {c : Char} (h : c ∈ dropMark s) : c ∈ s := by
  cases s with
  | nil => exact h
  | cons d s =>
    rw [dropMark] at h
    split at h
    · exact List.mem_cons_of_mem d h
    · exact h

theorem lines_eq_plainLines {s : List Char}
    (h : ∀ c ∈ s, isLineEnd c = true → isPlainEnd c = true) :
    lines s = plainLines s := by
  refine Lines.cut_congr fun c hc => ?_
  cases hend : isLineEnd c with
  | true => rw [h c hc hend]
  | false =>
    have hplain : isPlainEnd c = true → isLineEnd c = true := by
      intro h
      simp only [isPlainEnd, Bool.or_eq_true, beq_iff_eq] at h
      rcases h with rfl | rfl <;> decide
    cases hplain' : isPlainEnd c with
    | true => exact absurd (hend.symm.trans (hplain hplain')) (by simp)
    | false => rfl

/-- **A file declares what the text that it holds declares**, with the same fallbacks or
the same error, if every line end of the text is a line feed or a carriage return.  In any
case a file is cut at these two only. -/
theorem load_text {t : FileTree} {path : String} {c : Content} {s : List Char}
    (hfile : t.read path = .ok c) (hbytes : c.toBytes = Utf8.encode s) (r : Registry)
    (strict : Bool) :
    load r strict t path =
        ((readLines r strict (plainLines (dropMark s))).fallbacks,
          (readLines r strict (plainLines (dropMark s))).result.mapError .parse) ∧
      ((∀ d ∈ s, isLineEnd d = true → isPlainEnd d = true) →
        load r strict t path =
          ((readText r strict s).fallbacks, (readText r strict s).result.mapError .parse)) := by
  have hload : load r strict t path =
      ((readLines r strict (plainLines (dropMark s))).fallbacks,
        (readLines r strict (plainLines (dropMark s))).result.mapError .parse) := by
    simp only [load, hfile, hbytes, readBytes_encode]
    cases (readLines r strict (plainLines (dropMark s))).result <;> rfl
  refine ⟨hload, fun hends => ?_⟩
  rw [hload, readText, lines_eq_plainLines fun d hd => hends d (mem_of_mem_dropMark hd)]

/-- A text with three kinds of line ends that bytes have as well, and its file. -/
theorem load_text_mixed_ends :
    let s := "\uFEFF#\r\n\rnode=blur\nnode=\n"
    let t : FileTree := ⟨[(.below ["a"], .file (.ofText s))]⟩
    load .standard false t "a" =
      ([⟨3, "blur", .vignette⟩], .error (.parse ⟨4, "node=".toList, .missingKeyword⟩)) := by
  have hlines : lines (dropMark "\uFEFF#\r\n\rnode=blur\nnode=\n".toList) =
      ["#".toList, [], "node=blur".toList, "node=".toList] := by decide
  intro s t
  have hfile : t.read "a" = .ok (.ofText s) := rfl
  obtain ⟨-, hload⟩ := load_text hfile rfl .standard false
  rw [hload (forall_mem_of_all (by decide)), readText, show lines (dropMark s.toList) = _ from hlines]
  rfl

/-- A form feed in a comment ends a line of the text, but no line of the file. -/
theorem load_text_form_feed :
    let s := "# a\x0Cnode=greyscale\n"
    let t : FileTree := ⟨[(.below ["a"], .file (.ofText s))]⟩
    (readText .standard false s.toList).result = .ok [.greyscale] ∧
      (load .standard false t "a").2 = .ok [] := by
  have hlines : lines (dropMark "# a\x0Cnode=greyscale\n".toList) =
      ["# a".toList, "node=greyscale".toList] := by decide
  have hplain : plainLines (dropMark "# a\x0Cnode=greyscale\n".toList) =
      ["# a\x0Cnode=greyscale".toList] := by decide
  intro s t
  have hfile : t.read "a" = .ok (.ofText s) := rfl
  constructor
  · rw [readText, show lines (dropMark s.toList) = _ from hlines]
    rfl
  · rw [result_load hfile, Content.ofText, Content.toBytes, readBytes_encode,
      show plainLines (dropMark s.toList) = _ from hplain]
    rfl

end Definition
end ImagePipeline
