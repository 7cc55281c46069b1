import ImagePipeline.Pipeline.Basic
import ImagePipeline.Proofs.Definition.Grammar
import ImagePipeline.Proofs.Numeral.Real

/-!
# Writing pipelines and reading them

A pipeline is written with one line for each node, and the grammar of definition
lines derives that node from the line again.  What a definition declares can always
be written, so that the two directions are inverse to each other.

## Main definitions

* `Node.Declarable` — the nodes that definitions declare.
* `Node.detached` — a node without a noise source of its own.

## Main results

* `Node.exists_line` — the line of a node declares it.
* `readText_text` — the definition of a pipeline declares its nodes.
* `declarable_of_readLinesFrom` — every node that lines declare is declarable.
* `definition_round_trip` — the two directions are inverse to each other.
-/

namespace ImagePipeline

open Definition Numeral Text

namespace Node

/-- The nodes that definitions declare: the built-in ones with a finite amount or
with integers in the limit of the reader. -/
def Declarable : Node → Prop
  | .greyscale | .normalise | .vignette => True
  | .noise (.real x) _ => x.isFinite = true
  | .noise (.whole _) _ => False
  | .crop r => r.InLimit
  | .custom _ => False

/-- The node without a noise source of its own. -/
def detached : Node → Node
  | .noise a _ => .noise a none
  | n => n

theorem beq_detached {n : Node} (hn : n.Declarable) : Node.beq n.detached n = true := by
  cases n with
  | noise a source =>
    cases a with
    | whole m => exact absurd hn (by simp [Declarable])
    | real x =>
      cases x with
      | finite negative a => simp [detached, Node.beq, Noise.Amount.beq, Binary64.beq]
      | _ => exact absurd hn (by simp [Declarable, Binary64.isFinite])
  | custom k => exact absurd hn (by simp [Declarable])
  | crop r => simp [detached, Node.beq]
  | _ => rfl

@[simp] theorem line_detached (n : Node) : n.detached.line = n.line := by
  cases n <;> rfl

/-! ### Lines of nodes -/

/-- The keyword of a kind without parameters behind the tag. -/
theorem declaresWord_token {w : List Char} (hne : w ≠ []) (hw : ∀ c ∈ w, isBlank c = false)
    (heq : '=' ∉ w) : DeclaresWord ("node=".toList ++ w) w := by
  have htag : "node=".toList = "node".toList ++ ['='] := by decide
  refine ⟨"node".toList, w, by rw [htag]; simp, by decide, heq, by decide, ?_⟩
  exact words_of_no_blank hne hw

/-- An amount behind its label is one word. -/
theorem not_blank_amount {x : Binary64} (hx : x.isFinite = true) :
    ∀ c ∈ "noise_amount=".toList ++ x.digitsText, isBlank c = false := by
  rw [List.forall_mem_append]
  exact ⟨forall_mem_of_all (by decide), fun c hc => (numeralChar_of_mem_digitsText hx hc).not_blank⟩

theorem toList_timesText (m n : ℤ) :
    (timesText m n).toList = (toString m).toList ++ 'x' :: (toString n).toList := by
  rw [timesText, String.toList_append, String.toList_append]
  simp

theorem not_blank_toString (n : ℤ) : ∀ c ∈ (toString n).toList, isBlank c = false := by
  intro c hc
  rcases isDigit_or_eq_minus_of_mem_toString hc with hdigit | rfl
  · exact isBlank_of_isDigit hdigit
  · decide

/-- A pair behind its label is one word. -/
theorem not_blank_pair (label : List Char) (hlabel : ∀ c ∈ label, isBlank c = false) (m n : ℤ) :
    ∀ c ∈ label ++ (timesText m n).toList, isBlank c = false := by
  rw [toList_timesText, List.forall_mem_append, List.forall_mem_append, List.forall_mem_cons]
  exact ⟨hlabel, not_blank_toString m, by decide, not_blank_toString n⟩

/-- Two integers in the limit are read back from the text of the pair. -/
theorem isPair_timesText {m n : ℤ} (hm : Numeral.InLimit m) (hn : Numeral.InLimit n) :
    IsPair (timesText m n).toList m n := by
  have hx : ∀ k : ℤ, 'x' ∉ (toString k).toList := by
    intro k hk
    rcases isDigit_or_eq_minus_of_mem_toString hk with hdigit | h
    · exact ne_of_isDigit hdigit (by decide) rfl
    · exact absurd h (by decide)
  exact ⟨_, _, toList_timesText m n, hx m, hx n, readInteger_toString hm, readInteger_toString hn⟩

/-- A character that is not blank ends no line. -/
theorem isLineEnd_of_not_blank {c : Char} (h : isBlank c = false) : isLineEnd c = false := by
  simp only [isBlank, isLineEnd, Bool.or_eq_false_iff, Bool.and_eq_false_iff,
    decide_eq_false_iff_not, beq_eq_false_iff_ne] at h ⊢
  omega

/-- The line of a noise node, word by word. -/
theorem exists_line_noise (x : Binary64) (source : Option ℕ) :
    ∃ line : String, (noise (.real x) source).line = .ok line ∧ line.toList =
      "node=noise".toList ++ ' ' :: ("noise_amount=".toList ++ x.digitsText) := by
  refine ⟨"node=noise" ++ " " ++ ("noise_amount=" ++ x.toText), rfl, ?_⟩
  simp only [String.toList_append, Binary64.toText, String.toList_ofList]
  simp

/-- The line of a crop node, word by word. -/
theorem exists_line_crop {r : Region} (hr : r.InLimit) :
    ∃ line : String, (crop r).line = .ok line ∧ line.toList =
      "node=crop".toList ++ ' ' :: (("origin=".toList ++ (timesText r.x r.y).toList) ++
        ' ' :: ("size=".toList ++ (timesText r.width r.height).toList)) := by
  refine ⟨"node=crop" ++ " " ++ ("origin=" ++ timesText r.x r.y) ++ " " ++
    ("size=" ++ timesText r.width r.height), ?_, ?_⟩
  · rw [line, values, if_pos hr]
    rfl
  · simp only [String.toList_append]
    simp

/-- The line of a node without parameters is its keyword behind the tag. -/
theorem exists_line_plain {k : Kind} (hk : k ∈ [Kind.greyscale, .normalise, .vignette]) :
    ∃ line : String, k.plain.line = .ok line ∧ "node=".toList <+: line.toList ∧
      (∀ c ∈ line.toList, isLineEnd c = false) ∧
      ∀ strict number, Declares strict number line.toList k.plain [] := by
  have hall : ∀ k ∈ [Kind.greyscale, .normalise, .vignette],
      k.plain.line = .ok ("node=" ++ k.keyword) ∧ k.keyword.toList ≠ [] ∧
        k.keyword.toList.all (fun c => decide (isBlank c = false)) = true ∧
        '=' ∉ k.keyword.toList := by decide
  obtain ⟨hline, hne, hkeyword, heq⟩ := hall k hk
  have hword : ∀ c ∈ k.keyword.toList, isBlank c = false := forall_mem_of_all hkeyword
  refine ⟨"node=" ++ k.keyword, hline, ?_, ?_, ?_⟩
  · rw [String.toList_append]
    exact List.prefix_append _ _
  · rw [String.toList_append, List.forall_mem_append]
    exact ⟨forall_mem_of_all (by decide), fun c hc => isLineEnd_of_not_blank (hword c hc)⟩
  · intro strict number
    rw [String.toList_append]
    exact .plain hk (declaresWord_token hne hword heq)

/-- **The line of a node declares it**, whatever its number, and the line starts with
the tag and has no line end. -/
theorem exists_line {n : Node} (hn : n.Declarable) :
    ∃ line : String, n.line = .ok line ∧ "node=".toList <+: line.toList ∧
      (∀ c ∈ line.toList, isLineEnd c = false) ∧
      ∀ strict number, Declares strict number line.toList n.detached [] := by
  cases n with
  | greyscale => exact exists_line_plain (k := .greyscale) (by decide)
  | normalise => exact exists_line_plain (k := .normalise) (by decide)
  | vignette => exact exists_line_plain (k := .vignette) (by decide)
  | noise a source =>
    cases a with
    | whole m => exact absurd hn (by simp [Declarable])
    | real x =>
      have hx : x.isFinite = true := hn
      have hword := not_blank_amount hx
      obtain ⟨line, hline_eq, hline⟩ := exists_line_noise x source
      refine ⟨line, hline_eq, ?_, ?_, ?_⟩
      · rw [hline]
        exact List.IsPrefix.trans (by decide) (List.prefix_append _ _)
      · rw [hline, List.forall_mem_append, List.forall_mem_cons]
        exact ⟨forall_mem_of_all (by decide), by decide,
          fun c hc => isLineEnd_of_not_blank (hword c hc)⟩
      · intro strict number
        refine .noise ?_ (readReal_digitsText hx) hx
        rw [hline, words_append_cons _ (by decide) (forall_mem_of_all (by decide)) (by decide),
          words_of_no_blank (by simp) hword]
  | crop r =>
    have hr : r.InLimit := hn
    have ⟨hx, hy, hwidth, hheight⟩ := hr
    have hword₁ := not_blank_pair "origin=".toList (forall_mem_of_all (by decide)) r.x r.y
    have hword₂ := not_blank_pair "size=".toList (forall_mem_of_all (by decide)) r.width r.height
    obtain ⟨line, hline_eq, hline⟩ := exists_line_crop hr
    refine ⟨line, hline_eq, ?_, ?_, ?_⟩
    · rw [hline]
      exact List.IsPrefix.trans (by decide) (List.prefix_append _ _)
    · rw [hline, List.forall_mem_append, List.forall_mem_cons, List.forall_mem_append,
        List.forall_mem_cons]
      exact ⟨forall_mem_of_all (by decide), by decide,
        fun c hc => isLineEnd_of_not_blank (hword₁ c hc), by decide,
        fun c hc => isLineEnd_of_not_blank (hword₂ c hc)⟩
    · intro strict number
      refine .crop ?_ (isPair_timesText hx hy) (isPair_timesText hwidth hheight)
      rw [hline, words_append_cons _ (by decide) (forall_mem_of_all (by decide)) (by decide),
        words_append_cons _ (by simp) hword₁ (by decide), words_of_no_blank (by simp) hword₂]
  | custom k => exact absurd hn (by simp [Declarable])

/-! ### What lines declare -/

/-- Every node that the grammar derives can be written, and has no source. -/
theorem declarable_of_declares {strict : Bool} {number : ℤ} {line : List Char} {n : Node}
    {ws : List Fallback} (h : Declares strict number line n ws) :
    n.Declarable ∧ n.detached = n := by
  have hpair : ∀ {text : List Char} {m n : ℤ}, IsPair text m n →
      Numeral.InLimit m ∧ Numeral.InLimit n := by
    rintro text m n ⟨a, b, -, -, -, ha, hb⟩
    exact ⟨inLimit_of_readInteger ha, inLimit_of_readInteger hb⟩
  cases h with
  | plain hk _ =>
    simp only [List.mem_cons, List.not_mem_nil, or_false] at hk
    rcases hk with rfl | rfl | rfl <;> exact ⟨trivial, rfl⟩
  | noise _ _ hfinite => exact ⟨hfinite, rfl⟩
  | crop _ horigin hsize =>
    exact ⟨⟨(hpair horigin).1, (hpair horigin).2, (hpair hsize).1, (hpair hsize).2⟩, rfl⟩
  | plainFallback _ _ _ => exact ⟨trivial, rfl⟩
  | cropFallback _ _ _ _ horigin hsize =>
    exact ⟨⟨(hpair horigin).1, (hpair horigin).2, (hpair hsize).1, (hpair hsize).2⟩, rfl⟩

end Node

/-! ### Definitions of pipelines -/

namespace Definition

theorem dropMark_of_prefix {s : List Char} (h : "node=".toList <+: s) : dropMark s = s := by
  obtain ⟨t, rfl⟩ := h
  rfl

/-- A line in front of other lines is read first. -/
theorem readLinesFrom_cons_of_declares {strict : Bool} {number : ℤ} {line : List Char} {n : Node}
    (h : Declares strict number line n []) {lines : List (List Char)} {nodes : List Node}
    (hlines : readLinesFrom .standard strict (number + 1) lines = ⟨[], .ok nodes⟩) :
    readLinesFrom .standard strict number (line :: lines) = ⟨[], .ok (n :: nodes)⟩ := by
  rw [readLinesFrom, h.readLine_eq]
  simp [Reading.andThen, hlines, Reading.done]

/-- **What lines declare is declarable**, in a strict reading and in a lenient one. -/
theorem declarable_of_readLinesFrom {strict : Bool} {number : ℤ} {lines : List (List Char)}
    {nodes : List Node} (h : (readLinesFrom .standard strict number lines).result = .ok nodes) :
    ∀ n ∈ nodes, n.Declarable ∧ n.detached = n := by
  induction lines generalizing number nodes with
  | nil =>
    obtain rfl := Except.ok.inj h
    simp
  | cons line lines ih =>
    rw [readLinesFrom, Reading.result_andThen_eq_ok_iff] at h
    obtain ⟨node, hnode, hrest⟩ := h
    obtain ⟨rest, hlines, hnodes⟩ := Reading.result_andThen_eq_ok_iff.mp hrest
    obtain rfl := Except.ok.inj hnodes
    intro n hn
    rcases List.mem_append.mp hn with hn | hn
    · obtain rfl := Option.mem_toList.mp hn
      have hline : readLine .standard strict number line =
          ⟨(readLine .standard strict number line).fallbacks, .ok (some n)⟩ := by rw [← hnode]
      exact Node.declarable_of_declares (declares_of_readLine hline)
    · exact ih hlines n hn

/-- A file that declares nodes has lines that declare them. -/
theorem exists_readLinesFrom_of_load {r : Registry} {strict : Bool} {t : FileTree} {path : String}
    {nodes : List Node} (h : (load r strict t path).2 = .ok nodes) :
    ∃ lines, (readLinesFrom r strict 1 lines).result = .ok nodes := by
  unfold load at h
  split at h
  · exact absurd h (by simp)
  · next content _ =>
    simp only at h
    split at h
    · exact absurd h (by simp)
    · next nodes' hread =>
      obtain rfl := Except.ok.inj h
      unfold readBytes at hread
      split at hread
      · exact absurd hread (by simp [Reading.failed])
      · next lines _ => exact ⟨lines, hread⟩

end Definition

namespace Pipeline

/-- **The definition of a pipeline declares its nodes.** -/
theorem readText_text {p : Pipeline} (hp : ∀ n ∈ p, n.Declarable) :
    ∃ s, text p = .ok s ∧
      ∀ strict, readText .standard strict s.toList = ⟨[], .ok (p.map Node.detached)⟩ := by
  -- for the induction: any number of the first line, and no mark that would be dropped
  suffices h : ∃ s, text p = .ok s ∧ dropMark s.toList = s.toList ∧ ∀ strict number,
      readLinesFrom .standard strict number (lines s.toList) = ⟨[], .ok (p.map Node.detached)⟩ by
    obtain ⟨s, hs, hmark, hread⟩ := h
    refine ⟨s, hs, fun strict => ?_⟩
    rw [readText, hmark]
    exact hread strict 1
  induction p with
  | nil => exact ⟨"", rfl, rfl, fun strict number => rfl⟩
  | cons n p ih =>
    obtain ⟨hn, hp⟩ := List.forall_mem_cons.mp hp
    obtain ⟨line, hline, htag, hend, hdeclares⟩ := Node.exists_line hn
    obtain ⟨s, hs, -, hread⟩ := ih hp
    have htext : (line ++ "\n" ++ s).toList = line.toList ++ '\n' :: s.toList := by
      rw [String.toList_append, String.toList_append]
      simp
    refine ⟨line ++ "\n" ++ s, ?_, ?_, fun strict number => ?_⟩
    · simp only [text, hline, hs]
    · rw [htext]
      exact dropMark_of_prefix (htag.trans (List.prefix_append _ _))
    · rw [htext, lines_append_newline _ hend, List.map_cons]
      exact readLinesFrom_cons_of_declares (hdeclares strict number) (hread strict (number + 1))

theorem text_map_detached (p : Pipeline) : text (p.map Node.detached) = text p := by
  induction p with
  | nil => rfl
  | cons n p ih => simp only [List.map_cons, text, Node.line_detached, ih]

theorem beq_map_detached {p : Pipeline} (hp : ∀ n ∈ p, n.Declarable) :
    beq (p.map Node.detached) p = true := by
  induction p with
  | nil => rfl
  | cons n p ih =>
    obtain ⟨hn, hp⟩ := List.forall_mem_cons.mp hp
    rw [List.map_cons, beq, Node.beq_detached hn, ih hp]
    rfl

/-- What lines declare is read back from its own definition. -/
theorem readText_text_of_readLinesFrom {strict : Bool} {lines : List (List Char)} {q : Pipeline}
    (h : (readLinesFrom .standard strict 1 lines).result = .ok q) :
    (∀ n ∈ q, n.Declarable) ∧
      ∃ s, text q = .ok s ∧ readText .standard true s.toList = ⟨[], .ok q⟩ := by
  have hq := declarable_of_readLinesFrom h
  have hdetached : q.map Node.detached = q := by
    conv_rhs => rw [← List.map_id q]
    exact List.map_congr_left fun n hn => (hq n hn).2
  obtain ⟨s, hs, hread⟩ := readText_text fun n hn => (hq n hn).1
  rw [hdetached] at hread
  exact ⟨fun n hn => (hq n hn).1, s, hs, hread true⟩

/-- **Writing and reading are inverse to each other.**  The definition of declarable
nodes is read back strictly and without fallbacks: it declares the same nodes with
the same amounts, and these have the same definition again.  What a text or a file
declares, strictly or not, is declarable, so it is read back from its own definition
exactly. -/
theorem definition_round_trip :
    (∀ p : Pipeline, (∀ n ∈ p, n.Declarable) → ∃ s, text p = .ok s ∧
      readText .standard true s.toList = ⟨[], .ok (p.map Node.detached)⟩ ∧
      beq (p.map Node.detached) p = true ∧ text (p.map Node.detached) = .ok s) ∧
    (∀ (strict : Bool) (input : List Char) (q : Pipeline),
      (readText .standard strict input).result = .ok q →
        (∀ n ∈ q, n.Declarable) ∧
          ∃ s, text q = .ok s ∧ readText .standard true s.toList = ⟨[], .ok q⟩) ∧
    (∀ (strict : Bool) (t : FileTree) (path : String) (q : Pipeline),
      (load .standard strict t path).2 = .ok q →
        (∀ n ∈ q, n.Declarable) ∧
          ∃ s, text q = .ok s ∧ readText .standard true s.toList = ⟨[], .ok q⟩) := by
  refine ⟨?_, ?_, ?_⟩
  · intro p hp
    obtain ⟨s, hs, hread⟩ := readText_text hp
    exact ⟨s, hs, hread true, beq_map_detached hp, (text_map_detached p).trans hs⟩
  · intro strict input q h
    exact readText_text_of_readLinesFrom h
  · intro strict t path q h
    obtain ⟨lines, hlines⟩ := exists_readLinesFrom_of_load h
    exact readText_text_of_readLinesFrom hlines

/-- A negative zero and a crop with a negative corner come back from their
definition, and so does what takes the place of an unknown keyword. -/
theorem definition_round_trip_negative_zero :
    (∃ s, text [.noise (.real (-.zero)) none, .crop ⟨-1, 0, 3, 4⟩] = .ok s ∧
      readText .standard true s.toList =
        ⟨[], .ok [.noise (.real (-.zero)) none, .crop ⟨-1, 0, 3, 4⟩]⟩) ∧
    (∃ s, text [.vignette] = .ok s ∧ readText .standard true s.toList = ⟨[], .ok [.vignette]⟩) ∧
    ∃ s, text [.greyscale] = .ok s ∧
      readText .standard true s.toList = ⟨[], .ok [.greyscale]⟩ := by
  obtain ⟨hwrite, hread, hload⟩ := definition_round_trip
  have hlimit : Region.InLimit ⟨-1, 0, 3, 4⟩ := by decide
  obtain ⟨s, hs, hback, -⟩ := hwrite [.noise (.real (-.zero)) none, .crop ⟨-1, 0, 3, 4⟩] (by
    simp only [List.forall_mem_cons]
    exact ⟨rfl, hlimit, by simp⟩)
  have hlines : decodeLines (Content.ofText "node=greyscale").toBytes =
      .ok ["node=greyscale".toList] := by
    show decodeLinesFrom 1
      [[110, 111, 100, 101, 61, 103, 114, 101, 121, 115, 99, 97, 108, 101]] = _
    simp [decodeLinesFrom, Utf8.decode, Utf8.decodeFrom, Utf8.step]
  have hfile : (load .standard true
      ⟨[(.below ["p"], .file (.ofText "node=greyscale"))]⟩ "p").2 = .ok [.greyscale] := by
    have hread : FileTree.read ⟨[(.below ["p"], .file (.ofText "node=greyscale"))]⟩ "p" =
        .ok (.ofText "node=greyscale") := rfl
    rw [load, hread]
    simp only [readBytes, hlines]
    rfl
  refine ⟨⟨s, hs, hback⟩, (hread false " node = sepia".toList _ rfl).2, ?_⟩
  exact (hload true _ "p" _ hfile).2

end Pipeline
end ImagePipeline
