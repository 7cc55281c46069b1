import ImagePipeline.Pipeline.Basic
import ImagePipeline.Proofs.Binary64.Nearest
import ImagePipeline.Proofs.File.Tree

/-!
# Saving pipelines

The file is opened before the definition is made.  A path that cannot be opened leaves the
tree as it was, and a definition that can be made is the whole content of its file.  But a
pipeline has no definition if one of its nodes cannot be written, since the amount of its noise
is too large for a number or an integer of its region has too many digits, and that is found out
when the file is already empty.

## Main definitions

* `FileTree.Replaces` — a tree with another content in the file at a path.
* `Node.Unwritable`, `FirstUnwritable` — what cannot be written, and for what reason.

## Main results

* `Node.line_eq_error_iff`, `text_eq_error_iff` — nodes and pipelines without a definition.
* `save_outcome` — the three ways in which saving ends.
-/

namespace ImagePipeline

/-- The tree `t'` is the tree `t` with the content `c` in the file that is opened at a path. -/
structure FileTree.Replaces (path : String) (c : Content) (t t' : FileTree) : Prop where
  read_eq : t'.read path = .ok c
  lookup_eq : ∃ q, t.writable path = .ok q ∧ t'.resolve path = .ok q ∧
    ∀ p, p ≠ q → t'.lookup p = t.lookup p

theorem FileTree.replaces_insert {t : FileTree} {path : String} {q : Place}
    (h : t.writable path = .ok q) (c : Content) : Replaces path c t (t.insert q (.file c)) := by
  obtain ⟨hnames, -, hresolve⟩ := writable_eq_ok h
  refine ⟨read_eq_ok_iff.mpr ⟨q, hresolve c, ?_⟩, q, h, hresolve c, fun p hp => ?_⟩
  · rw [lookup_insert t hnames, if_pos rfl]
  · rw [lookup_insert t hnames, if_neg hp]

/-! ### What cannot be written -/

/-- The least integer from which on, and below its negative, amounts have no number. -/
def Noise.amountBound : ℤ := (2 ^ 54 - 1) * 2 ^ 970

theorem Noise.Amount.toNumber?_eq_none_iff (a : Noise.Amount) :
    a.toNumber? = none ↔ ∃ m, a = .whole m ∧ amountBound ≤ |m| := by
  cases a with
  | real x => simp [toNumber?]
  | whole m =>
    have hrange : (Binary64.ofInt m).isFinite = true ↔ |m| < amountBound :=
      Binary64.isFinite_ofInt_iff m
    simp only [toNumber?, Amount.whole.injEq, exists_eq_left']
    split
    · next h =>
      exact ⟨fun hnone => absurd hnone (by simp), fun hle => absurd (hrange.mp h) hle.not_gt⟩
    · next h => exact ⟨fun _ => not_lt.mp (fun hlt => h (hrange.mpr hlt)), fun _ => rfl⟩

/-- A node cannot be written: it adds noise of an amount too large for a number, or it crops to a
region with an integer that has too many digits. -/
inductive Node.Unwritable : Node → TextError → Prop
  | noise {m : ℤ} (id : Option ℕ) (h : Noise.amountBound ≤ |m|) :
      Unwritable (.noise (.whole m) id) .amountTooLarge
  | crop {r : Region} (h : ¬ r.InLimit) : Unwritable (.crop r) .overlong

theorem Node.values_eq_error_iff {n : Node} {e : TextError} :
    n.values = .error e ↔ n.Unwritable e := by
  constructor
  · intro h
    cases n with
    | noise a id =>
      cases ha : a.toNumber? with
      | some x => exact absurd h (by simp [values, ha])
      | none =>
        rw [values, ha] at h
        obtain rfl := Except.error.inj h
        obtain ⟨m, rfl, hm⟩ := a.toNumber?_eq_none_iff.mp ha
        exact .noise id hm
    | crop r =>
      rw [values] at h
      split at h
      · exact absurd h (by simp)
      · next hr =>
        obtain rfl := Except.error.inj h
        exact .crop hr
    | _ => exact absurd h (by simp [values])
  · rintro (⟨id, hm⟩ | hr)
    · rw [values, (Noise.Amount.toNumber?_eq_none_iff _).mpr ⟨_, rfl, hm⟩]
    · rw [values, if_neg hr]

/-- A node has no definition line exactly if it cannot be written. -/
theorem Node.line_eq_error_iff {n : Node} {e : TextError} :
    n.line = .error e ↔ n.Unwritable e := by
  rw [← values_eq_error_iff, line]
  cases n.values <;> simp [Except.map]

namespace Pipeline

/-- The first node that cannot be written, and for what reason. -/
def FirstUnwritable (p : Pipeline) (e : TextError) : Prop :=
  ∃ before n after, p = before ++ n :: after ∧ (∀ m ∈ before, ∀ e', ¬ m.Unwritable e') ∧
    n.Unwritable e

theorem firstUnwritable_cons_iff {n : Node} {p : Pipeline} {e : TextError} :
    FirstUnwritable (n :: p) e ↔
      n.Unwritable e ∨ (∀ e', ¬ n.Unwritable e') ∧ FirstUnwritable p e := by
  constructor
  · rintro ⟨before, m, after, hp, hbefore, hm⟩
    cases before with
    | nil =>
      obtain ⟨rfl, -⟩ := List.cons.inj hp
      exact Or.inl hm
    | cons m' before =>
      obtain ⟨rfl, rfl⟩ := List.cons.inj hp
      obtain ⟨hn, hbefore⟩ := List.forall_mem_cons.mp hbefore
      exact Or.inr ⟨hn, before, m, after, rfl, hbefore, hm⟩
  · rintro (hn | ⟨hn, before, m, after, rfl, hbefore, hm⟩)
    · exact ⟨[], n, p, rfl, by simp, hn⟩
    · exact ⟨n :: before, m, after, rfl, List.forall_mem_cons.mpr ⟨hn, hbefore⟩, hm⟩

theorem text_cons_eq_error_iff {n : Node} {p : Pipeline} {e : TextError} :
    text (n :: p) = .error e ↔
      n.Unwritable e ∨ (∀ e', ¬ n.Unwritable e') ∧ text p = .error e := by
  simp only [← Node.line_eq_error_iff, text]
  cases n.line with
  | error e' => simp
  | ok line => cases text p <;> simp

/-- A pipeline has no definition exactly if one of its nodes cannot be written, and the first of
them is to blame. -/
theorem text_eq_error_iff {p : Pipeline} {e : TextError} :
    p.text = .error e ↔ p.FirstUnwritable e := by
  induction p with
  | nil => simp [text, FirstUnwritable]
  | cons n p ih => rw [text_cons_eq_error_iff, firstUnwritable_cons_iff, ih]

/-! ### The three ways -/

/-- **Saving ends in one of three ways.**  The definition is the content of the file at the path
and nothing else has changed; or the path cannot be opened and nothing has changed; or a node
cannot be written, and the file at the path is empty, whatever it held before. -/
theorem save_outcome (p : Pipeline) (t : FileTree) (path : String) :
    (∃ s, p.text = .ok s ∧ (p.save t path).2 = none ∧
      FileTree.Replaces path (.bytes (Utf8.encode s.toList)) t (p.save t path).1) ∨
    (∃ e, t.writable path = .error e ∧ p.save t path = (t, some (.file e))) ∨
    (∃ e, p.FirstUnwritable e ∧ (p.save t path).2 = some (.text e) ∧
      FileTree.Replaces path (.bytes []) t (p.save t path).1) := by
  unfold save
  cases hopen : t.writable path with
  | error e => exact Or.inr (Or.inl ⟨e, rfl, rfl⟩)
  | ok place =>
    cases htext : p.text with
    | ok s => exact Or.inl ⟨s, rfl, rfl, FileTree.replaces_insert hopen _⟩
    | error e =>
      exact Or.inr (Or.inr ⟨e, text_eq_error_iff.mp htext, rfl, FileTree.replaces_insert hopen _⟩)

/-- A definition is lost when a pipeline that cannot be written is saved over it. -/
theorem save_empties_definition :
    let t : FileTree := ⟨[(.below ["a"], .file (.ofText "node=greyscale\n"))]⟩
    let p : Pipeline := [.noise (.whole (10 ^ 400)) none]
    t.read "a" = .ok (.ofText "node=greyscale\n") ∧
      (p.save t "a").2 = some (.text .amountTooLarge) ∧
      (p.save t "a").1.read "a" = .ok (.bytes []) := by
  decide +kernel

end Pipeline
end ImagePipeline
