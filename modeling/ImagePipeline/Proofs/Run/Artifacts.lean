import ImagePipeline.Proofs.File.Picture
import ImagePipeline.Proofs.Run.Events

/-!
# What a run saves

The results of a run in the file tree.  However a run ends, each of its steps whose
saving completed has left a file with its result under a name of its own, and nothing
else in the tree has changed but that the directory of the results is there.

## Main definitions

* `resultPath` — where the result of a step is saved.
* `madeImages` — the images that nodes make one after another.
* `countSaved` — how many results are saved by events.
* `Mirrors` — a tree holds given images as the results of the first steps.
* `StepOutcome` — how a step of a run that saves its results ends.
* `Leaves` — what the steps of a run leave behind.

## Main results

* `SavesPng.resolve_resultPath_injective` — the files of different steps are different.
* `SavesPng.of_saveResult_ok`, `changes_of_saveResult_error` — what saving a result does.
* `exists_leaves_runSteps` — what the steps of a run leave behind.
* `run_artifacts` — what a run leaves behind.
-/

namespace ImagePipeline
namespace Run

open FileTree

/-! ### The paths of results -/

/-- The name of the file that the result of a step is saved in. -/
def resultName (o : Options) (step : ℤ) : String := o.stem ++ toString step ++ ".png"

/-- Where the result of a step is saved. -/
def resultPath (o : Options) (step : ℤ) : Path := o.directory.join (resultName o step)

/-- A run saves its results in PNG files right below its directory. -/
structure SavesPng (o : Options) : Prop where
  directory : o.directory.IsNormal
  slash_notMem : '/' ∉ o.stem.toList
  extension : o.extension = "png".toList

theorem slash_notMem_toString (k : ℤ) : '/' ∉ (toString k).toList := by
  intro h
  rcases Numeral.isDigit_or_eq_minus_of_mem_toString h with hdigit | hminus
  · exact Numeral.ne_of_isDigit hdigit (by decide) rfl
  · exact absurd hminus (by decide)

/-- A number leaves a character other than a dot in the name that it is part of. -/
theorem exists_ne_dot_mem (stem ending : String) (k : ℤ) :
    ∃ c ∈ (stem ++ toString k ++ ending).toList, c ≠ '.' := by
  obtain ⟨c, hc, hdigit⟩ := Numeral.exists_isDigit_mem_toString k
  refine ⟨c, ?_, Numeral.ne_of_isDigit hdigit (by decide)⟩
  rw [String.toList_append, String.toList_append, List.mem_append, List.mem_append]
  exact Or.inl (Or.inr hc)

section

variable {o : Options} {t t' : FileTree} {k : ℤ}

/-- A stem and a number make a name. -/
theorem SavesPng.isName_stem (h : SavesPng o) (k : ℤ) : IsName (o.stem ++ toString k) := by
  obtain ⟨c, hc, hdot⟩ := exists_ne_dot_mem o.stem "" k
  rw [String.append_empty] at hc
  refine isName_of_mem hc hdot ?_
  rw [String.toList_append, List.mem_append, not_or]
  exact ⟨h.slash_notMem, slash_notMem_toString k⟩

theorem SavesPng.isName_resultName (h : SavesPng o) (k : ℤ) : IsName (resultName o k) :=
  isName_png (h.isName_stem k)

theorem resultName_injective (o : Options) : Function.Injective (resultName o) := by
  intro i j h
  have htext := congrArg String.toList h
  simp only [resultName, String.toList_append, List.append_assoc, List.append_cancel_left_eq,
    List.append_cancel_right_eq] at htext
  exact Numeral.toString_injective (String.toList_inj.mp htext)

theorem resultName_ne_up (o : Options) (k : ℤ) : resultName o k ≠ ".." := by
  intro h
  obtain ⟨c, hc, hdot⟩ := exists_ne_dot_mem o.stem ".png" k
  have hmem : c ∈ "..".toList := by rwa [← h]
  exact hdot (by simpa using hmem)

theorem SavesPng.resultPath_eq (h : SavesPng o) (k : ℤ) :
    resultPath o k = ⟨o.directory.slashes, o.directory.names ++ [resultName o k]⟩ :=
  Path.join_of_isName o.directory (h.isName_resultName k)

theorem SavesPng.resultPath_injective (h : SavesPng o) : Function.Injective (resultPath o) := by
  intro i j hij
  rw [h.resultPath_eq, h.resultPath_eq, Path.mk.injEq] at hij
  exact resultName_injective o (List.singleton_inj.mp (List.append_cancel_left hij.2))

/-- The path that a run writes the result of a step to. -/
theorem SavesPng.picturePath_eq (h : SavesPng o) (k : ℤ) :
    picturePath (resultStem o k) o.extension = resultPath o k := by
  rw [resultStem, h.extension, picturePath_png h.directory (h.isName_stem k)]
  rfl

/-- The place of a result is that of its name in the place of the directory. -/
theorem SavesPng.exists_child_of_resolve (h : SavesPng o) {q : Place}
    (hq : t.resolve (resultPath o k).toString = .ok q) :
    ∃ d, t.follow (if o.directory.slashes = 0 then .below [] else ⟨.root, []⟩)
      o.directory.names = .ok d ∧ q = d.child (resultName o k) :=
  exists_child_of_resolve_join h.directory (h.isName_resultName k) (resultName_ne_up o k) hq

/-- **The files of different steps are different.** -/
theorem SavesPng.resolve_resultPath_injective (h : SavesPng o) {i j : ℤ} {q : Place}
    (hi : t.resolve (resultPath o i).toString = .ok q)
    (hj : t.resolve (resultPath o j).toString = .ok q) : i = j := by
  obtain ⟨d, hd, rfl⟩ := h.exists_child_of_resolve hi
  obtain ⟨d', hd', hchild⟩ := h.exists_child_of_resolve hj
  obtain rfl := Except.ok.inj (hd.symm.trans hd')
  rw [Place.child, Place.child, Place.mk.injEq] at hchild
  exact resultName_injective o (List.singleton_inj.mp (List.append_cancel_left hchild.2))

/-! ### Saving one result -/

theorem changes_prepareDirectory (files : String → Prop) (o : Options) (t : FileTree) :
    Changes files (IsUpFrom o.directory) t (prepareDirectory o t).1 := by
  unfold prepareDirectory
  split
  · exact .refl t
  · exact changes_makeDirectories files t o.directory

/-- A result is saved in the tree with its directory, or that tree is all there is. -/
theorem saveResult_cases (o : Options) (t : FileTree) (k : ℤ) (img : Image) :
    (∃ e, saveResult o t k img = ((prepareDirectory o t).1, .error e)) ∨
      ∃ t', (prepareDirectory o t).1.saveImage (picturePath (resultStem o k) o.extension) img =
          .ok t' ∧
        saveResult o t k img = (t', .ok (picturePath (resultStem o k) o.extension)) := by
  unfold saveResult
  rcases prepareDirectory o t with ⟨t₁, _ | e⟩
  · simp only [writeImage]
    cases t₁.saveImage (picturePath (resultStem o k) o.extension) img with
    | error e => exact Or.inl ⟨e, rfl⟩
    | ok t' => exact Or.inr ⟨t', rfl, rfl⟩
  · exact Or.inl ⟨.file e, rfl⟩

/-- A result that is not saved leaves at most directories behind. -/
theorem changes_of_saveResult_error {img : Image} {f : SaveError} (files : String → Prop)
    (h : saveResult o t k img = (t', .error f)) : Changes files (IsUpFrom o.directory) t t' := by
  rcases saveResult_cases o t k img with ⟨e, herror⟩ | ⟨t'', -, hok⟩
  · obtain ⟨rfl, -⟩ := Prod.mk.inj (herror.symm.trans h)
    exact changes_prepareDirectory files o t
  · exact absurd (Prod.mk.inj (hok.symm.trans h)).2 (by simp)

/-- **A result that is saved is held by its own file**, and apart from this file nothing
changes but that directories are made. -/
theorem SavesPng.of_saveResult_ok (ho : SavesPng o) {img : Image} {path : Path}
    (h : saveResult o t k img = (t', .ok path)) :
    path = resultPath o k ∧
      Changes (fun path => path = (resultPath o k).toString) (IsUpFrom o.directory) t t' ∧
      ∃ q, t'.resolve (resultPath o k).toString = .ok q ∧
        t'.lookup q = some (.file (.ofImage .png img)) := by
  rcases saveResult_cases o t k img with ⟨e, herror⟩ | ⟨t'', hsave, hok⟩
  · exact absurd (Prod.mk.inj (herror.symm.trans h)).2 (by simp)
  · obtain ⟨rfl, hpath⟩ := Prod.mk.inj (hok.symm.trans h)
    rw [ho.picturePath_eq] at hsave hpath
    obtain ⟨hwrite, hlast⟩ := saveImage_png_eq_ok (ho.isName_stem k) hsave
    exact ⟨(Except.ok.inj hpath).symm,
      (changes_prepareDirectory _ o t).trans (changes_write rfl hwrite), hlast⟩

/-! ### The results of several steps -/

/-- The tree `t` holds the images as the results of the first steps of a run, and differs
from the tree `t₀` in nothing else but directories that were missing. -/
structure Mirrors (o : Options) (t₀ : FileTree) (images : List Image) (t : FileTree) : Prop where
  changes : Changes
    (fun path => ∃ i : ℕ, i < images.length ∧ path = (resultPath o (i + 1)).toString)
    (IsUpFrom o.directory) t₀ t
  holds : ∀ (i : ℕ) img, images[i]? = some img → ∃ q,
    t.resolve (resultPath o (i + 1)).toString = .ok q ∧
      t.lookup q = some (.file (.ofImage .png img))

variable {t₀ : FileTree} {images : List Image}

theorem mirrors_nil (o : Options) (t : FileTree) : Mirrors o t [] t :=
  ⟨.refl t, fun i img h => absurd h (by simp)⟩

/-- Directories that are made do not matter. -/
theorem Mirrors.of_changes (h : Mirrors o t₀ images t)
    (hchanges : Changes (fun _ => False) (IsUpFrom o.directory) t t') :
    Mirrors o t₀ images t' where
  changes := h.changes.trans (hchanges.mono (fun _ => False.elim) fun _ => id)
  holds := by
    intro i img himg
    obtain ⟨q, hresolve, hlookup⟩ := h.holds i img himg
    exact ⟨q, hchanges.grows.resolve hresolve, hchanges.lookup_eq hlookup fun _ => False.elim⟩

/-- **The result of the next step comes on top.** -/
theorem Mirrors.concat (ho : SavesPng o) (h : Mirrors o t₀ images t) {img : Image} {path : Path}
    (hsaved : saveResult o t (images.length + 1) img = (t', .ok path)) :
    Mirrors o t₀ (images ++ [img]) t' := by
  obtain ⟨-, hchanges, hlast⟩ := ho.of_saveResult_ok hsaved
  constructor
  · refine (h.changes.mono ?_ fun _ => id).trans (hchanges.mono ?_ fun _ => id)
    · rintro path ⟨i, hi, rfl⟩
      exact ⟨i, by simp; omega, rfl⟩
    · rintro path rfl
      exact ⟨images.length, by simp, rfl⟩
  · intro i img' himg
    by_cases hi : i < images.length
    · rw [List.getElem?_append_left hi] at himg
      obtain ⟨q, hresolve, hlookup⟩ := h.holds i img' himg
      refine ⟨q, hchanges.grows.resolve hresolve, hchanges.lookup_eq hlookup ?_⟩
      -- the new file is not that of an earlier step
      rintro path rfl hq
      have := ho.resolve_resultPath_injective (hchanges.grows.resolve hresolve) hq
      omega
    · rw [List.getElem?_append_right (by omega), List.getElem?_singleton] at himg
      split at himg
      · next hlength =>
        have hi : i = images.length := by omega
        rw [hi, ← Option.some.inj himg]
        exact hlast
      · exact absurd himg (by simp)

end

/-! ### How steps end -/

/-- The images that nodes make one after another, up to the first that makes none. -/
def madeImages : List Node → Sources → Image → List Image
  | [], _, _ => []
  | n :: ns, sources, img =>
    match n.apply sources img with
    | .error _ => []
    | .ok (img', sources') => img' :: madeImages ns sources' img'

/-- How many results are saved by events, up to the first event that fails. -/
def countSaved (o : Options) : List Event → Progress → ℕ
  | [], _ => 0
  | e :: es, p =>
    match e.perform o p with
    | .error _ => 0
    | .ok q => (if e.phase = .save then 1 else 0) + countSaved o es q

section

variable {o : Options} {k : ℤ} {n : Node} {s : State} {p : Progress} {base : List Report}

theorem countSaved_append_of_ok {a : List Event} (b : List Event) {q : Progress}
    (h : performAll o a p = .ok q) :
    countSaved o (a ++ b) p = countSaved o a p + countSaved o b q := by
  induction a generalizing p with
  | nil =>
    obtain rfl := Except.ok.inj h
    simp [countSaved]
  | cons e a ih =>
    rw [performAll] at h
    rw [List.cons_append, countSaved, countSaved]
    cases hfirst : e.perform o p with
    | error stop => simp [hfirst] at h
    | ok p' =>
      simp only [hfirst] at h
      simp only [ih h, Nat.add_assoc]

theorem countSaved_append_of_error {a : List Event} (b : List Event) {stop : Stop}
    (h : performAll o a p = .error stop) : countSaved o (a ++ b) p = countSaved o a p := by
  induction a generalizing p with
  | nil => simp [performAll] at h
  | cons e a ih =>
    rw [performAll] at h
    rw [List.cons_append, countSaved, countSaved]
    cases hfirst : e.perform o p with
    | error stop' => rfl
    | ok p' =>
      simp only [hfirst] at h
      simp only [ih h]

/-- How a step of a run that saves its results ends, and how many results it saves. -/
inductive StepOutcome (o : Options) (k : ℤ) (n : Node) (s : State) :
    ℕ → State × Option Stop → Prop
  | overlong : StepOutcome o k n s 0 (s, some .overlong)
  | failed {f : Failure} {s' : State} (happly : n.apply s.sources s.image = .error f)
      (htree : s'.tree = s.tree) (hreports : s'.reports = s.reports) :
      StepOutcome o k n s 0 (s', some (.failed ⟨k, n.name, .node f⟩))
  | unsaved {img : Image} {f : SaveError} {s' : State}
      (hsaved : saveResult o s.tree k img = (s'.tree, .error f))
      (hreports : s'.reports = s.reports) :
      StepOutcome o k n s 0 (s', some (.failed ⟨k, n.name, .saving f⟩))
  | saved {path : Path} {r : Report} {s' : State} {stop : Option Stop}
      (happly : n.apply s.sources s.image = .ok (s'.image, s'.sources))
      (hsaved : saveResult o s.tree k s'.image = (s'.tree, .ok path))
      (hreports : s'.reports = s.reports ++ [r]) (hstep : r.step = k)
      (hartifact : r.artifact = some path) (hstop : ∀ e, stop ≠ some (.failed e)) :
      StepOutcome o k n s 1 (s', stop)

theorem stepOutcome_runStep (ht : Tracks base s p) (hsave : o.saveSteps = true) :
    StepOutcome o k n s (countSaved o (stepEvents o k n) p) (runStep o k n s) := by
  have hevents : stepEvents o k n =
      [⟨.announce, k, n⟩, ⟨.apply, k, n⟩, ⟨.save, k, n⟩, ⟨.observe, k, n⟩] := by
    simp [stepEvents, resultEvents, hsave]
  rw [hevents]
  have hstep := stepEnds_runStep (o := o) (k := k) (n := n) (s := s)
  generalize runStep o k n s = outcome at hstep ⊢
  cases hstep with
  | overlong hr =>
    simp only [countSaved, ht.perform_announce, hr]
    exact .overlong
  | refused hr happly =>
    simp only [countSaved, ht.perform_announce, hr, ht.perform_apply, happly]
    exact .failed happly (State.tree_tell ..) (State.reports_tell ..)
  | unsavable hr happly _ hsaved =>
    simp only [countSaved, ht.perform_announce, hr, ht.perform_apply, happly, ht.perform_save,
      hsaved]
    exact .unsaved hsaved (State.reports_tell ..)
  | @saved r img sources t path hr happly _ hsaved =>
    have hcount : countSaved o
        [⟨.announce, k, n⟩, ⟨.apply, k, n⟩, ⟨.save, k, n⟩, ⟨.observe, k, n⟩] p = 1 := by
      simp only [countSaved, ht.perform_announce, hr, ht.perform_apply, happly, ht.perform_save,
        hsaved]
      cases (Event.mk .observe k n).perform o (((p.opened r).applied img sources).saved t path) <;>
        rfl
    obtain ⟨-, rfl⟩ := openReport?_eq_some_iff.mp hr
    rw [hcount]
    exact .saved (by simpa using happly) (by simpa using hsaved) (by simp; rfl) rfl rfl (by simp)
  | unsaved _ _ hunsaved => exact absurd (hsave.symm.trans hunsaved) (by simp)

/-- What steps leave behind, the first of which is step `k` and works on the state `s`:
their results `saved` on top of the images that the tree holds, the reports `rs`, and how
they end. -/
structure Leaves (o : Options) (t₀ : FileTree) (images : List Image) (k : ℤ) (ns : List Node)
    (s : State) (count : ℕ) (outcome : State × Option Stop) (saved : List Image)
    (rs : List Report) : Prop where
  made : saved <+: madeImages ns s.sources s.image
  length : saved.length = count
  mirrors : Mirrors o t₀ (images ++ saved) outcome.1.tree
  reports : outcome.1.reports = s.reports ++ rs
  length_reports : rs.length = saved.length
  numbered : ∀ (i : ℕ) r, rs[i]? = some r →
    r.step = k + i ∧ r.artifact = some (resultPath o (k + i))
  finished : outcome.2 = none → saved.length = ns.length
  failed : ∀ e, outcome.2 = some (.failed e) → e.step = k + saved.length

variable {t₀ : FileTree} {images : List Image} {m : ℕ} {s' : State}

theorem leaves_nothing {ns : List Node} {outcome : State × Option Stop}
    (hm : Mirrors o t₀ images outcome.1.tree) (hreports : outcome.1.reports = s.reports)
    (hfinished : outcome.2 = none → ns = [])
    (hfailed : ∀ e, outcome.2 = some (.failed e) → e.step = k) :
    Leaves o t₀ images k ns s 0 outcome [] [] where
  made := List.nil_prefix
  length := rfl
  mirrors := by rwa [List.append_nil]
  reports := by rw [hreports, List.append_nil]
  length_reports := rfl
  numbered i r h := absurd h (by simp)
  finished h := by simp [hfinished h]
  failed e h := by simp [hfailed e h]

/-- What a step and those behind it leave behind. -/
theorem Leaves.cons {ns : List Node} {r : Report} {count : ℕ}
    {outcome : State × Option Stop} {saved : List Image} {rs : List Report}
    (happly : n.apply s.sources s.image = .ok (s'.image, s'.sources))
    (hreports : s'.reports = s.reports ++ [r]) (hstep : r.step = k)
    (hartifact : r.artifact = some (resultPath o k))
    (h : Leaves o t₀ (images ++ [s'.image]) (k + 1) ns s' count outcome saved rs) :
    Leaves o t₀ images k (n :: ns) s (1 + count) outcome (s'.image :: saved) (r :: rs) where
  made := by
    simpa only [madeImages, happly, List.cons_prefix_cons, true_and] using h.made
  length := by rw [List.length_cons, h.length, Nat.add_comm]
  mirrors := by simpa using h.mirrors
  reports := by rw [h.reports, hreports, List.append_assoc, List.singleton_append]
  length_reports := by rw [List.length_cons, List.length_cons, h.length_reports]
  numbered := by
    intro i r' hr'
    cases i with
    | zero =>
      obtain rfl := Option.some.inj hr'
      simp [hstep, hartifact]
    | succ i =>
      have hi : k + ((i + 1 : ℕ) : ℤ) = k + 1 + i := by omega
      rw [hi]
      exact h.numbered i r' hr'
  finished hnone := by rw [List.length_cons, List.length_cons, h.finished hnone]
  failed := by
    intro e he
    rw [h.failed e he, List.length_cons]
    omega

/-- The last step of a run leaves its result behind, or nothing. -/
theorem StepOutcome.exists_leaves (ho : SavesPng o) (hk : k = images.length + 1)
    (hm : Mirrors o t₀ images s.tree) (ns : List Node) {stop : Stop}
    (h : StepOutcome o k n s m (s', some stop)) :
    ∃ saved rs, Leaves o t₀ images k (n :: ns) s m (s', some stop) saved rs := by
  cases h with
  | overlong =>
    exact ⟨[], [], leaves_nothing hm rfl (fun h => absurd h (by simp)) fun e h =>
      absurd h (by simp)⟩
  | failed happly htree hreports =>
    refine ⟨[], [], leaves_nothing (htree ▸ hm) hreports (fun h => absurd h (by simp)) ?_⟩
    intro e h
    rw [← Stop.failed.inj (Option.some.inj h)]
  | unsaved hsaved hreports =>
    have hm' : Mirrors o t₀ images s'.tree := hm.of_changes (changes_of_saveResult_error _ hsaved)
    refine ⟨[], [], leaves_nothing hm' hreports (fun h => absurd h (by simp)) ?_⟩
    intro e h
    rw [← Stop.failed.inj (Option.some.inj h)]
  | saved happly hsaved hreports hstep hartifact hstop =>
    -- the steps behind it leave nothing
    obtain ⟨rfl, -⟩ := ho.of_saveResult_ok hsaved
    have hm' : Mirrors o t₀ (images ++ [s'.image]) s'.tree := hm.concat ho (hk ▸ hsaved)
    have hrest : Leaves o t₀ (images ++ [s'.image]) (k + 1) ns s' 0 (s', some stop) [] [] :=
      leaves_nothing hm' rfl (fun h => absurd h (by simp)) fun e h => absurd h (hstop e)
    exact ⟨_, _, hrest.cons happly hreports hstep hartifact⟩

/-- **What the steps of a run leave behind**, where the tree already holds the results of
the steps before. -/
theorem exists_leaves_runSteps (ho : SavesPng o) (hsave : o.saveSteps = true) (ns : List Node)
    (ht : Tracks base s p) (hk : k = images.length + 1) (hm : Mirrors o t₀ images s.tree) :
    ∃ saved rs, Leaves o t₀ images k ns s (countSaved o (schedule o k ns) p) (runSteps o k ns s)
      saved rs := by
  induction ns generalizing k s p images with
  | nil =>
    exact ⟨[], [], leaves_nothing hm rfl (fun _ => rfl) fun e h => absurd h (by simp [runSteps])⟩
  | cons n ns ih =>
    have hfollows : Follows o base p (stepEvents o k n) (runStep o k n s) := follows_runStep ht
    have houtcome := stepOutcome_runStep (k := k) (n := n) ht hsave
    generalize hcount : countSaved o (stepEvents o k n) p = m at houtcome
    rw [schedule]
    rcases hrun : runStep o k n s with ⟨s', _ | stop⟩
    · rw [hrun] at hfollows houtcome
      rw [runSteps_cons_of_none hrun]
      cases hfollows with
      | goesOn hperform ht' =>
        rw [countSaved_append_of_ok _ hperform, hcount]
        cases houtcome with
        | saved happly hsaved hreports hstep hartifact hstop =>
          -- the other steps come on top of what this one has saved
          obtain ⟨rfl, -⟩ := ho.of_saveResult_ok hsaved
          have hk' : k + 1 = ((images ++ [s'.image]).length : ℤ) + 1 := by simp [hk]
          obtain ⟨saved, rs, hrest⟩ := ih ht' hk' (hm.concat ho (hk ▸ hsaved))
          exact ⟨_, _, hrest.cons happly hreports hstep hartifact⟩
    · rw [hrun] at hfollows houtcome
      rw [runSteps_cons_of_some hrun]
      cases hfollows with
      | ends hfirst _ =>
        rw [countSaved_append_of_error _ hfirst.performAll_eq, hcount]
        exact houtcome.exists_leaves ho hk hm ns

/-! ### Runs that save nothing -/

theorem tree_runSteps_of_unsaved (hsave : o.saveSteps = false) (ns : List Node) :
    (runSteps o k ns s).1.tree = s.tree := by
  induction ns generalizing k s with
  | nil => rfl
  | cons n ns ih =>
    have hstep : (runStep o k n s).1.tree = s.tree := by
      have hends := stepEnds_runStep (o := o) (k := k) (n := n) (s := s)
      generalize runStep o k n s = outcome at hends ⊢
      cases hends with
      | overlong => rfl
      | refused => exact State.tree_tell ..
      | unsavable _ _ hsave' | saved _ _ hsave' => exact absurd (hsave.symm.trans hsave') (by simp)
      | unsaved => exact (tree_closeStep _).trans (State.tree_tell ..)
    rcases hrun : runStep o k n s with ⟨s', _ | stop⟩
    · rw [runSteps_cons_of_none hrun, ih, ← hstep, hrun]
    · rw [runSteps_cons_of_some hrun, ← hstep, hrun]

end

/-! ### The main result -/

theorem tree_run_of_unsaved {o : Options} {nodes : Pipeline} (s : State)
    (h : o.saveSteps = false ∨ nodes = []) : (run o nodes s).1.tree = s.tree := by
  rw [tree_run]
  rcases h with hsave | rfl
  · rw [tree_runSteps_of_unsaved hsave, State.tree_tell]
  · rw [runSteps, State.tree_tell]

theorem exists_leaves_run {o : Options} (ho : SavesPng o) (hsave : o.saveSteps = true)
    (nodes : Pipeline) (s : State) : ∃ saved rs, Leaves o s.tree [] 1 nodes s
      (countSaved o (schedule o 1 nodes) (.start s)) (run o nodes s) saved rs := by
  have ht := tracks_start s o.logSteps [startMessage nodes.length s.image]
  have hm : Mirrors o s.tree [] (s.tell o.logSteps [startMessage nodes.length s.image]).tree := by
    rw [State.tree_tell]
    exact mirrors_nil o s.tree
  obtain ⟨saved, rs, h⟩ := exists_leaves_runSteps (k := 1) ho hsave nodes ht rfl hm
  refine ⟨saved, rs, ?_, h.length, ?_, ?_, h.length_reports, h.numbered, ?_, ?_⟩
  · simpa using h.made
  · rw [tree_run]
    exact h.mirrors
  · simpa [reports_run] using h.reports
  · rw [run_stop]
    exact h.finished
  · rw [run_stop]
    exact h.failed

/-- **What a run leaves behind.**  Without nodes, or if it does not save its results, a
run leaves the tree as it is.  Otherwise let `m` be the number of results that it has
saved, however it ends.  Then the file of each of the first `m` steps reads back as the
image that its node made, and is the one that the report of the step names; the paths of
different steps are different; what stood elsewhere before stands there still, so that
older files of later steps are left; and what is new is one of these files, or the
directory of the results or one above it.  A run that goes through has saved the results
of all steps, and one that ends with a failed step those of the steps before. -/
theorem run_artifacts (o : Options) (nodes : Pipeline) (s : State) (directory : String)
    (hdirectory : o.directory = .ofString directory) (hstem : '/' ∉ o.stem.toList)
    (hextension : o.extension = "png".toList) :
    (o.saveSteps = false ∨ nodes = [] → (run o nodes s).1.tree = s.tree) ∧
    (o.saveSteps = true →
      let m := countSaved o (schedule o 1 nodes) (.start s)
      let tree := (run o nodes s).1.tree
      (∀ i : ℕ, i < m → ∃ img, (madeImages nodes s.sources s.image)[i]? = some img ∧
        tree.loadImage (resultPath o (i + 1)).toString = .ok img) ∧
      (∃ rs, (run o nodes s).1.reports = s.reports ++ rs ∧ rs.length = m ∧
        ∀ (i : ℕ) r, rs[i]? = some r →
          r.step = i + 1 ∧ r.artifact = some (resultPath o (i + 1))) ∧
      (∀ i j, resultPath o i = resultPath o j → i = j) ∧
      (∀ q e, s.tree.lookup q = some e →
        (∀ i : ℕ, i < m → tree.resolve (resultPath o (i + 1)).toString ≠ .ok q) →
          tree.lookup q = some e) ∧
      (∀ (j : ℤ) c, m < j → s.tree.read (resultPath o j).toString = .ok c →
        tree.read (resultPath o j).toString = .ok c) ∧
      (∀ q e, s.tree.lookup q = none → tree.lookup q = some e →
        (∃ i : ℕ, i < m ∧ tree.resolve (resultPath o (i + 1)).toString = .ok q) ∨
          e = .directory ∧ ∃ n, tree.resolve (Path.parent^[n] o.directory).toString = .ok q) ∧
      ((run o nodes s).2 = none → m = nodes.length) ∧
      (∀ e, (run o nodes s).2 = some (.failed e) → e.step = m + 1)) := by
  refine ⟨tree_run_of_unsaved s, fun hsave => ?_⟩
  intro m tree
  have ho : SavesPng o := ⟨hdirectory ▸ Path.isNormal_ofString directory, hstem, hextension⟩
  obtain ⟨saved, rs, h⟩ := exists_leaves_run ho hsave nodes s
  have hlength : saved.length = m := h.length
  have hm : Mirrors o s.tree saved tree := h.mirrors
  refine ⟨?_, ⟨rs, h.reports, h.length_reports.trans hlength, ?_⟩, ho.resultPath_injective, ?_, ?_,
    ?_, ?_, ?_⟩
  · intro i hi
    have hi' : i < saved.length := by omega
    obtain ⟨q, hresolve, hlookup⟩ := hm.holds i saved[i] (List.getElem?_eq_getElem hi')
    exact ⟨saved[i], List.prefix_iff_getElem?.mp h.made i hi',
      loadImage_of_lookup hresolve hlookup rfl⟩
  · intro i r hr
    obtain ⟨hstep, hartifact⟩ := h.numbered i r hr
    rw [Int.add_comm] at hstep hartifact
    exact ⟨hstep, hartifact⟩
  · intro q e hq hother
    refine hm.changes.lookup_eq hq ?_
    rintro path ⟨i, hi, rfl⟩
    exact hother i (hlength ▸ hi)
  · intro j c hj hread
    obtain ⟨q, hresolve, hlookup⟩ := read_eq_ok_iff.mp hread
    have hresolve' := hm.changes.grows.resolve hresolve
    refine read_eq_ok_iff.mpr ⟨q, hresolve', hm.changes.lookup_eq hlookup ?_⟩
    -- the file of a later step is none of those that were saved
    rintro path ⟨i, hi, rfl⟩ hq
    have := ho.resolve_resultPath_injective hresolve' hq
    omega
  · intro q e hnone hq
    rcases hm.changes.of_lookup hnone hq with ⟨path, hpath, hfile⟩ | ⟨he, path, hpath, hup⟩
    · obtain ⟨i, hi, rfl⟩ := hpath
      exact Or.inl ⟨i, hlength ▸ hi, hfile⟩
    · obtain ⟨n, rfl⟩ := hpath
      exact Or.inr ⟨he, n, hup⟩
  · intro hnone
    rw [← hlength, h.finished hnone]
  · intro e hfailed
    rw [h.failed e hfailed, hlength, Int.add_comm]

/-- The second of two crops does not fit: the result of the first is held by its file, and
an older file of the second step stays. -/
theorem run_artifacts_second_crop :
    let o : Options := ⟨false, true, .ofString "d", "output", "png".toList, fun _ => none⟩
    let t : FileTree :=
      ⟨[(.below ["d"], .directory), (.below ["d", "output2.png"], .file (.bytes [1]))]⟩
    let s : State := ⟨⟨2, 1, #[⟨1, 2, 3, 4⟩, ⟨5, 6, 7, 8⟩], rfl⟩,
      ⟨fun _ => .ofList [], fun _ => .ofList []⟩, t, [], []⟩
    let nodes : Pipeline := [.crop ⟨0, 0, 1, 1⟩, .crop ⟨0, 0, 2, 1⟩]
    (run o nodes s).1.tree.loadImage "d/output1.png" = .ok ⟨1, 1, #[⟨1, 2, 3, 4⟩], rfl⟩ ∧
      (run o nodes s).1.tree.read "d/output2.png" = .ok (.bytes [1]) ∧
      (run o nodes s).1.reports.map Report.artifact = [some (.ofString "d/output1.png")] := by
  intro o t s nodes
  have hcount : countSaved o (schedule o 1 nodes) (.start s) = 1 := by
    simp only [o, t, s, nodes]
    rfl
  have hfirst : (resultPath o 1).toString = "d/output1.png" := by
    simp only [o]
    rfl
  have hsecond : (resultPath o 2).toString = "d/output2.png" := by
    simp only [o]
    rfl
  have hread : s.tree.read (resultPath o 2).toString = .ok (.bytes [1]) := by
    rw [hsecond]
    rfl
  obtain ⟨-, hsaving⟩ := run_artifacts o nodes s "d" rfl (by decide) rfl
  obtain ⟨hheld, ⟨rs, hreports, hlength, hnumbered⟩, -, -, hkept, -⟩ := hsaving rfl
  simp only [hcount] at hheld hlength hkept
  have hlater := hkept 2 (.bytes [1]) (by decide) hread
  rw [hsecond] at hlater
  refine ⟨?_, hlater, ?_⟩
  · obtain ⟨img, hmade, hloaded⟩ := hheld 0 (by decide)
    have hpath : (resultPath o (((0 : ℕ) : ℤ) + 1)).toString = "d/output1.png" := hfirst
    have himg : (madeImages nodes s.sources s.image)[0]? = some ⟨1, 1, #[⟨1, 2, 3, 4⟩], rfl⟩ := by
      simp only [s, nodes]
      rfl
    rw [hpath] at hloaded
    rw [hloaded, ← Option.some.inj (himg.symm.trans hmade)]
  · obtain ⟨r, rfl⟩ := List.length_eq_one_iff.mp hlength
    obtain ⟨-, hartifact⟩ := hnumbered 0 r rfl
    have hpath : resultPath o (((0 : ℕ) : ℤ) + 1) = .ofString "d/output1.png" := by
      simp only [o]
      rfl
    rw [hreports, List.map_append, List.map_singleton, hartifact, hpath]
    rfl

end Run
end ImagePipeline
