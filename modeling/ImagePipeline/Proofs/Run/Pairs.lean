import ImagePipeline.Proofs.File.Shape
import ImagePipeline.Proofs.Image.Crop
import ImagePipeline.Proofs.Node.Draws
import ImagePipeline.Proofs.Run.Step

/-!
# Two runs side by side

The same nodes applied to two images that are related.  If every node keeps the relation,
and related images have one size, then the two runs end in the same way, report the same but
for the sizes of files, leave the same sources, and make related images.

## Main definitions

* `Alike` — two applications make related images, or fail alike.
* `Node.Respects` — a node keeps a relation of images.
* `Options.IgnoresBytes` — the observer does not ask for the sizes of files.
* `Matches` — two runs have the same outcome but for their images, which are related.

## Main results

* `Node.respects_noise`, `Node.respects_crop`, `Node.respects_custom` — what it takes for a node to
  keep a relation.
* `matches_run` — nodes that keep a relation keep it through a run.
-/

namespace ImagePipeline

/-- What becomes of two applications of a node: related images and the same sources, or the
same failure. -/
inductive Alike (R : Image → Image → Prop) :
    Except Failure (Image × Sources) → Except Failure (Image × Sources) → Prop
  | makes {a b : Image} (s : Sources) (h : R a b) : Alike R (.ok (a, s)) (.ok (b, s))
  | fails (f : Failure) : Alike R (.error f) (.error f)

theorem alike_error_iff {R : Image → Image → Prop} {f : Failure}
    {y : Except Failure (Image × Sources)} : Alike R (.error f) y ↔ y = .error f := by
  constructor
  · intro h
    cases h
    rfl
  · rintro rfl
    exact .fails f

theorem alike_ok_iff {R : Image → Image → Prop} {a : Image} {s : Sources}
    {y : Except Failure (Image × Sources)} :
    Alike R (.ok (a, s)) y ↔ ∃ b, y = .ok (b, s) ∧ R a b := by
  constructor
  · intro h
    cases h with
    | makes _ hR => exact ⟨_, rfl, hR⟩
  · rintro ⟨b, rfl, hR⟩
    exact .makes s hR

/-- A node that is applied to related images makes related images of them, or of neither. -/
def Node.Respects (R : Image → Image → Prop) (n : Node) : Prop :=
  ∀ s a b, R a b → Alike R (n.apply s a) (n.apply s b)

namespace Node

variable {R : Image → Image → Prop}

/-- Noise keeps a relation of images of one size that is kept if the same noise is added to both:
they take the same draws. -/
theorem respects_noise (amount : Noise.Amount) (id : Option ℕ)
    (hsize : ∀ a b, R a b → a.size = b.size)
    (hnoise : ∀ band d a b, R a b → R (a.addNoise band d).1 (b.addNoise band d).1) :
    (noise amount id).Respects R := by
  intro s a b h
  obtain ⟨hwidth, hheight⟩ := Prod.mk.inj (hsize a b h)
  simp only [apply]
  cases amount.band? with
  | none => exact .fails _
  | some band =>
    simp only [Image.draws_addNoise, hwidth, hheight]
    exact .makes _ (hnoise band (s.draws id) a b h)

/-- A crop keeps a relation of images of one size that their regions keep: it fits both or
neither. -/
theorem respects_crop (r : Region) (hsize : ∀ a b, R a b → a.size = b.size)
    (hcut : ∀ a b a' b', R a b → Image.IsCut r a a' → Image.IsCut r b b' → R a' b') :
    (crop r).Respects R := by
  intro s a b h
  obtain ⟨hwidth, hheight⟩ := Prod.mk.inj (hsize a b h)
  simp only [apply]
  cases ha : Image.crop r a with
  | error e =>
    have hb : Image.crop r b = .error e := by
      rw [Image.crop_eq_error_iff, ← hwidth, ← hheight]
      exact Image.crop_eq_error_iff.mp ha
    rw [hb]
    exact .fails _
  | ok a' =>
    have hfirst := Image.crop_eq_ok_iff.mp ha
    obtain ⟨b', hb⟩ := Image.exists_crop_of_fits (hwidth ▸ hheight ▸ hfirst.fits)
    rw [hb]
    exact .makes s (hcut a b a' b' h hfirst (Image.crop_eq_ok_iff.mp hb))

/-- A custom node keeps a relation of every image to itself: it copies its image, or makes one
that does not depend on it, or fails. -/
theorem respects_custom (k : CustomKind) (hrefl : ∀ img, R img img) : (custom k).Respects R := by
  intro s a b h
  simp only [apply]
  cases k.behaviour with
  | copy => exact .makes s h
  | blank width height =>
    simp only [Behaviour.apply]
    rcases Image.blank width height none with e | out
    · exact .fails _
    · exact .makes s (hrefl out)
  | give out => exact .makes s (hrefl out)
  | fail label message => exact .fails _

end Node

theorem Image.describe_of_size_eq {a b : Image} (h : a.size = b.size) :
    a.describe = b.describe := by
  obtain ⟨hwidth, hheight⟩ := Prod.mk.inj h
  rw [describe, describe, hwidth, hheight]

theorem Image.isEmpty_of_size_eq {a b : Image} (h : a.size = b.size) : a.isEmpty = b.isEmpty := by
  obtain ⟨hwidth, hheight⟩ := Prod.mk.inj h
  rw [isEmpty, isEmpty, hwidth, hheight]

/-- A report without the size of the file. -/
def Report.withoutBytes (r : Report) : Report := { r with artifactBytes := none }

namespace Run

/-- The observer of a run that saves its results does not ask for the sizes of their files. -/
def Options.IgnoresBytes (o : Options) : Prop :=
  o.saveSteps = true → ∀ r, o.observer r = o.observer r.withoutBytes

/-- Two runs have the same outcome but for the images that they make, which are related;
`base` and `base'` are the reports from before. -/
structure Matches (R : Image → Image → Prop) (base base' : List Report)
    (r r' : State × Option Stop) : Prop where
  stop : r'.2 = r.2
  image : R r.1.image r'.1.image
  sources : r'.1.sources = r.1.sources
  shape : r.1.tree.SameShape r'.1.tree
  reports : ∃ rs rs', r.1.reports = base ++ rs ∧ r'.1.reports = base' ++ rs' ∧
    rs'.map Report.withoutBytes = rs.map Report.withoutBytes

variable {R : Image → Image → Prop} {o : Options} {k : ℤ} {n : Node} {s t : State}

/-- A result of the same size is saved to the same place, or refused alike. -/
theorem exists_saveResult_of_sameShape {t t' u : FileTree} (h : t.SameShape t') {a b : Image}
    (hempty : b.isEmpty = a.isEmpty) {result : Except SaveError Path}
    (hsaved : saveResult o t k a = (u, result)) :
    ∃ u', saveResult o t' k b = (u', result) ∧ u.SameShape u' := by
  have hprepared : (prepareDirectory o t').2 = (prepareDirectory o t).2 ∧
      (prepareDirectory o t).1.SameShape (prepareDirectory o t').1 := by
    unfold prepareDirectory
    rw [h.contains]
    split
    · exact ⟨rfl, h⟩
    · exact h.makeDirectories o.directory
  unfold saveResult at hsaved ⊢
  rcases hp : prepareDirectory o t with ⟨t₁, e⟩
  rcases hp' : prepareDirectory o t' with ⟨t₁', e'⟩
  rw [hp, hp'] at hprepared
  rw [hp] at hsaved
  obtain ⟨herror, h₁⟩ := hprepared
  obtain rfl : e' = e := herror
  cases e' with
  | some e =>
    obtain ⟨rfl, rfl⟩ := Prod.mk.inj hsaved
    exact ⟨_, rfl, h₁⟩
  | none =>
    have hpictures := FileTree.shapesAlike_saveImage h₁
      (FileTree.picturePath (resultStem o k) o.extension) hempty
    simp only [FileTree.writeImage] at hsaved ⊢
    generalize t₁.saveImage _ _ = x at hpictures hsaved
    generalize t₁'.saveImage _ _ = y at hpictures ⊢
    cases hpictures with
    | gives h₂ =>
      obtain ⟨rfl, rfl⟩ := Prod.mk.inj hsaved
      exact ⟨_, rfl, h₂⟩
    | refused e =>
      obtain ⟨rfl, rfl⟩ := Prod.mk.inj hsaved
      exact ⟨_, rfl, h₁⟩

/-- Reports that differ in the size of a file are answered alike. -/
theorem matches_closeStep {base base' : List Report} {r r' : Report}
    (hobserver : o.observer r' = o.observer r) (hreport : r'.withoutBytes = r.withoutBytes)
    (himage : R s.image t.image) (hsources : t.sources = s.sources)
    (hshape : s.tree.SameShape t.tree) (hs : s.reports = base) (ht : t.reports = base') :
    Matches R base base' (closeStep o r s) (closeStep o r' t) where
  stop := by rw [stop_closeStep, stop_closeStep, hobserver]
  image := by rwa [image_closeStep, image_closeStep]
  sources := by rw [sources_closeStep, sources_closeStep, hsources]
  shape := by rwa [tree_closeStep, tree_closeStep]
  reports := ⟨[r], [r'], by rw [reports_closeStep, hs], by rw [reports_closeStep, ht],
    by simp [hreport]⟩

/-- **A step keeps the relation that its node keeps.** -/
theorem matches_runStep (ho : o.IgnoresBytes) (hsize : ∀ a b, R a b → a.size = b.size)
    (hn : n.Respects R) (himage : R s.image t.image) (hsources : t.sources = s.sources)
    (hshape : s.tree.SameShape t.tree) :
    Matches R s.reports t.reports (runStep o k n s) (runStep o k n t) := by
  have hopen : openReport? k n t.image = openReport? k n s.image := by
    rw [openReport?, openReport?, Image.describe_of_size_eq (hsize _ _ himage)]
  have hboth := hn s.sources _ _ himage
  have hstep := stepEnds_runStep (o := o) (k := k) (n := n) (s := s)
  generalize runStep o k n s = outcome at hstep ⊢
  -- the second run ends this step in the way in which the first one does
  cases hstep with
  | overlong hr =>
    rw [runStep_of_openReport?_eq_none (hopen.trans hr)]
    exact ⟨rfl, himage, hsources, hshape, [], [], by simp, by simp, rfl⟩
  | refused hr happly =>
    rw [happly, ← hsources, alike_error_iff] at hboth
    rw [runStep_of_apply_error (hopen.trans hr) hboth]
    exact ⟨rfl, by simpa using himage, by simpa using hsources, by simpa using hshape, [], [],
      by simp, by simp, rfl⟩
  | unsavable hr happly hsave hsaved =>
    rw [happly, ← hsources, alike_ok_iff] at hboth
    obtain ⟨b, happly', hR⟩ := hboth
    obtain ⟨u', hsaved', hshape'⟩ := exists_saveResult_of_sameShape hshape
      (Image.isEmpty_of_size_eq (hsize _ _ hR)).symm hsaved
    rw [runStep_of_save_error (hopen.trans hr) happly' hsave hsaved']
    exact ⟨rfl, hR, rfl, hshape', [], [], by simp, by simp, rfl⟩
  | @saved r a sources u path hr happly hsave hsaved =>
    rw [happly, ← hsources, alike_ok_iff] at hboth
    obtain ⟨b, happly', hR⟩ := hboth
    obtain ⟨u', hsaved', hshape'⟩ := exists_saveResult_of_sameShape hshape
      (Image.isEmpty_of_size_eq (hsize _ _ hR)).symm hsaved
    rw [runStep_of_saved (hopen.trans hr) happly' hsave hsaved',
      Image.describe_of_size_eq (hsize _ _ hR)]
    have hobserver : ∀ x y : Option ℤ,
        o.observer { r with output := b.describe, artifact := some path, artifactBytes := x } =
        o.observer { r with output := b.describe, artifact := some path, artifactBytes := y } := by
      intro x y
      rw [ho hsave, eq_comm, ho hsave]
      rfl
    exact matches_closeStep (hobserver _ _) rfl hR rfl hshape' (State.reports_tell ..)
      (State.reports_tell ..)
  | unsaved hr happly hsave =>
    rw [happly, ← hsources, alike_ok_iff] at hboth
    obtain ⟨b, happly', hR⟩ := hboth
    rw [runStep_of_unsaved (hopen.trans hr) happly' hsave,
      Image.describe_of_size_eq (hsize _ _ hR)]
    exact matches_closeStep rfl rfl hR rfl (by simpa using hshape) (State.reports_tell ..)
      (State.reports_tell ..)

/-- **Steps keep the relation that their nodes keep.** -/
theorem matches_runSteps (ho : o.IgnoresBytes) (hsize : ∀ a b, R a b → a.size = b.size)
    {ns : List Node} (hns : ∀ n ∈ ns, n.Respects R) (himage : R s.image t.image)
    (hsources : t.sources = s.sources) (hshape : s.tree.SameShape t.tree) :
    Matches R s.reports t.reports (runSteps o k ns s) (runSteps o k ns t) := by
  induction ns generalizing k s t with
  | nil => exact ⟨rfl, himage, hsources, hshape, [], [], by simp [runSteps], by simp [runSteps], rfl⟩
  | cons n ns ih =>
    obtain ⟨hn, hns⟩ := List.forall_mem_cons.mp hns
    have hstep : Matches R s.reports t.reports (runStep o k n s) (runStep o k n t) :=
      matches_runStep ho hsize hn himage hsources hshape
    rcases hs : runStep o k n s with ⟨s', stop⟩
    rcases ht : runStep o k n t with ⟨t', stop'⟩
    rw [hs, ht] at hstep
    obtain ⟨hstop, himage', hsources', hshape', rs, rs', hrs, hrs', hsame⟩ := hstep
    obtain rfl : stop' = stop := hstop
    cases stop' with
    | some stop =>
      rw [runSteps_cons_of_some hs, runSteps_cons_of_some ht]
      exact ⟨rfl, himage', hsources', hshape', rs, rs', hrs, hrs', hsame⟩
    | none =>
      obtain ⟨hstop, himage'', hsources'', hshape'', us, us', hus, hus', hsame'⟩ :=
        ih (k := k + 1) hns himage' hsources' hshape'
      rw [runSteps_cons_of_none hs, runSteps_cons_of_none ht]
      refine ⟨hstop, himage'', hsources'', hshape'', rs ++ us, rs' ++ us', ?_, ?_, ?_⟩
      · rw [hus, hrs, List.append_assoc]
      · rw [hus', hrs', List.append_assoc]
      · rw [List.map_append, List.map_append, hsame, hsame']

/-- **A run keeps the relation that its nodes keep.** -/
theorem matches_run (ho : o.IgnoresBytes) (hsize : ∀ a b, R a b → a.size = b.size)
    {nodes : Pipeline} (hnodes : ∀ n ∈ nodes, n.Respects R) (himage : R s.image t.image)
    (hsources : t.sources = s.sources) (hshape : s.tree.SameShape t.tree) :
    Matches R s.reports t.reports (run o nodes s) (run o nodes t) := by
  have h := matches_runSteps (k := 1) ho hsize hnodes
    (s := s.tell o.logSteps [startMessage nodes.length s.image])
    (t := t.tell o.logSteps [startMessage nodes.length t.image])
    (by rw [State.image_tell, State.image_tell]; exact himage)
    (by rw [State.sources_tell, State.sources_tell, hsources])
    (by rw [State.tree_tell, State.tree_tell]; exact hshape)
  obtain ⟨hstop, himage', hsources', hshape', hreports⟩ := h
  rw [State.reports_tell, State.reports_tell] at hreports
  exact ⟨by rw [run_stop, run_stop, hstop], by rw [image_run, image_run]; exact himage',
    by rw [sources_run, sources_run, hsources'], by rw [tree_run, tree_run]; exact hshape',
    by rw [reports_run, reports_run]; exact hreports⟩

end Run
end ImagePipeline
