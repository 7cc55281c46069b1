import ImagePipeline.Node.Studio
import ImagePipeline.Proofs.Image.Album
import ImagePipeline.Proofs.Node.Makes

/-!
# Storage of pictures

What operations do to the buffers of pictures.  Nodes change buffers in place, but only those
that they have made themselves, so no operation but painting is seen in a picture from before;
and two pictures show one buffer exactly if they are joined by pictures that have been shared
on purpose.

## Main definitions

* `AddsOwn` — an operation only adds pictures with buffers of their own.
* `Operation.Paints`, `Operation.MakesOwn` — the operations that change pictures, and those
  that give a new one.
* `Linked` — the links that operations make.
* `Operation.Respects` — what an operation may do to pictures.

## Main results

* `addsOwn_process`, `addsOwn_processAll` — nodes add pictures of their own.
* `depicts_process`, `depicts_processAll` — and these are the images that nodes make.
* `Operation.respects` — what every operation does.
* `sharedBy_performAll` — what operations link.
* `Studio.performAll_storage` — all of it, after any operations.
-/

namespace ImagePipeline

open Album

namespace Studio

variable {s : Studio} {img : Image} {p q : ℕ}

/-! ### Nodes add pictures -/

/-- To the album `a`, only pictures with buffers of their own have been added, and a picture that
is given is one of them. -/
structure AddsOwn (a : Album) (x : Studio × Except PictureError ℕ) : Prop where
  extends_album : a.Extends x.1.album
  new : ∀ q, x.2 = .ok q → a.size ≤ q ∧ q < x.1.album.size

theorem addsOwn_error {a : Album} (h : a.Extends s.album) (e : PictureError) :
    AddsOwn a (s, .error e) := ⟨h, fun _ hq => absurd hq (by simp)⟩

theorem AddsOwn.trans {a a' : Album} {x : Studio × Except PictureError ℕ} (h : a.Extends a')
    (hx : AddsOwn a' x) : AddsOwn a x where
  extends_album := h.trans hx.extends_album
  new q hq := ⟨h.size_le.trans (hx.new q hq).1, (hx.new q hq).2⟩

theorem addsOwn_add : AddsOwn s.album (s.add img) where
  extends_album := extends_add
  new q hq := by
    obtain rfl : s.album.size = q := Except.ok.inj hq
    exact ⟨le_rfl, by simp [add]⟩

theorem addsOwn_addChanged {a : Album} {sources : Sources} {f : Image → Image} :
    AddsOwn a (addChanged ⟨a, sources⟩ img f) where
  extends_album := extends_add.modify le_rfl
  new q hq := by
    obtain rfl : a.size = q := Except.ok.inj hq
    exact ⟨le_rfl, by simp [addChanged]⟩

theorem addsOwn_addStretched : AddsOwn s.album (s.addStretched img) := by
  unfold addStretched
  split
  · exact addsOwn_error extends_add _
  · split
    · exact addsOwn_add
    · exact .trans extends_add addsOwn_addChanged

/-- **A node adds pictures with buffers of their own**, and gives one of them. -/
theorem addsOwn_process (n : Node) : AddsOwn s.album (s.process n p) := by
  unfold process
  split
  · exact addsOwn_error (.refl _) _
  · cases n with
    | greyscale => exact addsOwn_add
    | normalise => exact addsOwn_addStretched
    | vignette => exact addsOwn_addChanged
    | noise amount id =>
      simp only
      split
      · exact addsOwn_error (.refl _) _
      · exact addsOwn_addChanged
    | crop r =>
      simp only
      split
      · exact addsOwn_add
      · exact addsOwn_error (.refl _) _
    | custom k =>
      simp only
      split
      · exact addsOwn_add
      · exact addsOwn_error (.refl _) _

/-- **Nodes add pictures with buffers of their own**, and give one of them. -/
theorem addsOwn_processAll {ns : List Node} (hns : ns ≠ []) :
    AddsOwn s.album (s.processAll ns p) := by
  induction ns generalizing s p with
  | nil => exact absurd rfl hns
  | cons n ns ih =>
    have hfirst : AddsOwn s.album (s.process n p) := addsOwn_process n
    rw [processAll]
    split
    · next s' e h => exact addsOwn_error (h ▸ hfirst).extends_album e
    · next s' q h =>
      rw [h] at hfirst
      cases ns with
      | nil => exact hfirst
      | cons m ns => exact (ih (by simp)).trans hfirst.extends_album

/-- No nodes give the picture that they are given, and add nothing. -/
theorem extends_processAll (ns : List Node) : s.album.Extends (s.processAll ns p).1.album := by
  cases ns with
  | nil => exact .refl _
  | cons n ns => exact (addsOwn_processAll (by simp)).extends_album

/-! ### What the pictures show -/

/-- A picture that is given shows the image that nodes make, or both fail alike. -/
inductive Depicts : Studio × Except PictureError ℕ → Except Failure (Image × Sources) → Prop
  | makes {s : Studio} {q : ℕ} {out : Image} (h : s.album.image? q = some out) :
      Depicts (s, .ok q) (.ok (out, s.sources))
  | fails (s : Studio) (f : Failure) : Depicts (s, .error (.node f)) (.error f)

theorem depicts_add : Depicts (s.add img) (.ok (img, s.sources)) :=
  @Depicts.makes ⟨s.album.add img, s.sources⟩ s.album.size img image?_add_self

theorem depicts_addChanged {f : Image → Image} :
    Depicts (s.addChanged img f) (.ok (f img, s.sources)) := by
  refine @Depicts.makes ⟨(s.album.add img).modify s.album.size f, s.sources⟩ s.album.size _ ?_
  rw [image?_modify, if_pos rfl, image?_add_self]
  rfl

/-- **A node gives a picture of the image that it makes.** -/
theorem depicts_process (n : Node) (h : s.album.image? p = some img) :
    Depicts (s.process n p) (n.apply s.sources img) := by
  simp only [process, h]
  cases n with
  | greyscale => exact depicts_add
  | normalise =>
    simp only [Node.apply, Image.stretch?, addStretched]
    rcases extremes? (img.grey.toList.map Pixel.red) with _ | ⟨lo, hi⟩
    · exact .fails _ _
    · simp only [Option.map_some]
      split
      · next heq =>
        rw [Image.spread, if_pos heq]
        exact depicts_add
      · exact depicts_addChanged
  | vignette => exact depicts_addChanged
  | noise amount id =>
    simp only [Node.apply]
    cases amount.band? with
    | none => exact .fails _ _
    | some b => exact depicts_addChanged
  | crop r =>
    simp only [Node.apply]
    cases Image.crop r img with
    | ok out => exact depicts_add
    | error e => exact .fails _ _
  | custom k =>
    simp only [Node.apply]
    cases k.behaviour.apply img with
    | ok out => exact depicts_add
    | error e => exact .fails _ _

/-- **Nodes give a picture of the image that they make.** -/
theorem depicts_processAll (ns : List Node) (h : s.album.image? p = some img) :
    Depicts (s.processAll ns p) (applyAll ns s.sources img) := by
  induction ns generalizing s p img with
  | nil => exact .makes h
  | cons n ns ih =>
    have hfirst := depicts_process n h
    rw [applyAll, processAll]
    generalize n.apply s.sources img = x at hfirst
    generalize s.process n p = y at hfirst
    cases hfirst with
    | fails s' f => exact .fails s' f
    | makes h' => exact ih h'

end Studio

/-! ### Operations -/

namespace Operation

/-- The operations that change pictures. -/
def Paints : Operation → Prop
  | .paint _ _ _ _ => True
  | _ => False

/-- The operations that give a picture with a buffer of its own. -/
def MakesOwn : Operation → Prop
  | .share _ => False
  | .run [] _ _ => False
  | .paint _ _ _ _ => False
  | _ => True

/-- The link that an operation makes between the picture that it gives and the one that it is
given. -/
def Links (op : Operation) (s : Studio) (p q : ℕ) : Prop :=
  op = .share q ∧ p = s.album.size ∧ q < s.album.size

end Operation

/-- The links that operations make. -/
def Linked (s : Studio) : List Operation → ℕ → ℕ → Prop
  | [] => fun _ _ => False
  | op :: ops => fun p q => op.Links s p q ∨ Linked (s.perform op).1 ops p q

namespace Studio

variable {s : Studio} {op : Operation}

theorem addsOwn_addMade {p : ℕ} {f : Image → Image} : AddsOwn s.album (s.addMade p f) := by
  unfold addMade
  split
  · exact addsOwn_error (.refl _) _
  · exact addsOwn_add

theorem addsOwn_addCreated {made : Except CreationError Image} :
    AddsOwn s.album (s.addCreated made) := by
  cases made with
  | ok img => exact addsOwn_add
  | error e => exact addsOwn_error (.refl _) _

theorem extends_run {nodes : List Node} {p : ℕ} {stop : Option ℕ} :
    s.album.Extends (s.run nodes p stop).1.album := by
  unfold run
  split
  · exact .refl _
  · exact extends_processAll _
  · next steps _ =>
    have h : s.album.Extends (s.processAll (nodes.take steps) p).1.album := extends_processAll _
    split <;> next heq => rwa [heq] at h

theorem addsOwn_run {nodes : List Node} {p : ℕ} {stop : Option ℕ} (hnodes : nodes ≠ []) :
    AddsOwn s.album (s.run nodes p stop) := by
  refine ⟨extends_run, fun q hq => ?_⟩
  unfold run at hq ⊢
  split at hq
  · exact absurd hq (by simp)
  · exact (addsOwn_processAll hnodes).new q hq
  · split at hq <;> exact absurd hq (by simp)

/-- **An operation that makes a picture gives it a buffer of its own.** -/
theorem addsOwn_perform (h : op.MakesOwn) : AddsOwn s.album (s.perform op) := by
  cases op with
  | blank width height colour => exact addsOwn_addCreated
  | raster r => exact addsOwn_addCreated
  | decoded img => exact addsOwn_add
  | share p => exact absurd h id
  | colours p => exact addsOwn_addMade
  | copy p => exact addsOwn_addMade
  | grey p => exact addsOwn_addMade
  | node n p => exact addsOwn_process n
  | run nodes p stop =>
    cases nodes with
    | nil => exact absurd h id
    | cons n nodes => exact addsOwn_run (by simp)
  | paint p x y colour => exact absurd h id

/-- What sharing does: a link to a picture that is there, and nothing else. -/
theorem perform_share (p : ℕ) :
    (p < s.album.size ∧ s.perform (.share p) = (⟨s.album.share p, s.sources⟩, .ok s.album.size)) ∨
      (¬ p < s.album.size ∧ s.perform (.share p) = (s, .error .missing)) := by
  by_cases hp : p < s.album.size
  · obtain ⟨b, img, -, himg⟩ := lt_size_iff.mp hp
    exact Or.inl ⟨hp, by simp only [perform, himg]⟩
  · have hnone : s.album.image? p = none := by
      rw [Option.eq_none_iff_forall_ne_some]
      exact fun img himg => hp (lt_size_of_image? himg)
    exact Or.inr ⟨hp, by simp only [perform, hnone]⟩

/-- What painting does to the buffers that pictures show: nothing. -/
theorem shows_perform_paint (p : ℕ) (x y : ℤ) (colour : List ℤ) :
    (s.perform (.paint p x y colour)).1.album.shows = s.album.shows := by
  have hpaint : (s.album.paint p x y colour).1.shows = s.album.shows := by
    unfold Album.paint
    split <;> rfl
  simp only [perform]
  split
  · rfl
  · split <;> next heq => exact (congrArg (fun r => r.1.shows) heq).symm.trans hpaint

/-- Painting that goes through has painted the album. -/
theorem perform_paint_of_ok {p : ℕ} {x y : ℤ} {colour : List ℤ}
    (h : (s.perform (.paint p x y colour)).2 = .ok p) : ∃ a, p < s.album.size ∧
      s.album.paint p x y colour = (a, none) ∧
      s.perform (.paint p x y colour) = (⟨a, s.sources⟩, .ok p) := by
  cases himg : s.album.image? p with
  | none => simp [perform, himg] at h
  | some img =>
    rcases hpaint : s.album.paint p x y colour with ⟨a, _ | e⟩
    · exact ⟨a, lt_size_of_image? himg, rfl, by simp only [perform, himg, hpaint]⟩
    · simp [perform, himg, hpaint] at h

/-- All but sharing and painting adds pictures with buffers of their own, or nothing. -/
theorem extends_perform (hshare : ∀ p, op ≠ .share p) (hpaint : ¬ op.Paints) :
    s.album.Extends (s.perform op).1.album := by
  cases op with
  | share p => exact absurd rfl (hshare p)
  | paint p x y colour => exact absurd trivial hpaint
  | run nodes p stop => exact extends_run
  | _ => exact (addsOwn_perform (by trivial)).extends_album

/-- **Only painting changes a picture.** -/
theorem keeps_perform (h : ¬ op.Paints) : s.album.Keeps (s.perform op).1.album := by
  by_cases hshare : ∃ p, op = .share p
  · obtain ⟨p, rfl⟩ := hshare
    rcases perform_share (s := s) p with ⟨hp, heq⟩ | ⟨-, heq⟩
    · rw [heq]
      exact keeps_share hp
    · rw [heq]
      exact (Extends.refl _).toKeeps
  · exact (extends_perform (not_exists.mp hshare) h).toKeeps

/-- An operation makes the links that it says. -/
theorem sharedBy_perform {links : ℕ → ℕ → Prop} (h : s.album.SharedBy links) (op : Operation) :
    (s.perform op).1.album.SharedBy fun p q => links p q ∨ op.Links s p q := by
  by_cases hshare : ∃ p, op = .share p
  · obtain ⟨p, rfl⟩ := hshare
    have hlinks : ∀ q r, (Operation.share p).Links s q r ↔
        q = s.album.size ∧ r = p ∧ p < s.album.size := by
      intro q r
      simp only [Operation.Links, Operation.share.injEq]
      grind
    simp only [hlinks]
    rcases perform_share (s := s) p with ⟨hp, heq⟩ | ⟨hp, heq⟩
    · simpa only [heq, hp, and_true] using h.share hp
    · simpa only [heq, hp, and_false, or_false] using h
  · have hlinks : ∀ q r, ¬ op.Links s q r := fun q r hlink => hshare ⟨r, hlink.1⟩
    simp only [hlinks, or_false]
    by_cases hpaint : op.Paints
    · -- painting leaves every picture the buffer that it shows
      cases op with
      | paint p x y colour =>
        have hshows := shows_perform_paint (s := s) p x y colour
        have hsize := congrArg List.length hshows
        exact h.of_owns (le_of_eq hsize.symm) (fun q _ => congrArg (fun l => l[q]?) hshows)
          (fun q hq hq' => absurd (hq'.trans_eq hsize) (not_lt.mpr hq))
      | _ => exact absurd hpaint id
    · have hext := extends_perform (s := s) (not_exists.mp hshare) hpaint
      exact h.of_owns hext.size_le hext.buffer?_eq hext.owns

/-- **Pictures show one buffer if and only if they are linked.** -/
theorem sharedBy_performAll {links : ℕ → ℕ → Prop} (h : s.album.SharedBy links)
    (ops : List Operation) :
    (s.performAll ops).album.SharedBy fun p q => links p q ∨ Linked s ops p q := by
  induction ops generalizing s links with
  | nil => simpa [performAll, Linked] using h
  | cons op ops ih =>
    have hrest := ih (sharedBy_perform h op)
    simpa only [performAll, Linked, or_assoc] using hrest

end Studio

/-- What an operation may do to the pictures of a studio. -/
structure Operation.Respects (op : Operation) (s : Studio) : Prop where
  /-- Only painting changes a picture that is there. -/
  keeps : ¬ op.Paints → s.album.Keeps (s.perform op).1.album
  /-- What is made is new, and shares its buffer with no other picture. -/
  owns : op.MakesOwn → ∀ p, (s.perform op).2 = .ok p →
    s.album.size ≤ p ∧ (s.perform op).1.album.Owns p
  /-- A node gives a picture of the image that it makes, or fails as it does. -/
  depicts_node : ∀ n p img, op = .node n p → s.album.image? p = some img →
    Studio.Depicts (s.perform op) (n.apply s.sources img)
  /-- A run that is not stopped gives a picture of the image that its nodes make, or fails as they
  do. -/
  depicts_run : ∀ nodes p img, op = .run nodes p none → s.album.image? p = some img →
    Studio.Depicts (s.perform op) (applyAll nodes s.sources img)
  /-- A run over no nodes gives the picture that it is given. -/
  returns : ∀ p, op = .run [] p none → p < s.album.size → s.perform op = (s, .ok p)
  /-- Painting that goes through puts the pixel of its colour at its place into the pictures that
  show the buffer, and changes nothing else. -/
  paints : ∀ p x y colour, op = .paint p x y colour → (s.perform op).2 = .ok p →
    ∃ img pixel, s.album.image? p = some img ∧ img.contains x y = true ∧
      Pixel.ofEntries? colour = some pixel ∧
      (∀ q, (s.perform op).1.album.buffer? q = s.album.buffer? q ∧
        ((s.perform op).1.album.image? q).map Image.size = (s.album.image? q).map Image.size) ∧
      ∀ q i j, (s.perform op).1.album.pixel? q i j =
        if s.album.buffer? q = s.album.buffer? p ∧ (i : ℤ) = x ∧ (j : ℤ) = y then some pixel
        else s.album.pixel? q i j

/-- **What an operation does to pictures.** -/
theorem Operation.respects (op : Operation) (s : Studio) : op.Respects s where
  keeps := Studio.keeps_perform
  owns hown p hp := by
    obtain ⟨hext, hnew⟩ := Studio.addsOwn_perform (s := s) hown
    obtain ⟨hle, hlt⟩ := hnew p hp
    exact ⟨hle, hext.owns p hle hlt⟩
  depicts_node n p img hop himg := by
    subst hop
    exact Studio.depicts_process n himg
  depicts_run nodes p img hop himg := by
    subst hop
    simp only [Studio.perform, Studio.run, himg]
    exact Studio.depicts_processAll nodes himg
  returns p hop hp := by
    subst hop
    obtain ⟨b, img, -, himg⟩ := lt_size_iff.mp hp
    simp only [Studio.perform, Studio.run, himg, Studio.processAll]
  paints p x y colour hop hok := by
    subst hop
    obtain ⟨a, hp, hpaint, hperform⟩ := Studio.perform_paint_of_ok hok
    rw [hperform]
    exact pixel?_paint hp hpaint

/-- **Pictures and their buffers**, after any operations.  Every picture shows a buffer of four
bytes for each of its pixels, two pictures show one buffer if and only if they are joined by
pictures that share the whole array of another one, and whatever is done next, only painting
changes pictures, and only those that show the buffer. -/
theorem Studio.performAll_storage (sources : Sources) (ops : List Operation) :
    let s := (Studio.start sources).performAll ops
    (∀ p, p < s.album.size → ∃ img, s.album.image? p = some img ∧
      img.bytes.length = img.height * img.width * 4) ∧
    (∀ p q, p < s.album.size → (s.album.buffer? p = s.album.buffer? q ↔
      Relation.EqvGen (Linked (Studio.start sources) ops) p q)) ∧
    ∀ op : Operation, op.Respects s := by
  intro s
  refine ⟨fun p hp => ?_, fun p q hp => ?_, fun op => op.respects s⟩
  · obtain ⟨b, img, -, himg⟩ := lt_size_iff.mp hp
    exact ⟨img, himg, img.length_bytes⟩
  · -- before the first operation there is no picture and no link
    have hstart : (Studio.start sources).album.SharedBy fun _ _ => False :=
      ⟨fun _ _ hfalse => absurd hfalse id, fun p _ hp => absurd hp (Nat.not_lt_zero p)⟩
    have h := Studio.sharedBy_performAll hstart ops
    simp only [false_or] at h
    exact h.buffer?_eq_iff hp

/-- A picture, one that shares its buffer and a copy: painting the first is seen in the second
and not in the copy. -/
theorem Studio.performAll_storage_copy :
    let sources : Sources := ⟨fun _ => .ofList [], fun _ => .ofList []⟩
    let ops : List Operation := [.blank 2 1 none, .share 0, .copy 0, .node .normalise 1]
    let s := (Studio.start sources).performAll ops
    let a := (s.perform (.paint 0 1 0 [1, 2, 3])).1.album
    a.pixel? 1 1 0 = some ⟨1, 2, 3, 255⟩ ∧ a.pixel? 2 1 0 = s.album.pixel? 2 1 0 ∧
      Relation.EqvGen (Linked (Studio.start sources) ops) 0 1 ∧
      ¬ Relation.EqvGen (Linked (Studio.start sources) ops) 0 2 := by
  intro sources ops s a
  obtain ⟨-, hshared, hops⟩ := Studio.performAll_storage sources ops
  have hfirst : s.album.buffer? 0 = s.album.buffer? 1 := by decide +kernel
  have hcopy : ¬ s.album.buffer? 0 = s.album.buffer? 2 := by decide +kernel
  have hsize : 0 < s.album.size := by decide +kernel
  obtain ⟨img, pixel, -, -, hpixel, -, hall⟩ := (hops (.paint 0 1 0 [1, 2, 3])).paints 0 1 0
    [1, 2, 3] rfl (by decide +kernel)
  obtain rfl : ⟨1, 2, 3, 255⟩ = pixel := Option.some.inj hpixel
  refine ⟨?_, ?_, (hshared 0 1 hsize).mp hfirst, fun h => hcopy ((hshared 0 2 hsize).mpr h)⟩
  · rw [hall 1 1 0, if_pos ⟨hfirst.symm, rfl, rfl⟩]
  · rw [hall 2 1 0, if_neg (fun h => hcopy h.1.symm)]

end ImagePipeline
