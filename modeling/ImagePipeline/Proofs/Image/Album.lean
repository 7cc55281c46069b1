import ImagePipeline.Image.Album
import ImagePipeline.Proofs.Image.Paint
import Mathlib.Algebra.Order.Group.Nat
import Mathlib.Logic.Relation
import Mathlib.Tactic.ByContra

/-!
# Buffers of pictures

What becomes of the pictures of an album when pictures are added, shared, changed and
painted.  A picture with a buffer of its own can be changed in place without any other picture
showing it.

## Main definitions

* `Album.pixel?` — a pixel of a picture.
* `Album.Owns` — no other picture shows the buffer of a picture.
* `Album.Keeps`, `Album.Extends` — pictures have been added; with buffers of their own.
* `Album.SharedBy` — the pictures that show one buffer are those that links join.

## Main results

* `Extends.trans`, `extends_add`, `Extends.modify` — making pictures.
* `pixel?_paint` — what painting does to all pictures.
* `SharedBy.of_owns`, `SharedBy.share` — what becomes of links.
-/

namespace ImagePipeline

/-- The bytes of the buffer that holds an image. -/
def Image.bytes (img : Image) : List UInt8 := img.toList.flatMap Pixel.channels

/-- A buffer has four bytes for every column of every row. -/
theorem Image.length_bytes (img : Image) : img.bytes.length = img.height * img.width * 4 := by
  have hchannels : ∀ ps : List Pixel, (ps.flatMap Pixel.channels).length = ps.length * 4 := by
    intro ps
    induction ps with
    | nil => rfl
    | cons p ps ih =>
      rw [List.flatMap_cons, List.length_append, ih, List.length_cons, Pixel.channels]
      simp only [List.length_cons, List.length_nil]
      omega
  have hlength : img.toList.length = img.width * img.height := img.size_pixels
  rw [bytes, hchannels, hlength, Nat.mul_comm img.width]

namespace Album

variable {a a' a'' : Album} {p q : ℕ} {img : Image}

/-- A pixel of a picture. -/
def pixel? (a : Album) (p x y : ℕ) : Option Pixel := (a.image? p).bind fun img => img.get? x y

/-- There is a picture, and no other one shows its buffer. -/
def Owns (a : Album) (p : ℕ) : Prop := p < a.size ∧ ∀ q, a.buffer? q = a.buffer? p → q = p

/-- The pictures of the album `a` are still there in `a'`, with the same buffers and images. -/
structure Keeps (a a' : Album) : Prop where
  size_le : a.size ≤ a'.size
  buffer?_eq : ∀ p, p < a.size → a'.buffer? p = a.buffer? p
  image?_eq : ∀ p, p < a.size → a'.image? p = a.image? p

/-- The album `a'` is the album `a` with further pictures, each with a buffer of its own. -/
structure Extends (a a' : Album) : Prop extends Keeps a a' where
  owns : ∀ p, a.size ≤ p → p < a'.size → a'.Owns p

/-! ### Single pictures -/

theorem lt_size_iff : p < a.size ↔ ∃ b img, a.buffer? p = some b ∧ a.image? p = some img := by
  constructor
  · intro h
    obtain ⟨b, hb⟩ : ∃ b, a.buffer? p = some b := ⟨_, List.getElem?_eq_getElem h⟩
    have hlt : b < a.buffers.length := a.shows_lt b (List.mem_of_getElem? hb)
    obtain ⟨img, himg⟩ : ∃ img, a.buffers[b]? = some img := ⟨_, List.getElem?_eq_getElem hlt⟩
    exact ⟨b, img, hb, by rw [image?, hb]; exact himg⟩
  · rintro ⟨b, img, hb, -⟩
    exact (List.getElem?_eq_some_iff.mp hb).1

theorem lt_size_of_image? (h : a.image? p = some img) : p < a.size := by
  by_contra hp
  have hb : a.buffer? p = none := List.getElem?_eq_none (not_lt.mp hp)
  rw [image?, hb] at h
  exact absurd h (by simp)

theorem buffer?_lt {b : ℕ} (h : a.buffer? p = some b) : b < a.buffers.length :=
  a.shows_lt b (List.mem_of_getElem? h)

/-! ### Adding pictures -/

theorem Extends.refl (a : Album) : a.Extends a where
  size_le := le_rfl
  buffer?_eq _ _ := rfl
  image?_eq _ _ := rfl
  owns _ hp hp' := absurd hp' (not_lt.mpr hp)

theorem Keeps.trans (h : a.Keeps a') (h' : a'.Keeps a'') : a.Keeps a'' where
  size_le := h.size_le.trans h'.size_le
  buffer?_eq p hp := by rw [h'.buffer?_eq p (hp.trans_le h.size_le), h.buffer?_eq p hp]
  image?_eq p hp := by rw [h'.image?_eq p (hp.trans_le h.size_le), h.image?_eq p hp]

/-- A picture that owns its buffer keeps it to itself when others are added. -/
theorem Extends.owns_of_owns (h : a.Extends a') (hp : a.Owns p) : a'.Owns p := by
  obtain ⟨hlt, hown⟩ := hp
  have hlt' := hlt.trans_le h.size_le
  refine ⟨hlt', fun q hq => ?_⟩
  by_cases hqa : q < a.size
  · rw [h.buffer?_eq q hqa, h.buffer?_eq p hlt] at hq
    exact hown q hq
  · obtain ⟨b, -, hb, -⟩ := lt_size_iff.mp hlt'
    have hqa' : q < a'.size := by
      rw [hb] at hq
      exact (List.getElem?_eq_some_iff.mp hq).1
    exact ((h.owns q (not_lt.mp hqa) hqa').2 p hq.symm).symm

theorem Extends.trans (h : a.Extends a') (h' : a'.Extends a'') : a.Extends a'' where
  toKeeps := h.toKeeps.trans h'.toKeeps
  owns p hp hp'' := by
    by_cases hp' : p < a'.size
    · exact h'.owns_of_owns (h.owns p hp hp')
    · exact h'.owns p (not_lt.mp hp') hp''

@[simp] theorem size_add : (a.add img).size = a.size + 1 := by simp [add, size]

theorem buffer?_add_self : (a.add img).buffer? a.size = some a.buffers.length := by
  simp [add, buffer?, size]

theorem image?_add_self : (a.add img).image? a.size = some img := by
  rw [image?, buffer?_add_self]
  simp [add]

theorem keeps_add : a.Keeps (a.add img) where
  size_le := by simp
  buffer?_eq p hp := List.getElem?_append_left hp
  image?_eq p hp := by
    obtain ⟨b, -, hb, -⟩ := lt_size_iff.mp hp
    have hb' : (a.add img).buffer? p = some b := (List.getElem?_append_left hp).trans hb
    rw [image?, image?, hb, hb']
    exact List.getElem?_append_left (buffer?_lt hb)

theorem owns_add : (a.add img).Owns a.size := by
  refine ⟨by simp, fun q hq => ?_⟩
  rw [buffer?_add_self] at hq
  have hlt : q < a.size + 1 := by
    rw [← size_add]
    exact (List.getElem?_eq_some_iff.mp hq).1
  by_contra hne
  -- an older picture shows an older buffer
  have hold : a.buffer? q = some a.buffers.length := by
    rw [← hq, keeps_add.buffer?_eq q (by omega)]
  exact absurd (buffer?_lt hold) (lt_irrefl _)

theorem extends_add : a.Extends (a.add img) where
  toKeeps := keeps_add
  owns p hp hp' := by
    obtain rfl : p = a.size := by
      rw [size_add] at hp'
      omega
    exact owns_add

/-! ### Changing buffers -/

theorem image?_setBuffer {b : ℕ} (h : a.buffer? p = some b) (q : ℕ) : (a.setBuffer b img).image? q =
    if a.buffer? q = a.buffer? p then some img else a.image? q := by
  have hb := buffer?_lt h
  have hbuffer : (a.setBuffer b img).buffer? q = a.buffer? q := rfl
  rw [image?, image?, hbuffer, h]
  cases hq : a.buffer? q with
  | none => simp
  | some c =>
    by_cases hc : c = b
    · subst hc
      simp [setBuffer, hb]
    · simp [setBuffer, hc, List.getElem?_set_ne (Ne.symm hc)]

section

variable {f : Image → Image}

@[simp] theorem size_modify : (a.modify p f).size = a.size := by
  unfold modify
  split <;> rfl

theorem buffer?_modify : (a.modify p f).buffer? q = a.buffer? q := by
  unfold modify
  split <;> rfl

theorem image?_modify : (a.modify p f).image? q =
    if a.buffer? q = a.buffer? p then (a.image? q).map f else a.image? q := by
  unfold modify
  split
  · next b img hb himg =>
    rw [image?_setBuffer hb]
    split
    · next hq =>
      have hsame : a.image? q = a.image? p := by rw [image?, image?, hq]
      rw [hsame, himg]
      rfl
    · rfl
  · next hnone =>
    by_cases hp : p < a.size
    · obtain ⟨b, img, hb, himg⟩ := lt_size_iff.mp hp
      exact absurd himg (hnone b img hb)
    · have hb : a.buffer? p = none := List.getElem?_eq_none (not_lt.mp hp)
      rw [hb]
      split
      · next hq =>
        rw [image?, hq]
        rfl
      · rfl

/-- **A new picture can be changed in place**: no picture from before shows its buffer. -/
theorem Extends.modify (h : a.Extends a') (hp : a.size ≤ p) : a.Extends (a'.modify p f) where
  size_le := by
    rw [size_modify]
    exact h.size_le
  buffer?_eq q hq := by rw [buffer?_modify, h.buffer?_eq q hq]
  image?_eq q hq := by
    rw [image?_modify, if_neg, h.image?_eq q hq]
    intro hsame
    obtain ⟨b, -, hb, -⟩ := lt_size_iff.mp (hq.trans_le h.size_le)
    have hlt : p < a'.size := by
      rw [hb] at hsame
      exact (List.getElem?_eq_some_iff.mp hsame.symm).1
    have := (h.owns p hp hlt).2 q hsame
    omega
  owns q hq hq' := by
    rw [size_modify] at hq'
    obtain ⟨-, hown⟩ := h.owns q hq hq'
    exact ⟨by rwa [size_modify], fun r hr => hown r (by rwa [buffer?_modify, buffer?_modify] at hr)⟩

end

/-! ### Sharing -/

theorem share_of_buffer? {b : ℕ} (h : a.buffer? p = some b) :
    (a.share p).shows = a.shows ++ [b] ∧ (a.share p).buffers = a.buffers := by
  unfold share
  split
  · next hnone => exact absurd (hnone.symm.trans h) (by simp)
  · next c hc =>
    obtain rfl : c = b := Option.some.inj (hc.symm.trans h)
    exact ⟨rfl, rfl⟩

theorem size_share (hp : p < a.size) : (a.share p).size = a.size + 1 := by
  obtain ⟨b, -, hb, -⟩ := lt_size_iff.mp hp
  simp [size, (share_of_buffer? hb).1]

theorem buffer?_share_self (hp : p < a.size) : (a.share p).buffer? a.size = a.buffer? p := by
  obtain ⟨b, -, hb, -⟩ := lt_size_iff.mp hp
  rw [hb, buffer?, (share_of_buffer? hb).1]
  simp [size]

theorem keeps_share (hp : p < a.size) : a.Keeps (a.share p) := by
  obtain ⟨b, -, hb, -⟩ := lt_size_iff.mp hp
  obtain ⟨hshows, hbuffers⟩ := share_of_buffer? hb
  have hbuffer : ∀ q, q < a.size → (a.share p).buffer? q = a.buffer? q := by
    intro q hq
    rw [buffer?, hshows]
    exact List.getElem?_append_left hq
  refine ⟨by rw [size_share hp]; omega, hbuffer, fun q hq => ?_⟩
  rw [image?, image?, hbuffer q hq, hbuffers]

/-- Two pictures show one buffer if and only if links join them. -/
structure SharedBy (a : Album) (links : ℕ → ℕ → Prop) : Prop where
  sound : ∀ p q, links p q → p < a.size ∧ a.buffer? p = a.buffer? q
  complete : ∀ p q, p < a.size → a.buffer? p = a.buffer? q → Relation.EqvGen links p q

section

variable {links : ℕ → ℕ → Prop}

theorem SharedBy.buffer?_eq_iff (h : a.SharedBy links) (hp : p < a.size) :
    a.buffer? p = a.buffer? q ↔ Relation.EqvGen links p q := by
  refine ⟨h.complete p q hp, fun hlinks => ?_⟩
  clear hp
  induction hlinks with
  | rel p q hpq => exact (h.sound p q hpq).2
  | refl p => rfl
  | symm p q _ ih => exact ih.symm
  | trans p q r _ _ ih ih' => exact ih.trans ih'

theorem lt_size_of_buffer?_eq (hp : p < a.size) (h : a.buffer? p = a.buffer? q) : q < a.size := by
  obtain ⟨b, -, hb, -⟩ := lt_size_iff.mp hp
  rw [hb] at h
  exact (List.getElem?_eq_some_iff.mp h.symm).1

/-- Pictures with buffers of their own need no links. -/
theorem SharedBy.of_owns (h : a.SharedBy links) (hsize : a.size ≤ a'.size)
    (hbuffer : ∀ p, p < a.size → a'.buffer? p = a.buffer? p)
    (howns : ∀ p, a.size ≤ p → p < a'.size → a'.Owns p) : a'.SharedBy links where
  sound p q hpq := by
    obtain ⟨hp, hsame⟩ := h.sound p q hpq
    have hq := lt_size_of_buffer?_eq hp hsame
    exact ⟨hp.trans_le hsize, by rw [hbuffer p hp, hbuffer q hq, hsame]⟩
  complete p q hp hsame := by
    have hq := lt_size_of_buffer?_eq hp hsame
    by_cases hpa : p < a.size
    · by_cases hqa : q < a.size
      · exact h.complete p q hpa (by rw [← hbuffer p hpa, ← hbuffer q hqa, hsame])
      · rw [(howns q (not_lt.mp hqa) hq).2 p hsame]
        exact .refl q
    · rw [(howns p (not_lt.mp hpa) hp).2 q hsame.symm]
      exact .refl p

/-- A shared picture is one more link. -/
theorem SharedBy.share (h : a.SharedBy links) (hp : p < a.size) :
    (a.share p).SharedBy fun q r => links q r ∨ (q = a.size ∧ r = p) where
  sound q r hqr := by
    have hkeeps := keeps_share hp
    rcases hqr with hqr | ⟨rfl, rfl⟩
    · obtain ⟨hq, hsame⟩ := h.sound q r hqr
      have hr := lt_size_of_buffer?_eq hq hsame
      exact ⟨hq.trans_le hkeeps.size_le,
        by rw [hkeeps.buffer?_eq q hq, hkeeps.buffer?_eq r hr, hsame]⟩
    · exact ⟨by rw [size_share hp]; omega, by rw [buffer?_share_self hp, hkeeps.buffer?_eq r hp]⟩
  complete q r hq hsame := by
    have hr := lt_size_of_buffer?_eq hq hsame
    rw [size_share hp] at hq hr
    have hold : ∀ x y, Relation.EqvGen links x y →
        Relation.EqvGen (fun q r => links q r ∨ (q = a.size ∧ r = p)) x y :=
      Relation.EqvGen.mono fun _ _ => Or.inl
    -- what shows the buffer of the new picture is joined to it through the picture it shares
    have hnew : ∀ x, x < a.size → (a.share p).buffer? a.size = (a.share p).buffer? x →
        Relation.EqvGen (fun q r => links q r ∨ (q = a.size ∧ r = p)) a.size x := by
      intro x hx hx'
      rw [buffer?_share_self hp, (keeps_share hp).buffer?_eq x hx] at hx'
      exact .trans _ p _ (.rel _ _ (Or.inr ⟨rfl, rfl⟩)) (hold _ _ (h.complete p x hp hx'))
    rcases Nat.lt_succ_iff_lt_or_eq.mp hq with hqa | rfl
    · rcases Nat.lt_succ_iff_lt_or_eq.mp hr with hra | rfl
      · rw [(keeps_share hp).buffer?_eq q hqa, (keeps_share hp).buffer?_eq r hra] at hsame
        exact hold _ _ (h.complete q r hqa hsame)
      · exact .symm _ _ (hnew q hqa hsame.symm)
    · rcases Nat.lt_succ_iff_lt_or_eq.mp hr with hra | rfl
      · exact hnew r hra hsame
      · exact .refl _

end

/-! ### Painting -/

section

variable {b : ℕ} {x y : ℤ}

/-- A pixel that is put into a buffer is seen in all pictures that show the buffer, and nothing
else is. -/
theorem pixel?_setBuffer_set (hb : a.buffer? p = some b) (himg : a.image? p = some img)
    (hcontains : img.contains x y = true) (pixel : Pixel) (q i j : ℕ) :
    (a.setBuffer b (img.set x.toNat y.toNat pixel)).pixel? q i j =
      if a.buffer? q = a.buffer? p ∧ (i : ℤ) = x ∧ (j : ℤ) = y then some pixel
      else a.pixel? q i j := by
  obtain ⟨hx, hx', hy, hy'⟩ := Image.contains_iff.mp hcontains
  rw [pixel?, image?_setBuffer hb]
  by_cases hq : a.buffer? q = a.buffer? p
  · have hshared : a.image? q = some img := by rw [← himg, image?, image?, hq]
    have hplace : (i = x.toNat ∧ j = y.toNat) ↔ ((i : ℤ) = x ∧ (j : ℤ) = y) := by omega
    have hthere : (img.get? x.toNat y.toNat).isSome := by
      rw [Image.get?_isSome_iff]
      omega
    obtain ⟨old, hold⟩ := Option.isSome_iff_exists.mp hthere
    rw [if_pos hq, pixel?, hshared, Option.bind_some, Option.bind_some, Image.get?_set, hold]
    simp only [hq, true_and, hplace]
    rfl
  · rw [if_neg hq, if_neg (fun hall => hq hall.1)]
    rfl

/-- The pictures keep their sizes when an image of the same size is put into a buffer. -/
theorem size_setBuffer {img' : Image} (hb : a.buffer? p = some b) (himg : a.image? p = some img)
    (hsize : img'.size = img.size) (q : ℕ) :
    ((a.setBuffer b img').image? q).map Image.size = (a.image? q).map Image.size := by
  rw [image?_setBuffer hb]
  split
  · next hq =>
    have hshared : a.image? q = some img := by rw [← himg, image?, image?, hq]
    rw [hshared, Option.map_some, Option.map_some, hsize]
  · rfl

/-- **Painting that goes through** changes one pixel of the pictures that show the buffer, and
nothing else. -/
theorem pixel?_paint {colour : List ℤ} (hp : p < a.size)
    (h : a.paint p x y colour = (a', none)) :
    ∃ img pixel, a.image? p = some img ∧ img.contains x y = true ∧
      Pixel.ofEntries? colour = some pixel ∧
      (∀ q, a'.buffer? q = a.buffer? q ∧
        (a'.image? q).map Image.size = (a.image? q).map Image.size) ∧
      ∀ q i j, a'.pixel? q i j =
        if a.buffer? q = a.buffer? p ∧ (i : ℤ) = x ∧ (j : ℤ) = y then some pixel
        else a.pixel? q i j := by
  obtain ⟨b, img, hb, himg⟩ := lt_size_iff.mp hp
  simp only [paint, hb, himg] at h
  rcases hpainted : img.paint x y colour with ⟨img', e⟩
  rw [hpainted] at h
  obtain ⟨rfl, rfl⟩ := Prod.mk.inj h
  obtain ⟨hcontains, pixel, hpixel, rfl⟩ := Image.paint_eq_none hpainted
  have hsize : (img.set x.toNat y.toNat pixel).size = img.size := rfl
  exact ⟨img, pixel, himg, hcontains, hpixel,
    fun q => ⟨rfl, size_setBuffer hb himg hsize q⟩, pixel?_setBuffer_set hb himg hcontains pixel⟩

end

end Album
end ImagePipeline
