import ImagePipeline.Proofs.Image.Album

/-!
# Painting that is refused

Painting goes through exactly if the coordinate lies inside the image, the colour has one, three
or four entries, and all of them are channel values.  What is refused changes nothing, with one
exception: a colour of three or four entries is stored one entry after another, so the entries in
front of the first one that is no channel value stay stored, and the pixel is neither the old one
nor the colour.

## Main definitions

* `IsChannelValue`, `HasColourLength` — the entries and the numbers of entries that go through.
* `Image.refusal?` — the family of the error with which painting ends.
* `fullColour`, `Pixel.numbers` — the numbers of the four channels.
* `Refuses` — the first entry that is no channel value.
* `Pixel.Painted`, `Album.Painted` — the ways in which painting ends.
* `Album.KeepsBeside`, `Album.ShowsAt` — pictures of an album beside a pixel, and at it.

## Main results

* `Pixel.painted_paint`, `Album.painted_paint` — painting ends in one of the ways.
* `Album.paint_outcome` — when painting goes through, and what it leaves behind.
* `Album.paint_keeps_front` — a colour that is refused can leave a pixel of mixed channels.
-/

namespace ImagePipeline

/-- The number is a channel value. -/
def IsChannelValue (n : ℤ) : Prop := 0 ≤ n ∧ n ≤ 255

/-- The colour has one, three or four entries. -/
def HasColourLength (colour : List ℤ) : Prop :=
  colour.length = 1 ∨ colour.length = 3 ∨ colour.length = 4

instance (n : ℤ) : Decidable (IsChannelValue n) := inferInstanceAs (Decidable (0 ≤ n ∧ n ≤ 255))

instance (colour : List ℤ) : Decidable (HasColourLength colour) :=
  inferInstanceAs (Decidable (colour.length = 1 ∨ colour.length = 3 ∨ colour.length = 4))

/-- The family of the error with which painting ends, if any: the coordinate is checked first, then
the entries, and their number last.  A coordinate that cannot be written has an error of its own. -/
def Image.refusal? (img : Image) (x y : ℤ) (colour : List ℤ) : Option ErrorFamily :=
  if img.contains x y then
    if ∀ n ∈ colour, IsChannelValue n then
      if HasColourLength colour then none else some .value
    else some .overflow
  else if Numeral.InLimit x ∧ Numeral.InLimit y then some .index else some .value

/-- The numbers of all channels that a colour stands for: one entry fills them, and three are
opaque. -/
def fullColour : List ℤ → List ℤ
  | [v] => [v, v, v, v]
  | colour => withAlpha colour

/-- The numbers of the four channels of a pixel. -/
def Pixel.numbers (p : Pixel) : List ℤ := p.channels.map fun b => (b.toNat : ℤ)

/-- The first of the entries that is no channel value is `n`, which comes after `accepted`. -/
structure Refuses (entries accepted : List ℤ) (n : ℤ) : Prop where
  split : ∃ rest, entries = accepted ++ n :: rest
  accepted_ok : ∀ m ∈ accepted, IsChannelValue m
  refused : ¬ IsChannelValue n

/-! ### Entries -/

section

variable {n : ℤ} {ns accepted colour : List ℤ}

theorem isChannelValue_of_channel? {b : UInt8} (h : channel? n = some b) : IsChannelValue n := by
  have hvalue := channel?_eq_some h
  have hlt := b.toNat_lt
  unfold IsChannelValue
  omega

theorem not_isChannelValue_of_channel? (h : channel? n = none) : ¬ IsChannelValue n := by
  intro hn
  unfold channel? at h
  rw [if_pos (show 0 ≤ n ∧ n ≤ 255 from hn)] at h
  exact absurd h (by simp)

theorem Refuses.not_forall (h : Refuses ns accepted n) : ¬ ∀ m ∈ ns, IsChannelValue m := by
  obtain ⟨rest, rfl⟩ := h.split
  exact fun hall => h.refused (hall n (List.mem_append_right _ List.mem_cons_self))

theorem Refuses.cons {m : ℤ} (hm : IsChannelValue m) (h : Refuses ns accepted n) :
    Refuses (m :: ns) (m :: accepted) n where
  split := by
    obtain ⟨rest, rfl⟩ := h.split
    exact ⟨rest, rfl⟩
  accepted_ok := List.forall_mem_cons.mpr ⟨hm, h.accepted_ok⟩
  refused := h.refused

theorem refuses_head (h : channel? n = none) : Refuses (n :: ns) [] n :=
  ⟨⟨ns, rfl⟩, by simp, not_isChannelValue_of_channel? h⟩

/-- A colour that is converted keeps its numbers. -/
theorem channels?_eq_ok {bs : List UInt8} (h : channels? ns = .ok bs) :
    (bs.map fun b => (b.toNat : ℤ)) = ns ∧ ∀ m ∈ ns, IsChannelValue m := by
  induction ns generalizing bs with
  | nil =>
    obtain rfl : [] = bs := Except.ok.inj h
    exact ⟨rfl, by simp⟩
  | cons m ns ih =>
    rw [channels?] at h
    cases hm : channel? m with
    | none => simp [hm] at h
    | some b =>
      cases hns : channels? ns with
      | error e => simp [hm, hns] at h
      | ok bs' =>
        simp only [hm, hns] at h
        obtain rfl := Except.ok.inj h
        obtain ⟨hnumbers, hall⟩ := ih hns
        refine ⟨?_, List.forall_mem_cons.mpr ⟨isChannelValue_of_channel? hm, hall⟩⟩
        rw [List.map_cons, hnumbers, channel?_eq_some hm]

/-- A colour that is not converted has a first entry that is no channel value. -/
theorem channels?_eq_error {e : PaintError} (h : channels? ns = .error e) :
    ∃ accepted n, Refuses ns accepted n ∧ e = .channel n := by
  induction ns generalizing e with
  | nil => exact absurd h (by simp [channels?])
  | cons m ns ih =>
    rw [channels?] at h
    cases hm : channel? m with
    | none =>
      simp only [hm] at h
      exact ⟨[], m, refuses_head hm, (Except.error.inj h).symm⟩
    | some b =>
      cases hns : channels? ns with
      | ok bs => simp [hm, hns] at h
      | error e' =>
        simp only [hm, hns] at h
        obtain ⟨accepted, n, hrefuses, rfl⟩ := ih hns
        exact ⟨m :: accepted, n, hrefuses.cons (isChannelValue_of_channel? hm),
          (Except.error.inj h).symm⟩

/-- The entry that is added to three is a channel value. -/
theorem forall_mem_withAlpha_iff :
    (∀ m ∈ withAlpha colour, IsChannelValue m) ↔ ∀ m ∈ colour, IsChannelValue m := by
  have hopaque : IsChannelValue 255 := ⟨by decide, by decide⟩
  unfold withAlpha
  split
  · rw [List.forall_mem_append, List.forall_mem_singleton]
    exact and_iff_left hopaque
  · exact Iff.rfl

theorem length_withAlpha_eq_four_iff :
    (withAlpha colour).length = 4 ↔ colour.length = 3 ∨ colour.length = 4 := by
  unfold withAlpha
  split
  · next h => simp [h]
  · next h => simp [h]

theorem fullColour_of_length (h : colour.length = 3 ∨ colour.length = 4) :
    fullColour colour = withAlpha colour := by
  unfold fullColour
  split
  · simp at h
  · rfl

end

/-! ### One pixel -/

namespace Pixel

/-- The ways in which painting a pixel ends: it has the colour; or a colour of three or four
entries has been stored up to one that is no channel value; or another colour has such an entry,
or entries of a wrong number, and nothing has been stored. -/
inductive Painted (old : Pixel) (colour : List ℤ) : Pixel × Option PaintError → Prop
  | whole {p : Pixel} (hlength : HasColourLength colour)
      (hentries : ∀ m ∈ colour, IsChannelValue m) (hp : p.numbers = fullColour colour) :
      Painted old colour (p, none)
  | front {p : Pixel} {accepted : List ℤ} {n : ℤ} (hlength : colour.length = 3 ∨ colour.length = 4)
      (hrefuses : Refuses (withAlpha colour) accepted n)
      (hp : p.numbers = accepted ++ old.numbers.drop accepted.length) :
      Painted old colour (p, some (.channel n))
  | entry {accepted : List ℤ} {n : ℤ} (hlength : ¬ (colour.length = 3 ∨ colour.length = 4))
      (hrefuses : Refuses colour accepted n) : Painted old colour (old, some (.channel n))
  | length (hlength : ¬ HasColourLength colour) (hentries : ∀ m ∈ colour, IsChannelValue m) :
      Painted old colour (old, some (.entries colour.length [4]))

theorem numbers_injective {p q : Pixel} (h : p.numbers = q.numbers) : p = q := by
  obtain ⟨r, g, b, a⟩ := p
  obtain ⟨r', g', b', a'⟩ := q
  simp only [numbers, channels, List.map_cons, List.cons.injEq, Int.ofNat_inj,
    UInt8.toNat_inj] at h
  obtain ⟨rfl, rfl, rfl, rfl, -⟩ := h
  rfl

/-- Four numbers are stored up to the first that is no channel value, and the channels behind it
keep their old values. -/
theorem store_cases (old : Pixel) (r g b a : ℤ) :
    (∃ p, old.store r g b a = (p, none) ∧ p.numbers = [r, g, b, a] ∧
      ∀ m ∈ [r, g, b, a], IsChannelValue m) ∨
    ∃ p accepted n, old.store r g b a = (p, some (.channel n)) ∧
      Refuses [r, g, b, a] accepted n ∧
      p.numbers = accepted ++ old.numbers.drop accepted.length := by
  cases hr : channel? r with
  | none => exact Or.inr ⟨old, [], r, by simp only [store, hr], refuses_head hr, rfl⟩
  | some r' =>
    have hr' := isChannelValue_of_channel? hr
    have hred := channel?_eq_some hr
    cases hg : channel? g with
    | none =>
      refine Or.inr ⟨_, [r], g, by simp only [store, hr, hg]; rfl, (refuses_head hg).cons hr', ?_⟩
      simp [numbers, channels, hred]
    | some g' =>
      have hg' := isChannelValue_of_channel? hg
      have hgreen := channel?_eq_some hg
      cases hb : channel? b with
      | none =>
        refine Or.inr ⟨_, [r, g], b, by simp only [store, hr, hg, hb]; rfl,
          ((refuses_head hb).cons hg').cons hr', ?_⟩
        simp [numbers, channels, hred, hgreen]
      | some b' =>
        have hb' := isChannelValue_of_channel? hb
        have hblue := channel?_eq_some hb
        cases ha : channel? a with
        | none =>
          refine Or.inr ⟨_, [r, g, b], a, by simp only [store, hr, hg, hb, ha]; rfl,
            (((refuses_head ha).cons hb').cons hg').cons hr', ?_⟩
          simp [numbers, channels, hred, hgreen, hblue]
        | some a' =>
          have halpha := channel?_eq_some ha
          refine Or.inl ⟨_, by simp only [store, hr, hg, hb, ha]; rfl, ?_, ?_⟩
          · simp [numbers, channels, hred, hgreen, hblue, halpha]
          · simp [hr', hg', hb', isChannelValue_of_channel? ha]

/-- **Painting a pixel ends in one of the ways.** -/
theorem painted_paint (old : Pixel) (colour : List ℤ) : Painted old colour (old.paint colour) := by
  unfold paint
  split
  · next r g b a hfour =>
    have hlength := length_withAlpha_eq_four_iff.mp (congrArg List.length hfour)
    rcases old.store_cases r g b a with ⟨p, hstore, hp, hall⟩ |
      ⟨p, accepted, n, hstore, hrefuses, hp⟩
    · rw [← hfour] at hp hall
      rw [hstore]
      exact .whole (Or.inr hlength) (forall_mem_withAlpha_iff.mp hall)
        (hp.trans (fullColour_of_length hlength).symm)
    · rw [← hfour] at hrefuses
      rw [hstore]
      exact .front hlength hrefuses hp
  · next hnotFour =>
    -- there are neither three nor four entries
    have hlength : ¬ (colour.length = 3 ∨ colour.length = 4) := by
      rw [← length_withAlpha_eq_four_iff]
      intro h
      match hentries : withAlpha colour, h with
      | [r, g, b, a], _ => exact hnotFour r g b a hentries
    have hsame : withAlpha colour = colour := if_neg fun h => hlength (Or.inl h)
    rw [hsame]
    cases hchannels : channels? colour with
    | error e =>
      obtain ⟨accepted, n, hrefuses, rfl⟩ := channels?_eq_error hchannels
      exact .entry hlength hrefuses
    | ok bs =>
      obtain ⟨hnumbers, hall⟩ := channels?_eq_ok hchannels
      match bs, hnumbers with
      | [v], hnumbers =>
        subst hnumbers
        exact .whole (Or.inl rfl) hall rfl
      | [], hnumbers =>
        subst hnumbers
        exact .length (by simp [HasColourLength]) hall
      | v :: w :: bs, hnumbers =>
        refine .length ?_ hall
        rintro (h | h)
        · rw [← hnumbers] at h
          simp at h
        · exact hlength h

end Pixel

/-! ### Pictures -/

/-- A pixel that is put back where it was found changes nothing. -/
theorem Image.set_self {img : Image} {x y : ℕ} {p : Pixel} (h : img.get? x y = some p) :
    img.set x y p = img := by
  refine ext_get? rfl rfl fun i j _ _ => ?_
  rw [get?_set]
  split
  · next hplace =>
    obtain ⟨rfl, rfl⟩ := hplace
    rw [h, Option.map_some]
  · rfl

namespace Album

variable {a a' : Album} {p : ℕ} {img : Image} {x y : ℤ} {colour : List ℤ}

/-- The pictures of the album `a` are those of `a'` but for the pixel at a coordinate of the
pictures that show the buffer of the picture `p`. -/
structure KeepsBeside (a a' : Album) (p : ℕ) (x y : ℤ) : Prop where
  buffer?_eq : ∀ q, a'.buffer? q = a.buffer? q
  size_eq : ∀ q, (a'.image? q).map Image.size = (a.image? q).map Image.size
  pixel?_eq : ∀ (q i j : ℕ), ¬ (a.buffer? q = a.buffer? p ∧ (i : ℤ) = x ∧ (j : ℤ) = y) →
    a'.pixel? q i j = a.pixel? q i j

/-- All pictures that show the buffer of the picture `p` have the given channels at a
coordinate. -/
def ShowsAt (a : Album) (p : ℕ) (x y : ℤ) (numbers : List ℤ) : Prop :=
  ∀ q img, a.buffer? q = a.buffer? p → a.image? q = some img →
    ∃ pixel, img.pixelAt x y = .ok pixel ∧ pixel.numbers = numbers

/-- The ways in which painting the picture `p`, which shows the image `img`, ends. -/
inductive Painted (a : Album) (p : ℕ) (img : Image) (x y : ℤ) (colour : List ℤ) :
    Album × Option PaintError → Prop
  | whole {a' : Album} (hcontains : img.contains x y = true) (hlength : HasColourLength colour)
      (hentries : ∀ m ∈ colour, IsChannelValue m) (hbeside : a.KeepsBeside a' p x y)
      (hshows : a'.ShowsAt p x y (fullColour colour)) : Painted a p img x y colour (a', none)
  | front {a' : Album} {old : Pixel} {accepted : List ℤ} {n : ℤ}
      (hcontains : img.contains x y = true) (hold : img.pixelAt x y = .ok old)
      (hlength : colour.length = 3 ∨ colour.length = 4)
      (hrefuses : Refuses (withAlpha colour) accepted n) (hbeside : a.KeepsBeside a' p x y)
      (hshows : a'.ShowsAt p x y (accepted ++ old.numbers.drop accepted.length))
      (hfirst : accepted = [] → a' = a) : Painted a p img x y colour (a', some (.channel n))
  | entry {accepted : List ℤ} {n : ℤ} (hcontains : img.contains x y = true)
      (hlength : ¬ (colour.length = 3 ∨ colour.length = 4)) (hrefuses : Refuses colour accepted n) :
      Painted a p img x y colour (a, some (.channel n))
  | length (hcontains : img.contains x y = true) (hlength : ¬ HasColourLength colour)
      (hentries : ∀ m ∈ colour, IsChannelValue m) :
      Painted a p img x y colour (a, some (.entries colour.length [4]))
  | outside (hcontains : img.contains x y = false) :
      Painted a p img x y colour (a, some (img.outsideError x y))

theorem setBuffer_self {b : ℕ} (hb : a.buffer? p = some b) (himg : a.image? p = some img) :
    a.setBuffer b img = a := by
  have hbuffer : a.buffers[b]? = some img := by
    rw [image?, hb] at himg
    exact himg
  obtain ⟨hlt, hget⟩ := List.getElem?_eq_some_iff.mp hbuffer
  obtain ⟨buffers, shows, hshows⟩ := a
  simp only [setBuffer, Album.mk.injEq, and_true]
  rw [← hget]
  exact List.set_getElem_self hlt

section

variable {b : ℕ} (hb : a.buffer? p = some b) (himg : a.image? p = some img)
  (hcontains : img.contains x y = true) (pixel : Pixel)

include hb hcontains

include himg in
theorem keepsBeside_setBuffer_set :
    a.KeepsBeside (a.setBuffer b (img.set x.toNat y.toNat pixel)) p x y where
  buffer?_eq _ := rfl
  size_eq q := by
    have hsize : (img.set x.toNat y.toNat pixel).size = img.size := rfl
    exact size_setBuffer hb himg hsize q
  pixel?_eq q i j h := by rw [pixel?_setBuffer_set hb himg hcontains, if_neg h]

theorem showsAt_setBuffer_set :
    (a.setBuffer b (img.set x.toNat y.toNat pixel)).ShowsAt p x y pixel.numbers := by
  intro q img' hq himg'
  have hq' : a.buffer? q = a.buffer? p := hq
  rw [image?_setBuffer hb, if_pos hq'] at himg'
  obtain rfl := Option.some.inj himg'
  obtain ⟨old, hold⟩ := Image.exists_pixelAt_iff.mpr hcontains
  obtain ⟨hx, hy, hget⟩ := Image.pixelAt_eq_ok_iff.mp hold
  refine ⟨pixel, Image.pixelAt_eq_ok_iff.mpr ⟨hx, hy, ?_⟩, rfl⟩
  rw [Image.get?_set, if_pos ⟨rfl, rfl⟩, hget, Option.map_some]

end

/-- **Painting a picture ends in one of the ways.** -/
theorem painted_paint (himg : a.image? p = some img) (x y : ℤ) (colour : List ℤ) :
    a.Painted p img x y colour (a.paint p x y colour) := by
  obtain ⟨b, -, hb, -⟩ := lt_size_iff.mp (lt_size_of_image? himg)
  have hself := setBuffer_self hb himg
  simp only [paint, hb, himg, Image.paint]
  cases hcontains : img.contains x y with
  | false =>
    simp only [Image.pixelAt_of_not_contains hcontains, hself]
    exact .outside hcontains
  | true =>
    obtain ⟨old, hold⟩ := Image.exists_pixelAt_iff.mpr hcontains
    -- a refusal puts the old pixel back
    have hsame : a.setBuffer b (img.set x.toNat y.toNat old) = a := by
      rw [Image.set_self (Image.pixelAt_eq_ok_iff.mp hold).2.2, hself]
    have hbeside := keepsBeside_setBuffer_set hb himg hcontains
    have hshows := showsAt_setBuffer_set hb hcontains
    have hpainted := old.painted_paint colour
    simp only [hold]
    generalize old.paint colour = outcome at hpainted
    cases hpainted with
    | @whole pixel hlength hentries hp =>
      exact .whole hcontains hlength hentries (hbeside pixel) (hp ▸ hshows pixel)
    | @front pixel accepted n hlength hrefuses hp =>
      refine .front hcontains hold hlength hrefuses (hbeside pixel) (hp ▸ hshows pixel) ?_
      rintro rfl
      rw [Pixel.numbers_injective hp]
      exact hsame
    | entry hlength hrefuses =>
      rw [hsame]
      exact .entry hcontains hlength hrefuses
    | length hlength hentries =>
      rw [hsame]
      exact .length hcontains hlength hentries

/-! ### What painting leaves behind -/

section

variable {outcome : Album × Option PaintError} (h : a.Painted p img x y colour outcome)

include h

theorem Painted.family_eq : outcome.2.map PaintError.family = img.refusal? x y colour := by
  unfold Image.refusal?
  cases h with
  | whole hcontains hlength hentries =>
    rw [if_pos hcontains, if_pos hentries, if_pos hlength]
    rfl
  | front hcontains _ _ hrefuses =>
    rw [if_pos hcontains, if_neg (mt forall_mem_withAlpha_iff.mpr hrefuses.not_forall)]
    rfl
  | entry hcontains _ hrefuses =>
    rw [if_pos hcontains, if_neg hrefuses.not_forall]
    rfl
  | length hcontains hlength hentries =>
    rw [if_pos hcontains, if_pos hentries, if_neg hlength]
    rfl
  | outside hcontains =>
    rw [if_neg (by simp [hcontains]), Image.outsideError]
    split <;> rfl

theorem Painted.through (hnone : img.refusal? x y colour = none) :
    a.KeepsBeside outcome.1 p x y ∧ outcome.1.ShowsAt p x y (fullColour colour) := by
  rw [← h.family_eq] at hnone
  cases h with
  | whole _ _ _ hbeside hshows => exact ⟨hbeside, hshows⟩
  | front | entry | length | outside => exact absurd hnone (by simp)

theorem Painted.unchanged (hsome : img.refusal? x y colour ≠ none)
    (hentry : img.refusal? x y colour = some .overflow →
      ¬ (colour.length = 3 ∨ colour.length = 4)) : outcome.1 = a := by
  rw [← h.family_eq] at hsome hentry
  cases h with
  | whole => exact absurd rfl hsome
  | front _ _ hlength => exact absurd hlength (hentry rfl)
  | entry | length | outside => rfl

theorem Painted.torn (hoverflow : img.refusal? x y colour = some .overflow)
    (hlength : colour.length = 3 ∨ colour.length = 4) :
    ∃ accepted n old, Refuses (withAlpha colour) accepted n ∧ outcome.2 = some (.channel n) ∧
      img.pixelAt x y = .ok old ∧ a.KeepsBeside outcome.1 p x y ∧
      outcome.1.ShowsAt p x y (accepted ++ old.numbers.drop accepted.length) ∧
      (accepted = [] → outcome.1 = a) := by
  rw [← h.family_eq] at hoverflow
  cases h with
  | whole | length => exact absurd hoverflow (by simp [PaintError.family])
  | outside _ =>
    unfold Image.outsideError at hoverflow
    split at hoverflow <;> exact absurd hoverflow (by simp [PaintError.family])
  | entry _ hnot => exact absurd hlength hnot
  | @front _ old accepted n _ hold _ hrefuses hbeside hshows hfirst =>
    exact ⟨accepted, n, old, hrefuses, rfl, hold, hbeside, hshows, hfirst⟩

end

/-- **What painting does to the pictures of an album.**  It goes through exactly if the coordinate
lies inside the image and the colour has one, three or four entries, all of them channel values;
then all pictures that show the buffer have the colour at the coordinate, and nothing else is
changed.  What is refused changes nothing, unless an entry of a colour of three or four is no
channel value: then the entries in front of it are stored. -/
theorem paint_outcome (himg : a.image? p = some img) (x y : ℤ) (colour : List ℤ) :
    (a.paint p x y colour).2.map PaintError.family = img.refusal? x y colour ∧
    (img.refusal? x y colour = none →
      a.KeepsBeside (a.paint p x y colour).1 p x y ∧
      (a.paint p x y colour).1.ShowsAt p x y (fullColour colour)) ∧
    (img.refusal? x y colour ≠ none →
      (img.refusal? x y colour = some .overflow → ¬ (colour.length = 3 ∨ colour.length = 4)) →
      (a.paint p x y colour).1 = a) ∧
    (img.refusal? x y colour = some .overflow → (colour.length = 3 ∨ colour.length = 4) →
      ∃ accepted n old, Refuses (withAlpha colour) accepted n ∧
        (a.paint p x y colour).2 = some (.channel n) ∧ img.pixelAt x y = .ok old ∧
        a.KeepsBeside (a.paint p x y colour).1 p x y ∧
        (a.paint p x y colour).1.ShowsAt p x y (accepted ++ old.numbers.drop accepted.length) ∧
        (accepted = [] → (a.paint p x y colour).1 = a)) := by
  have h := painted_paint himg x y colour
  exact ⟨h.family_eq, h.through, h.unchanged, h.torn⟩

/-- A picture of one pixel, and another one that shows its buffer. -/
def pair : Album := (empty.add ⟨1, 1, #[⟨50, 60, 70, 80⟩], rfl⟩).share 0

/-- Painting both pictures at once with an opaque colour. -/
theorem paint_outcome_pair : (pair.paint 0 0 0 [1, 2, 3]).1.ShowsAt 0 0 0 [1, 2, 3, 255] :=
  have himg : pair.image? 0 = some ⟨1, 1, #[⟨50, 60, 70, 80⟩], rfl⟩ := by decide +kernel
  ((paint_outcome himg 0 0 [1, 2, 3]).2.1 (by decide +kernel)).2

/-- **A colour that is refused is not always left out**: red, green and blue of the pixel are those
of the colour, in both pictures, when its alpha value is refused. -/
theorem paint_keeps_front :
    (pair.paint 0 0 0 [0, 0, 0, 256]).2 = some (.channel 256) ∧
    pair.pixel? 1 0 0 = some ⟨50, 60, 70, 80⟩ ∧
    (pair.paint 0 0 0 [0, 0, 0, 256]).1.pixel? 0 0 0 = some ⟨0, 0, 0, 80⟩ ∧
    (pair.paint 0 0 0 [0, 0, 0, 256]).1.pixel? 1 0 0 = some ⟨0, 0, 0, 80⟩ := by
  decide +kernel

end Album
end ImagePipeline
