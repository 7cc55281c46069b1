import ImagePipeline.Proofs.Image.NoiseBand
import ImagePipeline.Proofs.Image.Recolouring
import ImagePipeline.Proofs.Node.Draws

/-!
# What noise does

Noise moves the three colours of a pixel by one offset, which the source gives for the place of
the pixel, and cuts them off to channel values.  The band of a number is symmetric, so an empty
one moves nothing; and it is so much narrower than the range of a word of 64 bits that no sum
leaves that range.

## Main definitions

* `Channel`, `Pixel.value` — the colour channels of a pixel.
* `Noise.Moves` — a pixel is another one, moved by an offset.
* `Noise.offsetAt` — the offset of the pixel at a place.
* `Noise.Disturbs` — an image is another one with noise.

## Main results

* `Noise.moves_shift` — cutting off the sums moves a pixel.
* `Noise.disturbs_addNoise` — what adding noise makes.
* `Node.apply_noise_moves` — what a noise node does with any amount.
-/

namespace ImagePipeline

/-- The colour channels. -/
inductive Channel where
  | red
  | green
  | blue
  deriving DecidableEq

/-- The value of a colour channel. -/
def Pixel.value (p : Pixel) : Channel → UInt8
  | .red => p.red
  | .green => p.green
  | .blue => p.blue

/-- A sum in the range of words of 64 bits is the sum of the words. -/
theorem toInt_ofInt_add_ofInt {m n : ℤ} (hlow : -2 ^ 63 ≤ m + n) (hhigh : m + n < 2 ^ 63) :
    (Int64.ofInt m + Int64.ofInt n).toInt = m + n := by
  have hsize : Int64.size = 2 ^ 64 := rfl
  rw [Int64.toInt_add, Int64.toInt_ofInt, Int64.toInt_ofInt, hsize, Int.bmod_add_bmod,
    Int.add_bmod_bmod]
  exact Int.bmod_eq_of_le (by omega) (by omega)

namespace Noise

/-- The pixel `q` is the pixel `p` with one offset added to all of its colours, each sum cut off
to a channel value.  No sum leaves the range of words of 64 bits. -/
structure Moves (offset : ℤ) (p q : Pixel) : Prop where
  value_eq : ∀ c, ((q.value c).toNat : ℤ) = min 255 (max 0 ((p.value c).toNat + offset))
  word_eq : ∀ c, (Int64.ofInt (p.value c).toNat + Int64.ofInt offset).toInt =
    (p.value c).toNat + offset
  alpha_eq : q.alpha = p.alpha

/-- The offset of the pixel in column `x` of row `y`: the source gives one for every place, row
by row, unless the band is empty. -/
def offsetAt (b : Band) (d : Draws) (width x y : ℕ) : ℤ :=
  if b.isEmpty then 0 else d.offset b (y * width + x)

/-- The image `out` is the image `img` with noise of a band from a source. -/
structure Disturbs (b : Band) (d : Draws) (img out : Image) : Prop where
  size_eq : out.size = img.size
  moves : ∀ x y p, img.get? x y = some p →
    ∃ q, out.get? x y = some q ∧ Moves (offsetAt b d img.width x y) p q
  near : ∀ x y p q, img.get? x y = some p → out.get? x y = some q →
    ∀ c, |((q.value c).toNat : ℤ) - (p.value c).toNat| ≤ b.high
  /-- Of two channels of a pixel the lower one stays the lower one. -/
  ordered : ∀ x y p q, img.get? x y = some p → out.get? x y = some q →
    ∀ c c', p.value c ≤ p.value c' → q.value c ≤ q.value c'
  eq_of_isEmpty : b.isEmpty = true → out = img

/-! ### One pixel -/

section

variable {offset : ℤ} {p q : Pixel}

theorem toNat_shift (offset : ℤ) (v : UInt8) :
    ((shift offset v).toNat : ℤ) = min 255 (max 0 (v.toNat + offset)) := by
  rw [shift, toNat_toByte]
  omega

theorem value_lt (p : Pixel) (c : Channel) : (p.value c).toNat < 256 := (p.value c).toNat_lt

/-- **Cutting off the sums moves a pixel.** -/
theorem moves_shift (h : |offset| ≤ bandLimit) (p : Pixel) :
    Moves offset p (p.mapColour (shift offset)) where
  value_eq c := by cases c <;> exact toNat_shift offset _
  word_eq c := by
    have hlimit : bandLimit = 2 ^ 62 := rfl
    have hvalue := value_lt p c
    rw [abs_le] at h
    exact toInt_ofInt_add_ofInt (by omega) (by omega)
  alpha_eq := rfl

/-- A pixel is moved no further than its offset. -/
theorem Moves.abs_sub_le (h : Moves offset p q) (c : Channel) :
    |((q.value c).toNat : ℤ) - (p.value c).toNat| ≤ |offset| := by
  have hp := value_lt p c
  have hq := h.value_eq c
  rw [abs_le]
  rcases abs_cases offset with ⟨habs, hsign⟩ | ⟨habs, hsign⟩ <;> rw [habs] <;> omega

/-- One offset for two channels does not change which of them is lower. -/
theorem Moves.value_le (h : Moves offset p q) {c c' : Channel} (hle : p.value c ≤ p.value c') :
    q.value c ≤ q.value c' := by
  have hc := h.value_eq c
  have hc' := h.value_eq c'
  rw [UInt8.le_iff_toNat_le] at hle ⊢
  omega

theorem Moves.unique {q' : Pixel} (h : Moves offset p q) (h' : Moves offset p q') : q = q' := by
  have hvalue : ∀ c, q.value c = q'.value c := by
    intro c
    have hc := (h.value_eq c).trans (h'.value_eq c).symm
    exact UInt8.toNat_inj.mp (by exact_mod_cast hc)
  have halpha := h.alpha_eq.trans h'.alpha_eq.symm
  obtain ⟨r, g, b, a⟩ := q
  obtain ⟨r', g', b', a'⟩ := q'
  obtain rfl : r = r' := hvalue .red
  obtain rfl : g = g' := hvalue .green
  obtain rfl : b = b' := hvalue .blue
  obtain rfl : a = a' := halpha
  rfl

/-- A pixel that is moved by nothing stays. -/
theorem moves_zero (p : Pixel) : Moves 0 p p where
  value_eq c := by
    have hvalue := value_lt p c
    omega
  word_eq c := by
    have hvalue := value_lt p c
    exact toInt_ofInt_add_ofInt (by omega) (by omega)
  alpha_eq := rfl

end

/-! ### All pixels -/

section

variable (x : Binary64) (d : Draws)

theorem lt_of_isEmpty_eq_false (h : (band x).isEmpty = false) : (band x).low < (band x).high := by
  obtain ⟨n, -, hband, -⟩ := exists_band_eq x
  rw [hband] at h ⊢
  have hne : -|n| ≠ |n| := by simpa [Band.isEmpty] using h
  show -|n| < |n|
  have hnonneg := abs_nonneg n
  omega

/-- An empty band has no offset but zero. -/
theorem noiseOffset_eq (width i j : ℕ) :
    Image.noiseOffset (band x) d width i j = offsetAt (band x) d width i j := by
  unfold Image.noiseOffset offsetAt
  split
  · next h =>
    obtain ⟨n, -, hband, -⟩ := exists_band_eq x
    rw [hband] at h ⊢
    have heq : -|n| = |n| := by simpa [Band.isEmpty] using h
    show -|n| = 0
    omega
  · rfl

/-- No offset is greater than the bound of the band. -/
theorem abs_offsetAt_le (width i j : ℕ) : |offsetAt (band x) d width i j| ≤ (band x).high := by
  obtain ⟨n, -, hband, -⟩ := exists_band_eq x
  unfold offsetAt
  split
  · rw [hband, abs_zero]
    exact abs_nonneg n
  · next h =>
    have hlt := lt_of_isEmpty_eq_false x (Bool.eq_false_iff.mpr h)
    obtain ⟨hlow, hhigh⟩ := d.offset_mem hlt (j * width + i)
    have hsymm : (band x).low = -(band x).high := by rw [hband]
    rw [abs_le]
    omega

/-- **Adding noise moves every pixel by the offset of its place.** -/
theorem disturbs_addNoise (img : Image) :
    Disturbs (band x) d img (img.addNoise (band x) d).1 := by
  have hrecoloured := Image.isRecoloured_addNoise (band x) d img
  generalize (img.addNoise (band x) d).1 = out at hrecoloured
  have hmoves : ∀ i j p, img.get? i j = some p →
      ∃ q, out.get? i j = some q ∧ Moves (offsetAt (band x) d img.width i j) p q := by
    intro i j p hp
    have hlimit : |offsetAt (band x) d img.width i j| ≤ bandLimit := by
      obtain ⟨n, -, hband, hn⟩ := exists_band_eq x
      refine (abs_offsetAt_le x d img.width i j).trans ?_
      rw [hband]
      exact hn
    refine ⟨_, ?_, moves_shift hlimit p⟩
    rw [hrecoloured.get?_eq, hp, noiseOffset_eq]
    rfl
  have hmoved : ∀ i j p q, img.get? i j = some p → out.get? i j = some q →
      Moves (offsetAt (band x) d img.width i j) p q := by
    intro i j p q hp hq
    obtain ⟨q', hq', h⟩ := hmoves i j p hp
    obtain rfl : q' = q := Option.some.inj (hq'.symm.trans hq)
    exact h
  refine ⟨hrecoloured.size_eq, hmoves, fun i j p q hp hq c => ?_, fun i j p q hp hq c c' => ?_,
    fun hempty => ?_⟩
  · exact ((hmoved i j p q hp hq).abs_sub_le c).trans (abs_offsetAt_le x d img.width i j)
  · exact (hmoved i j p q hp hq).value_le
  · obtain ⟨hwidth, hheight⟩ := Prod.mk.inj hrecoloured.size_eq
    refine Image.ext_get? hwidth hheight fun i j hi hj => ?_
    obtain ⟨p, hp⟩ := Option.isSome_iff_exists.mp
      (Image.get?_isSome_iff.mpr ⟨hwidth ▸ hi, hheight ▸ hj⟩)
    obtain ⟨q, hq, h⟩ := hmoves i j p hp
    rw [offsetAt, if_pos hempty] at h
    rw [hp, hq, h.unique (moves_zero p)]

/-- Any row of members of a band is the row of offsets of some source. -/
theorem exists_draws {b : Band} {f : ℕ → ℤ} (h : ∀ k, b.low ≤ f k ∧ f k < b.high) :
    ∃ d : Draws, ∀ k, d.offset b k = f k := by
  refine ⟨⟨fun k => f k - b.low, 0⟩, fun k => ?_⟩
  obtain ⟨hlow, hhigh⟩ := h k
  show b.low + (f (0 + k) - b.low) % (b.high - b.low) = f k
  rw [Nat.zero_add, Int.emod_eq_of_lt (by omega) (by omega)]
  omega

end

end Noise

open Noise

/-- **Noise moves every pixel by one offset.**  With any amount, finite or not, a noise node
makes an image of the same size, in which the colours of every pixel are moved by the offset that
the source gives for its place and cut off to channel values; the offsets are members of the
band, and any members could be drawn.  One offset is drawn for every pixel.  The band is empty
exactly if 255 times the amount is less than one in magnitude, and then the image is returned as
it is and nothing is drawn. -/
theorem Node.apply_noise_moves (x : Binary64) (id : Option ℕ) (s : Sources) (img : Image) :
    ∃ out, (Node.noise (.real x) id).apply s img =
        .ok (out, s.keep id ((s.draws id).advance
          (if (band x).isEmpty = false then img.width * img.height else 0))) ∧
      Disturbs (band x) (s.draws id) img out ∧
      ((band x).isEmpty = false → ∀ k, (band x).low ≤ (s.draws id).offset (band x) k ∧
        (s.draws id).offset (band x) k < (band x).high) ∧
      ((band x).isEmpty = true ↔
        ∃ q, (Binary64.ofNat 255 * x).toRat? = some q ∧ |q| < 1) ∧
      ∀ f : ℕ → ℤ, (∀ k, (band x).low ≤ f k ∧ f k < (band x).high) →
        ∃ d : Draws, ∀ k, d.offset (band x) k = f k := by
  refine ⟨(img.addNoise (band x) (s.draws id)).1, ?_, disturbs_addNoise x _ img, ?_,
    isEmpty_band_iff, fun f => exists_draws⟩
  · rw [← Image.draws_addNoise]
    rfl
  · intro hempty k
    exact (s.draws id).offset_mem (lt_of_isEmpty_eq_false x hempty) k

end ImagePipeline
