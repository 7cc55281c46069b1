import ImagePipeline.Image.Creation

/-!
# Albums

Pictures that refer to images: two pictures may show the same buffer, and
painting one of them is seen in the other.  Every other way of making a picture
gives it a buffer of its own.

## Main definitions

* `Album` — buffers, and for every picture the buffer it shows.
* `Album.add` — a picture with a buffer of its own.
* `Album.share` — a picture that shows the buffer of another one.
* `Album.modify` — changes the buffer of a picture in place.
* `Album.paint` — paints a pixel of a picture.
-/

namespace ImagePipeline

/-- Buffers, and pictures that show them. -/
structure Album where
  buffers : List Image
  /-- The number of the buffer that each picture shows. -/
  shows : List Nat
  /-- Every picture shows a buffer. -/
  shows_lt : ∀ b ∈ shows, b < buffers.length

namespace Album

/-- The album without pictures. -/
def empty : Album := ⟨[], [], by simp⟩

instance : Inhabited Album := ⟨empty⟩

/-- The number of pictures; the pictures are numbered from zero. -/
def size (a : Album) : Nat := a.shows.length

/-- The number of the buffer that a picture shows. -/
def buffer? (a : Album) (picture : Nat) : Option Nat := a.shows[picture]?

/-- The image that a picture shows. -/
def image? (a : Album) (picture : Nat) : Option Image := do
  let b ← a.buffer? picture
  a.buffers[b]?

/-- Adds a picture with a buffer of its own, which gets the number `a.size`. -/
def add (a : Album) (img : Image) : Album :=
  ⟨a.buffers ++ [img], a.shows ++ [a.buffers.length], by
    intro b hb
    rcases List.mem_append.1 hb with h | h
    · have := a.shows_lt b h
      rw [List.length_append]
      omega
    · obtain rfl := List.mem_singleton.1 h
      simp⟩

/-- Adds a picture that shows the buffer of another one; a picture that is not
there is not shared. -/
def share (a : Album) (picture : Nat) : Album :=
  match h : a.shows[picture]? with
  | none => a
  | some b =>
    ⟨a.buffers, a.shows ++ [b], by
      intro c hc
      rcases List.mem_append.1 hc with h' | h'
      · exact a.shows_lt c h'
      · obtain rfl := List.mem_singleton.1 h'
        exact a.shows_lt _ (List.mem_of_getElem? h)⟩

/-- Puts another image into a buffer. -/
def setBuffer (a : Album) (b : Nat) (img : Image) : Album :=
  ⟨a.buffers.set b img, a.shows, by simpa using a.shows_lt⟩

/-- Changes the buffer of a picture in place; without the picture nothing changes. -/
def modify (a : Album) (picture : Nat) (f : Image → Image) : Album :=
  match a.buffer? picture, a.image? picture with
  | some b, some img => a.setBuffer b (f img)
  | _, _ => a

/-- Paints a pixel of a picture: the album afterwards, and the error if any. -/
def paint (a : Album) (picture : Nat) (x y : Int) (colour : List Int) : Album × Option PaintError :=
  match a.buffer? picture, a.image? picture with
  | some b, some img =>
    let (img', e) := img.paint x y colour
    (a.setBuffer b img', e)
  | _, _ => (a, none)

end Album
end ImagePipeline
