import ImagePipeline.Proofs.File.Tree

/-!
# The shape of a file tree

Which places are directories and which are files, whatever the files hold.  Where a path
leads, and whether a file can be written or a directory made, can be told from the shape of a
tree, and what is written or made keeps trees of one shape in one shape.

## Main definitions

* `FileTree.SameShape` — two trees have directories and files at the same places.
* `FileTree.ShapesAlike` — two operations give trees of one shape, or are refused alike.

## Main results

* `FileTree.shapesAlike_write` — writing files with any contents.
* `FileTree.SameShape.makeDirectories` — making directories.
-/

namespace ImagePipeline

/-- Whether an entry is a directory. -/
def Entry.isDirectory : Entry → Bool
  | .directory => true
  | .file _ => false

namespace FileTree

/-- Two trees have directories and files at the same places. -/
def SameShape (t t' : FileTree) : Prop :=
  ∀ p, (t'.lookup p).map Entry.isDirectory = (t.lookup p).map Entry.isDirectory

/-- Two operations give trees of one shape, or they are refused alike. -/
inductive ShapesAlike {ε : Type} : Except ε FileTree → Except ε FileTree → Prop
  | gives {t t' : FileTree} (h : SameShape t t') : ShapesAlike (.ok t) (.ok t')
  | refused (e : ε) : ShapesAlike (.error e) (.error e)

theorem SameShape.refl (t : FileTree) : SameShape t t := fun _ => rfl

variable {t t' : FileTree}

/-! ### Finding places -/

/-- What stands at a place of two trees of one shape: nothing, a directory, or files. -/
theorem SameShape.cases (h : SameShape t t') (p : Place) :
    (t.lookup p = none ∧ t'.lookup p = none) ∨
      (t.lookup p = some .directory ∧ t'.lookup p = some .directory) ∨
      ∃ c c', t.lookup p = some (.file c) ∧ t'.lookup p = some (.file c') := by
  have hp := h p
  cases ht : t.lookup p with
  | none =>
    rw [ht, Option.map_none, Option.map_eq_none_iff] at hp
    exact Or.inl ⟨rfl, hp⟩
  | some e =>
    rw [ht, Option.map_some, Option.map_eq_some_iff] at hp
    obtain ⟨e', he', hkind⟩ := hp
    cases e <;> cases e' <;> simp_all [Entry.isDirectory]

theorem SameShape.isSome (h : SameShape t t') (p : Place) :
    (t'.lookup p).isSome = (t.lookup p).isSome := by
  have hp := congrArg Option.isSome (h p)
  simpa using hp

theorem SameShape.enter (h : SameShape t t') (p : Place) (name : String) :
    t'.enter p name = t.enter p name := by
  unfold FileTree.enter
  rcases h.cases p with ⟨ht, ht'⟩ | ⟨ht, ht'⟩ | ⟨c, c', ht, ht'⟩
  · rw [ht, ht']
  · rw [ht, ht', h.isSome]
  · rw [ht, ht']

theorem SameShape.follow (h : SameShape t t') (p : Place) (names : List String) :
    t'.follow p names = t.follow p names := by
  induction names generalizing p with
  | nil => rfl
  | cons n names ih =>
    rw [FileTree.follow, FileTree.follow, h.enter]
    cases t.enter p n with
    | error c => rfl
    | ok q => exact ih q

theorem SameShape.resolve (h : SameShape t t') (path : String) :
    t'.resolve path = t.resolve path := by
  simp only [FileTree.resolve, h.follow]

theorem SameShape.target (h : SameShape t t') (path : String) :
    t'.target path = t.target path := by
  simp only [FileTree.target, h.follow]

theorem SameShape.find? (h : SameShape t t') (path : String) :
    (t'.find? path).map Entry.isDirectory = (t.find? path).map Entry.isDirectory := by
  unfold FileTree.find?
  rw [h.resolve]
  cases t.resolve path with
  | error e => rfl
  | ok p => exact h p

theorem SameShape.contains (h : SameShape t t') (path : String) :
    t'.contains path = t.contains path := by
  have hfind := congrArg Option.isSome (h.find? path)
  simpa [FileTree.contains] using hfind

/-- Whether a path leads to a directory is told by the shape. -/
theorem SameShape.find?_eq_directory_iff (h : SameShape t t') (path : String) :
    t'.find? path = some .directory ↔ t.find? path = some .directory := by
  have hkind : ∀ x : Option Entry, x = some .directory ↔ x.map Entry.isDirectory = some true := by
    intro x
    rcases x with _ | _ | c <;> simp [Entry.isDirectory]
  rw [hkind, hkind, h.find?]

/-! ### Writing and making -/

theorem SameShape.insert (h : SameShape t t') {p : Place} (hp : p.names ≠ []) {e e' : Entry}
    (he : e'.isDirectory = e.isDirectory) : SameShape (t.insert p e) (t'.insert p e') := by
  intro q
  rw [lookup_insert _ hp, lookup_insert _ hp]
  split
  · rw [Option.map_some, Option.map_some, he]
  · exact h q

/-- **Files with any contents are written to the same places**, or to none. -/
theorem shapesAlike_write (h : SameShape t t') (path : String) (c c' : Content) :
    ShapesAlike (t.write path c) (t'.write path c') := by
  have hwritable : t'.writable path = t.writable path := by
    unfold writable
    rw [h.target]
    rcases t.target path with e | ⟨p, _ | n⟩
    · rfl
    · rfl
    · rcases h.cases (p.child n) with ⟨ht, ht'⟩ | ⟨ht, ht'⟩ | ⟨d, d', ht, ht'⟩ <;>
        simp only [ht, ht']
  unfold FileTree.write
  rw [hwritable]
  cases hplace : t.writable path with
  | error e => exact .refused e
  | ok p => exact .gives (h.insert (writable_eq_ok hplace).1 rfl)

theorem shapesAlike_makeDirectory (h : SameShape t t') (path : String) :
    ShapesAlike (t.makeDirectory path) (t'.makeDirectory path) := by
  unfold FileTree.makeDirectory
  rw [h.target]
  rcases t.target path with e | ⟨p, _ | n⟩
  · exact .refused e
  · exact .refused _
  · simp only [h.isSome]
    split
    · exact .refused _
    · split
      · exact .refused _
      · exact .gives (h.insert (names_child p n) rfl)

theorem SameShape.excuse (h : SameShape t t') (e : FileError) : t'.excuse e = t.excuse e := by
  simp only [FileTree.excuse, h.find?_eq_directory_iff]

theorem SameShape.makeDirectoriesUp (h : SameShape t t') (slashes : ℕ) (names : List String) :
    (t'.makeDirectoriesUp slashes names).2 = (t.makeDirectoriesUp slashes names).2 ∧
      SameShape (t.makeDirectoriesUp slashes names).1 (t'.makeDirectoriesUp slashes names).1 := by
  induction names with
  | nil =>
    have hmade := shapesAlike_makeDirectory h (Path.toString ⟨slashes, []⟩)
    rw [FileTree.makeDirectoriesUp, FileTree.makeDirectoriesUp]
    generalize t.makeDirectory _ = x at hmade
    generalize t'.makeDirectory _ = y at hmade
    cases hmade with
    | gives h' => exact ⟨rfl, h'⟩
    | refused e => exact ⟨h.excuse e, h⟩
  | cons n above ih =>
    have hmade := shapesAlike_makeDirectory h (Path.toString ⟨slashes, (n :: above).reverse⟩)
    rw [FileTree.makeDirectoriesUp, FileTree.makeDirectoriesUp]
    generalize t.makeDirectory _ = x at hmade
    generalize t'.makeDirectory _ = y at hmade
    cases hmade with
    | gives h' => exact ⟨rfl, h'⟩
    | refused e =>
      simp only
      split
      · -- the directories above are made first, and then this one
        obtain ⟨herror, habove⟩ := ih
        rcases hup : t.makeDirectoriesUp slashes above with ⟨t₁, e₁⟩
        rcases hup' : t'.makeDirectoriesUp slashes above with ⟨t₁', e₁'⟩
        rw [hup, hup'] at herror habove
        obtain rfl : e₁' = e₁ := herror
        cases e₁' with
        | some e₁ => exact ⟨rfl, habove⟩
        | none =>
          have hlast := shapesAlike_makeDirectory habove
            (Path.toString ⟨slashes, (n :: above).reverse⟩)
          simp only at hlast ⊢
          generalize t₁.makeDirectory _ = x at hlast
          generalize t₁'.makeDirectory _ = y at hlast
          cases hlast with
          | gives h' => exact ⟨rfl, h'⟩
          | refused e' => exact ⟨SameShape.excuse habove e', habove⟩
      · exact ⟨h.excuse e, h⟩

/-- **Directories are made at the same places**, and refused alike. -/
theorem SameShape.makeDirectories (h : SameShape t t') (p : Path) :
    (t'.makeDirectories p).2 = (t.makeDirectories p).2 ∧
      SameShape (t.makeDirectories p).1 (t'.makeDirectories p).1 :=
  h.makeDirectoriesUp p.slashes p.names.reverse

/-- Images of one size are saved to the same place, or to none. -/
theorem shapesAlike_saveImage (h : SameShape t t') (p : Path) {img img' : Image}
    (hempty : img'.isEmpty = img.isEmpty) :
    ShapesAlike (t.saveImage p img) (t'.saveImage p img') := by
  unfold FileTree.saveImage
  cases Format.ofName? (fileType p.suffix) with
  | none => exact .refused _
  | some f =>
    have hwrite := shapesAlike_write h p.toString (.ofImage f img) (.ofImage f img')
    simp only [hempty]
    split
    · exact .refused _
    · generalize t.write _ _ = x at hwrite
      generalize t'.write _ _ = y at hwrite
      cases hwrite with
      | gives h' => exact .gives h'
      | refused e => exact .refused (SaveError.file e)

end FileTree
end ImagePipeline
