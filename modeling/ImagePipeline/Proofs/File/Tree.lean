import ImagePipeline.File.Picture
import Mathlib.Logic.Function.Iterate

/-!
# Changes of file trees

What an operation leaves of a file tree.  Where a path leads is not undone by an
operation that keeps what is there, so that files and directories which are made one
after another are all found at the end.

## Main definitions

* `FileTree.Grows` — nothing disappears, and directories stay directories.
* `FileTree.Changes` — a tree differs from an earlier one at given paths only.

## Main results

* `FileTree.lookup_insert` — what stands at a place after an entry was put.
* `FileTree.Grows.resolve` — a path that leads somewhere leads there ever after.
* `FileTree.writable_eq_ok`, `FileTree.write_eq_ok` — what opening and writing a file does.
* `FileTree.makeDirectory_eq_ok` — what making a directory does.
* `FileTree.changes_makeDirectories` — only missing directories are made on the way.
-/

namespace ImagePipeline
namespace FileTree

variable {t t' t'' : FileTree} {p q : Place} {path : String}

/-! ### Looking up what was put -/

theorem lookup_map_replace (l : List (Place × Entry)) (p q : Place) (e : Entry) :
    (l.map fun x => if x.1 = p then (p, e) else x).lookup q =
      if q = p ∧ (l.any fun x => x.1 == p) = true then some e else l.lookup q := by
  induction l with
  | nil => simp
  | cons x l ih =>
    obtain ⟨r, d⟩ := x
    rw [List.map_cons, List.any_cons]
    by_cases hr : r = p
    · rw [if_pos hr, List.lookup_cons, List.lookup_cons, ih, hr]
      by_cases hq : q = p
      · simp [hq]
      · have hne : (q == p) = false := beq_eq_false_iff_ne.mpr hq
        simp [hq, hne]
    · have hany : (r == p) = false := beq_eq_false_iff_ne.mpr hr
      rw [if_neg hr, List.lookup_cons, List.lookup_cons, ih, hany, Bool.false_or]
      by_cases hq : q = r
      · have hp : q ≠ p := by rwa [hq]
        simp [hq, hr]
      · have hne : (q == r) = false := beq_eq_false_iff_ne.mpr hq
        simp [hne]

/-- What stands at a place after an entry was put somewhere. -/
theorem lookup_insert (t : FileTree) (hp : p.names ≠ []) (e : Entry) (q : Place) :
    (t.insert p e).lookup q = if q = p then some e else t.lookup q := by
  by_cases hq : q.names = []
  · have hne : q ≠ p := by
      rintro rfl
      exact hp hq
    rw [if_neg hne, lookup, lookup, if_pos hq, if_pos hq]
  · rw [lookup, lookup, if_neg hq, if_neg hq, insert]
    cases hany : t.entries.any fun x => x.1 == p with
    | true => simp only [if_true, lookup_map_replace, hany, and_true]
    | false =>
      simp only [Bool.false_eq_true, if_false, List.lookup_append]
      by_cases hqp : q = p
      · have hnone : t.entries.lookup p = none := by
          rw [List.lookup_eq_none_iff]
          intro x hx
          have hxp := List.any_eq_false.mp hany x hx
          rw [bne_iff_ne]
          exact fun h => hxp (by simp [h])
        simp [hqp, hnone]
      · have hne : (q == p) = false := beq_eq_false_iff_ne.mpr hqp
        simp [hqp, List.lookup_cons, hne]

/-! ### Finding places -/

theorem names_child (p : Place) (n : String) : (p.child n).names ≠ [] := by
  simp [Place.child]

theorem enter_eq_ok_iff {n : String} : t.enter p n = .ok q ↔ t.lookup p = some .directory ∧
    (n = "." ∧ q = p ∨ n ≠ "." ∧ n = ".." ∧ q = p.parent ∨
      n ≠ "." ∧ n ≠ ".." ∧ n.utf8ByteSize ≤ Place.nameLimit ∧ (t.lookup (p.child n)).isSome ∧
        q = p.child n) := by
  unfold enter
  cases hp : t.lookup p with
  | none => simp
  | some e =>
    cases e with
    | file c => simp
    | directory =>
      simp only [true_and]
      split
      · next hdot =>
        constructor
        · exact fun h => Or.inl ⟨hdot, (Except.ok.inj h).symm⟩
        · rintro (⟨-, rfl⟩ | ⟨hne, -⟩ | ⟨hne, -⟩)
          · rfl
          · exact absurd hdot hne
          · exact absurd hdot hne
      · next hdot =>
        split
        · next hup =>
          constructor
          · exact fun h => Or.inr (Or.inl ⟨hdot, hup, (Except.ok.inj h).symm⟩)
          · rintro (⟨h, -⟩ | ⟨-, -, rfl⟩ | ⟨-, hne, -⟩)
            · exact absurd h hdot
            · rfl
            · exact absurd hup hne
        · next hup =>
          split
          · next hlong =>
            have hle : ¬ n.utf8ByteSize ≤ Place.nameLimit := by omega
            simp [hdot, hup, hle]
          · next hlong =>
            have hle : n.utf8ByteSize ≤ Place.nameLimit := by omega
            split
            · next hsome => simp [hdot, hup, hle, hsome, eq_comm]
            · next hnone => simp [hdot, hup, hnone]

theorem follow_cons_eq_ok_iff {n : String} {ns : List String} :
    t.follow p (n :: ns) = .ok q ↔ ∃ r, t.enter p n = .ok r ∧ t.follow r ns = .ok q := by
  rw [follow]
  cases t.enter p n <;> simp

theorem follow_append_eq_ok_iff {a b : List String} :
    t.follow p (a ++ b) = .ok q ↔ ∃ r, t.follow p a = .ok r ∧ t.follow r b = .ok q := by
  induction a generalizing p with
  | nil => simp [follow]
  | cons n a ih =>
    simp only [List.cons_append, follow_cons_eq_ok_iff, ih]
    constructor
    · rintro ⟨r, hr, r', hr', hq⟩
      exact ⟨r', ⟨r, hr, hr'⟩, hq⟩
    · rintro ⟨r', ⟨r, hr, hr'⟩, hq⟩
      exact ⟨r, hr, r', hr', hq⟩

theorem follow_singleton_eq_ok_iff {n : String} :
    t.follow p [n] = .ok q ↔ t.enter p n = .ok q := by
  rw [follow]
  cases t.enter p n <;> simp [follow]

theorem resolve_eq_ok_iff : t.resolve path = .ok q ↔ pathFault? path = none ∧
    t.follow (.start path.toList) (if endsInSlash path.toList then
      segments path.toList ++ ["."] else segments path.toList) = .ok q := by
  unfold resolve
  cases pathFault? path with
  | some c => simp
  | none =>
    simp only [true_and]
    cases t.follow (.start path.toList) (if endsInSlash path.toList then
      segments path.toList ++ ["."] else segments path.toList) <;> simp

/-- The names of a path lead where the path does. -/
theorem follow_of_resolve (h : t.resolve path = .ok q) :
    t.follow (.start path.toList) (segments path.toList) = .ok q := by
  obtain ⟨-, hfollow⟩ := resolve_eq_ok_iff.mp h
  split at hfollow
  · obtain ⟨r, hr, hdot⟩ := follow_append_eq_ok_iff.mp hfollow
    rw [follow_singleton_eq_ok_iff, enter_eq_ok_iff] at hdot
    obtain ⟨-, ⟨-, rfl⟩ | ⟨hne, -⟩ | ⟨hne, -⟩⟩ := hdot
    · exact hr
    · exact absurd rfl hne
    · exact absurd rfl hne
  · exact hfollow

/-- A new entry of a written path belongs in a directory that is there, under the last
name of the path. -/
theorem target_eq_ok {n : String} (h : t.target path = .ok (p, some n)) :
    pathFault? path = none ∧ n ≠ "." ∧ n ≠ ".." ∧ t.lookup p = some .directory ∧
      ∃ above, segments path.toList = above ++ [n] ∧
        t.follow (.start path.toList) above = .ok p := by
  unfold target at h
  cases hfault : pathFault? path with
  | some c => simp [hfault] at h
  | none =>
    simp only [hfault] at h
    cases hfollow : t.follow (.start path.toList) ((segments path.toList).dropLast ++ ["."]) with
    | error c => simp [hfollow] at h
    | ok r =>
      simp only [hfollow] at h
      cases hlast : (segments path.toList).getLast? with
      | none => simp [hlast] at h
      | some m =>
        simp only [hlast] at h
        split at h
        · exact absurd h (by simp)
        · next hdots =>
          rw [not_or] at hdots
          simp only [Except.ok.injEq, Prod.mk.injEq, Option.some.injEq] at h
          obtain ⟨rfl, rfl⟩ := h
          obtain ⟨above, habove⟩ := List.getLast?_eq_some_iff.mp hlast
          rw [habove, List.dropLast_concat] at hfollow
          obtain ⟨r', hr', hdot⟩ := follow_append_eq_ok_iff.mp hfollow
          rw [follow_singleton_eq_ok_iff, enter_eq_ok_iff] at hdot
          obtain ⟨hdirectory, ⟨-, rfl⟩ | ⟨hne, -⟩ | ⟨hne, -⟩⟩ := hdot
          · exact ⟨rfl, hdots.1, hdots.2, hdirectory, above, habove, hr'⟩
          · exact absurd rfl hne
          · exact absurd rfl hne

/-! ### Growth -/

/-- Nothing disappears, and directories stay directories. -/
structure Grows (t t' : FileTree) : Prop where
  directory : ∀ p, t.lookup p = some .directory → t'.lookup p = some .directory
  isSome : ∀ p, (t.lookup p).isSome = true → (t'.lookup p).isSome = true

namespace Grows

theorem refl (t : FileTree) : t.Grows t := ⟨fun _ => id, fun _ => id⟩

theorem trans (h : t.Grows t') (h' : t'.Grows t'') : t.Grows t'' where
  directory p hp := h'.directory p (h.directory p hp)
  isSome p hp := h'.isSome p (h.isSome p hp)

/-- A name that can be entered can be entered ever after. -/
theorem enter (h : t.Grows t') {n : String} (hq : t.enter p n = .ok q) :
    t'.enter p n = .ok q := by
  rw [enter_eq_ok_iff] at hq ⊢
  obtain ⟨hdirectory, hq⟩ := hq
  refine ⟨h.directory p hdirectory, ?_⟩
  rcases hq with hq | hq | ⟨hdot, hup, hlimit, hsome, hq⟩
  · exact Or.inl hq
  · exact Or.inr (Or.inl hq)
  · exact Or.inr (Or.inr ⟨hdot, hup, hlimit, h.isSome _ hsome, hq⟩)

theorem follow (h : t.Grows t') {ns : List String} (hq : t.follow p ns = .ok q) :
    t'.follow p ns = .ok q := by
  induction ns generalizing p with
  | nil => exact hq
  | cons n ns ih =>
    obtain ⟨r, hr, hq⟩ := follow_cons_eq_ok_iff.mp hq
    exact follow_cons_eq_ok_iff.mpr ⟨r, h.enter hr, ih hq⟩

/-- **A path that leads somewhere leads there ever after.** -/
theorem resolve (h : t.Grows t') (hq : t.resolve path = .ok q) : t'.resolve path = .ok q := by
  rw [resolve_eq_ok_iff] at hq ⊢
  exact ⟨hq.1, h.follow hq.2⟩

end Grows

/-- Putting an entry keeps what is there, unless it replaces a directory by a file. -/
theorem grows_insert {e : Entry} (hp : p.names ≠ [])
    (h : t.lookup p = some .directory → e = .directory) : t.Grows (t.insert p e) where
  directory q hq := by
    rw [lookup_insert t hp]
    split
    · next hqp =>
      subst hqp
      rw [h hq]
    · exact hq
  isSome q hq := by
    rw [lookup_insert t hp]
    split
    · rfl
    · exact hq

/-- A path leads to what was put in the directory that its last name belongs in. -/
theorem resolve_insert {n : String} {e : Entry} (htarget : t.target path = .ok (p, some n))
    (hlimit : n.utf8ByteSize ≤ Place.nameLimit)
    (hkept : t.lookup (p.child n) = some .directory → e = .directory)
    (hslash : endsInSlash path.toList = true → e = .directory) :
    (t.insert (p.child n) e).resolve path = .ok (p.child n) := by
  obtain ⟨hfault, hdot, hup, hdirectory, above, hsegments, hfollow⟩ := target_eq_ok htarget
  have hgrows : t.Grows (t.insert (p.child n) e) := grows_insert (names_child p n) hkept
  have hput : (t.insert (p.child n) e).lookup (p.child n) = some e := by
    rw [lookup_insert t (names_child p n), if_pos rfl]
  have henter : (t.insert (p.child n) e).enter p n = .ok (p.child n) :=
    enter_eq_ok_iff.mpr ⟨hgrows.directory p hdirectory,
      Or.inr (Or.inr ⟨hdot, hup, hlimit, by rw [hput]; rfl, rfl⟩)⟩
  have hnames : (t.insert (p.child n) e).follow (.start path.toList) (segments path.toList) =
      .ok (p.child n) := by
    rw [hsegments, follow_append_eq_ok_iff]
    exact ⟨p, hgrows.follow hfollow, follow_singleton_eq_ok_iff.mpr henter⟩
  rw [resolve_eq_ok_iff]
  refine ⟨hfault, ?_⟩
  split
  · next h =>
    -- a slash at the end is one more step, which only a directory allows
    have hlast : (t.insert (p.child n) e).enter (p.child n) "." = .ok (p.child n) :=
      enter_eq_ok_iff.mpr ⟨by rw [hput, hslash h], Or.inl ⟨rfl, rfl⟩⟩
    exact follow_append_eq_ok_iff.mpr ⟨p.child n, hnames, follow_singleton_eq_ok_iff.mpr hlast⟩
  · exact hnames

/-! ### Writing files and making directories -/

/-- **A file is opened where its path leads once it is written**, which is no directory. -/
theorem writable_eq_ok (h : t.writable path = .ok q) : q.names ≠ [] ∧
    t.lookup q ≠ some .directory ∧ ∀ c, (t.insert q (.file c)).resolve path = .ok q := by
  unfold writable at h
  rcases htarget : t.target path with e | ⟨p, _ | n⟩
  · simp [htarget] at h
  · simp [htarget] at h
  · simp only [htarget] at h
    split at h
    · exact absurd h (by simp)
    · next hslash =>
      split at h
      · exact absurd h (by simp)
      · next hlimit =>
        split at h
        · exact absurd h (by simp)
        · next hfree =>
          obtain rfl := Except.ok.inj h
          exact ⟨names_child p n, hfree, fun c => resolve_insert htarget (by omega)
            (fun h => absurd h hfree) (fun h => absurd h hslash)⟩

/-- Writing a file puts it where its path leads. -/
theorem write_eq_ok {c : Content} (h : t.write path c = .ok t') :
    ∃ q, q.names ≠ [] ∧ t.lookup q ≠ some .directory ∧ t' = t.insert q (.file c) ∧
      t'.resolve path = .ok q := by
  unfold write at h
  cases hwritable : t.writable path with
  | error e => simp [hwritable] at h
  | ok q =>
    rw [hwritable] at h
    obtain rfl := Except.ok.inj h
    obtain ⟨hnames, hfree, hresolve⟩ := writable_eq_ok hwritable
    exact ⟨q, hnames, hfree, rfl, hresolve c⟩

/-- **Making a directory puts it where its path leads**, where there was nothing. -/
theorem makeDirectory_eq_ok (h : t.makeDirectory path = .ok t') :
    ∃ q, q.names ≠ [] ∧ t.lookup q = none ∧ t' = t.insert q .directory ∧
      t'.resolve path = .ok q := by
  unfold makeDirectory at h
  rcases htarget : t.target path with e | ⟨p, _ | n⟩
  · simp [htarget] at h
  · simp [htarget] at h
  · simp only [htarget] at h
    split at h
    · exact absurd h (by simp)
    · next hlimit =>
      split at h
      · exact absurd h (by simp)
      · next hfree =>
        obtain rfl := Except.ok.inj h
        exact ⟨p.child n, names_child p n, by simpa using hfree, rfl,
          resolve_insert htarget (by omega) (fun _ => rfl) (fun _ => rfl)⟩

/-! ### Changes -/

/-- A tree has grown out of an earlier one and differs from it only where paths to new
files lead, and in missing directories that were made where other paths lead. -/
structure Changes (files directories : String → Prop) (t t' : FileTree) : Prop where
  grows : t.Grows t'
  place : ∀ q, (∃ path, files path ∧ t'.resolve path = .ok q) ∨ t'.lookup q = t.lookup q ∨
    t.lookup q = none ∧ t'.lookup q = some .directory ∧
      ∃ path, directories path ∧ t'.resolve path = .ok q

variable {files directories : String → Prop}

theorem Changes.refl (t : FileTree) : Changes files directories t t :=
  ⟨.refl t, fun _ => Or.inr (Or.inl rfl)⟩

theorem Changes.trans (h : Changes files directories t t') (h' : Changes files directories t' t'') :
    Changes files directories t t'' where
  grows := h.grows.trans h'.grows
  place := by
    intro q
    -- what the first change made is where its path leads after the second one, too
    rcases h'.place q with hfile | hsame' | ⟨hnone, hmade⟩
    · exact Or.inl hfile
    · rcases h.place q with ⟨path, hpath, hq⟩ | hsame | ⟨hnone, hmade, path, hpath, hq⟩
      · exact Or.inl ⟨path, hpath, h'.grows.resolve hq⟩
      · exact Or.inr (Or.inl (hsame'.trans hsame))
      · exact Or.inr (Or.inr ⟨hnone, hsame'.trans hmade, path, hpath, h'.grows.resolve hq⟩)
    · rcases h.place q with ⟨path, hpath, hq⟩ | hsame | ⟨-, hdirectory, -⟩
      · exact Or.inl ⟨path, hpath, h'.grows.resolve hq⟩
      · exact Or.inr (Or.inr ⟨hsame.symm.trans hnone, hmade⟩)
      · exact absurd (hnone.symm.trans hdirectory) (by simp)

theorem Changes.mono {files' directories' : String → Prop} (h : Changes files directories t t')
    (hfiles : ∀ path, files path → files' path)
    (hdirectories : ∀ path, directories path → directories' path) :
    Changes files' directories' t t' where
  grows := h.grows
  place := by
    intro q
    rcases h.place q with ⟨path, hpath, hq⟩ | hsame | ⟨hnone, hmade, path, hpath, hq⟩
    · exact Or.inl ⟨path, hfiles path hpath, hq⟩
    · exact Or.inr (Or.inl hsame)
    · exact Or.inr (Or.inr ⟨hnone, hmade, path, hdirectories path hpath, hq⟩)

/-- What stands at a place to which no new file goes stays there. -/
theorem Changes.lookup_eq (h : Changes files directories t t') {e : Entry}
    (hq : t.lookup q = some e) (hfiles : ∀ path, files path → t'.resolve path ≠ .ok q) :
    t'.lookup q = some e := by
  rcases h.place q with ⟨path, hpath, hfile⟩ | hsame | ⟨hnone, -⟩
  · exact absurd hfile (hfiles path hpath)
  · rw [hsame, hq]
  · exact absurd (hnone.symm.trans hq) (by simp)

/-- What stands at a place where nothing stood is a new file or a directory on the way. -/
theorem Changes.of_lookup (h : Changes files directories t t') {e : Entry}
    (hnone : t.lookup q = none) (hq : t'.lookup q = some e) :
    (∃ path, files path ∧ t'.resolve path = .ok q) ∨
      e = .directory ∧ ∃ path, directories path ∧ t'.resolve path = .ok q := by
  rcases h.place q with hfile | hsame | ⟨-, hmade, hdirectory⟩
  · exact Or.inl hfile
  · exact absurd ((hsame.trans hnone).symm.trans hq) (by simp)
  · exact Or.inr ⟨Option.some.inj (hq.symm.trans hmade), hdirectory⟩

theorem changes_write {c : Content} (hpath : files path) (h : t.write path c = .ok t') :
    Changes files directories t t' := by
  obtain ⟨p, hp, hfree, rfl, hresolve⟩ := write_eq_ok h
  refine ⟨grows_insert hp fun h => absurd h hfree, fun q => ?_⟩
  by_cases hq : q = p
  · exact Or.inl ⟨path, hpath, by rw [hq, hresolve]⟩
  · exact Or.inr (Or.inl (by rw [lookup_insert t hp, if_neg hq]))

theorem changes_makeDirectory (hpath : directories path) (h : t.makeDirectory path = .ok t') :
    Changes files directories t t' := by
  obtain ⟨p, hp, hfree, rfl, hresolve⟩ := makeDirectory_eq_ok h
  refine ⟨grows_insert hp fun _ => rfl, fun q => ?_⟩
  by_cases hq : q = p
  · subst hq
    exact Or.inr (Or.inr ⟨hfree, by rw [lookup_insert t hp, if_pos rfl], path, hpath, hresolve⟩)
  · exact Or.inr (Or.inl (by rw [lookup_insert t hp, if_neg hq]))

/-- The path of a directory, or of one above it. -/
def IsUpFrom (p : Path) (path : String) : Prop := ∃ n, path = (Path.parent^[n] p).toString

theorem changes_makeDirectoriesUp (files : String → Prop) (slashes : ℕ) (t : FileTree)
    (up : List String) :
    Changes files (IsUpFrom ⟨slashes, up.reverse⟩) t (t.makeDirectoriesUp slashes up).1 := by
  induction up generalizing t with
  | nil =>
    rw [makeDirectoriesUp]
    split
    · next t' h => exact changes_makeDirectory ⟨0, rfl⟩ h
    · exact .refl t
  | cons n above ih =>
    have hself : IsUpFrom ⟨slashes, (n :: above).reverse⟩
        (Path.toString ⟨slashes, (n :: above).reverse⟩) := ⟨0, rfl⟩
    -- the paths above are one step further up
    have hup : ∀ path, IsUpFrom ⟨slashes, above.reverse⟩ path →
        IsUpFrom ⟨slashes, (n :: above).reverse⟩ path := by
      rintro path ⟨k, rfl⟩
      refine ⟨k + 1, ?_⟩
      rw [Function.iterate_succ_apply, Path.parent, List.reverse_cons, List.dropLast_concat]
    have habove : Changes files (IsUpFrom ⟨slashes, (n :: above).reverse⟩) t
        (t.makeDirectoriesUp slashes above).1 := (ih t).mono (fun _ => id) hup
    rw [makeDirectoriesUp]
    split
    · next t' h => exact changes_makeDirectory hself h
    · split
      · rcases hmade : t.makeDirectoriesUp slashes above with ⟨t', _ | e'⟩
        · rw [hmade] at habove
          simp only
          split
          · next t'' h => exact habove.trans (changes_makeDirectory hself h)
          · exact habove
        · rw [hmade] at habove
          exact habove
      · exact .refl t

/-- **Making a directory changes nothing else** than that it makes it and the missing
directories above it, even if it is refused in the end. -/
theorem changes_makeDirectories (files : String → Prop) (t : FileTree) (p : Path) :
    Changes files (IsUpFrom p) t (t.makeDirectories p).1 := by
  have h := changes_makeDirectoriesUp files p.slashes t p.names.reverse
  rwa [List.reverse_reverse] at h

/-! ### Contents and pictures -/

theorem read_eq_ok_iff {c : Content} :
    t.read path = .ok c ↔ ∃ q, t.resolve path = .ok q ∧ t.lookup q = some (.file c) := by
  unfold read
  cases t.resolve path with
  | error e => simp
  | ok q =>
    cases hq : t.lookup q with
    | none => simp [hq]
    | some e => cases e <;> simp [hq]

/-- An image is saved by writing a file in the format that its path names. -/
theorem saveImage_eq_ok {p : Path} {img : Image} (h : t.saveImage p img = .ok t') :
    ∃ f, Format.ofName? (fileType p.suffix) = some f ∧
      t.write p.toString (.ofImage f img) = .ok t' := by
  unfold saveImage at h
  cases hformat : Format.ofName? (fileType p.suffix) with
  | none => simp [hformat] at h
  | some f =>
    simp only [hformat] at h
    split at h
    · exact absurd h (by simp)
    · refine ⟨f, rfl, ?_⟩
      cases hwrite : t.write p.toString (.ofImage f img) with
      | error e => simp [hwrite] at h
      | ok t'' =>
        rw [hwrite] at h
        rw [Except.ok.inj h]

/-- A picture is loaded from the place that its path leads to. -/
theorem loadImage_of_lookup {c : Content} {img : Image} (hq : t.resolve path = .ok q)
    (hc : t.lookup q = some (.file c)) (himg : c.image? = some img) :
    t.loadImage path = .ok img := by
  have hcontains : t.contains path = true := by simp [contains, find?, hq, hc]
  rw [loadImage, hcontains, read_eq_ok_iff.mpr ⟨q, hq, hc⟩]
  simp only [Bool.not_true, Bool.false_eq_true, if_false, himg]

end FileTree
end ImagePipeline
