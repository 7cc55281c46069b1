import ImagePipeline.Proofs.File.Path
import ImagePipeline.Proofs.File.Tree

/-!
# PNG files in directories

A picture that is saved under a name in a directory gets the extension of its format, stands at
the place of that name, and reads back from there.  Files of different names in one directory or
in two are never the same file.

## Main definitions

* `FileTree.KeepsFile` — the file at a path is neither created nor changed.

## Main results

* `exists_child_of_resolve_join` — the place of a name in a directory.
* `saveImage_png_eq_ok`, `writeImage_png_eq_ok` — what saving a picture as PNG does.
* `Changes.keepsFile` — files of other names are not touched.
-/

namespace ImagePipeline
namespace FileTree

variable {t t' : FileTree} {p : Path} {n : String} {q : Place}

/-- A dot and an extension leave a name a name. -/
theorem isName_png (hn : IsName n) : IsName (n ++ ".png") := by
  refine isName_of_mem (c := 'p') ?_ (by decide) ?_
  · rw [String.toList_append]
    exact List.mem_append_right _ (by decide)
  · rw [String.toList_append, List.mem_append, not_or]
    exact ⟨hn.slash_notMem, by decide⟩

/-- The path of a PNG file in a directory. -/
theorem picturePath_png (hp : p.IsNormal) (hn : IsName n) :
    picturePath (p.join n).toString "png".toList = p.join (n ++ ".png") := by
  have hending : String.ofList ('.' :: dropDots "png".toList) = ".png" := by decide
  have hname : IsName (n ++ String.ofList ('.' :: dropDots "png".toList)) := by
    rw [hending]
    exact isName_png hn
  rw [picturePath_join hp hn _ hname, hending]

theorem ofName?_png (p : Path) (hn : IsName n) :
    Format.ofName? (fileType (p.join (n ++ ".png")).suffix) = some .png := by
  have hname : (n ++ ".png").toList = n.toList ++ '.' :: "png".toList := by
    rw [String.toList_append]
    rfl
  rw [Path.suffix_join _ (isName_png hn), hname,
    Path.suffixOf_append hn.toList_ne_nil (by decide) (by decide)]
  decide

/-- **The place of a file in a directory** is that of its name in the place of the directory. -/
theorem exists_child_of_resolve_join (hp : p.IsNormal) (hn : IsName n) (hup : n ≠ "..")
    (hq : t.resolve (p.join n).toString = .ok q) :
    ∃ d, t.follow (if p.slashes = 0 then .below [] else ⟨.root, []⟩) p.names = .ok d ∧
      q = d.child n := by
  have hnames : (p.join n).names ≠ [] := by simp [Path.join_of_isName p hn]
  have hnormal : (p.join n).IsNormal := hp.join hn
  have hfollow := follow_of_resolve hq
  rw [segments_toString hnormal hnames, start_toString hnormal hnames, Path.join_of_isName p hn,
    follow_append_eq_ok_iff] at hfollow
  obtain ⟨d, hd, hlast⟩ := hfollow
  rw [follow_singleton_eq_ok_iff, enter_eq_ok_iff] at hlast
  obtain ⟨-, ⟨hdot, -⟩ | ⟨-, hdots, -⟩ | ⟨-, -, -, -, hchild⟩⟩ := hlast
  · exact absurd hdot hn.ne_dot
  · exact absurd hdots hup
  · exact ⟨d, hd, hchild⟩

/-- A picture that is saved as PNG stands where its path leads, as it was. -/
theorem saveImage_png_eq_ok {img : Image} (hn : IsName n)
    (h : t.saveImage (p.join (n ++ ".png")) img = .ok t') :
    t.write (p.join (n ++ ".png")).toString (.ofImage .png img) = .ok t' ∧
      ∃ q, t'.resolve (p.join (n ++ ".png")).toString = .ok q ∧
        t'.lookup q = some (.file (.ofImage .png img)) := by
  obtain ⟨f, hformat, hwrite⟩ := saveImage_eq_ok h
  obtain rfl := Option.some.inj ((ofName?_png p hn).symm.trans hformat)
  refine ⟨hwrite, ?_⟩
  obtain ⟨q, hq, -, rfl, hresolve⟩ := write_eq_ok hwrite
  exact ⟨q, hresolve, by rw [lookup_insert _ hq, if_pos rfl]⟩

/-- **A picture that is written under a stem as PNG** reads back from the path with the
extension. -/
theorem writeImage_png_eq_ok {img : Image} {path : Path} (hp : p.IsNormal) (hn : IsName n)
    (h : t.writeImage (p.join n).toString "png".toList img = .ok (path, t')) :
    path = p.join (n ++ ".png") ∧ t'.loadImage path.toString = .ok img := by
  unfold writeImage at h
  rw [picturePath_png hp hn] at h
  simp only at h
  cases hsave : t.saveImage (p.join (n ++ ".png")) img with
  | error e => rw [hsave] at h; exact absurd h (by simp [Except.map])
  | ok t'' =>
    rw [hsave] at h
    obtain ⟨rfl, rfl⟩ := Prod.mk.inj (Except.ok.inj h)
    obtain ⟨-, q, hresolve, hlookup⟩ := saveImage_png_eq_ok hn hsave
    exact ⟨rfl, loadImage_of_lookup hresolve hlookup rfl⟩

/-! ### Files that stay -/

/-- The file at a path is neither created nor changed: what could be read there can be read
still, and what can be read stood at its place before. -/
structure KeepsFile (path : String) (t t' : FileTree) : Prop where
  read : ∀ c, t.read path = .ok c → t'.read path = .ok c
  lookup : ∀ q c, t'.resolve path = .ok q → t'.lookup q = some (.file c) →
    t.lookup q = some (.file c)

theorem KeepsFile.refl (path : String) (t : FileTree) : KeepsFile path t t :=
  ⟨fun _ => id, fun _ _ _ => id⟩

/-- **Files of other names are not touched.** -/
theorem Changes.keepsFile {files directories : String → Prop}
    (h : Changes files directories t t') (hp : p.IsNormal) (hn : IsName n) (hup : n ≠ "..")
    (hfiles : ∀ path, files path → ∃ (d : Path) (m : String), d.IsNormal ∧ IsName m ∧ m ≠ ".." ∧
      m ≠ n ∧ path = (d.join m).toString) : KeepsFile (p.join n).toString t t' := by
  have hother : ∀ q, t'.resolve (p.join n).toString = .ok q →
      ∀ path, files path → t'.resolve path ≠ .ok q := by
    intro q hq path hpath hresolve
    obtain ⟨d, m, hd, hm, hmup, hne, rfl⟩ := hfiles path hpath
    obtain ⟨r, -, hchild⟩ := exists_child_of_resolve_join hp hn hup hq
    obtain ⟨r', -, hchild'⟩ := exists_child_of_resolve_join hd hm hmup hresolve
    -- one place has one last name
    have hnames := congrArg Place.names (hchild.symm.trans hchild')
    obtain ⟨-, hlast⟩ := List.append_inj' hnames rfl
    exact hne (List.singleton_inj.mp hlast).symm
  constructor
  · intro c hread
    obtain ⟨q, hresolve, hlookup⟩ := read_eq_ok_iff.mp hread
    have hresolve' := h.grows.resolve hresolve
    exact read_eq_ok_iff.mpr ⟨q, hresolve', h.lookup_eq hlookup (hother q hresolve')⟩
  · intro q c hresolve hlookup
    rcases h.place q with ⟨path, hpath, hfile⟩ | hsame | ⟨-, hmade, -⟩
    · exact absurd hfile (hother q hresolve path hpath)
    · rw [← hsame, hlookup]
    · exact absurd (hlookup.symm.trans hmade) (by simp)

end FileTree
end ImagePipeline
