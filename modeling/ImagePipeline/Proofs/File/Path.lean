import ImagePipeline.File.Picture
import ImagePipeline.Proofs.Numeral.Integer
import ImagePipeline.Proofs.Text.Words

/-!
# Written paths

A path in normal form is written so that it reads back, and the names that the file
tree goes along are its own names.  This is what tells where a file goes whose path was
put together from a directory and a name.

## Main definitions

* `IsName` — a name that a written path keeps as it is.
* `Path.IsNormal` — paths in normal form.

## Main results

* `Path.suffix_ofChars` — the ending of a written path to which one was added.
* `Path.isNormal_ofString` — every written path has a normal form.
* `Path.ofString_toString` — a path in normal form reads back.
* `segments_toString` — the names on the way that it is written as.
* `picturePath_join` — the path of a picture in a directory.
-/

namespace ImagePipeline

/-! ### Names -/

/-- A name that a written path keeps as it is. -/
structure IsName (n : String) : Prop where
  ne_empty : n ≠ ""
  ne_dot : n ≠ "."
  slash_notMem : '/' ∉ n.toList

/-- One character other than a dot makes a name out of a text without slashes. -/
theorem isName_of_mem {n : String} {c : Char} (hc : c ∈ n.toList) (hdot : c ≠ '.')
    (hslash : '/' ∉ n.toList) : IsName n where
  ne_empty := by
    rintro rfl
    exact absurd hc (by simp)
  ne_dot := by
    rintro rfl
    exact hdot (List.mem_singleton.mp hc)
  slash_notMem := hslash

theorem IsName.toList_ne_nil {n : String} (h : IsName n) : n.toList ≠ [] :=
  fun hnil => h.ne_empty (String.toList_inj.mp hnil)

namespace Path

/-- A path in normal form. -/
structure IsNormal (p : Path) : Prop where
  slashes_le : p.slashes ≤ 2
  isName : ∀ n ∈ p.names, IsName n

/-! ### Reading -/

theorem isNormal_ofChars (s : List Char) : (ofChars s).IsNormal where
  slashes_le := by
    simp only [ofChars]
    split
    · omega
    · split <;> omega
  isName := by
    intro n hn
    obtain ⟨hmem, hkept⟩ := List.mem_filter.mp hn
    obtain ⟨piece, hpiece, rfl⟩ := List.mem_map.mp hmem
    rw [Bool.and_eq_true, bne_iff_ne, bne_iff_ne] at hkept
    refine ⟨hkept.1, hkept.2, ?_⟩
    rw [String.toList_ofList]
    exact notMem_of_mem_splitOn hpiece

/-- Every written path has a normal form. -/
theorem isNormal_ofString (s : String) : (ofString s).IsNormal := isNormal_ofChars s.toList

/-- A name by itself is a path below the working directory. -/
theorem ofString_of_isName {n : String} (h : IsName n) : ofString n = ⟨0, [n]⟩ := by
  have hleading : n.toList.takeWhile (fun c => c == '/') = [] := by
    cases hn : n.toList with
    | nil => rfl
    | cons c s =>
      have hc : c ≠ '/' := by
        rintro rfl
        exact h.slash_notMem (by simp [hn])
      rw [List.takeWhile_cons, if_neg (by simpa using hc)]
  rw [ofString, ofChars, hleading, splitOn_of_notMem h.slash_notMem]
  simp [h.ne_empty, h.ne_dot]

/-! ### Putting paths together -/

theorem join_of_isName (p : Path) {n : String} (h : IsName n) :
    p.join n = ⟨p.slashes, p.names ++ [n]⟩ := by
  rw [join, ofString_of_isName h]
  rfl

theorem IsNormal.join {p : Path} (hp : p.IsNormal) {n : String} (h : IsName n) :
    (p.join n).IsNormal := by
  rw [join_of_isName p h]
  refine ⟨hp.slashes_le, fun m hm => ?_⟩
  rcases List.mem_append.mp hm with hm | hm
  · exact hp.isName m hm
  · rwa [List.mem_singleton.mp hm]

theorem suffix_join (p : Path) {n : String} (h : IsName n) :
    (p.join n).suffix = suffixOf n.toList := by
  rw [join_of_isName p h, suffix, name, List.getLastD_concat]

/-- The ending of a name is what stands behind its last dot. -/
theorem suffixOf_append {a e : List Char} (ha : a ≠ []) (he : e ≠ []) (hdot : '.' ∉ e) :
    suffixOf (a ++ '.' :: e) = '.' :: e := by
  have hending : ((a ++ '.' :: e).reverse.takeWhile fun c => c != '.').reverse = e := by
    rw [List.reverse_append, List.reverse_cons, List.append_assoc,
      List.takeWhile_append_of_pos (by
        intro c hc
        rw [bne_iff_ne]
        rintro rfl
        exact hdot (List.mem_reverse.mp hc))]
    simp
  have hlength := List.length_pos_of_ne_nil ha
  unfold suffixOf
  simp only [hending]
  rw [if_pos]
  simp only [List.length_append, List.length_cons]
  exact ⟨by omega, he, by omega⟩

/-- **What is added behind a dot is the ending**, whatever stands in front of the dot, unless that
is nothing or ends with a slash. -/
theorem suffix_ofChars {s e : List Char} (hs : s ≠ []) (hlast : s.getLast? ≠ some '/') (he : e ≠ [])
    (hdot : '.' ∉ e) (hslash : '/' ∉ e) : (ofChars (s ++ '.' :: e)).suffix = '.' :: e := by
  obtain ⟨pieces, a, ha, hsplit⟩ := exists_splitOn_append hs hlast
    (List.not_mem_cons_of_ne_of_not_mem (by decide : '/' ≠ '.') hslash)
  have hname : (ofChars (s ++ '.' :: e)).name = String.ofList (a ++ '.' :: e) := by
    have hchars : (String.ofList (a ++ '.' :: e)).toList.length = a.length + (e.length + 1) := by
      rw [String.toList_ofList, List.length_append, List.length_cons]
    have hpos := List.length_pos_of_ne_nil ha
    have hne : String.ofList (a ++ '.' :: e) ≠ "" := by
      intro h
      rw [h, show "".toList.length = 0 from rfl] at hchars
      omega
    have hne' : String.ofList (a ++ '.' :: e) ≠ "." := by
      intro h
      rw [h, show ".".toList.length = 1 from rfl] at hchars
      omega
    have hkept : (String.ofList (a ++ '.' :: e) != "" && String.ofList (a ++ '.' :: e) != ".") =
        true := by
      rw [Bool.and_eq_true, bne_iff_ne, bne_iff_ne]
      exact ⟨hne, hne'⟩
    rw [name, ofChars, hsplit, List.map_append, List.filter_append, List.map_singleton,
      List.filter_cons, if_pos hkept, List.filter_nil, List.getLastD_concat]
  rw [suffix, hname, String.toList_ofList, suffixOf_append ha he hdot]

/-! ### Writing -/

theorem toList_toString {p : Path} (h : p.names ≠ []) : p.toString.toList =
    List.replicate p.slashes '/' ++ ['/'].intercalate (p.names.map String.toList) := by
  rw [toString, if_neg fun hp => h hp.2, String.toList_append, String.toList_ofList,
    String.toList_intercalate]
  rfl

/-- A path in normal form is cut at its slashes into its names. -/
theorem splitOn_toString {p : Path} (hp : p.IsNormal) (h : p.names ≠ []) :
    splitOn '/' p.toString.toList =
      List.replicate p.slashes [] ++ p.names.map String.toList := by
  rw [toList_toString h, splitOn_replicate_append, splitOn_intercalate (by simpa using h)]
  intro piece hpiece
  obtain ⟨n, hn, rfl⟩ := List.mem_map.mp hpiece
  exact (hp.isName n hn).slash_notMem

theorem takeWhile_toString {p : Path} (hp : p.IsNormal) (h : p.names ≠ []) :
    (p.toString.toList.takeWhile fun c => c == '/') = List.replicate p.slashes '/' := by
  obtain ⟨n, ns, hnames⟩ := List.exists_cons_of_ne_nil h
  have hn : IsName n := hp.isName n (by simp [hnames])
  obtain ⟨c, cs, hchars⟩ := List.exists_cons_of_ne_nil hn.toList_ne_nil
  have hc : c ≠ '/' := by
    rintro rfl
    exact hn.slash_notMem (by simp [hchars])
  -- behind the slashes in front comes the first character of the first name
  have hhead : ∃ rest, ['/'].intercalate (p.names.map String.toList) = c :: rest := by
    rw [hnames, List.map_cons, hchars]
    cases ns with
    | nil => exact ⟨cs, List.intercalate_singleton⟩
    | cons m ns => exact ⟨_, by rw [List.map_cons, List.intercalate_cons_cons]; rfl⟩
  obtain ⟨rest, hrest⟩ := hhead
  rw [toList_toString h, hrest, List.takeWhile_append_of_pos (by simp), List.takeWhile_cons,
    if_neg (by simpa using hc), List.append_nil]

/-- **A path in normal form reads back.** -/
theorem ofString_toString {p : Path} (hp : p.IsNormal) (h : p.names ≠ []) :
    ofString p.toString = p := by
  have hslashes : (if p.slashes = 0 then 0 else if p.slashes = 2 then 2 else 1) = p.slashes := by
    have := hp.slashes_le
    split
    · omega
    · split <;> omega
  have hnames : (p.names.filter fun n => n != "" && n != ".") = p.names := by
    refine List.filter_eq_self.mpr fun n hn => ?_
    rw [Bool.and_eq_true, bne_iff_ne, bne_iff_ne]
    exact ⟨(hp.isName n hn).ne_empty, (hp.isName n hn).ne_dot⟩
  rw [ofString, ofChars, takeWhile_toString hp h, splitOn_toString hp h]
  simp only [List.length_replicate, hslashes, List.map_append, List.map_replicate, List.map_map,
    List.filter_append, List.filter_replicate]
  simp [Function.comp_def, hnames]

end Path

/-- The names on the way that a path in normal form is written as are its own. -/
theorem segments_toString {p : Path} (hp : p.IsNormal) (h : p.names ≠ []) :
    segments p.toString.toList = p.names := by
  have hnames : ((p.names.map String.toList).filter fun n => !n.isEmpty) =
      p.names.map String.toList := by
    refine List.filter_eq_self.mpr fun piece hpiece => ?_
    obtain ⟨n, hn, rfl⟩ := List.mem_map.mp hpiece
    simpa using (hp.isName n hn).ne_empty
  rw [segments, Path.splitOn_toString hp h, List.filter_append, List.filter_replicate, hnames]
  simp [Function.comp_def]

theorem start_toString {p : Path} (hp : p.IsNormal) (h : p.names ≠ []) :
    Place.start p.toString.toList = if p.slashes = 0 then .below [] else ⟨.root, []⟩ := by
  have hleading := Path.takeWhile_toString hp h
  unfold Place.start
  by_cases hslashes : p.slashes = 0
  · rw [hslashes, List.replicate_zero] at hleading
    rw [if_pos hslashes, if_neg]
    intro hhead
    obtain ⟨rest, hrest⟩ := List.head?_eq_some_iff.mp hhead
    rw [hrest] at hleading
    exact absurd hleading (by simp)
  · obtain ⟨n, hn⟩ := Nat.exists_eq_succ_of_ne_zero hslashes
    rw [hn, List.replicate_succ] at hleading
    rw [if_neg hslashes, if_pos]
    cases hs : p.toString.toList with
    | nil => rw [hs] at hleading; exact absurd hleading (by simp)
    | cons c s =>
      rw [hs, List.takeWhile_cons] at hleading
      split at hleading
      · rw [(List.cons.inj hleading).1]
        rfl
      · exact absurd hleading (by simp)

/-! ### Paths of pictures -/

/-- What stands behind the last of several pieces stands behind all of them. -/
theorem intercalate_concat_append {α : Type} (sep : List α) (l : List (List α)) (a b : List α) :
    sep.intercalate (l ++ [a ++ b]) = sep.intercalate (l ++ [a]) ++ b := by
  induction l with
  | nil => simp
  | cons p l ih =>
    cases l with
    | nil => simp [List.intercalate_cons_cons]
    | cons q l =>
      simp only [List.cons_append, List.intercalate_cons_cons] at ih ⊢
      rw [ih]
      simp only [List.append_assoc]

/-- **The path of a picture in a directory**: the extension goes to its name. -/
theorem picturePath_join {p : Path} (hp : p.IsNormal) {n : String} (hn : IsName n)
    (extension : List Char) (h : IsName (n ++ String.ofList ('.' :: dropDots extension))) :
    FileTree.picturePath (p.join n).toString extension =
      p.join (n ++ String.ofList ('.' :: dropDots extension)) := by
  have hnames : ∀ m : String, (⟨p.slashes, p.names ++ [m]⟩ : Path).names ≠ [] := by simp
  have hwritten : (p.join n).toString.toList ++ '.' :: dropDots extension =
      (p.join (n ++ String.ofList ('.' :: dropDots extension))).toString.toList := by
    rw [Path.join_of_isName p hn, Path.join_of_isName p h, Path.toList_toString (hnames _),
      Path.toList_toString (hnames _)]
    simp only [List.map_append, List.map_cons, List.map_nil, String.toList_append,
      String.toList_ofList, intercalate_concat_append, List.append_assoc]
  rw [FileTree.picturePath, hwritten]
  refine Path.ofString_toString (hp.join h) ?_
  rw [Path.join_of_isName p h]
  exact hnames _

end ImagePipeline
