import ImagePipeline.Proofs.File.Path
import ImagePipeline.Settings.Validation

/-!
# Extensions of pictures

An extension is read three times: when the settings are checked, when it is added to a stem, and
when the ending of the path says the format.  All three agree, because a file type is spelled with
letters alone: there is no dot in the spelling that could move the ending, and no slash that could
start another name.

## Main definitions

* `IsLowering` — what matters here of turning texts into lower case.
* `SpellsFileType` — a text spells a file type, in either case.

## Main results

* `SpellsFileType.fileType_eq`, `SpellsFileType.of_fileType` — the file type of an extension.
* `SpellsFileType.suffix_picturePath` — the ending of the path that a picture is written to.
* `extension_writable` — every extension that is accepted can be written with.
-/

namespace ImagePipeline

/-- A function turns texts into lower case.  Texts of ASCII characters are turned a character at a
time.  Every other text keeps a character beyond ASCII, or has a Kelvin sign turned into a "k". -/
structure IsLowering (lower : List Char → List Char) : Prop where
  ascii : ∀ s, (∀ c ∈ s, c.toNat < 128) → lower s = s.map Char.toLower
  beyond : ∀ s c, c ∈ s → 128 ≤ c.toNat → ∃ d ∈ lower s, 128 ≤ d.toNat ∨ d = 'k'

/-- Only capital letters of ASCII change. -/
theorem toLower_of_lt {c : Char} (hc : 90 < c.toNat) : c.toLower = c := by
  have hletter : ¬ (c.val ≥ 'A'.val ∧ c.val ≤ 'Z'.val) := by
    rintro ⟨-, hle⟩
    have hle' : c.toNat ≤ 90 := UInt32.le_iff_toNat_le.mp hle
    omega
  unfold Char.toLower
  rw [dif_neg hletter]

theorem isLowering_map_toLower : IsLowering (List.map Char.toLower) where
  ascii _ _ := rfl
  beyond s c hc hle := by
    refine ⟨c.toLower, List.mem_map_of_mem hc, Or.inl ?_⟩
    rwa [toLower_of_lt (by omega)]

/-- The text `e` spells the file type `t`. -/
structure SpellsFileType (e : List Char) (t : String) : Prop where
  mem : t ∈ Format.fileTypes
  lower_eq : e.map Char.toLower = t.toList

section

variable {lower : List Char → List Char} {e v : List Char} {t : String}

/-- File types are spelled with small letters, and none of them is the "k". -/
theorem letter_of_fileTypes (ht : t ∈ Format.fileTypes) {d : Char} (hd : d ∈ t.toList) :
    97 ≤ d.toNat ∧ d.toNat ≤ 122 ∧ d ≠ 'k' := by
  have hall : Format.fileTypes.all (fun t => t.toList.all fun d =>
      decide (97 ≤ d.toNat ∧ d.toNat ≤ 122 ∧ d ≠ 'k')) = true := by decide
  exact Text.forall_mem_of_all (List.all_eq_true.mp hall t ht) d hd

namespace SpellsFileType

theorem ne_nil (h : SpellsFileType e t) : e ≠ [] := by
  rintro rfl
  have hempty : t = "" := String.toList_inj.mp h.lower_eq.symm
  exact absurd (hempty ▸ h.mem) (by decide)

theorem letter (h : SpellsFileType e t) {c : Char} (hc : c ∈ e) :
    97 ≤ c.toLower.toNat ∧ c.toLower.toNat ≤ 122 ∧ c.toLower ≠ 'k' :=
  letter_of_fileTypes h.mem (h.lower_eq ▸ List.mem_map_of_mem hc)

theorem dot_notMem (h : SpellsFileType e t) : '.' ∉ e := fun hdot =>
  absurd (h.letter hdot).1 (by decide)

theorem slash_notMem (h : SpellsFileType e t) : '/' ∉ e := fun hslash =>
  absurd (h.letter hslash).1 (by decide)

theorem isAscii (h : SpellsFileType e t) : ∀ c ∈ e, c.toNat < 128 := by
  intro c hc
  by_contra hle
  obtain ⟨-, hsmall, -⟩ := h.letter hc
  rw [toLower_of_lt (by omega)] at hsmall
  omega

/-- A file type spells itself. -/
theorem self (ht : t ∈ Format.fileTypes) : SpellsFileType t.toList t where
  mem := ht
  lower_eq := by
    refine (List.map_congr_left fun d hd => ?_).trans (List.map_id _)
    obtain ⟨hsmall, -⟩ := letter_of_fileTypes ht hd
    exact toLower_of_lt (by omega)

/-- **Whatever is turned into lower case as a file type spells it**: no character beyond ASCII
becomes one of its letters. -/
theorem of_lower (hlower : IsLowering lower) (ht : t ∈ Format.fileTypes)
    (h : lower e = t.toList) : SpellsFileType e t := by
  refine ⟨ht, ?_⟩
  rw [← hlower.ascii e, h]
  intro c hc
  by_contra hle
  obtain ⟨d, hd, hbeyond⟩ := hlower.beyond e c hc (not_lt.mp hle)
  obtain ⟨-, hsmall, hk⟩ := letter_of_fileTypes ht (h ▸ hd)
  rcases hbeyond with hlarge | heq
  · omega
  · exact hk heq

theorem lower_of_isLowering (h : SpellsFileType e t) (hlower : IsLowering lower) :
    lower e = t.toList :=
  (hlower.ascii e h.isAscii).trans h.lower_eq

/-- Dots in front of a spelling are dropped, and nothing else is. -/
theorem dropDots_eq (h : SpellsFileType e t) (k : ℕ) :
    dropDots (List.replicate k '.' ++ e) = e := by
  unfold dropDots
  rw [List.dropWhile_append_of_pos (by simp)]
  refine List.dropWhile_eq_self_iff.mpr fun hlength hdot => h.dot_notMem ?_
  rw [beq_iff_eq] at hdot
  exact hdot ▸ List.getElem_mem hlength

/-- **The file type of a spelling**, with dots in front of it or without. -/
theorem fileType_eq (h : SpellsFileType e t) (k : ℕ) :
    fileType (List.replicate k '.' ++ e) = t := by
  rw [fileType, h.dropDots_eq, h.lower_eq, String.ofList_toList]

/-- **An extension with a file type is a spelling of it** behind dots. -/
theorem of_fileType (ht : fileType v ∈ Format.fileTypes) :
    ∃ k e, v = List.replicate k '.' ++ e ∧ SpellsFileType e (fileType v) := by
  refine ⟨(v.takeWhile fun c => c == '.').length, dropDots v, ?_, ht, ?_⟩
  · have hdots : v.takeWhile (fun c => c == '.') =
        List.replicate (v.takeWhile fun c => c == '.').length '.' :=
      List.eq_replicate_iff.mpr ⟨rfl, fun c hc => by simpa using List.mem_takeWhile_imp hc⟩
    rw [← hdots]
    exact List.takeWhile_append_dropWhile.symm
  · rw [fileType, String.toList_ofList]

/-- **Behind a stem the spelling is the ending of the path.** -/
theorem suffix_picturePath (h : SpellsFileType e t) (k : ℕ) {stem : String} (hstem : stem ≠ "")
    (hlast : stem.toList.getLast? ≠ some '/') :
    (FileTree.picturePath stem (List.replicate k '.' ++ e)).suffix = '.' :: e := by
  have hne : stem.toList ≠ [] := fun hnil => hstem (String.toList_inj.mp hnil)
  rw [FileTree.picturePath, h.dropDots_eq]
  exact Path.suffix_ofChars hne hlast h.ne_nil h.dot_notMem h.slash_notMem

/-- The extension that a picture is written with spells the type if the one asked for does, or if
none is asked for and the setting is the type. -/
theorem exists_writeExtension {v : String} {k : ℕ} (h : SpellsFileType e t)
    (hv : v.toList = List.replicate k '.' ++ e) {s : Settings} {asked : Option String}
    (hasked : asked = some v ∨ s.imageExtension = t ∧ (asked = none ∨ asked = some "")) :
    ∃ k e, s.writeExtension asked = List.replicate k '.' ++ e ∧ SpellsFileType e t := by
  have hself := self h.mem
  rcases hasked with rfl | ⟨rfl, rfl | rfl⟩
  · have hne : v ≠ "" := by
      rintro rfl
      exact h.ne_nil (List.append_eq_nil_iff.mp hv.symm).2
    refine ⟨k, e, ?_, h⟩
    simp only [Settings.writeExtension, if_neg hne, hv]
  · exact ⟨0, _, rfl, hself⟩
  · exact ⟨0, _, rfl, hself⟩

end SpellsFileType

/-! ### The checks -/

theorem readExtension_eq_ok_iff {v t : String} : readExtension (.text v) = .ok t ↔
    ∃ k e, v.toList = List.replicate k '.' ++ e ∧ SpellsFileType e t := by
  have hread : readExtension (.text v) = if fileType v.toList ∈ Format.fileTypes then
      .ok (fileType v.toList) else .error (.extension v) := rfl
  rw [hread]
  constructor
  · intro h
    split at h
    · next hmem =>
      obtain rfl := Except.ok.inj h
      exact SpellsFileType.of_fileType hmem
    · exact absurd h (by simp)
  · rintro ⟨k, e, hv, h⟩
    rw [hv, h.fileType_eq, if_pos h.mem]

namespace FileTree

variable {tree : FileTree} {img : Image} {x : List Char}

/-- A picture whose ending is a file type is not refused for it. -/
theorem saveImage_ne_fileType {p : Path} (h : fileType p.suffix ∈ Format.fileTypes) :
    tree.saveImage p img ≠ .error (.fileType x) := by
  obtain ⟨f, hf⟩ := Option.isSome_iff_exists.mp (Format.ofName?_isSome_iff.mpr h)
  unfold saveImage
  rw [hf]
  simp only
  split
  · simp
  · cases tree.write p.toString (.ofImage f img) <;> simp

theorem writeImage_ne_fileType {stem : String} {extension : List Char}
    (h : fileType (picturePath stem extension).suffix ∈ Format.fileTypes) :
    tree.writeImage stem extension img ≠ .error (.fileType x) := by
  intro hfailed
  unfold writeImage at hfailed
  simp only at hfailed
  cases hsave : tree.saveImage (picturePath stem extension) img with
  | ok tree' =>
    rw [hsave] at hfailed
    exact absurd hfailed (by simp [Except.map])
  | error e =>
    rw [hsave] at hfailed
    obtain rfl : e = .fileType x := Except.error.inj hfailed
    exact saveImage_ne_fileType h hsave

end FileTree

end

/-- **Every extension that is accepted can be written with.**  A text is accepted if it spells a
file type in either case, with any dots in front, and is read as that type, which is accepted as it
is.  A picture that is written under any stem, with the text itself as the extension asked for or
with the type as that of the settings, gets a path whose ending spells the same type, whatever the
stem; so saving it does not fail for want of a file type. -/
theorem extension_writable {lower : List Char → List Char} (hlower : IsLowering lower)
    (v t : String) :
    (readExtension (.text v) = .ok t ↔ t ∈ Format.fileTypes ∧
      ∃ k e, v.toList = List.replicate k '.' ++ e ∧ lower e = t.toList) ∧
    (readExtension (.text v) = .ok t → readExtension (.text t) = .ok t ∧
      ∀ (s : Settings) (asked : Option String),
        asked = some v ∨ s.imageExtension = t ∧ (asked = none ∨ asked = some "") →
        ∀ stem : String, stem ≠ "" → stem.toList.getLast? ≠ some '/' →
          lower (dropDots (FileTree.picturePath stem (s.writeExtension asked)).suffix) = t.toList ∧
            fileType (FileTree.picturePath stem (s.writeExtension asked)).suffix = t ∧
            (Format.ofName? t).isSome ∧
            ∀ (tree : FileTree) (img : Image) x,
              tree.writeImage stem (s.writeExtension asked) img ≠ .error (.fileType x)) := by
  refine ⟨?_, fun haccepted => ?_⟩
  · rw [readExtension_eq_ok_iff]
    constructor
    · rintro ⟨k, e, hv, h⟩
      exact ⟨h.mem, k, e, hv, h.lower_of_isLowering hlower⟩
    · rintro ⟨ht, k, e, hv, h⟩
      exact ⟨k, e, hv, .of_lower hlower ht h⟩
  obtain ⟨k, e, hv, hspells⟩ := readExtension_eq_ok_iff.mp haccepted
  refine ⟨readExtension_eq_ok_iff.mpr ⟨0, t.toList, rfl, .self hspells.mem⟩, ?_⟩
  intro s asked hasked stem hstem hlast
  obtain ⟨k', e', hextension, h⟩ := hspells.exists_writeExtension hv hasked
  have hsuffix := h.suffix_picturePath k' hstem hlast
  have hdropped : dropDots ('.' :: e') = e' := h.dropDots_eq 1
  have htype : fileType ('.' :: e') = t := h.fileType_eq 1
  have hlisted : fileType ('.' :: e') ∈ Format.fileTypes := htype.symm ▸ h.mem
  rw [hextension, hsuffix, hdropped]
  exact ⟨h.lower_of_isLowering hlower, htype, Format.ofName?_isSome_iff.mpr h.mem,
    fun tree img x => FileTree.writeImage_ne_fileType (hsuffix.symm ▸ hlisted)⟩

/-- Capital letters behind two dots, with a stem whose last name consists of dots and whose first
one has another ending. -/
theorem extension_writable_capitals :
    IsLowering (List.map Char.toLower) ∧ readExtension (.text "..PnG") = .ok "png" ∧
      fileType (FileTree.picturePath "a.bmp/.." "..PnG".toList).suffix = "png" := by
  obtain ⟨hiff, hwritable⟩ := extension_writable isLowering_map_toLower "..PnG" "png"
  have haccepted := hiff.mpr ⟨by decide, 2, ['P', 'n', 'G'], by decide, by decide⟩
  obtain ⟨-, hstems⟩ := hwritable haccepted
  obtain ⟨-, htype, -⟩ := hstems .standard (some "..PnG") (Or.inl rfl) "a.bmp/.." (by decide)
    (by decide)
  exact ⟨isLowering_map_toLower, haccepted, htype⟩

end ImagePipeline
