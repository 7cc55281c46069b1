import ImagePipeline.Proofs.Image.Grey
import ImagePipeline.Proofs.Run.Artifacts
import ImagePipeline.Proofs.Run.Results

/-!
# Grey in a run

Once a node has turned the image grey, every later image of the run is grey, and a greyscale
node that comes later returns the image that it is given.  So greyscale nodes with a node in
front of them that turns the image grey anyway can be left out.

## Main definitions

* `Node.TurnsGrey` — the nodes that make grey images of all images.
* `GreyBy` — a node up to a place turns the image grey.
* `kept`, `DropsGreyscale` — the nodes that are left when some are taken out, and which may be.
* `Prunes` — nodes without some greyscale nodes that come after the image has turned grey.

## Main results

* `Node.Makes.isGrey` — built-in nodes make grey images of grey images.
* `isGrey_of_madeImages`, `GreyBy.isGrey` — the images of a run are grey from a node on that
  turns them grey.
* `Prunes.applyAll_eq` — what is left makes the same.
* `run_grey` — all of it for a whole run.
-/

namespace ImagePipeline

open Image Run

namespace Node

/-- Whether a node makes grey images of all images. -/
def TurnsGrey : Node → Prop
  | .greyscale => True
  | .normalise => True
  | _ => False

variable {n : Node} {s s' : Sources} {img out : Image}

theorem TurnsGrey.eq_or_eq (hn : n.TurnsGrey) : n = .greyscale ∨ n = .normalise := by
  cases n with
  | greyscale => exact Or.inl rfl
  | normalise => exact Or.inr rfl
  | vignette => exact absurd hn id
  | noise _ _ => exact absurd hn id
  | crop _ => exact absurd hn id
  | custom _ => exact absurd hn id

theorem Makes.isGrey_of_turnsGrey (h : n.Makes s img out s') (hn : n.TurnsGrey) : IsGrey out := by
  rcases hn.eq_or_eq with rfl | rfl
  · cases h with
    | greyscale => exact isGrey_grey img
  · cases h with
    | normalise h => exact isGrey_of_stretch? h

/-- **A built-in node makes a grey image of a grey image.** -/
theorem Makes.isGrey (h : n.Makes s img out s') (hn : n.kind ∈ Kind.builtIn) (hgrey : IsGrey img) :
    IsGrey out := by
  cases h with
  | greyscale => exact isGrey_grey img
  | normalise h => exact isGrey_of_stretch? h
  | vignette => exact hgrey.vignette
  | noise _ => exact hgrey.addNoise _ _
  | crop h => exact (crop_eq_ok_iff.mp h).isGrey hgrey
  | custom h => exact absurd hn (by simp [kind, Kind.builtIn])

end Node

/-! ### The images of a run -/

section

variable {ns : List Node} {s s' : Sources} {img out : Image}

theorem madeImages_of_makes {n : Node} {img₁ : Image} {s₁ : Sources} (h : n.Makes s img img₁ s₁) :
    madeImages (n :: ns) s img = img₁ :: madeImages ns s₁ img₁ := by
  rw [madeImages, Node.apply_eq_ok_iff.mpr h]

/-- Nodes that make something make one image each, and the last of them is the result. -/
theorem madeImages_of_applyAll (h : applyAll ns s img = .ok (out, s')) :
    (madeImages ns s img).length = ns.length ∧ (madeImages ns s img).getLastD img = out := by
  induction ns generalizing s img with
  | nil =>
    obtain ⟨rfl, -⟩ := applyAll_nil_eq_ok_iff.mp h
    exact ⟨rfl, rfl⟩
  | cons n ns ih =>
    obtain ⟨img₁, s₁, hfirst, hrest⟩ := applyAll_cons_eq_ok_iff.mp h
    obtain ⟨hlength, hlast⟩ := ih hrest
    rw [madeImages_of_makes hfirst, List.length_cons, List.length_cons, List.getLastD_cons]
    exact ⟨congrArg (· + 1) hlength, hlast⟩

/-- A node that makes nothing ends the row of images. -/
theorem exists_makes_of_madeImages {n : Node} {i : ℕ}
    (h : (madeImages (n :: ns) s img)[i]? = some out) : ∃ img₁ s₁, n.Makes s img img₁ s₁ ∧
      (img₁ :: madeImages ns s₁ img₁)[i]? = some out := by
  rw [madeImages] at h
  split at h
  · exact absurd h (by simp)
  · next happly => exact ⟨_, _, Node.apply_eq_ok_iff.mp happly, h⟩

/-- **Built-in nodes make only grey images of a grey image.** -/
theorem isGrey_of_madeImages (hns : ∀ n ∈ ns, n.kind ∈ Kind.builtIn) (hgrey : IsGrey img) {i : ℕ}
    (h : (madeImages ns s img)[i]? = some out) : IsGrey out := by
  induction ns generalizing s img i with
  | nil => exact absurd h (by simp [madeImages])
  | cons n ns ih =>
    obtain ⟨hn, hns⟩ := List.forall_mem_cons.mp hns
    obtain ⟨img₁, s₁, hfirst, h⟩ := exists_makes_of_madeImages h
    have hgrey₁ := hfirst.isGrey hn hgrey
    cases i with
    | zero =>
      obtain rfl := Option.some.inj h
      exact hgrey₁
    | succ i => exact ih hns hgrey₁ (by simpa using h)

/-- One of the nodes up to the place `i` turns the image grey. -/
def GreyBy (ns : List Node) (i : ℕ) : Prop := ∃ j n, j ≤ i ∧ ns[j]? = some n ∧ n.TurnsGrey

/-- **From a node on that turns the image grey, all images are grey.** -/
theorem GreyBy.isGrey {i : ℕ} (hgrey : GreyBy ns i) (hns : ∀ n ∈ ns, n.kind ∈ Kind.builtIn)
    (h : (madeImages ns s img)[i]? = some out) : IsGrey out := by
  obtain ⟨j, n, hji, hj, hn⟩ := hgrey
  induction ns generalizing s img i j with
  | nil => exact absurd hj (by simp)
  | cons m ns ih =>
    obtain ⟨hm, hns⟩ := List.forall_mem_cons.mp hns
    obtain ⟨img₁, s₁, hfirst, h⟩ := exists_makes_of_madeImages h
    cases j with
    | zero =>
      obtain rfl := Option.some.inj hj
      have hgrey₁ := hfirst.isGrey_of_turnsGrey hn
      cases i with
      | zero =>
        obtain rfl := Option.some.inj h
        exact hgrey₁
      | succ i => exact isGrey_of_madeImages hns hgrey₁ (by simpa using h)
    | succ j =>
      obtain ⟨i, rfl⟩ : ∃ i', i = i' + 1 := ⟨i - 1, by omega⟩
      exact ih hns (by simpa using h) j (Nat.le_of_succ_le_succ hji) (by simpa using hj)

/-- A greyscale node that is given a grey image returns it. -/
theorem madeImages_succ_of_isGrey {i : ℕ} (hi : ns[i + 1]? = some .greyscale)
    (h : (madeImages ns s img)[i]? = some out) (hgrey : IsGrey out) :
    (madeImages ns s img)[i + 1]? = some out := by
  induction ns generalizing s img i with
  | nil => exact absurd hi (by simp)
  | cons n ns ih =>
    obtain ⟨img₁, s₁, hfirst, h⟩ := exists_makes_of_madeImages h
    rw [madeImages_of_makes hfirst, List.getElem?_cons_succ]
    cases i with
    | zero =>
      obtain rfl := Option.some.inj h
      obtain ⟨ns, rfl⟩ : ∃ ns', ns = .greyscale :: ns' := by
        cases ns with
        | nil => exact absurd hi (by simp)
        | cons m ns => exact ⟨ns, by simpa using hi⟩
      rw [madeImages_of_makes .greyscale, hgrey.grey_eq]
      rfl
    | succ i => exact ih (by simpa using hi) (by simpa using h)

end

/-! ### Leaving nodes out -/

/-- The nodes at the places that are kept. -/
def kept (keep : ℕ → Bool) (ns : List Node) : List Node :=
  match ns with
  | [] => []
  | n :: ns =>
    let rest := kept (fun i => keep (i + 1)) ns
    if keep 0 then n :: rest else rest

/-- The second nodes are the first without some greyscale nodes, each of which comes after a
node that is kept and turns the image grey; the flag says whether one has come before. -/
inductive Prunes : Prop → List Node → List Node → Prop
  | nil (grey : Prop) : Prunes grey [] []
  | keep {grey : Prop} (n : Node) {ns ms : List Node} (h : Prunes (grey ∨ n.TurnsGrey) ns ms) :
      Prunes grey (n :: ns) (n :: ms)
  | drop {grey : Prop} {ns ms : List Node} (hgrey : grey) (h : Prunes grey ns ms) :
      Prunes grey (.greyscale :: ns) ms

/-- Every node that is not kept is a greyscale node, and some node in front of it is kept and
turns the image grey. -/
def DropsGreyscale (keep : ℕ → Bool) (ns : List Node) : Prop :=
  ∀ i n, ns[i]? = some n → keep i = false → n = .greyscale ∧
    ∃ j m, j < i ∧ keep j = true ∧ ns[j]? = some m ∧ m.TurnsGrey

/-- Nodes that are not kept are pruned if the image has turned grey by then, here or before. -/
theorem prunes_kept {grey : Prop} {keep : ℕ → Bool} {ns : List Node}
    (h : ∀ i n, ns[i]? = some n → keep i = false → n = .greyscale ∧
      (grey ∨ ∃ j m, j < i ∧ keep j = true ∧ ns[j]? = some m ∧ m.TurnsGrey)) :
    Prunes grey ns (kept keep ns) := by
  induction ns generalizing grey keep with
  | nil => exact .nil grey
  | cons n ns ih =>
    rw [kept]
    cases hkeep : keep 0 with
    | true =>
      rw [if_pos rfl]
      refine .keep n (ih fun i m hi hdrop => ?_)
      obtain ⟨hm, hgrey | ⟨j, l, hj, hkeepj, hl, hturns⟩⟩ := h (i + 1) m (by simpa using hi) hdrop
      · exact ⟨hm, Or.inl (Or.inl hgrey)⟩
      · refine ⟨hm, ?_⟩
        cases j with
        | zero =>
          obtain rfl : n = l := by simpa using hl
          exact Or.inl (Or.inr hturns)
        | succ j => exact Or.inr ⟨j, l, by omega, hkeepj, by simpa using hl, hturns⟩
    | false =>
      obtain ⟨rfl, hgrey | ⟨j, -, hj, -⟩⟩ := h 0 n rfl hkeep
      · rw [if_neg (by simp)]
        refine .drop hgrey (ih fun i m hi hdrop => ?_)
        exact ⟨(h (i + 1) m (by simpa using hi) hdrop).1, Or.inl hgrey⟩
      · exact absurd hj (Nat.not_lt_zero j)

theorem Prunes.mem {grey : Prop} {ns ms : List Node} (h : Prunes grey ns ms) {n : Node}
    (hn : n ∈ ms) : n ∈ ns := by
  induction h with
  | nil => exact hn
  | keep m h ih => exact List.mem_cons.mpr ((List.mem_cons.mp hn).imp_right ih)
  | drop _ h ih => exact List.mem_cons_of_mem _ (ih hn)

/-- **What is left makes the same**, from the same draws. -/
theorem Prunes.applyAll_eq {grey : Prop} {ns ms : List Node} (h : Prunes grey ns ms)
    (hns : ∀ n ∈ ns, n.kind ∈ Kind.builtIn) {s : Sources} {img : Image} {out : Image × Sources}
    (hgrey : grey → IsGrey img) (hmade : applyAll ns s img = .ok out) :
    applyAll ms s img = .ok out := by
  induction h generalizing s img with
  | nil => exact hmade
  | keep n h ih =>
    obtain ⟨hn, hns⟩ := List.forall_mem_cons.mp hns
    obtain ⟨img₁, s₁, hfirst, hrest⟩ := applyAll_cons_eq_ok_iff.mp hmade
    refine applyAll_cons_eq_ok_iff.mpr ⟨img₁, s₁, hfirst, ih hns (fun hgrey' => ?_) hrest⟩
    rcases hgrey' with hgrey' | hturns
    · exact hfirst.isGrey hn (hgrey hgrey')
    · exact hfirst.isGrey_of_turnsGrey hturns
  | drop hbefore h ih =>
    obtain ⟨img₁, s₁, hfirst, hrest⟩ := applyAll_cons_eq_ok_iff.mp hmade
    have himg := (hgrey hbefore).grey_eq
    cases hfirst
    rw [himg] at hrest
    exact ih (List.forall_mem_cons.mp hns).2 hgrey hrest

namespace Run

/-- **Once grey, a run stays grey.**  If a run over built-in nodes goes through, it makes an
image for every node, the last of which is its result; all images from a node on that turns the
image grey are grey, and a greyscale node that comes later returns the image before it.  So a
run without some of those greyscale nodes, each of which has a node in front of it that is kept
and turns the image grey, has the same result and takes the same draws. -/
theorem run_grey {nodes : Pipeline} (hnodes : ∀ n ∈ nodes, n.kind ∈ Kind.builtIn) {o : Options}
    {s : State} (h : (run o nodes s).2 = none) :
    let made := madeImages nodes s.sources s.image
    (made.length = nodes.length ∧ made.getLastD s.image = (run o nodes s).1.image) ∧
    (∀ i img, GreyBy nodes i → made[i]? = some img → IsGrey img) ∧
    (∀ i, GreyBy nodes i → nodes[i + 1]? = some .greyscale → made[i + 1]? = made[i]?) ∧
    ∀ keep, DropsGreyscale keep nodes → ∀ o' : Options, o'.IsQuiet →
      (run o' (kept keep nodes) s).2 = none ∧
        (run o' (kept keep nodes) s).1.image = (run o nodes s).1.image ∧
        (run o' (kept keep nodes) s).1.sources = (run o nodes s).1.sources := by
  intro made
  have hmade := applyAll_of_run_eq_none h
  obtain ⟨hlength, hlast⟩ := madeImages_of_applyAll hmade
  refine ⟨⟨hlength, hlast⟩, fun i img hgrey himg => hgrey.isGrey hnodes himg, ?_, ?_⟩
  · intro i hgrey hi
    have hlt : i + 1 < nodes.length := (List.getElem?_eq_some_iff.mp hi).1
    obtain ⟨img, himg⟩ : ∃ img, made[i]? = some img :=
      ⟨_, List.getElem?_eq_getElem (by rw [hlength]; omega)⟩
    rw [himg]
    exact madeImages_succ_of_isGrey hi himg (hgrey.isGrey hnodes himg)
  · intro keep hkeep o' ho'
    have hprunes : Prunes False nodes (kept keep nodes) := prunes_kept fun i n hi hdrop =>
      ⟨(hkeep i n hi hdrop).1, Or.inr (hkeep i n hi hdrop).2⟩
    exact run_of_applyAll ho' (fun n hn => inLimit_of_run_eq_none h n (hprunes.mem hn))
      (hprunes.applyAll_eq hnodes (fun hfalse => absurd hfalse id) hmade)

/-- Noise between a normalise and a greyscale node: the run without the greyscale node makes the
same image and takes the same two draws. -/
theorem run_grey_noise :
    let o : Options := ⟨false, false, .ofChars ['.'], "output", ['p', 'n', 'g'], fun _ => none⟩
    let s : State := ⟨⟨2, 1, #[⟨1, 2, 3, 4⟩, ⟨5, 6, 7, 8⟩], rfl⟩,
      ⟨fun _ => .ofList [], fun _ => .ofList [7]⟩, .empty, [], []⟩
    let nodes : Pipeline := [.normalise, .noise (.whole 1) (some 0), .greyscale]
    let fewer : Pipeline := [.normalise, .noise (.whole 1) (some 0)]
    (run o fewer s).1.image = (run o nodes s).1.image ∧ IsGrey (run o nodes s).1.image ∧
      ((run o fewer s).1.sources.owned 0).position = 2 := by
  intro o s nodes fewer
  have hnone : (run o nodes s).2 = none := by decide +kernel
  obtain ⟨⟨hlength, hlast⟩, hgrey, -, hdrop⟩ := run_grey (o := o) (s := s) (by decide) hnone
  have hkeep : DropsGreyscale (fun i => i ≠ 2) nodes := by
    intro i n hi hdropped
    obtain rfl : i = 2 := by simpa using hdropped
    exact ⟨(Option.some.inj hi).symm, 0, .normalise, by decide, rfl, rfl, trivial⟩
  obtain ⟨-, himage, hsources⟩ := hdrop _ hkeep o ⟨rfl, fun _ => rfl⟩
  refine ⟨himage, ?_, ?_⟩
  · obtain ⟨img₁, img₂, img₃, hmade⟩ := List.length_eq_three.mp hlength
    rw [hmade] at hlast
    rw [← hlast]
    exact hgrey 2 img₃ ⟨0, .normalise, by decide, rfl, trivial⟩ (by rw [hmade]; rfl)
  · have hposition : ((run o nodes s).1.sources.owned 0).position = 2 := by decide +kernel
    rw [← hposition, ← hsources]
    rfl

end Run
end ImagePipeline
