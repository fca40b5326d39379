import Orvek.Tui.Documents
import Orvek.Tui.Movement

/-!
# Images stay attached

What each operation of the composer does to the characters and images of its draft.

* `Attached`           the draft and its ranges are the text and the images of these atoms;
* `insert_spec` …      one result for each operation that edits;
* `Moved`              the operations that only move the cursor;
* `Document.Step`      what an input may do to a draft, and to the one that is left for the history;
* `Intact`             the steps that cut no marker and lose no image;
* `images_attached`    every run of such steps.
-/

set_option linter.unusedSectionVars false

namespace Orvek.Tui
open Texts Offsets Clusters

theorem pairwise_imagesFrom (start : Nat) (d : List Atom) :
    (imagesFrom start d).Pairwise fun a b => a.stop ≤ b.start := by
  induction d generalizing start with
  | nil => exact List.Pairwise.nil
  | cons x d ih =>
    cases x with
    | char c => exact ih _
    | image n dataUrl => exact List.Pairwise.cons (fun image h => (bounds_of_mem h).1) (ih _)

theorem no_return (l : Text) : '\r' ∉ normalizeLineEndings l := by
  induction l using normalizeLineEndings.induct with
  | case1 => exact List.not_mem_nil
  | case2 l ih =>
    rw [normalizeLineEndings, List.mem_cons]
    exact fun h => h.elim (by decide) ih
  | case3 c l hpair ih =>
    rw [normalizeLineEndings.eq_3 _ _ hpair, List.mem_cons]
    rintro (h | h)
    · split at h
      · exact absurd h (by decide)
      · rename_i hc
        exact hc h.symm
    · exact ih h

theorem normalizeLineEndings_eq {l : Text} (h : '\r' ∉ l) : normalizeLineEndings l = l := by
  induction l with
  | nil => rfl
  | cons c l ih =>
    obtain ⟨hc, hl⟩ := not_or.mp (mt List.mem_cons.mpr h)
    rw [normalizeLineEndings.eq_3 _ _ fun l' hc' _ => absurd hc'.symm hc, if_neg fun he => hc he.symm, ih hl]

theorem marker_clean (n : Nat) : '\r' ∉ marker n := by
  have hdigits : '\r' ∉ Nat.toDigits 10 n := by
    intro h
    have := Nat.isDigit_of_mem_toDigits (by decide) (by decide) h
    exact absurd this (by decide)
  simp only [marker, List.mem_append, not_or]
  exact ⟨⟨by decide, hdigits⟩, by decide⟩

/-- the composer shows the atoms -/
structure Attached (c : Composer) (d : List Atom) : Prop where
  draft : c.draft = docText d
  images : c.images = imagesFrom 0 d
  cursor : IsBoundary c.draft c.cursor
  clean : '\r' ∉ c.draft

theorem isBoundary_docText (a b : List Atom) : IsBoundary (docText (a ++ b)) (size (docText a)) := by
  rw [docText_append]
  exact isBoundary_append _ _

theorem not_inside_between {a b : List Atom} {image : PastedImage} (h : image ∈ imagesFrom 0 (a ++ b)) :
    image.stop ≤ size (docText a) ∨ size (docText a) ≤ image.start := by
  rw [imagesFrom_append, Nat.zero_add] at h
  rcases List.mem_append.mp h with h | h
  · exact .inl ((bounds_of_mem h).2.2.trans_eq (Nat.zero_add _))
  · exact .inr (bounds_of_mem h).1

/-- a stretch of the draft is gone; of an image that was cut, the end of its marker is left, as
characters -/
def Erased (d d' : List Atom) : Prop :=
  ∃ a r b w, d = a ++ (r ++ b) ∧ d' = a ++ (chars w ++ b) ∧ MarkerEnd r w

theorem Erased.refl (d : List Atom) : Erased d d := ⟨d, [], [], [], by simp, by simp [chars], .inl rfl⟩

section
variable [UnicodeText]

namespace Composer

variable {c : Composer} {a b d : List Atom} {image : PastedImage}

theorem moveCursorOutOfImage_between (himages : c.images = imagesFrom 0 (a ++ b))
    (hcursor : c.cursor = size (docText a)) : c.moveCursorOutOfImage = c := by
  have hnone : c.images.find? (·.inside c.cursor) = none := by
    refine List.find?_eq_none.mpr fun image himage => ?_
    rw [himages] at himage
    have := not_inside_between himage
    simp only [PastedImage.inside, Bool.and_eq_true, decide_eq_true_eq]
    omega
  rw [moveCursorOutOfImage, hnone]

theorem moveCursorOutOfImage_spec (h : Attached c d) :
    ∃ a b, d = a ++ b ∧ c.moveCursorOutOfImage = { c with cursor := size (docText a) } := by
  rw [moveCursorOutOfImage]
  cases hfind : c.images.find? (·.inside c.cursor) with
  | some image =>
    have himage := List.mem_of_find?_eq_some hfind
    rw [h.images] at himage
    obtain ⟨a, n, b, hd, hstart, hstop⟩ := exists_of_mem himage
    refine ⟨a ++ [.image n image.dataUrl], b, by rw [hd]; simp, ?_⟩
    have hsize : size (docText (a ++ [.image n image.dataUrl])) = image.stop := by
      rw [docText_append, size_append, hstop, hstart, Nat.zero_add, docText_cons, Atom.text, docText_nil, List.append_nil]
    rw [hsize]
  | none =>
    have hcursor := h.cursor
    rw [h.draft] at hcursor
    rcases exists_split hcursor with ⟨a, b, hd, hsize⟩ | ⟨a, n, dataUrl, b, x, y, hd, hmarker, hx, hy, hsize⟩
    · exact ⟨a, b, hd, by rw [hsize]⟩
    · -- the image around the cursor would have been found
      have himage : ⟨size (docText a), size (docText a) + size (marker n), dataUrl⟩ ∈ c.images := by
        rw [h.images, hd, imagesFrom_append, imagesFrom_image, Nat.zero_add]
        simp
      have houtside := List.find?_eq_none.mp hfind _ himage
      have hsizes : size (marker n) = size x + size y := by rw [hmarker, size_append]
      have hx := size_pos hx
      have hy := size_pos hy
      simp only [PastedImage.inside, Bool.and_eq_true, decide_eq_true_eq] at houtside
      omega

/-- what an insertion between two atoms comes to -/
theorem insert_between (hdraft : c.draft = docText (a ++ b)) (himages : c.images = imagesFrom 0 (a ++ b))
    (hcursor : c.cursor = size (docText a)) (text : Text) :
    c.insert text = some { c with
      draft := docText (a ++ (chars (normalizeLineEndings text) ++ b))
      images := imagesFrom 0 (a ++ (chars (normalizeLineEndings text) ++ b))
      cursor := size (docText a) + size (normalizeLineEndings text)
      preferredColumn := none } := by
  have hshifted : (c.images.map fun image =>
      if c.cursor ≤ image.start then image.shift (· + size (normalizeLineEndings text)) else image) =
      imagesFrom 0 (a ++ (chars (normalizeLineEndings text) ++ b)) := by
    rw [himages, hcursor, imagesFrom_append, imagesFrom_append, imagesFrom_append, imagesFrom_chars, List.nil_append,
      List.map_append, docText_chars, Nat.zero_add, ← imagesFrom_shift]
    congr 1
    · refine (List.map_congr_left fun image himage => if_neg ?_).trans (List.map_id _)
      have := bounds_of_mem himage
      omega
    · exact List.map_congr_left fun image himage => if_pos (bounds_of_mem himage).1
  have hcut : cut c.cursor c.draft = some (docText a, docText b) := by
    rw [hdraft, hcursor, docText_append]
    exact cut_append _ _
  rw [insert, moveCursorOutOfImage_between himages hcursor, hcut]
  simp only [Option.bind_eq_bind, Option.bind_some]
  rw [hshifted, hcursor, docText_append, docText_append, docText_chars]
  rfl

/-- the text is between two atoms of the draft -/
theorem insert_spec (h : Attached c d) (text : Text) :
    ∃ a b c', d = a ++ b ∧ c.insert text = some c' ∧ Attached c' (a ++ (chars (normalizeLineEndings text) ++ b)) ∧
      c'.history = c.history := by
  obtain ⟨a, b, rfl, hout⟩ := moveCursorOutOfImage_spec h
  have hsame : c.insert text = c.moveCursorOutOfImage.insert text := by
    have hagain : c.moveCursorOutOfImage.moveCursorOutOfImage = c.moveCursorOutOfImage := by
      rw [hout]
      exact moveCursorOutOfImage_between h.images rfl
    rw [insert, insert, hagain]
  have hinsert := insert_between (c := { c with cursor := size (docText a) }) h.draft h.images rfl text
  rw [← hout, ← hsame] at hinsert
  refine ⟨a, b, _, rfl, hinsert, ⟨rfl, rfl, ?_, ?_⟩, by rw [hout]⟩
  · refine ⟨docText a ++ normalizeLineEndings text, docText b, ?_, size_append _ _⟩
    show docText _ = _
    rw [docText_append, docText_append, docText_chars, List.append_assoc]
  · have hclean := h.clean
    rw [h.draft, docText_append] at hclean
    show _ ∉ docText _
    rw [docText_append, docText_append, docText_chars]
    simp only [List.mem_append, not_or] at hclean ⊢
    exact ⟨hclean.1, no_return text, hclean.2⟩

/-! ## the image that is inserted -/

theorem orderedInsert_front {l : List PastedImage} (h : ∀ x ∈ l, image.start ≤ x.start) :
    List.orderedInsert (fun a b : PastedImage => a.start ≤ b.start) image l = image :: l := by
  cases l with
  | nil => rfl
  | cons x l => exact if_pos (h x List.mem_cons_self)

theorem sort_behind {l : List PastedImage} (hsorted : l.Pairwise fun a b => a.start ≤ b.start)
    (hbehind : ∀ x ∈ l, image.start < x.start) :
    List.insertionSort (fun a b : PastedImage => a.start ≤ b.start) (l ++ [image]) = image :: l := by
  induction l with
  | nil => rfl
  | cons x l ih =>
    obtain ⟨hx, hl⟩ := List.pairwise_cons.mp hsorted
    obtain ⟨hfirst, hrest⟩ := List.forall_mem_cons.mp hbehind
    rw [List.cons_append, List.insertionSort_cons, ih hl hrest, List.orderedInsert_cons,
      if_neg (Nat.not_le.mpr hfirst), orderedInsert_front hx]

theorem sort_insert {x y : List PastedImage}
    (hsorted : (x ++ image :: y).Pairwise fun a b => a.start < b.start) :
    List.insertionSort (fun a b : PastedImage => a.start ≤ b.start) (x ++ y ++ [image]) = x ++ image :: y := by
  induction x with
  | nil =>
    obtain ⟨himage, hy⟩ := List.pairwise_cons.mp hsorted
    exact sort_behind (hy.imp fun h => h.le) himage
  | cons z x ih =>
    obtain ⟨hz, hrest⟩ := List.pairwise_cons.mp hsorted
    rw [List.cons_append, List.cons_append, List.insertionSort_cons, ih hrest, List.cons_append]
    exact orderedInsert_front fun w hw => (hz w hw).le

theorem insertImage_spec (h : Attached c d) (dataUrl : String) :
    ∃ a b c', d = a ++ b ∧ c.insertImage dataUrl = some c' ∧
      Attached c' (a ++ .image c.nextImage dataUrl :: b) ∧ c'.history = c.history := by
  obtain ⟨a, b, rfl, hout⟩ := moveCursorOutOfImage_spec h
  have hinsert := insert_between (c := { c with cursor := size (docText a) }) h.draft h.images rfl (marker c.nextImage)
  rw [normalizeLineEndings_eq (marker_clean c.nextImage)] at hinsert
  have hplaces : imagesFrom 0 (a ++ .image c.nextImage dataUrl :: b) =
      imagesFrom 0 a ++ ⟨size (docText a), size (docText a) + size (marker c.nextImage), dataUrl⟩ ::
        imagesFrom (size (docText a) + size (marker c.nextImage)) b := by
    rw [imagesFrom_append, imagesFrom_image, Nat.zero_add]
  have hsorted : (imagesFrom 0 (a ++ .image c.nextImage dataUrl :: b)).Pairwise fun x y => x.start < y.start :=
    (pairwise_imagesFrom 0 _).imp_of_mem fun hx _ hle => (bounds_of_mem hx).2.1.trans_le hle
  have hsort : List.insertionSort (fun x y : PastedImage => x.start ≤ y.start)
      (imagesFrom 0 (a ++ (chars (marker c.nextImage) ++ b)) ++
        [⟨size (docText a), size (docText a) + size (marker c.nextImage), dataUrl⟩]) =
      imagesFrom 0 (a ++ .image c.nextImage dataUrl :: b) := by
    rw [imagesFrom_append, imagesFrom_append, imagesFrom_chars, List.nil_append, docText_chars, Nat.zero_add, hplaces]
    rw [hplaces] at hsorted
    exact sort_insert hsorted
  have htext : docText (a ++ (chars (marker c.nextImage) ++ b)) = docText (a ++ .image c.nextImage dataUrl :: b) := by
    rw [docText_append, docText_append, docText_chars, docText_append, docText_cons]
    rfl
  have hstep : c.insertImage dataUrl = some { c with
      draft := docText (a ++ (chars (marker c.nextImage) ++ b))
      images := List.insertionSort (fun x y : PastedImage => x.start ≤ y.start)
        (imagesFrom 0 (a ++ (chars (marker c.nextImage) ++ b)) ++
          [⟨size (docText a), size (docText a) + size (marker c.nextImage), dataUrl⟩])
      cursor := size (docText a) + size (marker c.nextImage)
      preferredColumn := none
      nextImage := satAdd64 c.nextImage 1 } := by
    rw [insertImage, hout, Option.bind_eq_bind, hinsert]
    rfl
  refine ⟨a, b, _, rfl, hstep, ⟨htext, hsort, ?_, ?_⟩, rfl⟩
  · refine ⟨docText a ++ marker c.nextImage, docText b, ?_, size_append _ _⟩
    show docText _ = _
    rw [docText_append, docText_append, docText_chars, List.append_assoc]
  · have hclean := h.clean
    rw [h.draft, docText_append] at hclean
    show _ ∉ docText _
    rw [docText_append, docText_append, docText_chars]
    simp only [List.mem_append, not_or] at hclean ⊢
    exact ⟨hclean.1, marker_clean _, hclean.2⟩

/-! ## what is taken away -/

theorem removeRange_spec {r : Text} (hdraft : c.draft = docText a ++ (r ++ docText b))
    (himages : c.images = imagesFrom 0 a ++ imagesFrom (size (docText a) + size r) b) :
    c.removeRange (size (docText a)) (size (docText a) + size r) = some { c with
      draft := docText (a ++ b)
      images := imagesFrom 0 (a ++ b)
      cursor := size (docText a)
      preferredColumn := none } := by
  have hstart : cut (size (docText a)) c.draft = some (docText a, r ++ docText b) := by
    rw [hdraft]
    exact cut_append _ _
  have hstop : cut (size (docText a) + size r) c.draft = some (docText a ++ r, docText b) := by
    rw [hdraft, ← List.append_assoc, ← size_append]
    exact cut_append _ _
  have hshifted : (c.images.map fun image => if size (docText a) + size r ≤ image.start then
      image.shift (· - (size (docText a) + size r - size (docText a))) else image) = imagesFrom 0 (a ++ b) := by
    rw [himages, imagesFrom_append, List.map_append, Nat.add_sub_cancel_left, Nat.zero_add]
    congr 1
    · refine (List.map_congr_left fun image himage => if_neg ?_).trans (List.map_id _)
      have := bounds_of_mem himage
      omega
    · rw [← imagesFrom_unshift (size (docText a)) (size r) b]
      exact List.map_congr_left fun image himage => if_pos (bounds_of_mem himage).1
  rw [removeRange, if_neg (by omega), hstart, hstop]
  simp only [Option.bind_eq_bind, Option.bind_some]
  rw [hshifted, docText_append]
  rfl

theorem attached_removed {c : Composer} {a b : List Atom} {r : Text} (hdraft : c.draft = docText a ++ (r ++ docText b))
    (himages : c.images = imagesFrom 0 a ++ imagesFrom (size (docText a) + size r) b) (hclean : '\r' ∉ c.draft) :
    ∃ c', c.removeRange (size (docText a)) (size (docText a) + size r) = some c' ∧ Attached c' (a ++ b) ∧
      c'.history = c.history := by
  refine ⟨_, removeRange_spec hdraft himages, ⟨rfl, rfl, isBoundary_docText a b, ?_⟩, rfl⟩
  rw [hdraft] at hclean
  show _ ∉ docText _
  rw [docText_append]
  simp only [List.mem_append, not_or] at hclean ⊢
  exact ⟨hclean.1, hclean.2.2⟩

theorem remove_image (h : Attached c d) {p : PastedImage → Bool} {index : Nat}
    (hindex : c.images.findIdx? p = some index) :
    ∃ image a n b c', c.images[index]? = some image ∧ p image = true ∧ d = a ++ .image n image.dataUrl :: b ∧
      ({ c with images := c.images.eraseIdx index } : Composer).removeRange image.start image.stop = some c' ∧
      Attached c' (a ++ b) ∧ c'.history = c.history := by
  obtain ⟨hlt, hp, -⟩ := List.findIdx?_eq_some_iff_getElem.mp hindex
  have hsplit : c.images = c.images.take index ++ c.images[index] :: c.images.drop (index + 1) := by
    rw [← List.drop_eq_getElem_cons hlt, List.take_append_drop]
  obtain ⟨a, n, b, rfl, hx, hstart, hstop, hz⟩ := imagesFrom_split (h.images.symm.trans hsplit)
  rw [Nat.zero_add] at hstart
  have hdraft : c.draft = docText a ++ (marker n ++ docText b) := by
    rw [h.draft, docText_append, docText_cons]
    rfl
  have himages : c.images.eraseIdx index =
      imagesFrom 0 a ++ imagesFrom (size (docText a) + size (marker n)) b := by
    rw [List.eraseIdx_eq_take_drop_succ, hx, hz, hstop, hstart]
  obtain ⟨c', hremove, hattached, hhistory⟩ := @attached_removed _
    { c with images := c.images.eraseIdx index } a b (marker n) hdraft himages h.clean
  refine ⟨c.images[index], a, n, b, c', List.getElem?_eq_getElem hlt, hp, rfl, ?_, hattached, hhistory⟩
  rw [hstop, hstart]
  exact hremove

theorem between_of_outside (h : Attached c d) {position : Nat} (hposition : IsBoundary c.draft position)
    (houtside : ∀ image ∈ c.images, image.stop ≤ position ∨ position ≤ image.start) :
    ∃ a b, d = a ++ b ∧ size (docText a) = position := by
  rw [h.draft] at hposition
  rcases exists_split hposition with hbetween | ⟨a, n, dataUrl, b, x, y, rfl, hmarker, hx, hy, hsize⟩
  · exact hbetween
  · have himage : ⟨size (docText a), size (docText a) + size (marker n), dataUrl⟩ ∈ c.images := by
      rw [h.images, imagesFrom_append, imagesFrom_image, Nat.zero_add]
      simp
    have hsizes : size (marker n) = size x + size y := by rw [hmarker, size_append]
    have hx := size_pos hx
    have hy := size_pos hy
    have := houtside _ himage
    simp only at this
    omega

theorem docText_eq_nil : docText d = [] ↔ d = [] := by
  constructor
  · intro h
    cases d with
    | nil => rfl
    | cons x d =>
      rw [docText_cons] at h
      cases x with
      | char c => cases h
      | image n dataUrl => cases h
  · rintro rfl
    rfl

theorem between_two {x y : List Atom} (h : a ++ b = x ++ y) (hle : size (docText a) ≤ size (docText x)) :
    ∃ m, x = a ++ m ∧ b = m ++ y := by
  rcases List.append_eq_append_iff.mp h with ⟨m, hx, hb⟩ | ⟨m, ha, hy⟩
  · exact ⟨m, hx, hb⟩
  · rw [ha, docText_append, size_append] at hle
    obtain rfl := docText_eq_nil.mp (size_eq_zero.mp (by omega : size (docText m) = 0))
    exact ⟨[], by rw [ha]; simp, by rw [hy]; rfl⟩

theorem remove_outside (h : Attached c d) {start stop : Nat} (hle : start ≤ stop)
    (hstart : IsBoundary c.draft start) (hstop : IsBoundary c.draft stop)
    (houtside : ∀ image ∈ c.images, image.stop ≤ start ∨ stop ≤ image.start) :
    ∃ c' d', c.removeRange start stop = some c' ∧ Attached c' d' ∧ Erased d d' ∧ c'.history = c.history := by
  obtain ⟨a, b, rfl, rfl⟩ := between_of_outside h hstart fun image himage => (houtside image himage).imp_right hle.trans
  obtain ⟨x, y, hxy, rfl⟩ := between_of_outside h hstop fun image himage => (houtside image himage).imp_left (·.trans hle)
  obtain ⟨m, rfl, rfl⟩ := between_two hxy hle
  have hsize : size (docText (a ++ m)) = size (docText a) + size (docText m) := by rw [docText_append, size_append]
  rw [hsize] at houtside ⊢
  have hnone : imagesFrom (size (docText a)) m = [] := by
    refine List.eq_nil_iff_forall_not_mem.mpr fun image himage => ?_
    have hbounds := bounds_of_mem himage
    have := houtside image (by
      rw [h.images, imagesFrom_append, imagesFrom_append, Nat.zero_add]
      simp [himage])
    omega
  have hdraft : c.draft = docText a ++ (docText m ++ docText y) := by rw [h.draft, docText_append, docText_append]
  have himages : c.images = imagesFrom 0 a ++ imagesFrom (size (docText a) + size (docText m)) y := by
    rw [h.images, imagesFrom_append, imagesFrom_append, Nat.zero_add, hnone, List.nil_append]
  obtain ⟨c', hremove, hattached, hhistory⟩ := attached_removed hdraft himages h.clean
  exact ⟨c', a ++ y, hremove, hattached, ⟨a, m, y, [], rfl, rfl, .inl rfl⟩, hhistory⟩

/-- the step takes no part of a marker -/
def BackspaceIntact (c : Composer) : Prop :=
  ∀ previous, c.previousGrapheme = some (some previous) → ∀ image ∈ c.images,
    image.stop ≤ previous ∨ c.cursor ≤ image.stop

def DeleteIntact (c : Composer) : Prop :=
  ∀ next, c.nextGrapheme = some (some next) → ∀ image ∈ c.images, image.start ≤ c.cursor ∨ next ≤ image.start

theorem previousGrapheme_spec (hcursor : IsBoundary c.draft c.cursor) :
    c.previousGrapheme = some none ∨
      ∃ previous, c.previousGrapheme = some (some previous) ∧ previous ≤ c.cursor ∧ IsBoundary c.draft previous := by
  obtain ⟨before, after, hdraft, hcursor⟩ := hcursor
  have hprevious : c.previousGrapheme = some ((graphemes before).getLast?.map fun g => c.cursor - size g) := by
    rw [previousGrapheme, hdraft, ← hcursor, cut_append]
    rfl
  cases hlast : (graphemes before).getLast? with
  | none => exact .inl (by rw [hprevious, hlast]; rfl)
  | some g =>
    obtain ⟨gs, hgs⟩ := List.getLast?_eq_some_iff.mp hlast
    have htext : before = gs.flatten ++ g := by
      rw [← flatten_graphemes before, hgs, List.flatten_append, List.flatten_singleton]
    have hsize : c.cursor - size g = size gs.flatten := by
      rw [← hcursor, htext, size_append]
      omega
    rw [hlast, Option.map_some, hsize] at hprevious
    exact .inr ⟨_, hprevious, by omega, gs.flatten, g ++ after, by rw [hdraft, htext, List.append_assoc], rfl⟩

theorem nextGrapheme_spec (hcursor : IsBoundary c.draft c.cursor) :
    c.nextGrapheme = some none ∨
      ∃ next, c.nextGrapheme = some (some next) ∧ c.cursor ≤ next ∧ IsBoundary c.draft next := by
  obtain ⟨before, after, hdraft, hcursor⟩ := hcursor
  have hnext : c.nextGrapheme = some ((graphemes after).head?.map fun g => c.cursor + size g) := by
    rw [nextGrapheme, hdraft, ← hcursor, cut_append]
    rfl
  cases hfirst : (graphemes after).head? with
  | none => exact .inl (by rw [hnext, hfirst]; rfl)
  | some g =>
    obtain ⟨gs, hgs⟩ := List.head?_eq_some_iff.mp hfirst
    have htext : after = g ++ gs.flatten := by
      rw [← flatten_graphemes after, hgs, List.flatten_cons]
    rw [hfirst, Option.map_some] at hnext
    refine .inr ⟨_, hnext, Nat.le_add_right _ _, before ++ g, gs.flatten, ?_, by rw [size_append, hcursor]⟩
    rw [hdraft, htext, List.append_assoc]

theorem backspace_spec (h : Attached c d) (hintact : BackspaceIntact c) :
    ∃ moved c' d', c.backspace = some (moved, c') ∧ Attached c' d' ∧ Erased d d' ∧ c'.history = c.history := by
  rw [backspace]
  cases hindex : c.images.findIdx? (fun image => image.start < c.cursor && c.cursor ≤ image.stop) with
  | some index =>
    obtain ⟨image, a, n, b, c', himage, -, rfl, hremove, hattached, hhistory⟩ := remove_image h hindex
    refine ⟨true, c', a ++ b, ?_, hattached, ⟨a, [.image n image.dataUrl], b, [], rfl, rfl, .inl rfl⟩, hhistory⟩
    simp only [himage, Option.bind_eq_bind, Option.bind_some]
    rw [hremove]
    rfl
  | none =>
    have houtside : ∀ image ∈ c.images, image.stop < c.cursor ∨ c.cursor ≤ image.start := by
      intro image himage
      have := List.findIdx?_eq_none_iff.mp hindex image himage
      simp only [Bool.and_eq_false_iff, decide_eq_false_iff_not] at this
      omega
    rcases previousGrapheme_spec h.cursor with hnone | ⟨previous, hprevious, hle, hboundary⟩
    · exact ⟨false, c, d, by rw [hnone]; rfl, h, .refl d, rfl⟩
    · obtain ⟨c', d', hremove, hattached, herased, hhistory⟩ := remove_outside h hle hboundary h.cursor
        fun image himage => by
          have hbefore := hintact _ hprevious image himage
          have hbehind := houtside image himage
          omega
      refine ⟨true, c', d', ?_, hattached, herased, hhistory⟩
      rw [hprevious]
      show (c.removeRange previous c.cursor).bind _ = _
      rw [hremove]
      rfl

theorem delete_spec (h : Attached c d) (hintact : DeleteIntact c) :
    ∃ moved c' d', c.delete = some (moved, c') ∧ Attached c' d' ∧ Erased d d' ∧ c'.history = c.history := by
  rw [delete]
  cases hindex : c.images.findIdx? (fun image => image.start ≤ c.cursor && c.cursor < image.stop) with
  | some index =>
    obtain ⟨image, a, n, b, c', himage, -, rfl, hremove, hattached, hhistory⟩ := remove_image h hindex
    refine ⟨true, c', a ++ b, ?_, hattached, ⟨a, [.image n image.dataUrl], b, [], rfl, rfl, .inl rfl⟩, hhistory⟩
    simp only [himage, Option.bind_eq_bind, Option.bind_some]
    rw [hremove]
    rfl
  | none =>
    have houtside : ∀ image ∈ c.images, image.stop ≤ c.cursor ∨ c.cursor < image.start := by
      intro image himage
      have := List.findIdx?_eq_none_iff.mp hindex image himage
      simp only [Bool.and_eq_false_iff, decide_eq_false_iff_not] at this
      omega
    rcases nextGrapheme_spec h.cursor with hnone | ⟨next, hnext, hle, hboundary⟩
    · exact ⟨false, c, d, by rw [hnone]; rfl, h, .refl d, rfl⟩
    · obtain ⟨c', d', hremove, hattached, herased, hhistory⟩ := remove_outside h hle h.cursor hboundary
        fun image himage => by
          have hbehind := hintact _ hnext image himage
          have hbefore := houtside image himage
          omega
      refine ⟨true, c', d', ?_, hattached, herased, hhistory⟩
      rw [hnext]
      show (c.removeRange c.cursor next).bind _ = _
      rw [hremove]
      rfl

theorem wordStart_eq (before : Text) : ∃ p q, before = p ++ q ∧ wordStart before = size p := by
  obtain ⟨x, hx⟩ := List.rdropWhile_prefix isWhitespace (l := before)
  obtain ⟨y, hy⟩ := List.rdropWhile_prefix (fun c => !isWhitespace c) (l := before.rdropWhile isWhitespace)
  refine ⟨(before.rdropWhile isWhitespace).rdropWhile fun c => !isWhitespace c, y ++ x, ?_, rfl⟩
  rw [← List.append_assoc, hy, hx]

/-- from a position between atoms on, a part of the draft goes with the images that begin in it; of one that ends
behind it the end stays, as characters -/
theorem remove_cut {rest : List Atom} {stop : Nat} (h : Attached c (a ++ rest))
    (hstop : IsBoundary c.draft stop) (hle : size (docText a) ≤ stop) :
    ∃ c' d', ({ c with images := c.images.filter fun image => image.stop ≤ size (docText a) || stop ≤ image.start } :
        Composer).removeRange (size (docText a)) stop = some c' ∧ Attached c' d' ∧
      Erased (a ++ rest) d' ∧ c'.history = c.history := by
  obtain ⟨before, after, hdraft, rfl⟩ := hstop
  have htext : docText a ++ docText rest = before ++ after := by
    rw [← docText_append, ← h.draft, hdraft]
  obtain ⟨m, rfl, hm⟩ := append_of_le htext hle
  obtain ⟨r, b, hr, hsize, hplaces, front, w, back, hfront, rfl, hend⟩ :=
    exists_cut (⟨m, after, hm, rfl⟩ : IsBoundary (docText rest) (size m)) (size (docText a))
  have hkept : (c.images.filter fun image => image.stop ≤ size (docText a) || size (docText a ++ m) ≤ image.start) =
      imagesFrom 0 a ++ imagesFrom (size (docText a) + size r) (chars w ++ back) := by
    rw [hsize, hplaces, h.images, imagesFrom_append, List.filter_append, Nat.zero_add, size_append]
    refine congrArg₂ (· ++ ·) ?_ ?_
    · refine List.filter_eq_self.mpr fun image himage => ?_
      have := bounds_of_mem himage
      simp only [Bool.or_eq_true, decide_eq_true_eq]
      omega
    · refine List.filter_congr fun image himage => ?_
      have := bounds_of_mem himage
      rw [decide_eq_false (by omega), Bool.false_or]
  obtain ⟨c', hremove, hattached, hhistory⟩ := @attached_removed _ { c with
    images := c.images.filter fun image => image.stop ≤ size (docText a) || size (docText a ++ m) ≤ image.start }
    a (chars w ++ back) r (by rw [← hr, ← docText_append]; exact h.draft) hkept h.clean
  rw [hsize, ← size_append] at hremove
  exact ⟨c', _, hremove, hattached, ⟨a, front, back, w, by rw [hfront], rfl, hend⟩, hhistory⟩

/-- the word goes, with the images that it touches -/
theorem deleteWord_spec (h : Attached c d) :
    ∃ moved c' d', c.deleteWordBeforeCursor = some (moved, c') ∧ Attached c' d' ∧ Erased d d' ∧
      c'.history = c.history := by
  obtain ⟨before, after, hdraft, hcursor⟩ := h.cursor
  obtain ⟨p, q, hbefore, hword⟩ := wordStart_eq before
  have hcut : cut c.cursor c.draft = some (before, after) := by
    rw [hdraft, ← hcursor]
    exact cut_append _ _
  have hle : size p ≤ c.cursor := by
    rw [← hcursor, hbefore, size_append]
    omega
  rw [deleteWordBeforeCursor, hcut, Option.bind_eq_bind, Option.bind_some]
  simp only [hword]
  generalize htouched : (c.images.filter fun image => image.start < c.cursor && size p < image.stop) = touched
  cases hmin : (touched.map (·.start)).min? with
  | none =>
    have hnone : touched = [] := List.map_eq_nil_iff.mp (List.min?_eq_none_iff.mp hmin)
    have houtside : ∀ image ∈ c.images, image.stop ≤ size p ∨ c.cursor ≤ image.start := by
      intro image himage
      have := List.filter_eq_nil_iff.mp (htouched.trans hnone) image himage
      simp only [Bool.and_eq_true, decide_eq_true_eq] at this
      omega
    rw [Option.getD_none]
    by_cases hstart : size p = c.cursor
    · exact ⟨false, c, d, if_pos hstart, h, .refl d, rfl⟩
    · have hkept : (c.images.filter fun image => image.stop ≤ size p || c.cursor ≤ image.start) = c.images := by
        refine List.filter_eq_self.mpr fun image himage => ?_
        simpa using houtside image himage
      obtain ⟨c', d', hremove, hattached, herased, hhistory⟩ := remove_outside h hle
        ⟨p, q ++ after, by rw [hdraft, hbefore, List.append_assoc], rfl⟩ h.cursor houtside
      refine ⟨true, c', d', ?_, hattached, herased, hhistory⟩
      rw [if_neg hstart, hkept, hremove]
      rfl
  | some start =>
    obtain ⟨hmem, -⟩ := List.min?_eq_some_iff.mp hmin
    obtain ⟨image, himage, rfl⟩ := List.mem_map.mp hmem
    obtain ⟨himage, htouches⟩ := List.mem_filter.mp (htouched ▸ himage)
    simp only [Bool.and_eq_true, decide_eq_true_eq] at htouches
    rw [h.images] at himage
    obtain ⟨a, n, b, rfl, hstart, -⟩ := exists_of_mem himage
    rw [Nat.zero_add] at hstart
    obtain ⟨c', d', hremove, hattached, herased, hhistory⟩ := remove_cut h h.cursor (by omega)
    refine ⟨true, c', d', ?_, hattached, herased, hhistory⟩
    rw [Option.getD_some, if_neg (by omega), hstart, hremove]
    rfl

/-! ## moving -/

/-- only the cursor is elsewhere, and the column that moves up and down are for -/
structure Moved (c c' : Composer) : Prop where
  draft : c'.draft = c.draft
  images : c'.images = c.images
  history : c'.history = c.history
  cursor : IsBoundary c.draft c'.cursor

theorem Moved.attached {c' : Composer} (hmoved : Moved c c') (h : Attached c d) : Attached c' d where
  draft := hmoved.draft.trans h.draft
  images := hmoved.images.trans h.images
  cursor := hmoved.draft ▸ hmoved.cursor
  clean := hmoved.draft ▸ h.clean

theorem boundaries (h : Attached c d) (himage : image ∈ c.images) :
    IsBoundary c.draft image.start ∧ IsBoundary c.draft image.stop := by
  rw [h.images] at himage
  obtain ⟨a, n, b, rfl, hstart, hstop⟩ := exists_of_mem himage
  rw [Nat.zero_add] at hstart
  rw [h.draft, hstop, hstart]
  refine ⟨isBoundary_docText _ _, ?_⟩
  have hbehind := isBoundary_docText (a ++ [.image n image.dataUrl]) b
  have hsize : size (docText (a ++ [.image n image.dataUrl])) = size (docText a) + size (marker n) := by
    rw [docText_append, size_append, docText_cons, docText_nil, List.append_nil]
    rfl
  rw [hsize, List.append_assoc] at hbehind
  exact hbehind

theorem boundary_getD (h : Attached c d) {target : Nat} (htarget : IsBoundary c.draft target)
    (p : PastedImage → Bool) {edge : PastedImage → Nat}
    (hedge : ∀ image, edge image = image.start ∨ edge image = image.stop) :
    IsBoundary c.draft (((c.images.find? p).map edge).getD target) := by
  cases hfind : c.images.find? p with
  | none => exact htarget
  | some image =>
    have hboundaries := boundaries h (List.mem_of_find?_eq_some hfind)
    show IsBoundary c.draft (edge image)
    rcases hedge image with he | he <;> rw [he]
    · exact hboundaries.1
    · exact hboundaries.2

theorem Moved.refl (hcursor : IsBoundary c.draft c.cursor) : Moved c c := ⟨rfl, rfl, rfl, hcursor⟩

theorem moveLeft_moved (h : Attached c d) : ∃ moved c', c.moveLeft = some (moved, c') ∧ Moved c c' := by
  rw [moveLeft]
  rcases previousGrapheme_spec h.cursor with hnone | ⟨previous, hprevious, -, hboundary⟩
  · exact ⟨false, c, by rw [hnone]; rfl, .refl h.cursor⟩
  · rw [hprevious]
    exact ⟨true, _, rfl, rfl, rfl, rfl, boundary_getD h hboundary _ fun _ => .inl rfl⟩

theorem moveRight_moved (h : Attached c d) : ∃ moved c', c.moveRight = some (moved, c') ∧ Moved c c' := by
  rw [moveRight]
  rcases nextGrapheme_spec h.cursor with hnone | ⟨next, hnext, -, hboundary⟩
  · exact ⟨false, c, by rw [hnone]; rfl, .refl h.cursor⟩
  · rw [hnext]
    exact ⟨true, _, rfl, rfl, rfl, rfl, boundary_getD h hboundary _ fun _ => .inr rfl⟩

theorem wordForward_boundary {draft pre : Text} {gs : List Text} {post : Text} {target : Option Nat}
    (hdraft : draft = pre ++ (gs.flatten ++ post)) (htarget : ∀ t, target = some t → IsBoundary draft t) :
    ∀ t, wordForward gs (size pre) target = some t → IsBoundary draft t := by
  induction gs generalizing pre target with
  | nil => exact htarget
  | cons g gs ih =>
    have hrest : draft = (pre ++ g) ++ (gs.flatten ++ post) := by simp [hdraft]
    have hnext : IsBoundary draft (size pre + size g) := ⟨pre ++ g, _, hrest, size_append _ _⟩
    rw [wordForward, ← size_append]
    split
    · refine ih hrest fun t ht => ?_
      rw [← Option.some.inj ht, size_append]
      exact hnext
    · split
      · exact htarget
      · exact ih hrest htarget

theorem wordBackward_boundary {draft : Text} {gs : List Text} {post : Text} {target : Option Nat}
    (hdraft : draft = gs.reverse.flatten ++ post) (htarget : ∀ t, target = some t → IsBoundary draft t) :
    ∀ t, wordBackward gs (size gs.reverse.flatten) target = some t → IsBoundary draft t := by
  induction gs generalizing post target with
  | nil => exact htarget
  | cons g gs ih =>
    have hflat : (g :: gs).reverse.flatten = gs.reverse.flatten ++ g := by simp
    have hrest : draft = gs.reverse.flatten ++ (g ++ post) := by rw [hdraft, hflat, List.append_assoc]
    have hsize : size (g :: gs).reverse.flatten - size g = size gs.reverse.flatten := by
      rw [hflat, size_append]
      omega
    rw [wordBackward, hsize]
    split
    · refine ih hrest fun t ht => ?_
      rw [← Option.some.inj ht]
      exact ⟨_, _, hrest, rfl⟩
    · split
      · exact htarget
      · exact ih hrest htarget

theorem moveByWord_moved (h : Attached c d) (forward : Bool) :
    ∃ moved c', c.moveByWord forward = some (moved, c') ∧ Moved c c' := by
  obtain ⟨before, after, hdraft, hcursor⟩ := h.cursor
  have hcut : cut c.cursor c.draft = some (before, after) := by
    rw [hdraft, ← hcursor]
    exact cut_append _ _
  rw [moveByWord, hcut, Option.bind_eq_bind, Option.bind_some]
  simp only
  have htarget : IsBoundary c.draft (if forward = true then (wordForward (graphemes after) c.cursor none).getD (size c.draft)
      else (wordBackward (graphemes before).reverse c.cursor none).getD 0) := by
    cases forward with
    | true =>
      have hforward := @wordForward_boundary _ c.draft before (graphemes after) [] none
        (by rw [hdraft, flatten_graphemes, List.append_nil]) nofun
      rw [if_pos rfl, ← hcursor]
      cases htarget : wordForward (graphemes after) (size before) none with
      | none => exact isBoundary_size _
      | some t => exact hforward t htarget
    | false =>
      have hbackward := @wordBackward_boundary _ c.draft (graphemes before).reverse after none
        (by rw [List.reverse_reverse, flatten_graphemes, hdraft]) nofun
      rw [List.reverse_reverse, flatten_graphemes] at hbackward
      rw [if_neg Bool.false_ne_true, ← hcursor]
      cases htarget : wordBackward (graphemes before).reverse (size before) none with
      | none => exact isBoundary_zero _
      | some t => exact hbackward t htarget
  generalize (if forward = true then (wordForward (graphemes after) c.cursor none).getD (size c.draft)
    else (wordBackward (graphemes before).reverse c.cursor none).getD 0) = target at htarget ⊢
  have hedge := boundary_getD h htarget (·.inside target)
    (fun image => by cases forward <;> simp : ∀ image : PastedImage,
      (if forward = true then image.stop else image.start) = image.start ∨
        (if forward = true then image.stop else image.start) = image.stop)
  generalize (((c.images.find? (·.inside target)).map fun image =>
    if forward = true then image.stop else image.start).getD target) = target at hedge ⊢
  split
  · exact ⟨false, c, rfl, .refl h.cursor⟩
  · exact ⟨true, _, rfl, rfl, rfl, rfl, hedge⟩

theorem moveToLogicalEdge_moved (hcursor : IsBoundary c.draft c.cursor) (stop : Bool) :
    ∃ moved c', c.moveToLogicalEdge stop = some (moved, c') ∧ Moved c c' := by
  have hstays := Moved.refl hcursor
  obtain ⟨before, after, hdraft, hcursor⟩ := hcursor
  have hcut : cut c.cursor c.draft = some (before, after) := by
    rw [hdraft, ← hcursor]
    exact cut_append _ _
  rw [moveToLogicalEdge, hcut, Option.bind_eq_bind, Option.bind_some]
  simp only
  have htarget : IsBoundary c.draft (if stop = true then c.cursor + size (after.takeWhile (· ≠ '\n'))
      else size (before.rdropWhile (· ≠ '\n'))) := by
    cases stop with
    | true =>
      refine ⟨before ++ after.takeWhile (· ≠ '\n'), after.dropWhile (· ≠ '\n'), ?_, by rw [size_append, hcursor]; rfl⟩
      rw [hdraft, List.append_assoc, List.takeWhile_append_dropWhile]
    | false =>
      obtain ⟨m, hm⟩ := List.rdropWhile_prefix (· ≠ '\n') (l := before)
      exact ⟨_, m ++ after, by rw [← List.append_assoc, hm, hdraft], rfl⟩
  generalize (if stop = true then c.cursor + size (after.takeWhile (· ≠ '\n'))
    else size (before.rdropWhile (· ≠ '\n'))) = target at htarget ⊢
  split
  · exact ⟨false, c, rfl, hstays⟩
  · exact ⟨true, _, rfl, rfl, rfl, rfl, htarget⟩

theorem onRow_boundary {rows above below : List Row} {r : Row} {position : Nat} {before after : Text}
    (hon : OnRow rows position above r below before after) : IsBoundary (textOf rows) position := by
  obtain ⟨rfl, htext, rfl, -⟩ := hon
  refine ⟨textOf above ++ before, after ++ ((if r.newline then ['\n'] else []) ++ textOf below), ?_, size_append _ _⟩
  rw [textOf_append, textOf_cons, Row.text, htext]
  simp

theorem moveVertical_moved (h : Attached c d) (direction : Int) :
    ∃ moved c', c.moveVertical direction = some (moved, c') ∧ Moved c c' := by
  obtain ⟨rows, hlaid⟩ := exists_laid c
  obtain ⟨above, r, below, before, after, hon⟩ := hlaid.exists_onRow h.cursor
  have hrow := hlaid.row_eq hon
  have hlength : above.length < rows.length := by
    rw [hon.rows, List.length_append]
    simp
  have hlayout := hlaid.layout_eq hon
  rw [layout, wrapWidth] at hlayout
  rw [moveVertical, hlayout, Option.bind_eq_bind, Option.bind_some]
  simp only [length_placed]
  generalize htarget : (above.length + direction).toNat = target
  by_cases hstays : target = above.length ∨ rows.length ≤ target
  · exact ⟨false, c, if_pos hstays, .refl h.cursor⟩
  · obtain ⟨above', r', below', hrows, hlength⟩ := split_at (Nat.lt_of_not_le (not_or.mp hstays).2)
    have hline : (placed 0 rows)[target]? =
        some ⟨size (textOf above'), size (textOf above') + size r'.clusters.flatten, r'.width⟩ := by
      rw [hrows, ← hlength]
      exact getElem?_placed
    obtain ⟨position, hbyte, hhere, hbelow⟩ := byteAtColumn_onRow hlaid.wrapped hrows
      (c.preferredColumn.getD (terminalTextWidth before))
    have hboundary : IsBoundary c.draft position := by
      rw [← hlaid.text]
      by_cases hswallows : r'.GoesOn below' ∧ r'.width ≤ c.preferredColumn.getD (terminalTextWidth before)
      · obtain ⟨_, _, _, hon'⟩ := hbelow hswallows
        exact onRow_boundary hon'
      · obtain ⟨_, _, hon'⟩ := hhere hswallows
        exact onRow_boundary hon'
    rw [hlaid.text] at hbyte
    rw [if_neg hstays]
    simp only [hline, Option.bind_eq_bind, Option.bind_some, hbyte]
    refine ⟨true, _, rfl, rfl, rfl, rfl, boundary_getD h hboundary _ fun image => ?_⟩
    split
    · exact .inl rfl
    · exact .inr rfl

theorem moveToVisualEdge_moved (hcursor : IsBoundary c.draft c.cursor) (stop : Bool) :
    ∃ moved c', c.moveToVisualEdge stop = some (moved, c') ∧ Moved c c' := by
  obtain ⟨rows, hlaid⟩ := exists_laid c
  obtain ⟨above, r, below, before, after, hon⟩ := hlaid.exists_onRow hcursor
  have hlayout := hlaid.layout_eq hon
  rw [layout, wrapWidth] at hlayout
  have hline : (placed 0 rows)[above.length]? =
      some ⟨size (textOf above), size (textOf above) + size r.clusters.flatten, r.width⟩ := by
    rw [hon.rows]
    exact getElem?_placed
  rw [moveToVisualEdge, hlayout, Option.bind_eq_bind, Option.bind_some]
  simp only [hline, Option.bind_eq_bind, Option.bind_some]
  have htarget : IsBoundary c.draft (if stop = true then size (textOf above) + size r.clusters.flatten
      else size (textOf above)) := by
    have htext : c.draft = textOf above ++ (r.clusters.flatten ++ ((if r.newline then ['\n'] else []) ++ textOf below)) := by
      rw [← hlaid.text, hon.rows, textOf_append, textOf_cons, Row.text, List.append_assoc]
    cases stop with
    | true => exact ⟨textOf above ++ r.clusters.flatten, _, by rw [htext, List.append_assoc], size_append _ _⟩
    | false => exact ⟨textOf above, _, htext, rfl⟩
  generalize (if stop = true then size (textOf above) + size r.clusters.flatten else size (textOf above)) = target
    at htarget ⊢
  split
  · exact ⟨false, c, rfl, .refl hcursor⟩
  · exact ⟨true, _, rfl, rfl, rfl, rfl, htarget⟩

end Composer

end

/-! ## documents -/

/-- what the draft is, and what the draft was that is left for the prompts of the history -/
structure Document where
  atoms : List Atom
  saved : Option (List Atom)

/-- the composer shows the draft, and `left` are the images that the draft had which was left -/
structure Shows (c : Composer) (d : Document) (left : List PastedImage) : Prop where
  attached : Attached c d.atoms
  saved : c.history.browsing.map (·.savedDraft) = d.saved.map docText
  left : ∀ s, d.saved = some s → imagesFrom 0 s = left ∧ '\r' ∉ docText s
  index : ∀ b, c.history.browsing = some b → b.index ≤ c.history.entries.length

/-- the images of the draft that a step leaves for the prompts of the history -/
def leftImages (c c' : Composer) (left : List PastedImage) : List PastedImage :=
  if c.history.browsing = none ∧ c'.history.browsing.isSome = true then c.images else left

variable {left : List PastedImage}

theorem leftImages_browsing {c c' : Composer} (h : c.history.browsing.isSome = true) :
    leftImages c c' left = left := by
  rw [leftImages, if_neg]
  rintro ⟨hnone, -⟩
  rw [hnone] at h
  cases h

theorem leftImages_same {c c' : Composer} (h : c'.history.browsing = c.history.browsing) :
    leftImages c c' left = left := by
  rw [leftImages, if_neg]
  rintro ⟨hnone, hsome⟩
  rw [h, hnone] at hsome
  cases hsome

theorem shows_alone {c : Composer} {atoms : List Atom} (h : Attached c atoms) (hbrowsing : c.history.browsing = none) :
    Shows c ⟨atoms, none⟩ left where
  attached := h
  saved := by rw [hbrowsing]; rfl
  left := nofun
  index := by
    rw [hbrowsing]
    exact nofun

section
variable [UnicodeText]

namespace Composer

variable {d : Document}
variable {c : Composer}

theorem Moved.shows {c' : Composer} (hmoved : Moved c c') (h : Shows c d left) :
    Shows c' d left where
  attached := hmoved.attached h.attached
  saved := hmoved.history ▸ h.saved
  left := h.left
  index := hmoved.history ▸ h.index

theorem attached_detach {atoms : List Atom} (h : Attached c atoms) : Attached c.detach atoms :=
  ⟨h.draft, h.images, h.cursor, h.clean⟩

/-! ## the history -/

theorem replaceDraft_draft (c : Composer) (prompt : Text) :
    (c.replaceDraft prompt).draft = normalizeLineEndings prompt := by
  show (if '\r' ∈ prompt then normalizeLineEndings prompt else prompt) = _
  split
  · rfl
  · rename_i hclean
    exact (normalizeLineEndings_eq hclean).symm

theorem replaceDraft_spec (c : Composer) (prompt : Text) :
    Attached (c.replaceDraft prompt) (chars (normalizeLineEndings prompt)) where
  draft := (replaceDraft_draft c prompt).trans (docText_chars _).symm
  images := (imagesFrom_chars 0 _).symm
  cursor := isBoundary_size _
  clean := by
    rw [replaceDraft_draft]
    exact no_return prompt

theorem replaceDraft_plain (c : Composer) {s : List Atom} (himages : imagesFrom 0 s = []) (hclean : '\r' ∉ docText s) :
    Attached (c.replaceDraft (docText s)) s := by
  have hdraft : (c.replaceDraft (docText s)).draft = docText s := if_neg hclean
  exact ⟨hdraft, himages.symm, isBoundary_size _, by rw [hdraft]; exact hclean⟩

theorem previous_spec (h : Shows c d left) :
    (c.history.previous c.draft = some (none, c.history)) ∨
      ∃ prompt history, c.history.previous c.draft = some (some prompt, history) ∧ prompt ∈ c.history.entries ∧
        history.browsing.isSome = true ∧ Shows (({ c with history } : Composer).replaceDraft prompt)
          ⟨chars (normalizeLineEndings prompt), some (d.saved.getD d.atoms)⟩
          (if c.history.browsing = none then c.images else left) := by
  rw [PromptHistory.previous]
  by_cases hentries : c.history.entries = []
  · exact .inl (if_pos hentries)
  rw [if_neg hentries]
  have hlength := List.length_pos_iff.mpr hentries
  cases hbrowsing : c.history.browsing with
  | none =>
    have hsaved : d.saved = none := by
      have hsaved := h.saved
      rw [hbrowsing] at hsaved
      exact Option.map_eq_none_iff.mp hsaved.symm
    have hlast : c.history.entries[c.history.entries.length - 1]? = some (c.history.entries[c.history.entries.length - 1]) :=
      List.getElem?_eq_getElem (by omega)
    refine .inr ⟨_, _, ?_, List.getElem_mem (by omega), rfl, replaceDraft_spec { c with history :=
      { c.history with browsing := some ⟨c.history.entries.length - 1, c.draft⟩ } }
      (c.history.entries[c.history.entries.length - 1]), ?_, ?_, ?_⟩
    · rw [Option.getD_none, if_neg (by simp only; omega)]
      simp only [hlast]
      rfl
    · rw [hsaved, h.attached.draft]
      rfl
    · rw [hsaved]
      rintro s ⟨⟩
      exact ⟨h.attached.images.symm, h.attached.draft ▸ h.attached.clean⟩
    · rintro b ⟨⟩
      exact Nat.sub_le _ _
  | some b =>
    have hindex := h.index b hbrowsing
    obtain ⟨s, hs, hsaved⟩ : ∃ s, d.saved = some s ∧ docText s = b.savedDraft := by
      have hsaved := h.saved
      rw [hbrowsing] at hsaved
      exact Option.map_eq_some_iff.mp hsaved.symm
    rw [Option.getD_some]
    by_cases hzero : b.index = 0
    · exact .inl (by rw [if_pos hzero, ← hbrowsing])
    · have hprompt : c.history.entries[b.index - 1]? = some (c.history.entries[b.index - 1]) :=
        List.getElem?_eq_getElem (by omega)
      refine .inr ⟨_, _, ?_, List.getElem_mem (by omega), rfl, replaceDraft_spec { c with history :=
        { c.history with browsing := some ⟨b.index - 1, b.savedDraft⟩ } } (c.history.entries[b.index - 1]), ?_, ?_, ?_⟩
      · rw [if_neg hzero, hprompt]
        rfl
      · rw [hs, Option.getD_some, Option.map_some]
        exact congrArg some hsaved.symm
      · rw [hs]
        rintro s' ⟨⟩
        exact h.left s hs
      · rintro b' ⟨⟩
        exact (Nat.sub_le _ _).trans hindex

/-- the step brings back the draft that was left for the prompts of the history -/
def restores (c : Composer) : Bool :=
  c.history.browsing.any fun b => c.history.entries.length ≤ b.index + 1

theorem next_spec (h : Shows c d left) (hbrowsing : c.history.isBrowsing = true)
    (hplain : c.restores = true → left = []) :
    ∃ prompt history, c.history.next = (some prompt, history) ∧
      ((prompt ∈ c.history.entries ∧ Shows (({ c with history } : Composer).replaceDraft prompt)
          ⟨chars (normalizeLineEndings prompt), some (d.saved.getD d.atoms)⟩ left) ∨
        ∃ s, d.saved = some s ∧ Shows (({ c with history } : Composer).replaceDraft prompt) ⟨s, none⟩ left) := by
  obtain ⟨b, hb⟩ := Option.isSome_iff_exists.mp hbrowsing
  obtain ⟨s, hs, hsaved⟩ : ∃ s, d.saved = some s ∧ docText s = b.savedDraft := by
    have hsaved := h.saved
    rw [hb] at hsaved
    exact Option.map_eq_some_iff.mp hsaved.symm
  rw [PromptHistory.next, hb]
  cases hprompt : c.history.entries[b.index + 1]? with
  | some prompt =>
    have hlt := (List.getElem?_eq_some_iff.mp hprompt).1
    refine ⟨prompt, _, by simp only [hprompt], .inl ⟨List.mem_of_getElem? hprompt, replaceDraft_spec { c with history :=
      { c.history with browsing := some ⟨b.index + 1, b.savedDraft⟩ } } prompt, ?_, ?_, ?_⟩⟩
    · rw [hs, Option.getD_some, Option.map_some]
      exact congrArg some hsaved.symm
    · rw [hs]
      rintro s' ⟨⟩
      exact h.left s hs
    · rintro b' ⟨⟩
      exact hlt.le
  | none =>
    have hrestores : c.restores = true := by
      rw [restores, hb]
      exact decide_eq_true (List.getElem?_eq_none_iff.mp hprompt)
    obtain ⟨himages, hclean⟩ := h.left s hs
    have hattached := replaceDraft_plain { c with history := { c.history with browsing := none } }
      (himages.trans (hplain hrestores)) hclean
    rw [hsaved] at hattached
    exact ⟨_, _, by simp only [hprompt], .inr ⟨s, hs, shows_alone hattached rfl⟩⟩

theorem moveUp_spec (h : Shows c d left) :
    ∃ moved c', c.moveUp = some (moved, c') ∧ (Shows c' d (leftImages c c' left) ∨
      ∃ prompt ∈ c.history.entries, Shows c' ⟨chars (normalizeLineEndings prompt), some (d.saved.getD d.atoms)⟩
        (leftImages c c' left)) := by
  obtain ⟨moved, c₁, hstep, hmoved⟩ : ∃ moved c₁,
      (if c.history.isBrowsing then some (false, c) else c.moveVertical (-1)) = some (moved, c₁) ∧ Moved c c₁ := by
    split
    · exact ⟨false, c, rfl, .refl h.attached.cursor⟩
    · obtain ⟨moved, c₁, hstep, hmoved⟩ := moveVertical_moved h.attached (-1)
      exact ⟨moved, c₁, hstep, hmoved⟩
  have h₁ := hmoved.shows h
  have hsame : leftImages c c₁ left = left := leftImages_same (by rw [hmoved.history])
  rw [moveUp, hstep, Option.bind_eq_bind, Option.bind_some]
  cases moved with
  | true => exact ⟨true, c₁, rfl, .inl (by rw [hsame]; exact h₁)⟩
  | false =>
    rcases previous_spec h₁ with hnone | ⟨prompt, history, hsome, hentry, hbrowses, hshows⟩
    · refine ⟨false, c₁, ?_, .inl (by rw [hsame]; exact h₁)⟩
      simp only [Bool.false_eq_true, if_false, hnone]
      rfl
    · rw [hmoved.history] at hentry
      refine ⟨true, ({ c₁ with history } : Composer).replaceDraft prompt, ?_, .inr ⟨prompt, hentry, ?_⟩⟩
      · simp only [Bool.false_eq_true, if_false, hsome]
        rfl
      · have hleft : leftImages c (({ c₁ with history } : Composer).replaceDraft prompt) left =
            if c₁.history.browsing = none then c₁.images else left := by
          rw [leftImages, hmoved.history, hmoved.images]
          exact if_congr (and_iff_left hbrowses) rfl rfl
        rw [hleft]
        exact hshows

theorem moveDown_spec (h : Shows c d left) (hplain : c.restores = true → left = []) :
    ∃ moved c', c.moveDown = some (moved, c') ∧
      (Shows c' d (leftImages c c' left) ∨
        (∃ prompt ∈ c.history.entries, Shows c' ⟨chars (normalizeLineEndings prompt), some (d.saved.getD d.atoms)⟩
          (leftImages c c' left)) ∨
        ∃ s, d.saved = some s ∧ Shows c' ⟨s, none⟩ (leftImages c c' left)) := by
  rw [moveDown]
  by_cases hbrowsing : c.history.isBrowsing = true
  · obtain ⟨prompt, history, hnext, hshows⟩ := next_spec h hbrowsing hplain
    refine ⟨true, _, by rw [if_pos hbrowsing, hnext], .inr ?_⟩
    rw [leftImages_browsing hbrowsing]
    exact hshows.imp_left fun ⟨hentry, hshows⟩ => ⟨prompt, hentry, hshows⟩
  · obtain ⟨moved, c', hstep, hmoved⟩ := moveVertical_moved h.attached 1
    refine ⟨moved, c', by rw [if_neg hbrowsing, hstep], .inl ?_⟩
    rw [leftImages_same (by rw [hmoved.history])]
    exact hmoved.shows h

theorem submit_spec (h : Shows c d left) :
    Shows c.submit.2 d (leftImages c c.submit.2 left) ∨
      Shows c.submit.2 ⟨[], none⟩ (leftImages c c.submit.2 left) := by
  rw [submit]
  simp only
  split
  · exact .inl (by rw [leftImages_same rfl]; exact h)
  · split
    · split
      · exact .inl (by rw [leftImages_same rfl]; exact h)
      · exact .inr (shows_alone ⟨rfl, rfl, isBoundary_size _, List.not_mem_nil⟩ rfl)
    · exact .inl (by rw [leftImages_same rfl]; exact h)

end Composer

/-! ## inputs -/

/-- an event; or the width that the draft was drawn at; or the submission that was taken -/
inductive Input
  | event (e : ComposerEvent)
  | resized (width : Nat)
  | acknowledged (s : Submission)

def Composer.input (c : Composer) : Input → Option Composer
  | .event e => (c.update e).map Prod.snd
  | .resized width => some { c with lastWidth := width }
  | .acknowledged s => some (c.acknowledgeSubmission s)

def Composer.run : Composer → List Input → Option Composer
  | c, [] => some c
  | c, i :: inputs => do
    let c ← c.input i
    c.run inputs

/-! ## keys -/

def KeyEvent.plain (key : KeyEvent) : Bool := !key.release && !key.modifiers.control

/-- Control and nothing else -/
def KeyEvent.commands (key : KeyEvent) : Bool := !key.release && key.modifiers.isControl

def KeyEvent.backspaces (key : KeyEvent) : Bool := key.plain && !key.modifiers.alt && key.code = .backspace

def KeyEvent.deletes (key : KeyEvent) : Bool := key.plain && key.code = .delete

/-- the key takes atoms away -/
def KeyEvent.erases (key : KeyEvent) : Bool := key.plain && (key.code = .backspace || key.code = .delete)

def KeyEvent.goesUp (key : KeyEvent) : Bool :=
  (key.plain && key.code = .up) || (key.commands && key.code = .char 'p')

def KeyEvent.goesDown (key : KeyEvent) : Bool :=
  (key.plain && key.code = .down) || (key.commands && key.code = .char 'n')

def KeyEvent.writes (key : KeyEvent) : Option Text :=
  match key.code with
  | .char character =>
    if key.plain then some [character]
    else if key.commands && character = 'j' then some ['\n'] else none
  | .enter => if key.plain && key.modifiers.shift then some ['\n'] else none
  | _ => none

/-! ## runs -/

/-- the images are where their markers are, and they are what is sent, with the texts between them -/
structure ImagesAttached (c : Composer) (d : Document) : Prop where
  draft : c.draft = docText d.atoms
  images : c.images = imagesFrom 0 d.atoms
  cursor : IsBoundary c.draft c.cursor
  sorted : c.images.Pairwise fun a b => a.stop ≤ b.start
  ranges : ∀ image ∈ c.images, image.start < image.stop ∧ image.stop ≤ size c.draft
  markers : ∀ image ∈ c.images, ∃ n, Atom.image n image.dataUrl ∈ d.atoms ∧
    Offsets.slice c.draft image.start image.stop = some (marker n)
  content : ∀ s, c.submission = some s → s.text = docText (trimDoc d.atoms) ∧
    s.hostContent = some (s.reviews.map InputPart.review ++ parts [] (trimDoc d.atoms))

omit [UnicodeText] in
theorem Attached.imagesAttached {c : Composer} {d : Document} (h : Attached c d.atoms) : ImagesAttached c d where
  draft := h.draft
  images := h.images
  cursor := h.cursor
  sorted := h.images ▸ pairwise_imagesFrom 0 d.atoms
  ranges := by
    intro image himage
    rw [h.images] at himage
    have hbounds := bounds_of_mem himage
    rw [h.draft]
    omega
  markers := by
    intro image himage
    rw [h.images] at himage
    obtain ⟨a, n, b, hd, hstart, hstop⟩ := exists_of_mem himage
    refine ⟨n, by rw [hd]; simp, ?_⟩
    rw [h.draft, hstop, hstart, Nat.zero_add, hd, docText_append, docText_cons]
    exact Offsets.slice_append _ _ _
  content := fun _ hs => hostContent_submission h.draft h.images hs

/-- what an input may do.  An image comes only where it is pasted, or with the draft that was left; a key
writes its own character, takes atoms away, or brings a prompt of the history, which is text -/
inductive Document.Step (c : Composer) : Input → Document → Document → Prop
  | image (dataUrl : String) {a b : List Atom} {s : Option (List Atom)} :
    Step c (.event (.pasteImage dataUrl)) ⟨a ++ b, s⟩ ⟨a ++ .image c.nextImage dataUrl :: b, none⟩
  | paste (text : Text) {a b : List Atom} {s : Option (List Atom)} :
    Step c (.event (.paste text)) ⟨a ++ b, s⟩ ⟨a ++ (chars (normalizeLineEndings text) ++ b), none⟩
  | keep (key : KeyEvent) (d : Document) : Step c (.event (.key key)) d d
  | move (key : KeyEvent) {atoms : List Atom} {s : Option (List Atom)}
    (h : key.goesUp = false ∧ key.goesDown = false) : Step c (.event (.key key)) ⟨atoms, s⟩ ⟨atoms, none⟩
  | write (key : KeyEvent) {text : Text} {a b : List Atom} {s : Option (List Atom)} (h : key.writes = some text) :
    Step c (.event (.key key)) ⟨a ++ b, s⟩ ⟨a ++ (chars (normalizeLineEndings text) ++ b), none⟩
  | erase (key : KeyEvent) {atoms atoms' : List Atom} {s : Option (List Atom)} (h : key.erases = true)
    (herased : Erased atoms atoms') : Step c (.event (.key key)) ⟨atoms, s⟩ ⟨atoms', none⟩
  | browse (key : KeyEvent) {prompt : Text} (d : Document) (h : key.goesUp = true ∨ key.goesDown = true)
    (hprompt : prompt ∈ c.history.entries) :
    Step c (.event (.key key)) d ⟨chars (normalizeLineEndings prompt), some (d.saved.getD d.atoms)⟩
  | restore (key : KeyEvent) {atoms s : List Atom} (h : key.goesDown = true) :
    Step c (.event (.key key)) ⟨atoms, some s⟩ ⟨s, none⟩
  | send (key : KeyEvent) (d : Document) (h : key.code = .enter) : Step c (.event (.key key)) d ⟨[], none⟩
  | resized (width : Nat) (d : Document) : Step c (.resized width) d d
  | record (s : Submission) (d : Document) : Step c (.acknowledged s) d ⟨d.atoms, none⟩
  | clear (s : Submission) (d : Document) : Step c (.acknowledged s) d ⟨[], none⟩

/-- the composer that a run leads to, and what its draft is then; in every state on the way the images are
attached -/
inductive Leads : Composer → Document → List Input → Composer → Document → Prop
  | nil {c : Composer} {d : Document} (hattached : ImagesAttached c d) : Leads c d [] c d
  | cons {c c' c'' : Composer} {i : Input} {d d' d'' : Document} {inputs : List Input} (hattached : ImagesAttached c d)
    (hstep : c.input i = some c') (hdocument : Document.Step c i d d') (hrest : Leads c' d' inputs c'' d'') :
    Leads c d (i :: inputs) c'' d''

theorem Leads.last {c c' : Composer} {d d' : Document} {inputs : List Input} (h : Leads c d inputs c' d') :
    ImagesAttached c' d' := by
  induction h with
  | nil hattached => exact hattached
  | cons _ _ _ _ ih => exact ih

variable {inputs : List Input}

theorem Leads.attached {c c' : Composer} {d d' : Document} (h : Leads c d inputs c' d') :
    ImagesAttached c d := by
  cases h with
  | nil hattached => exact hattached
  | cons hattached => exact hattached

theorem Leads.step {c c'' : Composer} {d d'' : Document} {i : Input} {inputs : List Input}
    (h : Leads c d (i :: inputs) c'' d'') :
    ImagesAttached c d ∧ ∃ c' d', c.input i = some c' ∧ Document.Step c i d d' ∧ Leads c' d' inputs c'' d'' := by
  cases h with
  | cons hattached hstep hdocument hrest => exact ⟨hattached, _, _, hstep, hdocument, hrest⟩

theorem Leads.after {c c'' : Composer} {d d'' : Document} (first : List Input)
    (h : Leads c d (first ++ inputs) c'' d'') :
    ∃ c' d', c.run first = some c' ∧ Leads c' d' inputs c'' d'' := by
  induction first generalizing c d with
  | nil => exact ⟨c, d, rfl, h⟩
  | cons i first ih =>
    obtain ⟨-, c₁, d₁, hstep, -, hrest⟩ := h.step
    obtain ⟨c', d', hrun, hleads⟩ := ih hrest
    refine ⟨c', d', ?_, hleads⟩
    rw [Composer.run, hstep]
    exact hrun

/-- the step takes no part of a marker, and does not bring back a draft that had images; `left` are the
images of the draft that was left for the prompts of the history -/
def Intact (c : Composer) (left : List PastedImage) : Input → Prop
  | .event (.key key) =>
    (key.backspaces = true → c.BackspaceIntact) ∧ (key.deletes = true → c.DeleteIntact) ∧
      (key.goesDown = true → c.restores = true → left = [])
  | _ => True

def AllIntact : Composer → List PastedImage → List Input → Prop
  | _, _, [] => True
  | c, left, i :: inputs => Intact c left i ∧ ∀ c', c.input i = some c' → AllIntact c' (leftImages c c' left) inputs

/-! ## one input -/

def KeyStep (c : Composer) (key : KeyEvent) (d : Document) (left : List PastedImage)
    (r : Option (ComposerUpdate × Composer)) : Prop :=
  ∃ u c' d', r = some (u, c') ∧ Document.Step c (.event (.key key)) d d' ∧ Shows c' d' (leftImages c c' left)

variable {c : Composer} {d : Document} (key : KeyEvent)

theorem keyStep_unchanged (h : Shows c d left) : KeyStep c key d left (some (.unchanged, c)) :=
  ⟨_, c, d, rfl, .keep key d, by rw [leftImages_same rfl]; exact h⟩

theorem keyStep_moved (h : Shows c d left) (hkey : key.goesUp = false ∧ key.goesDown = false)
    {p : Option (Bool × Composer)}
    (hp : ∃ moved c', p = some (moved, c') ∧ Composer.Moved c.detach c') :
    KeyStep c key d left (Composer.fromChange p) := by
  obtain ⟨moved, c', rfl, hmoved⟩ := hp
  refine ⟨.fromChange moved, c', ⟨d.atoms, none⟩, rfl, .move key hkey, ?_⟩
  exact shows_alone (hmoved.attached (Composer.attached_detach h.attached)) (by rw [hmoved.history]; rfl)

theorem keyStep_erase (hkey : key.erases = true) {p : Option (Bool × Composer)}
    (hp : ∃ moved c' atoms, p = some (moved, c') ∧ Attached c' atoms ∧ Erased d.atoms atoms ∧
      c'.history = c.detach.history) : KeyStep c key d left (Composer.fromChange p) := by
  obtain ⟨moved, c', atoms, rfl, hattached, herased, hhistory⟩ := hp
  exact ⟨.fromChange moved, c', ⟨atoms, none⟩, rfl, .erase key hkey herased,
    shows_alone hattached (by rw [hhistory]; rfl)⟩

theorem keyStep_write (h : Shows c d left) {text : Text} (hkey : key.writes = some text) :
    KeyStep c key d left (Composer.changed (c.detach.insert text)) := by
  obtain ⟨a, b, c', hd, hstep, hattached, hhistory⟩ := Composer.insert_spec (Composer.attached_detach h.attached) text
  obtain ⟨atoms, saved⟩ := d
  obtain rfl : atoms = a ++ b := hd
  exact ⟨.fromChange true, c', ⟨_, none⟩, by rw [hstep]; rfl, .write key hkey,
    shows_alone hattached (by rw [hhistory]; rfl)⟩

theorem keyStep_up (h : Shows c d left) (hkey : key.goesUp = true) :
    KeyStep c key d left (Composer.fromChange c.moveUp) := by
  obtain ⟨moved, c', hstep, hshows⟩ := Composer.moveUp_spec h
  rw [hstep]
  rcases hshows with hshows | ⟨prompt, hentry, hshows⟩
  · exact ⟨_, c', d, rfl, .keep key d, hshows⟩
  · exact ⟨_, c', _, rfl, .browse key d (.inl hkey) hentry, hshows⟩

theorem keyStep_down (h : Shows c d left) (hkey : key.goesDown = true) (hplain : c.restores = true → left = []) :
    KeyStep c key d left (Composer.fromChange c.moveDown) := by
  obtain ⟨moved, c', hstep, hshows⟩ := Composer.moveDown_spec h hplain
  rw [hstep]
  rcases hshows with hshows | ⟨prompt, hentry, hshows⟩ | ⟨s, hs, hshows⟩
  · exact ⟨_, c', d, rfl, .keep key d, hshows⟩
  · exact ⟨_, c', _, rfl, .browse key d (.inr hkey) hentry, hshows⟩
  · obtain ⟨atoms, saved⟩ := d
    obtain rfl : saved = some s := hs
    exact ⟨_, c', _, rfl, .restore key hkey, hshows⟩

theorem keyStep_submit (h : Shows c d left) (hkey : key.code = .enter) : KeyStep c key d left (some c.submit) := by
  rcases Composer.submit_spec h with hshows | hshows
  · exact ⟨_, _, d, rfl, .keep key d, hshows⟩
  · exact ⟨_, _, _, rfl, .send key d hkey, hshows⟩

theorem handleControl_step (h : Shows c d left) (hcommands : key.commands = true)
    (hplain : key.goesDown = true → c.restores = true → left = []) :
    KeyStep c key d left (c.handleControl key.code) := by
  have hdetached := Composer.attached_detach h.attached
  have hcontrol : key.plain = false := by
    have hboth := (Bool.and_eq_true _ _).mp hcommands
    have hmodifiers : key.modifiers = ⟨true, false, false, false⟩ := of_decide_eq_true hboth.2
    simp [KeyEvent.plain, hmodifiers]
  unfold Composer.handleControl
  split
  · rename_i hcode
    exact keyStep_moved key h (by simp [KeyEvent.goesUp, KeyEvent.goesDown, hcode, hcontrol])
      (Composer.moveToLogicalEdge_moved hdetached.cursor false)
  · rename_i hcode
    exact keyStep_moved key h (by simp [KeyEvent.goesUp, KeyEvent.goesDown, hcode, hcontrol])
      (Composer.moveLeft_moved hdetached)
  · rename_i hcode
    exact keyStep_moved key h (by simp [KeyEvent.goesUp, KeyEvent.goesDown, hcode, hcontrol])
      (Composer.moveToLogicalEdge_moved hdetached.cursor true)
  · rename_i hcode
    exact keyStep_moved key h (by simp [KeyEvent.goesUp, KeyEvent.goesDown, hcode, hcontrol])
      (Composer.moveRight_moved hdetached)
  · exact ⟨_, c, d, rfl, .keep key d, by rw [leftImages_same rfl]; exact h⟩
  · rename_i hcode
    exact keyStep_write key h (by simp [KeyEvent.writes, hcode, hcontrol, hcommands])
  · rename_i hcode
    have hdown : key.goesDown = true := by simp [KeyEvent.goesDown, hcode, hcommands]
    exact keyStep_down key h hdown (hplain hdown)
  · rename_i hcode
    exact keyStep_up key h (by simp [KeyEvent.goesUp, hcode, hcommands])
  · exact keyStep_unchanged key h

theorem handleKey_step (h : Shows c d left) (hintact : Intact c left (.event (.key key))) :
    KeyStep c key d left (c.handleKey key) := by
  obtain ⟨hbackspace, hdelete, hdown⟩ := hintact
  have hdetached := Composer.attached_detach h.attached
  rw [Composer.handleKey]
  split
  · exact keyStep_unchanged key h
  rename_i hrelease
  split
  · rename_i hcontrol
    exact handleControl_step key h (by simp [KeyEvent.commands, hcontrol, hrelease]) hdown
  rename_i hcommands
  split
  · exact keyStep_unchanged key h
  rename_i hcontrol
  have hkey : key.plain = true := by simp [KeyEvent.plain, hrelease, hcontrol]
  have hcommands : key.commands = false := by simp [KeyEvent.commands, hcommands]
  have hstill : key.code ≠ .up → key.code ≠ .down → key.goesUp = false ∧ key.goesDown = false := by
    intro hup hdown
    simp [KeyEvent.goesUp, KeyEvent.goesDown, hcommands, hup, hdown]
  cases hcode : key.code with
  | char character =>
    have hdetaches : Composer.detachesHistory key = true := by simp [Composer.detachesHistory, hcode]
    have hstill := hstill (by simp [hcode]) (by simp [hcode])
    simp only [hdetaches, if_true]
    split
    · exact keyStep_moved key h hstill (Composer.moveByWord_moved hdetached false)
    · split
      · exact keyStep_moved key h hstill (Composer.moveByWord_moved hdetached true)
      · exact keyStep_write key h (by simp [KeyEvent.writes, hcode, hkey])
  | enter =>
    by_cases hshift : key.modifiers.shift = true
    · have hdetaches : Composer.detachesHistory key = true := by simp [Composer.detachesHistory, hcode, hshift]
      simp only [hdetaches, if_true, hshift]
      exact keyStep_write key h (by simp [KeyEvent.writes, hcode, hkey, hshift])
    · have hstays : Composer.detachesHistory key = false := by simp [Composer.detachesHistory, hcode, hshift]
      simp only [hstays, if_neg hshift, Bool.false_eq_true, if_false]
      exact keyStep_submit key h hcode
  | left =>
    have hdetaches : Composer.detachesHistory key = true := by simp [Composer.detachesHistory, hcode]
    simp only [hdetaches, if_true]
    exact keyStep_moved key h (hstill (by simp [hcode]) (by simp [hcode])) (Composer.moveLeft_moved hdetached)
  | right =>
    have hdetaches : Composer.detachesHistory key = true := by simp [Composer.detachesHistory, hcode]
    simp only [hdetaches, if_true]
    exact keyStep_moved key h (hstill (by simp [hcode]) (by simp [hcode])) (Composer.moveRight_moved hdetached)
  | up =>
    have hstays : Composer.detachesHistory key = false := by simp [Composer.detachesHistory, hcode]
    simp only [hstays, Bool.false_eq_true, if_false]
    exact keyStep_up key h (by simp [KeyEvent.goesUp, hkey, hcode])
  | down =>
    have hstays : Composer.detachesHistory key = false := by simp [Composer.detachesHistory, hcode]
    have hgoes : key.goesDown = true := by simp [KeyEvent.goesDown, hkey, hcode]
    simp only [hstays, Bool.false_eq_true, if_false]
    exact keyStep_down key h hgoes (hdown hgoes)
  | home =>
    have hdetaches : Composer.detachesHistory key = true := by simp [Composer.detachesHistory, hcode]
    simp only [hdetaches, if_true]
    exact keyStep_moved key h (hstill (by simp [hcode]) (by simp [hcode]))
      (Composer.moveToVisualEdge_moved hdetached.cursor false)
  | endKey =>
    have hdetaches : Composer.detachesHistory key = true := by simp [Composer.detachesHistory, hcode]
    simp only [hdetaches, if_true]
    exact keyStep_moved key h (hstill (by simp [hcode]) (by simp [hcode]))
      (Composer.moveToVisualEdge_moved hdetached.cursor true)
  | backspace =>
    have hdetaches : Composer.detachesHistory key = true := by simp [Composer.detachesHistory, hcode]
    have herases : key.erases = true := by simp [KeyEvent.erases, hkey, hcode]
    simp only [hdetaches, if_true]
    split
    · exact keyStep_erase key herases (Composer.deleteWord_spec hdetached)
    · rename_i halt
      exact keyStep_erase key herases (Composer.backspace_spec hdetached (hbackspace (by
        simp [KeyEvent.backspaces, hkey, hcode, halt])))
  | delete =>
    have hdetaches : Composer.detachesHistory key = true := by simp [Composer.detachesHistory, hcode]
    simp only [hdetaches, if_true]
    exact keyStep_erase key (by simp [KeyEvent.erases, hkey, hcode])
      (Composer.delete_spec hdetached (hdelete (by simp [KeyEvent.deletes, hkey, hcode])))
  | other =>
    have hstays : Composer.detachesHistory key = false := by simp [Composer.detachesHistory, hcode]
    simp only [hstays, Bool.false_eq_true, if_false]
    exact keyStep_unchanged key h

omit key in
theorem input_step (h : Shows c d left) (i : Input) (hintact : Intact c left i) :
    ∃ c' d', c.input i = some c' ∧ Document.Step c i d d' ∧ Shows c' d' (leftImages c c' left) := by
  have hdetached := Composer.attached_detach h.attached
  cases i with
  | event e =>
    cases e with
    | key key =>
      obtain ⟨u, c', d', hstep, hdocument, hshows⟩ := handleKey_step key h hintact
      exact ⟨c', d', congrArg (Option.map Prod.snd) hstep, hdocument, hshows⟩
    | paste text =>
      obtain ⟨a, b, c', hd, hstep, hattached, hhistory⟩ := Composer.insert_spec hdetached text
      obtain ⟨atoms, saved⟩ := d
      obtain rfl : atoms = a ++ b := hd
      refine ⟨c', _, ?_, .paste text, shows_alone hattached (by rw [hhistory]; rfl)⟩
      exact congrArg (Option.map Prod.snd) (congrArg Composer.changed hstep)
    | pasteImage dataUrl =>
      obtain ⟨a, b, c', hd, hstep, hattached, hhistory⟩ := Composer.insertImage_spec hdetached dataUrl
      obtain ⟨atoms, saved⟩ := d
      obtain rfl : atoms = a ++ b := hd
      refine ⟨c', _, ?_, .image dataUrl, shows_alone hattached (by rw [hhistory]; rfl)⟩
      exact congrArg (Option.map Prod.snd) (congrArg Composer.changed hstep)
  | resized width =>
    have hsame : leftImages c { c with lastWidth := width } left = left := leftImages_same rfl
    refine ⟨_, d, rfl, .resized width d, ?_⟩
    rw [hsame]
    exact ⟨⟨h.attached.draft, h.attached.images, h.attached.cursor, h.attached.clean⟩, h.saved, h.left, h.index⟩
  | acknowledged s =>
    have hrecorded : Attached { c with history := c.history.record s.text } d.atoms :=
      ⟨h.attached.draft, h.attached.images, h.attached.cursor, h.attached.clean⟩
    show ∃ c' d', some (c.acknowledgeSubmission s) = some c' ∧ _
    rw [Composer.acknowledgeSubmission]
    split
    · exact ⟨_, _, rfl, .clear s d, shows_alone ⟨rfl, rfl, isBoundary_size _, List.not_mem_nil⟩ rfl⟩
    · exact ⟨_, _, rfl, .record s d, shows_alone hrecorded rfl⟩

omit key in
theorem run_steps (h : Shows c d left) (hintact : AllIntact c left inputs) :
    ∃ c' d', c.run inputs = some c' ∧ Leads c d inputs c' d' := by
  have hattached : ImagesAttached c d := h.attached.imagesAttached
  induction inputs generalizing c d left with
  | nil => exact ⟨c, d, rfl, .nil hattached⟩
  | cons i inputs ih =>
    obtain ⟨c₁, d₁, hstep, hdocument, h₁⟩ := input_step h i hintact.1
    obtain ⟨c', d', hrun, hleads⟩ := ih h₁ (hintact.2 c₁ hstep) h₁.attached.imagesAttached
    refine ⟨c', d', ?_, .cons hattached hstep hdocument hleads⟩
    rw [Composer.run, hstep]
    exact hrun

/-- the composer does not panic, and in every state of the run every image is attached or taken away -/
def StaysAttached (inputs : List Input) : Prop :=
  ∃ c d, Composer.new.run inputs = some c ∧ Leads Composer.new ⟨[], none⟩ inputs c d

end

/-! ## an accent behind a marker -/

def accent : Char := Char.ofNat 0x301

/-- the accent joins what is before it, and takes no column -/
@[reducible] def accentText : UnicodeText :=
  ⟨fun _ c => c = accent, fun g => (g.filter (· ≠ accent)).length, Char.isAlphanum⟩

def backspaceKey : KeyEvent := ⟨.backspace, ⟨false, false, false, false⟩, false⟩

def attachedComposer : Composer :=
  { Composer.new with draft := marker 1, images := [⟨0, 10, "data:"⟩], nextImage := 2, cursor := 10 }

def plainKey (code : KeyCode) : Input := .event (.key ⟨code, ⟨false, false, false, false⟩, false⟩)

/-- a shell command, which becomes a prompt of the history, and then an image -/
def commandThenImage : List Input :=
  [plainKey (.char '!'), plainKey (.char 'l'), plainKey .enter, .event (.pasteImage "data:")]

def afterCommand : Composer := { attachedComposer with history := ⟨[['!', 'l']], none⟩ }

def browsingComposer : Composer :=
  { Composer.new with draft := ['!', 'l'], cursor := 2, history := ⟨[['!', 'l']], some ⟨0, marker 1⟩⟩ }

def restoredComposer : Composer :=
  { Composer.new with draft := marker 1, cursor := 10, history := ⟨[['!', 'l']], none⟩ }

theorem up_leaves {d d' : Document} (hstep : Document.Step afterCommand (plainKey .up) d d')
    (hbefore : ImagesAttached afterCommand d) (hafter : ImagesAttached browsingComposer d') :
    d'.saved = some (d.saved.getD d.atoms) := by
  cases hstep with
  | keep => exact absurd (hbefore.images.trans hafter.images.symm) (by decide)
  | move _ h => exact absurd h (by decide)
  | write _ h => cases h
  | erase _ h => cases h
  | browse => rfl
  | restore _ h => cases h
  | send _ _ h => cases h

theorem down_loses {d d' : Document} {n : Nat} {dataUrl : String} {a b : List Atom}
    (hsaved : d.saved = some (a ++ .image n dataUrl :: b))
    (hstep : Document.Step browsingComposer (plainKey .down) d d') (hbefore : ImagesAttached browsingComposer d) :
    ¬ImagesAttached restoredComposer d' := by
  intro hafter
  cases hstep with
  | keep => exact absurd (hbefore.draft.trans hafter.draft.symm) (by decide)
  | move _ h => exact absurd h (by decide)
  | write _ h => cases h
  | erase _ h => cases h
  | browse _ _ _ hprompt =>
    obtain rfl := List.mem_singleton.mp hprompt
    exact absurd (hafter.draft.trans (docText_chars _)) (by decide)
  | restore =>
    obtain rfl := Option.some.inj hsaved
    have himages := hafter.images
    rw [imagesFrom_append, imagesFrom_image] at himages
    simp [restoredComposer, Composer.new] at himages
  | send _ _ h => cases h

end Orvek.Tui
