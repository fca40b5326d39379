import Orvek.Tui.Composer

/-!
# Drafts as characters and images

What a draft is about: characters and pasted images, one after the other.  The text of an image is its marker.

* `Atom`, `docText`, `imagesFrom`   the text of a draft, and the ranges of the images in it;
* `exists_split`       a position is between two atoms, or inside a marker;
* `exists_cut`         what is left behind a position; of an image that is cut, characters are left;
* `parts`              what is sent of a draft, and that `hostContent` is this.
-/

set_option linter.unusedSectionVars false

namespace Orvek.Tui
open Texts Offsets

variable {image : PastedImage} (start : Nat)

inductive Atom
  | char (c : Char)
  | image (n : Nat) (dataUrl : String)
  deriving DecidableEq

def Atom.text : Atom → Text
  | .char c => [c]
  | .image n _ => marker n

def docText (d : List Atom) : Text := d.flatMap Atom.text

def chars (l : Text) : List Atom := l.map Atom.char

/-- the images, where the first atom stands at a position -/
def imagesFrom : Nat → List Atom → List PastedImage
  | _, [] => []
  | start, .char c :: d => imagesFrom (start + size [c]) d
  | start, .image n dataUrl :: d =>
    ⟨start, start + size (marker n), dataUrl⟩ :: imagesFrom (start + size (marker n)) d

theorem docText_cons (x : Atom) (d : List Atom) : docText (x :: d) = x.text ++ docText d := List.flatMap_cons ..

theorem docText_append (a b : List Atom) : docText (a ++ b) = docText a ++ docText b := List.flatMap_append

@[simp] theorem docText_nil : docText [] = [] := rfl

@[simp] theorem docText_chars (l : Text) : docText (chars l) = l := by
  induction l with
  | nil => rfl
  | cons c l ih =>
    show [c] ++ docText (chars l) = _
    rw [ih]
    rfl

theorem size_marker (n : Nat) : 0 < size (marker n) := size_pos (by simp [marker])

attribute [grind =] imagesFrom

@[simp] theorem imagesFrom_chars (l : Text) : imagesFrom start (chars l) = [] := by
  induction l generalizing start with
  | nil => rfl
  | cons c l ih => exact ih _

theorem imagesFrom_append (a b : List Atom) :
    imagesFrom start (a ++ b) = imagesFrom start a ++ imagesFrom (start + size (docText a)) b := by
  induction a generalizing start with
  | nil => rfl
  | cons x a ih =>
    rw [docText_cons, size_append, ← Nat.add_assoc]
    cases x with
    | char c => exact ih _
    | image n dataUrl => exact congrArg (_ :: ·) (ih _)

theorem imagesFrom_image (n : Nat) (dataUrl : String) (b : List Atom) :
    imagesFrom start (.image n dataUrl :: b) =
      ⟨start, start + size (marker n), dataUrl⟩ :: imagesFrom (start + size (marker n)) b := rfl

variable {d : List Atom}

theorem bounds_of_mem {start : Nat} (h : image ∈ imagesFrom start d) :
    start ≤ image.start ∧ image.start < image.stop ∧ image.stop ≤ start + size (docText d) := by
  induction d generalizing start with
  | nil => cases h
  | cons x d ih =>
    rw [docText_cons, size_append]
    cases x with
    | char c =>
      have hrest := ih h
      show _ ∧ _ ∧ _ ≤ start + (size [c] + _)
      omega
    | image n dataUrl =>
      have hpos := size_marker n
      show _ ∧ _ ∧ _ ≤ start + (size (marker n) + _)
      rcases List.mem_cons.mp h with rfl | h
      · simp only
        omega
      · have hrest := ih h
        omega

theorem imagesFrom_shift (start k : Nat) (d : List Atom) :
    (imagesFrom start d).map (·.shift (· + k)) = imagesFrom (start + k) d := by
  induction d generalizing start with
  | nil => rfl
  | cons x d ih =>
    cases x with
    | char c => exact (ih _).trans (congrArg (imagesFrom · d) (by omega))
    | image n dataUrl =>
      rw [imagesFrom_image, imagesFrom_image, List.map_cons, ih, PastedImage.shift]
      simp only [Nat.add_right_comm start]

theorem imagesFrom_unshift (start k : Nat) (d : List Atom) :
    (imagesFrom (start + k) d).map (·.shift (· - k)) = imagesFrom start d := by
  rw [← imagesFrom_shift, List.map_map]
  refine (List.map_congr_left fun image _ => ?_).trans (List.map_id _)
  simp [PastedImage.shift]

theorem imagesFrom_split {start : Nat} {x z : List PastedImage} (h : imagesFrom start d = x ++ image :: z) :
    ∃ a n b, d = a ++ .image n image.dataUrl :: b ∧ x = imagesFrom start a ∧
      image.start = start + size (docText a) ∧ image.stop = image.start + size (marker n) ∧
      z = imagesFrom image.stop b := by
  induction d generalizing start x with
  | nil => exact absurd h (by simp [imagesFrom])
  | cons y d ih =>
    cases y with
    | char c =>
      obtain ⟨a, n, b, rfl, hx, hstart, hstop, hz⟩ := ih h
      refine ⟨.char c :: a, n, b, rfl, hx, ?_, hstop, hz⟩
      rw [hstart, docText_cons, size_append, Nat.add_assoc]
      rfl
    | image n dataUrl =>
      rw [imagesFrom_image] at h
      cases x with
      | nil =>
        obtain ⟨rfl, rfl⟩ := List.cons.inj h
        exact ⟨[], n, d, rfl, rfl, rfl, rfl, rfl⟩
      | cons first x =>
        obtain ⟨rfl, hrest⟩ := List.cons.inj h
        obtain ⟨a, m, b, rfl, hx, hstart, hstop, hz⟩ := ih hrest
        refine ⟨.image n dataUrl :: a, m, b, rfl, by rw [imagesFrom_image, hx], ?_, hstop, hz⟩
        rw [hstart, docText_cons, size_append, Nat.add_assoc]
        rfl

theorem exists_of_mem {start : Nat} (h : image ∈ imagesFrom start d) :
    ∃ a n b, d = a ++ .image n image.dataUrl :: b ∧ image.start = start + size (docText a) ∧
      image.stop = image.start + size (marker n) := by
  obtain ⟨x, z, hsplit⟩ := List.append_of_mem h
  obtain ⟨a, n, b, hd, -, hstart, hstop, -⟩ := imagesFrom_split hsplit
  exact ⟨a, n, b, hd, hstart, hstop⟩

/-! ## positions -/

attribute [grind =] Atom.text

theorem exists_split {position : Nat} (h : IsBoundary (docText d) position) :
    (∃ a b, d = a ++ b ∧ size (docText a) = position) ∨
      ∃ a n dataUrl b x y, d = a ++ .image n dataUrl :: b ∧ marker n = x ++ y ∧ x ≠ [] ∧ y ≠ [] ∧
        size (docText a) + size x = position := by
  obtain ⟨u, v, htext, rfl⟩ := h
  induction d generalizing u with
  | nil =>
    obtain ⟨rfl, -⟩ := List.append_eq_nil_iff.mp htext.symm
    exact .inl ⟨[], [], rfl, rfl⟩
  | cons z d ih =>
    rw [docText_cons] at htext
    have hnil : u = [] → (∃ a b, z :: d = a ++ b ∧ size (docText a) = size u) := by
      rintro rfl
      exact ⟨[], z :: d, rfl, rfl⟩
    rcases List.append_eq_append_iff.mp htext with ⟨m, rfl, hm⟩ | ⟨m, hm, -⟩
    · rcases ih m hm with ⟨a, b, rfl, hsize⟩ | ⟨a, n, dataUrl, b, x, y, rfl, hmarker, hx, hy, hsize⟩
      · refine .inl ⟨z :: a, b, rfl, ?_⟩
        rw [docText_cons, size_append, hsize, size_append]
      · refine .inr ⟨z :: a, n, dataUrl, b, x, y, rfl, hmarker, hx, hy, ?_⟩
        rw [docText_cons, size_append, Nat.add_assoc, hsize, size_append]
    · by_cases hu : u = []
      · exact .inl (hnil hu)
      by_cases hm' : m = []
      · refine .inl ⟨[z], d, rfl, ?_⟩
        rw [docText_cons, hm, hm']
        simp
      cases z with
      | char c =>
        obtain ⟨w, u, rfl⟩ := List.exists_cons_of_ne_nil hu
        obtain ⟨w', m, rfl⟩ := List.exists_cons_of_ne_nil hm'
        have hlength := congrArg List.length hm
        simp [Atom.text] at hlength
      | image n dataUrl =>
        exact .inr ⟨[], n, dataUrl, d, u, m, rfl, hm, hu, hm', Nat.zero_add _⟩

/-- nothing is left of these atoms, or the end of the marker of the last one -/
def MarkerEnd (r : List Atom) (w : Text) : Prop :=
  w = [] ∨ ∃ r' n dataUrl v, r = r' ++ [.image n dataUrl] ∧ marker n = v ++ w

/-- behind a position there are atoms again, if what is left of a marker is characters -/
theorem exists_cut {position : Nat} (h : IsBoundary (docText d) position) (start : Nat) :
    ∃ r b, docText d = r ++ docText b ∧ size r = position ∧
      imagesFrom (start + position) b = (imagesFrom start d).filter (fun image => start + position ≤ image.start) ∧
      ∃ front w back, d = front ++ back ∧ b = chars w ++ back ∧ MarkerEnd front w := by
  have hbefore : ∀ a, size (docText a) ≤ position →
      (imagesFrom start a).filter (fun image => start + position ≤ image.start) = [] := by
    intro a hsize
    refine List.filter_eq_nil_iff.mpr fun image himage => ?_
    have := bounds_of_mem himage
    simp only [decide_eq_true_eq]
    omega
  have hafter : ∀ a from', start + position ≤ from' →
      (imagesFrom from' a).filter (fun image => start + position ≤ image.start) = imagesFrom from' a := by
    intro a from' hle
    refine List.filter_eq_self.mpr fun image himage => ?_
    have := bounds_of_mem himage
    simp only [decide_eq_true_eq]
    omega
  rcases exists_split h with ⟨a, b, rfl, hsize⟩ | ⟨a, n, dataUrl, b, x, y, rfl, hmarker, hx, hy, hsize⟩
  · refine ⟨docText a, b, docText_append a b, hsize, ?_, a, [], b, rfl, rfl, .inl rfl⟩
    rw [imagesFrom_append, List.filter_append, hbefore a hsize.le, hafter b _ (by omega), hsize, List.nil_append]
  · have hpos := size_pos hx
    refine ⟨docText a ++ x, chars y ++ b, ?_, ?_, ?_, a ++ [.image n dataUrl], y, b, by simp, rfl,
      .inr ⟨a, n, dataUrl, x, rfl, hmarker⟩⟩
    · rw [docText_append, docText_cons, docText_append, docText_chars, Atom.text, hmarker]
      simp
    · rw [size_append, hsize]
    · have hsizes : size (marker n) = size x + size y := by rw [hmarker, size_append]
      rw [imagesFrom_append, imagesFrom_append, imagesFrom_chars, docText_chars, List.nil_append, imagesFrom_image,
        List.filter_append, hbefore a (by omega), List.nil_append,
        List.filter_cons_of_neg (by simp only [decide_eq_true_eq]; omega), hafter b _ (by omega)]
      congr 1
      omega

/-! ## what is sent -/

def textParts (text : Text) : List InputPart := if text = [] then [] else [.text text]

/-- the images, and the texts between them; `pending` has been read of the next text -/
def parts : Text → List Atom → List InputPart
  | pending, [] => textParts pending
  | pending, .char c :: d => parts (pending ++ [c]) d
  | pending, .image _ dataUrl :: d => textParts pending ++ .image dataUrl :: parts [] d

theorem textPart_eq (pre pending post : Text) :
    textPart (pre ++ (pending ++ post)) (size pre) (size pre + size pending) = some (textParts pending) := by
  rw [textPart]
  by_cases hpending : pending = []
  · rw [hpending, if_neg (by simp [size_nil]), textParts, if_pos rfl]
  · have hpos := size_pos hpending
    rw [if_pos (by omega), Offsets.slice_append, textParts, if_neg hpending]
    rfl

theorem imageParts_eq (pre pending : Text) (d : List Atom) :
    imageParts (pre ++ (pending ++ docText d)) (size pre) (imagesFrom (size pre + size pending) d) =
      some (parts pending d) := by
  induction d generalizing pre pending with
  | nil =>
    have hall := textPart_eq pre pending []
    rw [docText_nil, imagesFrom, imageParts, parts, ← hall, size_append, List.append_nil]
  | cons x d ih =>
    cases x with
    | char c =>
      have hrest := ih pre (pending ++ [c])
      rw [size_append, ← Nat.add_assoc, List.append_assoc] at hrest
      rw [docText_cons]
      exact hrest
    | image n dataUrl =>
      have hbefore := textPart_eq pre pending (docText (.image n dataUrl :: d))
      have hrest := ih (pre ++ pending ++ marker n) []
      rw [List.nil_append, size_nil, Nat.add_zero, size_append, size_append] at hrest
      rw [imagesFrom_image, imageParts, hbefore, Option.bind_eq_bind, Option.bind_some, docText_cons, Atom.text,
        ← List.append_assoc pending, ← List.append_assoc pre, ← List.append_assoc pre, hrest]
      rfl

def Atom.isSpace : Atom → Bool
  | .char c => isWhitespace c
  | .image _ _ => false

def trimDoc (d : List Atom) : List Atom := (d.dropWhile Atom.isSpace).rdropWhile Atom.isSpace

theorem imagesFrom_spaces (h : ∀ x ∈ d, x.isSpace = true) : imagesFrom start d = [] := by
  induction d generalizing start with
  | nil => rfl
  | cons x d ih =>
    obtain ⟨hx, hd⟩ := List.forall_mem_cons.mp h
    cases x with
    | char c => exact ih _ hd
    | image n dataUrl => cases hx

theorem trimStart_docText (d : List Atom) : trimStart (docText d) = docText (d.dropWhile Atom.isSpace) := by
  induction d with
  | nil => rfl
  | cons x d ih =>
    rw [docText_cons]
    cases x with
    | char c =>
      show ([c] ++ docText d).dropWhile isWhitespace = _
      rw [List.singleton_append]
      by_cases hc : isWhitespace c = true
      · rw [List.dropWhile_cons_of_pos hc, List.dropWhile_cons_of_pos (show Atom.isSpace (.char c) = true from hc)]
        exact ih
      · rw [List.dropWhile_cons_of_neg hc, List.dropWhile_cons_of_neg (show ¬Atom.isSpace (.char c) = true from hc)]
        rfl
    | image n dataUrl =>
      rw [List.dropWhile_cons_of_neg (show ¬Atom.isSpace (.image n dataUrl) = true from Bool.false_ne_true)]
      exact List.dropWhile_cons_of_neg (by decide)

theorem trimEnd_docText (d : List Atom) : trimEnd (docText d) = docText (d.rdropWhile Atom.isSpace) := by
  induction d using List.reverseRecOn with
  | nil => rfl
  | append_singleton d x ih =>
    rw [docText_append, List.rdropWhile_concat]
    cases x with
    | char c =>
      show (docText d ++ [c]).rdropWhile isWhitespace = docText (if isWhitespace c = true then _ else _)
      rw [List.rdropWhile_concat]
      split
      · exact ih
      · exact (docText_append d [.char c]).symm
    | image n dataUrl =>
      have hmarker : docText [.image n dataUrl] = (['[', 'I', 'm', 'a', 'g', 'e', ' ', '#'] ++ Nat.toDigits 10 n) ++ [']'] :=
        List.append_nil _
      rw [if_neg (show ¬Atom.isSpace (.image n dataUrl) = true from Bool.false_ne_true), docText_append, hmarker,
        ← List.append_assoc, trimEnd, List.rdropWhile_concat, if_neg (by decide)]

theorem exists_trimDoc (d : List Atom) : ∃ a b, d = a ++ (trimDoc d ++ b) ∧ (∀ x ∈ a, x.isSpace = true) ∧
    (∀ x ∈ b, x.isSpace = true) ∧ d.dropWhile Atom.isSpace = trimDoc d ++ b := by
  have hback : d.dropWhile Atom.isSpace = trimDoc d ++ (d.dropWhile Atom.isSpace).rtakeWhile Atom.isSpace :=
    (List.rdropWhile_append_rtakeWhile ..).symm
  refine ⟨d.takeWhile Atom.isSpace, _, ?_, fun x hx => List.mem_takeWhile_imp hx, fun x hx => List.mem_rtakeWhile_imp hx,
    hback⟩
  rw [← hback, List.takeWhile_append_dropWhile]

theorem attachReviews_eq (reviews : List Digest) (s : Submission) :
    (reviews.foldl Submission.attachReview s).text = s.text ∧ (reviews.foldl Submission.attachReview s).images = s.images := by
  induction reviews generalizing s with
  | nil => exact ⟨rfl, rfl⟩
  | cons digest reviews ih =>
    have hone : (s.attachReview digest).text = s.text ∧ (s.attachReview digest).images = s.images := by
      rw [Submission.attachReview]
      split <;> exact ⟨rfl, rfl⟩
    rw [List.foldl_cons, (ih _).1, (ih _).2]
    exact hone

/-- **what is sent of a draft**: its images in their order and the texts between them, without the white space around -/
theorem hostContent_submission {c : Composer} (hdraft : c.draft = docText d)
    (himages : c.images = imagesFrom 0 d) {s : Submission} (h : c.submission = some s) :
    s.text = docText (trimDoc d) ∧ s.hostContent = some (s.reviews.map InputPart.review ++ parts [] (trimDoc d)) := by
  obtain ⟨a, b, hd, ha, hb, hback⟩ := exists_trimDoc d
  have htrim : trim (docText d) = docText (trimDoc d) := by rw [trim, trimStart_docText, trimEnd_docText, trimDoc]
  have hsize : size (docText d) = size (docText a) + (size (docText (trimDoc d)) + size (docText b)) := by
    conv_lhs => rw [hd, docText_append, docText_append, size_append, size_append]
  have hstart : size (docText d) - size (trimStart (docText d)) = size (docText a) := by
    rw [trimStart_docText, hback, docText_append, size_append, hsize]
    omega
  have hplaces : imagesFrom 0 d = imagesFrom (0 + size (docText a)) (trimDoc d) := by
    conv_lhs => rw [hd]
    rw [imagesFrom_append, imagesFrom_append, imagesFrom_spaces _ ha, imagesFrom_spaces _ hb, List.nil_append,
      List.append_nil]
  have hkept : (imagesFrom 0 d).filter (fun image => size (docText a) ≤ image.start &&
      image.stop ≤ size (docText a) + size (docText (trimDoc d))) = imagesFrom 0 d := by
    refine List.filter_eq_self.mpr fun image himage => ?_
    rw [hplaces] at himage
    have := bounds_of_mem himage
    simp only [Bool.and_eq_true, decide_eq_true_eq]
    omega
  rw [Composer.submission, hdraft, himages, htrim] at h
  simp only [hstart, hkept] at h
  split at h
  · cases h
  · obtain rfl := Option.some.inj h
    obtain ⟨htext, himages⟩ := attachReviews_eq c.reviews ⟨docText (trimDoc d),
      (imagesFrom 0 d).map (·.shift (· - size (docText a))), []⟩
    refine ⟨htext, ?_⟩
    have hparts := imageParts_eq [] [] (trimDoc d)
    rw [Submission.hostContent, htext, himages, hplaces, imagesFrom_unshift]
    exact congrArg (Option.map _) hparts

end Orvek.Tui
