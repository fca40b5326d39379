import Orvek.Context.Data
import Orvek.Lib.Checks

/-!
# Bitmap pages

A text is cut into rows, the rows into pages, and every page is painted and stored as a PNG.

* `rowEnd`              where the row that starts at an offset ends;
* `render`              the pages of a text, or the reason why it has none;
* `renderToArtifacts`   the same pages, stored;
* `render_covers`       the pages are not empty, follow each other, and cover the text.

What the renderer meets outside of the program is in `RenderHost`: the font and the PNG encoder,
the cancellation signal, and the faults of the artifact store, each asked at a call site that is
passed at most once.
-/

set_option linter.unusedSectionVars false

namespace Orvek
open Json Checks

variable {l : List UInt8}

/-! ## geometry -/

def renderWidth : Nat := 1568
def renderMaxHeight : Nat := 1568
def cellWidth : Nat := 8
def cellHeight : Nat := 16
def fontHeight : Nat := 13
def renderMargin : Nat := 16
def headerRows : Nat := 3
def footerRows : Nat := 1
def renderColumns : Nat := (renderWidth - 2 * renderMargin) / cellWidth
def tabColumns : Nat := 8
def rowBytes : Nat := renderWidth / 8
def patchPixels : Nat := 32

def RenderProfile.id : RenderProfile → String
  | .patchAligned8On16 => "ascii-8on16-patch-v1"
  | .patchAligned8On16Repeated => "ascii-8on16-patch-repeat2-v1"

def RenderProfile.lineRepeat : RenderProfile → Nat
  | .patchAligned8On16 => 1
  | .patchAligned8On16Repeated => 2

structure RenderLimits where
  maxPages : Nat
  maxPngBytes : Nat
  deriving DecidableEq, Repr

/-- the rows of text on a full page -/
def bodyRows (profile : RenderProfile) : Nat :=
  (renderMaxHeight / cellHeight - headerRows - footerRows) / profile.lineRepeat

/-- `usize::next_multiple_of` -/
def nextMultipleOf (n m : Nat) : Nat := (n + m - 1) / m * m

def pageHeight (profile : RenderProfile) (rows : Nat) : Nat :=
  min (nextMultipleOf ((headerRows + rows * profile.lineRepeat + footerRows) * cellHeight) patchPixels)
    renderMaxHeight

/-! ## the outside -/

inductive RenderError where
  | cancelled
  | artifact (error : ArtifactError)
  deriving DecidableEq, Repr

inductive Ineligible where
  | unsupported | limit | cancelled
  deriving DecidableEq, Repr

/-- where the cancellation signal is read while one segment is rendered -/
inductive CancelSite where
  | segment
  | scan (offset : Nat)
  | page (index : Nat)
  | rendered
  | stored (index : Nat)
  deriving DecidableEq, Repr

structure RenderHost where
  /-- the signal at a site of the rendering of one segment -/
  cancelled : Nat → CancelSite → Bool
  /-- a failure of the file system: of the text of a segment, or of one of its pages -/
  writeFault : Nat → Option Nat → Option ArtifactError
  maxArtifactBytes : Nat
  font : List UInt8
  /-- the PNG of these pixels and this height, or nothing when it does not fit the limit -/
  encodePng : List UInt8 → Nat → Nat → Option (List UInt8)

section
variable [Sha256]

/-- `ArtifactStore::put`: an artifact is named by the digest of its bytes -/
def putArtifact (host : RenderHost) (bytes : List UInt8) (fault : Option ArtifactError) :
    Except ArtifactError PublicArtifactRef := do
  refuseIf (host.maxArtifactBytes < bytes.length) (.limit host.maxArtifactBytes)
  match fault with
  | some e => .error e
  | none => .ok ⟨Digest.of bytes⟩

/-! ## rows -/

def newline : UInt8 := 10
def carriageReturn : UInt8 := 13
def tab : UInt8 := 9

/-- the bytes of the first row of a text, counted from a column -/
def rowLength : List UInt8 → Nat → Nat
  | [], _ => 0
  | b :: rest, column =>
    if b = newline then 1
    else if b = carriageReturn then 2
    else if column = renderColumns then 0
    else if b = tab then 1 + rowLength rest (column + (tabColumns - column % tabColumns))
    else 1 + rowLength rest (column + 1)

def rowEnd (text : List UInt8) (start : Nat) : Nat := start + rowLength (text.drop start) 0

/-- the end of a page and the number of its rows, with at most `budget` more rows -/
def pageRows (text : List UInt8) : Nat → Nat → Nat → Nat × Nat
  | 0, stop, rows => (stop, rows)
  | budget + 1, stop, rows =>
    if stop < text.length then pageRows text budget (rowEnd text stop) (rows + 1) else (stop, rows)

/-! ## painting -/

def paintGlyph (host : RenderHost) (pixels : List UInt8) (byte : UInt8) (column row : Nat) :
    List UInt8 :=
  let glyph := (byte.toNat - ' '.toNat) * fontHeight
  let y := row * cellHeight + 1
  (List.range fontHeight).foldl (fun pixels i =>
    pixels.modify ((y + i) * rowBytes + (renderMargin / 8 + column))
      fun pixel => pixel &&& ~~~ (host.font.getD (glyph + i) 0)) pixels

def paintRow (host : RenderHost) (row : Nat) : List UInt8 → Nat → List UInt8 → List UInt8
  | [], _, pixels => pixels
  | b :: rest, column, pixels =>
    if b = carriageReturn ∨ b = newline then pixels
    else if b = tab then paintRow host row rest (column + (tabColumns - column % tabColumns)) pixels
    else paintRow host row rest (column + 1) (paintGlyph host pixels b column row)

/-- the rows of a page, each one as often as the profile repeats it -/
def paintRows (host : RenderHost) (text : List UInt8) (repeats : Nat) :
    Nat → Nat → Nat → List UInt8 → List UInt8
  | 0, _, _, pixels => pixels
  | count + 1, row, offset, pixels =>
    let next := rowEnd text offset
    paintRows host text repeats count (row + 1) next <|
      (List.range repeats).foldl (fun pixels copy =>
        paintRow host (headerRows + row * repeats + copy) ((text.take next).drop offset) 0 pixels) pixels

def paintPage (host : RenderHost) (text : List UInt8) (source : Digest) (profile : RenderProfile)
    (page start stop rows : Nat) : List UInt8 :=
  let blank := List.replicate (rowBytes * pageHeight profile rows) (0xff : UInt8)
  let heading := "SOURCE " ++ source.display
  let locator := "PROFILE " ++ profile.id ++ " | PAGE " ++ showUsize (page + 1) ++ " | BYTES " ++
    showUsize start ++ ".." ++ showUsize stop
  let pixels := paintRow host 1 (strBytes locator) 0 (paintRow host 0 (strBytes heading) 0 blank)
  let separator := 2 * cellHeight + cellHeight / 2
  let first := separator * rowBytes + renderMargin / 8
  let last := separator * rowBytes + (renderWidth - renderMargin) / 8
  let pixels := pixels.take first ++ List.replicate (last - first) 0 ++ pixels.drop last
  paintRows host text profile.lineRepeat rows 0 start pixels

/-! ## pages -/

structure RenderedPage where
  start : Nat
  stop : Nat
  width : Nat
  height : Nat
  png : List UInt8
  deriving DecidableEq, Repr

/-- printable ASCII, line feeds and tabs, and a carriage return only before a line feed -/
def supported (b : UInt8) (next : Option UInt8) : Bool :=
  (32 ≤ b.toNat && b.toNat ≤ 126) || b == newline || b == tab ||
    (b == carriageReturn && next == some newline)

def scan (host : RenderHost) (seg : Nat) : Nat → List UInt8 → Except Ineligible Unit
  | _, [] => .ok ()
  | offset, b :: rest => do
    refuseIf (offset % 1024 = 0 ∧ host.cancelled seg (.scan offset) = true) .cancelled
    refuseIf (supported b rest.head? = false) .unsupported
    scan host seg (offset + 1) rest

/-- the loop over the pages; `left` pages may still be made -/
def renderPages (host : RenderHost) (seg : Nat) (text : List UInt8) (source : Digest)
    (profile : RenderProfile) (limits : RenderLimits) :
    Nat → Nat → Nat → List RenderedPage → Except Ineligible (List RenderedPage)
  | 0, start, _, pages =>
    if start < text.length then
      if host.cancelled seg (.page pages.length) then .error .cancelled else .error .limit
    else .ok pages
  | left + 1, start, pngBytes, pages =>
    if start < text.length then do
      refuseIf (host.cancelled seg (.page pages.length) = true) .cancelled
      let (stop, rows) := pageRows text (bodyRows profile) start 0
      let height := pageHeight profile rows
      match host.encodePng (paintPage host text source profile pages.length start stop rows) height
          (limits.maxPngBytes - pngBytes) with
      | none => .error .limit
      | some png => do
        refuseIf (usizeMax < pngBytes + png.length) .limit
        renderPages host seg text source profile limits left stop (pngBytes + png.length)
          (pages ++ [⟨start, stop, renderWidth, height, png⟩])
    else .ok pages

def render (host : RenderHost) (seg : Nat) (text : List UInt8) (source : Digest)
    (profile : RenderProfile) (limits : RenderLimits) : Except Ineligible (List RenderedPage) := do
  refuseIf (text = [] ∨ limits.maxPages = 0 ∨ limits.maxPngBytes = 0) .limit
  scan host seg 0 text
  renderPages host seg text source profile limits limits.maxPages 0 0 []

/-! ## storing -/

/-- the little-endian bytes of a `usize` -/
def leBytes (n : Nat) : List UInt8 := (List.range 8).map fun i => UInt8.ofNat (n / 256 ^ i)

def rendererDigest (host : RenderHost) (profile : RenderProfile) : Digest :=
  Digest.of (strBytes "orvek-context-bitmap-renderer-v1\x00" ++ strBytes profile.id ++
    leBytes renderWidth ++ leBytes renderMaxHeight ++ leBytes cellWidth ++ leBytes cellHeight ++
    leBytes profile.lineRepeat ++ host.font)

def storePages (host : RenderHost) (seg : Nat) :
    Nat → List RenderedPage → Except RenderError (List BitmapPage)
  | _, [] => .ok []
  | index, page :: rest => do
    refuseIf (host.cancelled seg (.stored index) = true) .cancelled
    match putArtifact host page.png (host.writeFault seg (some index)) with
    | .error e => .error (.artifact e)
    | .ok artifact => do
      let stored ← storePages host seg (index + 1) rest
      pure (⟨⟨page.start, page.stop⟩, page.width, page.height, artifact.digest, artifact⟩ :: stored)

def renderToArtifacts (host : RenderHost) (seg : Nat) (text : String) (profile : RenderProfile)
    (limits : RenderLimits) : Except RenderError (Option BitmapManifest) :=
  let source := Digest.ofStr text
  match render host seg (strBytes text) source profile limits with
  | .error .cancelled => .error .cancelled
  | .error _ => .ok none
  | .ok pages => do
    refuseIf (host.cancelled seg .rendered = true) .cancelled
    match putArtifact host (strBytes text) (host.writeFault seg none) with
    | .error e => .error (.artifact e)
    | .ok sourceArtifact => do
      let stored ← storePages host seg 0 pages
      pure (some
        { version := 1
          renderer := rendererDigest host profile
          profile := profile
          source := source
          sourceArtifact := sourceArtifact
          pages := stored })

end

/-! ## a row is not empty and stays inside the text -/

/-- every byte can be rendered -/
def Renderable : List UInt8 → Prop
  | [] => True
  | b :: rest => supported b rest.head? = true ∧ Renderable rest

theorem Renderable.drop (h : Renderable l) (n : Nat) : Renderable (l.drop n) := by
  induction n generalizing l with
  | zero => exact h
  | succ n ih =>
    cases l with
    | nil => trivial
    | cons b l => exact ih h.2

variable {host : RenderHost}

theorem scan_ok {seg offset : Nat} {u : Unit} (h : scan host seg offset l = .ok u) : Renderable l := by
  induction l generalizing offset with
  | nil => trivial
  | cons b l ih =>
    obtain ⟨_, h⟩ := refuseIf_bind h
    obtain ⟨hb, h⟩ := refuseIf_bind h
    exact ⟨by simpa using hb, ih h⟩

theorem rowLength_le (h : Renderable l) (column : Nat) : rowLength l column ≤ l.length := by
  induction l generalizing column with
  | nil => exact Nat.le_refl _
  | cons b l ih =>
    rw [List.length_cons]
    unfold rowLength
    split
    · omega
    · rename_i hnl
      split
      · -- a carriage return is followed by a line feed
        rename_i hcr
        have hb := h.1
        subst hcr
        cases l with
        | nil => exact absurd hb (by decide)
        | cons c l => rw [List.length_cons]; omega
      · split
        · omega
        · split
          · have := ih h.2 (column + (tabColumns - column % tabColumns)); omega
          · have := ih h.2 (column + 1); omega

theorem rowLength_pos {b : UInt8} : 0 < rowLength (b :: l) 0 := by
  unfold rowLength
  split
  · omega
  · split
    · omega
    · rw [if_neg (by decide)]
      split <;> omega

section
variable {text : List UInt8} (hr : Renderable text)
include hr

theorem lt_rowEnd {start : Nat} (h : start < text.length) : start < rowEnd text start := by
  unfold rowEnd
  rw [List.drop_eq_getElem_cons h]
  have := rowLength_pos (b := text[start]) (l := text.drop (start + 1))
  omega

theorem rowEnd_le {start : Nat} (h : start ≤ text.length) : rowEnd text start ≤ text.length := by
  have hle := rowLength_le (hr.drop start) 0
  rw [List.length_drop] at hle
  unfold rowEnd
  omega

theorem pageRows_bounds (budget stop rows : Nat) (h : stop ≤ text.length) :
    stop ≤ (pageRows text budget stop rows).1 ∧ (pageRows text budget stop rows).1 ≤ text.length := by
  induction budget generalizing stop rows with
  | zero => exact ⟨Nat.le_refl _, h⟩
  | succ budget ih =>
    unfold pageRows
    split
    · rename_i hlt
      have h1 := lt_rowEnd hr hlt
      obtain ⟨h2, h3⟩ := ih (rowEnd text stop) (rows + 1) (rowEnd_le hr h)
      exact ⟨by omega, h3⟩
    · exact ⟨Nat.le_refl _, h⟩

theorem lt_pageRows {start : Nat} (h : start < text.length) (profile : RenderProfile) :
    start < (pageRows text (bodyRows profile) start 0).1 := by
  obtain ⟨budget, hb⟩ : ∃ budget, bodyRows profile = budget + 1 := by
    cases profile
    · exact ⟨93, rfl⟩
    · exact ⟨46, rfl⟩
  rw [hb, pageRows, if_pos h]
  have h1 := lt_rowEnd hr h
  have h2 := (pageRows_bounds hr budget (rowEnd text start) (0 + 1) (rowEnd_le hr (Nat.le_of_lt h))).1
  omega

end

/-! ## the pages cover the text -/

/-- ranges that follow each other from `a` to `b`, none of them empty -/
def Chain : Nat → List HistoryRange → Nat → Prop
  | a, [], b => a = b
  | a, r :: rest, b => r.start = a ∧ a < r.stop ∧ Chain r.stop rest b

theorem Chain.concat {a b c : Nat} {l : List HistoryRange} (h : Chain a l b) (hbc : b < c) :
    Chain a (l ++ [⟨b, c⟩]) c := by
  induction l generalizing a with
  | nil =>
    obtain rfl : a = b := h
    exact ⟨rfl, hbc, rfl⟩
  | cons r l ih => exact ⟨h.1, h.2.1, ih h.2.2⟩

theorem Chain.le {a b : Nat} {l : List HistoryRange} (h : Chain a l b) : a ≤ b := by
  induction l generalizing a with
  | nil => exact Nat.le_of_eq h
  | cons r l ih =>
    have := ih h.2.2
    have := h.2.1
    omega

def RenderedPage.range (p : RenderedPage) : HistoryRange := ⟨p.start, p.stop⟩

theorem pageHeight_pos (profile : RenderProfile) (rows : Nat) : pageHeight profile rows ≠ 0 := by
  unfold pageHeight nextMultipleOf
  simp only [headerRows, footerRows, cellHeight, patchPixels, renderMaxHeight]
  omega

/-- what is known of the pages made so far, up to `start` -/
structure PagesTo (pages : List RenderedPage) (start : Nat) : Prop where
  chain : Chain 0 (pages.map RenderedPage.range) start
  sized : ∀ p ∈ pages, p.width ≠ 0 ∧ p.height ≠ 0

theorem PagesTo.push {pages : List RenderedPage} {start stop : Nat} (h : PagesTo pages start)
    (hlt : start < stop) (profile : RenderProfile) (rows : Nat) (png : List UInt8) :
    PagesTo (pages ++ [⟨start, stop, renderWidth, pageHeight profile rows, png⟩]) stop where
  chain := by
    rw [List.map_append]
    exact h.chain.concat hlt
  sized := by
    intro p hp
    rcases List.mem_append.mp hp with hp | hp
    · exact h.sized p hp
    · rw [List.mem_singleton.mp hp]
      have hwidth : renderWidth ≠ 0 := by decide
      exact ⟨hwidth, pageHeight_pos profile rows⟩

theorem renderPages_covers {seg : Nat} {text : List UInt8} {source : Digest} {profile : RenderProfile}
    {limits : RenderLimits} (hr : Renderable text) (left start pngBytes : Nat)
    (pages result : List RenderedPage) (hs : start ≤ text.length) (hp : PagesTo pages start)
    (h : renderPages host seg text source profile limits left start pngBytes pages = .ok result) :
    PagesTo result text.length := by
  induction left generalizing start pngBytes pages with
  | zero =>
    unfold renderPages at h
    split at h
    · split at h <;> cases h
    · cases h
      obtain rfl : start = text.length := by omega
      exact hp
  | succ left ih =>
    unfold renderPages at h
    split at h
    · rename_i hlt
      obtain ⟨_, h⟩ := refuseIf_bind h
      dsimp only at h
      split at h
      · cases h
      · obtain ⟨_, h⟩ := refuseIf_bind h
        exact ih _ _ _ (pageRows_bounds hr _ _ _ hs).2 (hp.push (lt_pageRows hr hlt profile) _ _ _) h
    · cases h
      obtain rfl : start = text.length := by omega
      exact hp

/-- **The pages of a text follow each other and cover it.** -/
theorem render_covers {seg : Nat} {text : List UInt8} {source : Digest} {profile : RenderProfile}
    {limits : RenderLimits} {pages : List RenderedPage}
    (h : render host seg text source profile limits = .ok pages) :
    text ≠ [] ∧ PagesTo pages text.length := by
  obtain ⟨hne, h⟩ := refuseIf_bind h
  obtain ⟨_, hscan, h⟩ := bind_ok h
  refine ⟨fun he => hne (Or.inl he), ?_⟩
  exact renderPages_covers (scan_ok hscan) _ 0 0 [] pages (Nat.zero_le _)
    ⟨rfl, fun _ h => nomatch h⟩ h

/-! ## what is stored -/

section
variable [Sha256]
variable {host : RenderHost}

theorem putArtifact_ok {bytes : List UInt8} {fault : Option ArtifactError} {artifact : PublicArtifactRef}
    (h : putArtifact host bytes fault = .ok artifact) : artifact.digest = Digest.of bytes := by
  obtain ⟨_, h⟩ := refuseIf_bind h
  split at h
  · cases h
  · cases h
    rfl

def StoredFrom (p : RenderedPage) (q : BitmapPage) : Prop :=
  q.source = p.range ∧ q.width = p.width ∧ q.height = p.height ∧ q.digest = q.artifact.digest

theorem storePages_ok {seg index : Nat} {pages : List RenderedPage} {stored : List BitmapPage}
    (h : storePages host seg index pages = .ok stored) : List.Forall₂ StoredFrom pages stored := by
  induction pages generalizing index stored with
  | nil => cases h; exact List.Forall₂.nil
  | cons page pages ih =>
    obtain ⟨_, h⟩ := refuseIf_bind h
    split at h
    · cases h
    · obtain ⟨rest, hrest, h⟩ := bind_ok h
      cases h
      exact List.Forall₂.cons ⟨rfl, rfl, rfl, rfl⟩ (ih hrest)

/-- what a rendered bitmap satisfies -/
structure Renders (text : String) (b : BitmapManifest) : Prop where
  source : b.source = Digest.ofStr text
  artifact : b.sourceArtifact.digest = Digest.ofStr text
  nonempty : strBytes text ≠ []
  pages : ∃ rendered, PagesTo rendered (strBytes text).length ∧
    List.Forall₂ StoredFrom rendered b.pages

theorem renderToArtifacts_ok {seg : Nat} {text : String} {profile : RenderProfile} {limits : RenderLimits}
    {b : BitmapManifest} (h : renderToArtifacts host seg text profile limits = .ok (some b)) :
    Renders text b := by
  unfold renderToArtifacts at h
  dsimp only at h
  split at h
  · cases h
  · cases h
  · rename_i pages hpages
    obtain ⟨hne, hcover⟩ := render_covers hpages
    obtain ⟨_, h⟩ := refuseIf_bind h
    split at h
    · cases h
    · rename_i artifact hput
      obtain ⟨stored, hstored, h⟩ := bind_ok h
      cases h
      exact ⟨rfl, putArtifact_ok hput, hne, pages, hcover, storePages_ok hstored⟩

end

end Orvek
