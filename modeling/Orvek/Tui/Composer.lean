import Mathlib.Data.List.Sort
import Orvek.Ids
import Orvek.Tui.Layout

/-!
# The composer

The draft is a text with a cursor, and images that were pasted into it; each image is the range of the draft
where its marker stands.  All positions are bytes.  `none` is a panic: a position inside a character, a range
that is not within the draft.

* `PromptHistory`      the prompts of the session, and the draft that was left for them;
* `Composer`           the draft, the images, and where the cursor is;
* `insert` …           what edits the draft, and what moves the cursor;
* `submission`, `hostContent`   what is sent of a draft;
* `handleKey`, `update`         the events.
-/

set_option linter.unusedSectionVars false

namespace Orvek.Tui
open Texts Offsets Clusters Json

/-! ## prompts -/

structure Browsing where
  index : Nat
  savedDraft : Text
  deriving DecidableEq

structure PromptHistory where
  entries : List Text
  browsing : Option Browsing
  deriving DecidableEq

def maxRecentPrompts : Nat := 100

namespace PromptHistory

def record (h : PromptHistory) (prompt : Text) : PromptHistory :=
  ⟨(if h.entries.length = maxRecentPrompts then h.entries.drop 1 else h.entries) ++ [prompt], none⟩

def previous (h : PromptHistory) (draft : Text) : Option (Option Text × PromptHistory) :=
  if h.entries = [] then some (none, h)
  else
    let browsing := h.browsing.getD ⟨h.entries.length, draft⟩
    if browsing.index = 0 then some (none, { h with browsing := some browsing })
    else do
      let prompt ← h.entries[browsing.index - 1]?
      return (some prompt, { h with browsing := some ⟨browsing.index - 1, browsing.savedDraft⟩ })

def next (h : PromptHistory) : Option Text × PromptHistory :=
  match h.browsing with
  | none => (none, h)
  | some browsing =>
    match h.entries[browsing.index + 1]? with
    | some prompt => (some prompt, { h with browsing := some ⟨browsing.index + 1, browsing.savedDraft⟩ })
    | none => (some browsing.savedDraft, { h with browsing := none })

def isBrowsing (h : PromptHistory) : Bool := h.browsing.isSome

def detach (h : PromptHistory) : PromptHistory := { h with browsing := none }

end PromptHistory

/-! ## drafts and submissions -/

structure PastedImage where
  start : Nat
  stop : Nat
  dataUrl : String
  deriving DecidableEq

structure Submission where
  text : Text
  images : List PastedImage
  reviews : List Digest
  deriving DecidableEq

def Submission.attachReview (s : Submission) (digest : Digest) : Submission :=
  if digest ∈ s.reviews then s else { s with reviews := s.reviews ++ [digest] }

inductive InputPart
  | review (digest : Digest)
  | text (text : Text)
  | image (imageUrl : String)
  deriving DecidableEq

def textPart (text : Text) (cursor stop : Nat) : Option (List InputPart) :=
  if cursor < stop then (Offsets.slice text cursor stop).map fun piece => [.text piece] else some []

/-- the loop over the images, and the text after the last one -/
def imageParts (text : Text) : Nat → List PastedImage → Option (List InputPart)
  | cursor, [] => textPart text cursor (size text)
  | cursor, image :: images => do
    let before ← textPart text cursor image.start
    let rest ← imageParts text image.stop images
    return before ++ .image image.dataUrl :: rest

def Submission.hostContent (s : Submission) : Option (List InputPart) :=
  (imageParts s.text 0 s.images).map (s.reviews.map InputPart.review ++ ·)

structure Composer where
  draft : Text
  images : List PastedImage
  reviews : List Digest
  nextImage : Nat
  cursor : Nat
  preferredColumn : Option Nat
  lastWidth : Nat
  history : PromptHistory
  deriving DecidableEq

def Composer.new : Composer where
  draft := []
  images := []
  reviews := []
  nextImage := 1
  cursor := 0
  preferredColumn := none
  lastWidth := 78
  history := ⟨[], none⟩

inductive ComposerEffect
  | submit (s : Submission)
  | runShell (command : Text)
  | openDraftEditor
  deriving DecidableEq

structure ComposerUpdate where
  effect : Option ComposerEffect
  changed : Bool
  deriving DecidableEq

def ComposerUpdate.unchanged : ComposerUpdate := ⟨none, false⟩

def ComposerUpdate.fromChange (changed : Bool) : ComposerUpdate := ⟨none, changed⟩

/-- each `\r`, with the `\n` after it if there is one, is a line feed -/
def normalizeLineEndings : Text → Text
  | [] => []
  | '\r' :: '\n' :: l => '\n' :: normalizeLineEndings l
  | c :: l => (if c = '\r' then '\n' else c) :: normalizeLineEndings l

/-- `format!("[Image #{}]")` -/
def marker (n : Nat) : Text := ['[', 'I', 'm', 'a', 'g', 'e', ' ', '#'] ++ Nat.toDigits 10 n ++ [']']

def trimStart (l : Text) : Text := l.dropWhile isWhitespace

def trimEnd (l : Text) : Text := l.rdropWhile isWhitespace

def trim (l : Text) : Text := trimEnd (trimStart l)

def PastedImage.inside (image : PastedImage) (position : Nat) : Bool := image.start < position && position < image.stop

def PastedImage.shift (image : PastedImage) (f : Nat → Nat) : PastedImage :=
  { image with start := f image.start, stop := f image.stop }

section
variable [UnicodeText]

namespace Composer

def replaceDraft (c : Composer) (draft : Text) : Composer :=
  let draft := if '\r' ∈ draft then normalizeLineEndings draft else draft
  { c with
    draft := draft
    images := []
    reviews := []
    nextImage := 1
    cursor := size draft
    preferredColumn := none }

def submission (c : Composer) : Option Submission :=
  let trimmed := trim c.draft
  if trimmed = [] then none
  else
    let start := size c.draft - size (trimStart c.draft)
    let stop := start + size trimmed
    let images := c.images.filter fun image => start ≤ image.start && image.stop ≤ stop
    some (c.reviews.foldl Submission.attachReview ⟨trimmed, images.map (·.shift (· - start)), []⟩)

def acknowledgeSubmission (c : Composer) (s : Submission) : Composer :=
  let acknowledged := { c with history := c.history.record s.text }
  if acknowledged.submission = some s then acknowledged.replaceDraft [] else acknowledged

/-! ## editing -/

def moveCursorOutOfImage (c : Composer) : Composer :=
  match c.images.find? (·.inside c.cursor) with
  | some image => { c with cursor := image.stop }
  | none => c

def insert (c : Composer) (text : Text) : Option Composer := do
  let text := normalizeLineEndings text
  let c := c.moveCursorOutOfImage
  let (before, after) ← cut c.cursor c.draft
  return { c with
    draft := before ++ (text ++ after)
    images := c.images.map fun image => if c.cursor ≤ image.start then image.shift (· + size text) else image
    cursor := c.cursor + size text
    preferredColumn := none }

/-- `drain` takes the range from the draft; the images behind it move -/
def removeRange (c : Composer) (start stop : Nat) : Option Composer := do
  if stop < start then none
  let (before, _) ← cut start c.draft
  let (_, after) ← cut stop c.draft
  return { c with
    draft := before ++ after
    images := c.images.map fun image => if stop ≤ image.start then image.shift (· - (stop - start)) else image
    cursor := start
    preferredColumn := none }

def previousGrapheme (c : Composer) : Option (Option Nat) :=
  (cut c.cursor c.draft).map fun p => (graphemes p.1).getLast?.map fun g => c.cursor - size g

/-- where the first grapheme after the cursor ends -/
def nextGrapheme (c : Composer) : Option (Option Nat) :=
  (cut c.cursor c.draft).map fun p => (graphemes p.2).head?.map fun g => c.cursor + size g

def backspace (c : Composer) : Option (Bool × Composer) :=
  match c.images.findIdx? fun image => image.start < c.cursor && c.cursor ≤ image.stop with
  | some index => do
    let image ← c.images[index]?
    let c ← { c with images := c.images.eraseIdx index }.removeRange image.start image.stop
    return (true, c)
  | none => do
    match ← c.previousGrapheme with
    | none => return (false, c)
    | some previous =>
      let c ← c.removeRange previous c.cursor
      return (true, c)

def delete (c : Composer) : Option (Bool × Composer) :=
  match c.images.findIdx? fun image => image.start ≤ c.cursor && c.cursor < image.stop with
  | some index => do
    let image ← c.images[index]?
    let c ← { c with images := c.images.eraseIdx index }.removeRange image.start image.stop
    return (true, c)
  | none => do
    match ← c.nextGrapheme with
    | none => return (false, c)
    | some next =>
      let c ← c.removeRange c.cursor next
      return (true, c)

/-- where the word before the end of the text starts: its white space, then what is no white space -/
def wordStart (before : Text) : Nat :=
  size ((before.rdropWhile isWhitespace).rdropWhile fun c => !isWhitespace c)

def deleteWordBeforeCursor (c : Composer) : Option (Bool × Composer) := do
  let (before, _) ← cut c.cursor c.draft
  let start := wordStart before
  let stop := c.cursor
  let touched := (c.images.filter fun image => image.start < stop && start < image.stop).map (·.start)
  let start := touched.min?.getD start
  if start = stop then return (false, c)
  let kept := c.images.filter fun image => image.stop ≤ start || stop ≤ image.start
  let c ← { c with images := kept }.removeRange start stop
  return (true, c)

def insertImage (c : Composer) (dataUrl : String) : Option Composer := do
  let c := c.moveCursorOutOfImage
  let start := c.cursor
  let c ← c.insert (marker c.nextImage)
  return { c with
    images := List.insertionSort (fun a b => a.start ≤ b.start) (c.images ++ [⟨start, c.cursor, dataUrl⟩])
    nextImage := satAdd64 c.nextImage 1 }

/-! ## moving -/

def moveLeft (c : Composer) : Option (Bool × Composer) := do
  match ← c.previousGrapheme with
  | none => return (false, c)
  | some previous =>
    let image := c.images.find? fun image => image.start ≤ previous && previous < image.stop
    return (true, { c with cursor := (image.map (·.start)).getD previous, preferredColumn := none })

def moveRight (c : Composer) : Option (Bool × Composer) := do
  match ← c.nextGrapheme with
  | none => return (false, c)
  | some target =>
    let image := c.images.find? (·.inside target)
    return (true, { c with cursor := (image.map (·.stop)).getD target, preferredColumn := none })

def isWord (g : Text) : Bool := g.any UnicodeText.isAlphanumeric

/-- the loop over the graphemes after the cursor: where the first word ends -/
def wordForward : List Text → Nat → Option Nat → Option Nat
  | [], _, target => target
  | g :: gs, offset, target =>
    if isWord g then wordForward gs (offset + size g) (some (offset + size g))
    else if target.isSome then target
    else wordForward gs (offset + size g) target

/-- the loop over the graphemes before the cursor, the last one first: where the last word starts -/
def wordBackward : List Text → Nat → Option Nat → Option Nat
  | [], _, target => target
  | g :: gs, offset, target =>
    if isWord g then wordBackward gs (offset - size g) (some (offset - size g))
    else if target.isSome then target
    else wordBackward gs (offset - size g) target

def moveByWord (c : Composer) (forward : Bool) : Option (Bool × Composer) := do
  let (before, after) ← cut c.cursor c.draft
  let target := if forward then (wordForward (graphemes after) c.cursor none).getD (size c.draft)
    else (wordBackward (graphemes before).reverse c.cursor none).getD 0
  let image := c.images.find? (·.inside target)
  let target := (image.map fun image => if forward then image.stop else image.start).getD target
  if target = c.cursor then return (false, c)
  return (true, { c with cursor := target, preferredColumn := none })

def moveVertical (c : Composer) (direction : Int) : Option (Bool × Composer) := do
  let layout ← VisualLayout.new c.draft c.cursor (max c.lastWidth 1)
  let targetRow := (layout.cursorRow + direction).toNat
  if targetRow = layout.cursorRow ∨ layout.lines.length ≤ targetRow then return (false, c)
  let desired := c.preferredColumn.getD layout.cursorColumn
  let line ← layout.lines[targetRow]?
  let target ← byteAtColumn c.draft line desired
  let image := c.images.find? (·.inside target)
  let cursor := (image.map fun image => if direction < 0 then image.start else image.stop).getD target
  return (true, { c with cursor := cursor, preferredColumn := some desired })

def moveToVisualEdge (c : Composer) (stop : Bool) : Option (Bool × Composer) := do
  let layout ← VisualLayout.new c.draft c.cursor (max c.lastWidth 1)
  let line ← layout.lines[layout.cursorRow]?
  let target := if stop then line.stop else line.start
  if target = c.cursor then return (false, c)
  return (true, { c with cursor := target, preferredColumn := none })

def moveToLogicalEdge (c : Composer) (stop : Bool) : Option (Bool × Composer) := do
  let (before, after) ← cut c.cursor c.draft
  let target := if stop then c.cursor + size (after.takeWhile (· ≠ '\n'))
    else size (before.rdropWhile (· ≠ '\n'))
  if target = c.cursor then return (false, c)
  return (true, { c with cursor := target, preferredColumn := none })

/-! ## keys -/

def moveUp (c : Composer) : Option (Bool × Composer) := do
  let step := if c.history.isBrowsing then some (false, c) else c.moveVertical (-1)
  let (moved, c) ← step
  if moved then return (true, c)
  let (prompt, history) ← c.history.previous c.draft
  let c := { c with history }
  match prompt with
  | none => return (false, c)
  | some prompt => return (true, c.replaceDraft prompt)

def moveDown (c : Composer) : Option (Bool × Composer) :=
  if c.history.isBrowsing then
    let (prompt, history) := c.history.next
    let c := { c with history }
    match prompt with
    | none => some (false, c)
    | some prompt => some (true, c.replaceDraft prompt)
  else c.moveVertical 1

def submit (c : Composer) : ComposerUpdate × Composer :=
  let trimmed := trim c.draft
  if trimmed = [] then (.unchanged, c)
  else if c.images = [] ∧ c.draft.head? = some '!' then
    let command := trim (trimmed.dropWhile (· = '!'))
    if command = [] then (.unchanged, c)
    else
      let c := { c with history := c.history.record ('!' :: command) }
      (⟨some (.runShell command), true⟩, c.replaceDraft [])
  else (⟨c.submission.map .submit, true⟩, c)

end Composer

inductive KeyCode
  | char (c : Char)
  | enter
  | left
  | right
  | up
  | down
  | home
  | endKey
  | backspace
  | delete
  | other
  deriving DecidableEq

structure KeyModifiers where
  control : Bool
  alt : Bool
  shift : Bool
  other : Bool
  deriving DecidableEq

structure KeyEvent where
  code : KeyCode
  modifiers : KeyModifiers
  release : Bool

def KeyModifiers.isControl (m : KeyModifiers) : Bool := m = ⟨true, false, false, false⟩

def KeyModifiers.isAlt (m : KeyModifiers) : Bool := m = ⟨false, true, false, false⟩

inductive ComposerEvent
  | key (key : KeyEvent)
  | paste (text : Text)
  | pasteImage (dataUrl : String)

namespace Composer

def detach (c : Composer) : Composer := { c with history := c.history.detach }

def fromChange (p : Option (Bool × Composer)) : Option (ComposerUpdate × Composer) :=
  p.map fun p => (.fromChange p.1, p.2)

def changed (c : Option Composer) : Option (ComposerUpdate × Composer) := c.map fun c => (.fromChange true, c)

def handleControl (c : Composer) : KeyCode → Option (ComposerUpdate × Composer)
  | .char 'a' => fromChange (c.detach.moveToLogicalEdge false)
  | .char 'b' => fromChange c.detach.moveLeft
  | .char 'e' => fromChange (c.detach.moveToLogicalEdge true)
  | .char 'f' => fromChange c.detach.moveRight
  | .char 'g' => some (⟨some .openDraftEditor, false⟩, c)
  | .char 'j' => changed (c.detach.insert ['\n'])
  | .char 'n' => fromChange c.moveDown
  | .char 'p' => fromChange c.moveUp
  | _ => some (.unchanged, c)

def detachesHistory (key : KeyEvent) : Bool :=
  match key.code with
  | .char _ | .left | .right | .home | .endKey | .backspace | .delete => true
  | .enter => key.modifiers.shift
  | _ => false

def handleKey (c : Composer) (key : KeyEvent) : Option (ComposerUpdate × Composer) :=
  if key.release then some (.unchanged, c)
  else if key.modifiers.isControl then c.handleControl key.code
  else if key.modifiers.control then some (.unchanged, c)
  else
    let c := if detachesHistory key then c.detach else c
    match key.code with
    | .enter => if key.modifiers.shift then changed (c.insert ['\n']) else some c.submit
    | .char character =>
      if character = 'b' ∧ key.modifiers.isAlt then fromChange (c.moveByWord false)
      else if character = 'f' ∧ key.modifiers.isAlt then fromChange (c.moveByWord true)
      else changed (c.insert [character])
    | .left => fromChange c.moveLeft
    | .right => fromChange c.moveRight
    | .up => fromChange c.moveUp
    | .down => fromChange c.moveDown
    | .home => fromChange (c.moveToVisualEdge false)
    | .endKey => fromChange (c.moveToVisualEdge true)
    | .backspace => if key.modifiers.alt then fromChange c.deleteWordBeforeCursor else fromChange c.backspace
    | .delete => fromChange c.delete
    | .other => some (.unchanged, c)

def update (c : Composer) : ComposerEvent → Option (ComposerUpdate × Composer)
  | .key key => c.handleKey key
  | .paste text => changed (c.detach.insert text)
  | .pasteImage dataUrl => changed (c.detach.insertImage dataUrl)

end Composer

end

end Orvek.Tui
