import Orvek.Context.Render
import Orvek.Context.ToolPairs
import Orvek.Context.Transitions

/-!
# Views that can be journaled

A view is projected, then some of its items are shown as bitmaps: those that an earlier manifest
already has (`reuseRepresentations`), and those that are rendered now (`renderEligible`).
`validFor` is the test that a view must pass before it is recorded.

Both passes change representations only, and only to bitmaps that match their source
(`Shows`); that is all `validFor` asks for.
-/

set_option linter.unusedSectionVars false

namespace Orvek
open Json Checks

/-! ## tool output -/

/-- the JSON reader of the `serde_json` crate -/
class JsonReader where
  fromStr : String → Option Value

section
variable [Sha256] [JsonReader]
variable {s : SessionState} {e a : ContextSegment} {es as : List ContextSegment}

/-- the text of a tool output that reports neither an error nor an unknown result -/
def successfulToolOutput (item : Value) : Option String :=
  if (item.get "type").bind Value.asStr ≠ some "function_call_output" then none
  else do
    let output ← (item.get "output").bind Value.asStr
    let parsed ← JsonReader.fromStr output
    if (parsed.get "error").isSome || (parsed.get "status").bind Value.asStr == some "unknown" then none
    else some output

/-! ## bitmaps -/

/-- the loop over the pages: each one starts where the one before ended, and shows something -/
def pagesMatch (output : List UInt8) : Nat → List BitmapPage → Bool
  | next, [] => next == output.length
  | next, page :: rest =>
    if page.source.start ≠ next ∨ page.source.stop < page.source.start then false
    else if output.length < page.source.stop then false
    else if slice output page.source.start page.source.stop = [] ∨
        page.digest ≠ page.artifact.digest ∨ page.width = 0 ∨ page.height = 0 then false
    else pagesMatch output page.source.stop rest

def bitmapMatchesSource (b : BitmapManifest) (seg : ContextSegment) (s : SessionState) : Bool :=
  if seg.role ≠ .stableHistory ∨ seg.range.stop ≠ seg.range.start + 1 then false
  else match s.history[seg.range.start]?.bind successfulToolOutput with
    | none => false
    | some output =>
      if b.source ≠ Digest.ofStr output ∨ b.sourceArtifact.digest ≠ b.source then false
      else pagesMatch (strBytes output) 0 b.pages && !b.pages.isEmpty

def ContextRepresentation.isBitmap : ContextRepresentation → Bool
  | .bitmap _ => true
  | .nativeText .. => false

def ContextRepresentation.matches (r : ContextRepresentation) (seg : ContextSegment)
    (s : SessionState) : Bool :=
  match r with
  | .bitmap b => bitmapMatchesSource b seg s
  | .nativeText .. => true

/-! ## reuse -/

def reuseSegment (cached : Manifest) (s : SessionState) (seg : ContextSegment) : ContextSegment :=
  match cached.segments.find? fun candidate => candidate.role == seg.role &&
      candidate.range == seg.range && candidate.sourceDigest == seg.sourceDigest &&
      candidate.representation.isBitmap with
  | none => seg
  | some candidate =>
    match candidate.representation with
    | .bitmap b => if bitmapMatchesSource b seg s then { seg with representation := .bitmap b } else seg
    | .nativeText .. => seg

def ContextView.withSegments (v : ContextView) (segs : List ContextSegment) : ContextView :=
  { v with manifest := { v.manifest with segments := segs } }

def reuseRepresentations (v : ContextView) (cached : Manifest) (s : SessionState) : ContextView :=
  v.withSegments (v.manifest.segments.map (reuseSegment cached s))

/-! ## rendering -/

def eligibleLimits : RenderLimits := ⟨256, 64 * 1024 * 1024⟩

/-- the output that a segment shows, when it may be rendered -/
def eligibleOutput (s : SessionState) (seg : ContextSegment) : Option String :=
  if seg.role ≠ .stableHistory ∨ seg.representation.isBitmap ∨
      seg.range.stop ≠ seg.range.start + 1 then none
  else s.history[seg.range.start]?.bind successfulToolOutput

def renderSegment (host : RenderHost) (s : SessionState) (index : Nat) (seg : ContextSegment) :
    ContextSegment :=
  match eligibleOutput s seg with
  | none => seg
  | some output =>
    match renderToArtifacts host index output .patchAligned8On16 eligibleLimits with
    | .ok (some b) => { seg with representation := .bitmap b }
    | _ => seg

/-- the loop stops where the work is cancelled -/
def renderSegments (host : RenderHost) (s : SessionState) :
    Nat → List ContextSegment → List ContextSegment
  | _, [] => []
  | index, seg :: rest =>
    if host.cancelled index .segment then seg :: rest
    else renderSegment host s index seg :: renderSegments host s (index + 1) rest

def renderEligible (host : RenderHost) (v : ContextView) (s : SessionState) : ContextView :=
  v.withSegments (renderSegments host s 0 v.manifest.segments)

/-! ## the test -/

/-- the regenerated segments with the representations of the given ones, when they agree -/
def matchSegments (s : SessionState) :
    List ContextSegment → List ContextSegment → Option (List ContextSegment)
  | expected :: es, actual :: as =>
    let expected := { expected with representation := actual.representation }
    if expected ≠ actual then none
    else if actual.representation.matches actual s then (matchSegments s es as).map (expected :: ·)
    else none
  | es, _ => some es

def ContextView.validFor (v : ContextView) (s : SessionState) : Bool :=
  match project s v.manifest.byteLimit with
  | .error _ => false
  | .ok regenerated =>
    if regenerated.manifest.input ≠ v.manifest.input ∨
        regenerated.manifest.segments.length ≠ v.manifest.segments.length then false
    else match matchSegments s regenerated.manifest.segments v.manifest.segments with
      | none => false
      | some segs => { regenerated.manifest with segments := segs } = v.manifest

/-! ## what the passes keep -/

/-- a segment that differs from the projected one in its representation only, with a bitmap that
matches the source -/
structure Shows (s : SessionState) (expected actual : ContextSegment) : Prop where
  same : { expected with representation := actual.representation } = actual
  shown : actual.representation.matches actual s = true

theorem Shows.role (h : Shows s e a) :
    a.role = e.role := by rw [← h.same]

theorem Shows.range (h : Shows s e a) :
    a.range = e.range := by rw [← h.same]

theorem Shows.withBitmap (h : Shows s e a) {b : BitmapManifest} (hb : bitmapMatchesSource b a s = true) :
    Shows s e { a with representation := .bitmap b } where
  same := by rw [← h.same]
  shown := hb

theorem Shows.reuse (h : Shows s e a) (cached : Manifest) : Shows s e (reuseSegment cached s a) := by
  unfold reuseSegment
  split
  · exact h
  · split
    · split
      · rename_i hb
        exact h.withBitmap hb
      · exact h
    · exact h

/-! ## rendered pages are accepted -/

theorem pagesMatch_stored {output : List UInt8} {start : Nat} {rendered : List RenderedPage}
    {stored : List BitmapPage} (hf : List.Forall₂ StoredFrom rendered stored)
    (hchain : Chain start (rendered.map RenderedPage.range) output.length)
    (hsized : ∀ p ∈ rendered, p.width ≠ 0 ∧ p.height ≠ 0) :
    pagesMatch output start stored = true := by
  induction hf generalizing start with
  | nil => exact beq_iff_eq.mpr hchain
  | @cons p q rendered stored hpq _ ih =>
    obtain ⟨hsrc, hw, hh, hd⟩ := hpq
    obtain ⟨hstart, hlt, hrest⟩ := hchain
    have hle := hrest.le
    obtain ⟨hpw, hph⟩ := hsized p List.mem_cons_self
    have hlen : (slice output q.source.start q.source.stop).length =
        q.source.stop - q.source.start := by
      rw [hsrc]
      exact slice_length output _ _ hle
    have hne : slice output q.source.start q.source.stop ≠ [] := by
      intro he
      rw [he, hsrc] at hlen
      rw [← hstart] at hlt
      simp only [List.length_nil] at hlen
      omega
    unfold pagesMatch
    rw [if_neg, if_neg, if_neg]
    · rw [hsrc]
      exact ih hrest fun x hx => hsized x (List.mem_cons_of_mem _ hx)
    · rintro (h | h | h | h)
      · exact hne h
      · exact h hd
      · exact hpw (hw ▸ h)
      · exact hph (hh ▸ h)
    · rw [hsrc]
      exact Nat.not_lt.mpr hle
    · rw [hsrc]
      rintro (h | h)
      · exact h hstart
      · rw [← hstart] at hlt
        omega

/-- **A rendered bitmap matches the segment it was rendered for.** -/
theorem bitmapMatchesSource_rendered {seg : ContextSegment} {output : String} {b : BitmapManifest}
    (hout : eligibleOutput s seg = some output) (h : Renders output b) :
    bitmapMatchesSource b seg s = true := by
  unfold eligibleOutput at hout
  split at hout
  · cases hout
  · rename_i hcond
    obtain ⟨rendered, hpages, hstored⟩ := h.pages
    unfold bitmapMatchesSource
    rw [if_neg fun hc => hcond (hc.imp id Or.inr), hout]
    dsimp only
    rw [if_neg (by rw [h.source, h.artifact]; simp), Bool.and_eq_true]
    refine ⟨pagesMatch_stored hstored hpages.chain hpages.sized, ?_⟩
    -- a text that is not empty has a page
    cases hb : b.pages with
    | cons p ps => rfl
    | nil =>
      rw [hb] at hstored
      cases hstored
      exact absurd (List.eq_nil_of_length_eq_zero hpages.chain.symm) h.nonempty

theorem Shows.render (h : Shows s e a) (host : RenderHost) (index : Nat) :
    Shows s e (renderSegment host s index a) := by
  unfold renderSegment
  split
  · exact h
  · rename_i output hout
    split
    · rename_i b hb
      exact h.withBitmap (bitmapMatchesSource_rendered hout (renderToArtifacts_ok hb))
    · exact h

theorem renderSegments_represents (h : List.Forall₂ (Shows s) es as) (host : RenderHost) (index : Nat) :
    List.Forall₂ (Shows s) es (renderSegments host s index as) := by
  induction h generalizing index with
  | nil => exact List.Forall₂.nil
  | cons hea hrest ih =>
    unfold renderSegments
    split
    · exact List.Forall₂.cons hea hrest
    · exact List.Forall₂.cons (hea.render host index) (ih (index + 1))

theorem reuseSegments_represents (h : List.Forall₂ (Shows s) es as) (cached : Manifest) :
    List.Forall₂ (Shows s) es (as.map (reuseSegment cached s)) := by
  induction h with
  | nil => exact List.Forall₂.nil
  | cons hea _ ih => exact List.Forall₂.cons (hea.reuse cached) ih

/-! ## a projected view is native -/

def AllNative (segs : List ContextSegment) : Prop := ∀ seg ∈ segs, seg.representation.isBitmap = false

theorem allNative_append {a b : List ContextSegment} (ha : AllNative a) (hb : AllNative b) :
    AllNative (a ++ b) := by
  intro seg hseg
  rcases List.mem_append.mp hseg with h | h
  · exact ha seg h
  · exact hb seg h

theorem allNative_ite (c : Prop) [Decidable c] (seg : ContextSegment)
    (h : seg.representation.isBitmap = false) : AllNative (if c then [seg] else []) := by
  split
  · intro x hx
    rw [List.mem_singleton.mp hx]
    exact h
  · exact fun _ h => nomatch h

theorem allNative_nativeSegments (s : SessionState) (items : List ProjectedItem) (p : Plan)
    (renderer : Digest) (limit : Nat) (input : List Value) :
    AllNative (nativeSegments s items p (.nativeText renderer limit) input) := by
  unfold nativeSegments
  refine allNative_append (allNative_append (allNative_append ?_ (allNative_ite _ _ rfl))
    (allNative_ite _ _ rfl)) (allNative_ite _ _ rfl)
  intro seg hseg
  obtain ⟨i, hi, rfl⟩ := List.mem_iff_getElem.mp hseg
  simp only [stableSegments, List.getElem_mapIdx]
  rfl

theorem allNative_push {d : Derived} (h : AllNative d.segments) (s : SessionState)
    (renderer : Digest) (limit : Nat) (role : ContextSegmentRole) (range : HistoryRange)
    (items : List Value) :
    AllNative (d.push s (.nativeText renderer limit) role range items).segments :=
  allNative_append h fun seg hseg => by rw [List.mem_singleton.mp hseg]; rfl

theorem allNative_deriveSegment {d : Derived} (h : AllNative d.segments) (s : SessionState)
    (renderer : Digest) (limit : Nat) (native : ContextView) (seg : ContextSegment) :
    AllNative (deriveSegment s (.nativeText renderer limit) native d seg).segments := by
  unfold deriveSegment
  split
  · exact h
  · split
    · rename_i t _
      have hsum : AllNative (d.summary s (.nativeText renderer limit) seg.range.start t).segments := by
        unfold Derived.summary
        split
        · exact allNative_push h _ _ _ _ _ _
        · exact h
      dsimp only
      split
      · exact allNative_push hsum _ _ _ _ _ _
      · exact hsum
    · exact allNative_push h _ _ _ _ _ _

theorem allNative_derive (s : SessionState) (renderer : Digest) (limit : Nat) (native : ContextView)
    (segs : List ContextSegment) (d : Derived) (h : AllNative d.segments) :
    AllNative (segs.foldl (deriveSegment s (.nativeText renderer limit) native) d).segments := by
  induction segs generalizing d with
  | nil => exact h
  | cons seg segs ih => exact ih _ (allNative_deriveSegment h s renderer limit native seg)

/-- **A projected view is native, and carries the limit it was projected with.** -/
theorem project_native {maxBytes : Nat} {v : ContextView} (h : project s maxBytes = .ok v) :
    v.manifest.byteLimit = maxBytes ∧ AllNative v.manifest.segments := by
  unfold project at h
  split at h
  · obtain ⟨_, _, rfl, _⟩ := projectNative_eq s maxBytes v h
    exact ⟨rfl, allNative_nativeSegments _ _ _ _ _ _⟩
  · obtain ⟨_, h⟩ := refuseIf_bind h
    obtain ⟨_, _, h⟩ := bind_ok h
    obtain ⟨native, _, h⟩ := bind_ok h
    obtain ⟨_, h⟩ := refuseIf_bind h
    obtain rfl := Except.ok.inj h
    exact ⟨rfl, allNative_append (allNative_derive s _ _ native _ _ fun _ h => nomatch h)
      (allNative_ite _ _ rfl)⟩

theorem AllNative.represents {segs : List ContextSegment} (h : AllNative segs) :
    List.Forall₂ (Shows s) segs segs := by
  induction segs with
  | nil => exact List.Forall₂.nil
  | cons seg segs ih =>
    refine List.Forall₂.cons ⟨rfl, ?_⟩ (ih fun x hx => h x (List.mem_cons_of_mem _ hx))
    have hseg := h seg List.mem_cons_self
    cases hr : seg.representation with
    | nativeText renderer limit => rfl
    | bitmap b => rw [hr] at hseg; cases hseg

/-! ## the test succeeds -/

theorem matchSegments_represents (h : List.Forall₂ (Shows s) es as) : matchSegments s es as = some as := by
  induction h with
  | nil => rfl
  | cons hea _ ih =>
    unfold matchSegments
    rw [if_neg (not_not.mpr hea.same), if_pos hea.shown, ih, hea.same]
    rfl

theorem validFor_withSegments {maxBytes : Nat} {v : ContextView} (h : project s maxBytes = .ok v)
    {segs : List ContextSegment} (hsegs : List.Forall₂ (Shows s) v.manifest.segments segs) :
    (v.withSegments segs).validFor s = true := by
  have hlimit : (v.withSegments segs).manifest.byteLimit = maxBytes := (project_native h).1
  unfold ContextView.validFor
  rw [hlimit, h]
  dsimp only
  rw [if_neg]
  · have hmatch : matchSegments s v.manifest.segments (v.withSegments segs).manifest.segments =
        some segs := matchSegments_represents hsegs
    rw [hmatch]
    exact decide_eq_true rfl
  · rintro (hin | hlen)
    · exact hin rfl
    · exact hlen hsegs.length_eq

/-- **Every view that is built can be journaled**: as it was projected, with reused bitmaps, and
with newly rendered ones. -/
theorem renderEligible_validFor (s : SessionState) (maxBytes : Nat) (cached : Manifest)
    (host : RenderHost) (v : ContextView) (h : project s maxBytes = .ok v) :
    v.validFor s = true ∧ (reuseRepresentations v cached s).validFor s = true ∧
      (renderEligible host (reuseRepresentations v cached s) s).validFor s = true := by
  have hself := (project_native h).2.represents (s := s)
  have hreuse := reuseSegments_represents hself cached
  refine ⟨validFor_withSegments h hself, validFor_withSegments h hreuse, ?_⟩
  exact validFor_withSegments h (renderSegments_represents hreuse host 0)

end

namespace Drawn

scoped instance sha256 : Sha256 := Sha256.standard

/-- reads the two tool results of the session below -/
scoped instance jsonReader : JsonReader := ⟨fun text =>
  if text = "\x7b\"ok\":1\x7d" then some (.object [("ok", .number "1")])
  else if text = "\x7b\"ok\":2\x7d" then some (.object [("ok", .number "2")]) else none⟩

/-- two settled calls, each answered with an object -/
def answeredTwice : SessionState :=
  sessionAt [callItem "a", outputItem "a" "\x7b\"ok\":1\x7d",
    callItem "b", outputItem "b" "\x7b\"ok\":2\x7d"] 4

/-- a blank font, and an encoder that accepts every page -/
def drawingHost : RenderHost where
  cancelled _ _ := false
  writeFault _ _ := none
  maxArtifactBytes := 64 * 1024 * 1024
  font := List.replicate (95 * fontHeight) 0
  encodePng _ _ _ := some [137]

/-- an earlier request on this host, cancelled after the first result was drawn -/
def interruptedHost : RenderHost :=
  { drawingHost with cancelled := fun index _ => 2 ≤ index }

/-- the view as it is projected again, with the pages of the interrupted request -/
def reusedView (v : ContextView) : ContextView :=
  reuseRepresentations v (renderEligible interruptedHost v answeredTwice).manifest answeredTwice

/-- which segments are shown as pages -/
def bitmaps (v : ContextView) : List Bool :=
  v.manifest.segments.map (·.representation.isBitmap)

theorem bitmaps_answeredTwice : ((project answeredTwice 40000).toOption.map fun v =>
    (bitmaps v, bitmaps (reusedView v),
      bitmaps (renderEligible drawingHost (reusedView v) answeredTwice))) =
    some ([false, false, false, false], [false, true, false, false],
      [false, true, false, true]) := by decide +kernel

/-- one page is reused, the other is drawn, and all three views can be journaled -/
theorem renderEligible_validFor_drawn :
    ∃ v, project answeredTwice 40000 = .ok v ∧
      bitmaps v = [false, false, false, false] ∧
      bitmaps (reusedView v) = [false, true, false, false] ∧
      bitmaps (renderEligible drawingHost (reusedView v) answeredTwice) =
        [false, true, false, true] ∧
      v.validFor answeredTwice = true ∧ (reusedView v).validFor answeredTwice = true ∧
      (renderEligible drawingHost (reusedView v) answeredTwice).validFor answeredTwice = true := by
  have hrun := bitmaps_answeredTwice
  cases hv : project answeredTwice 40000 with
  | error e =>
    rw [hv] at hrun
    cases hrun
  | ok v =>
    rw [hv] at hrun
    have hviews := Option.some.inj hrun
    simp only [Prod.mk.injEq] at hviews
    obtain ⟨hbare, hreused, hdrawn⟩ := hviews
    exact ⟨v, rfl, hbare, hreused, hdrawn, renderEligible_validFor answeredTwice 40000
      (renderEligible interruptedHost v answeredTwice).manifest drawingHost v hv⟩

end Drawn

end Orvek
