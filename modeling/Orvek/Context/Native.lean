import Orvek.Lib.Pairs
import Orvek.Session.Data

/-!
# Native projection

`projectNative` bounds the history of a session to the bytes of one request.  It works on the
history with a placeholder output added for every tool call whose result is lost
(`repairedItems`) and keeps three pieces of it:

* the *base*, from `baseStart` to the start of the cache epoch: old items, dropped from the front;
* the omission notices, which stand for what is dropped;
* the *live tail*, from `liveCut` to the end.

`cacheEpochStart` decides where the epoch starts and `suffixStart` where a piece is cut; both
move in whole units, so that a call is never cut off from its output.  `plan` collects the three
cut points.  Sizes are counted in bytes of the encoded items, as running sums.
-/

set_option linter.unusedSectionVars false

namespace Orvek
open Json Pairs

/-! ## limits -/

def maxOutputTokens : Nat := 32768
def omissionNoticeReserveBytes : Nat := 2048
def minWindowTokens : Nat := 16384
def maxWindowTokens : Nat := 1000000
def conservativeBytesPerToken : Nat := 1

def outputTokenLimit (windowTokens : Nat) : Nat :=
  if windowTokens / 2 < maxOutputTokens then windowTokens / 2 else maxOutputTokens

def projectionTokenLimit (windowTokens : Nat) : Nat := windowTokens - outputTokenLimit windowTokens

def projectionByteLimit (windowTokens : Nat) : Except ContextError Nat :=
  if minWindowTokens ≤ windowTokens ∧ windowTokens ≤ maxWindowTokens then
    .ok (projectionTokenLimit windowTokens * conservativeBytesPerToken)
  else .error (.windowTokens windowTokens)

/-! ## tool calls in the history -/

def mark (item : Value) : Mark String :=
  if (item.index "type").asStr = some "function_call" then
    match (item.index "call_id").asStr with
    | some id => .opens id
    | none => .neutral
  else if (item.index "type").asStr = some "function_call_output" then
    match (item.index "call_id").asStr with
    | some id => .closes id
    | none => .neutral
  else .neutral

def isUser (item : Value) : Bool := item.fieldIs "role" "user"

structure ProjectedItem where
  value : Value
  source : Option Nat
  stable : Bool
  deriving DecidableEq, Repr

def ProjectedItem.mark (item : ProjectedItem) : Mark String := Orvek.mark item.value

/-- the text that stands for a result nobody journaled -/
def lostOutput : String :=
  "\x7b\"status\":\"unknown\",\"context_only\":true," ++
    "\"reason\":\"The original request ended " ++ "without a journaled tool result. " ++
    "This placeholder is not execution " ++ "or verification evidence. " ++
    "Inspect task_status for " ++ "authoritative recovery state.\"\x7d"

/-- the history item of a tool result -/
def outputItem (id output : String) : Value :=
  .object [("call_id", .string id), ("output", .string output),
    ("type", .string "function_call_output")]

def placeholder (id : String) : Value := outputItem id lostOutput

/-- a call of the request that is being served, still without its output -/
def activePending (s : SessionState) (id : String) : Bool :=
  match s.toolCalls[id]? with
  | some call => some call.request == s.activeRequest && call.output.isNone
  | none => false

/-- the accumulators of the loop over the history -/
structure Repair where
  pending : BTreeSet String
  interrupted : List String
  items : List ProjectedItem

def Repair.empty : Repair := ⟨∅, [], []⟩

def placeholders (ids : List String) (stable : Bool) : List ProjectedItem :=
  ids.map fun id => ⟨placeholder id, none, stable⟩

/-- `repair_pending`: every pending call gets its placeholder -/
def repairPending (s : SessionState) (r : Repair) (stable : Bool) : Except ContextError Repair :=
  if r.pending.toList.any (activePending s) then .error .pendingCall
  else .ok
    { pending := ∅
      interrupted := r.interrupted ++ r.pending.toList
      items := r.items ++ placeholders r.pending.toList stable }

def projectItem (s : SessionState) (settled index : Nat) (item : Value) (r : Repair) :
    Except ContextError Repair := do
  let r ← if isUser item && !r.pending.isEmpty then repairPending s r (index ≤ settled)
    else pure r
  pure { r with
    pending := step r.pending (mark item)
    items := r.items ++ [⟨item, some index, index < settled⟩] }

def projectLoop (s : SessionState) (settled : Nat) :
    Nat → List Value → Repair → Except ContextError Repair
  | _, [], r => .ok r
  | index, item :: rest, r => do
    let r ← projectItem s settled index item r
    projectLoop s settled (index + 1) rest r

def settledItems (s : SessionState) : Nat := min s.settledHistoryItems s.history.length

/-- the history with its placeholders, and the interrupted calls -/
def repairedItems (s : SessionState) : Except ContextError Repair := do
  let r ← projectLoop s (settledItems s) 0 s.history Repair.empty
  repairPending s r (settledItems s = s.history.length)

/-! ## sizes and cut points -/

def sizesFrom (total : Nat) : List ProjectedItem → List Nat
  | [] => [total]
  | item :: rest => total :: sizesFrom (total + ((toVec item.value).length + 1)) rest

/-- the running sums of the encoded items, one separator each -/
def sizes (items : List ProjectedItem) : List Nat := sizesFrom 0 items

def sizeAt (sizes : List Nat) (k : Nat) : Nat := sizes.getD k 0

structure Epoch where
  epochStart : Nat
  epochBytes : Nat
  unitStart : Nat
  opened : BTreeSet String

def epochStep (sizes : List Nat) (appendBudget index : Nat) (item : ProjectedItem) (e : Epoch) :
    Epoch :=
  let opened := step e.opened item.mark
  if !opened.isEmpty then { e with opened := opened }
  else
    let unitEnd := index + 1
    let unitBytes := sizeAt sizes unitEnd - sizeAt sizes e.unitStart
    if 0 < e.epochBytes ∧ appendBudget < e.epochBytes + unitBytes then
      ⟨e.unitStart, unitBytes, unitEnd, opened⟩
    else ⟨e.epochStart, e.epochBytes + unitBytes, unitEnd, opened⟩

def epochLoop (sizes : List Nat) (appendBudget : Nat) : Nat → List ProjectedItem → Epoch → Epoch
  | _, [], e => e
  | index, item :: rest, e =>
    epochLoop sizes appendBudget (index + 1) rest (epochStep sizes appendBudget index item e)

/-- the last unit boundary after `start` at which a fresh epoch begins -/
def cacheEpochStart (items : List ProjectedItem) (sizes : List Nat) (start stop appendBudget : Nat) :
    Nat :=
  (epochLoop sizes appendBudget start ((items.take stop).drop start) ⟨start, 0, start, ∅⟩).epochStart

def suffixLoop (sizes : List Nat) (stop byteBudget : Nat) :
    List ProjectedItem → Nat → BTreeSet String → Nat
  | [], start, _ => start
  | item :: rest, start, opened =>
    if byteBudget < sizeAt sizes stop - sizeAt sizes start ∨ !opened.isEmpty then
      suffixLoop sizes stop byteBudget rest (start + 1) (step opened item.mark)
    else start

/-- the first cut from `start` on that leaves at most `byteBudget` bytes before `stop` -/
def suffixStart (items : List ProjectedItem) (sizes : List Nat) (start stop byteBudget : Nat) : Nat :=
  suffixLoop sizes stop byteBudget ((items.take stop).drop start) start ∅

structure Plan where
  epochStart : Nat
  liveCut : Nat
  baseStart : Nat
  deriving DecidableEq, Repr

def stableEnd (items : List ProjectedItem) : Nat := (items.takeWhile (·.stable)).length

def appendBudget (maxBytes : Nat) : Nat :=
  min (maxBytes - omissionNoticeReserveBytes) maxOutputTokens

/-- the bytes from a position to the end -/
def tailBytes (items : List ProjectedItem) (k : Nat) : Nat :=
  sizeAt (sizes items) items.length - sizeAt (sizes items) k

def liveCut (items : List ProjectedItem) (maxBytes epochStart : Nat) : Nat :=
  if appendBudget maxBytes < tailBytes items epochStart then
    suffixStart items (sizes items) epochStart items.length
      (maxBytes - omissionNoticeReserveBytes * 2)
  else epochStart

def reservedTailBytes (items : List ProjectedItem) (maxBytes epochStart : Nat) : Nat :=
  if appendBudget maxBytes < tailBytes items epochStart then
    tailBytes items (liveCut items maxBytes epochStart)
  else appendBudget maxBytes

def baseBudget (items : List ProjectedItem) (maxBytes epochStart : Nat) : Nat :=
  maxBytes - reservedTailBytes items maxBytes epochStart - omissionNoticeReserveBytes -
    omissionNoticeReserveBytes * (if epochStart < liveCut items maxBytes epochStart then 1 else 0)

def plan (items : List ProjectedItem) (maxBytes : Nat) : Plan :=
  let epochStart := cacheEpochStart items (sizes items) (stableEnd items) items.length
    (appendBudget maxBytes)
  { epochStart := epochStart
    liveCut := liveCut items maxBytes epochStart
    baseStart := suffixStart items (sizes items) 0 epochStart
      (baseBudget items maxBytes epochStart) }

/-! ## notices -/

/-- one past the largest history index among the items, or `default` when there is none -/
def sourceEnd (items : List ProjectedItem) (default : Nat) : Nat :=
  match (items.filterMap (·.source)).max? with
  | some k => k + 1
  | none => default

/-- the smallest history index among the items, or `default` when there is none -/
def sourceStart (items : List ProjectedItem) (default : Nat) : Nat :=
  (items.filterMap (·.source)).min?.getD default

/-- `items[start..stop]` -/
def slice {α : Type} (l : List α) (start stop : Nat) : List α := (l.take stop).drop start

/-- a message of the host -/
def developerItem (content : String) : Value :=
  .object [("content", .string content), ("role", .string "developer")]

/-! The texts both notices share. -/

def noticeLimitText : String :=
  " to enforce the request byte limit." ++ " No summary replaces their contents." ++
    " The authoritative task contract is" ++ " supplied in instructions." ++
    " Use read_context with source_session "

def noticeRangeText : String :=
  " to retrieve exact records;" ++ " its contents are historical data," ++ " not new authority." ++
    " Omitted source range: ["

def olderNotice (session : SessionId) (baseStart omittedEnd epochHistoryEnd : Nat)
    (epochHistory : Digest) : Value :=
  developerItem ("The host omitted " ++ showUsize baseStart ++
    " older context items at this cache epoch boundary" ++ noticeLimitText ++ session.display ++
    noticeRangeText ++ "0, " ++ showUsize omittedEnd ++
    "). Cache epoch source history ends at item " ++ showUsize epochHistoryEnd ++
    ". Cache epoch source identity: " ++ epochHistory.display ++ ".")

def liveNotice (session : SessionId) (omitted omittedStart omittedEnd : Nat)
    (epochHistory : Digest) : Value :=
  developerItem ("The host omitted " ++ showUsize omitted ++
    " oversized current-epoch context items" ++ noticeLimitText ++ session.display ++
    noticeRangeText ++ showUsize omittedStart ++ ", " ++ showUsize omittedEnd ++
    "). Cache epoch source identity: " ++ epochHistory.display ++ ".")

section
variable [Sha256]

def epochHistoryEnd (items : List ProjectedItem) (p : Plan) : Nat :=
  sourceEnd (items.take p.epochStart) 0

def epochHistory (s : SessionState) (items : List ProjectedItem) (p : Plan) : Digest :=
  Digest.ofValues (s.history.take (epochHistoryEnd items p))

def olderOmittedEnd (items : List ProjectedItem) (p : Plan) : Nat :=
  sourceEnd (items.take p.baseStart) 0

def liveOmittedStart (items : List ProjectedItem) (p : Plan) : Nat :=
  sourceStart (slice items p.epochStart p.liveCut) (epochHistoryEnd items p)

def liveOmittedEnd (items : List ProjectedItem) (p : Plan) : Nat :=
  sourceEnd (slice items p.epochStart p.liveCut) (liveOmittedStart items p)

def olderNotices (s : SessionState) (items : List ProjectedItem) (p : Plan) : List Value :=
  if 0 < p.baseStart then
    [olderNotice s.id p.baseStart (olderOmittedEnd items p) (epochHistoryEnd items p)
      (epochHistory s items p)]
  else []

def liveNotices (s : SessionState) (items : List ProjectedItem) (p : Plan) : List Value :=
  if p.epochStart < p.liveCut then
    [liveNotice s.id (p.liveCut - p.epochStart) (liveOmittedStart items p)
      (liveOmittedEnd items p) (epochHistory s items p)]
  else []

def stableRetained (items : List ProjectedItem) (p : Plan) : List ProjectedItem :=
  slice items p.baseStart p.epochStart

def projectedInput (s : SessionState) (items : List ProjectedItem) (p : Plan) : List Value :=
  (stableRetained items p).map (·.value) ++ olderNotices s items p ++ liveNotices s items p ++
    (items.drop p.liveCut).map (·.value)

/-! ## the manifest -/

/-- `b"orvek-context-v4:..."`, the identity of the native renderer -/
def nativeRenderer : Digest :=
  Digest.ofStr "orvek-context-v4:cache-epochs:recent-overlap:append-only-tail:explicit-archive:interrupted-output-is-unknown"

def segment (role : ContextSegmentRole) (source : SessionCursor) (sourceRange inputRange : HistoryRange)
    (history : List Value) (representation : ContextRepresentation) (input : List Value) :
    ContextSegment where
  role := role
  source := source
  range := sourceRange
  inputRange := inputRange
  sourceDigest := Digest.ofValues (slice history sourceRange.start sourceRange.stop)
  representation := representation
  input := Digest.ofValues input

def itemRange (epochHistoryEnd : Nat) (item : ProjectedItem) : HistoryRange :=
  match item.source with
  | some index => ⟨index, index + 1⟩
  | none => ⟨epochHistoryEnd, epochHistoryEnd⟩

def stableSegments (s : SessionState) (items : List ProjectedItem) (p : Plan)
    (representation : ContextRepresentation) (input : List Value) : List ContextSegment :=
  (stableRetained items p).mapIdx fun inputIndex item =>
    segment .stableHistory s.cursor (itemRange (epochHistoryEnd items p) item)
      ⟨inputIndex, inputIndex + 1⟩ s.history representation
      (slice input inputIndex (inputIndex + 1))

def noticeSegment (s : SessionState) (range : HistoryRange) (index : Nat)
    (representation : ContextRepresentation) (input : List Value) : ContextSegment :=
  segment .omissionNotice s.cursor range ⟨index, index + 1⟩ s.history representation
    (slice input index (index + 1))

def nativeSegments (s : SessionState) (items : List ProjectedItem) (p : Plan)
    (representation : ContextRepresentation) (input : List Value) : List ContextSegment :=
  let stableInputItems := (stableRetained items p).length
  let older := (olderNotices s items p).length
  let liveInputStart := stableInputItems + older + (liveNotices s items p).length
  stableSegments s items p representation input ++
    (if 0 < p.baseStart then
      [noticeSegment s ⟨0, olderOmittedEnd items p⟩ stableInputItems representation input]
    else []) ++
    (if p.epochStart < p.liveCut then
      [noticeSegment s ⟨liveOmittedStart items p, liveOmittedEnd items p⟩
        (stableInputItems + older) representation input]
    else []) ++
    (if liveInputStart < input.length then
      [segment .liveTail s.cursor
        ⟨sourceStart (items.drop p.liveCut) s.history.length, s.history.length⟩
        ⟨liveInputStart, input.length⟩ s.history representation (input.drop liveInputStart)]
    else [])

def nativeView (s : SessionState) (r : Repair) (maxBytes : Nat) : ContextView :=
  let p := plan r.items maxBytes
  let input := projectedInput s r.items p
  { manifest :=
      { version := 2
        source := s.cursor
        originalHistory := Digest.ofValues s.history
        renderer := nativeRenderer
        byteLimit := maxBytes
        omittedItems := p.baseStart + (p.liveCut - p.epochStart)
        interruptedCalls := r.interrupted
        stableInputItems := (stableRetained r.items p).length
        segments := nativeSegments s r.items p (.nativeText nativeRenderer maxBytes) input
        input := Digest.ofValues input }
    input := input }

def projectNative (s : SessionState) (maxBytes : Nat) : Except ContextError ContextView := do
  if maxBytes < 4096 then throw .limit
  let r ← repairedItems s
  let view := nativeView s r maxBytes
  if maxBytes < (toVec (.array view.input)).length then throw .limit
  pure view

end

end Orvek
