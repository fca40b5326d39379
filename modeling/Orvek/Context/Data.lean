import Orvek.TaskState

/-!
# Context views: data

A context view is the bounded list of items that is sent to the model, together with a manifest
that says where each item comes from.  This file holds the records of the source modules
`context`, `context::transitions` and `context_render`; the functions over them follow in the
other files of this directory.
-/

namespace Orvek

/-- a reference to journaled state -/
structure SessionCursor where
  version : Nat
  session : SessionId
  revision : Nat
  deriving DecidableEq, Repr

structure HistoryRange where
  start : Nat
  stop : Nat
  deriving DecidableEq, Repr

/-! ## representations -/

structure PublicArtifactRef where
  digest : Digest
  deriving DecidableEq, Repr

inductive RenderProfile where
  | patchAligned8On16
  | patchAligned8On16Repeated
  deriving DecidableEq, Repr

structure BitmapPage where
  source : HistoryRange
  width : Nat
  height : Nat
  digest : Digest
  artifact : PublicArtifactRef
  deriving DecidableEq, Repr

structure BitmapManifest where
  version : Nat
  renderer : Digest
  profile : RenderProfile
  source : Digest
  sourceArtifact : PublicArtifactRef
  pages : List BitmapPage
  deriving DecidableEq, Repr

inductive ContextRepresentation where
  | nativeText (renderer : Digest) (byteLimit : Nat)
  | bitmap (manifest : BitmapManifest)
  deriving DecidableEq, Repr

/-! ## manifests -/

inductive ContextSegmentRole where
  | stableHistory | omissionNotice | derivedSummary | liveTail
  deriving DecidableEq, Repr

structure ContextSegment where
  role : ContextSegmentRole
  source : SessionCursor
  range : HistoryRange
  inputRange : HistoryRange
  sourceDigest : Digest
  representation : ContextRepresentation
  input : Digest
  deriving DecidableEq, Repr

structure Manifest where
  version : Nat
  source : SessionCursor
  originalHistory : Digest
  renderer : Digest
  byteLimit : Nat
  omittedItems : Nat
  interruptedCalls : List String
  stableInputItems : Nat
  segments : List ContextSegment
  input : Digest
  deriving DecidableEq, Repr

structure ContextView where
  manifest : Manifest
  input : List Json.Value
  deriving DecidableEq, Repr

inductive ContextError where
  | limit
  | windowTokens (value : Nat)
  | pendingCall
  | transition (reason : String)
  deriving DecidableEq, Repr

/-! ## transitions -/

structure TransitionProposal where
  range : HistoryRange
  purpose : String
  summary : String
  pendingObligations : List String
  deriving DecidableEq, Repr

structure ContextTransition where
  source : SessionCursor
  sourceHistoryItems : Nat
  sourceHistory : Digest
  sourceDigest : Digest
  request : Uuid
  callId : String
  proposal : TransitionProposal
  deriving DecidableEq, Repr

end Orvek
