import Orvek.TaskState
import Orvek.Session.Data
import Orvek.Context.Data
import Orvek.Inference.Cost

/-!
# What the view is told

The records that the terminal view is built from, with what of them it reads, and the entries it shows.

* `ViewChange`, `LocalEvent`, `TranscriptRecord`   facts of the host, local notices, and what carries them;
* `MessageUpdate`                                  a message between agents, and what became of it;
* `EntryKind`, `TranscriptEntry`                   the rows of the transcript.
-/

namespace Orvek.Tui
open Json

/-! ## messages -/

abbrev MessageId : Type := Uuid
abbrev ThreadId : Type := Uuid

inductive MessageOrigin where
  | root
  | child (childId : Uuid)
  deriving DecidableEq

inductive MessagePriority where
  | deferred | urgent
  deriving DecidableEq

inductive MessagePurpose where
  | delegate | coordinate | finding | question | reply
  deriving DecidableEq

inductive MessageDisposition where
  | started | queued | steered
  deriving DecidableEq

structure DirectedMessage where
  id : MessageId
  threadId : ThreadId
  sender : MessageOrigin
  recipient : Uuid
  priority : MessagePriority
  purpose : MessagePurpose
  inReplyTo : Option MessageId
  body : String
  deriving DecidableEq

structure MessageThread where
  id : ThreadId
  participants : MessageOrigin × MessageOrigin
  messages : List DirectedMessage
  deriving DecidableEq

inductive MessageDeliveryState where
  | admitted (disposition : MessageDisposition)
  | delivered (disposition : MessageDisposition)
  | failed (error : String)
  deriving DecidableEq

structure MessageUpdate where
  messageId : MessageId
  thread : MessageThread
  delivery : MessageDeliveryState
  deriving DecidableEq

/-! ## records -/

inductive ViewChange where
  | workspaceSaved | queueChanged | submission | submissionChanged
  | shellStarted | shellPublished | reviewRecorded | contextProjected
  | historicalImport (manifest : Digest) (sourceSession : String)
  | providerUsage (call : Option Uuid)
  | providerCost (call : Uuid) (costUsd : Option UsdCost)
  | session (parent : Option SessionCursor)
  | user (request : Option Uuid) (text : String)
  | requestStarted (request : Uuid)
  | assistant (request : Option Uuid) (item text : String) (replace confirmed finalAnswer : Bool)
  | reasoning (request : Option Uuid) (item text : String) (replace : Bool)
  | toolProposed (request : Option Uuid) (itemId : Option String) (callId name arguments : String)
  | toolArguments (request : Option Uuid) (itemId chunk : String)
  | toolResult (callId output : String)
  | requestSettled (request : Uuid) (error : Option String)
  | settings (settings : ModelSettings)
  | taskLinked (task : TaskId)
  | task (id : TaskId) (event : TaskEvent)
  | taskInput (job : Uuid) (arguments : Value)
  | discardPreviews
  | warning (message : String)
  | status (text : String)

inductive LocalEvent where
  | sessionStarted (parentSessionId : Option String)
  | userSubmitted (text : String)
  | userSteered (text : String)
  | reflectionStarted
  | shellStarted | shellFinished
  | effortChanged (effort : Thinking)
  | fastModeChanged (enabled : Bool)
  | contextObserved | workerTurnAccepted | workerTurnFinished | workerTurnsInterrupted
  | workerSteerFailed (error : String)
  | workerStopped (error : Option String)
  | sessionEnded
  deriving DecidableEq

structure TranscriptRecord where
  recordedAtUnixMs : Nat
  hostChanges : List ViewChange
  localEvent : Option LocalEvent

/-! ## entries -/

/-- the index that an entry was given -/
abbrev EntryId : Type := Nat

inductive TransientStatus where
  | thinking
  | responding
  | waitingForBackgroundWork
  | tool (name : String)
  | reconnecting
  | error (message : String)
  deriving DecidableEq

inductive ToolState where
  | proposed | received | unknown | cancelled | fenced | running | succeeded | failed
  deriving DecidableEq

structure ToolEntry where
  name : String
  arguments : Value
  startedAtUnixMs : Nat
  state : ToolState
  durationNs : Option Nat
  result : Option Value
  metadata : Option Value
  substeps : List String
  childCount : Nat

structure MessageDelivery where
  messageId : MessageId
  state : MessageDeliveryState
  deriving DecidableEq

structure DirectedMessageEntry where
  perspective : MessageOrigin
  thread : MessageThread
  deliveries : List MessageDelivery
  deriving DecidableEq

inductive EntryKind where
  | user (text : String)
  | assistant (text : String) (complete finalAnswer : Bool)
  | reasoning (text : String)
  | tool (tool : ToolEntry)
  | directedMessage (message : DirectedMessageEntry)
  | forkedFrom (sessionId : String)
  | effortChanged (effort : Thinking)
  | fastModeChanged (enabled : Bool)
  | reflectionStarted
  | turnCompleted (durationNs : Nat)
  | error (message : String)
  | hostStatus (text : String) (verified : Bool)
  | taskStatus (id : TaskId) (text : String) (verified : Bool)

structure TranscriptEntry where
  id : EntryId
  revision : Nat
  kind : EntryKind
  hidden : Bool
  parent : Option EntryId
  trailingSpacer : Bool

end Orvek.Tui
