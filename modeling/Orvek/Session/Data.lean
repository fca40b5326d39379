import Orvek.Context.Data

/-!
# Session state: data

The state of a session and the commands that change it.  A command is parameterised by the form
of the context view it carries: `ContextView` in memory, `StoredView` in the journal, where the
items of a view are not written and only old journals still have them.
-/

namespace Orvek

/-! ## settings and admission -/

inductive Model where
  | sol | terra | luna | astra | glm | spark
  deriving DecidableEq, Repr

inductive Thinking where
  | low | medium | high | xhigh | max
  deriving DecidableEq, Repr

inductive ReasoningMode where
  | standard | pro
  deriving DecidableEq, Repr

structure ModelSettings where
  model : Model
  thinking : Thinking
  reasoningMode : ReasoningMode
  fastMode : Bool
  deriving DecidableEq, Repr

structure SessionConfig where
  workspace : String
  model : ModelSettings
  instructions : String
  contextWindowTokens : Nat
  deriving DecidableEq, Repr

inductive Channel where
  | canary | stable
  deriving DecidableEq, Repr

inductive BaselineReason where
  | unregisteredTarget | legacyImport | storeFixture
  deriving DecidableEq, Repr

inductive HarnessProvenance where
  | registered
  | compiledBaseline (reason : BaselineReason)
  deriving DecidableEq, Repr

/-- the five identities of a target are digests of their own -/
structure TargetProfile where
  model : Digest
  protocol : Digest
  environment : Digest
  taskProfile : Digest
  channel : Channel
  deriving DecidableEq, Repr

structure HarnessBinding where
  target : TargetProfile
  revision : Digest
  behavior : Digest
  envelope : Digest
  policy : Digest
  deriving DecidableEq, Repr

structure SessionAdmissionRequest where
  workspace : String
  model : ModelSettings
  contextWindowTokens : Nat
  channel : Channel
  deriving DecidableEq, Repr

structure SessionAdmissionProfile where
  version : Nat
  request : SessionAdmissionRequest
  binding : HarnessBinding
  provenance : HarnessProvenance
  authority : Digest
  requestDigest : Digest
  revisionManifest : List UInt8
  behaviorInstructions : String
  deriving DecidableEq, Repr

/-! ## tool output, interpreter and notification state -/

structure PendingOutput where
  request : Uuid
  text : String
  deriving DecidableEq, Repr

abbrev ToolOutputBuffers : Type := BTreeMap String PendingOutput

structure CheckpointRef where
  artifact : Digest
  source : Digest
  deriving DecidableEq, Repr

inductive InterpreterEvent where
  | started (cell : Uuid) (task : TaskId) (outerCall : String) (source runtime : Digest)
      (generation : Nat) (environment : Digest)
  | callStarted (cell : Uuid) (ordinal : Nat) (callId name : String) (arguments : Digest)
  | callSettled (cell : Uuid) (ordinal : Nat) (result : Digest)
  | settled (cell : Uuid) (result : Digest) (checkpoint : Option CheckpointRef) (stateLost : Bool)
  deriving DecidableEq, Repr

inductive CellStatus where
  | pending
  | settled (result : Digest)
  | interrupted
  deriving DecidableEq, Repr

structure CellState where
  request : Uuid
  task : TaskId
  status : CellStatus
  deriving DecidableEq, Repr

structure InterpreterState where
  checkpoint : Option CheckpointRef
  cells : BTreeMap Uuid CellState
  pendingCalls : BTreeMap String Uuid
  deriving DecidableEq

structure CompletionPayload where
  version : Nat
  deliveryId : Uuid
  session : SessionId
  request : Uuid
  task : TaskId
  outcome : Outcome
  deriving DecidableEq, Repr

inductive UnknownReason where
  | interrupted | timedOut | signaled | waitFailed
  deriving DecidableEq, Repr

inductive DeliveryResult where
  | succeeded
  | failed (exitCode : Int)
  | notStarted (error : String)
  | unknown (reason : UnknownReason)
  deriving DecidableEq, Repr

inductive DeliveryState where
  | pending
  | attempted (payload : CompletionPayload) (result : DeliveryResult)
  deriving DecidableEq, Repr

structure CompletionDelivery where
  id : Uuid
  command : String
  state : DeliveryState
  deriving DecidableEq, Repr

inductive DeliveryEvent where
  | armed (request : Uuid) (command : String)
  | claimed (payload : CompletionPayload)
  | finished (request : Uuid) (result : DeliveryResult)
  deriving DecidableEq, Repr

/-! ## submissions -/

structure ShellSpec where
  command : String
  expectedTask : Option TaskId
  scopeRevision : Option Nat
  timeoutMs : Nat
  outputBytes : Nat
  deriving DecidableEq, Repr

structure ManualJob where
  job : Uuid
  task : Option TaskId
  before : Digest
  origin : Digest
  environment : Digest
  startedMs : Nat
  scopeRevision : Option Nat
  deriving DecidableEq, Repr

inductive AuxiliaryKind where
  | conversation | reflection | question | handoff
  deriving DecidableEq, Repr

inductive AuxiliaryContext where
  | clean | currentConversation
  deriving DecidableEq, Repr

structure AuxiliaryLimits where
  modelCalls : Nat
  tokens : Nat
  elapsedMs : Nat
  deriving DecidableEq, Repr

structure AuxiliarySpec where
  kind : AuxiliaryKind
  context : AuxiliaryContext
  review : Option Digest
  limits : AuxiliaryLimits
  deriving DecidableEq, Repr

inductive Schedule where
  | queue | steer
  deriving DecidableEq, Repr

inductive WorkIntent where
  | ordinary (limits : Limits) (policy : Digest) (schedule : Schedule)
  | shell (spec : ShellSpec)
  | auxiliary (spec : AuxiliarySpec)
  | newTask (limits : Limits) (policy : Digest)
  | continue (task : TaskId) (scopeRevision : Nat) (schedule : Schedule)
  deriving DecidableEq, Repr

inductive SubmissionStatus where
  | queued
  | running
  | finished (task : Option TaskId) (outcome : Option Outcome) (error : Option String)
  | cancelled
  | interrupted
  deriving DecidableEq, Repr

def SubmissionStatus.pending : SubmissionStatus → Bool
  | .queued => true
  | .running => true
  | _ => false

structure Submission where
  manualJob : Option ManualJob
  id : Uuid
  input : Digest
  initialInput : Digest
  records : List Digest
  result : Option Digest
  intent : WorkIntent
  status : SubmissionStatus
  submittedRevision : Nat
  submittedMs : Nat
  deriving DecidableEq, Repr

/-! ## the state -/

structure WorkspaceSeed where
  origin : Digest
  source : Digest
  task : Option TaskId
  deriving DecidableEq, Repr

structure SessionBranch where
  workspace : Option WorkspaceSeed
  freshContext : Bool
  pendingTask : Option TaskId
  pendingShell : Option Uuid
  deriving DecidableEq, Repr

structure ImportedSource where
  firstOperation : Option Uuid
  importId : Digest
  manifest : Digest
  sourceSnapshot : Digest
  sourceSession : String
  title : String
  requestFingerprint : Digest
  deriving DecidableEq, Repr

structure RecordedToolCall where
  request : Uuid
  output : Option Digest
  deriving DecidableEq, Repr

structure SessionState where
  toolOutputBuffers : ToolOutputBuffers
  interpreter : InterpreterState
  completionDeliveries : BTreeMap Uuid CompletionDelivery
  feedbacks : BTreeSet Digest
  branch : SessionBranch
  id : SessionId
  revision : Nat
  settledRevision : Nat
  admission : Option SessionAdmissionProfile
  initialConfig : SessionConfig
  config : SessionConfig
  parent : Option SessionCursor
  history : List Json.Value
  settledHistoryItems : Nat
  contextView : Option Manifest
  contextTransitions : List ContextTransition
  operations : BTreeMap Uuid Digest
  currentTask : Option TaskId
  tasksByRequest : BTreeMap Uuid TaskId
  toolCalls : BTreeMap String RecordedToolCall
  kind : RequestKind
  activeRequest : Option Uuid
  outcome : Option Outcome
  error : Option String
  startedMs : Nat
  title : Option String
  imported : Option ImportedSource
  submissions : BTreeMap Uuid Submission
  queueOrder : List Uuid
  deriving DecidableEq

/-! ## commands and events -/

/-- a view as a journal row holds it: `input` is present only in rows of old versions -/
structure StoredView where
  manifest : Manifest
  input : Option (List Json.Value)
  deriving DecidableEq, Repr

/-- `V` is the form of the recorded view.  The payloads of the four accounting commands and of
`childLifecycle` are read by no modelled function and stay documents. -/
inductive SessionCommand (V : Type) where
  | interpreter (request : Uuid) (event : InterpreterEvent)
  | completionHook (event : DeliveryEvent)
  | childLifecycle (event : Json.Value)
  | traceRecorded (request : Uuid) (record : Digest)
  | admissionPinned (profile : SessionAdmissionProfile) (legacyConfigDigest : Digest)
  | reviewRecorded (feedback : Digest)
  | legacyImportBound (fingerprint : Digest)
  | shellStarted (job : ManualJob)
  | shellPublished (request : Uuid) (report : Digest) (seed : Option WorkspaceSeed)
      (settled : Bool)
  | workspaceSaved (request : Uuid) (seed : WorkspaceSeed)
  | auxiliaryStarted
  | auxiliaryRecorded (request : Uuid) (record : Digest)
  | auxiliaryPublished (request : Uuid) (report : Digest) (text : Option String)
  | queueMoved (request : Uuid) (expectedInput : Digest) (before : Option Uuid)
  | queueEdited (request : Uuid) (expectedInput : Digest) (input : Option Digest)
  | submitted (submission : Submission)
  | submissionChanged (request : Uuid) (status : SubmissionStatus)
  | input (kind : RequestKind) (content : List Json.Value)
  | response (request : Uuid) (items : List Json.Value)
  | providerUsage (request : Uuid) (call : Option Uuid) (usage : Json.Value)
      (representation : Option Json.Value)
  | providerCost (request call : Uuid) (costUsd : Option Nat)
  | feedback (message : String)
  | toolResult (request : Uuid) (callId output : String)
  | toolResultPart (request : Uuid) (callId : String) (offset : Nat) (output : String)
  | toolResultEnd (request : Uuid) (callId : String) (digest : Digest)
  | taskLinked (request : Uuid) (task : TaskId)
  | turnSettled (request : Uuid) (outcome : Option Outcome) (error : Option String)
  | settingsChanged (settings : ModelSettings)
  | contextPrepared (request call : Uuid) (manifest : Digest)
  | contextTransition (transition : ContextTransition)
  | contextProjected (sourceRevision : Nat) (view : Option V) (projection : List Json.Value)
  deriving DecidableEq

structure SessionCreation where
  branch : SessionBranch
  config : SessionConfig
  admission : Option SessionAdmissionProfile
  parent : Option SessionCursor
  history : List Json.Value
  startedMs : Nat
  imported : Option ImportedSource
  deriving DecidableEq

/-- a journaled session event -/
inductive SessionEvent where
  | created (creation : SessionCreation)
  | command (operation : Uuid) (command : SessionCommand StoredView) (atMs : Nat)
  deriving DecidableEq

namespace SessionCommand

/-- the same command with its view in another form -/
def mapView {V W : Type} (f : V → W) : SessionCommand V → SessionCommand W
  | interpreter request event => .interpreter request event
  | completionHook event => .completionHook event
  | childLifecycle event => .childLifecycle event
  | traceRecorded request record => .traceRecorded request record
  | admissionPinned profile digest => .admissionPinned profile digest
  | reviewRecorded digest => .reviewRecorded digest
  | legacyImportBound fingerprint => .legacyImportBound fingerprint
  | shellStarted job => .shellStarted job
  | shellPublished request report seed settled => .shellPublished request report seed settled
  | workspaceSaved request seed => .workspaceSaved request seed
  | auxiliaryStarted => .auxiliaryStarted
  | auxiliaryRecorded request record => .auxiliaryRecorded request record
  | auxiliaryPublished request report text => .auxiliaryPublished request report text
  | queueMoved request expected before => .queueMoved request expected before
  | queueEdited request expected edited => .queueEdited request expected edited
  | submitted submission => .submitted submission
  | submissionChanged request status => .submissionChanged request status
  | input kind content => .input kind content
  | response request items => .response request items
  | providerUsage request call usage representation =>
    .providerUsage request call usage representation
  | providerCost request call cost => .providerCost request call cost
  | feedback message => .feedback message
  | toolResult request callId output => .toolResult request callId output
  | toolResultPart request callId offset output => .toolResultPart request callId offset output
  | toolResultEnd request callId digest => .toolResultEnd request callId digest
  | taskLinked request task => .taskLinked request task
  | turnSettled request outcome error => .turnSettled request outcome error
  | settingsChanged settings => .settingsChanged settings
  | contextPrepared request call manifest => .contextPrepared request call manifest
  | contextTransition transition => .contextTransition transition
  | contextProjected revision view projection =>
    .contextProjected revision (view.map f) projection

end SessionCommand

def ContextView.stored (v : ContextView) : StoredView := ⟨v.manifest, none⟩

def StoredView.loaded (v : StoredView) : ContextView := ⟨v.manifest, v.input.getD []⟩

def SessionCommand.stored (c : SessionCommand ContextView) : SessionCommand StoredView :=
  c.mapView ContextView.stored

def SessionCommand.loaded (c : SessionCommand StoredView) : SessionCommand ContextView :=
  c.mapView StoredView.loaded

/-! ## creation -/

def InterpreterState.empty : InterpreterState := ⟨none, ∅, ∅⟩

def SessionBranch.default : SessionBranch := ⟨none, false, none, none⟩

/-- the first 120 characters of a text that are not control characters -/
def titleText (text : String) : String :=
  String.ofList ((text.toList.filter fun c => !isControl c).take 120)

def messageText (message : Json.Value) : Option String :=
  match (message.index "content").asStr with
  | some text => some text
  | none => (message.index "content").asArray.map fun parts =>
      " ".intercalate (parts.filterMap fun part => (part.index "text").asStr)

def firstTitle (items : List Json.Value) : Option String := do
  let message ← items.find? fun item => item.fieldIs "role" "user"
  let text ← messageText message
  let title := titleText text
  pure (if blank title then "Image input" else title)

namespace SessionState

def create (id : SessionId) (creation : SessionCreation) : SessionState where
  toolOutputBuffers := ∅
  interpreter := InterpreterState.empty
  completionDeliveries := ∅
  feedbacks := ∅
  branch := creation.branch
  id := id
  revision := 1
  settledRevision := 1
  admission := creation.admission
  initialConfig := creation.config
  config := creation.config
  parent := creation.parent
  history := creation.history
  settledHistoryItems := creation.history.length
  contextView := none
  contextTransitions := []
  operations :=
    if creation.parent.isNone then
      match creation.imported.bind fun source =>
          source.firstOperation.map fun operation => (operation, source.requestFingerprint) with
      | some (operation, fingerprint) => (∅ : BTreeMap Uuid Digest).insert operation fingerprint
      | none => ∅
    else ∅
  currentTask := none
  tasksByRequest := ∅
  toolCalls := ∅
  kind := .conversation
  activeRequest := none
  outcome := none
  error := none
  startedMs := creation.startedMs
  title := (creation.imported.map fun source => titleText source.title).or
    (firstTitle creation.history)
  imported := creation.imported
  submissions := ∅
  queueOrder := []

def cursor (s : SessionState) : SessionCursor := ⟨1, s.id, s.revision⟩

/-- the last revision at which no request was active -/
def forkCursor (s : SessionState) : SessionCursor := { s.cursor with revision := s.settledRevision }

end SessionState

/-- `ModelSettings::default` -/
def ModelSettings.default : ModelSettings := ⟨.sol, .medium, .standard, false⟩

def plainSession (id : SessionId) (history : List Json.Value) : SessionState :=
  SessionState.create id
    { branch := SessionBranch.default
      config := ⟨"/workspace", ModelSettings.default, "", 272000⟩
      admission := none
      parent := none
      history := history
      startedMs := 0
      imported := none }

end Orvek
