import Orvek.Context.Transitions

/-!
# The session reducer

`SessionState.apply` is the only function that changes the state of a session.  It is cut into
`update`, the change a command makes, and `record`, the bookkeeping that follows every command.
The end of a chunked tool result is applied as the tool result it completes, so that the
operation is recorded under the identity of the logical command.  `Applied` says once what each
command makes of a state that accepts it.
-/

set_option linter.unusedSectionVars false

namespace Orvek
open Json Checks

/-- a `serde_json::Error` -/
structure JsonError where
  message : String
  deriving DecidableEq, Repr

def ContextError.text : ContextError → String
  | .limit => "context budget must be at least 4096 bytes"
  | .windowTokens value => "context window must be between 16384 and 1000000 tokens, got " ++
      showUsize value
  | .pendingCall => "cannot project a tool call that still belongs to the active request"
  | .transition reason => "context transition: " ++ reason

/-! ## what comes from outside -/

/-- a validated harness revision, as read from its manifest -/
structure HarnessRevision where
  digest : Digest
  behavior : Digest
  envelope : Digest
  policyId : String
  behaviorInstructions : String
  deriving DecidableEq, Repr

/-- the encodings that the derived serializers write, the reader of revision manifests, and the
name-based identifiers of the `uuid` crate; a command is written without the items of its view -/
class SessionCodec where
  config : SessionConfig → List UInt8
  command : SessionCommand Manifest → List UInt8
  request : SessionAdmissionRequest → List UInt8
  model : ModelSettings → List UInt8
  fromManifestJson : List UInt8 → Option HarnessRevision
  newV5 : Uuid → List UInt8 → Uuid

/-! ## digests in JSON -/

def hexValue (c : Char) : Option Nat :=
  if '0' ≤ c ∧ c ≤ '9' then some (c.toNat - '0'.toNat)
  else if 'a' ≤ c ∧ c ≤ 'f' then some (c.toNat - 'a'.toNat + 10)
  else if 'A' ≤ c ∧ c ≤ 'F' then some (c.toNat - 'A'.toNat + 10)
  else none

/-- `Digest::from_str` -/
def Digest.fromStr (text : String) : Option Digest :=
  if strLen text = 64 then
    (text.toList.mapM hexValue).map fun digits =>
      ⟨BitVec.ofNat 256 (digits.foldl (fun n d => 16 * n + d) 0)⟩
  else none

/-- what a JSON value is called in a type error -/
def unexpected : Value → String
  | .null => "null"
  | .bool b => "boolean " ++ "\x60" ++ (if b then "true" else "false") ++ "\x60"
  | .number text => (if text.toList.any fun c => c = '.' ∨ c = 'e' then "floating point "
      else "integer ") ++ "\x60" ++ text ++ "\x60"
  | .string s => "string " ++ "\"" ++ s ++ "\""
  | .array _ => "sequence"
  | .object _ => "map"

def digestFromValue : Value → Except JsonError Digest
  | .string text =>
    match Digest.fromStr text with
    | some d => .ok d
    | none => .error ⟨"digest must contain 64 hexadecimal characters"⟩
  | v => .error ⟨"invalid type: " ++ unexpected v ++ ", expected a string"⟩

/-! ## tool output buffers -/

inductive ToolOutputError where
  | part | finish
  deriving DecidableEq, Repr

def ToolOutputError.text : ToolOutputError → String
  | part => "tool output part is out of order or belongs to another request"
  | finish => "tool output end has no parts or its digest does not match"

namespace ToolOutputBuffers

def append (b : ToolOutputBuffers) (request : Uuid) (callId : String) (offset : Nat)
    (text : String) : Except ToolOutputError ToolOutputBuffers := do
  refuseIf (text = "" ∨ (callId ∉ b ∧ offset ≠ 0)) .part
  let pending := b[callId]?.getD ⟨request, ""⟩
  refuseIf (pending.request ≠ request ∨ strLen pending.text ≠ offset) .part
  pure (b.insert callId { pending with text := pending.text ++ text })

def finish [Sha256] (b : ToolOutputBuffers) (request : Uuid) (callId : String) (digest : Digest) :
    Except ToolOutputError (String × ToolOutputBuffers) :=
  match b[callId]? with
  | none => .error .finish
  | some pending => do
    refuseIf (pending.request ≠ request ∨ Digest.ofStr pending.text ≠ digest) .finish
    pure (pending.text, b.erase callId)

end ToolOutputBuffers

/-! ## interpreter -/

namespace InterpreterState

def isEmpty (s : InterpreterState) : Bool := s.cells.isEmpty && s.checkpoint.isNone

def interrupt (s : InterpreterState) (request : Uuid) : InterpreterState :=
  { s with cells := s.cells.map fun _ cell =>
      if cell.request = request ∧ cell.status = .pending then { cell with status := .interrupted }
      else cell }

def admits (s : InterpreterState) (callId : String) (request : Uuid) (task : TaskId) : Bool :=
  match s.pendingCalls[callId]?.bind fun cell => s.cells[cell]? with
  | some cell => cell.request == request && cell.task == task && cell.status == .pending
  | none => false

def apply (s : InterpreterState) (request : Uuid) : InterpreterEvent → InterpreterState
  | .started cell task .. => { s with cells := s.cells.insert cell ⟨request, task, .pending⟩ }
  | .settled cell result checkpoint _ =>
    { cells := s.cells.modify cell fun state => { state with status := .settled result }
      pendingCalls := s.pendingCalls.filter fun _ owner => owner ≠ cell
      checkpoint := checkpoint.or s.checkpoint }
  | .callStarted cell _ callId .. => { s with pendingCalls := s.pendingCalls.insert callId cell }
  | .callSettled cell ordinal _ =>
    { s with pendingCalls := s.pendingCalls.erase (cell.display ++ "/" ++ showUsize ordinal) }

end InterpreterState

section
variable [Sha256] [SessionCodec]
variable {s s' : SessionState} {operation : Uuid} {c : SessionCommand ContextView}

/-! ## completion hooks -/

def invalidDelivery : JsonError := ⟨"invalid completion delivery transition"⟩

def deliveryId (session : SessionId) (request : Uuid) : Uuid :=
  SessionCodec.newV5 session.uuid (strBytes ("orvek-completion-hook-v1:" ++ request.display))

def interrupted : DeliveryResult := .unknown .interrupted

def DeliveryEvent.apply (session : SessionId) (deliveries : BTreeMap Uuid CompletionDelivery) :
    DeliveryEvent → Except JsonError (BTreeMap Uuid CompletionDelivery)
  | .armed request command =>
    if request ∈ deliveries then .error invalidDelivery
    else .ok (deliveries.insert request ⟨deliveryId session request, command, .pending⟩)
  | .claimed payload =>
    match deliveries[payload.request]? with
    | some delivery =>
      if payload.session = session ∧ payload.deliveryId = delivery.id ∧ delivery.state = .pending then
        .ok (deliveries.insert payload.request
          { delivery with state := .attempted payload interrupted })
      else .error invalidDelivery
    | none => .error invalidDelivery
  | .finished request result =>
    match deliveries[request]? with
    | some ⟨id, command, .attempted payload previous⟩ =>
      if previous = interrupted then
        .ok (deliveries.insert request ⟨id, command, .attempted payload result⟩)
      else .error invalidDelivery
    | _ => .error invalidDelivery

/-! ## admission -/

namespace SessionAdmissionProfile

/-- `Path::is_absolute` -/
def isAbsolute (path : String) : Bool := path.toList.head? = some '/'

def validateRecorded (p : SessionAdmissionProfile) : Except String Unit := do
  refuseIf (p.version ≠ 1) "unsupported session admission profile"
  refuseIf (isAbsolute p.request.workspace = false) "session workspace must be an absolute directory"
  refuseIf (p.request.contextWindowTokens = 0) "session context window must be positive"
  refuseIf (p.behaviorInstructions = "" ∨ 32 * 1024 < strLen p.behaviorInstructions)
    "session behavior instructions exceed their bound"
  refuseIf (Digest.of (SessionCodec.request p.request) ≠ p.requestDigest)
    "session admission request identity mismatch"
  match SessionCodec.fromManifestJson p.revisionManifest with
  | none => .error "session harness revision is invalid"
  | some revision =>
    refuseIf (revision.digest ≠ p.binding.revision ∨ revision.behavior ≠ p.binding.behavior ∨
        revision.envelope ≠ p.binding.envelope ∨
        Digest.ofStr revision.policyId ≠ p.binding.policy)
      "session harness revision differs from its binding"
    refuseIf (revision.behaviorInstructions ≠ p.behaviorInstructions)
      "session behavior differs from its harness revision"
    refuseIf (p.binding.target.model ≠ Digest.of (SessionCodec.model p.request.model) ∨
        p.binding.target.channel ≠ p.request.channel)
      "session admission target differs from its request"

end SessionAdmissionProfile

/-! ## the reducer -/

/-- `Digest::of_value(command)` -/
def SessionCommand.digest (c : SessionCommand ContextView) : Digest :=
  Digest.of (SessionCodec.command (c.mapView ContextView.manifest))

def reviewParts (message : Value) : List Value :=
  match (message.index "content").asArray with
  | some parts => parts.filter fun part => part.fieldIs "type" "tact_review"
  | none => []

def insertFeedbacks (feedbacks : BTreeSet Digest) : List Value → Except JsonError (BTreeSet Digest)
  | [] => .ok feedbacks
  | part :: rest => do
    let digest ← digestFromValue (part.index "digest")
    insertFeedbacks (feedbacks.insert digest) rest

/-- the tool calls among the items of a response -/
def callIds (items : List Value) : List String :=
  (items.filter fun item => item.fieldIs "type" "function_call").filterMap fun item =>
    (item.index "call_id").asStr

/-- `queue_order.insert(position, request)`, at the position of `before` or at the end -/
def insertBefore (queue : List Uuid) (before : Option Uuid) (request : Uuid) : List Uuid :=
  let position := (before.bind fun id => queue.findIdx? (· = id)).getD queue.length
  queue.take position ++ request :: queue.drop position

/-- `queue_order.retain(|id| id != request)` -/
def without (queue : List Uuid) (request : Uuid) : List Uuid := queue.filter (· ≠ request)

namespace SessionState

def awaitsPart (s : SessionState) (request : Uuid) (callId : String) : Bool :=
  s.activeRequest == some request &&
    s.toolCalls[callId]?.any fun call => call.request == request && call.output.isNone

/-- a request of the user or of the host becomes the active one -/
def begin (s : SessionState) (kind : RequestKind) (operation : Uuid) : SessionState :=
  { s with kind := kind, activeRequest := some operation, outcome := none, error := none }

def shellStarted (s : SessionState) (operation : Uuid) (job : ManualJob) : SessionState :=
  let s := s.begin .auxiliary operation
  let s := { s with
    branch := { s.branch with
      pendingShell := some operation
      workspace := some ⟨job.origin, job.before, job.task⟩ }
    submissions := s.submissions.modify operation fun x => { x with manualJob := some job } }
  match job.task with
  | some task => { s with
      tasksByRequest := s.tasksByRequest.insert operation task
      branch := { s.branch with pendingTask := some task } }
  | none => s

def shellPublished (s : SessionState) (request : Uuid) (report : Digest)
    (seed : Option WorkspaceSeed) (settled : Bool) : SessionState :=
  let branch := if settled then { s.branch with pendingShell := none } else s.branch
  { s with
    submissions := s.submissions.modify request fun x => { x with result := some report }
    branch := match seed with
      | some seed => { branch with workspace := some seed, pendingTask := none, pendingShell := none }
      | none => branch }

/-- the change that a command makes, before the bookkeeping -/
def update (s : SessionState) (operation : Uuid) :
    SessionCommand ContextView → Except JsonError SessionState
  | .completionHook event => do
    let deliveries ← event.apply s.id s.completionDeliveries
    pure { s with completionDeliveries := deliveries }
  | .admissionPinned profile legacyConfigDigest => do
    refuseIf (s.admission.isSome ∨ Digest.of (SessionCodec.config s.config) ≠ legacyConfigDigest ∨
        profile.validateRecorded.isOk = false) ⟨"invalid session admission pin"⟩
    pure { s with admission := some profile }
  | .reviewRecorded feedback => pure { s with feedbacks := s.feedbacks.insert feedback }
  | .legacyImportBound _ => pure s
  | .shellStarted job => pure (s.shellStarted operation job)
  | .shellPublished request report seed settled =>
    pure (s.shellPublished request report seed settled)
  | .workspaceSaved _ seed =>
    pure { s with branch := { s.branch with workspace := some seed, pendingTask := none } }
  | .auxiliaryStarted => pure (s.begin .auxiliary operation)
  | .auxiliaryRecorded request record =>
    pure { s with submissions := s.submissions.modify request fun x =>
        { x with records := x.records ++ [record] } }
  | .auxiliaryPublished request report text =>
    pure { s with
      submissions := s.submissions.modify request fun x => { x with result := some report }
      history := match text with
        | some text => s.history ++ [.object [("content", .string text), ("role", .string "assistant")]]
        | none => s.history }
  | .queueMoved request _ before =>
    pure { s with queueOrder := insertBefore (without s.queueOrder request) before request }
  | .queueEdited request _ input =>
    if request ∈ s.submissions then
      match input with
      | some input =>
        pure { s with submissions := s.submissions.modify request fun x => { x with input := input } }
      | none => pure { s with queueOrder := request :: without s.queueOrder request }
    else pure s
  | .submitted submission =>
    pure { s with
      submissions := s.submissions.insert submission.id submission
      queueOrder := s.queueOrder ++ [submission.id] }
  | .submissionChanged request status =>
    pure { s with
      submissions := s.submissions.modify request fun x => { x with status := status }
      queueOrder := if status.pending then s.queueOrder else without s.queueOrder request }
  | .input kind content => do
    let feedbacks ← insertFeedbacks s.feedbacks (content.flatMap reviewParts)
    let s := s.begin kind operation
    pure { s with
      feedbacks := feedbacks
      title := s.title.or (firstTitle content)
      history := s.history ++ content }
  | .response request items =>
    pure { s with
      toolCalls := (callIds items).foldl (fun calls id => calls.insert id ⟨request, none⟩) s.toolCalls
      history := s.history ++ items }
  | .interpreter request event => pure { s with interpreter := s.interpreter.apply request event }
  | .providerUsage .. => pure s
  | .providerCost .. => pure s
  | .contextPrepared .. => pure s
  | .traceRecorded .. => pure s
  | .childLifecycle _ => pure s
  | .feedback message => pure { s with history := s.history ++ [developerItem message] }
  | .toolResultPart request callId offset output =>
    if s.awaitsPart request callId then
      match s.toolOutputBuffers.append request callId offset output with
      | .ok buffers => pure { s with toolOutputBuffers := buffers }
      | .error e => .error ⟨e.text⟩
    else .error ⟨"tool output part has no pending call in this request"⟩
  | .toolResultEnd .. => pure s
  | .toolResult _ callId output =>
    pure { s with
      toolCalls := s.toolCalls.modify callId fun call => { call with output := some (Digest.ofStr output) }
      history := s.history ++ [outputItem callId output] }
  | .taskLinked request task =>
    pure { s with
      branch := { s.branch with pendingTask := some task }
      currentTask := some task
      tasksByRequest := s.tasksByRequest.insert request task }
  | .turnSettled request outcome error =>
    pure { s with
      interpreter := s.interpreter.interrupt request
      toolOutputBuffers := ∅
      activeRequest := none
      outcome := outcome
      error := error }
  | .settingsChanged settings =>
    if s.admission.isSome then .error ⟨"bound session settings are immutable"⟩
    else pure { s with config := { s.config with model := settings } }
  | .contextTransition transition =>
    match transition.validateAcceptance s with
    | .ok _ => pure { s with contextTransitions := s.contextTransitions ++ [transition] }
    | .error e => .error ⟨e.text⟩
  | .contextProjected _ view _ => pure { s with contextView := view.map ContextView.manifest }

def record (s : SessionState) (operation : Uuid) (digest : Digest) : SessionState :=
  { s with
    operations := s.operations.insert operation digest
    revision := s.revision + 1
    settledRevision := if s.activeRequest.isNone then s.revision + 1 else s.settledRevision
    settledHistoryItems :=
      if s.activeRequest.isNone then s.history.length else s.settledHistoryItems }

/-- a command that is applied as it stands -/
def applyPlain (s : SessionState) (operation : Uuid) (c : SessionCommand ContextView) :
    Except JsonError SessionState := do
  let s ← s.update operation c
  pure (s.record operation c.digest)

def apply (s : SessionState) (operation : Uuid) (c : SessionCommand ContextView) :
    Except JsonError SessionState :=
  match c with
  | .toolResultEnd request callId digest => do
    refuseIf (s.activeRequest ≠ some request) ⟨"tool output end belongs to an inactive request"⟩
    match s.toolOutputBuffers.finish request callId digest with
    | .ok (output, buffers) =>
      applyPlain { s with toolOutputBuffers := buffers } operation (.toolResult request callId output)
    | .error e => .error ⟨e.text⟩
  | c => s.applyPlain operation c

def workspace (s : SessionState) : String :=
  match s.admission with
  | some profile => profile.request.workspace
  | none => s.config.workspace

def model (s : SessionState) : ModelSettings :=
  match s.admission with
  | some profile => profile.request.model
  | none => s.config.model

def contextWindowTokens (s : SessionState) : Nat :=
  match s.admission with
  | some profile => profile.request.contextWindowTokens
  | none => s.config.contextWindowTokens

end SessionState

/-! ## inversion -/

theorem applyPlain_ok (h : s.applyPlain operation c = .ok s') :
    ∃ t, s.update operation c = .ok t ∧ s' = t.record operation c.digest := by
  obtain ⟨t, ht, h⟩ := bind_ok h
  exact ⟨t, ht, (Except.ok.inj h).symm⟩

theorem finish_ok {b b' : ToolOutputBuffers} {request : Uuid} {callId output : String}
    {digest : Digest} (h : b.finish request callId digest = .ok (output, b')) :
    b[callId]? = some ⟨request, output⟩ ∧ digest = Digest.ofStr output ∧ b' = b.erase callId := by
  unfold ToolOutputBuffers.finish at h
  split at h
  · cases h
  · rename_i pending hget
    obtain ⟨hc, h⟩ := refuseIf_bind h
    obtain ⟨htext, hb⟩ := Prod.mk.inj (Except.ok.inj h)
    rw [not_or, not_not, not_not] at hc
    obtain ⟨hreq, hdig⟩ := hc
    rw [hget, ← htext, ← hreq, ← hdig]
    exact ⟨rfl, rfl, hb.symm⟩

/-- the command that the end of a chunked result stands for -/
def completes (s : SessionState) (request : Uuid) (callId output : String) : Prop :=
  s.activeRequest = some request ∧ s.toolOutputBuffers[callId]? = some ⟨request, output⟩

def SessionState.dropBuffer (s : SessionState) (callId : String) : SessionState :=
  { s with toolOutputBuffers := s.toolOutputBuffers.erase callId }

/-- **Every successful command is an update and its record**: of the command itself, or, at the
end of a chunked result, of the tool result that the buffers hold. -/
theorem apply_cases (h : s.apply operation c = .ok s') :
    ((∀ request callId digest, c ≠ .toolResultEnd request callId digest) ∧
      ∃ t, s.update operation c = .ok t ∧ s' = t.record operation c.digest) ∨
    (∃ request callId output t, c = .toolResultEnd request callId (Digest.ofStr output) ∧
      completes s request callId output ∧
      (s.dropBuffer callId).update operation (.toolResult request callId output) = .ok t ∧
      s' = t.record operation (SessionCommand.digest (.toolResult request callId output))) := by
  cases c <;> simp only [SessionState.apply] at h
  case toolResultEnd request callId digest =>
    obtain ⟨hactive, h⟩ := refuseIf_bind h
    split at h
    · rename_i output buffers hfin
      obtain ⟨hget, rfl, rfl⟩ := finish_ok hfin
      obtain ⟨t, ht, rfl⟩ := applyPlain_ok h
      exact Or.inr ⟨request, callId, output, t, rfl, ⟨not_not.mp hactive, hget⟩, ht, rfl⟩
    · cases h
  all_goals exact Or.inl ⟨fun _ _ _ h => (nomatch h), applyPlain_ok h⟩

/-- what each command makes of a state that accepts it, before the record -/
inductive Applied (s : SessionState) (operation : Uuid) :
    SessionCommand ContextView → SessionState → Prop where
  | interpreter (request : Uuid) (event : InterpreterEvent) :
      Applied s operation (.interpreter request event)
        { s with interpreter := s.interpreter.apply request event }
  | completionHook {event : DeliveryEvent} {deliveries : BTreeMap Uuid CompletionDelivery}
      (h : event.apply s.id s.completionDeliveries = .ok deliveries) :
      Applied s operation (.completionHook event) { s with completionDeliveries := deliveries }
  | childLifecycle (event : Value) : Applied s operation (.childLifecycle event) s
  | traceRecorded (request : Uuid) (record : Digest) :
      Applied s operation (.traceRecorded request record) s
  | admissionPinned (profile : SessionAdmissionProfile) (digest : Digest) :
      Applied s operation (.admissionPinned profile digest) { s with admission := some profile }
  | reviewRecorded (feedback : Digest) : Applied s operation (.reviewRecorded feedback)
      { s with feedbacks := s.feedbacks.insert feedback }
  | legacyImportBound (fingerprint : Digest) : Applied s operation (.legacyImportBound fingerprint) s
  | shellStarted (job : ManualJob) :
      Applied s operation (.shellStarted job) (s.shellStarted operation job)
  | shellPublished (request : Uuid) (report : Digest) (seed : Option WorkspaceSeed) (settled : Bool) :
      Applied s operation (.shellPublished request report seed settled)
        (s.shellPublished request report seed settled)
  | workspaceSaved (request : Uuid) (seed : WorkspaceSeed) :
      Applied s operation (.workspaceSaved request seed)
        { s with branch := { s.branch with workspace := some seed, pendingTask := none } }
  | auxiliaryStarted : Applied s operation .auxiliaryStarted (s.begin .auxiliary operation)
  | auxiliaryRecorded (request : Uuid) (record : Digest) :
      Applied s operation (.auxiliaryRecorded request record)
        { s with submissions := s.submissions.modify request fun x =>
            { x with records := x.records ++ [record] } }
  | auxiliaryPublished (request : Uuid) (report : Digest) (text : Option String) :
      Applied s operation (.auxiliaryPublished request report text)
        { s with
          submissions := s.submissions.modify request fun x => { x with result := some report }
          history := match text with
            | some text =>
              s.history ++ [.object [("content", .string text), ("role", .string "assistant")]]
            | none => s.history }
  | queueMoved (request : Uuid) (expected : Digest) (before : Option Uuid) :
      Applied s operation (.queueMoved request expected before)
        { s with queueOrder := insertBefore (without s.queueOrder request) before request }
  | inputEdited {request : Uuid} (expected input : Digest) (h : request ∈ s.submissions) :
      Applied s operation (.queueEdited request expected (some input))
        { s with submissions := s.submissions.modify request fun x => { x with input := input } }
  | requeued {request : Uuid} (expected : Digest) (h : request ∈ s.submissions) :
      Applied s operation (.queueEdited request expected none)
        { s with queueOrder := request :: without s.queueOrder request }
  | editedNone {request : Uuid} (expected : Digest) (input : Option Digest)
      (h : request ∉ s.submissions) : Applied s operation (.queueEdited request expected input) s
  | submitted (submission : Submission) :
      Applied s operation (.submitted submission)
        { s with
          submissions := s.submissions.insert submission.id submission
          queueOrder := s.queueOrder ++ [submission.id] }
  | submissionChanged (request : Uuid) (status : SubmissionStatus) :
      Applied s operation (.submissionChanged request status)
        { s with
          submissions := s.submissions.modify request fun x => { x with status := status }
          queueOrder := if status.pending then s.queueOrder else without s.queueOrder request }
  | input (kind : RequestKind) {content : List Value} {feedbacks : BTreeSet Digest}
      (h : insertFeedbacks s.feedbacks (content.flatMap reviewParts) = .ok feedbacks) :
      Applied s operation (.input kind content)
        { s.begin kind operation with
          feedbacks := feedbacks
          title := s.title.or (firstTitle content)
          history := s.history ++ content }
  | response (request : Uuid) (items : List Value) :
      Applied s operation (.response request items)
        { s with
          toolCalls := (callIds items).foldl (fun calls id => calls.insert id ⟨request, none⟩) s.toolCalls
          history := s.history ++ items }
  | providerUsage (request : Uuid) (call : Option Uuid) (usage : Value) (representation : Option Value) :
      Applied s operation (.providerUsage request call usage representation) s
  | providerCost (request call : Uuid) (cost : Option Nat) :
      Applied s operation (.providerCost request call cost) s
  | feedback (message : String) : Applied s operation (.feedback message)
      { s with history := s.history ++ [developerItem message] }
  | toolResult (request : Uuid) (callId output : String) :
      Applied s operation (.toolResult request callId output)
        { s with
          toolCalls := s.toolCalls.modify callId fun call => { call with output := some (Digest.ofStr output) }
          history := s.history ++ [outputItem callId output] }
  | toolResultPart {request : Uuid} {callId output : String} {offset : Nat} {buffers : ToolOutputBuffers}
      (h : s.toolOutputBuffers.append request callId offset output = .ok buffers) :
      Applied s operation (.toolResultPart request callId offset output)
        { s with toolOutputBuffers := buffers }
  | toolResultEnd {request : Uuid} {callId output : String} (h : completes s request callId output) :
      Applied s operation (.toolResultEnd request callId (Digest.ofStr output))
        { s.dropBuffer callId with
          toolCalls := s.toolCalls.modify callId fun call => { call with output := some (Digest.ofStr output) }
          history := s.history ++ [outputItem callId output] }
  | taskLinked (request : Uuid) (task : TaskId) :
      Applied s operation (.taskLinked request task)
        { s with
          branch := { s.branch with pendingTask := some task }
          currentTask := some task
          tasksByRequest := s.tasksByRequest.insert request task }
  | turnSettled (request : Uuid) (outcome : Option Outcome) (error : Option String) :
      Applied s operation (.turnSettled request outcome error)
        { s with
          interpreter := s.interpreter.interrupt request
          toolOutputBuffers := ∅
          activeRequest := none
          outcome := outcome
          error := error }
  | settingsChanged (settings : ModelSettings) : Applied s operation (.settingsChanged settings)
      { s with config := { s.config with model := settings } }
  | contextPrepared (request call : Uuid) (manifest : Digest) :
      Applied s operation (.contextPrepared request call manifest) s
  | contextTransition {transition : ContextTransition} {u : Unit}
      (h : transition.validateAcceptance s = .ok u) :
      Applied s operation (.contextTransition transition)
        { s with contextTransitions := s.contextTransitions ++ [transition] }
  | contextProjected (revision : Nat) (view : Option ContextView) (projection : List Value) :
      Applied s operation (.contextProjected revision view projection)
        { s with contextView := view.map ContextView.manifest }

theorem applied_of_update {t : SessionState}
    (hend : ∀ request callId digest, c ≠ .toolResultEnd request callId digest)
    (h : s.update operation c = .ok t) : Applied s operation c t := by
  cases c <;> simp only [SessionState.update] at h
  case completionHook event =>
    obtain ⟨_, hd, h⟩ := bind_ok h
    cases h
    exact .completionHook hd
  case admissionPinned profile digest =>
    obtain ⟨_, h⟩ := refuseIf_bind h
    cases h
    exact .admissionPinned profile digest
  case queueEdited request expected input =>
    split at h
    · rename_i hin
      cases input <;> cases h
      · exact .requeued expected hin
      · exact .inputEdited expected _ hin
    · rename_i hin
      cases h
      exact .editedNone expected input hin
  case input kind content =>
    obtain ⟨_, hf, h⟩ := bind_ok h
    cases h
    exact .input kind hf
  case toolResultPart request callId offset output =>
    split at h
    · split at h
      · rename_i hpart
        cases h
        exact .toolResultPart hpart
      · cases h
    · cases h
  case toolResultEnd => exact absurd rfl (hend _ _ _)
  case settingsChanged settings =>
    split at h
    · cases h
    · cases h
      exact .settingsChanged settings
  case contextTransition transition =>
    split at h
    · rename_i hval
      cases h
      exact .contextTransition hval
    · cases h
  all_goals
    cases h
    constructor

/-- **Every successful command is a change and its record.** -/
theorem apply_applied (h : s.apply operation c = .ok s') :
    ∃ t digest, Applied s operation c t ∧ s' = t.record operation digest ∧
      ((∀ request callId d, c ≠ .toolResultEnd request callId d) → digest = c.digest) := by
  rcases apply_cases h with ⟨hend, t, ht, rfl⟩ | ⟨request, callId, output, t, rfl, hc, ht, rfl⟩
  · exact ⟨t, _, applied_of_update hend ht, rfl, fun _ => rfl⟩
  · cases ht
    exact ⟨_, _, .toolResultEnd hc, rfl, fun hend => absurd rfl (hend _ _ _)⟩

/-! ## submissions -/

def SessionCommand.edit (operation : Uuid) :
    SessionCommand ContextView → Option (Uuid × (Submission → Submission))
  | .shellStarted job => some (operation, fun x => { x with manualJob := some job })
  | .shellPublished request report _ _ => some (request, fun x => { x with result := some report })
  | .auxiliaryRecorded request record =>
    some (request, fun x => { x with records := x.records ++ [record] })
  | .auxiliaryPublished request report _ => some (request, fun x => { x with result := some report })
  | .queueEdited request _ (some digest) => some (request, fun x => { x with input := digest })
  | .submissionChanged request status => some (request, fun x => { x with status := status })
  | _ => none

def edited (edit : Option (Uuid × (Submission → Submission))) (id : Uuid) (x : Submission) : Submission :=
  match edit with
  | some (request, f) => if id = request then f x else x
  | none => x

variable {s t : SessionState} {operation : Uuid} {c : SessionCommand ContextView}

theorem edited_modify (m : Std.ExtTreeMap Uuid Submission) (request : Uuid)
    (f : Submission → Submission) (id : Uuid) :
    (m.modify request f)[id]? = m[id]?.map (edited (some (request, f)) id) := by
  rw [Std.ExtTreeMap.getElem?_modify]
  split
  · rename_i he
    have he := Std.LawfulEqOrd.compare_eq_iff_eq.mp he
    have hf : edited (some (request, f)) id = f := funext fun x => if_pos he.symm
    rw [hf, he]
  · rename_i he
    have he : id ≠ request := fun h => he (Std.LawfulEqOrd.compare_eq_iff_eq.mpr h.symm)
    have hid : edited (some (request, f)) id = fun x => x := funext fun x => if_neg he
    rw [hid, Option.map_id']

theorem edited_none (m : Std.ExtTreeMap Uuid Submission) (id : Uuid) :
    m[id]? = m[id]?.map (edited none id) := by
  rw [show edited none id = fun x => x from rfl, Option.map_id']

/-- **Every command but a new submission edits one submission or none.** -/
theorem apply_submissions (h : s.apply operation c = .ok t) (hc : ∀ x, c ≠ .submitted x) (id : Uuid) :
    t.submissions[id]? = s.submissions[id]?.map (edited (c.edit operation) id) := by
  obtain ⟨u, _, hu, rfl, -⟩ := apply_applied h
  show u.submissions[id]? = _
  cases hu with
  | submitted x => exact absurd rfl (hc x)
  | shellStarted job =>
    unfold SessionState.shellStarted
    cases job.task <;> exact edited_modify s.submissions _ _ id
  | shellPublished => exact edited_modify s.submissions _ _ id
  | auxiliaryRecorded => exact edited_modify s.submissions _ _ id
  | auxiliaryPublished => exact edited_modify s.submissions _ _ id
  | submissionChanged => exact edited_modify s.submissions _ _ id
  | inputEdited => exact edited_modify s.submissions _ _ id
  | @editedNone request expected input hnone =>
    cases input with
    | none => exact edited_none s.submissions id
    | some input =>
      -- no submission has the name, and the edit has nothing to change
      have hget : s.submissions[request]? = none := by
        by_contra hne
        exact hnone (Std.ExtTreeMap.mem_iff_isSome_getElem?.mpr (Option.isSome_iff_ne_none.mpr hne))
      by_cases hid : id = request
      · rw [hid, hget]
        rfl
      · have hsame : edited (SessionCommand.edit operation (.queueEdited request expected (some input)))
            id = fun x => x := funext fun x => if_neg hid
        rw [hsame, Option.map_id']
  | _ => exact edited_none s.submissions id

theorem apply_submitted {x : Submission} (h : s.apply operation (.submitted x) = .ok t) (id : Uuid) :
    t.submissions[id]? = if id = x.id then some x else s.submissions[id]? := by
  rcases apply_cases h with ⟨-, u, hu, rfl⟩ | ⟨_, _, _, _, hc, _⟩
  · cases hu
    show (s.submissions.insert x.id x)[id]? = _
    rw [Std.ExtTreeMap.getElem?_insert]
    by_cases he : id = x.id
    · rw [if_pos (Std.LawfulEqOrd.compare_eq_iff_eq.mpr he.symm), if_pos he]
    · rw [if_neg fun hc => he (Std.LawfulEqOrd.compare_eq_iff_eq.mp hc).symm, if_neg he]
  · cases hc

end

end Orvek
