import Orvek.Store.Sessions

/-!
# The operations of the store on a session and its task

A request of the user changes a session and a task in one transaction:

* `startRecord`, `resumeTask`   a request that begins a task, or takes it up again;
* `submit`, `editSubmission`, `continueSubmission`   the queue of the user;
* `beginShell`, `finishShell`   a command that the user runs beside the task.

Every operation returns the states it leaves beside what the source returns.
-/

set_option linter.unusedSectionVars false

namespace Orvek
open Checks Json

section
variable [Sha256] [ContractCodec] [SessionCodec] [StoreCodec] [JsonReader]

def userItem (text : String) : Value := .object [("content", .string text), ("role", .string "user")]

/-- `load_state` again for the head of the event before, then the next event -/
def appendNext (env : Env) (s : TaskState) (id : TaskId) (e : TaskEvent) (db : Db) :
    Except StoreError (TaskState × Db) := do
  let (_, head) ← loadState db id
  appendTaskEvent env s head e db

def linkTask (env : Env) (s : SessionState) (head : Digest) (operation : Uuid) (content : List Value)
    (task : TaskId) (db : Db) : Except StoreError (SessionState × Db) := do
  let (s, head, db) ← appendSessionCommand s head operation (.input .task content)
    (env.appendClock 0) db
  let (s, _, db) ← appendSessionCommand s head (operation.named "task-link")
    (.taskLinked operation task) (env.appendClock 1) db
  .ok (s, db)

/-! ## the beginning of a task -/

/-- what a request asks for -/
structure StartRequest where
  request : String
  limits : Limits
  contract : Option Contract
  intake : Option Digest
  prepared : Option PreparedInput

def StartRequest.artifact (r : StartRequest) : Option Digest := r.prepared.map (·.artifact)

def StartRequest.content (r : StartRequest) : List Value :=
  (r.prepared.map (·.messages)).getD [userItem r.request]

def firstEvent (db : Db) (id : TaskId) : Except StoreError TaskEvent := do
  let row ← orSql ((db.tasks.get id).bind fun a => a.events.find? fun r => r.revision = 1)
  row.event.read

def StartRequest.made (r : StartRequest) : TaskEvent → Bool
  | .created initial _ => r.contract == some initial
  | .requested initial limits intake input _ =>
    r.contract.isNone && initial == r.request && limits == r.limits && some intake == r.intake &&
      input == r.artifact
  | _ => false

def WorkIntent.isOrdinary : WorkIntent → Bool
  | .ordinary .. => true
  | _ => false

/-- the request is one that the classifier may still be working on -/
def ordinarySubmission (s : SessionState) (operation : Uuid) : Bool :=
  s.submissions[operation]?.any fun submission => submission.intent.isOrdinary

def StartRequest.accepted (r : StartRequest) : WorkIntent → Bool
  | .newTask limits policy => limits == r.limits && some policy == r.intake && r.contract.isNone
  | .ordinary limits policy _ => limits == r.limits && some policy == r.intake && r.contract.isNone
  | _ => false

def admitStart (s : SessionState) (operation : Uuid) (r : StartRequest) : Except StoreError Unit := do
  refuseIf ((s.activeRequest.any fun active => active != operation) = true ∨
      (s.activeRequest = some operation ∧ ordinarySubmission s operation = false))
    (StoreError.invalid "session request is already active")
  refuseIf (¬ (ordinarySubmission s operation = true ∧
        operation.named "classification-intended" ∈ s.operations) ∧
      s.branch.pendingShell.isSome = true)
    (StoreError.invalid "reconcile the pending shell before starting another task")
  refuseIf ((s.submissions[operation]?.any fun submission =>
      submission.status != .running || r.artifact != some submission.input ||
        !r.accepted submission.intent) = true)
    (StoreError.invalid "execution differs from its admitted submission")

def StartRequest.begin (r : StartRequest) (id : TaskId) (atMs : Nat) :
    Except StoreError (TaskEvent × TaskState) :=
  match r.contract, r.intake with
  | some contract, _ => .ok (.created contract atMs, TaskState.created id contract atMs)
  | none, some intake =>
    .ok (.requested r.request r.limits intake r.artifact atMs,
      TaskState.requested id r.request r.limits atMs (some intake) r.artifact)
  | none, none => .error (.invalid "request requires its intake policy")

/-- a request that begins a task; when it did so before, the task it began -/
def startRecord (env : Env) (sessionId : SessionId) (operation : Uuid) (r : StartRequest)
    (id : TaskId) (db : Db) : Except StoreError (SessionState × TaskState × Bool × Db) := do
  let (session, head) ← loadSessionState db sessionId none
  match session.tasksByRequest[operation]? with
  | some id => do
    let (task, _) ← loadState db id
    let first ← firstEvent db id
    refuseIf (r.made first = false)
      (StoreError.invalid "request ID reused with different task input")
    .ok (session, task, false, db)
  | none => do
    admitStart session operation r
    let (event, task) ← r.begin id (env.now 0)
    let db ← createTask env id event task db
    let (session, db) ← linkTask env session head operation r.content id db
    .ok (session, task, true, db)

def startTask (env : Env) (sessionId : SessionId) (operation : Uuid) (contract : Contract)
    (id : TaskId) (db : Db) : Except StoreError (SessionState × TaskState × Bool × Db) := do
  contract.validate.mapError StoreError.contract
  startRecord env sessionId operation ⟨contract.request, contract.limits, some contract, none, none⟩ id db

def startRequest (env : Env) (sessionId : SessionId) (operation : Uuid) (request : String)
    (limits : Limits) (intake : Digest) (id : TaskId) (db : Db) :
    Except StoreError (SessionState × TaskState × Bool × Db) := do
  refuseIf (blank request = true) (StoreError.invalid "empty task request")
  limits.validate.mapError StoreError.contract
  env.policy intake
  startRecord env sessionId operation ⟨request, limits, none, some intake, none⟩ id db

def startPreparedRequest (env : Env) (sessionId : SessionId) (operation : Uuid)
    (input : PreparedInput) (limits : Limits) (intake : Digest) (id : TaskId) (db : Db) :
    Except StoreError (SessionState × TaskState × Bool × Db) := do
  refuseIf (blank input.text = true)
    (StoreError.invalid "a new coding task requires a textual instruction with its images")
  limits.validate.mapError StoreError.contract
  env.policy intake
  let messages ← env.messages input.artifact
  refuseIf (messages ≠ input.messages)
    (StoreError.integrity "input payload differs from its artifact")
  startRecord env sessionId operation ⟨input.text, limits, none, some intake, some input⟩ id db

/-! ## taking up a task again -/

def unreconciledEffects (s : TaskState) : List Effect := (valuesOf s.effects).filter Completion.unreconciled

/-- calls of the provider whose outcome or price is open -/
def unsettledCalls (s : TaskState) : List Uuid :=
  s.modelReservations.toList.filter fun call => !Completion.settledCall s.modelReceipts call

def checkResumable (task : TaskState) : Except StoreError Unit := do
  refuseIf (task.outcome = none ∨ task.outcome = some .complete)
    (StoreError.invalid "resume requires a settled incomplete task")
  refuseIf (unresolvedJobs task ≠ [] ∨ unreconciledEffects task ≠ [] ∨ unsettledCalls task ≠ [])
    (StoreError.invalid "reconcile unfinished jobs, effects and provider attempts before resuming")

def resumeTask (env : Env) (sessionId : SessionId) (operation : Uuid) (id : TaskId) (revision : Nat)
    (reason : String) (db : Db) : Except StoreError (SessionState × TaskState × Bool × Db) := do
  refuseIf (blank reason = true) (StoreError.invalid "resuming requires a user basis")
  let (session, head) ← loadSessionState db sessionId none
  let (task, taskHead) ← loadState db id
  match session.tasksByRequest[operation]? with
  | some previous => do
    refuseIf (previous ≠ id ∨ session.operations[operation]? ≠
        some (SessionCommand.digest (.input .task [userItem reason])))
      (StoreError.invalid "resume request ID reused with different input")
    .ok (session, task, false, db)
  | none => do
    refuseIf (session.activeRequest.isSome = true ∨ operation ∈ session.operations)
      (StoreError.invalid "session already has an active request")
    refuseIf (id ∉ valuesOf session.tasksByRequest)
      (StoreError.invalid "task does not belong to this session")
    checkRevision (some revision) task.revision
    checkResumable task
    -- the reset is committed by the event, which makes it once more
    let task := { task with cancellationRequested := false }
    checkBudget env 0 task
    let (task, db) ← appendTaskEvent env task taskHead (.reopened reason) db
    let (session, db) ← linkTask env session head operation [userItem reason] id db
    .ok (session, task, true, db)

/-! ## submissions -/

def ShellSpec.validate (spec : ShellSpec) : Except StoreError Unit := do
  refuseIf (blank spec.command = true ∨ 64 * 1024 < strLen spec.command ∨
      '\x00' ∈ spec.command.toList ∨ spec.timeoutMs = 0 ∨ 300000 < spec.timeoutMs ∨
      spec.outputBytes = 0 ∨ 1024 * 1024 < spec.outputBytes)
    (StoreError.invalid "shell command or execution bounds are invalid")
  refuseIf (spec.scopeRevision.isSome = true ∧ spec.expectedTask.isNone = true)
    (StoreError.invalid "shell scope requires its task identity")

def AuxiliarySpec.validate (spec : AuxiliarySpec) : Except StoreError Unit :=
  refuseIf (spec.limits.modelCalls = 0 ∨ 32 < spec.limits.modelCalls ∨ spec.limits.tokens = 0 ∨
      256000 < spec.limits.tokens ∨ spec.limits.elapsedMs = 0 ∨ 600000 < spec.limits.elapsedMs)
    (StoreError.invalid "auxiliary limits exceed the supported bounds")

/-- `text.strip_prefix("! ")` -/
def shellCommand (text : String) : Except StoreError String :=
  match text.toList with
  | '!' :: ' ' :: command => .ok (String.ofList command)
  | _ => .error (.invalid "shell edit must keep its command prefix")

/-- one directive, which makes every lease of the task useless -/
def directTask (env : Env) (id : TaskId) (task : TaskState) (head : Digest) (e : TaskEvent) (db : Db) :
    Except StoreError (TaskState × Db) := do
  let (task, db) ← appendTaskEvent env task head e db
  .ok (task, { db with leases := Leases.dropTask db.leases id })

/-- an edit of a continuation that the task already knows, or that is moved to the front -/
def editContinuation (env : Env) (session : SessionState) (id : TaskId) (request : Uuid)
    (replacement : Digest) (input : Option Digest) (db : Db) :
    Except StoreError (Option TaskState × Db) := do
  refuseIf (session.currentTask ≠ some id)
    (StoreError.invalid "continuation no longer targets the current task")
  let (task, head) ← loadState db id
  refuseIf ((task.directiveScopes[request]?.any fun scope => scope ≤ task.admittedScopeRevision) = true)
    (StoreError.invalid
      "this input has already entered the accepted contract; send a new follow-up")
  if request ∈ task.directiveScopes then do
    let (task, db) ← directTask env id task head (.directiveReplaced request replacement) db
    .ok (some task, db)
  else if input.isNone then do
    let (task, db) ← directTask env id task head (.directiveReceived request replacement) db
    .ok (some task, db)
  else .ok (none, db)

/-- what the intent of a submission asks of an edit -/
def admitEdit (env : Env) (session : SessionState) (request : Uuid) (prepared : PreparedInput)
    (replacement : Digest) (input : Option Digest) (db : Db) :
    WorkIntent → Except StoreError (Option TaskState × Db)
  | .shell spec => do
    let command ← shellCommand prepared.text
    ShellSpec.validate { spec with command := command }
    .ok (none, db)
  | .newTask .. => do
    refuseIf (blank prepared.text = true)
      (StoreError.invalid "new coding tasks require a textual objective")
    .ok (none, db)
  | .continue id .. => editContinuation env session id request replacement input db
  | _ => .ok (none, db)

def editSubmission (env : Env) (sessionId : SessionId) (operation request : Uuid)
    (expectedInput : Digest) (input : Option Digest) (db : Db) :
    Except StoreError (Submission × SessionState × Option TaskState × Db) := do
  let command : SessionCommand ContextView := .queueEdited request expectedInput input
  let (session, head) ← loadSessionState db sessionId none
  match session.operations[operation]? with
  | some previous => do
    refuseIf (previous ≠ command.digest)
      (StoreError.invalid "queue edit operation ID reused with different input")
    let submission ← orInvalid "unknown submission" session.submissions[request]?
    .ok (submission, session, none, db)
  | none => do
    let submission ← orInvalid "unknown submission" session.submissions[request]?
    refuseIf (submission.status ≠ .queued ∨ submission.input ≠ expectedInput)
      (StoreError.invalid "queued input was changed or claimed before the edit")
    let replacement := input.getD expectedInput
    let prepared ← env.input replacement
    let (task, db) ← admitEdit env session request prepared replacement input db submission.intent
    let (session, _, db) ← appendSessionCommand session head operation command (env.appendClock 0) db
    let submission ← orInvalid "unknown submission" session.submissions[request]?
    .ok (submission, session, task, db)

def pendingOf (s : SessionState) : List Submission :=
  (valuesOf s.submissions).filter fun submission => submission.status.pending

/-- `pending_submissions`: the newest session is counted first -/
def pendingSubmissions (db : Db) : Except StoreError Nat :=
  db.sessions.reverse.foldlM (fun count row => do
    let (s, _) ← loadSessionState db row.1 none
    .ok (count + (pendingOf s).length)) 0

/-- the host takes at most 128 submissions, one that it knows apart -/
def admitCapacity (session : SessionState) (id : Uuid) (db : Db) : Except StoreError Unit :=
  if id ∈ session.submissions then .ok ()
  else do
    let pending ← pendingSubmissions db
    refuseIf (128 ≤ pending) (StoreError.invalid "host queue capacity reached")

def admitNewTask (env : Env) (limits : Limits) (policy : Digest) (text error : String) :
    Except StoreError Unit := do
  limits.validate.mapError StoreError.contract
  env.policy policy
  refuseIf (blank text = true) (StoreError.invalid error)

def admitIntent (env : Env) (prepared : PreparedInput) : WorkIntent → Except StoreError Unit
  | .shell spec => do
    spec.validate
    refuseIf (prepared.text ≠ "! " ++ spec.command)
      (StoreError.invalid "shell input differs from its command")
  | .auxiliary spec => spec.validate
  | .newTask limits policy =>
    admitNewTask env limits policy prepared.text "new coding tasks require a textual objective"
  | .ordinary limits policy _ =>
    admitNewTask env limits policy prepared.text "ordinary input requires text"
  | .continue .. => .ok ()

/-- a continuation that steers the task reaches it at once -/
def submitContinuation (env : Env) (session : SessionState) (id : Uuid) (input : Digest) (db : Db) :
    WorkIntent → Except StoreError (Option TaskState × Db)
  | .continue taskId scopeRevision schedule => do
    refuseIf (session.currentTask ≠ some taskId)
      (StoreError.invalid "continuation must name the session's current task")
    let (task, head) ← loadState db taskId
    refuseIf (task.scopeRevision ≠ scopeRevision) (StoreError.revision scopeRevision task.scopeRevision)
    refuseIf (128 ≤ task.directives.length) (StoreError.invalid "task follow-up limit reached")
    if schedule = .steer then do
      let (task, db) ← directTask env taskId task head (.directiveReceived id input) db
      .ok (some task, db)
    else .ok (none, db)
  | _ => .ok (none, db)

def submit (env : Env) (sessionId : SessionId) (id : Uuid) (input : Digest) (intent : WorkIntent)
    (db : Db) : Except StoreError (Submission × SessionState × Option TaskState × Db) := do
  let (session, head) ← loadSessionState db sessionId none
  admitCapacity session id db
  let prepared ← env.input input
  admitIntent env prepared intent
  match session.submissions[id]? with
  | some previous => do
    refuseIf (previous.initialInput ≠ input ∨ previous.intent ≠ intent)
      (StoreError.invalid "submission ID reused with different input or intent")
    .ok (previous, session, none, db)
  | none => do
    refuseIf (id ∈ session.operations)
      (StoreError.invalid "submission ID already belongs to another operation")
    refuseIf (16 ≤ (pendingOf session).length) (StoreError.invalid "session queue capacity reached")
    let (task, db) ← submitContinuation env session id input db intent
    let submission : Submission := {
      manualJob := none
      id := id
      input := input
      initialInput := input
      records := []
      result := none
      intent := intent
      status := .queued
      submittedRevision := session.revision + 1
      submittedMs := env.now 0 }
    let (session, _, db) ← appendSessionCommand session head (id.named "submitted")
      (.submitted submission) (env.appendClock 0) db
    .ok (submission, session, task, db)

/-- `submission` -/
def submissionOf (s : SessionState) (request : Uuid) : Except StoreError Submission :=
  orInvalid "unknown submission" s.submissions[request]?

def neighbors (s : SessionState) (request : Uuid) (before : Option Uuid) : Bool :=
  before.all fun id => id != request && s.submissions[id]?.any fun x => x.status == .queued

def moveSubmission (env : Env) (sessionId : SessionId) (operation request : Uuid)
    (expectedInput : Digest) (before : Option Uuid) (db : Db) :
    Except StoreError (Submission × SessionState × Db) := do
  let command : SessionCommand ContextView := .queueMoved request expectedInput before
  let (session, _) ← loadSessionState db sessionId none
  let current ← submissionOf session request
  match session.operations[operation]? with
  | some previous => do
    refuseIf (previous ≠ command.digest) (StoreError.invalid "queue move operation ID reused")
    .ok (current, session, db)
  | none => do
    refuseIf (current.status ≠ .queued ∨ current.input ≠ expectedInput)
      (StoreError.invalid "queued input was changed or claimed before the move")
    refuseIf (neighbors session request before = false)
      (StoreError.invalid "queue neighbor is no longer pending")
    let (session, db) ← sessionCommand env sessionId session.revision operation command db
    let submission ← submissionOf session request
    .ok (submission, session, db)

/-- the transitions of a submission; one that runs is cancelled only before it is admitted -/
def transitions (s : SessionState) (request : Uuid) : SubmissionStatus → SubmissionStatus → Bool
  | .queued, .running => true
  | .queued, .cancelled => true
  | .running, .queued => true
  | .running, .finished .. => true
  | .running, .interrupted => true
  | .running, .cancelled => !s.operations.contains request
  | _, _ => false

/-- `operation` is the identifier that is drawn for the command -/
def setSubmissionStatus (env : Env) (sessionId : SessionId) (request : Uuid)
    (status : SubmissionStatus) (operation : Uuid) (db : Db) :
    Except StoreError (Submission × SessionState × Db) := do
  let (session, _) ← loadSessionState db sessionId none
  let previous ← submissionOf session request
  if previous.status = status then .ok (previous, session, db)
  else do
    refuseIf (transitions session request previous.status status = false)
      (StoreError.invalid "invalid submission status transition")
    let (session, db) ← sessionCommand env sessionId session.revision operation
      (.submissionChanged request status) db
    let submission ← submissionOf session request
    .ok (submission, session, db)

def continuedTask (session : SessionState) : WorkIntent → Except StoreError TaskId
  | .continue id .. => .ok id
  | .ordinary .. =>
    orInvalid "ordinary action has no current task to continue" session.currentTask
  | _ => .error (.invalid "submission is not a continuation")

/-- calls of the provider whose outcome is open; their price may be -/
def unknownCalls (s : TaskState) : List Uuid :=
  s.modelReservations.toList.filter fun call =>
    !(s.modelReceipts[call]?.any fun receipt => receipt.status != .unknown)

def admitContinuation (session : SessionState) (task : TaskState) (submission : Submission) (id : TaskId)
    (request : Uuid) : Except StoreError Unit := do
  refuseIf (submission.status ≠ .running)
    (StoreError.invalid "continuation is not claimed for execution")
  refuseIf ((session.activeRequest.any fun active => active != request) = true)
    (StoreError.invalid "session already has an active request")
  refuseIf (session.currentTask ≠ some id)
    (StoreError.invalid "queued continuation was superseded by another task")
  refuseIf (unresolvedJobs task ≠ [] ∨ unreconciledEffects task ≠ [] ∨ unknownCalls task ≠ [])
    (StoreError.invalid "reconcile unfinished jobs, effects and provider attempts before continuing")

def reopenContinuation (env : Env) (id : TaskId) (task : TaskState) (head : Digest) (request : Uuid)
    (input : Digest) (db : Db) : Except StoreError (TaskState × Db) :=
  if request ∈ task.directiveScopes then
    appendTaskEvent env task head (.reopened ("user continuation " ++ request.display)) db
  else do
    let (task, db) ← directTask env id task head (.directiveReceived request input) db
    appendNext env task id (.reopened ("user continuation " ++ request.display)) db

def continueSubmission (env : Env) (sessionId : SessionId) (request : Uuid) (db : Db) :
    Except StoreError (SessionState × TaskState × Bool × Db) := do
  let (session, head) ← loadSessionState db sessionId none
  let submission ← orInvalid "submission has not been accepted" session.submissions[request]?
  let id ← continuedTask session submission.intent
  let prepared ← env.input submission.input
  refuseIf (session.branch.pendingShell.isSome = true)
    (StoreError.invalid "reconcile the pending shell before continuing")
  let (task, taskHead) ← loadState db id
  if session.tasksByRequest[request]? = some id then .ok (session, task, false, db)
  else do
    admitContinuation session task submission id request
    let (task, db) ← reopenContinuation env id task taskHead request submission.input db
    checkBudget env 0 task
    let (session, db) ← linkTask env session head request prepared.messages id db
    .ok (session, task, true, db)

/-! ## commands of the user -/

def shellSpec (intent : WorkIntent) : Except StoreError ShellSpec :=
  match intent with
  | .shell spec => .ok spec
  | _ => .error (.invalid "request is not a user shell command")

def adoption (request : Uuid) (status : EffectStatus) : Effect :=
  ⟨request, "User shell source adoption", status, true⟩

/-- the job of a command of the user, which begins a new generation -/
def shellJob (sessionId : SessionId) (request : Uuid) (input : Digest) (spec : ShellSpec)
    (job : ManualJob) (task : TaskState) : Job where
  id := job.job
  generation := task.generation + 1
  status := .running
  mutatesCandidate := true
  check := none
  identity := none
  startedMs := job.startedMs
  deadlineMs := satAdd64 job.startedMs spec.timeoutMs
  invocation := some ⟨sessionId, request, none, "human_shell", input, job.environment⟩
  fenceReceipt := none
  executionReceipt := none

/-- a command beside a task stops what the task was doing -/
def beginTaskShell (env : Env) (sessionId : SessionId) (request : Uuid) (input : Digest)
    (spec : ShellSpec) (job : ManualJob) (id : TaskId) (db : Db) :
    Except StoreError (TaskState × Db) := do
  let (task, head) ← loadState db id
  refuseIf ((spec.scopeRevision.any fun scope => scope != task.scopeRevision) = true ∨
      job.scopeRevision ≠ some (task.scopeRevision + 1))
    (StoreError.invalid "shell task scope changed")
  refuseIf (unresolvedJobs task ≠ [] ∨ unreconciledEffects task ≠ [])
    (StoreError.invalid "reconcile unfinished task operations before user shell execution")
  let (task, db) ← appendTaskEvent env task head
    (.manualStarted (shellJob sessionId request input spec job task)) db
  appendNext env task id (.effectRecorded (adoption request .intended)) db

/-- the part of `beginShell` that is about the task, when there is one -/
def beginShells (env : Env) (sessionId : SessionId) (request : Uuid) (input : Digest)
    (spec : ShellSpec) (job : ManualJob) (db : Db) : Except StoreError (Option TaskState × Db) :=
  match job.task with
  | none => .ok (none, db)
  | some id => do
    let (task, db) ← beginTaskShell env sessionId request input spec job id db
    .ok (some task, db)

def beginShell (env : Env) (sessionId : SessionId) (request : Uuid) (job : ManualJob) (db : Db) :
    Except StoreError (SessionState × Option TaskState × Db) := do
  let (session, head) ← loadSessionState db sessionId none
  let submission ← orInvalid "unknown shell submission" session.submissions[request]?
  let spec ← shellSpec submission.intent
  spec.validate
  refuseIf (submission.status ≠ .running ∨ session.activeRequest.isSome = true ∨
      request ∈ session.operations ∨ session.branch.pendingTask.isSome = true ∨
      session.branch.pendingShell.isSome = true)
    (StoreError.invalid "shell source is active, unresolved or already claimed")
  refuseIf (job.task ≠ session.currentTask ∨
      (spec.expectedTask.any fun id => job.task != some id) = true)
    (StoreError.invalid "shell target task changed")
  requireSnapshots env "shell input snapshot is unavailable" [job.before, job.origin]
  env.read job.environment
  let (task, db) ← beginShells env sessionId request submission.input spec job db
  let (session, _, db) ← appendSessionCommand session head request (.shellStarted job)
    (env.appendClock 0) db
  .ok (session, task, db)

def ExecutionStatus.jobStatus : ExecutionStatus → JobStatus
  | .exited code => if code = 0 then .succeeded else .failed
  | .unknown _ => .unknown
  | .cancelled => .cancelled
  | _ => .failed

/-- the source that a command left, when its end is known -/
def shellSeed (env : Env) (report : ShellReport) : Except StoreError (Option WorkspaceSeed) :=
  match report.after with
  | some source =>
    if report.status.jobStatus = .unknown then .ok none
    else do
      requireSnapshots env "shell result source is unavailable" [source]
      .ok (some ⟨report.job.origin, source, report.job.task⟩)
  | none => .ok none

def adoptedCandidate (report : ShellReport) (seed : WorkspaceSeed) : Candidate where
  source := seed.source
  artifact := seed.source
  environment := report.job.environment
  frozen := true
  provenance := none

/-- the event that adopts the source of a command, when there is one to adopt -/
def adoptSeed (env : Env) (id : TaskId) (task : TaskState) (report : ShellReport)
    (seed : Option WorkspaceSeed) (db : Db) : Except StoreError (TaskState × Db) :=
  match seed with
  | some seed => appendNext env task id (.manualWorkspace (adoptedCandidate report seed) seed.origin) db
  | none => .ok (task, db)

def adoptionStatus (status : JobStatus) (seed : Option WorkspaceSeed) : EffectStatus :=
  if status = .unknown then .unknown else if seed.isSome then .succeeded else .failed

def shellSettledReason : String := "User shell settled; coding-task verification remains separate"

def supersededReason : String :=
  "User input superseded source adoption; the command result remains archived"

def lookupRunning (task : TaskState) (job : Uuid) : Except StoreError Unit :=
  refuseIf ((task.jobs[job]?.any fun job => job.status == .running) = false)
    (StoreError.invalid "shell job is already settled")

/-- the end of a command beside a task: the source is adopted unless the scope has moved on -/
def settleTaskShell (env : Env) (id : TaskId) (request : Uuid) (report : ShellReport)
    (seed : Option WorkspaceSeed) (db : Db) :
    Except StoreError (TaskState × ShellReport × Option WorkspaceSeed × Db) := do
  let (task, head) ← loadState db id
  lookupRunning task report.job.job
  let (task, db) ← appendTaskEvent env task head
    (.jobSettled report.job.job report.status.jobStatus (some report.receipt)) db
  let moved := report.job.scopeRevision ≠ some task.scopeRevision
  let seed := if moved then none else seed
  let report := if moved then { report with error := some supersededReason } else report
  let (task, db) ← adoptSeed env id task report seed db
  let (task, db) ← appendNext env task id
    (.effectRecorded (adoption request (adoptionStatus report.status.jobStatus seed))) db
  let (task, db) ← appendNext env task id (.stopped .blocked shellSettledReason) db
  .ok (task, report, seed, db)

/-- the part of `finishShell` that is about the task, when there is one -/
def settleShells (env : Env) (request : Uuid) (report : ShellReport) (seed : Option WorkspaceSeed)
    (db : Db) : Except StoreError (Option TaskState × ShellReport × Option WorkspaceSeed × Db) :=
  match report.job.task with
  | none => .ok (none, report, seed, db)
  | some id => do
    let (task, report, seed, db) ← settleTaskShell env id request report seed db
    .ok (some task, report, seed, db)

def finishShell (env : Env) (sessionId : SessionId) (request : Uuid) (report : ShellReport) (db : Db) :
    Except StoreError (Digest × SessionState × Option TaskState × Db) := do
  let (session, head) ← loadSessionState db sessionId none
  let submission ← orInvalid "unknown shell submission" session.submissions[request]?
  refuseIf (session.activeRequest ≠ some request ∨ submission.manualJob ≠ some report.job)
    (StoreError.invalid "shell result has no matching active actor")
  readAll env [report.stdout, report.stderr, report.receipt]
  let seed ← shellSeed env report
  let (task, report, seed, db) ← settleShells env request report seed db
  let digest ← env.putReport { report with adopted := seed.isSome }
  let (session, head, db) ← appendSessionCommand session head (request.named "shell-published")
    (.shellPublished request digest seed (report.status.jobStatus ≠ .unknown)) (env.appendClock 0) db
  let (session, _, db) ← appendSessionCommand session head (request.named "shell-settled")
    (.turnSettled request none report.error) (env.appendClock 1) db
  .ok (digest, session, task, db)

end

end Orvek
