import Orvek.Store.Tasks
import Orvek.Context.Views

/-!
# The operations of the store on a session

* `sessionCommand`        the way of a command into a session: it is refused when it is late, stale
                          or not admitted (`admitCommand`), and appended at most once;
* `createSessionSeeded`   a new session, a fork or an import.
-/

set_option linter.unusedSectionVars false

namespace Orvek
open Checks Json

def orInvalid {α : Type} (error : String) : Option α → Except StoreError α
  | some a => .ok a
  | none => .error (.invalid error)

section
variable [Sha256] [ContractCodec] [SessionCodec] [StoreCodec] [JsonReader]

/-- `Uuid::new_v5` with a literal name -/
def Uuid.named (id : Uuid) (name : String) : Uuid := SessionCodec.newV5 id (strBytes name)

/-! ## commands -/

/-- the request that must still be the active one -/
def SessionCommand.answers {V : Type} : SessionCommand V → Option Uuid
  | .response request _ => some request
  | .interpreter request _ => some request
  | .providerUsage request .. => some request
  | .workspaceSaved request _ => some request
  | .toolResult request .. => some request
  | .toolResultPart request .. => some request
  | .toolResultEnd request .. => some request
  | .taskLinked request _ => some request
  | .turnSettled request .. => some request
  | _ => none

/-- `cell/ordinal` -/
def nestedCall (cell : Uuid) (ordinal : Nat) : String := cell.display ++ "/" ++ showUsize ordinal

def ownsPending (s : SessionState) (request cell : Uuid) : Bool :=
  s.interpreter.cells[cell]?.any fun c => c.request == request && c.status == .pending

def awaitsResult (s : SessionState) (request : Uuid) (callId : String) : Bool :=
  s.toolCalls[callId]?.any fun call => call.request == request && call.output.isNone

def admitInterpreter (env : Env) (s : SessionState) (request : Uuid) :
    InterpreterEvent → Except StoreError Unit
  | .started cell task outerCall source _ _ environment => do
    refuseIf (cell ∈ s.interpreter.cells ∨ s.tasksByRequest[request]? ≠ some task ∨
        awaitsResult s request outerCall = false)
      (StoreError.invalid "interpreter cell has no pending outer call")
    env.read source
    env.read environment
  | .callStarted cell ordinal callId _ arguments => do
    refuseIf (ordinal = 0 ∨ callId ≠ nestedCall cell ordinal ∨ callId ∈ s.interpreter.pendingCalls ∨
        ownsPending s request cell = false)
      (StoreError.invalid "interpreter call has no active owning cell")
    env.read arguments
  | .callSettled cell ordinal result => do
    refuseIf (s.interpreter.pendingCalls[nestedCall cell ordinal]? ≠ some cell ∨
        ownsPending s request cell = false)
      (StoreError.invalid "interpreter result has no pending call")
    env.read result
  | .settled cell result checkpoint _ => do
    refuseIf (ownsPending s request cell = false ∨ cell ∈ valuesOf s.interpreter.pendingCalls)
      (StoreError.invalid "interpreter cell is not ready to settle")
    env.read result
    readAll env (checkpoint.toList.map (·.artifact))

/-- `SessionAdmissionProfile::validate` -/
def SessionAdmissionProfile.validate (env : Env) (p : SessionAdmissionProfile) :
    Except StoreError Unit := do
  refuseIf (env.isDirectory p.request.workspace = false)
    (StoreError.invalid "session workspace must be an absolute directory")
  p.validateRecorded.mapError StoreError.invalid

def publishes (task : TaskState) (id : TaskId) (seed : WorkspaceSeed) : Prop :=
  seed.task = some id ∧ task.workspaceOrigin.or task.origin = some seed.origin ∧
    (task.candidate.any fun c => c.frozen && c.source == seed.source) = true ∧ hasWriters task = false

instance (task : TaskState) (id : TaskId) (seed : WorkspaceSeed) : Decidable (publishes task id seed) :=
  inferInstanceAs (Decidable (_ ∧ _ ∧ _ ∧ _))

def admitSaved (env : Env) (s : SessionState) (request : Uuid) (seed : WorkspaceSeed) (db : Db) :
    Except StoreError Unit := do
  let id ← orInvalid "workspace publication has no task owner" s.tasksByRequest[request]?
  let (task, _) ← loadState db id
  refuseIf (¬ publishes task id seed)
    (StoreError.invalid "workspace publication differs from its frozen task source")
  requireSnapshots env "published workspace is unavailable" [seed.origin, seed.source]

def isCall (item : Value) : Bool := item.fieldIs "type" "function_call"

def proposalId (item : Value) : Except StoreError String :=
  match (item.index "call_id").asStr with
  | some id =>
    if id = "" ∨ 256 < strLen id then .error (.invalid "tool proposal requires an ID") else .ok id
  | none => .error (.invalid "tool proposal requires an ID")

/-- every proposed call has a name, arguments and an identifier that was never used -/
def admitProposals (s : SessionState) : List String → List Value → Except StoreError Unit
  | _, [] => .ok ()
  | seen, item :: rest => do
    let id ← proposalId item
    refuseIf (id ∈ seen ∨ (s.history.any fun old => isCall old && old.fieldIs "call_id" id) = true)
      (StoreError.invalid "provider reused a tool call ID; execution was not repeated")
    refuseIf (((item.index "name").asStr.any fun name => !name.isEmpty && strLen name ≤ 128) = false ∨
      (item.index "arguments").asStr.isNone = true) (StoreError.invalid "malformed tool proposal")
    admitProposals s (id :: seen) rest

def admitResponse (s : SessionState) (items : List Value) : Except StoreError Unit := do
  refuseIf (256 < items.length ∨ 64 < (items.filter isCall).length)
    (StoreError.invalid "provider response exceeds item or tool proposal limits")
  admitProposals s (s.toolCalls.toList.map Prod.fst) (items.filter isCall)

def admitResult (s : SessionState) (request : Uuid) (callId : String) : Except StoreError Unit :=
  refuseIf (awaitsResult s request callId = false)
    (StoreError.invalid "tool result has no pending call in this request")

def admitOutcome (s : SessionState) (request : Uuid) (outcome : Outcome) (db : Db) :
    Except StoreError Unit := do
  let id ← orInvalid "task outcome without a task" s.tasksByRequest[request]?
  let (task, _) ← loadState db id
  refuseIf (task.outcome ≠ some outcome)
    (StoreError.invalid "session cannot manufacture task outcomes")

def admitView (s : SessionState) (projection : List Value) :
    Option ContextView → Except StoreError Unit
  | some view => refuseIf (projection ≠ [] ∨ view.validFor s = false)
      (StoreError.invalid "context view does not match its source")
  | none => .error (.invalid "context view manifest is required")

def admitProjection (s : SessionState) (sourceRevision : Nat) (view : Option ContextView)
    (projection : List Value) : Except StoreError Unit := do
  refuseIf (sourceRevision ≠ s.revision) (StoreError.invalid "stale context projection")
  admitView s projection view

/-- what a command must satisfy beside its place in the session -/
def admitCommand (env : Env) (s : SessionState) (db : Db) :
    SessionCommand ContextView → Except StoreError Unit
  | .interpreter request event => admitInterpreter env s request event
  | .admissionPinned profile _ => profile.validate env
  | .workspaceSaved request seed => admitSaved env s request seed db
  | .response _ items => admitResponse s items
  | .toolResult request callId _ => admitResult s request callId
  | .toolResultPart request callId .. => admitResult s request callId
  | .toolResultEnd request callId _ => admitResult s request callId
  | .input _ content => do
    refuseIf (s.activeRequest.isSome = true)
      (StoreError.invalid "session already has an active request")
    refuseIf (content = []) (StoreError.invalid "empty input")
  | .taskLinked _ task => (loadState db task).map fun _ => ()
  | .turnSettled request (some outcome) _ => admitOutcome s request outcome db
  | .contextProjected revision view projection => admitProjection s revision view projection
  | _ => .ok ()

def sessionCommand (env : Env) (id : SessionId) (revision : Nat) (operation : Uuid)
    (command : SessionCommand ContextView) (db : Db) : Except StoreError (SessionState × Db) := do
  let (s, head) ← loadSessionState db id none
  match s.operations[operation]? with
  | some previous =>
    if previous = command.digest then .ok (s, db)
    else .error (.invalid "command ID reused with different input")
  | none => do
    refuseIf (s.revision ≠ revision) (StoreError.revision revision s.revision)
    refuseIf ((command.answers.any fun request => s.activeRequest != some request) = true)
      (StoreError.invalid "late result belongs to a superseded request")
    admitCommand env s db command
    let (s, _, db) ← appendSessionCommand s head operation command (env.appendClock 0) db
    .ok (s, db)

/-! ## new sessions -/

def sameImport (existing : SessionState) (parent : Option SessionCursor) :
    Option (ImportedSource × List Value) → Bool
  | some (source, _) => existing.imported == some source
  | none => existing.imported.isNone || parent.isSome

/-- what a session begins with -/
structure Inheritance where
  history : List Value
  imported : Option ImportedSource
  workspace : Option WorkspaceSeed

/-- a fork takes over what its parent had settled -/
def inheritFrom (cursor : SessionCursor) (admission : SessionAdmissionProfile) (freshContext : Bool)
    (db : Db) : Except StoreError Inheritance := do
  refuseIf (cursor.version ≠ 1) (StoreError.invalid "unsupported session cursor")
  let (parent, _) ← loadSessionState db cursor.session (some cursor.revision)
  refuseIf (parent.activeRequest.isSome = true)
    (StoreError.invalid "fork cursor must select a settled turn")
  refuseIf (parent.branch.pendingTask.isSome = true)
    (StoreError.invalid "parent workspace has no settled source checkpoint")
  refuseIf (parent.branch.pendingShell.isSome = true)
    (StoreError.invalid "parent has an unresolved shell operation")
  refuseIf (parent.admission ≠ some admission)
    (StoreError.invalid "child session admission differs from its parent")
  .ok ⟨if freshContext then [] else parent.history, parent.imported, parent.branch.workspace⟩

def inherits (parent : Option SessionCursor) (seed : Option (ImportedSource × List Value))
    (admission : SessionAdmissionProfile) (freshContext : Bool) (db : Db) :
    Except StoreError Inheritance :=
  match parent, seed with
  | none, some (source, history) => .ok ⟨history, some source, none⟩
  | some _, some _ =>
    .error (.invalid "session cannot be both a native fork and a new legacy import")
  | some cursor, none => inheritFrom cursor admission freshContext db
  | none, none => .ok ⟨[], none, none⟩

/-- the creation of a session that does not exist -/
def seedSession (env : Env) (id : SessionId) (config : SessionConfig)
    (admission : SessionAdmissionProfile) (parent : Option SessionCursor)
    (seed : Option (ImportedSource × List Value)) (freshContext : Bool) (db : Db) :
    Except StoreError (SessionState × Db) := do
  let from_ ← inherits parent seed admission freshContext db
  requireSnapshots env "workspace seed origin is unavailable" (from_.workspace.toList.map (·.origin))
  requireSnapshots env "workspace seed source is unavailable" (from_.workspace.toList.map (·.source))
  insertSession id {
    branch := ⟨from_.workspace, freshContext, none, none⟩
    config := config
    admission := some admission
    parent := parent
    history := from_.history
    startedMs := env.now 0
    imported := from_.imported } db

def createSessionSeeded (env : Env) (id : SessionId) (config : SessionConfig)
    (admission : SessionAdmissionProfile) (parent : Option SessionCursor)
    (seed : Option (ImportedSource × List Value)) (freshContext : Bool) (db : Db) :
    Except StoreError (SessionState × Db) := do
  refuseIf (SessionAdmissionProfile.isAbsolute config.workspace = false ∨
    env.isDirectory config.workspace = false)
    (StoreError.invalid "session workspace must be an absolute directory")
  match loadSessionState db id none with
  | .ok (existing, _) =>
    if existing.initialConfig = config ∧ existing.admission = some admission ∧
        existing.branch.freshContext = freshContext ∧ existing.parent = parent ∧
        sameImport existing parent seed = true then .ok (existing, db)
    else .error (.invalid "session ID reused with different configuration or import")
  | .error (.missingSession _) => seedSession env id config admission parent seed freshContext db
  | .error error => .error error

/-- the settings that a profile admits -/
def SessionAdmissionProfile.config (p : SessionAdmissionProfile) : SessionConfig where
  workspace := p.request.workspace
  model := p.request.model
  instructions := ""
  contextWindowTokens := p.request.contextWindowTokens

def createBoundSession (env : Env) (id : SessionId) (profile : SessionAdmissionProfile)
    (parent : Option SessionCursor) (db : Db) : Except StoreError (SessionState × Db) := do
  profile.validate env
  createSessionSeeded env id profile.config profile parent none false db

def loadSessionCursor (cursor : SessionCursor) (db : Db) : Except StoreError SessionState := do
  refuseIf (cursor.version ≠ 1) (StoreError.invalid "unsupported session cursor")
  let (s, _) ← loadSessionState db cursor.session (some cursor.revision)
  refuseIf (s.admission.isNone = true)
    (StoreError.invalid "session cursor predates trusted admission")
  .ok s

def createHandoffSession (env : Env) (id : SessionId) (parent : SessionCursor) (db : Db) :
    Except StoreError (SessionState × Db) := do
  let source ← loadSessionCursor parent db
  let profile ← orInvalid "source session is not admission-bound" source.admission
  createSessionSeeded env id source.config profile (some parent) none true db

def createBoundImportedSession (env : Env) (id : SessionId) (profile : SessionAdmissionProfile)
    (source : ImportedSource) (history : List Value) (db : Db) :
    Except StoreError (SessionState × Db) := do
  profile.validate env
  readAll env [source.manifest, source.sourceSnapshot]
  createSessionSeeded env id profile.config profile none (some (source, history)) false db

end

end Orvek
