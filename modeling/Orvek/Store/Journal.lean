import Orvek.Completion
import Orvek.Session.Apply
import Orvek.Lib.Journal
import Orvek.Lib.Table

/-!
# The journal of the store

Tasks and sessions are stored as journals.  A row of `tasks` or `sessions` caches the state after
the last event, and every 128 events the state is kept as a checkpoint:

* `appendTaskEvent`, `appendSessionCommand`   the write path: apply, hash, insert, cache;
* `loadState`, `loadSessionState`             the read path: find a checkpoint, replay, compare.

A stored document is its bytes together with what reading them gives.  A transaction is a function
of the database that answers with an error or with the database it commits; a `Digest` stands for
the text that the columns hold.
-/

set_option linter.unusedSectionVars false

namespace Orvek
open Checks

def maxEventBytes : Nat := 512 * 1024

inductive StoreError where
  | contractPending
  | sql
  | json (error : JsonError)
  | artifact (error : ArtifactError)
  | contract (error : ContractError)
  | missing (id : TaskId)
  | missingSession (id : SessionId)
  | revision (expected actual : Nat)
  | terminal
  | cancelled
  | invalid (reason : String)
  | integrity (reason : String)
  | lease
  | budget
  | incomplete (reasons : List Rejection)
  deriving DecidableEq, Repr

/-! ## documents -/

/-- the encodings that the derived serializers write for rows -/
class StoreCodec where
  taskEvent : TaskEvent → List UInt8
  taskState : TaskState → List UInt8
  sessionEvent : SessionEvent → List UInt8
  sessionState : SessionState → Json.Value

/-- the bytes of a stored document, and what reading them back gives -/
structure Document (α : Type) where
  bytes : List UInt8
  value : Except JsonError α

def Document.read {α : Type} (d : Document α) : Except StoreError α := d.value.mapError .json

/-- a journaled session event; `commandText` is the raw text of its command -/
structure SessionDocument where
  bytes : List UInt8
  value : Except JsonError SessionEvent
  commandText : List UInt8

def SessionDocument.read (d : SessionDocument) : Except StoreError SessionEvent :=
  d.value.mapError .json

/-- a cached session state; `json` is the same document read without a schema -/
structure SessionStateDocument where
  bytes : List UInt8
  value : Except JsonError SessionState
  json : Except JsonError Json.Value

/-- what a session state reads as after it was written: the interpreter state is skipped when it
has no cell and no checkpoint, whatever calls it holds -/
def SessionState.reread (s : SessionState) : SessionState :=
  if s.interpreter.isEmpty then { s with interpreter := InterpreterState.empty } else s

section
variable [Sha256] [ContractCodec] [SessionCodec] [StoreCodec]

def TaskEvent.document (e : TaskEvent) : Document TaskEvent := ⟨StoreCodec.taskEvent e, .ok e⟩

def TaskState.document (s : TaskState) : Document TaskState := ⟨StoreCodec.taskState s, .ok s⟩

def SessionEvent.document (e : SessionEvent) : SessionDocument where
  bytes := StoreCodec.sessionEvent e
  value := .ok e
  commandText := match e with
    | .command _ c _ => SessionCodec.command (c.mapView StoredView.manifest)
    | .created _ => []

def SessionState.document (s : SessionState) : SessionStateDocument where
  bytes := Json.toVec (StoreCodec.sessionState s)
  value := .ok s.reread
  json := .ok (StoreCodec.sessionState s)

/-! ## the database -/

abbrev TaskAggregate : Type := Journal.Aggregate (Document TaskState) (Document TaskEvent) Digest
abbrev SessionAggregate : Type := Journal.Aggregate SessionStateDocument SessionDocument Digest

structure Db where
  tasks : Table TaskId TaskAggregate
  sessions : Table SessionId SessionAggregate
  leases : Table (TaskId × Uuid) Digest

def Db.empty : Db := ⟨[], [], []⟩

def aggregateHash (kind : String) (id : Uuid) (revision : Nat) (previous : Option Digest)
    (bytes : List UInt8) : Digest :=
  Digest.ofValues [.string kind, .string id.display, Json.ofNat revision,
    (match previous with | some d => .string d.display | none => .null),
    .string (Digest.of bytes).display]

/-- a revision that does not fit the signed column -/
def exhausted (revision : Nat) : Prop := 2 ^ 63 ≤ revision

instance (revision : Nat) : Decidable (exhausted revision) := inferInstanceAs (Decidable (_ ≤ _))

/-! ## reading tasks -/

def taskCreate (id : TaskId) (d : Document TaskEvent) : Except StoreError TaskState := do
  match ← d.read with
  | .requested request limits intake input atMs => do
    limits.validate.mapError StoreError.contract
    refuseIf (blank request = true) (StoreError.integrity "empty original request")
    .ok (TaskState.requested id request limits atMs (some intake) input)
  | .created contract atMs => do
    contract.validate.mapError StoreError.contract
    .ok (TaskState.created id contract atMs)
  | _ => .error (.integrity "invalid task creation sequence")

def taskStep (s : TaskState) (d : Document TaskEvent) : Except StoreError TaskState := do
  match ← d.read with
  | .requested .. => .error (.integrity "invalid task creation sequence")
  | .created .. => .error (.integrity "invalid task creation sequence")
  | event => .ok (s.apply event)

def taskFormat (id : TaskId) : Journal.Format TaskState (Document TaskEvent) Digest StoreError where
  size d := d.bytes.length
  maxBytes := maxEventBytes
  hash revision previous d := aggregateHash "task" id.uuid revision previous d.bytes
  create := taskCreate id
  step := taskStep
  badOrder := .integrity "journal ordering or size"
  badHash := .integrity "journal hash"

/-- where the replay of a task begins: at the last checkpoint, or before the first event -/
def taskCursor (id : TaskId) (a : TaskAggregate) : Except StoreError (Journal.Cursor TaskState Digest) :=
  match Journal.latest a.revision a.checkpoints with
  | none => .ok Journal.start
  | some c => do
    let s ← c.state.read
    refuseIf (s.id ≠ id ∨ s.revision ≠ c.revision) (StoreError.integrity "invalid task checkpoint")
    .ok ⟨some s, some c.head, c.revision⟩

def replayed {σ : Type} (missingState missingHead : String) (c : Journal.Cursor σ Digest) :
    Except StoreError (σ × Digest) :=
  match c.state, c.head with
  | none, _ => .error (.integrity missingState)
  | some _, none => .error (.integrity missingHead)
  | some s, some head => .ok (s, head)

def loadAggregate (id : TaskId) (a : TaskAggregate) : Except StoreError (TaskState × Digest) := do
  let c ← taskCursor id a
  let last ← (taskFormat id).replay c (a.events.filter fun r => c.sequence < r.revision)
  let (s, head) ← replayed "missing creation event" "missing journal head" last
  refuseIf (last.sequence ≠ a.revision ∨ head ≠ a.head ∨ StoreCodec.taskState s ≠ a.state.bytes)
    (StoreError.integrity "materialized state differs from journal")
  .ok (s, head)

def loadState (db : Db) (id : TaskId) : Except StoreError (TaskState × Digest) :=
  match db.tasks.get id with
  | none => .error (.missing id)
  | some a => loadAggregate id a

/-! ## reading sessions -/

def sessionCreate (id : SessionId) (d : SessionDocument) : Except StoreError SessionState := do
  match ← d.read with
  | .created creation => .ok (SessionState.create id creation)
  | .command .. => .error (.integrity "session creation sequence")

def legacyContextCommand (d : SessionDocument) : Option (Uuid × Digest) :=
  match d.value with
  | .ok (.command operation (.contextProjected _ (some ⟨_, some _⟩) _) _) =>
    some (operation, Digest.of d.commandText)
  | _ => none

def restoreLegacy (s : SessionState) (operation : Uuid) :
    Option (Uuid × Digest) → Except StoreError SessionState
  | none => .ok s
  | some (journaled, digest) => do
    refuseIf (journaled ≠ operation) (StoreError.integrity "session command operation")
    .ok { s with operations := s.operations.insert operation digest }

def sessionStep (s : SessionState) (d : SessionDocument) : Except StoreError SessionState := do
  match ← d.read with
  | .created _ => .error (.integrity "session creation sequence")
  | .command operation command _ => do
    let s ← (s.apply operation command.loaded).mapError StoreError.json
    restoreLegacy s operation (legacyContextCommand d)

def sessionFormat (id : SessionId) :
    Journal.Format SessionState SessionDocument Digest StoreError where
  size d := d.bytes.length
  maxBytes := maxEventBytes
  hash revision previous d := aggregateHash "session" id.uuid revision previous d.bytes
  create := sessionCreate id
  step := sessionStep
  badOrder := .integrity "session journal ordering or size"
  badHash := .integrity "session journal hash"

/-- `value[key] = replacement` on an object that has the field -/
def replaceField (key : String) (replacement : Json.Value) : Json.Value → Json.Value
  | .object fields => .object (Json.insertField key replacement fields)
  | v => v

def legacyManifest (cached : Json.Value) : Option Json.Value :=
  match cached.get "context_view" with
  | some (.object wrapper) =>
    if wrapper.length ≠ 2 ∨ ((Json.lookup "input" wrapper).bind Json.Value.asArray).isNone then none
    else Json.lookup "manifest" wrapper
  | _ => none

def sessionCacheMatches (s : SessionState) (cached : SessionStateDocument) : Except StoreError Bool :=
  if Json.toVec (StoreCodec.sessionState s) = cached.bytes then .ok true
  else do
    let legacy ← cached.json.mapError StoreError.json
    match legacyManifest legacy with
    | none => .ok false
    | some manifest =>
      .ok (replaceField "context_view" manifest legacy == StoreCodec.sessionState s)

def sessionCursor (id : SessionId) (a : SessionAggregate) (last : Nat) :
    Except StoreError (Journal.Cursor SessionState Digest) :=
  match Journal.latest last a.checkpoints with
  | none => .ok Journal.start
  | some c => do
    let s ← c.state.value.mapError StoreError.json
    refuseIf (s.id ≠ id ∨ s.revision ≠ c.revision) (StoreError.integrity "invalid session checkpoint")
    .ok ⟨some s, some c.head, c.revision⟩

def loadSessionAggregate (id : SessionId) (a : SessionAggregate) (through : Option Nat) :
    Except StoreError (SessionState × Digest) := do
  let last := through.getD a.revision
  refuseIf (last = 0 ∨ a.revision < last)
    (StoreError.invalid "session cursor is outside persisted history")
  let c ← sessionCursor id a last
  let reached ← (sessionFormat id).replay c
    (a.events.filter fun r => c.sequence < r.revision ∧ r.revision ≤ last)
  let (s, head) ← replayed "session creation missing" "session head missing" reached
  refuseIf (s.revision ≠ last) (StoreError.integrity "session projection differs from journal")
  if last = a.revision then do
    refuseIf (head ≠ a.head) (StoreError.integrity "session projection differs from journal")
    let same ← sessionCacheMatches s a.state
    refuseIf (same = false) (StoreError.integrity "session projection differs from journal")
    .ok (s, head)
  else .ok (s, head)

def loadSessionState (db : Db) (id : SessionId) (through : Option Nat) :
    Except StoreError (SessionState × Digest) :=
  match db.sessions.get id with
  | none => .error (.missingSession id)
  | some a => loadSessionAggregate id a through

/-! ## writing -/

/-- an input of the user, read from its artifact -/
structure PreparedInput where
  text : String
  artifact : Digest
  messages : List Json.Value
  deriving DecidableEq

/-- what `select_candidate` reads of a patch validation receipt -/
structure PatchValidationReceipt where
  patch : Digest
  candidate : Digest
  appliedSnapshot : Digest
  commandsQuiescent : Bool
  deriving DecidableEq, Repr

/-- how an artifact is searched for further artifacts; `plain` is `Opaque` -/
inductive BlobKind where
  | plain | snapshot | patchReceipt | userInput
  deriving DecidableEq, Repr

inductive ExecutionStatus where
  | exited (code : Int)
  | cancelled
  | timedOut
  | outputLimit
  | failed (reason : String)
  | unknown (reason : String)
  deriving DecidableEq, Repr

structure ShellReport where
  version : Nat
  job : ManualJob
  status : ExecutionStatus
  stdout : Digest
  stderr : Digest
  elapsedMs : Nat
  receipt : Digest
  after : Option Digest
  adopted : Bool
  error : Option String
  deriving DecidableEq, Repr

/-- what an operation finds outside the database -/
structure Env where
  /-- the `n`th reading of the clock -/
  now : Nat → Nat
  /-- the readings of the clock in the `n`th append of a command -/
  appendClock : Nat → Nat → Nat
  readArtifact : Digest → Except ArtifactError (List UInt8)
  /-- `check_artifact_budget`, from the journal of the task, the event and the limit -/
  artifactBudget : List (Document TaskEvent) → TaskEvent → Nat → Except StoreError Unit
  /-- `Snapshot::load` and `verify_artifacts` both succeed -/
  snapshotAvailable : Digest → Bool
  /-- an artifact that is read as a list of messages -/
  messages : Digest → Except StoreError (List Json.Value)
  /-- `input::load` -/
  input : Digest → Except StoreError PreparedInput
  /-- a request policy that is read and validated -/
  policy : Digest → Except StoreError Unit
  patchReceipt : Digest → Except StoreError PatchValidationReceipt
  /-- `Path::is_dir` -/
  isDirectory : String → Bool
  /-- `verify_artifact_graph`, from the artifacts it begins with and the limit -/
  verifyArtifactGraph : List (Digest × BlobKind) → Nat → Except StoreError Unit
  /-- the text of an error -/
  errorText : StoreError → String
  /-- `ArtifactStore::put` on an encoded report -/
  putReport : ShellReport → Except StoreError Digest

def Env.read (env : Env) (d : Digest) : Except StoreError Unit :=
  ((env.readArtifact d).map fun _ => ()).mapError .artifact

/-- every 128th state is kept -/
def keepsCheckpoint (revision : Nat) : Bool := revision % 128 = 0

def extend {τ δ : Type} (a : Journal.Aggregate τ δ Digest) (revision : Nat) (event : δ) (state : τ)
    (head : Digest) : Option (Journal.Aggregate τ δ Digest) :=
  (Journal.insertRow ⟨revision, event, head⟩ a.events).map fun events =>
    { revision := revision
      state := state
      head := head
      events := events
      checkpoints := if keepsCheckpoint revision
        then Journal.putCheckpoint ⟨revision, state, head⟩ a.checkpoints else a.checkpoints }

def created {τ δ : Type} (event : δ) (state : τ) (head : Digest) : Journal.Aggregate τ δ Digest where
  revision := 1
  state := state
  head := head
  events := [⟨1, event, head⟩]
  checkpoints := [⟨1, state, head⟩]

/-! ## writing tasks -/

def TaskEvent.countsArtifacts : TaskEvent → Bool
  | .contractAmended .. | .manualStarted .. | .manualWorkspace .. | .originCaptured ..
  | .directiveReceived .. | .directiveReplaced .. | .additiveContractAccepted ..
  | .contractAdmitted .. | .jobStarted .. | .candidateSelected .. | .baselineEstablished ..
  | .observed .. | .delivered .. | .completed .. => true
  | _ => false

def artifactLimit (s : TaskState) : TaskEvent → Nat
  | .contractAmended contract _ => contract.limits.artifactBytes
  | .contractAdmitted contract _ _ => contract.limits.artifactBytes
  | .additiveContractAccepted contract _ _ => contract.limits.artifactBytes
  | _ => s.limits.artifactBytes

def eventBytes (e : TaskEvent) : Except StoreError (List UInt8) := do
  refuseIf (maxEventBytes < (StoreCodec.taskEvent e).length)
    (StoreError.invalid "event payload exceeds limit")
  .ok (StoreCodec.taskEvent e)

def checkArtifactBudget (env : Env) (db : Db) (id : TaskId) (e : TaskEvent) (limit : Nat) :
    Except StoreError Unit :=
  env.artifactBudget (((db.tasks.get id).map fun a => a.events.map (·.event)).getD []) e limit

def checkEventArtifacts (env : Env) (db : Db) (s : TaskState) (e : TaskEvent) :
    Except StoreError Unit :=
  if e.countsArtifacts then checkArtifactBudget env db s.id e (artifactLimit s e) else .ok ()

/-- the row of an aggregate that was loaded is there -/
def orSql {α : Type} : Option α → Except StoreError α
  | some a => .ok a
  | none => .error .sql

def appendTaskEvent (env : Env) (s : TaskState) (head : Digest) (e : TaskEvent) (db : Db) :
    Except StoreError (TaskState × Db) := do
  checkEventArtifacts env db s e
  let bytes ← eventBytes e
  let s' := s.apply e
  refuseIf (exhausted s'.revision) (StoreError.invalid "journal revision exhausted")
  let a ← orSql (db.tasks.get s.id)
  let hash := aggregateHash "task" s.id.uuid s'.revision (some head) bytes
  let a ← orSql (extend a s'.revision e.document s'.document hash)
  .ok (s', { db with tasks := db.tasks.update s.id fun _ => a })

def createTask (env : Env) (id : TaskId) (e : TaskEvent) (s : TaskState) (db : Db) :
    Except StoreError Db := do
  checkArtifactBudget env db id e s.limits.artifactBytes
  let bytes ← eventBytes e
  let hash := aggregateHash "task" id.uuid 1 none bytes
  let tasks ← orSql (db.tasks.insert id (created e.document s.document hash))
  .ok { db with tasks := tasks }

/-! ## writing sessions -/

/-- a command that fits one event -/
def appendSmall (s : SessionState) (head : Digest) (operation : Uuid)
    (command : SessionCommand ContextView) (atMs : Nat) (db : Db) :
    Except StoreError (SessionState × Digest × Db) := do
  let event := SessionEvent.command operation command.stored atMs
  refuseIf (maxEventBytes < event.document.bytes.length)
    (StoreError.invalid "session command exceeds journal limit")
  let s' ← (s.apply operation command).mapError StoreError.json
  let hash := aggregateHash "session" s'.id.uuid s'.revision (some head) event.document.bytes
  refuseIf (exhausted s'.revision) (StoreError.invalid "session revision exhausted")
  let a ← orSql (db.sessions.get s'.id)
  let a ← orSql (extend a s'.revision event.document s'.document hash)
  .ok (s', hash, { db with sessions := db.sessions.update s'.id fun _ => a })

def partBytes : Nat := 64 * 1024

/-- the longest prefix of at most `n` bytes, and the rest -/
def takeBytes : Nat → List Char → List Char × List Char
  | _, [] => ([], [])
  | n, c :: rest =>
    if c.utf8Size ≤ n then
      (c :: (takeBytes (n - c.utf8Size) rest).1, (takeBytes (n - c.utf8Size) rest).2)
    else ([], c :: rest)

/-- the parts of a text; there are at most as many as characters -/
def textParts : Nat → List Char → List String
  | 0, _ => []
  | _, [] => []
  | fuel + 1, c :: rest =>
    String.ofList (takeBytes partBytes (c :: rest)).1 ::
      textParts fuel (takeBytes partBytes (c :: rest)).2

def partOperation (operation : Uuid) (offset : Nat) : Uuid :=
  SessionCodec.newV5 operation ((List.range 8).map fun i => UInt8.ofNat (offset / 256 ^ i))

def appendParts (operation request : Uuid) (callId : String) (clock : Nat → Nat) :
    SessionState × Digest × Db → Nat → Nat → List String →
    Except StoreError (SessionState × Digest × Db)
  | reached, _, _, [] => .ok reached
  | (s, head, db), n, offset, part :: parts => do
    let next ← appendSmall s head (partOperation operation offset)
      (.toolResultPart request callId offset part) (clock n) db
    appendParts operation request callId clock next (n + 1) (offset + strLen part) parts

def appendSessionCommand (s : SessionState) (head : Digest) (operation : Uuid)
    (command : SessionCommand ContextView) (clock : Nat → Nat) (db : Db) :
    Except StoreError (SessionState × Digest × Db) :=
  let event := SessionEvent.command operation command.stored (clock 0)
  if maxEventBytes < event.document.bytes.length then
    match command with
    | .toolResult request callId output => do
      let parts := textParts output.toList.length output.toList
      let (s, head, db) ← appendParts operation request callId clock (s, head, db) 1 0 parts
      appendSmall s head operation (.toolResultEnd request callId (Digest.ofStr output))
        (clock (parts.length + 1)) db
    | _ => .error (.invalid "session command exceeds journal limit")
  else appendSmall s head operation command (clock 0) db

def insertSession (id : SessionId) (creation : SessionCreation) (db : Db) :
    Except StoreError (SessionState × Db) := do
  let event := SessionEvent.created creation
  refuseIf (maxEventBytes < event.document.bytes.length)
    (StoreError.invalid "initial session context exceeds journal limit")
  let s := SessionState.create id creation
  let hash := aggregateHash "session" id.uuid 1 none event.document.bytes
  let sessions ← orSql (db.sessions.insert id (created event.document s.document hash))
  .ok (s, { db with sessions := sessions })

end

end Orvek
