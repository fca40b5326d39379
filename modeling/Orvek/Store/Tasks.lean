import Orvek.Store.Journal

/-!
# The operations of the store on a task

Every operation is one transaction: it loads the task, checks what it must, and appends one event
(`change`) or two.  The operations appear in the order of the source, with its messages:

* `beginCheck`, `finishCheck`          a verification lease, and the evidence it is exchanged for;
* `settleJob`, `fenceJob`              the other ends of a job;
* `accountUsage`, `recordModelCall`    accounting, which goes on after a task has ended;
* `complete`, `stop`, `reopen`         the outcome of a task.

Identifiers that the source draws at random are arguments.
-/

set_option linter.unusedSectionVars false

namespace Orvek
open Checks

/-- the table `leases`: the digest of the token, by task and job -/
abbrev Leases : Type := Table (TaskId × Uuid) Digest

/-- `DELETE FROM leases WHERE task=?1` -/
def Leases.dropTask (leases : Leases) (id : TaskId) : Leases := leases.delete fun k => k.1 = id

/-- `DELETE FROM leases WHERE task=?1 AND job=?2` -/
def Leases.drop (leases : Leases) (id : TaskId) (job : Uuid) : Leases :=
  leases.delete fun k => k = (id, job)

section
variable [Sha256] [ContractCodec] [SessionCodec] [StoreCodec]

def TaskState.acceptedContract (s : TaskState) : Except StoreError Contract :=
  match s.contract with
  | some contract => .ok contract
  | none => .error .contractPending

/-! ## one transaction -/

def checkRevision (expected : Option Nat) (actual : Nat) : Except StoreError Unit :=
  match expected with
  | some expected => refuseIf (expected ≠ actual) (StoreError.revision expected actual)
  | none => .ok ()

/-- one event of a task, chosen by `operation` from the state; it leaves the leases it returns -/
def change (env : Env) (id : TaskId) (revision : Option Nat) (allowTerminal : Bool)
    (operation : TaskState → Except StoreError (TaskEvent × Leases)) (db : Db) :
    Except StoreError (TaskState × Db) := do
  let (s, head) ← loadState db id
  checkRevision revision s.revision
  refuseIf (allowTerminal = false ∧ s.outcome.isSome = true) StoreError.terminal
  let (event, leases) ← operation s
  appendTaskEvent env s head event { db with leases := leases }

/-- the artifacts are there -/
def readAll (env : Env) (digests : List Digest) : Except StoreError Unit := checkAll env.read digests

def checkBudget (env : Env) (n : Nat) (s : TaskState) : Except StoreError Unit := do
  refuseIf (s.cancellationRequested = true) StoreError.cancelled
  refuseIf (s.limits.modelCalls ≤ s.usage.modelCalls ∨ s.limits.tokens ≤ s.usage.tokens ∨
    s.limits.elapsedMs ≤ env.now n - s.startedMs) StoreError.budget

def unresolvedJobs (s : TaskState) : List Job := (valuesOf s.jobs).filter fun job => job.status.unresolved

def admitJob (env : Env) (s : TaskState) : Except StoreError Unit := do
  refuseIf (s.cancellationRequested = true) StoreError.cancelled
  refuseIf (s.limits.elapsedMs ≤ env.now 0 - s.startedMs) StoreError.budget
  refuseIf (s.limits.concurrentJobs ≤ (unresolvedJobs s).length)
    (StoreError.invalid "job capacity exhausted")

/-- `TaskEvent::Created`, and the state it begins with -/
def create (env : Env) (id : TaskId) (contract : Contract) (db : Db) :
    Except StoreError (TaskState × Db) := do
  contract.validate.mapError StoreError.contract
  let event := TaskEvent.created contract (env.now 0)
  let s := TaskState.created id contract (env.now 0)
  let _ ← eventBytes event
  let db ← createTask env id event s db
  .ok (s, db)

/-! ## the evidence of a completed task -/

def certifiedArtifacts (s : TaskState) (certificate : Certificate) : List (Digest × BlobKind) :=
  [(certificate.source, .snapshot), (certificate.artifact, .plain),
    (certificate.environment, .plain), (certificate.deliveryReceipt, .plain)] ++
  ((s.candidate.bind (·.provenance)).toList.map fun proof => (proof, BlobKind.patchReceipt)) ++
  (s.evidence.filter fun e => e.jobId ∈ valuesOf certificate.evidence).flatMap fun e =>
    [(e.observation.report, .plain), (e.identity.verifier, .plain)] ++
      e.observation.control.toList.flatMap fun control =>
        [(control.source, BlobKind.snapshot), (control.report, .plain)]

def verifyCertificate (env : Env) (s : TaskState) : Except StoreError Unit :=
  match s.certificates.getLast? with
  | none => .error (.integrity "completed task has no certificate")
  | some certificate =>
    env.verifyArtifactGraph (certifiedArtifacts s certificate) s.limits.artifactBytes

def auditEvidence (env : Env) (id : TaskId) (db : Db) : Except StoreError (TaskState × Db) := do
  let (s, _) ← loadState db id
  if s.outcome ≠ some .complete then .ok (s, db)
  else
    match verifyCertificate env s with
    | .ok _ => .ok (s, db)
    | .error error =>
      change env id (some s.revision) true (fun _ => .ok (.evidenceInvalidated
        ("completion evidence unavailable or corrupt: " ++ env.errorText error), db.leases)) db

/-! ## candidate and baseline -/

def checkProvenance (env : Env) (candidate : Candidate) : Except StoreError Unit :=
  if candidate.artifact = candidate.source then .ok ()
  else
    match candidate.provenance with
    | none => .error (.invalid "derived artifact requires reproduction evidence")
    | some proof => do
      let receipt ← env.patchReceipt proof
      refuseIf (receipt.patch ≠ candidate.artifact ∨ receipt.candidate ≠ candidate.source ∨
          receipt.appliedSnapshot ≠ candidate.source ∨ receipt.commandsQuiescent = false)
        (StoreError.invalid "artifact reproduction evidence does not match the candidate")

def hasWriters (s : TaskState) : Bool :=
  (valuesOf s.jobs).any fun job => job.mutatesCandidate && job.status.unresolved

def selectCandidate (env : Env) (id : TaskId) (revision : Nat) (candidate : Candidate) (db : Db) :
    Except StoreError (TaskState × Db) :=
  change env id (some revision) false (fun s => do
    readAll env [candidate.source, candidate.environment, candidate.artifact]
    checkProvenance env candidate
    refuseIf (hasWriters s = true) (StoreError.invalid "candidate has active writers")
    .ok (.candidateSelected candidate, db.leases)) db

/-- every snapshot can be loaded with all its artifacts -/
def requireSnapshots (env : Env) (error : String) (digests : List Digest) : Except StoreError Unit :=
  checkAll (fun d => refuseIf (env.snapshotAvailable d = false) (StoreError.integrity error)) digests

def establishWorkspace (env : Env) (id : TaskId) (revision : Nat) (origin : Digest)
    (baseline : Candidate) (db : Db) : Except StoreError (TaskState × Db) := do
  let (s, head) ← loadState db id
  checkRevision (some revision) s.revision
  refuseIf (s.outcome.isSome = true ∨ s.origin.isSome = true ∨ s.baseline.isSome = true ∨
      baseline.frozen = false)
    (StoreError.invalid "workspace must be admitted exactly once")
  requireSnapshots env "workspace admission has unavailable source" [origin, baseline.source]
  env.read baseline.environment
  env.read baseline.artifact
  let (s, db) ← appendTaskEvent env s head (.originCaptured origin) db
  let (_, head) ← loadState db id
  appendTaskEvent env s head (.baselineEstablished baseline) db

def establishBaseline (env : Env) (id : TaskId) (revision : Nat) (baseline : Candidate) (db : Db) :
    Except StoreError (TaskState × Db) :=
  change env id (some revision) false (fun s => do
    refuseIf (s.baseline.isSome = true ∨ baseline.frozen = false)
      (StoreError.invalid "baseline must be immutable and established once")
    readAll env [baseline.source, baseline.environment, baseline.artifact]
    .ok (.baselineEstablished baseline, db.leases)) db

def invalidateCandidate (env : Env) (id : TaskId) (revision : Nat) (reason : String) (db : Db) :
    Except StoreError (TaskState × Db) :=
  change env id (some revision) false (fun _ => .ok (.workspaceChanged reason, db.leases)) db

def requestCancellation (env : Env) (id : TaskId) (db : Db) : Except StoreError (TaskState × Db) := do
  let (s, _) ← loadState db id
  if s.cancellationRequested = true ∨ s.outcome.isSome = true then .ok (s, db)
  else change env id (some s.revision) false (fun _ => .ok (.cancellationRequested, db.leases)) db

/-- the command of the user left another source in the workspace, and it is restored -/
def workspaceRestored (env : Env) (id : TaskId) (revision : Nat) (source : Digest) (db : Db) :
    Except StoreError (TaskState × Db) :=
  change env id (some revision) false (fun s => do
    refuseIf (s.workspaceOverride ≠ some source ∨ unresolvedJobs s ≠ [])
      (StoreError.invalid "workspace restore has no matching settled source")
    .ok (.workspaceRestored source, db.leases)) db

/-! ## contract and phase -/

def amendContract (env : Env) (id : TaskId) (revision : Nat) (contract : Contract)
    (userBasis : String) (db : Db) : Except StoreError (TaskState × Db) := do
  contract.validate.mapError StoreError.contract
  refuseIf (blank userBasis = true)
    (StoreError.invalid "contract amendment requires a recorded user basis")
  change env id (some revision) false (fun s => do
    let _ ← s.acceptedContract
    refuseIf (s.request ≠ contract.request)
      (StoreError.invalid "amendments must preserve the original request")
    .ok (.contractAmended contract userBasis, db.leases)) db

def admitContract (env : Env) (id : TaskId) (revision : Nat) (contract : Contract) (basis : String)
    (receipt : Digest) (db : Db) : Except StoreError (TaskState × Db) := do
  contract.validate.mapError StoreError.contract
  refuseIf (blank basis = true) (StoreError.invalid "contract admission requires a recorded basis")
  change env id (some revision) false (fun s => do
    refuseIf (s.contract.isSome = true) (StoreError.invalid "contract is already admitted")
    refuseIf (contract.request ≠ s.request ∨ contract.limits ≠ s.initialLimits)
      (StoreError.invalid "contract admission cannot rewrite the request or its authorized limits")
    env.read receipt
    .ok (.contractAdmitted contract basis receipt, db.leases)) db

/-- a follow-up may add to a contract, and takes nothing away -/
def preservesObligations (old new : Contract) : Except StoreError Unit :=
  refuseIf (new.request ≠ old.request ∨ new.limits ≠ old.limits ∨ new.delivery ≠ old.delivery ∨
      ¬ old.outcome.toList <+: new.outcome.toList ∨ ¬ old.scope.toList <+: new.scope.toList ∨
      ¬ (∀ r ∈ old.requirements, r ∈ new.requirements) ∨
      ¬ (∀ entry ∈ old.checks.toList, new.checks[entry.1]? = some entry.2) ∨
      ¬ (∀ behavior ∈ old.protectedBehavior, behavior ∈ new.protectedBehavior) ∨
      ¬ (∀ assumption ∈ old.assumptions, assumption ∈ new.assumptions))
    (StoreError.invalid "follow-up must preserve all accepted obligations and limits")

def checkFollowUp (s : TaskState) (contract : Contract) : Except StoreError Unit :=
  match s.contract with
  | some old => preservesObligations old contract
  | none => refuseIf (contract.request ≠ s.request ∨ contract.limits ≠ s.initialLimits)
      (StoreError.invalid "follow-up changed original objective or limits")

def acceptAdditiveContract (env : Env) (id : TaskId) (revision : Nat) (contract : Contract)
    (receipt : Digest) (db : Db) : Except StoreError (TaskState × Db) := do
  contract.validate.mapError StoreError.contract
  change env id (some revision) false (fun s => do
    refuseIf (s.amendmentPending = false) (StoreError.invalid "there is no pending user follow-up")
    checkFollowUp s contract
    env.read receipt
    .ok (.additiveContractAccepted contract receipt s.scopeRevision, db.leases)) db

def admitPhase (s : TaskState) (phase : Phase) : Except StoreError Unit :=
  if phase = .understand ∨ phase = .baseline then .ok ()
  else do
    refuseIf (s.amendmentPending = true)
      (StoreError.invalid "user follow-up awaits contract admission")
    let _ ← s.acceptedContract
    .ok ()

def setPhase (env : Env) (id : TaskId) (revision : Nat) (phase : Phase) (db : Db) :
    Except StoreError (TaskState × Db) :=
  change env id (some revision) false (fun s => do
    admitPhase s phase
    .ok (.phaseChanged phase, db.leases)) db

/-! ## checks -/

structure VerificationLease where
  task : TaskId
  job : Uuid
  token : String
  deriving DecidableEq, Repr

def frozenCandidate (s : TaskState) (error : String) : Except StoreError Candidate :=
  match s.candidate with
  | some candidate => if candidate.frozen then .ok candidate else .error (.invalid error)
  | none => .error (.invalid error)

def lookupCheck (contract : Contract) (check : String) : Except StoreError CheckDefinition :=
  match contract.checks[check]? with
  | some definition => .ok definition
  | none => .error (.invalid "unknown acceptance check")

/-- the job of a check, with the identity its evidence will carry -/
def checkJob (s : TaskState) (contract : Contract) (candidate : Candidate) (check : String)
    (definition : CheckDefinition) (jobId : Uuid) (startedMs : Nat) : Job where
  id := jobId
  generation := s.generation
  status := .running
  mutatesCandidate := false
  check := some check
  identity := some (Completion.identityOf contract candidate definition)
  startedMs := startedMs
  deadlineMs := satAdd64 startedMs definition.timeoutMs
  invocation := none
  fenceReceipt := none
  executionReceipt := none

/-- the event of `beginCheck`, and the lease in the table -/
def beginCheckOperation (env : Env) (id : TaskId) (check : String) (token jobId : Uuid)
    (leases : Leases) (s : TaskState) : Except StoreError (TaskEvent × Leases) := do
  refuseIf (s.amendmentPending = true)
    (StoreError.invalid "user follow-up awaits contract admission")
  admitJob env s
  let candidate ← frozenCandidate s "verification requires a frozen candidate"
  let contract ← s.acceptedContract
  let definition ← lookupCheck contract check
  let leases ← orSql (leases.insert (id, jobId) (Digest.ofStr token.display))
  .ok (.jobStarted (checkJob s contract candidate check definition jobId (env.now 1)), leases)

def beginCheck (env : Env) (id : TaskId) (revision : Nat) (check : String) (token jobId : Uuid)
    (db : Db) : Except StoreError (VerificationLease × TaskState × Db) := do
  let (s, db) ← change env id (some revision) false
    (beginCheckOperation env id check token jobId db.leases) db
  .ok (⟨id, jobId, token.display⟩, s, db)

/-- the job of a lease: it still runs, and nothing was invalidated since it began -/
def leasedJob (s : TaskState) (job : Uuid) : Except StoreError Job :=
  match s.jobs[job]? with
  | some job => if job.status = .running ∧ job.generation = s.generation then .ok job else .error .lease
  | none => .error .lease

def orLease {α : Type} : Option α → Except StoreError α
  | some a => .ok a
  | none => .error .lease

/-- the event of `finishCheck`; the lease is gone from the table -/
def finishCheckOperation (env : Env) (lease : VerificationLease) (observation : Observation)
    (leases : Leases) (s : TaskState) : Except StoreError (TaskEvent × Leases) := do
  refuseIf (leases.get (lease.task, lease.job) ≠ some (Digest.ofStr lease.token)) StoreError.lease
  let job ← leasedJob s lease.job
  refuseIf (job.deadlineMs < env.now 0 ∧ observation.status = .passed) StoreError.lease
  readAll env (observation.report ::
    observation.control.toList.flatMap fun control => [control.report, control.source])
  let check ← orLease job.check
  let identity ← orLease job.identity
  .ok (.observed ⟨job.id, job.generation, check, identity, job.startedMs, env.now 0, observation⟩,
    Leases.drop leases lease.task lease.job)

def finishCheck (env : Env) (lease : VerificationLease) (observation : Observation) (db : Db) :
    Except StoreError (TaskState × Db) :=
  change env lease.task none false (finishCheckOperation env lease observation db.leases) db

/-! ## jobs -/

/-- a call of the model that waits for its result admits an execution -/
def admitsCall (session : SessionState) (invocation : JobInvocation) (id : TaskId) (call : String) : Bool :=
  (session.toolCalls[call]?.any fun c => c.request == invocation.request && c.output.isNone) ||
    session.interpreter.admits call invocation.request id

def checkInvocation (env : Env) (id : TaskId) (invocation : JobInvocation) (db : Db) :
    Except StoreError Unit := do
  env.read invocation.input
  env.read invocation.environment
  let (session, _) ← loadSessionState db invocation.session none
  refuseIf (session.tasksByRequest[invocation.request]? ≠ some id ∨
      session.activeRequest ≠ some invocation.request)
    (StoreError.invalid "execution actor does not own this active request")
  refuseIf ((invocation.callId.any fun call => !admitsCall session invocation id call) = true)
    (StoreError.invalid "execution has no pending admitted tool call")

/-- a job that changes the candidate on nobody's request needs a contract without open questions -/
def checkDecisions (s : TaskState) (required : Bool) : Except StoreError Unit :=
  if required then do
    let contract ← s.acceptedContract
    refuseIf (contract.openQuestions ≠ [])
      (StoreError.invalid "material product decisions remain unresolved")
  else .ok ()

def checkInvocations (env : Env) (id : TaskId) (invocation : Option JobInvocation) (db : Db) :
    Except StoreError Unit :=
  match invocation with
  | some invocation => checkInvocation env id invocation db
  | none => .ok ()

def startJobRecord (env : Env) (id : TaskId) (revision : Nat) (mutatesCandidate : Bool)
    (timeoutMs : Nat) (invocation : Option JobInvocation) (jobId : Uuid) (db : Db) :
    Except StoreError (TaskState × Db) :=
  change env id (some revision) false (fun s => do
    admitJob env s
    refuseIf (invocation.isNone = true ∧ mutatesCandidate = true ∧ s.amendmentPending = true)
      (StoreError.invalid "user follow-up awaits contract admission")
    checkInvocations env id invocation db
    checkDecisions s (invocation.isNone && mutatesCandidate)
    refuseIf (timeoutMs = 0) (StoreError.invalid "job deadline must be positive")
    refuseIf (mutatesCandidate = true ∧ (s.candidate.any (·.frozen)) = true)
      (StoreError.invalid "frozen candidate cannot be mutated")
    .ok (.jobStarted {
      id := jobId
      generation := s.generation
      status := .running
      mutatesCandidate := mutatesCandidate
      check := none
      identity := none
      startedMs := env.now 1
      deadlineMs := satAdd64 (env.now 1) timeoutMs
      invocation := invocation
      fenceReceipt := none
      executionReceipt := none }, db.leases)) db

def startJob (env : Env) (id : TaskId) (revision : Nat) (mutatesCandidate : Bool) (timeoutMs : Nat)
    (jobId : Uuid) (db : Db) : Except StoreError (TaskState × Db) :=
  startJobRecord env id revision mutatesCandidate timeoutMs none jobId db

def startExecutionJob (env : Env) (id : TaskId) (revision : Nat) (mutatesCandidate : Bool)
    (timeoutMs : Nat) (invocation : JobInvocation) (jobId : Uuid) (db : Db) :
    Except StoreError (TaskState × Db) :=
  startJobRecord env id revision mutatesCandidate timeoutMs (some invocation) jobId db

def lookupJob (s : TaskState) (job : Uuid) : Except StoreError Job :=
  match s.jobs[job]? with
  | some job => .ok job
  | none => .error (.invalid "unknown job")

def settleJobRecord (env : Env) (id : TaskId) (jobId : Uuid) (status : JobStatus)
    (receipt : Option Digest) (db : Db) : Except StoreError (TaskState × Db) := do
  refuseIf (status = .running) (StoreError.invalid "settlement cannot restart a job")
  refuseIf (status = .fenced) (StoreError.invalid "fencing requires a termination receipt")
  change env id none true (fun s => do
    let job ← lookupJob s jobId
    refuseIf (job.invocation.isSome = true ∧ receipt.isNone = true)
      (StoreError.invalid "execution settlement requires a host receipt")
    readAll env receipt.toList
    refuseIf (job.status.unresolved = false) (StoreError.invalid "job already settled")
    refuseIf (status = .succeeded ∧ job.check.isSome = true)
      (StoreError.invalid "checks settle through the protected evidence channel")
    .ok (.jobSettled jobId status receipt, Leases.drop db.leases id jobId)) db

def settleJob (env : Env) (id : TaskId) (jobId : Uuid) (status : JobStatus) (db : Db) :
    Except StoreError (TaskState × Db) := settleJobRecord env id jobId status none db

def settleExecutionJob (env : Env) (id : TaskId) (jobId : Uuid) (status : JobStatus)
    (receipt : Digest) (db : Db) : Except StoreError (TaskState × Db) :=
  settleJobRecord env id jobId status (some receipt) db

def fenceJob (env : Env) (id : TaskId) (jobId : Uuid) (receipt : Digest) (db : Db) :
    Except StoreError (TaskState × Db) := do
  let (s, _) ← loadState db id
  if (s.jobs[jobId]?.any fun job => job.status == .fenced && job.fenceReceipt == some receipt) then
    .ok (s, db)
  else change env id none true (fun s => do
    refuseIf ((s.jobs[jobId]?.any fun job => job.status.unresolved) = false)
      (StoreError.invalid "only unresolved jobs can be fenced")
    env.read receipt
    .ok (.jobFenced jobId receipt, Leases.drop db.leases id jobId)) db

/-! ## findings and effects -/

def recordFinding (env : Env) (id : TaskId) (revision : Nat) (finding : Finding) (db : Db) :
    Except StoreError (TaskState × Db) := do
  refuseIf (blank finding.id = true ∨ blank finding.description = true ∨
      (finding.resolved = true ∧ (finding.resolution.any fun text => !blank text) = false))
    (StoreError.invalid "findings require identity, description and explicit resolution")
  change env id (some revision) false (fun _ => .ok (.findingRecorded finding, db.leases)) db

def admitEffect (s : TaskState) (effect : Effect) : Except StoreError Unit :=
  match s.effects[effect.operationId]? with
  | some previous => do
    refuseIf (previous.description ≠ effect.description ∨ previous.idempotent ≠ effect.idempotent)
      (StoreError.invalid "effect identity cannot change")
    refuseIf (Completion.unreconciled previous = false) (StoreError.invalid "effect already settled")
  | none => refuseIf (effect.status ≠ .intended ∨ s.outcome.isSome = true)
      (StoreError.invalid "effect must have a durable intent before dispatch")

def recordEffect (env : Env) (id : TaskId) (revision : Nat) (effect : Effect) (db : Db) :
    Except StoreError (TaskState × Db) :=
  change env id (some revision) true (fun s => do
    admitEffect s effect
    .ok (.effectRecorded effect, db.leases)) db

/-! ## accounting -/

/-- a receipt may fill in what an earlier one left unknown -/
def checkReconciliation (previous receipt : ModelCallReceipt) : Except StoreError Unit :=
  refuseIf ((previous.tokens.isSome = true ∧ previous.tokens ≠ receipt.tokens) ∨
      (previous.status ≠ .unknown ∧ previous.status ≠ receipt.status) ∨
      (previous.tokens.isSome = true ∧ previous.status ≠ .unknown))
    (StoreError.invalid "provider reconciliation cannot rewrite settled facts")

def commitReceipt (env : Env) (s : TaskState) (head : Digest) (operation : Uuid)
    (receipt : ModelCallReceipt) (db : Db) : Except StoreError (TaskState × Db) := do
  env.read receipt.report
  appendTaskEvent env s head (.modelCallRecorded operation receipt) db

def recordModelCall (env : Env) (id : TaskId) (operation : Uuid) (receipt : ModelCallReceipt)
    (db : Db) : Except StoreError (TaskState × Db) := do
  let (s, head) ← loadState db id
  refuseIf (operation ∉ s.modelReservations)
    (StoreError.invalid "provider result without an admitted call")
  match s.modelReceipts[operation]? with
  | none => commitReceipt env s head operation receipt db
  | some previous =>
    if previous = receipt then .ok (s, db)
    else do
      checkReconciliation previous receipt
      commitReceipt env s head operation receipt db

/-- the event that an accounting operation appends when it is new -/
def usageEvent (env : Env) (s : TaskState) (operation : Uuid) :
    Option Usage → Except StoreError TaskEvent
  | some usage => .ok (.usageCharged operation usage)
  | none => do
    refuseIf (s.outcome.isSome = true) StoreError.terminal
    checkBudget env 0 s
    .ok (.modelCallReserved operation)

def accountUsage (env : Env) (id : TaskId) (operation : Uuid) (usage : Option Usage) (db : Db) :
    Except StoreError (TaskState × Db) := do
  let (s, head) ← loadState db id
  match s.usageReceipts[operation]? with
  | some previous =>
    if usage = some previous then .ok (s, db)
    else .error (.invalid "accounting operation ID reused with different input")
  | none =>
    if operation ∈ s.modelReservations then
      if usage.isNone then .ok (s, db)
      else .error (.invalid "reservation ID reused for usage receipt")
    else do
      let event ← usageEvent env s operation usage
      appendTaskEvent env s head event db

def chargeUsage (env : Env) (id : TaskId) (operation : Uuid) (usage : Usage) (db : Db) :
    Except StoreError (TaskState × Db) := accountUsage env id operation (some usage) db

def reserveModelCall (env : Env) (id : TaskId) (operation : Uuid) (db : Db) :
    Except StoreError (TaskState × Db) := accountUsage env id operation none db

/-! ## delivery and outcome -/

def recordDelivery (env : Env) (id : TaskId) (revision : Nat) (delivery : Delivery) (db : Db) :
    Except StoreError (TaskState × Db) :=
  change env id (some revision) false (fun s => do
    let candidate ← frozenCandidate s "delivery requires a frozen candidate"
    let contract ← s.acceptedContract
    refuseIf (candidate.source ≠ delivery.source ∨ candidate.artifact ≠ delivery.artifact ∨
      contract.delivery ≠ delivery.kind) (StoreError.invalid "delivery identity mismatch")
    env.read delivery.receipt
    .ok (.delivered delivery, db.leases)) db

def baselineReport (contract : Contract) (check : String) : List Digest :=
  match (contract.checks[check]?).map CheckDefinition.baseline with
  | some (.noNewFailure report _) => [report]
  | _ => []

/-- the artifacts of an accepted check -/
def readAccepted (env : Env) (s : TaskState) (accepted : String × Uuid) : Except StoreError Unit :=
  match s.evidence.find? fun e => e.jobId = accepted.2 with
  | none => .error (.integrity "accepted evidence disappeared")
  | some evidence => do
    readAll env (evidence.observation.report :: evidence.observation.control.toList.map (·.report))
    let contract ← s.acceptedContract
    readAll env (baselineReport contract accepted.1)
    env.read evidence.identity.verifier

def complete (env : Env) (id : TaskId) (revision : Nat) (db : Db) :
    Except StoreError (TaskState × Db) :=
  change env id (some revision) false (fun s => do
    let certificate ← (Completion.evaluate s (env.now 0)).mapError StoreError.incomplete
    readAll env [certificate.source, certificate.artifact, certificate.environment,
      certificate.deliveryReceipt]
    checkAll (readAccepted env s) certificate.evidence.toList
    .ok (.completed certificate, db.leases)) db

def stop (env : Env) (id : TaskId) (revision : Nat) (outcome : Outcome) (reason : String) (db : Db) :
    Except StoreError (TaskState × Db) := do
  refuseIf (outcome = .complete) (StoreError.invalid "completion requires the evaluator")
  refuseIf (blank reason = true) (StoreError.invalid "incomplete outcome requires a reason")
  change env id (some revision) false (fun _ => .ok (.stopped outcome reason, db.leases)) db

def reopen (env : Env) (id : TaskId) (revision : Nat) (reason : String) (db : Db) :
    Except StoreError (TaskState × Db) := do
  refuseIf (blank reason = true) (StoreError.invalid "reopening requires a user basis")
  change env id (some revision) true (fun s => do
    refuseIf (s.outcome.isNone = true) (StoreError.invalid "task is already active")
    .ok (.reopened reason, db.leases)) db

def restartReason : String :=
  "Host restarted before task settlement; reconcile old jobs and provider accounting before resuming"

/-- what `recover_interrupted` does to a task that has no outcome -/
def interruptTask (env : Env) (id : TaskId) (db : Db) : Except StoreError (TaskState × Db) := do
  let (s, _) ← loadState db id
  if s.outcome.isSome = true then .ok (s, db)
  else
    change env id (some s.revision) false
      (fun _ => .ok (.interrupted restartReason, Leases.dropTask db.leases id)) db

end

end Orvek
