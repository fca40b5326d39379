import Orvek.Contract

/-!
# Task state and its events

The state of a task is a fold of its journal: `TaskState.requested` and `TaskState.created` make
the state of the first event, `TaskState.apply` adds every later one.  The names of the events
and fields are those of the source.

Two fields carry the safety argument of the whole task: `generation`, which every event that
makes old evidence stale advances (`TaskState.invalidate`), and the status of the jobs.
-/

set_option linter.unusedSectionVars false

namespace Orvek

/-! ## data -/

inductive Phase where
  | understand | baseline | implement | challenge | verify | deliver
  deriving DecidableEq, Repr

inductive RequestKind where
  | conversation | task | auxiliary
  deriving DecidableEq, Repr

inductive Outcome where
  | complete | deliveredWithExceptions | blocked | budgetExhausted | cancelled | failed
  | finishedUnverified
  deriving DecidableEq, Repr

structure Candidate where
  source : Digest
  environment : Digest
  artifact : Digest
  frozen : Bool
  provenance : Option Digest
  deriving DecidableEq, Repr

inductive CheckStatus where
  | passed | failed | inconclusive | cancelled
  deriving DecidableEq, Repr

structure EvidenceIdentity where
  contract : Digest
  source : Digest
  environment : Digest
  artifact : Digest
  checkDefinition : Digest
  verifier : Digest
  deriving DecidableEq, Repr

structure ControlObservation where
  kind : ControlRequirement
  source : Digest
  rejected : Bool
  intendedReason : Bool
  report : Digest
  deriving DecidableEq, Repr

structure Observation where
  status : CheckStatus
  report : Digest
  assertions : Nat
  discovered : Option Nat
  skipped : Nat
  exitCode : Option Int
  signal : Option Int
  control : Option ControlObservation
  baselineUnchanged : Bool
  limitations : List String
  unreconciledJobs : List Uuid
  deriving DecidableEq, Repr

structure Evidence where
  jobId : Uuid
  generation : Nat
  check : String
  identity : EvidenceIdentity
  startedMs : Nat
  finishedMs : Nat
  observation : Observation
  deriving DecidableEq, Repr

inductive JobStatus where
  | running | succeeded | failed | cancelled | unknown | fenced
  deriving DecidableEq, Repr

def JobStatus.unresolved : JobStatus → Bool
  | .running => true
  | .unknown => true
  | _ => false

structure JobInvocation where
  session : SessionId
  request : Uuid
  callId : Option String
  capability : String
  input : Digest
  environment : Digest
  deriving DecidableEq, Repr

structure Job where
  id : Uuid
  generation : Nat
  status : JobStatus
  mutatesCandidate : Bool
  check : Option String
  identity : Option EvidenceIdentity
  startedMs : Nat
  deadlineMs : Nat
  invocation : Option JobInvocation
  fenceReceipt : Option Digest
  executionReceipt : Option Digest
  deriving DecidableEq, Repr

inductive EffectStatus where
  | intended | unknown | succeeded | failed | reconciled
  deriving DecidableEq, Repr

structure Effect where
  operationId : Uuid
  description : String
  status : EffectStatus
  idempotent : Bool
  deriving DecidableEq, Repr

structure Finding where
  id : String
  description : String
  blocking : Bool
  resolved : Bool
  resolution : Option String
  deriving DecidableEq, Repr

structure Delivery where
  kind : DeliveryKind
  source : Digest
  artifact : Digest
  receipt : Digest
  deriving DecidableEq, Repr

structure Certificate where
  task : TaskId
  contract : Digest
  source : Digest
  artifact : Digest
  environment : Digest
  generation : Nat
  evaluatedRevision : Nat
  evidence : BTreeMap String Uuid
  deliveryReceipt : Digest
  deriving DecidableEq

structure Usage where
  modelCalls : Nat
  tokens : Nat
  deriving DecidableEq, Repr

inductive ModelCallStatus where
  | completed | failed | cancelled | unknown
  deriving DecidableEq, Repr

structure ModelCallReceipt where
  status : ModelCallStatus
  /-- `none` means that the provider might have charged an unknown amount -/
  tokens : Option Nat
  report : Digest
  deriving DecidableEq, Repr

structure TaskState where
  workspaceOrigin : Option Digest
  workspaceOverride : Option Digest
  origin : Option Digest
  id : TaskId
  revision : Nat
  generation : Nat
  scopeRevision : Nat
  admittedScopeRevision : Nat
  directiveScopes : BTreeMap Uuid Nat
  directives : List (Uuid × Digest)
  amendmentPending : Bool
  startedMs : Nat
  request : String
  initialLimits : Limits
  intake : Option Digest
  input : Option Digest
  contract : Option Contract
  contractAdmission : Option Digest
  contractHistory : List (Digest × String)
  phase : Phase
  outcome : Option Outcome
  cancellationRequested : Bool
  dispositionReason : Option String
  candidate : Option Candidate
  baseline : Option Candidate
  evidence : List Evidence
  jobs : BTreeMap Uuid Job
  effects : BTreeMap Uuid Effect
  findings : BTreeMap String Finding
  usage : Usage
  modelReservations : BTreeSet Uuid
  modelReceipts : BTreeMap Uuid ModelCallReceipt
  usageReceipts : BTreeMap Uuid Usage
  delivery : Option Delivery
  certificates : List Certificate
  deriving DecidableEq

inductive TaskEvent where
  | manualStarted (job : Job)
  | manualWorkspace (candidate : Candidate) (origin : Digest)
  | workspaceRestored (source : Digest)
  | originCaptured (source : Digest)
  | directiveReplaced (request : Uuid) (input : Digest)
  | directiveReceived (request : Uuid) (input : Digest)
  | additiveContractAccepted (contract : Contract) (receipt : Digest) (scopeRevision : Nat)
  | requested (request : String) (limits : Limits) (intake : Digest) (input : Option Digest)
      (atMs : Nat)
  | contractAdmitted (contract : Contract) (basis : String) (receipt : Digest)
  | created (contract : Contract) (atMs : Nat)
  | contractAmended (contract : Contract) (reason : String)
  | candidateSelected (candidate : Candidate)
  | workspaceChanged (reason : String)
  | evidenceInvalidated (reason : String)
  | cancellationRequested
  | baselineEstablished (candidate : Candidate)
  | phaseChanged (phase : Phase)
  | jobStarted (job : Job)
  | jobSettled (id : Uuid) (status : JobStatus) (receipt : Option Digest)
  | jobFenced (id : Uuid) (receipt : Digest)
  | observed (evidence : Evidence)
  | effectRecorded (effect : Effect)
  | findingRecorded (finding : Finding)
  | modelCallReserved (operation : Uuid)
  | modelCallRecorded (operation : Uuid) (receipt : ModelCallReceipt)
  | usageCharged (operation : Uuid) (usage : Usage)
  | delivered (delivery : Delivery)
  | completed (certificate : Certificate)
  | stopped (outcome : Outcome) (reason : String)
  | reopened (reason : String)
  | interrupted (reason : String)
  deriving DecidableEq

/-! ## creation -/

namespace TaskState

def requested (id : TaskId) (request : String) (limits : Limits) (startedMs : Nat)
    (intake input : Option Digest) : TaskState where
  workspaceOrigin := none
  workspaceOverride := none
  origin := none
  id := id
  revision := 1
  generation := 1
  scopeRevision := 0
  admittedScopeRevision := 0
  directiveScopes := ∅
  directives := []
  amendmentPending := false
  startedMs := startedMs
  request := request
  initialLimits := limits
  intake := intake
  input := input
  contract := none
  contractAdmission := none
  contractHistory := []
  phase := .understand
  outcome := none
  cancellationRequested := false
  dispositionReason := none
  candidate := none
  baseline := none
  evidence := []
  jobs := ∅
  effects := ∅
  findings := ∅
  usage := ⟨0, 0⟩
  modelReservations := ∅
  modelReceipts := ∅
  usageReceipts := ∅
  delivery := none
  certificates := []

def created (id : TaskId) (contract : Contract) (startedMs : Nat) : TaskState :=
  { requested id contract.request contract.limits startedMs none none with
    contract := some contract }

/-- the limits of the accepted contract, or those of the request before there is one -/
def limits (s : TaskState) : Limits :=
  match s.contract with
  | some contract => contract.limits
  | none => s.initialLimits

/-- whatever was verified before is stale from here on -/
def invalidate (s : TaskState) : TaskState :=
  { s with generation := s.generation + 1, delivery := none }

/-- the status a check's evidence leaves its job in -/
def observedStatus (o : Observation) : JobStatus :=
  if !o.unreconciledJobs.isEmpty then .unknown
  else if o.status = .passed then .succeeded
  else .failed

/-- `self.directives.iter_mut().find(|(id, _)| id == request)`, then the assignment -/
def replaceDirective (request : Uuid) (input : Digest) :
    List (Uuid × Digest) → List (Uuid × Digest)
  | [] => []
  | (id, old) :: rest =>
    if id = request then (id, input) :: rest else (id, old) :: replaceDirective request input rest

def interruptJob (job : Job) : Job :=
  if job.status = .running then { job with status := .unknown } else job

def interruptEffect (effect : Effect) : Effect :=
  if effect.status = .intended then { effect with status := .unknown } else effect

def enlargeScope (request : Uuid) (s : TaskState) : TaskState :=
  { s.invalidate with
    scopeRevision := s.scopeRevision + 1
    directiveScopes := s.directiveScopes.insert request (s.scopeRevision + 1)
    amendmentPending := true
    outcome := none
    dispositionReason := none }

section
variable [Sha256] [ContractCodec]

def retireContract (s : TaskState) (why : String) : List (Digest × String) :=
  match s.contract with
  | some previous => s.contractHistory ++ [(previous.digest, why)]
  | none => s.contractHistory

/-- the effect of one event, before the revision is advanced -/
def update (s : TaskState) : TaskEvent → TaskState
  | .manualStarted job =>
    { s.invalidate with
      scopeRevision := s.scopeRevision + 1
      outcome := none
      cancellationRequested := false
      jobs := s.jobs.insert job.id job }
  | .manualWorkspace candidate origin =>
    { s with
      workspaceOverride := some candidate.source
      workspaceOrigin := some origin
      candidate := some candidate }
  | .workspaceRestored _ => { s with workspaceOverride := none }
  | .originCaptured source => { s with origin := some source, workspaceOrigin := some source }
  | .directiveReplaced request input =>
    { s.enlargeScope request with directives := replaceDirective request input s.directives }
  | .directiveReceived request input =>
    { s.enlargeScope request with directives := s.directives ++ [(request, input)] }
  | .additiveContractAccepted contract receipt _ =>
    { s.invalidate with
      contractHistory := s.retireContract ("user follow-up admission " ++ receipt.display)
      contract := some contract
      contractAdmission := some receipt
      amendmentPending := false
      admittedScopeRevision := s.scopeRevision }
  -- the journal loader handles creation, so that these two never get here
  | .requested .. => s
  | .created .. => s
  | .contractAdmitted contract _ receipt =>
    { s.invalidate with contract := some contract, contractAdmission := some receipt }
  | .contractAmended contract reason =>
    { s.invalidate with
      contractHistory := s.retireContract reason
      contract := some contract }
  | .candidateSelected candidate => { s.invalidate with candidate := some candidate }
  | .workspaceChanged _ => { s.invalidate with candidate := none }
  | .evidenceInvalidated reason =>
    { s.invalidate with outcome := some .blocked, dispositionReason := some reason }
  | .cancellationRequested => { s with cancellationRequested := true }
  | .baselineEstablished candidate => { s with baseline := some candidate }
  | .phaseChanged phase => { s with phase := phase }
  | .jobStarted job => { s with jobs := s.jobs.insert job.id job }
  | .jobSettled id status receipt =>
    { s with jobs := s.jobs.modify id fun job =>
        { job with status := status, executionReceipt := receipt } }
  | .jobFenced id receipt =>
    { s with jobs := s.jobs.modify id fun job =>
        { job with status := .fenced, fenceReceipt := some receipt } }
  | .observed evidence =>
    { s with
      jobs := s.jobs.modify evidence.jobId fun job =>
        { job with status := observedStatus evidence.observation }
      evidence := s.evidence ++ [evidence] }
  | .effectRecorded effect => { s with effects := s.effects.insert effect.operationId effect }
  | .findingRecorded finding => { s with findings := s.findings.insert finding.id finding }
  | .modelCallReserved operation =>
    { s with
      modelReservations := s.modelReservations.insert operation
      usage := { s.usage with modelCalls := satAdd32 s.usage.modelCalls 1 } }
  | .modelCallRecorded operation receipt =>
    let previous := ((s.modelReceipts[operation]?).bind (·.tokens)).getD 0
    let tokens := satAdd64 s.usage.tokens (receipt.tokens.getD 0 - previous)
    let t := { s with
      usage := { s.usage with tokens := tokens }
      modelReceipts := s.modelReceipts.insert operation receipt }
    if t.outcome = some .complete ∧ t.limits.tokens < tokens then
      { t.invalidate with
        outcome := some .budgetExhausted
        dispositionReason := some "late provider accounting exceeded the task budget" }
    else t
  | .usageCharged operation usage =>
    let calls := satAdd32 s.usage.modelCalls usage.modelCalls
    let tokens := satAdd64 s.usage.tokens usage.tokens
    let t := { s with
      usageReceipts := s.usageReceipts.insert operation usage
      usage := ⟨calls, tokens⟩ }
    if t.outcome = some .complete ∧ (t.limits.modelCalls < calls ∨ t.limits.tokens < tokens) then
      { t.invalidate with
        outcome := some .budgetExhausted
        dispositionReason := some
          "late accounting exceeded the task budget; the earlier certificate remains historical" }
    else t
  | .delivered delivery => { s with delivery := some delivery }
  | .completed certificate =>
    { s with certificates := s.certificates ++ [certificate], outcome := some .complete }
  | .stopped outcome reason =>
    { s with outcome := some outcome, dispositionReason := some reason }
  | .reopened _ =>
    { s.invalidate with outcome := none, dispositionReason := none, cancellationRequested := false }
  | .interrupted reason =>
    { s.invalidate with
      outcome := some (if s.cancellationRequested then .cancelled else .blocked)
      dispositionReason := some reason
      jobs := s.jobs.map fun _ job => interruptJob job
      effects := s.effects.map fun _ effect => interruptEffect effect }

def apply (s : TaskState) (event : TaskEvent) : TaskState :=
  { s.update event with revision := (s.update event).revision + 1 }

end

end TaskState

end Orvek
