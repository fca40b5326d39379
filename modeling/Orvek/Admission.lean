import Orvek.Store.Tasks
import Orvek.Workspace.Snapshot

/-!
# Admission of a contract

The model proposes a contract and the host compiles it: against the profile of the repository,
against the words of the user, and, after a follow-up, against the contract that is in force.

* `CheckProgram.validate`, `validateCheck`   what a proposed check must be;
* `RepositoryProfile`, `RequestPolicy`       what the operator configured;
* `compile`                                  the contract, or the reason why there is none.

The loops of `compile` that add to the proposal are named: `addChecks`, `addProfile`, and the four
that merge the contract in force (`mergeContract`).
-/

set_option linter.unusedSectionVars false

namespace Orvek
open Checks Workspace

/-! ## data -/

inductive Expectation where
  | equals (text : String)
  | contains (text : String)
  deriving DecidableEq, Repr

def Expectation.valid : Expectation → Bool
  | .equals _ => true
  | .contains text => !text.isEmpty

inductive Probe where
  | command (id command : String) (exitCode : Int) (stdout stderr : Option Expectation)
  | file (id path : String) (content : Digest)
  deriving DecidableEq, Repr

def Probe.id : Probe → String
  | .command id .. => id
  | .file id .. => id

structure ControlFailure where
  probe : String
  stdout : Option Expectation
  stderr : Option Expectation
  deriving DecidableEq, Repr

structure CheckProgram where
  version : Nat
  probes : List Probe
  controlFailure : Option ControlFailure
  deriving DecidableEq, Repr

structure ProposedCheck where
  purpose : String
  kind : CheckKind
  program : CheckProgram
  baselineFailure : Bool
  /-- an omission is a disclosed judgment, never proof that a control was run -/
  controlOmission : Option String
  deriving DecidableEq, Repr

structure Proposal where
  outcome : String
  scope : String
  requirements : List Requirement
  checks : BTreeMap String ProposedCheck
  protectedBehavior : List String
  assumptions : List String
  openQuestions : List String

/-- from the configuration of the operator; no proposal changes it -/
structure RepositoryProfile where
  version : Nat
  name : String
  checks : BTreeMap String ProposedCheck

structure RequestPolicy where
  version : Nat
  profile : RepositoryProfile
  delivery : DeliveryKind

structure CompiledContract where
  contract : Contract
  receipt : Digest

/-! ## checks and profiles -/

def maxCommandBytes : Nat := 64 * 1024

/-- something is expected of the output, and nothing that every output satisfies -/
def observable (stdout stderr : Option Expectation) : Bool :=
  (stdout.isSome || stderr.isSome) && stdout.all Expectation.valid && stderr.all Expectation.valid

def Probe.validate : Probe → Except StoreError Unit
  | .command _ text _ stdout stderr =>
    refuseIf (blank text = true ∨ maxCommandBytes < strLen text ∨ observable stdout stderr = false)
      (StoreError.invalid
        "command probes require a bounded command and observable output expectation")
  | .file _ path _ =>
    refuseIf (path = "" ∨ (Paths.components path.toList).all Paths.Component.isNormal = false)
      (StoreError.invalid "file probe escapes candidate")

/-- the identifiers of the probes, which are not empty and differ -/
def validateProbes : List Probe → BTreeSet String → Except StoreError (BTreeSet String)
  | [], ids => .ok ids
  | probe :: rest, ids => do
    refuseIf (probe.id = "" ∨ probe.id ∈ ids) (StoreError.invalid "verification probe IDs must be unique")
    probe.validate
    validateProbes rest (ids.insert probe.id)

def CheckProgram.validate (p : CheckProgram) : Except StoreError Unit := do
  refuseIf (p.version ≠ 1 ∨ p.probes = [] ∨ 128 < p.probes.length)
    (StoreError.invalid "invalid verification program version or probe count")
  let ids ← validateProbes p.probes ∅
  refuseIf ((p.controlFailure.any fun control =>
      !ids.contains control.probe || !observable control.stdout control.stderr) = true)
    (StoreError.invalid "control must name a probe and a non-empty expected behavioral failure")

def validateCheck (check : ProposedCheck) : Except StoreError Unit := do
  check.program.validate
  refuseIf (blank check.purpose = true) (StoreError.invalid "acceptance check requires a purpose")
  if check.baselineFailure then
    refuseIf (check.program.controlFailure.isNone = true ∨ check.controlOmission.isSome = true)
      (StoreError.invalid "baseline control requires its intended failure observation")
  else
    refuseIf ((check.controlOmission.any fun reason => !blank reason) = false)
      (StoreError.invalid "omitting a negative control requires a visible reason")

def RepositoryProfile.validate (p : RepositoryProfile) : Except StoreError Unit := do
  refuseIf (p.version ≠ 1 ∨ blank p.name = true ∨ 128 < p.checks.size)
    (StoreError.invalid "invalid repository profile identity or size")
  checkAll validateCheck (valuesOf p.checks)

def RequestPolicy.validate (p : RequestPolicy) : Except StoreError Unit := do
  refuseIf (p.version ≠ 1 ∨ ¬ (p.delivery = .source ∨ p.delivery = .patch))
    (StoreError.invalid "unsupported intake policy or delivery adapter")
  p.profile.validate

/-! ## what comes from outside -/

/-- the encodings that the derived serializers write; `receipt` is that of the admission receipt,
from the task, the policy, the proposal and the baseline -/
class AdmissionCodec where
  program : CheckProgram → List UInt8
  profile : RepositoryProfile → List UInt8
  receipt : TaskState → RequestPolicy → Proposal → Snapshot → List UInt8

/-- the artifacts of an admission -/
structure Intake where
  /-- the artifact of a policy, read and parsed -/
  policy : Digest → Except StoreError RequestPolicy
  /-- `ArtifactStore::put` -/
  put : List UInt8 → Except StoreError Digest

section
variable [Sha256] [ContractCodec] [SessionCodec] [StoreCodec] [AdmissionCodec]

/-! ## the parts of a compilation -/

/-- the definition that the host makes of a proposed check -/
def checkDefinition (id : String) (check : ProposedCheck) : CheckDefinition where
  purpose := check.purpose
  kind := check.kind
  verifier := Digest.of (AdmissionCodec.program check.program)
  command := ["tact-protected-verifier", id]
  timeoutMs := 60000
  minimumAssertions := 1
  control := if check.baselineFailure then .baselineFailure else .none
  controlSource := none
  baseline := .mustPass
  flake := .rejectAnyFailure

/-- `definition`: an omitted control becomes an assumption -/
def definition (id : String) (check : ProposedCheck) (assumptions : List String) :
    Except StoreError (CheckDefinition × List String) := do
  validateCheck check
  .ok (checkDefinition id check, assumptions ++ check.controlOmission.toList.map fun reason =>
    "Check " ++ id ++ " omits a negative control: " ++ reason)

def userBasis (env : Env) (task : TaskState) : Except StoreError String :=
  task.directives.foldlM (fun basis directive => do
    let input ← env.input directive.2
    .ok (basis ++ "\n" ++ input.text)) task.request

def checkOrigin (basis : String) (baseline : Snapshot) (requirement : Requirement) :
    Except StoreError Unit :=
  match requirement.origin with
  | .user quote => refuseIf (blank quote = true ∨ ¬ quote.toList <:+: basis.toList)
      (StoreError.invalid "user-origin requirement must quote the original request")
  | .repository path => refuseIf (path ∉ baseline.entries)
      (StoreError.invalid "repository-origin requirement must name an inspected baseline path")
  | .inferred _ => .ok ()

/-- the parts of a contract that grow while it is compiled -/
structure Draft where
  requirements : List Requirement
  checks : BTreeMap String CheckDefinition
  assumptions : List String

def profilePrefix : String := "profile-"

def addCheck (d : Draft) (entry : String × ProposedCheck) : Except StoreError Draft := do
  refuseIf (profilePrefix.toList <+: entry.1.toList) (StoreError.invalid "profile check IDs are reserved")
  let (check, assumptions) ← definition entry.1 entry.2 d.assumptions
  .ok { d with checks := d.checks.insert entry.1 check, assumptions := assumptions }

/-- one check of the profile, and the requirement it decides -/
def addProfile (profile : RepositoryProfile) (d : Draft) (entry : String × ProposedCheck) :
    Except StoreError Draft := do
  let id := profilePrefix ++ entry.1
  let (check, assumptions) ← definition id entry.2 d.assumptions
  .ok {
    requirements := d.requirements ++ [{
      id := id
      behavior := entry.2.purpose
      origin := .repository ("protected profile " ++ profile.name ++ " @ " ++
        (Digest.of (AdmissionCodec.profile profile)).display)
      checks := [id]
      dependsOn := [] }]
    checks := d.checks.insert id check
    assumptions := assumptions }

/-! ## the contract in force -/

def mergeRequirement (requirements : List Requirement) (old : Requirement) :
    Except StoreError (List Requirement) :=
  match requirements.find? fun proposed => proposed.id = old.id with
  | some proposed => do
    refuseIf (proposed ≠ old)
      (StoreError.invalid "follow-up cannot weaken or rewrite an accepted requirement")
    .ok requirements
  | none => .ok (requirements ++ [old])

def mergeCheck (checks : BTreeMap String CheckDefinition) (old : String × CheckDefinition) :
    Except StoreError (BTreeMap String CheckDefinition) :=
  match checks[old.1]? with
  | some proposed => do
    refuseIf (proposed ≠ old.2)
      (StoreError.invalid "follow-up cannot change a protected acceptance check")
    .ok checks
  | none => .ok (checks.insert old.1 old.2)

/-- what is missing is added at the end -/
def mergeText (texts : List String) (old : String) : List String :=
  if old ∈ texts then texts else texts ++ [old]

def followUpText (old new : String) : String := if new = old then new else old ++ "\nFollow-up: " ++ new

/-- the proposal on top of the contract in force -/
def mergeContract (old contract : Contract) : Except StoreError Contract := do
  let requirements ← old.requirements.foldlM mergeRequirement contract.requirements
  let checks ← old.checks.toList.foldlM mergeCheck contract.checks
  let contract := { contract with
    requirements := requirements
    checks := checks
    protectedBehavior := old.protectedBehavior.foldl mergeText contract.protectedBehavior
    assumptions := old.assumptions.foldl mergeText contract.assumptions
    outcome := followUpText old.outcome contract.outcome
    scope := followUpText old.scope contract.scope }
  preservesObligations old contract
  .ok contract

def mergeAccepted (task : TaskState) (contract : Contract) : Except StoreError Contract :=
  match task.contract with
  | some old => mergeContract old contract
  | none => .ok contract

/-! ## the compilation -/

def readPolicy (intake : Intake) (task : TaskState) : Except StoreError RequestPolicy :=
  match task.intake with
  | some digest => intake.policy digest
  | none => .error (.invalid "missing durable intake policy")

/-- what is refused before anything is compiled -/
def admitProposal (env : Env) (task : TaskState) (proposal : Proposal) (baseline : Snapshot)
    (policy : RequestPolicy) : Except StoreError Unit := do
  policy.validate
  refuseIf (task.contract.isSome = true ∧ task.amendmentPending = false)
    (StoreError.invalid "accepted contracts require the amendment path")
  refuseIf (¬ (policy.delivery = .source ∨ policy.delivery = .patch))
    (StoreError.invalid "unsupported delivery adapter")
  policy.profile.validate
  let basis ← userBasis env task
  refuseIf (128 < proposal.requirements.length ∨ 128 < proposal.checks.size)
    (StoreError.invalid "contract proposal exceeds requirement/check bounds")
  checkAll (checkOrigin basis baseline) proposal.requirements
  refuseIf (((valuesOf proposal.checks).any fun check => check.kind ≠ .build ∧ check.kind ≠ .static) =
      false)
    (StoreError.invalid
      "a coding task requires behavior-specific acceptance beyond build/static checks")

/-- the contract of a proposal, before the one in force is merged -/
def draftContract (task : TaskState) (proposal : Proposal) (policy : RequestPolicy) :
    Except StoreError Contract := do
  let draft ← proposal.checks.toList.foldlM addCheck ⟨proposal.requirements, ∅, proposal.assumptions⟩
  let draft ← policy.profile.checks.toList.foldlM (addProfile policy.profile) draft
  .ok {
    request := task.request
    outcome := proposal.outcome
    scope := proposal.scope
    requirements := draft.requirements
    checks := draft.checks
    protectedBehavior := proposal.protectedBehavior
    assumptions := draft.assumptions
    openQuestions := proposal.openQuestions
    delivery := policy.delivery
    limits := task.initialLimits }

def programs (proposal : Proposal) (policy : RequestPolicy) : List (List UInt8) :=
  (valuesOf proposal.checks ++ valuesOf policy.profile.checks).map fun check =>
    AdmissionCodec.program check.program

def compile (env : Env) (intake : Intake) (task : TaskState) (proposal : Proposal)
    (baseline : Snapshot) : Except StoreError CompiledContract := do
  let policy ← readPolicy intake task
  admitProposal env task proposal baseline policy
  let draft ← draftContract task proposal policy
  let contract ← mergeAccepted task draft
  contract.validate.mapError StoreError.contract
  checkAll (fun program => (intake.put program).map fun _ => ()) (programs proposal policy)
  let receipt ← intake.put (AdmissionCodec.receipt task policy proposal baseline)
  .ok ⟨contract, receipt⟩

end

end Orvek
