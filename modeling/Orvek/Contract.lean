import Orvek.Text

/-!
# The task contract

A contract lists the requirements of a task, the checks that decide each requirement, and the
limits the work must respect.  `Contract.validate` is the admission test of the source, check by
check and with the source's messages; `Contract.digest` identifies a contract by its encoding.
-/

set_option linter.unusedSectionVars false

namespace Orvek

/-! ## data -/

inductive Origin where
  | user (basis : String)
  | repository (basis : String)
  | inferred (basis : String)
  deriving DecidableEq, Repr

def Origin.basis : Origin → String
  | .user basis => basis
  | .repository basis => basis
  | .inferred basis => basis

structure Requirement where
  id : String
  behavior : String
  origin : Origin
  checks : List String
  dependsOn : List String
  deriving DecidableEq, Repr

inductive CheckKind where
  | behavior | build | static | integration | interface | migration | performance | review
  deriving DecidableEq, Repr

inductive ControlRequirement where
  | none | baselineFailure | negativeControl
  deriving DecidableEq, Repr

inductive BaselinePolicy where
  | mustPass
  | noNewFailure (baselineReport : Digest) (reason : String)
  deriving DecidableEq, Repr

inductive FlakePolicy where
  | rejectAnyFailure
  | retry (maxAttempts : Nat)
  deriving DecidableEq, Repr

inductive DeliveryKind where
  | patch | source | package | deployment | report
  deriving DecidableEq, Repr

structure CheckDefinition where
  purpose : String
  kind : CheckKind
  verifier : Digest
  command : List String
  timeoutMs : Nat
  minimumAssertions : Nat
  control : ControlRequirement
  controlSource : Option Digest
  baseline : BaselinePolicy
  flake : FlakePolicy
  deriving DecidableEq, Repr

structure Limits where
  modelCalls : Nat
  tokens : Nat
  elapsedMs : Nat
  concurrentJobs : Nat
  artifactBytes : Nat
  deriving DecidableEq, Repr

structure Contract where
  request : String
  outcome : String
  scope : String
  requirements : List Requirement
  checks : BTreeMap String CheckDefinition
  protectedBehavior : List String
  assumptions : List String
  openQuestions : List String
  delivery : DeliveryKind
  limits : Limits
  deriving DecidableEq

inductive ContractError where
  | empty (what : String)
  | requirementId (id : String)
  | noChecks (requirement : String)
  | missing (requirement kind id : String)
  | cycle
  | check (id reason : String)
  | limits
  deriving DecidableEq, Repr

/-! ## validation -/

def maxExecutionTimeoutMs : Nat := 3600000

/-- `Limits::default` -/
def Limits.default : Limits where
  modelCalls := 100
  tokens := 1000000
  elapsedMs := 7200000
  concurrentJobs := 4
  artifactBytes := 256 * 1024 * 1024

def Limits.validate (l : Limits) : Except ContractError Unit :=
  if l.modelCalls = 0 ∨ l.tokens = 0 ∨ l.elapsedMs = 0 ∨ l.concurrentJobs = 0 ∨
      l.artifactBytes = 0 then .error .limits
  else .ok ()

theorem Limits.default_validate : Limits.default.validate = .ok () := by decide

def validId (id : String) : Bool :=
  !id.isEmpty && strLen id ≤ 128 &&
    (Json.strBytes id).all fun b =>
      (48 ≤ b && b ≤ 57) || (65 ≤ b && b ≤ 90) || (97 ≤ b && b ≤ 122) || b == 45 || b == 95 ||
        b == 46

/-- the first loop over the requirements: it returns the set of their identifiers -/
def Contract.requirementIds : List Requirement → BTreeSet String →
    Except ContractError (BTreeSet String)
  | [], ids => .ok ids
  | r :: rest, ids =>
    if !validId r.id || ids.contains r.id then .error (.requirementId r.id)
    else if blank r.behavior then .error (.empty "observable behavior")
    else if blank r.origin.basis then .error (.empty "requirement provenance")
    else if r.checks.isEmpty then .error (.noChecks r.id)
    else requirementIds rest (ids.insert r.id)

def Contract.checkReferences (checks : BTreeMap String CheckDefinition) (ids : BTreeSet String)
    (r : Requirement) : Except ContractError Unit :=
  match r.checks.find? fun check => !checks.contains check with
  | some check => .error (.missing r.id "check" check)
  | none =>
    match r.dependsOn.find? fun dependency => !ids.contains dependency with
    | some dependency => .error (.missing r.id "requirement" dependency)
    | none => .ok ()

/-- one round of the dependency loop -/
def Contract.visit (requirements : List Requirement) (visited : BTreeSet String) :
    BTreeSet String :=
  requirements.foldl (fun seen r =>
    if r.dependsOn.all seen.contains then seen.insert r.id else seen) visited

/-- the dependency loop; every round but the last one adds an identifier, so that one round for
each identifier and one more are enough -/
def Contract.acyclic (requirements : List Requirement) (total : Nat) :
    Nat → BTreeSet String → Bool
  | 0, _ => false
  | fuel + 1, visited =>
    let next := Contract.visit requirements visited
    if next.size = total then true
    else if next.size = visited.size then false
    else Contract.acyclic requirements total fuel next

/-- what is wrong with one check definition -/
def Contract.checkReason (requirements : List Requirement) (id : String)
    (check : CheckDefinition) : Option String :=
  if !requirements.any fun r => r.checks.contains id then
    some "check must belong to a required outcome"
  else if !validId id || blank check.purpose then some "an ID and purpose are required"
  else if check.command.isEmpty || check.command.head? == some "" || check.timeoutMs == 0 ||
      maxExecutionTimeoutMs < check.timeoutMs then
    some "a command and bounded positive timeout are required"
  else if check.kind ≠ .build ∧ check.kind ≠ .static ∧ check.minimumAssertions = 0 then
    some "behavioral checks require at least one assertion"
  else if check.flake = .retry 0 then some "retry bound must be positive"
  else if check.control = .negativeControl ∧ check.controlSource = none then
    some "negative control requires an immutable source identity"
  else
    match check.baseline with
    | .noNewFailure _ reason =>
      if blank reason then some "baseline allowance requires a reason" else none
    | .mustPass => none

def Contract.checkAll (requirements : List Requirement) :
    List (String × CheckDefinition) → Except ContractError Unit
  | [] => .ok ()
  | (id, check) :: rest =>
    match Contract.checkReason requirements id check with
    | some reason => .error (.check id reason)
    | none => checkAll requirements rest

def Contract.validate (c : Contract) : Except ContractError Unit := do
  if blank c.request then throw (.empty "request")
  if blank c.outcome then throw (.empty "outcome")
  if blank c.scope then throw (.empty "scope")
  if c.requirements.isEmpty then throw (.empty "requirements")
  let ids ← Contract.requirementIds c.requirements ∅
  c.requirements.forM (Contract.checkReferences c.checks ids)
  if !Contract.acyclic c.requirements ids.size (ids.size + 1) ∅ then throw .cycle
  Contract.checkAll c.requirements c.checks.toList
  c.limits.validate

/-! ## identity -/

/-- the encodings of contracts and check definitions that the derived serializers write -/
class ContractCodec where
  contract : Contract → List UInt8
  check : CheckDefinition → List UInt8

section
variable [Sha256] [ContractCodec]

def Contract.digest (c : Contract) : Digest := Digest.of (ContractCodec.contract c)

/-- `Digest::of_value` on a check definition -/
def CheckDefinition.digest (c : CheckDefinition) : Digest := Digest.of (ContractCodec.check c)

end

end Orvek
