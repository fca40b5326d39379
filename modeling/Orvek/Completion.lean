import Orvek.TaskState
import Orvek.Lib.Checks

/-!
# The completion evaluator

`evaluate` decides whether a task is complete.  It collects every reason against it, and issues a
certificate only when there is none:

* `generalRejections`   what is wrong with the task as a whole;
* `judge`               what the evidence of one check is worth;
* `acceptChecks`        the loop over the checks of all requirements;
* `evaluate_ok`         everything that a certificate says about the state it was issued for.
-/

set_option linter.unusedSectionVars false

namespace Orvek
open Checks

structure Rejection where
  obligation : Option String
  reason : String
  deriving DecidableEq, Repr

/-- `ContractPending` -/
def contractPending : String := "task has no accepted executable contract"

namespace Completion

section
variable [Sha256] [ContractCodec]
variable {c : Certificate} {checkId : String}

/-- one rejection when the condition holds -/
def rejectIf (c : Prop) [Decidable c] (reason : String) : List Rejection :=
  if c then [⟨none, reason⟩] else []

theorem rejectIf_nil {c : Prop} [Decidable c] {reason : String} (h : rejectIf c reason = []) : ¬ c := by
  unfold rejectIf at h
  split at h
  · cases h
  · assumption

/-! ## the task as a whole -/

/-- a call of the provider whose outcome and price are known -/
def settledCall (receipts : BTreeMap Uuid ModelCallReceipt) (operation : Uuid) : Bool :=
  (receipts[operation]?).any fun receipt => receipt.tokens.isSome && receipt.status != .unknown

def unreconciled (effect : Effect) : Bool := effect.status == .intended || effect.status == .unknown

def findingRejections (findings : List Finding) : List Rejection :=
  (findings.filter fun f => f.blocking && !f.resolved).map fun f => ⟨some f.id, f.description⟩

def generalRejections (s : TaskState) (contract : Contract) (atMs : Nat) : List Rejection :=
  rejectIf (contract.validate.isOk = false) "invalid contract" ++
  (rejectIf (s.outcome.isSome = true) "task already has a terminal outcome" ++
  (rejectIf (s.cancellationRequested = true) "cancellation has been requested" ++
  (rejectIf (s.amendmentPending = true)
    "user follow-up has not been admitted into the task contract" ++
  (rejectIf (contract.openQuestions ≠ []) "required product decisions remain open" ++
  (findingRejections (valuesOf s.findings) ++
  (rejectIf (∃ job ∈ valuesOf s.jobs, job.status.unresolved = true)
    "jobs remain running or have unknown outcomes" ++
  (rejectIf (∃ job ∈ valuesOf s.jobs, job.status = .fenced ∧ job.fenceReceipt = none)
    "a fenced job has no termination receipt" ++
  (rejectIf (∃ operation ∈ s.modelReservations.toList, settledCall s.modelReceipts operation = false)
    "provider attempts have unknown outcomes or billing" ++
  (rejectIf (∃ effect ∈ valuesOf s.effects, unreconciled effect = true)
    "external effects require reconciliation" ++
  rejectIf (contract.limits.tokens < s.usage.tokens ∨ contract.limits.modelCalls < s.usage.modelCalls ∨
      contract.limits.elapsedMs ≤ atMs - s.startedMs)
    "execution budget exceeded")))))))))

/-! ## one check -/

def identityOf (contract : Contract) (candidate : Candidate) (check : CheckDefinition) :
    EvidenceIdentity where
  contract := contract.digest
  source := candidate.source
  environment := candidate.environment
  artifact := candidate.artifact
  checkDefinition := check.digest
  verifier := check.verifier

def attempts (s : TaskState) (checkId : String) (identity : EvidenceIdentity) : List Evidence :=
  s.evidence.filter fun e => e.check = checkId ∧ e.identity = identity

/-- the result passed, or failed exactly as the allowed baseline does -/
def acceptable (check : CheckDefinition) (o : Observation) : Bool :=
  (o.status == .passed && o.exitCode == some 0 && o.signal.isNone) ||
    ((match check.baseline with | .noNewFailure .. => true | .mustPass => false) &&
      o.status == .failed && o.baselineUnchanged && o.signal.isNone)

def expectedControl (s : TaskState) (check : CheckDefinition) : Option Digest :=
  match check.control with
  | .baselineFailure => s.baseline.map Candidate.source
  | .negativeControl => check.controlSource
  | .none => none

def controlled (s : TaskState) (check : CheckDefinition) (o : Observation) : Bool :=
  check.control == .none || o.control.any fun control =>
    control.rejected && control.intendedReason && control.kind == check.control &&
      some control.source == expectedControl s check

def withinRetries (check : CheckDefinition) (tries : List Evidence) : Bool :=
  match check.flake with
  | .rejectAnyFailure => !tries.dropLast.any fun e => e.observation.status == .failed
  | .retry maxAttempts => tries.length ≤ maxAttempts

/-- the evidence that a check is accepted on -/
def judge (s : TaskState) (contract : Contract) (candidate : Candidate) (checkId : String)
    (check : CheckDefinition) : Except String Evidence :=
  let tries := attempts s checkId (identityOf contract candidate check)
  match tries.getLast? with
  | none => .error ("check " ++ checkId ++ " has no current evidence")
  | some last => do
    refuseIf (last.generation ≠ s.generation) ("check " ++ checkId ++ " has no current evidence")
    refuseIf (last.observation.limitations ≠ [] ∨ last.observation.unreconciledJobs ≠ [])
      ("check " ++ checkId ++ " has unresolved evidence limitations")
    refuseIf (acceptable check last.observation = false)
      ("check " ++ checkId ++ " did not satisfy its acceptance policy")
    refuseIf (last.observation.assertions < check.minimumAssertions ∨
        last.observation.discovered = some 0 ∨
        (last.observation.discovered.any fun n => n ≤ last.observation.skipped) = true)
      ("check " ++ checkId ++ " did not exercise its required assertions")
    refuseIf (controlled s check last.observation = false)
      ("check " ++ checkId ++ " has no valid negative control")
    refuseIf (withinRetries check tries = false)
      ("check " ++ checkId ++ " violates its declared retry policy")
    .ok last

/-! ## all checks -/

structure Progress where
  reasons : List Rejection
  accepted : BTreeMap String Uuid

def acceptCheck (s : TaskState) (contract : Contract) (candidate : Candidate) (p : Progress)
    (target : String × String) : Progress :=
  if target.2 ∈ p.accepted then p
  else
    match contract.checks[target.2]? with
    | none => { p with reasons := p.reasons ++ [⟨some target.1, "acceptance definition is missing"⟩] }
    | some check =>
      match judge s contract candidate target.2 check with
      | .error reason => { p with reasons := p.reasons ++ [⟨some target.1, reason⟩] }
      | .ok last => { p with accepted := p.accepted.insert target.2 last.jobId }

def obligations (contract : Contract) : List (String × String) :=
  contract.requirements.flatMap fun r => r.checks.map fun check => (r.id, check)

def acceptChecks (s : TaskState) (contract : Contract) (candidate : Candidate) (p : Progress) :
    Progress := (obligations contract).foldl (acceptCheck s contract candidate) p

def deliveryRejections (contract : Contract) (candidate : Candidate) (delivery : Delivery) :
    List Rejection :=
  rejectIf (delivery.kind ≠ contract.delivery ∨ delivery.source ≠ candidate.source ∨
      delivery.artifact ≠ candidate.artifact)
    "delivery does not match the candidate and requested stage"

def evaluate (s : TaskState) (atMs : Nat) : Except (List Rejection) Certificate :=
  match s.contract with
  | none => .error [⟨none, contractPending⟩]
  | some contract =>
    let reasons := generalRejections s contract atMs
    match s.candidate with
    | none => .error (reasons ++ [⟨none, "no frozen candidate"⟩])
    | some candidate =>
      let reasons := reasons ++ rejectIf (candidate.frozen = false) "candidate is still writable"
      let p := acceptChecks s contract candidate ⟨reasons, ∅⟩
      match s.delivery with
      | none => .error (p.reasons ++ [⟨none, "requested delivery has not been verified"⟩])
      | some delivery =>
        let reasons := p.reasons ++ deliveryRejections contract candidate delivery
        if reasons = [] then
          .ok {
            task := s.id
            contract := contract.digest
            source := candidate.source
            artifact := candidate.artifact
            environment := candidate.environment
            generation := s.generation
            evaluatedRevision := s.revision
            evidence := p.accepted
            deliveryReceipt := delivery.receipt }
        else .error reasons

/-! ## what a certificate says -/

/-- evidence that a check may be accepted on: current, of the right identity, and within policy -/
structure Accepts (s : TaskState) (contract : Contract) (candidate : Candidate) (checkId : String)
    (check : CheckDefinition) (e : Evidence) : Prop where
  recorded : e ∈ s.evidence
  named : e.check = checkId
  identity : e.identity = identityOf contract candidate check
  current : e.generation = s.generation
  unlimited : e.observation.limitations = [] ∧ e.observation.unreconciledJobs = []
  passed : acceptable check e.observation = true
  asserted : check.minimumAssertions ≤ e.observation.assertions ∧ e.observation.discovered ≠ some 0 ∧
    ∀ n, e.observation.discovered = some n → e.observation.skipped < n
  control : controlled s check e.observation = true
  retries : withinRetries check (attempts s checkId (identityOf contract candidate check)) = true

variable {s : TaskState} {contract : Contract} {candidate : Candidate}

theorem judge_ok {check : CheckDefinition} {e : Evidence}
    (h : judge s contract candidate checkId check = .ok e) :
    Accepts s contract candidate checkId check e := by
  unfold judge at h
  simp only at h
  split at h
  · cases h
  · rename_i last hlast
    obtain ⟨hgen, h⟩ := refuseIf_bind h
    obtain ⟨hlim, h⟩ := refuseIf_bind h
    obtain ⟨hacc, h⟩ := refuseIf_bind h
    obtain ⟨hassert, h⟩ := refuseIf_bind h
    obtain ⟨hctl, h⟩ := refuseIf_bind h
    obtain ⟨hretry, h⟩ := refuseIf_bind h
    cases h
    have hmem := List.mem_filter.mp (List.mem_of_getLast? hlast)
    simp only [not_or, not_not, Nat.not_lt, Bool.not_eq_false, Bool.not_eq_true]
      at hgen hlim hacc hassert hctl hretry
    refine ⟨hmem.1, (of_decide_eq_true hmem.2).1, (of_decide_eq_true hmem.2).2, hgen, hlim, hacc,
      ⟨hassert.1, hassert.2.1, fun n hn => ?_⟩, hctl, hretry⟩
    have := hassert.2.2
    rw [hn] at this
    simpa using this

def Justified (s : TaskState) (contract : Contract) (candidate : Candidate) (p : Progress) : Prop :=
  ∀ checkId job, p.accepted[checkId]? = some job → ∃ check e, contract.checks[checkId]? = some check ∧
    Accepts s contract candidate checkId check e ∧ e.jobId = job

attribute [grind =] acceptCheck

theorem acceptCheck_justified {p : Progress} (h : Justified s contract candidate p)
    (target : String × String) : Justified s contract candidate (acceptCheck s contract candidate p target) := by
  unfold acceptCheck
  split
  · exact h
  · split
    · exact h
    · rename_i check hcheck
      split
      · exact h
      · rename_i last hlast
        intro checkId job hjob
        simp only [Std.ExtTreeMap.getElem?_insert] at hjob
        split at hjob
        · rename_i he
          rw [Std.LawfulEqOrd.compare_eq_iff_eq] at he
          cases he
          cases hjob
          exact ⟨check, last, hcheck, judge_ok hlast, rfl⟩
        · exact h checkId job hjob

theorem acceptCheck_mem (p : Progress) (target : String × String) :
    (∃ r, (acceptCheck s contract candidate p target).reasons = p.reasons ++ [r]) ∨
    ((acceptCheck s contract candidate p target).reasons = p.reasons ∧
      target.2 ∈ (acceptCheck s contract candidate p target).accepted) := by
  unfold acceptCheck
  split
  · exact .inr ⟨rfl, ‹_›⟩
  · split
    · exact .inl ⟨_, rfl⟩
    · split
      · exact .inl ⟨_, rfl⟩
      · exact .inr ⟨rfl, by simp⟩

theorem acceptCheck_keeps (p : Progress) (target : String × String) (h : checkId ∈ p.accepted) :
    checkId ∈ (acceptCheck s contract candidate p target).accepted := by
  unfold acceptCheck
  split
  · exact h
  · split
    · exact h
    · split
      · exact h
      · exact Std.ExtTreeMap.mem_insert.mpr (.inr h)

theorem acceptChecks_ok {targets : List (String × String)} {p : Progress}
    (hj : Justified s contract candidate p)
    (h : (targets.foldl (acceptCheck s contract candidate) p).reasons = []) :
    p.reasons = [] ∧ Justified s contract candidate (targets.foldl (acceptCheck s contract candidate) p) ∧
      ∀ checkId, (checkId ∈ p.accepted ∨ checkId ∈ targets.map Prod.snd) →
        checkId ∈ (targets.foldl (acceptCheck s contract candidate) p).accepted := by
  induction targets generalizing p with
  | nil => exact ⟨h, hj, fun checkId hc => hc.resolve_right (by simp)⟩
  | cons target targets ih =>
    rw [List.foldl_cons] at h ⊢
    obtain ⟨hnil, hjust, hall⟩ := ih (acceptCheck_justified hj target) h
    rcases @acceptCheck_mem _ _ s contract candidate p target with ⟨r, hr⟩ | ⟨hr, hmem⟩
    · rw [hr] at hnil
      simp at hnil
    · refine ⟨by rw [← hr, hnil], hjust, fun checkId hc => ?_⟩
      rcases hc with hc | hc
      · exact hall checkId (.inl (acceptCheck_keeps p target hc))
      · rw [List.map_cons] at hc
        rcases List.mem_cons.mp hc with rfl | hc
        · exact hall _ (.inl hmem)
        · exact hall _ (.inr hc)

/-- a task of which nothing is open: what the general reasons exclude -/
structure Quiet (s : TaskState) (limits : Limits) : Prop where
  amendment : s.amendmentPending = false
  jobs : ∀ job ∈ valuesOf s.jobs, job.status.unresolved = false
  effects : ∀ effect ∈ valuesOf s.effects, unreconciled effect = false
  calls : ∀ operation ∈ s.modelReservations, settledCall s.modelReceipts operation = true
  usage : s.usage.tokens ≤ limits.tokens ∧ s.usage.modelCalls ≤ limits.modelCalls

/-- a certificate that describes the contract, the candidate and the evidence of a state -/
structure Certifies (s : TaskState) (contract : Contract) (candidate : Candidate) (c : Certificate) :
    Prop where
  current : c.generation = s.generation
  agreed : c.contract = contract.digest
  source : c.source = candidate.source
  artifact : c.artifact = candidate.artifact
  environment : c.environment = candidate.environment
  checks : ∀ r ∈ contract.requirements, ∀ checkId ∈ r.checks, ∃ check e,
    contract.checks[checkId]? = some check ∧ Accepts s contract candidate checkId check e ∧
      c.evidence[checkId]? = some e.jobId

theorem Accepts.transfer {t : TaskState} {check : CheckDefinition} {e : Evidence}
    (h : Accepts s contract candidate checkId check e) (he : t.evidence = s.evidence)
    (hg : t.generation = s.generation) (hb : t.baseline = s.baseline) :
    Accepts t contract candidate checkId check e where
  recorded := by rw [he]; exact h.recorded
  named := h.named
  identity := h.identity
  current := by rw [hg]; exact h.current
  unlimited := h.unlimited
  passed := h.passed
  asserted := h.asserted
  control := by
    have := h.control
    unfold controlled expectedControl at this ⊢
    rwa [hb]
  retries := by
    have := h.retries
    unfold attempts at this ⊢
    rwa [he]

theorem Certifies.transfer {t : TaskState} (h : Certifies s contract candidate c)
    (he : t.evidence = s.evidence) (hg : t.generation = s.generation) (hb : t.baseline = s.baseline) :
    Certifies t contract candidate c where
  current := by rw [hg]; exact h.current
  agreed := h.agreed
  source := h.source
  artifact := h.artifact
  environment := h.environment
  checks r hr checkId hc := by
    obtain ⟨check, e, hdef, hacc, hlisted⟩ := h.checks r hr checkId hc
    exact ⟨check, e, hdef, hacc.transfer he hg hb, hlisted⟩

theorem generalRejections_nil {atMs : Nat} (h : generalRejections s contract atMs = []) :
    s.outcome = none ∧ s.cancellationRequested = false ∧ Quiet s contract.limits := by
  simp only [generalRejections, List.append_eq_nil_iff] at h
  obtain ⟨-, hout, hcancel, hamend, -, -, hjobs, -, hcalls, heff, husage⟩ := h
  have hout := rejectIf_nil hout
  have hcancel := rejectIf_nil hcancel
  have husage := rejectIf_nil husage
  simp only [not_or, Nat.not_lt] at husage
  refine ⟨by simpa using hout, by simpa using hcancel, by simpa using rejectIf_nil hamend, ?_, ?_, ?_,
    husage.1, husage.2.1⟩
  · intro job hjob
    by_contra hu
    exact rejectIf_nil hjobs ⟨job, hjob, by simpa using hu⟩
  · intro effect heffect
    by_contra hu
    exact rejectIf_nil heff ⟨effect, heffect, by simpa using hu⟩
  · intro operation hop
    by_contra hu
    exact rejectIf_nil hcalls ⟨operation, Std.ExtTreeSet.mem_toList.mpr hop, by simpa using hu⟩

/-- **A certificate is issued only for a task that is quiet and whose checks are all accepted on
current evidence.** -/
theorem evaluate_ok {atMs : Nat} (h : evaluate s atMs = .ok c) :
    ∃ contract candidate, s.contract = some contract ∧ s.candidate = some candidate ∧
      s.outcome = none ∧ s.cancellationRequested = false ∧ Quiet s contract.limits ∧
      Certifies s contract candidate c := by
  unfold evaluate at h
  split at h
  · cases h
  rename_i contract hcontract
  simp only at h
  split at h
  · cases h
  rename_i candidate hcandidate
  split at h
  · cases h
  rename_i delivery hdelivery
  split at h
  · rename_i hnil
    cases h
    obtain ⟨hloop, -⟩ := List.append_eq_nil_iff.mp hnil
    obtain ⟨hreasons, hjust, hall⟩ := acceptChecks_ok
      (p := ⟨generalRejections s contract atMs ++ _, ∅⟩) (fun checkId job hjob => by simp at hjob) hloop
    obtain ⟨hgeneral, -⟩ := List.append_eq_nil_iff.mp hreasons
    obtain ⟨hout, hcancel, hquiet⟩ := generalRejections_nil hgeneral
    refine ⟨contract, candidate, hcontract, hcandidate, hout, hcancel, hquiet, rfl, rfl, rfl, rfl, rfl,
      fun r hr checkId hcheck => ?_⟩
    have hmem := hall checkId (.inr (List.mem_map.mpr ⟨(r.id, checkId), List.mem_flatMap.mpr
      ⟨r, hr, List.mem_map.mpr ⟨checkId, hcheck, rfl⟩⟩, rfl⟩))
    obtain ⟨job, hjob⟩ := Option.isSome_iff_exists.mp
      (Std.ExtTreeMap.isSome_getElem?_iff_mem.mpr hmem)
    obtain ⟨check, e, hdef, haccepts, rfl⟩ := hjust checkId job hjob
    exact ⟨check, e, hdef, haccepts, hjob⟩
  · cases h

theorem evaluate_delivery {atMs : Nat} (h : evaluate s atMs = .ok c) :
    ∃ d, s.delivery = some d ∧ c.source = d.source ∧ c.artifact = d.artifact := by
  unfold evaluate at h
  split at h
  · cases h
  simp only at h
  split at h
  · cases h
  split at h
  · cases h
  rename_i d hd
  split at h
  · rename_i hnil
    cases h
    obtain ⟨-, hsame⟩ := List.append_eq_nil_iff.mp hnil
    have hsame := rejectIf_nil hsame
    simp only [not_or, not_not] at hsame
    exact ⟨d, hd, hsame.2.1.symm, hsame.2.2.symm⟩
  · cases h

end
end Completion
end Orvek
