import Orvek.Store.Replay
import Orvek.Store.Requests

/-!
# What the operations commit

The operations differ in what they check, and agree in what they do: they append events to the
state a task is in.  `Allowed` is what their checks leave of each event, `Commit` the groups of
events that one transaction appends, and `Moves` the change of a task.

* `Represents.change`   one event that an operation chose;
* `TaskMoved`           what every operation on a task establishes.

An operation that draws an identifier for a job names it; `draws` is what is known of the
identifiers that are drawn.
-/

set_option linter.unusedSectionVars false

namespace Orvek
open Checks Completion

section
variable [Sha256] [ContractCodec] [SessionCodec] [StoreCodec] [JsonReader]

def Pending (s : TaskState) (job : Uuid) : Prop :=
  ∃ j : Job, s.jobs[job]? = some j ∧ j.status.unresolved = true

/-- the state that an event may be appended to -/
def Allowed (draws : TaskState → Uuid → Prop) (s : TaskState) : TaskEvent → Prop
  | .manualStarted job => draws s job.id ∧ job.generation = s.generation + 1 ∧ job.check = none
  | .manualWorkspace .. => False
  | .requested .. => False
  | .created .. => False
  | .directiveReplaced .. => True
  | .directiveReceived .. => True
  | .evidenceInvalidated _ => True
  | .additiveContractAccepted contract _ _ => s.outcome = none ∧ s.amendmentPending = true ∧
      contract.validate = .ok () ∧ checkFollowUp s contract = .ok ()
  | .phaseChanged phase => s.outcome = none ∧
      (s.amendmentPending = true → phase = .understand ∨ phase = .baseline)
  | .jobStarted job => s.outcome = none ∧ draws s job.id ∧ job.generation = s.generation ∧
      (s.amendmentPending = true → job.check = none)
  | .jobSettled id status _ => Pending s id ∧ status ≠ .running
  | .jobFenced id _ => Pending s id
  | .observed e => s.outcome = none ∧ ∃ (k : Uuid) (job : Job), s.jobs[k]? = some job ∧
      job.id = e.jobId ∧ job.status = .running ∧ job.generation = s.generation ∧ e.generation = job.generation ∧
      job.check = some e.check ∧ job.identity = some e.identity
  | .effectRecorded effect => s.outcome = none ∨
      ∃ previous : Effect, s.effects[effect.operationId]? = some previous ∧ unreconciled previous = true
  | .modelCallReserved operation => s.outcome = none ∧ operation ∉ s.modelReservations ∧
      s.usageReceipts[operation]? = none
  | .modelCallRecorded operation receipt =>
      operation ∈ s.modelReservations ∧ settledCall s.modelReceipts operation = false ∧
      ∀ tokens, (s.modelReceipts[operation]?).bind (·.tokens) = some tokens →
        receipt.tokens = some tokens
  | .usageCharged operation _ => s.usageReceipts[operation]? = none ∧ operation ∉ s.modelReservations
  | .completed c => ∃ atMs, evaluate s atMs = .ok c
  | .stopped outcome _ => s.outcome = none ∧ outcome ≠ .complete
  | .reopened _ => True
  | _ => s.outcome = none

/-- the events that one transaction appends to a task -/
inductive Commit (draws : TaskState → Uuid → Prop) (s : TaskState) : List TaskEvent → Prop
  | none : Commit draws s []
  | one {e : TaskEvent} (h : Allowed draws s e) : Commit draws s [e]
  | two {e e' : TaskEvent} (h : Allowed draws s e) (h' : Allowed draws (s.apply e) e')
      (hpending : s.amendmentPending = true → (s.apply e).amendmentPending = true) :
      Commit draws s [e, e']
  /-- the end of a command of the user -/
  | shell {job request : Uuid} {status : JobStatus} {receipt : Option Digest} {j : Job}
      {adopted : List (Candidate × Digest)} {effect : EffectStatus} {reason : String}
      (hjob : s.jobs[job]? = some j) (hrun : j.status = .running) (hstatus : status ≠ .running) :
      Commit draws s ([.jobSettled job status receipt] ++
        adopted.map (fun a => .manualWorkspace a.1 a.2) ++
        [.effectRecorded (adoption request effect), .stopped .blocked reason])

/-- the state of a task that was just created -/
inductive Initial : TaskState → Prop
  | created (id : TaskId) (contract : Contract) (atMs : Nat) : Initial (TaskState.created id contract atMs)
  | requested (id : TaskId) (request : String) (limits : Limits) (atMs : Nat)
      (intake input : Option Digest) : Initial (TaskState.requested id request limits atMs intake input)

/-- what a transaction makes of a task, or of its absence -/
def Moves (draws : TaskState → Uuid → Prop) (before : Option TaskState) (after : TaskState) : Prop :=
  match before with
  | none => Initial after
  | some s => ∃ events, Commit draws s events ∧ after = events.foldl TaskState.apply s

/-- a transaction that left a task in the state `s'` -/
structure TaskMoved (draws : TaskState → Uuid → Prop) (db₀ db : Db) (w : World) (s' : TaskState) :
    Prop where
  represents : Represents db (w.setTask s')
  moves : Moves draws (w.tasks s'.id) s'
  sessions : db.sessions = db₀.sessions
  grows : Lengthens db₀ db

section
variable {db db' : Db} {w : World} {env : Env} {draws : TaskState → Uuid → Prop} {s s' : TaskState}
variable {e : TaskEvent} {id : TaskId} {head receipt : Digest} {revision : Nat} {allowTerminal : Bool}
  {operation : TaskState → Except StoreError (TaskEvent × Leases)} {reason : String} {contract : Contract}
  {jobId : Uuid} {leases : Leases} {lease : VerificationLease}

theorem Allowed.notCreation (h : Allowed draws s e) : e.isCreation = false := by
  cases e <;> first | rfl | cases h

theorem Represents.withLeases (h : Represents db w) (leases : Leases) :
    Represents { db with leases := leases } w := ⟨h.tasks, h.sessions⟩

theorem TaskMoved.unchanged (h : Represents db w) (hl : loadState db id = .ok (s, head)) :
    TaskMoved draws db db w s := by
  obtain ⟨hs, rfl, -⟩ := h.of_loadState hl
  refine ⟨by rwa [World.setTask_self hs], ?_, rfl, .refl db⟩
  rw [hs]
  exact ⟨[], .none, rfl⟩

theorem Moves.one (hs : w.tasks s.id = some s) (h : Allowed draws s e) :
    Moves draws (w.tasks (s.apply e).id) (s.apply e) := by
  rw [apply_id, hs]
  exact ⟨[e], .one h, rfl⟩

theorem appendTaskEvent_sessions (h : appendTaskEvent env s head e db = .ok (s', db')) :
    db'.sessions = db.sessions := by
  obtain ⟨-, -, a, b, -, -, rfl⟩ := appendTaskEvent_ok h
  rfl

theorem TaskMoved.append (h : Represents db w) (hl : loadState db id = .ok (s, head))
    (happ : appendTaskEvent env s head e db = .ok (s', db')) (he : Allowed draws s e) :
    TaskMoved draws db db' w s' := by
  obtain ⟨hs, rfl, hhead⟩ := h.of_loadState hl
  obtain ⟨rfl, -, hr, hgrows⟩ := h.appendTask happ hs hhead rfl he.notCreation
  exact ⟨hr, Moves.one hs he, appendTaskEvent_sessions happ, hgrows⟩

theorem change_ok {revision : Option Nat}
    (hc : change env id revision allowTerminal operation db = .ok (s', db')) :
    ∃ s head e leases, loadState db id = .ok (s, head) ∧ operation s = .ok (e, leases) ∧
      (allowTerminal = false → s.outcome = none) ∧
      appendTaskEvent env s head e { db with leases := leases } = .ok (s', db') := by
  obtain ⟨⟨s, head⟩, hl, hc⟩ := bind_ok hc
  obtain ⟨-, -, hc⟩ := bind_ok hc
  obtain ⟨hopen, hc⟩ := refuseIf_bind hc
  obtain ⟨⟨e, leases⟩, ho, hc⟩ := bind_ok hc
  refine ⟨s, head, e, leases, hl, ho, fun ha => ?_, hc⟩
  have hnot : ¬ s.outcome.isSome = true := fun hsome => hopen ⟨ha, hsome⟩
  simpa using hnot

/-- **An operation that chooses an allowed event moves its task by that event.** -/
theorem Represents.change (h : Represents db w) {revision : Option Nat}
    (hc : Orvek.change env id revision allowTerminal operation db = .ok (s', db'))
    (hop : ∀ s head e leases, Orvek.loadState db id = .ok (s, head) → operation s = .ok (e, leases) →
      (allowTerminal = false → s.outcome = none) → Allowed draws s e) : TaskMoved draws db db' w s' := by
  obtain ⟨s, head, e, leases, hl, ho, hopen, happ⟩ := change_ok hc
  have hl' : Orvek.loadState { db with leases := leases } id = .ok (s, head) := hl
  have hm := TaskMoved.append (h.withLeases leases) hl' happ (hop s head e leases hl ho hopen)
  exact ⟨hm.represents, hm.moves, hm.sessions, hm.grows.tasks, hm.grows.sessions⟩

/-! ## operations that need an open task -/

theorem selectCandidate_moves (h : Represents db w) {candidate : Candidate}
    (hc : selectCandidate env id revision candidate db = .ok (s', db')) : TaskMoved draws db db' w s' := by
  refine h.change hc fun s head e leases _ hop hopen => ?_
  obtain ⟨-, -, hop⟩ := bind_ok hop
  obtain ⟨-, -, hop⟩ := bind_ok hop
  obtain ⟨-, hop⟩ := refuseIf_bind hop
  cases hop
  exact hopen rfl

theorem establishBaseline_moves (h : Represents db w) {baseline : Candidate}
    (hc : establishBaseline env id revision baseline db = .ok (s', db')) : TaskMoved draws db db' w s' := by
  refine h.change hc fun s head e leases _ hop hopen => ?_
  obtain ⟨-, hop⟩ := refuseIf_bind hop
  obtain ⟨-, -, hop⟩ := bind_ok hop
  cases hop
  exact hopen rfl

theorem invalidateCandidate_moves (h : Represents db w)
    (hc : invalidateCandidate env id revision reason db = .ok (s', db')) : TaskMoved draws db db' w s' := by
  refine h.change hc fun s head e leases _ hop hopen => ?_
  cases hop
  exact hopen rfl

theorem requestCancellation_moves (h : Represents db w) (hc : requestCancellation env id db = .ok (s', db')) :
    TaskMoved draws db db' w s' := by
  obtain ⟨⟨s, head⟩, hl, hc⟩ := bind_ok hc
  simp only at hc
  split at hc
  · cases hc
    exact TaskMoved.unchanged h hl
  · refine h.change hc fun s head e leases _ hop hopen => ?_
    cases hop
    exact hopen rfl

theorem workspaceRestored_moves (h : Represents db w) {source : Digest}
    (hc : workspaceRestored env id revision source db = .ok (s', db')) : TaskMoved draws db db' w s' := by
  refine h.change hc fun s head e leases _ hop hopen => ?_
  obtain ⟨-, hop⟩ := refuseIf_bind hop
  cases hop
  exact hopen rfl

theorem amendContract_moves (h : Represents db w) {userBasis : String}
    (hc : amendContract env id revision contract userBasis db = .ok (s', db')) :
    TaskMoved draws db db' w s' := by
  obtain ⟨-, -, hc⟩ := bind_ok hc
  obtain ⟨-, hc⟩ := refuseIf_bind hc
  refine h.change hc fun s head e leases _ hop hopen => ?_
  obtain ⟨-, -, hop⟩ := bind_ok hop
  obtain ⟨-, hop⟩ := refuseIf_bind hop
  cases hop
  exact hopen rfl

theorem admitContract_moves (h : Represents db w) {basis : String}
    (hc : admitContract env id revision contract basis receipt db = .ok (s', db')) :
    TaskMoved draws db db' w s' := by
  obtain ⟨-, -, hc⟩ := bind_ok hc
  obtain ⟨-, hc⟩ := refuseIf_bind hc
  refine h.change hc fun s head e leases _ hop hopen => ?_
  obtain ⟨-, hop⟩ := refuseIf_bind hop
  obtain ⟨-, hop⟩ := refuseIf_bind hop
  obtain ⟨-, -, hop⟩ := bind_ok hop
  cases hop
  exact hopen rfl

theorem acceptAdditiveContract_moves (h : Represents db w)
    (hc : acceptAdditiveContract env id revision contract receipt db = .ok (s', db')) :
    TaskMoved draws db db' w s' := by
  obtain ⟨_, hvalid, hc⟩ := bind_ok hc
  refine h.change hc fun s head e leases _ hop hopen => ?_
  obtain ⟨hpending, hop⟩ := refuseIf_bind hop
  obtain ⟨_, hfollow, hop⟩ := bind_ok hop
  obtain ⟨-, -, hop⟩ := bind_ok hop
  cases hop
  exact ⟨hopen rfl, by simpa using hpending, mapError_ok hvalid, hfollow⟩

theorem admitPhase_ok {phase : Phase} {u : Unit} (h : admitPhase s phase = .ok u)
    (hpending : s.amendmentPending = true) : phase = .understand ∨ phase = .baseline := by
  unfold admitPhase at h
  split at h
  · assumption
  · exact absurd hpending (refuseIf_bind h).1

theorem setPhase_moves (h : Represents db w) {phase : Phase}
    (hc : setPhase env id revision phase db = .ok (s', db')) : TaskMoved draws db db' w s' := by
  refine h.change hc fun s head e leases _ hop hopen => ?_
  obtain ⟨_, hadmitted, hop⟩ := bind_ok hop
  cases hop
  exact ⟨hopen rfl, admitPhase_ok hadmitted⟩

theorem recordFinding_moves (h : Represents db w) {finding : Finding}
    (hc : recordFinding env id revision finding db = .ok (s', db')) : TaskMoved draws db db' w s' := by
  obtain ⟨-, hc⟩ := refuseIf_bind hc
  refine h.change hc fun s head e leases _ hop hopen => ?_
  cases hop
  exact hopen rfl

theorem recordDelivery_moves (h : Represents db w) {delivery : Delivery}
    (hc : recordDelivery env id revision delivery db = .ok (s', db')) : TaskMoved draws db db' w s' := by
  refine h.change hc fun s head e leases _ hop hopen => ?_
  obtain ⟨_, -, hop⟩ := bind_ok hop
  obtain ⟨_, -, hop⟩ := bind_ok hop
  obtain ⟨-, hop⟩ := refuseIf_bind hop
  obtain ⟨-, -, hop⟩ := bind_ok hop
  cases hop
  exact hopen rfl

theorem interruptTask_moves (h : Represents db w) (hc : interruptTask env id db = .ok (s', db')) :
    TaskMoved draws db db' w s' := by
  obtain ⟨⟨s, head⟩, hl, hc⟩ := bind_ok hc
  simp only at hc
  split at hc
  · cases hc
    exact TaskMoved.unchanged h hl
  · refine h.change hc fun s head e leases _ hop hopen => ?_
    cases hop
    exact hopen rfl

theorem stop_moves (h : Represents db w) {outcome : Outcome}
    (hc : stop env id revision outcome reason db = .ok (s', db')) : TaskMoved draws db db' w s' := by
  obtain ⟨hne, hc⟩ := refuseIf_bind hc
  obtain ⟨-, hc⟩ := refuseIf_bind hc
  refine h.change hc fun s head e leases _ hop hopen => ?_
  cases hop
  exact ⟨hopen rfl, hne⟩

theorem complete_moves (h : Represents db w) (hc : complete env id revision db = .ok (s', db')) :
    TaskMoved draws db db' w s' := by
  refine h.change hc fun s head e leases _ hop _ => ?_
  obtain ⟨certificate, hcert, hop⟩ := bind_ok hop
  obtain ⟨-, -, hop⟩ := bind_ok hop
  obtain ⟨-, -, hop⟩ := bind_ok hop
  cases hop
  refine ⟨env.now 0, ?_⟩
  cases hev : evaluate s (env.now 0) with
  | error e => rw [hev] at hcert; cases hcert
  | ok c =>
    rw [hev] at hcert
    cases hcert
    rfl

/-! ## operations on jobs -/

theorem beginCheckOperation_ok {check : String} {token : Uuid} {leases' : Leases}
    (hop : beginCheckOperation env id check token jobId leases s = .ok (e, leases')) :
    s.amendmentPending = false ∧ ∃ contract candidate definition, s.contract = some contract ∧
      s.candidate = some candidate ∧ contract.checks[check]? = some definition ∧
      e = .jobStarted (checkJob s contract candidate check definition jobId (env.now 1)) := by
  obtain ⟨hpending, hop⟩ := refuseIf_bind hop
  obtain ⟨-, -, hop⟩ := bind_ok hop
  obtain ⟨candidate, hcand, hop⟩ := bind_ok hop
  obtain ⟨contract, hcon, hop⟩ := bind_ok hop
  obtain ⟨definition, hdef, hop⟩ := bind_ok hop
  obtain ⟨_, -, hop⟩ := bind_ok hop
  cases hop
  refine ⟨by simpa using hpending, contract, candidate, definition, ?_, ?_, ?_, rfl⟩
  · unfold TaskState.acceptedContract at hcon
    split at hcon
    · cases hcon
      assumption
    · cases hcon
  · unfold frozenCandidate at hcand
    split at hcand
    · split at hcand
      · cases hcand
        assumption
      · cases hcand
    · cases hcand
  · unfold lookupCheck at hdef
    split at hdef
    · cases hdef
      assumption
    · cases hdef

theorem beginCheck_moves (h : Represents db w) {check : String} {token : Uuid}
    (hc : beginCheck env id revision check token jobId db = .ok (lease, s', db'))
    (hd : ∀ s head, loadState db id = .ok (s, head) → draws s jobId) : TaskMoved draws db db' w s' := by
  obtain ⟨⟨t, db₁⟩, hc, hret⟩ := bind_ok hc
  cases hret
  refine h.change hc fun s head e leases hl hop hopen => ?_
  obtain ⟨hpending, contract, candidate, definition, -, -, -, rfl⟩ := beginCheckOperation_ok hop
  exact ⟨hopen rfl, hd s head hl, rfl, fun h => absurd h (by simp [hpending])⟩

theorem leasedJob_ok {k : Uuid} {job : Job} (h : leasedJob s k = .ok job) :
    s.jobs[k]? = some job ∧ job.status = .running ∧ job.generation = s.generation := by
  unfold leasedJob at h
  split at h
  · rename_i j hj
    split at h
    · rename_i hr
      cases h
      exact ⟨hj, hr⟩
    · cases h
  · cases h

theorem orLease_ok {α : Type} {x : Option α} {a : α} (h : orLease x = .ok a) : x = some a := by
  cases x with
  | none => cases h
  | some b =>
    cases h
    rfl

theorem finishCheckOperation_ok {observation : Observation} {leases' : Leases}
    (hop : finishCheckOperation env lease observation leases s = .ok (e, leases')) :
    ∃ job evidence, s.jobs[lease.job]? = some job ∧ job.status = .running ∧
      job.generation = s.generation ∧ evidence.jobId = job.id ∧ evidence.generation = job.generation ∧
      job.check = some evidence.check ∧ job.identity = some evidence.identity ∧
      e = .observed evidence := by
  obtain ⟨-, hop⟩ := refuseIf_bind hop
  obtain ⟨job, hjob, hop⟩ := bind_ok hop
  obtain ⟨-, hop⟩ := refuseIf_bind hop
  obtain ⟨-, -, hop⟩ := bind_ok hop
  obtain ⟨check, hcheck, hop⟩ := bind_ok hop
  obtain ⟨identity, hid, hop⟩ := bind_ok hop
  cases hop
  obtain ⟨hget, hrun, hgen⟩ := leasedJob_ok hjob
  exact ⟨job, _, hget, hrun, hgen, rfl, rfl, orLease_ok hcheck, orLease_ok hid, rfl⟩

theorem finishCheck_moves (h : Represents db w) {observation : Observation}
    (hc : finishCheck env lease observation db = .ok (s', db')) : TaskMoved draws db db' w s' := by
  refine h.change hc fun s head e leases _ hop hopen => ?_
  obtain ⟨job, evidence, hget, hrun, hgen, hid, hgen', hcheck, hident, rfl⟩ :=
    finishCheckOperation_ok hop
  exact ⟨hopen rfl, lease.job, job, hget, hid.symm, hrun, hgen, hgen', hcheck, hident⟩

theorem startJobRecord_moves (h : Represents db w) {timeoutMs : Nat} {mutatesCandidate : Bool}
    {invocation : Option JobInvocation}
    (hc : startJobRecord env id revision mutatesCandidate timeoutMs invocation jobId db = .ok (s', db'))
    (hd : ∀ s head, loadState db id = .ok (s, head) → draws s jobId) : TaskMoved draws db db' w s' := by
  refine h.change hc fun s head e leases hl hop hopen => ?_
  obtain ⟨-, -, hop⟩ := bind_ok hop
  obtain ⟨-, hop⟩ := refuseIf_bind hop
  obtain ⟨-, -, hop⟩ := bind_ok hop
  obtain ⟨-, -, hop⟩ := bind_ok hop
  obtain ⟨-, hop⟩ := refuseIf_bind hop
  obtain ⟨-, hop⟩ := refuseIf_bind hop
  cases hop
  exact ⟨hopen rfl, hd s head hl, rfl, fun _ => rfl⟩

theorem settleJobRecord_moves (h : Represents db w) {status : JobStatus} {receipt : Option Digest}
    (hc : settleJobRecord env id jobId status receipt db = .ok (s', db')) :
    TaskMoved draws db db' w s' := by
  obtain ⟨hrun, hc⟩ := refuseIf_bind hc
  obtain ⟨-, hc⟩ := refuseIf_bind hc
  refine h.change hc fun s head e leases _ hop _ => ?_
  obtain ⟨job, hjob, hop⟩ := bind_ok hop
  obtain ⟨-, hop⟩ := refuseIf_bind hop
  obtain ⟨-, -, hop⟩ := bind_ok hop
  obtain ⟨hun, hop⟩ := refuseIf_bind hop
  obtain ⟨-, hop⟩ := refuseIf_bind hop
  cases hop
  refine ⟨⟨job, ?_, by simpa using hun⟩, hrun⟩
  unfold lookupJob at hjob
  split at hjob
  · cases hjob
    assumption
  · cases hjob

theorem pending_of_any (h : ¬ ((s.jobs[jobId]?.any fun job => job.status.unresolved) = false)) :
    Pending s jobId := by
  rw [Bool.not_eq_false, Option.any_eq_true] at h
  exact h

theorem fenceJob_moves (h : Represents db w) (hc : fenceJob env id jobId receipt db = .ok (s', db')) :
    TaskMoved draws db db' w s' := by
  obtain ⟨⟨s, head⟩, hl, hc⟩ := bind_ok hc
  simp only at hc
  split at hc
  · cases hc
    exact TaskMoved.unchanged h hl
  · refine h.change hc fun s head e leases _ hop _ => ?_
    obtain ⟨hun, hop⟩ := refuseIf_bind hop
    obtain ⟨-, -, hop⟩ := bind_ok hop
    cases hop
    exact pending_of_any hun

/-! ## operations on a task that may have ended -/

theorem auditEvidence_moves (h : Represents db w) (hc : auditEvidence env id db = .ok (s', db')) :
    TaskMoved draws db db' w s' := by
  obtain ⟨⟨s, head⟩, hl, hc⟩ := bind_ok hc
  simp only at hc
  split at hc
  · cases hc
    exact TaskMoved.unchanged h hl
  · split at hc
    · cases hc
      exact TaskMoved.unchanged h hl
    · refine h.change hc fun s head e leases _ hop _ => ?_
      cases hop
      trivial

theorem recordEffect_moves (h : Represents db w) {effect : Effect}
    (hc : recordEffect env id revision effect db = .ok (s', db')) : TaskMoved draws db db' w s' := by
  refine h.change hc fun s head e leases _ hop _ => ?_
  obtain ⟨_, hadmitted, hop⟩ := bind_ok hop
  cases hop
  unfold admitEffect at hadmitted
  split at hadmitted
  · rename_i previous hprev
    obtain ⟨-, hadmitted⟩ := refuseIf_bind hadmitted
    exact .inr ⟨previous, hprev, by simpa using refuseIf_ok hadmitted⟩
  · have := refuseIf_ok hadmitted
    rw [not_or] at this
    exact .inl (by simpa using this.2)

theorem reopen_moves (h : Represents db w) (hc : reopen env id revision reason db = .ok (s', db')) :
    TaskMoved draws db db' w s' := by
  obtain ⟨-, hc⟩ := refuseIf_bind hc
  refine h.change hc fun s head e leases _ hop _ => ?_
  obtain ⟨-, hop⟩ := refuseIf_bind hop
  cases hop
  trivial

theorem commitReceipt_moves (h : Represents db w) {operation : Uuid} {receipt : ModelCallReceipt}
    (hl : loadState db id = .ok (s, head)) (hres : operation ∈ s.modelReservations)
    (hopen : settledCall s.modelReceipts operation = false)
    (hkeep : ∀ tokens, (s.modelReceipts[operation]?).bind (·.tokens) = some tokens →
      receipt.tokens = some tokens) (hc : commitReceipt env s head operation receipt db = .ok (s', db')) :
    TaskMoved draws db db' w s' := by
  obtain ⟨-, -, hc⟩ := bind_ok hc
  exact TaskMoved.append h hl hc ⟨hres, hopen, hkeep⟩

theorem recordModelCall_moves (h : Represents db w) {operation : Uuid} {receipt : ModelCallReceipt}
    (hc : recordModelCall env id operation receipt db = .ok (s', db')) : TaskMoved draws db db' w s' := by
  obtain ⟨⟨s, head⟩, hl, hc⟩ := bind_ok hc
  obtain ⟨hres, hc⟩ := refuseIf_bind hc
  have hres := not_not.mp hres
  split at hc
  · rename_i hnone
    exact commitReceipt_moves h hl hres (by simp [settledCall, hnone]) (by simp [hnone]) hc
  · rename_i previous hprev
    split at hc
    · cases hc
      exact TaskMoved.unchanged h hl
    · obtain ⟨_, hrec, hc⟩ := bind_ok hc
      have hopen := refuseIf_ok hrec
      simp only [not_or, not_and, not_not] at hopen
      refine commitReceipt_moves h hl hres ?_ (fun tokens ht => ?_) hc
      · simp only [settledCall, hprev, Option.any_some]
        cases ht : previous.tokens with
        | none => rfl
        | some tokens =>
          have := hopen.2.2 (by rw [ht]; rfl)
          rw [this]
          rfl
      · rw [hprev, Option.bind_some] at ht
        rw [← hopen.1 (by rw [ht]; rfl), ht]

theorem accountUsage_moves (h : Represents db w) {operation : Uuid} {usage : Option Usage}
    (hc : accountUsage env id operation usage db = .ok (s', db')) : TaskMoved draws db db' w s' := by
  obtain ⟨⟨s, head⟩, hl, hc⟩ := bind_ok hc
  simp only at hc
  split at hc
  · split at hc
    · cases hc
      exact TaskMoved.unchanged h hl
    · cases hc
  · rename_i hnone
    split at hc
    · split at hc
      · cases hc
        exact TaskMoved.unchanged h hl
      · cases hc
    · rename_i hfree
      obtain ⟨event, hevent, hc⟩ := bind_ok hc
      refine TaskMoved.append h hl hc ?_
      cases usage with
      | some usage =>
        cases hevent
        exact ⟨hnone, hfree⟩
      | none =>
        obtain ⟨hopen, hevent⟩ := refuseIf_bind hevent
        obtain ⟨-, -, hevent⟩ := bind_ok hevent
        cases hevent
        exact ⟨by simpa using hopen, hfree, hnone⟩

/-! ## progress -/

/-- an event that the limits of the journal leave room for -/
structure Fits (env : Env) (db : Db) (s : TaskState) (e : TaskEvent) : Prop where
  artifacts : checkEventArtifacts env db s e = .ok ()
  size : (StoreCodec.taskEvent e).length ≤ maxEventBytes
  revision : s.revision + 1 < 2 ^ 63

theorem Represents.appends (h : Represents db w) (hs : w.tasks s.id = some s) (head : Digest)
    (hf : Fits env db s e) :
    ∃ db', appendTaskEvent env s head e db = .ok (s.apply e, db') ∧ db'.leases = db.leases ∧
      db'.sessions = db.sessions := by
  obtain ⟨a, ha, hholds⟩ := h.task_row hs
  have hrev : (s.apply e).revision = a.events.length + 1 := by
    rw [apply_revision, hholds.numbered, hholds.length]
  have hroom : ¬ exhausted (s.apply e).revision := by
    rw [apply_revision]
    exact Nat.not_le.mpr hf.revision
  have hbytes : eventBytes e = .ok (StoreCodec.taskEvent e) := by
    rw [eventBytes, refuseIf_of_not _ (Nat.not_lt.mpr hf.size)]
    rfl
  have hextend : ∃ b, extend a (s.apply e).revision e.document (s.apply e).document
      (aggregateHash "task" s.id.uuid (s.apply e).revision (some head) (StoreCodec.taskEvent e)) =
        some b := by
    rw [extend, hrev, Journal.insertRow_last fun r hr =>
      Nat.lt_succ_of_le (hholds.events.numbered r hr).2]
    exact ⟨_, rfl⟩
  obtain ⟨b, hb⟩ := hextend
  refine ⟨{ db with tasks := db.tasks.update s.id fun _ => b }, ?_, rfl, rfl⟩
  rw [appendTaskEvent, hf.artifacts, ok_bind, hbytes, ok_bind]
  simp only
  rw [refuseIf_of_not _ hroom, ok_bind, ha]
  show (orSql (extend a _ _ _ _) >>= _) = _
  rw [hb]
  rfl

/-- **An operation whose checks pass commits its event.** -/
theorem Represents.changes (h : Represents db w) (hs : w.tasks id = some s) {revision : Option Nat}
    (hrev : checkRevision revision s.revision = .ok ())
    (hopen : ¬ (allowTerminal = false ∧ s.outcome.isSome = true)) (hop : operation s = .ok (e, leases))
    (hf : Fits env { db with leases := leases } s e) :
    ∃ db', Orvek.change env id revision allowTerminal operation db = .ok (s.apply e, db') ∧
      db'.leases = leases ∧ db'.sessions = db.sessions := by
  obtain ⟨head, hl⟩ := h.loadState hs
  obtain ⟨-, rfl, -⟩ := h.of_loadState hl
  obtain ⟨db', happ, hleases, hsessions⟩ := (h.withLeases leases).appends hs head hf
  refine ⟨db', ?_, hleases, hsessions⟩
  rw [Orvek.change, hl, ok_bind]
  simp only
  rw [hrev, ok_bind, refuseIf_of_not _ hopen, ok_bind, hop, ok_bind]
  exact happ

end

end

/-! ## a store for examples -/

namespace Sample

scoped instance sha256 : Sha256 := Sha256.standard
scoped instance contractCodec : ContractCodec := ⟨fun _ => [], fun _ => []⟩

/-- an identifier for a name under another identifier -/
def newV5 (id : Uuid) (name : List UInt8) : Uuid :=
  ⟨BitVec.ofNat 128 (name.foldl (fun n b => 257 * n + b.toNat + 1) (id.bits.toNat + 1))⟩

/-- the encoding of the two commands that begin a request of the examples -/
def encodeCommand : SessionCommand Manifest → List UInt8
  | .auxiliaryStarted => Json.toVec (.object [("type", .string "auxiliary_started")])
  | .input .task content => Json.toVec (.object [("type", .string "input"),
      ("data", .object [("kind", .string "task"), ("content", .array content)])])
  | _ => []

scoped instance sessionCodec : SessionCodec :=
  ⟨fun _ => [], encodeCommand, fun _ => [], fun _ => [], fun _ => none, newV5⟩

scoped instance storeCodec : StoreCodec := ⟨fun _ => [], fun _ => [], fun _ => [], fun _ => .null⟩
scoped instance jsonReader : JsonReader := ⟨fun _ => none⟩

/-- every artifact is there, and the clock stands still -/
def env : Env where
  now _ := 0
  appendClock _ _ := 0
  readArtifact _ := .ok []
  artifactBudget _ _ _ := .ok ()
  snapshotAvailable _ := true
  messages _ := .ok []
  input d := .ok ⟨"", d, []⟩
  policy _ := .ok ()
  patchReceipt d := .ok ⟨d, d, d, true⟩
  isDirectory _ := true
  verifyArtifactGraph _ _ := .ok ()
  errorText _ := ""
  putReport _ := .ok ⟨0⟩

theorem fits (db : Db) {s : TaskState} (e : TaskEvent) (hr : s.revision + 1 < 2 ^ 63) :
    Fits env db s e := by
  refine ⟨?_, Nat.zero_le _, hr⟩
  unfold checkEventArtifacts
  split <;> rfl

end Sample

end Orvek
