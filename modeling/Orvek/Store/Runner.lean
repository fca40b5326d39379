import Orvek.Store.Recovery

/-!
# The runner of a queue

`run_queue` claims the submission that waits first, hands it over, and records how it ended; a host
that restarts looks at what the last one left running.  What they ask of the store is orderly in the
sense of `QueuesFresh` with one exception:

* `RunnerStep`                  the calls;
* `RunnerStep.queuesFresh_iff`  they journal under nothing that waits, so that all depends on what is
                                put back;
* `queuesFresh_recover`         a recovery asks for the operations first;
* `Queues`                      the calls with a host that is busy only before a request has begun.
-/

set_option linter.unusedSectionVars false

namespace Orvek

section
variable [Sha256] [ContractCodec] [SessionCodec] [StoreCodec] [JsonReader]
variable {s : SessionState} {db : Db} {w : World}
variable {x : Submission} {session : SessionId} {call : HostCall}

/-- `next_submission` -/
def nextSubmission (s : SessionState) : Option Submission :=
  (s.queueOrder.filterMap fun id => s.submissions[id]?).find? fun x => x.status = .queued

/-- a submission that the runner has claimed from the queue -/
def TakenUp (s : SessionState) (x : Submission) : Prop :=
  s.submissions[x.id]? = some x ∧ x.status = .running

/-- what the runner of a queue asks of the store: `run_queue` and what it hands a submission to, and
`recover_submissions` before it.  Identifiers that are drawn or derived name no submission. -/
inductive RunnerStep (s : SessionState) : HostCall → Prop
  | claim {session : SessionId} {x : Submission} {drawn : Uuid} (hx : nextSubmission s = some x)
      (hdrawn : briefs s drawn = none) :
      RunnerStep s (.setSubmissionStatus session x.id .running drawn)
  /-- `begin_classification` and `begin_auxiliary` -/
  | begin {session : SessionId} {x : Submission} {revision : Nat} (hx : TakenUp s x) :
      RunnerStep s (.command session revision x.id .auxiliaryStarted)
  | startTask {session : SessionId} {x : Submission} {input : PreparedInput} {limits : Limits}
      {intake : Digest} {task : TaskId} (hx : TakenUp s x)
      (hlink : briefs s (x.id.named "task-link") = none) :
      RunnerStep s (.startPreparedRequest session x.id input limits intake task)
  | continueTask {session : SessionId} {x : Submission} (hx : TakenUp s x)
      (hlink : briefs s (x.id.named "task-link") = none) :
      RunnerStep s (.continueSubmission session x.id)
  | beginShell {session : SessionId} {x : Submission} {job : ManualJob} (hx : TakenUp s x) :
      RunnerStep s (.beginShell session x.id job)
  /-- what else the execution records -/
  | journal {session : SessionId} {revision : Nat} {operation : Uuid}
      {c : SessionCommand ContextView} (hids : ∀ id ∈ commandIds operation c, briefs s id = none) :
      RunnerStep s (.command session revision operation c)
  /-- the arm of `HostError::Busy` -/
  | busy {session : SessionId} {x : Submission} {drawn : Uuid} (hx : TakenUp s x)
      (hdrawn : briefs s drawn = none) :
      RunnerStep s (.setSubmissionStatus session x.id .queued drawn)
  | settle {session : SessionId} {x : Submission} {status : SubmissionStatus} {drawn : Uuid}
      (hx : TakenUp s x) (hstatus : status ≠ .queued) (hdrawn : briefs s drawn = none) :
      RunnerStep s (.setSubmissionStatus session x.id status drawn)
  /-- the status is the one of the page that was read before the session's other changes -/
  | recover {session : SessionId} {page : SessionState} {x : Submission} {drawn : Uuid}
      (hx : TakenUp s x) (hpage : x.id ∈ s.operations → x.id ∈ page.operations)
      (hdrawn : briefs s drawn = none) :
      RunnerStep s (.setSubmissionStatus session x.id (recoveredStatus page x) drawn)

theorem not_enqueued_of_none {id : Uuid} (h : briefs s id = none) : ¬ Enqueued s id := by
  rintro ⟨b, hb, -⟩
  cases h.symm.trans hb

theorem TakenUp.not_enqueued (h : TakenUp s x) : ¬ Enqueued s x.id := by
  rintro ⟨b, hb, hq⟩
  cases (briefs_of h.1).symm.trans hb
  cases h.2.symm.trans hq

theorem TakenUp.ne (h : TakenUp s x) {id : Uuid} (hid : briefs s id = none) : x.id ≠ id := by
  rintro rfl
  cases hid.symm.trans (briefs_of h.1)

/-- a status names the submission that it puts back, and only `queued` does -/
theorem requeues_setStatus {request operation : Uuid} {status : SubmissionStatus} {id : Uuid}
    (h : (HostCall.setSubmissionStatus session request status operation).requeues = some id) :
    status = .queued ∧ request = id := by
  cases status <;> cases h
  exact ⟨rfl, rfl⟩

theorem records_setStatus {request drawn : Uuid} {status : SubmissionStatus}
    (hdrawn : briefs s drawn = none) (hne : status = .queued → request ≠ drawn) :
    ∀ operation ∈ (HostCall.setSubmissionStatus session request status drawn).ids,
      ¬ Enqueued s operation ∧
        (HostCall.setSubmissionStatus session request status drawn).enqueues ≠ some operation := by
  intro operation ho
  cases List.mem_singleton.mp ho
  refine ⟨not_enqueued_of_none hdrawn, fun he => ?_⟩
  obtain ⟨hq, he⟩ := requeues_setStatus he
  exact hne hq he

theorem RunnerStep.records (h : RunnerStep s call) :
    ∀ operation ∈ call.ids, ¬ Enqueued s operation ∧ call.enqueues ≠ some operation := by
  cases h with
  | claim hx hdrawn => exact records_setStatus hdrawn fun hq => (nomatch hq)
  | begin hx | beginShell hx =>
    intro operation ho
    cases List.mem_singleton.mp ho
    exact ⟨hx.not_enqueued, fun he => (nomatch he)⟩
  | startTask hx hlink | continueTask hx hlink =>
    intro operation ho
    rcases List.mem_cons.mp ho with rfl | ho
    · exact ⟨hx.not_enqueued, fun he => (nomatch he)⟩
    · cases List.mem_singleton.mp ho
      exact ⟨not_enqueued_of_none hlink, fun he => (nomatch he)⟩
  | journal hids => exact fun operation ho => ⟨not_enqueued_of_none (hids operation ho), fun he => (nomatch he)⟩
  | busy hx hdrawn => exact records_setStatus hdrawn fun _ => hx.ne hdrawn
  | settle hx hstatus hdrawn => exact records_setStatus hdrawn fun hq => absurd hq hstatus
  | recover hx _ hdrawn => exact records_setStatus hdrawn fun _ => hx.ne hdrawn

/-- **The runner is orderly unless it puts back what has been recorded.** -/
theorem RunnerStep.queuesFresh_iff (h : RunnerStep s call) :
    QueuesFresh s call ↔ ∀ id, call.requeues = some id → id ∉ s.operations :=
  ⟨QueuesFresh.requeues, fun hrequeues => ⟨hrequeues, h.records⟩⟩

theorem queuesFresh_recover {page : SessionState} {drawn : Uuid} (hx : TakenUp s x)
    (hpage : x.id ∈ s.operations → x.id ∈ page.operations) (hdrawn : briefs s drawn = none) :
    QueuesFresh s (.setSubmissionStatus session x.id (recoveredStatus page x) drawn) := by
  refine (RunnerStep.recover hx hpage hdrawn).queuesFresh_iff.mpr fun id hid => ?_
  obtain ⟨hq, rfl⟩ := requeues_setStatus hid
  unfold recoveredStatus at hq
  split at hq
  · cases hq
  · rename_i hnew
    exact fun hin => hnew (hpage hin)

/-- a call of a client: it puts nothing back, and what it journals under names no submission -/
structure ClientCall (s : SessionState) (call : HostCall) : Prop where
  requeues : call.requeues = none
  ids : ∀ operation ∈ call.ids, briefs s operation = none ∧ call.enqueues ≠ some operation

/-- clients, recoveries and the runner, which finds the host busy only before it has begun -/
inductive Queues (s : SessionState) (call : HostCall) : Prop
  | client (h : ClientCall s call)
  | runner (h : RunnerStep s call) (hbusy : ∀ id, call.requeues = some id → id ∉ s.operations)

theorem Queues.queuesFresh (h : Queues s call) : QueuesFresh s call := by
  cases h with
  | client h =>
    refine ⟨fun id hid => ?_, fun operation ho => ?_⟩
    · cases h.requeues.symm.trans hid
    · exact ⟨not_enqueued_of_none (h.ids operation ho).1, (h.ids operation ho).2⟩
  | runner h hbusy => exact h.queuesFresh_iff.mpr hbusy

/-- **In a run of these nothing that was recorded waits.** -/
theorem HostReachable.queues_started (h : HostReachable Queues db w) {sessionId : SessionId}
    (hs : w.sessions sessionId = some s) : Started s :=
  HostReachable.session_invariant started_create
    (fun hP ho hd hplan hap => hplan.started hP ho hd hap)
    (HostRun.mono h fun _ _ => Queues.queuesFresh) hs

end

open Sample in
theorem queues_classifying : ∃ db w, HostReachable Queues db w ∧
    w.sessions sessionId = some classifying := by
  have hsubmit : Queues opened (.submit sessionId ordinaryId ⟨0⟩ ordinaryIntent) := by
    refine .client ⟨rfl, fun operation ho => ?_⟩
    cases List.mem_singleton.mp ho
    exact ⟨rfl, by decide⟩
  have hclaim : Queues waiting (.setSubmissionStatus sessionId ordinaryId .running claimId) :=
    .runner (.claim (x := ordinary) rfl rfl) fun _ hid => (nomatch hid)
  have hbegin : Queues claimed (.command sessionId 3 ordinaryId .auxiliaryStarted) :=
    .runner (.begin (x := { ordinary with status := .running }) ⟨rfl, rfl⟩) fun _ hid => (nomatch hid)
  obtain ⟨db, w, hr, hs, -⟩ := hostReachable_classifying hsubmit hclaim hbegin
  exact ⟨db, w, hr, hs⟩

end Orvek
