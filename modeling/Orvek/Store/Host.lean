import Orvek.Store.Frames
import Orvek.Store.Runs

/-!
# The calls of the host

The host changes a session through a fixed set of calls.  `HostCall.run` is what a call does to the
database, and `CallPlan` what it appends to the session it loads, with everything it has checked before:

* `HostCall.plan`      a call that succeeds has followed a plan;
* `HostRun`            any number of calls and of transactions on tasks, in any order, where each
                       call may be held to a condition on the session it finds;
* `HostRun.run`        a run of the host is a run of the store;
* `HostReachable.session_invariant`   the rule for invariants of a session.
-/

set_option linter.unusedSectionVars false

namespace Orvek
open Checks Completion Json

/-- the commands that only the transactions of the store append -/
def SessionCommand.reserved {V : Type} : SessionCommand V → Bool
  | .submitted .. | .queueMoved .. | .queueEdited .. | .submissionChanged .. | .taskLinked ..
  | .shellStarted .. | .shellPublished .. | .toolResultPart .. | .toolResultEnd .. => true
  | _ => false

/-- the commands that may take more than one event -/
def SessionCommand.isResult {V : Type} : SessionCommand V → Bool
  | .toolResult .. => true
  | _ => false

/-- a call on a session; the last argument of a change of status is the identifier drawn for it -/
inductive HostCall where
  | command (session : SessionId) (revision : Nat) (operation : Uuid)
      (command : SessionCommand ContextView)
  | startTask (session : SessionId) (operation : Uuid) (contract : Contract) (task : TaskId)
  | startRequest (session : SessionId) (operation : Uuid) (request : String) (limits : Limits)
      (intake : Digest) (task : TaskId)
  | startPreparedRequest (session : SessionId) (operation : Uuid) (input : PreparedInput)
      (limits : Limits) (intake : Digest) (task : TaskId)
  | resumeTask (session : SessionId) (operation : Uuid) (task : TaskId) (revision : Nat)
      (reason : String)
  | editSubmission (session : SessionId) (operation request : Uuid) (expectedInput : Digest)
      (input : Option Digest)
  | submit (session : SessionId) (id : Uuid) (input : Digest) (intent : WorkIntent)
  | continueSubmission (session : SessionId) (request : Uuid)
  | beginShell (session : SessionId) (request : Uuid) (job : ManualJob)
  | finishShell (session : SessionId) (request : Uuid) (report : ShellReport)
  | moveSubmission (session : SessionId) (operation request : Uuid) (expectedInput : Digest)
      (before : Option Uuid)
  | setSubmissionStatus (session : SessionId) (request : Uuid) (status : SubmissionStatus)
      (operation : Uuid)

namespace HostCall

def session : HostCall → SessionId
  | command session .. | startTask session .. | startRequest session ..
  | startPreparedRequest session .. | resumeTask session .. | editSubmission session ..
  | submit session .. | continueSubmission session _ | beginShell session ..
  | finishShell session .. | moveSubmission session .. | setSubmissionStatus session .. => session

def direct : HostCall → Bool
  | command _ _ _ c => !c.reserved
  | _ => true

def starts : HostCall → Option (Uuid × TaskId)
  | startTask _ operation _ task => some (operation, task)
  | startRequest _ operation _ _ _ task => some (operation, task)
  | startPreparedRequest _ operation _ _ _ task => some (operation, task)
  | _ => none

end HostCall

section
variable [Sha256] [ContractCodec] [SessionCodec] [StoreCodec] [JsonReader]
variable {operation request : Uuid} {c : SessionCommand ContextView} {id : SessionId} {revision : Nat}
  {t : Option TaskState} {expectedInput : Digest} {x : Submission}

/-- what a call does: the task and the session it leaves -/
def HostCall.run (env : Env) (db : Db) :
    HostCall → Except StoreError (Option TaskState × SessionState × Db)
  | .command session revision operation c => do
    let (s, db) ← sessionCommand env session revision operation c db
    .ok (none, s, db)
  | .startTask session operation contract task => do
    let (s, t, _, db) ← Orvek.startTask env session operation contract task db
    .ok (some t, s, db)
  | .startRequest session operation request limits intake task => do
    let (s, t, _, db) ← Orvek.startRequest env session operation request limits intake task db
    .ok (some t, s, db)
  | .startPreparedRequest session operation input limits intake task => do
    let (s, t, _, db) ← Orvek.startPreparedRequest env session operation input limits intake task db
    .ok (some t, s, db)
  | .resumeTask session operation task revision reason => do
    let (s, t, _, db) ← Orvek.resumeTask env session operation task revision reason db
    .ok (some t, s, db)
  | .editSubmission session operation request expectedInput input => do
    let (_, s, t, db) ← Orvek.editSubmission env session operation request expectedInput input db
    .ok (t, s, db)
  | .submit session id input intent => do
    let (_, s, t, db) ← Orvek.submit env session id input intent db
    .ok (t, s, db)
  | .continueSubmission session request => do
    let (s, t, _, db) ← Orvek.continueSubmission env session request db
    .ok (some t, s, db)
  | .beginShell session request job => do
    let (s, t, db) ← Orvek.beginShell env session request job db
    .ok (t, s, db)
  | .finishShell session request report => do
    let (_, s, t, db) ← Orvek.finishShell env session request report db
    .ok (t, s, db)
  | .moveSubmission session operation request expectedInput before => do
    let (_, s, db) ← Orvek.moveSubmission env session operation request expectedInput before db
    .ok (none, s, db)
  | .setSubmissionStatus session request status operation => do
    let (_, s, db) ← Orvek.setSubmissionStatus env session request status operation db
    .ok (none, s, db)

/-! ## plans -/

def linkFrames (operation : Uuid) (content : List Value) (task : TaskId) : List Frame :=
  [(operation, .input .task content), (operation.named "task-link", .taskLinked operation task)]

theorem two_frames {p : Frame → Prop} {a b : Frame} (ha : p a) (hb : p b) : ∀ f ∈ [a, b], p f :=
  List.forall_mem_cons.mpr ⟨ha, List.forall_mem_singleton.mpr hb⟩

/-- what a call appends to the session `s`, and what it has checked before -/
inductive CallPlan (s : SessionState) : HostCall → List Frame → Prop
  | nothing (call : HostCall) : CallPlan s call []
  | command {session : SessionId} {revision : Nat} {operation : Uuid}
      {c : SessionCommand ContextView} {frames : List Frame} (hnew : operation ∉ s.operations)
      (hframed : Framed operation c frames) : CallPlan s (.command session revision operation c) frames
  | start {call : HostCall} {operation : Uuid} {task : TaskId} (content : List Value)
      (hstarts : call.starts = some (operation, task))
      (hfree : s.tasksByRequest[operation]? = none)
      (hrunning : ∀ x, s.submissions[operation]? = some x → x.status = .running) :
      CallPlan s call (linkFrames operation content task)
  | resume {session : SessionId} {operation : Uuid} {task : TaskId} {revision : Nat} {reason : String}
      (hfree : s.tasksByRequest[operation]? = none) (hnew : operation ∉ s.operations) :
      CallPlan s (.resumeTask session operation task revision reason)
        (linkFrames operation [userItem reason] task)
  | edit {session : SessionId} {operation request : Uuid} {expectedInput : Digest}
      {input : Option Digest} {x : Submission} (hnew : operation ∉ s.operations)
      (hx : s.submissions[request]? = some x) (hqueued : x.status = .queued) :
      CallPlan s (.editSubmission session operation request expectedInput input)
        [(operation, .queueEdited request expectedInput input)]
  | submit {session : SessionId} {id : Uuid} {input : Digest} {intent : WorkIntent} {x : Submission}
      (hfree : s.submissions[id]? = none) (hnew : id ∉ s.operations)
      (hroom : (pendingOf s).length < 16) (hid : x.id = id) (hqueued : x.status = .queued) :
      CallPlan s (.submit session id input intent) [(id.named "submitted", .submitted x)]
  | continue {session : SessionId} {request : Uuid} {x : Submission} {task : TaskId}
      (content : List Value) (hx : s.submissions[request]? = some x) (hrunning : x.status = .running)
      (htask : continuedTask s x.intent = .ok task) (hcurrent : s.currentTask = some task)
      (hother : s.tasksByRequest[request]? ≠ some task) :
      CallPlan s (.continueSubmission session request) (linkFrames request content task)
  | beginShell {session : SessionId} {request : Uuid} {job : ManualJob} {x : Submission}
      (hx : s.submissions[request]? = some x) (hrunning : x.status = .running)
      (hnew : request ∉ s.operations) :
      CallPlan s (.beginShell session request job) [(request, .shellStarted job)]
  | finishShell {session : SessionId} {request : Uuid} {report : ShellReport} (digest : Digest)
      (seed : Option WorkspaceSeed) (settled : Bool) (error : Option String) :
      CallPlan s (.finishShell session request report)
        [(request.named "shell-published", .shellPublished request digest seed settled),
          (request.named "shell-settled", .turnSettled request none error)]
  | move {session : SessionId} {operation request : Uuid} {expectedInput : Digest}
      {before : Option Uuid} {x : Submission} (hnew : operation ∉ s.operations)
      (hx : s.submissions[request]? = some x) (hqueued : x.status = .queued) :
      CallPlan s (.moveSubmission session operation request expectedInput before)
        [(operation, .queueMoved request expectedInput before)]
  | setStatus {session : SessionId} {request operation : Uuid} {status : SubmissionStatus}
      {x : Submission} (hnew : operation ∉ s.operations) (hx : s.submissions[request]? = some x)
      (hmoves : transitions s request x.status status = true) :
      CallPlan s (.setSubmissionStatus session request status operation)
        [(operation, .submissionChanged request status)]

variable {db db' : Db} {w w' : World} {env : Env} {s s' : SessionState}

theorem Framed.of_small {frames : List Frame} (h : Framed operation c frames) (hc : c.isResult = false) :
    frames = [(operation, c)] := by
  cases h with
  | one => rfl
  | many => cases hc

theorem append_one {head hash : Digest} {clock : Nat → Nat}
    (h : appendSessionCommand s head operation c clock db = .ok (s', hash, db')) (hc : c.isResult = false) :
    s.applyAll [(operation, c)] = .ok s' := by
  obtain ⟨frames, hframed, hap⟩ := appendSessionCommand_frames h
  rwa [hframed.of_small hc] at hap

theorem linkTask_frames {head : Digest} {content : List Value} {task : TaskId}
    (h : linkTask env s head operation content task db = .ok (s', db')) :
    s.applyAll (linkFrames operation content task) = .ok s' := by
  obtain ⟨⟨t, g, db₁⟩, hone, h⟩ := bind_ok h
  obtain ⟨⟨u, k, db₂⟩, htwo, h⟩ := bind_ok h
  cases h
  exact applyAll_trans (append_one hone rfl) (append_one htwo rfl)

theorem orInvalid_ok {α : Type} {error : String} {x : Option α} {a : α}
    (h : orInvalid error x = .ok a) : x = some a := by
  cases x with
  | none => cases h
  | some b =>
    cases h
    rfl

theorem not_mem_operations (h : s.operations[operation]? = none) : operation ∉ s.operations := by
  rw [Std.ExtTreeMap.mem_iff_isSome_getElem?, h]
  simp

/-- what a call that succeeded found and appended -/
def Planned (db : Db) (call : HostCall) (s' : SessionState) : Prop :=
  ∃ s head frames, loadSessionState db call.session none = .ok (s, head) ∧ CallPlan s call frames ∧
    s.applyAll frames = .ok s'

theorem sessionCommand_planned (hc : sessionCommand env id revision operation c db = .ok (s', db')) :
    ∃ s head, loadSessionState db id none = .ok (s, head) ∧ (s' = s ∨ operation ∉ s.operations ∧
      ∃ frames, Framed operation c frames ∧ s.applyAll frames = .ok s') := by
  obtain ⟨s, head, hl, ⟨rfl, -, -⟩ | ⟨hnone, -, -, -, hash, happ⟩⟩ := sessionCommand_ok hc
  · exact ⟨s', head, hl, .inl rfl⟩
  · exact ⟨s, head, hl, .inr ⟨not_mem_operations hnone, appendSessionCommand_frames happ⟩⟩

theorem startRecord_planned (call : HostCall) {task : TaskId}
    (hstarts : call.starts = some (operation, task)) {r : StartRequest} {t : TaskState} {fresh : Bool}
    (hc : startRecord env call.session operation r task db = .ok (s', t, fresh, db')) :
    Planned db call s' := by
  obtain ⟨⟨s, head⟩, hl, hc⟩ := bind_ok hc
  simp only at hc
  split at hc
  · obtain ⟨_, -, hc⟩ := bind_ok hc
    obtain ⟨_, -, hc⟩ := bind_ok hc
    obtain ⟨-, hc⟩ := refuseIf_bind hc
    cases hc
    exact ⟨s', head, [], hl, .nothing call, rfl⟩
  · rename_i hfree
    obtain ⟨_, hadmitted, hc⟩ := bind_ok hc
    obtain ⟨_, -, hc⟩ := bind_ok hc
    obtain ⟨_, -, hc⟩ := bind_ok hc
    obtain ⟨⟨u, db₂⟩, hlink, hc⟩ := bind_ok hc
    cases hc
    refine ⟨s, head, _, hl, .start r.content hstarts hfree fun x hx => ?_, linkTask_frames hlink⟩
    obtain ⟨-, hadmitted⟩ := refuseIf_bind hadmitted
    obtain ⟨-, hadmitted⟩ := refuseIf_bind hadmitted
    have hguard := refuseIf_ok hadmitted
    rw [hx] at hguard
    by_contra hne
    simp [hne] at hguard

theorem resumeTask_planned {session : SessionId} {task : TaskId} {reason : String} {t : TaskState}
    {fresh : Bool} (hc : resumeTask env session operation task revision reason db = .ok (s', t, fresh, db'))
    :
    Planned db (.resumeTask session operation task revision reason) s' := by
  obtain ⟨-, hc⟩ := refuseIf_bind hc
  obtain ⟨⟨s, head⟩, hl, hc⟩ := bind_ok hc
  obtain ⟨⟨t, thead⟩, -, hc⟩ := bind_ok hc
  simp only at hc
  split at hc
  · obtain ⟨-, hc⟩ := refuseIf_bind hc
    cases hc
    exact ⟨s', head, [], hl, .nothing _, rfl⟩
  · rename_i hfree
    obtain ⟨hguard, hc⟩ := refuseIf_bind hc
    obtain ⟨-, hc⟩ := refuseIf_bind hc
    obtain ⟨-, -, hc⟩ := bind_ok hc
    obtain ⟨-, -, hc⟩ := bind_ok hc
    obtain ⟨-, -, hc⟩ := bind_ok hc
    obtain ⟨_, -, hc⟩ := bind_ok hc
    obtain ⟨⟨u, db₂⟩, hlink, hc⟩ := bind_ok hc
    cases hc
    exact ⟨s, head, _, hl, .resume hfree fun hmem => hguard (.inr hmem), linkTask_frames hlink⟩

theorem editSubmission_planned {session : SessionId} {input : Option Digest}
    (hc : editSubmission env session operation request expectedInput input db = .ok (x, s', t, db')) :
    Planned db (.editSubmission session operation request expectedInput input) s' := by
  obtain ⟨⟨s, head⟩, hl, hc⟩ := bind_ok hc
  simp only at hc
  split at hc
  · obtain ⟨-, hc⟩ := refuseIf_bind hc
    obtain ⟨_, -, hc⟩ := bind_ok hc
    cases hc
    exact ⟨s', head, [], hl, .nothing _, rfl⟩
  · rename_i hnone
    obtain ⟨y, hy, hc⟩ := bind_ok hc
    obtain ⟨hguard, hc⟩ := refuseIf_bind hc
    obtain ⟨_, -, hc⟩ := bind_ok hc
    obtain ⟨_, -, hc⟩ := bind_ok hc
    obtain ⟨⟨u, g, db₂⟩, happ, hc⟩ := bind_ok hc
    obtain ⟨_, -, hc⟩ := bind_ok hc
    cases hc
    rw [not_or, not_not] at hguard
    exact ⟨s, head, _, hl, .edit (not_mem_operations hnone) (orInvalid_ok hy) hguard.1,
      append_one happ rfl⟩

theorem submit_planned {session : SessionId} {id : Uuid} {input : Digest} {intent : WorkIntent}
    (hc : submit env session id input intent db = .ok (x, s', t, db')) :
    Planned db (.submit session id input intent) s' := by
  obtain ⟨⟨s, head⟩, hl, hc⟩ := bind_ok hc
  obtain ⟨-, -, hc⟩ := bind_ok hc
  obtain ⟨_, -, hc⟩ := bind_ok hc
  obtain ⟨-, -, hc⟩ := bind_ok hc
  simp only at hc
  split at hc
  · obtain ⟨-, hc⟩ := refuseIf_bind hc
    cases hc
    exact ⟨s', head, [], hl, .nothing _, rfl⟩
  · rename_i hfree
    obtain ⟨hnew, hc⟩ := refuseIf_bind hc
    obtain ⟨hroom, hc⟩ := refuseIf_bind hc
    obtain ⟨_, -, hc⟩ := bind_ok hc
    obtain ⟨⟨u, g, db₂⟩, happ, hc⟩ := bind_ok hc
    cases hc
    exact ⟨s, head, _, hl, .submit hfree hnew (Nat.not_le.mp hroom) rfl rfl,
      append_one happ rfl⟩

theorem continueSubmission_planned {session : SessionId} {t : TaskState} {fresh : Bool}
    (hc : continueSubmission env session request db = .ok (s', t, fresh, db')) :
    Planned db (.continueSubmission session request) s' := by
  obtain ⟨⟨s, head⟩, hl, hc⟩ := bind_ok hc
  obtain ⟨x, hx, hc⟩ := bind_ok hc
  obtain ⟨task, htask, hc⟩ := bind_ok hc
  obtain ⟨_, -, hc⟩ := bind_ok hc
  obtain ⟨-, hc⟩ := refuseIf_bind hc
  obtain ⟨⟨u, thead⟩, -, hc⟩ := bind_ok hc
  simp only at hc
  split at hc
  · cases hc
    exact ⟨s', head, [], hl, .nothing _, rfl⟩
  · rename_i hother
    obtain ⟨_, hadmitted, hc⟩ := bind_ok hc
    obtain ⟨_, -, hc⟩ := bind_ok hc
    obtain ⟨-, -, hc⟩ := bind_ok hc
    obtain ⟨⟨v, db₂⟩, hlink, hc⟩ := bind_ok hc
    cases hc
    obtain ⟨hrunning, hadmitted⟩ := refuseIf_bind hadmitted
    obtain ⟨-, hadmitted⟩ := refuseIf_bind hadmitted
    obtain ⟨hcurrent, -⟩ := refuseIf_bind hadmitted
    exact ⟨s, head, _, hl, .continue _ (orInvalid_ok hx) (not_not.mp hrunning) htask
      (not_not.mp hcurrent) hother, linkTask_frames hlink⟩

theorem beginShell_planned {session : SessionId} {job : ManualJob}
    (hc : beginShell env session request job db = .ok (s', t, db')) :
    Planned db (.beginShell session request job) s' := by
  obtain ⟨⟨s, head⟩, hl, hc⟩ := bind_ok hc
  obtain ⟨x, hx, hc⟩ := bind_ok hc
  obtain ⟨_, -, hc⟩ := bind_ok hc
  obtain ⟨-, -, hc⟩ := bind_ok hc
  obtain ⟨hguard, hc⟩ := refuseIf_bind hc
  obtain ⟨-, hc⟩ := refuseIf_bind hc
  obtain ⟨-, -, hc⟩ := bind_ok hc
  obtain ⟨-, -, hc⟩ := bind_ok hc
  obtain ⟨_, -, hc⟩ := bind_ok hc
  obtain ⟨⟨u, g, db₂⟩, happ, hc⟩ := bind_ok hc
  cases hc
  simp only [not_or, not_not] at hguard
  exact ⟨s, head, _, hl, .beginShell (orInvalid_ok hx) hguard.1 hguard.2.2.1,
    append_one happ rfl⟩

theorem finishShell_planned {session : SessionId} {report : ShellReport} {digest : Digest}
    (hc : finishShell env session request report db = .ok (digest, s', t, db')) :
    Planned db (.finishShell session request report) s' := by
  obtain ⟨⟨s, head⟩, hl, hc⟩ := bind_ok hc
  obtain ⟨_, -, hc⟩ := bind_ok hc
  obtain ⟨-, hc⟩ := refuseIf_bind hc
  obtain ⟨-, -, hc⟩ := bind_ok hc
  obtain ⟨_, -, hc⟩ := bind_ok hc
  obtain ⟨_, -, hc⟩ := bind_ok hc
  obtain ⟨_, -, hc⟩ := bind_ok hc
  obtain ⟨⟨u, g, db₂⟩, hpub, hc⟩ := bind_ok hc
  obtain ⟨⟨v, k, db₃⟩, hturn, hc⟩ := bind_ok hc
  cases hc
  exact ⟨s, head, _, hl, .finishShell _ _ _ _,
    applyAll_trans (append_one hpub rfl) (append_one hturn rfl)⟩

/-- one of the two calls that go through `sessionCommand` with a command of the store -/
theorem reserved_planned {call : HostCall} {head : Digest}
    (hl : loadSessionState db call.session none = .ok (s, head)) (hone : c.isResult = false)
    (hplan : operation ∉ s.operations → CallPlan s call [(operation, c)])
    (hc : sessionCommand env call.session revision operation c db = .ok (s', db')) :
    Planned db call s' := by
  obtain ⟨u, g, hl', rfl | ⟨hnew, frames, hframed, hap⟩⟩ := sessionCommand_planned hc
  · exact ⟨s', g, [], hl', .nothing call, rfl⟩
  · cases hl.symm.trans hl'
    rw [hframed.of_small hone] at hap
    exact ⟨s, head, _, hl, hplan hnew, hap⟩

theorem moveSubmission_planned {session : SessionId} {before : Option Uuid}
    (hc : moveSubmission env session operation request expectedInput before db = .ok (x, s', db')) :
    Planned db (.moveSubmission session operation request expectedInput before) s' := by
  obtain ⟨⟨s, head⟩, hl, hc⟩ := bind_ok hc
  obtain ⟨y, hy, hc⟩ := bind_ok hc
  simp only at hc
  split at hc
  · obtain ⟨-, hc⟩ := refuseIf_bind hc
    cases hc
    exact ⟨s', head, [], hl, .nothing _, rfl⟩
  · obtain ⟨hguard, hc⟩ := refuseIf_bind hc
    obtain ⟨-, hc⟩ := refuseIf_bind hc
    obtain ⟨⟨u, db₁⟩, hcommand, hc⟩ := bind_ok hc
    obtain ⟨_, -, hc⟩ := bind_ok hc
    cases hc
    rw [not_or, not_not] at hguard
    exact reserved_planned hl rfl
      (fun hnew => .move hnew (orInvalid_ok hy) hguard.1) hcommand

theorem setSubmissionStatus_planned {session : SessionId} {status : SubmissionStatus}
    (hc : setSubmissionStatus env session request status operation db = .ok (x, s', db')) :
    Planned db (.setSubmissionStatus session request status operation) s' := by
  obtain ⟨⟨s, head⟩, hl, hc⟩ := bind_ok hc
  obtain ⟨y, hy, hc⟩ := bind_ok hc
  simp only at hc
  split at hc
  · cases hc
    exact ⟨s', head, [], hl, .nothing _, rfl⟩
  · obtain ⟨hguard, hc⟩ := refuseIf_bind hc
    obtain ⟨⟨u, db₁⟩, hcommand, hc⟩ := bind_ok hc
    obtain ⟨_, -, hc⟩ := bind_ok hc
    cases hc
    exact reserved_planned hl rfl
      (fun hnew => .setStatus hnew (orInvalid_ok hy) (by simpa using hguard)) hcommand

/-- **A call that succeeds has followed a plan** for the session it loaded. -/
theorem HostCall.plan {call : HostCall} {task : Option TaskState}
    (hc : call.run env db = .ok (task, s', db')) : Planned db call s' := by
  cases call with
  | command session revision operation c =>
    obtain ⟨_, h, he⟩ := bind_ok hc
    cases he
    obtain ⟨s, head, hl, rfl | ⟨hnew, frames, hframed, hap⟩⟩ := sessionCommand_planned h
    · exact ⟨_, head, [], hl, .nothing _, rfl⟩
    · exact ⟨s, head, frames, hl, .command hnew hframed, hap⟩
  | startTask session operation contract task =>
    obtain ⟨_, h, he⟩ := bind_ok hc
    cases he
    obtain ⟨-, -, h⟩ := bind_ok h
    exact startRecord_planned (.startTask session operation contract task) rfl h
  | startRequest session operation request limits intake task =>
    obtain ⟨_, h, he⟩ := bind_ok hc
    cases he
    obtain ⟨-, h⟩ := refuseIf_bind h
    obtain ⟨-, -, h⟩ := bind_ok h
    obtain ⟨-, -, h⟩ := bind_ok h
    exact startRecord_planned (.startRequest session operation request limits intake task) rfl h
  | startPreparedRequest session operation input limits intake task =>
    obtain ⟨_, h, he⟩ := bind_ok hc
    cases he
    obtain ⟨-, h⟩ := refuseIf_bind h
    obtain ⟨-, -, h⟩ := bind_ok h
    obtain ⟨-, -, h⟩ := bind_ok h
    obtain ⟨_, -, h⟩ := bind_ok h
    obtain ⟨-, h⟩ := refuseIf_bind h
    exact startRecord_planned (.startPreparedRequest session operation input limits intake task)
      rfl h
  | resumeTask session operation task revision reason =>
    obtain ⟨_, h, he⟩ := bind_ok hc
    cases he
    exact resumeTask_planned h
  | editSubmission session operation request expectedInput input =>
    obtain ⟨_, h, he⟩ := bind_ok hc
    cases he
    exact editSubmission_planned h
  | submit session id input intent =>
    obtain ⟨_, h, he⟩ := bind_ok hc
    cases he
    exact submit_planned h
  | continueSubmission session request =>
    obtain ⟨_, h, he⟩ := bind_ok hc
    cases he
    exact continueSubmission_planned h
  | beginShell session request job =>
    obtain ⟨_, h, he⟩ := bind_ok hc
    cases he
    exact beginShell_planned h
  | finishShell session request report =>
    obtain ⟨_, h, he⟩ := bind_ok hc
    cases he
    exact finishShell_planned h
  | moveSubmission session operation request expectedInput before =>
    obtain ⟨_, h, he⟩ := bind_ok hc
    cases he
    exact moveSubmission_planned h
  | setSubmissionStatus session request status operation =>
    obtain ⟨_, h, he⟩ := bind_ok hc
    cases he
    exact setSubmissionStatus_planned h

/-! ## runs of the host -/

theorem moveSubmission_moved (h : Represents db w) {session : SessionId} {before : Option Uuid}
    (hc : moveSubmission env session operation request expectedInput before db = .ok (x, s', db')) :
    (w.sessions s'.id = some s' ∧ db' = db) ∨
      ∃ revision c, sessionCommand env session revision operation c db = .ok (s', db') := by
  obtain ⟨⟨s, head⟩, hl, hc⟩ := bind_ok hc
  obtain ⟨y, -, hc⟩ := bind_ok hc
  simp only at hc
  split at hc
  · obtain ⟨-, hc⟩ := refuseIf_bind hc
    cases hc
    exact .inl ⟨(SessionLoaded.of_load h hl).1.state, rfl⟩
  · obtain ⟨-, hc⟩ := refuseIf_bind hc
    obtain ⟨-, hc⟩ := refuseIf_bind hc
    obtain ⟨⟨u, db₁⟩, hcommand, hc⟩ := bind_ok hc
    obtain ⟨_, -, hc⟩ := bind_ok hc
    cases hc
    exact .inr ⟨_, _, hcommand⟩

theorem setSubmissionStatus_moved (h : Represents db w) {session : SessionId} {status : SubmissionStatus}
    (hc : setSubmissionStatus env session request status operation db = .ok (x, s', db')) :
    (w.sessions s'.id = some s' ∧ db' = db) ∨
      ∃ revision c, sessionCommand env session revision operation c db = .ok (s', db') := by
  obtain ⟨⟨s, head⟩, hl, hc⟩ := bind_ok hc
  obtain ⟨y, -, hc⟩ := bind_ok hc
  simp only at hc
  split at hc
  · cases hc
    exact .inl ⟨(SessionLoaded.of_load h hl).1.state, rfl⟩
  · obtain ⟨-, hc⟩ := refuseIf_bind hc
    obtain ⟨⟨u, db₁⟩, hcommand, hc⟩ := bind_ok hc
    obtain ⟨_, -, hc⟩ := bind_ok hc
    cases hc
    exact .inr ⟨_, _, hcommand⟩

/-- every identifier of a job may be drawn -/
abbrev anyDraw : TaskState → Uuid → Prop := fun _ _ => True

/-- a call is a transaction of the store, or it has changed nothing -/
theorem HostCall.step (h : Represents db w) {call : HostCall} {task : Option TaskState}
    (hc : call.run env db = .ok (task, s', db')) :
    Step anyDraw db task (some s') db' ∨ (task = none ∧ db' = db ∧ w.sessions s'.id = some s') := by
  cases call with
  | command session revision operation c =>
    obtain ⟨_, h', he⟩ := bind_ok hc
    cases he
    exact .inl (.sessionCommand h')
  | startTask session operation contract task =>
    obtain ⟨_, h', he⟩ := bind_ok hc
    cases he
    exact .inl (.startTask h')
  | startRequest session operation request limits intake task =>
    obtain ⟨_, h', he⟩ := bind_ok hc
    cases he
    exact .inl (.startRequest h')
  | startPreparedRequest session operation input limits intake task =>
    obtain ⟨_, h', he⟩ := bind_ok hc
    cases he
    exact .inl (.startPreparedRequest h')
  | resumeTask session operation task revision reason =>
    obtain ⟨_, h', he⟩ := bind_ok hc
    cases he
    exact .inl (.resumeTask h')
  | editSubmission session operation request expectedInput input =>
    obtain ⟨_, h', he⟩ := bind_ok hc
    cases he
    exact .inl (.editSubmission h')
  | submit session id input intent =>
    obtain ⟨_, h', he⟩ := bind_ok hc
    cases he
    exact .inl (.submit h')
  | continueSubmission session request =>
    obtain ⟨_, h', he⟩ := bind_ok hc
    cases he
    exact .inl (.continueSubmission h')
  | beginShell session request job =>
    obtain ⟨_, h', he⟩ := bind_ok hc
    cases he
    exact .inl (.beginShell h' fun _ _ _ _ _ => trivial)
  | finishShell session request report =>
    obtain ⟨_, h', he⟩ := bind_ok hc
    cases he
    exact .inl (.finishShell h')
  | moveSubmission session operation request expectedInput before =>
    obtain ⟨_, h', he⟩ := bind_ok hc
    cases he
    rcases moveSubmission_moved h h' with ⟨hs, hdb⟩ | ⟨revision, c, hcommand⟩
    · exact .inr ⟨rfl, hdb, hs⟩
    · exact .inl (.sessionCommand hcommand)
  | setSubmissionStatus session request status operation =>
    obtain ⟨_, h', he⟩ := bind_ok hc
    cases he
    rcases setSubmissionStatus_moved h h' with ⟨hs, hdb⟩ | ⟨revision, c, hcommand⟩
    · exact .inr ⟨rfl, hdb, hs⟩
    · exact .inl (.sessionCommand hcommand)

/-- one step of the host: a transaction on a task, a new session, or a call that meets a condition
on the session it finds -/
inductive HostStep (admits : SessionState → HostCall → Prop) (db : Db) :
    Option TaskState → Option SessionState → Db → Prop
  | task {task : Option TaskState} {db' : Db} (h : Step anyDraw db task none db') :
      HostStep admits db task none db'
  | create {env : Env} {id : SessionId} {config : SessionConfig}
      {admission : SessionAdmissionProfile} {parent : Option SessionCursor}
      {seed : Option (ImportedSource × List Value)} {freshContext : Bool} {s : SessionState} {db' : Db}
      (h : createSessionSeeded env id config admission parent seed freshContext db = .ok (s, db')) :
      HostStep admits db none (some s) db'
  | call {env : Env} {call : HostCall} {task : Option TaskState} {s : SessionState} {db' : Db}
      (h : call.run env db = .ok (task, s, db')) (hdirect : call.direct = true)
      (hadmits : ∀ s head, loadSessionState db call.session none = .ok (s, head) → admits s call) :
      HostStep admits db task (some s) db'

/-- any number of steps of the host -/
inductive HostRun (admits : SessionState → HostCall → Prop) (db : Db) (w : World) : Db → World → Prop
  | refl : HostRun admits db w db w
  | step {db₁ db₂ : Db} {w₁ : World} {task : Option TaskState} {session : Option SessionState}
      (h : HostRun admits db w db₁ w₁) (hs : HostStep admits db₁ task session db₂) :
      HostRun admits db w db₂ (w₁.write task session)

abbrev HostReachable (admits : SessionState → HostCall → Prop) (db : Db) (w : World) : Prop :=
  HostRun admits Db.empty World.empty db w

variable {admits : SessionState → HostCall → Prop}

theorem HostStep.mono {loose : SessionState → HostCall → Prop} {task : Option TaskState}
    {session : Option SessionState} (h : HostStep admits db task session db')
    (hloose : ∀ s call, admits s call → loose s call) : HostStep loose db task session db' := by
  cases h with
  | task h => exact .task h
  | create h => exact .create h
  | call h hdirect hadmits => exact .call h hdirect fun s head hl => hloose s _ (hadmits s head hl)

theorem HostRun.mono {loose : SessionState → HostCall → Prop} (h : HostRun admits db w db' w')
    (hloose : ∀ s call, admits s call → loose s call) : HostRun loose db w db' w' := by
  induction h with
  | refl => exact .refl
  | step _ hs ih => exact ih.step (hs.mono hloose)

/-- **A run of the host is a run of the store.** -/
theorem HostRun.run (h : HostRun admits db w db' w') (hr : Represents db w) :
    Run anyDraw db w db' w' := by
  induction h with
  | refl => exact .refl
  | @step db₁ db₂ w₁ task session _ hs ih =>
    cases hs with
    | task h => exact ih.step h
    | create h => exact ih.step (.createSession h)
    | call h hdirect hadmits =>
      rcases HostCall.step (ih.represents hr) h with hstep | ⟨rfl, rfl, hsame⟩
      · exact ih.step hstep
      · show Run anyDraw db w _ (w₁.setSession _)
        rw [World.setSession_self hsame]
        exact ih

theorem HostRun.represents (h : HostRun admits db w db' w') (hr : Represents db w) :
    Represents db' w' := (h.run hr).represents hr

theorem HostReachable.represents (h : HostReachable admits db w) : Represents db w :=
  HostRun.represents h represents_empty

theorem createSessionSeeded_created (h : Represents db w) {config : SessionConfig}
    {admission : SessionAdmissionProfile} {parent : Option SessionCursor}
    {seed : Option (ImportedSource × List Value)} {freshContext : Bool}
    (hc : createSessionSeeded env id config admission parent seed freshContext db = .ok (s', db')) :
    w.sessions s'.id = some s' ∨ w.sessions s'.id = none ∧
      ∃ creation, creation.branch.pendingShell = none ∧ s' = SessionState.create id creation := by
  obtain ⟨-, hc⟩ := refuseIf_bind hc
  split at hc
  · rename_i existing head hl
    split at hc
    · cases hc
      exact .inl (SessionLoaded.of_load h hl).1.state
    · cases hc
  · obtain ⟨_, -, hc⟩ := bind_ok hc
    obtain ⟨-, -, hc⟩ := bind_ok hc
    obtain ⟨-, -, hc⟩ := bind_ok hc
    obtain ⟨rfl, hnone, -⟩ := h.insertSession hc
    exact .inr ⟨hnone, _, rfl, rfl⟩
  · cases hc

def HostCall.Leaves (call : HostCall) (s s' : SessionState) : Prop :=
  ∃ env db head task db', loadSessionState db call.session none = .ok (s, head) ∧
    call.run env db = .ok (task, s', db')

section
variable {P : SessionState → Prop} {R : SessionState → SessionState → Prop}

section
variable (hcreate : ∀ id creation, creation.branch.pendingShell = none →
    P (SessionState.create id creation))
  (hrefl : ∀ s, R s s) (htrans : ∀ {a b c}, R a b → R b c → R a c)
  (hstep : ∀ {s call frames s'}, P s → admits s call → call.direct = true →
    CallPlan s call frames → s.applyAll frames = .ok s' → call.Leaves s s' → P s' ∧ R s s')
include hcreate hrefl htrans hstep

/-- **The rule for the course of a session** that is created without a pending command. -/
theorem HostRun.unmarked_course (h : HostRun admits db w db' w') (hr : Represents db w)
    (hP : ∀ id s, w.sessions id = some s → P s) : (∀ id s, w'.sessions id = some s → P s) ∧
      ∀ id s, w.sessions id = some s → ∃ s', w'.sessions id = some s' ∧ R s s' := by
  induction h with
  | refl => exact ⟨hP, fun id s hs => ⟨s, hs, hrefl s⟩⟩
  | @step db₁ db₂ w₁ task session hrun hs ih =>
    obtain ⟨hall, hcourse⟩ := ih
    have hr₁ := hrun.represents hr
    -- the world changes at one session at most
    have hwrite : ∀ u : SessionState, P u → (∀ s, w₁.sessions u.id = some s → R s u) →
        (∀ id s, (w₁.write task (some u)).sessions id = some s → P s) ∧
        ∀ id s, w.sessions id = some s → ∃ s', (w₁.write task (some u)).sessions id = some s' ∧ R s s' := by
      intro u hu hrel
      rw [World.write_sessions]
      refine ⟨fun id s hs => ?_, fun id s hs => ?_⟩
      · rw [Function.update_apply] at hs
        split at hs
        · cases hs
          exact hu
        · exact hall id s hs
      · obtain ⟨t, ht, hst⟩ := hcourse id s hs
        by_cases he : id = u.id
        · subst he
          exact ⟨u, Function.update_self .., htrans hst (hrel t ht)⟩
        · exact ⟨t, by rw [Function.update_of_ne he]; exact ht, hst⟩
    cases hs with
    | task h =>
      rw [World.write_task_sessions]
      exact ⟨hall, hcourse⟩
    | @create _ _ _ _ _ _ _ u _ h =>
      rcases createSessionSeeded_created hr₁ h with hold | ⟨hnone, creation, hmark, rfl⟩
      · exact hwrite u (hall _ u hold) fun s hs => by
          cases hold.symm.trans hs
          exact hrefl u
      · exact hwrite _ (hcreate _ creation hmark) fun s hs => by
          rw [hnone] at hs
          cases hs
    | @call env call _ u _ h hdirect hadmits =>
      obtain ⟨s, head, frames, hl, hplan, hap⟩ := call.plan h
      obtain ⟨hs, hid⟩ := SessionLoaded.of_load hr₁ hl
      obtain ⟨hu, hrel⟩ := hstep (hall _ s hs.state) (hadmits s head hl) hdirect hplan hap
        ⟨env, db₁, head, task, db₂, hl, h⟩
      have hsame : u.id = s.id := applyAll_id hap
      exact hwrite u hu fun t ht => by
        rw [hsame, hs.state] at ht
        cases ht
        exact hrel

end

variable (hcreate : ∀ id creation, P (SessionState.create id creation))
  (hrefl : ∀ s, R s s) (htrans : ∀ {a b c}, R a b → R b c → R a c)

section
variable (hstep : ∀ {s call frames s'}, P s → admits s call → call.direct = true →
    CallPlan s call frames → s.applyAll frames = .ok s' → call.Leaves s s' → P s' ∧ R s s')
include hcreate hrefl htrans hstep

/-- **The rule for the course of a session**: what every call establishes and relates, a run does. -/
theorem HostRun.session_course (h : HostRun admits db w db' w') (hr : Represents db w)
    (hP : ∀ id s, w.sessions id = some s → P s) : (∀ id s, w'.sessions id = some s → P s) ∧
      ∀ id s, w.sessions id = some s → ∃ s', w'.sessions id = some s' ∧ R s s' :=
  HostRun.unmarked_course (fun id creation _ => hcreate id creation) hrefl htrans hstep h hr hP

end

variable (hstep : ∀ {s call frames s'}, P s → admits s call → call.direct = true →
    CallPlan s call frames → s.applyAll frames = .ok s' → P s' ∧ R s s')
include hcreate hrefl htrans hstep

theorem HostRun.session_relation (h : HostRun admits db w db' w') (hr : Represents db w)
    (hP : ∀ id s, w.sessions id = some s → P s) : (∀ id s, w'.sessions id = some s → P s) ∧
      ∀ id s, w.sessions id = some s → ∃ s', w'.sessions id = some s' ∧ R s s' :=
  HostRun.session_course hcreate hrefl htrans
    (fun hP ha hd hplan hap _ => hstep hP ha hd hplan hap) h hr hP

end

/-- **The rule for invariants of a session**: they hold of new sessions, and every call keeps them. -/
theorem HostReachable.session_invariant {P : SessionState → Prop}
    (hcreate : ∀ id creation, P (SessionState.create id creation))
    (hstep : ∀ {s call frames s'}, P s → admits s call → call.direct = true → CallPlan s call frames →
      s.applyAll frames = .ok s' → P s') (h : HostReachable admits db w) {s : SessionState}
    (hs : w.sessions id = some s) : P s :=
  (HostRun.session_relation (R := fun _ _ => True) hcreate (fun _ => trivial) (fun _ _ => trivial)
    (fun hP ha hd hplan hap => ⟨hstep hP ha hd hplan hap, trivial⟩) h represents_empty
    (fun _ _ h => nomatch h)).1 id s hs

end

/-! ## the ordinary request of the example store -/

namespace Sample

variable {admits : SessionState → HostCall → Prop} {db : Db} {w : World}

theorem sets (h : Represents db w) {s s' : SessionState} (hs : w.sessions sessionId = some s)
    (request : Uuid) {x y : Submission} {status : SubmissionStatus} {operation : Uuid}
    (hx : s.submissions[request]? = some x) (hne : x.status ≠ status)
    (hmoves : transitions s request x.status status = true)
    (hap : s.apply operation (.submissionChanged request status) = .ok s')
    (hr : s.revision + 1 < 2 ^ 63) (hnew : s.operations[operation]? = none)
    (hy : s'.submissions[request]? = some y) :
    ∃ db', (HostCall.setSubmissionStatus sessionId request status operation).run env db =
      .ok (none, s', db') ∧ db'.tasks = db.tasks ∧
      db'.sessions.map Prod.fst = db.sessions.map Prod.fst := by
  obtain ⟨head, hload⟩ := h.loadSession hs
  obtain ⟨db', hchange, htasks, hkeys⟩ := issues h hs hap hr trivial hnew rfl rfl
  refine ⟨db', ?_, htasks, hkeys⟩
  have hset : setSubmissionStatus env sessionId request status operation db = .ok (y, s', db') := by
    rw [setSubmissionStatus, hload, ok_bind]
    show (submissionOf s request >>= _) = _
    rw [submissionOf, hx]
    show (if x.status = status then _ else _) = _
    rw [if_neg hne, refuseIf_of_not _ (by rw [hmoves]; decide), ok_bind, hchange, ok_bind]
    show (submissionOf s' request >>= _) = _
    rw [submissionOf, hy]
    rfl
  rw [HostCall.run, hset, ok_bind]

theorem admitted (h : Represents db w) {s : SessionState} (hs : w.sessions sessionId = some s)
    {call : HostCall} (hcall : call.session = sessionId) (ha : admits s call) :
    ∀ t head, loadSessionState db call.session none = .ok (t, head) → admits t call := by
  intro t head hl
  obtain ⟨ht, hid⟩ := SessionLoaded.of_load h hl
  have hstate := ht.state
  rw [hid, hcall, hs] at hstate
  cases hstate
  exact ha

theorem hostReachable_claimed
    (hsubmit : admits opened (.submit sessionId ordinaryId ⟨0⟩ ordinaryIntent))
    (hclaim : admits waiting (.setSubmissionStatus sessionId ordinaryId .running claimId)) :
    ∃ db w, HostReachable admits db w ∧ w.sessions sessionId = some claimed ∧ db.tasks = [] ∧
      db.sessions.map Prod.fst = [sessionId] := by
  obtain ⟨db, hopen, ht, -, hkeys⟩ := opens
  have hr : HostReachable admits db (World.empty.setSession opened) :=
    HostRun.step .refl (.create hopen)
  have hs := World.setSession_get World.empty opened
  obtain ⟨db₁, hsubmits, ht₁, hk₁⟩ := submits hr.represents hkeys hs
  have hcall : (HostCall.submit sessionId ordinaryId ⟨0⟩ ordinaryIntent).run typing db =
      .ok (none, waiting, db₁) := by
    rw [HostCall.run, hsubmits, ok_bind]
  have hr₁ : HostReachable admits db₁ ((World.empty.setSession opened).setSession waiting) :=
    HostRun.step hr (.call hcall rfl (admitted hr.represents hs rfl hsubmit))
  have hs₁ := World.setSession_get (World.empty.setSession opened) waiting
  obtain ⟨db₂, hclaims, ht₂, hk₂⟩ := sets hr₁.represents hs₁ ordinaryId (show _ = some ordinary from rfl)
    (show _ ≠ SubmissionStatus.running by decide) rfl
    (show waiting.apply claimId (.submissionChanged ordinaryId .running) = .ok claimed from rfl)
    (by decide) (by decide) (show _ = some { ordinary with status := .running } from rfl)
  exact ⟨db₂, _, HostRun.step hr₁ (.call hclaims rfl (admitted hr₁.represents hs₁ rfl hclaim)),
    World.setSession_get _ claimed, ht₂.trans (ht₁.trans ht), hk₂.trans (hk₁.trans hkeys)⟩

end Sample

end Orvek
