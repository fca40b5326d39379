import Orvek.Store.Transactions

/-!
# Runs of the store

`Step` is one committed transaction with the states it left, and `Run` is any number of them in any
order.  The world of a run is what the operations left: the last state of every task and session.

* `Step.sound`         a transaction takes a represented world to the world it left;
* `Run.represents`     and so does every run;
* `replay_refines`     loading and replaying give the states of the world.

The other operations of the source on tasks and sessions are sequences of these.
-/

set_option linter.unusedSectionVars false

namespace Orvek
open Checks Completion Json

section
variable [Sha256] [ContractCodec] [SessionCodec] [StoreCodec] [JsonReader]
variable {s : TaskState} {id : TaskId}

/-- one committed transaction: the task and the session it changed, in the state it left them -/
inductive Step (draws : TaskState → Uuid → Prop) (db : Db) :
    Option TaskState → Option SessionState → Db → Prop
  | create {env : Env} {id : TaskId} {contract : Contract} {s : TaskState} {db' : Db}
      (h : create env id contract db = .ok (s, db')) : Step draws db (some s) none db'
  | auditEvidence {env : Env} {id : TaskId} {s : TaskState} {db' : Db}
      (h : auditEvidence env id db = .ok (s, db')) : Step draws db (some s) none db'
  | selectCandidate {env : Env} {id : TaskId} {revision : Nat} {candidate : Candidate}
      {s : TaskState} {db' : Db}
      (h : selectCandidate env id revision candidate db = .ok (s, db')) :
      Step draws db (some s) none db'
  | establishWorkspace {env : Env} {id : TaskId} {revision : Nat} {origin : Digest}
      {baseline : Candidate} {s : TaskState} {db' : Db}
      (h : establishWorkspace env id revision origin baseline db = .ok (s, db')) :
      Step draws db (some s) none db'
  | establishBaseline {env : Env} {id : TaskId} {revision : Nat} {baseline : Candidate}
      {s : TaskState} {db' : Db}
      (h : establishBaseline env id revision baseline db = .ok (s, db')) :
      Step draws db (some s) none db'
  | invalidateCandidate {env : Env} {id : TaskId} {revision : Nat} {reason : String}
      {s : TaskState} {db' : Db}
      (h : invalidateCandidate env id revision reason db = .ok (s, db')) :
      Step draws db (some s) none db'
  | requestCancellation {env : Env} {id : TaskId} {s : TaskState} {db' : Db}
      (h : requestCancellation env id db = .ok (s, db')) : Step draws db (some s) none db'
  | workspaceRestored {env : Env} {id : TaskId} {revision : Nat} {source : Digest}
      {s : TaskState} {db' : Db}
      (h : workspaceRestored env id revision source db = .ok (s, db')) :
      Step draws db (some s) none db'
  | amendContract {env : Env} {id : TaskId} {revision : Nat} {contract : Contract}
      {userBasis : String} {s : TaskState} {db' : Db}
      (h : amendContract env id revision contract userBasis db = .ok (s, db')) :
      Step draws db (some s) none db'
  | admitContract {env : Env} {id : TaskId} {revision : Nat} {contract : Contract} {basis : String}
      {receipt : Digest} {s : TaskState} {db' : Db}
      (h : admitContract env id revision contract basis receipt db = .ok (s, db')) :
      Step draws db (some s) none db'
  | acceptAdditiveContract {env : Env} {id : TaskId} {revision : Nat} {contract : Contract}
      {receipt : Digest} {s : TaskState} {db' : Db}
      (h : acceptAdditiveContract env id revision contract receipt db = .ok (s, db')) :
      Step draws db (some s) none db'
  | setPhase {env : Env} {id : TaskId} {revision : Nat} {phase : Phase} {s : TaskState} {db' : Db}
      (h : setPhase env id revision phase db = .ok (s, db')) : Step draws db (some s) none db'
  | beginCheck {env : Env} {id : TaskId} {revision : Nat} {check : String} {token jobId : Uuid}
      {lease : VerificationLease} {s : TaskState} {db' : Db}
      (h : beginCheck env id revision check token jobId db = .ok (lease, s, db'))
      (hd : ∀ s head, loadState db id = .ok (s, head) → draws s jobId) :
      Step draws db (some s) none db'
  | finishCheck {env : Env} {lease : VerificationLease} {observation : Observation}
      {s : TaskState} {db' : Db}
      (h : finishCheck env lease observation db = .ok (s, db')) : Step draws db (some s) none db'
  | startJob {env : Env} {id : TaskId} {revision : Nat} {mutatesCandidate : Bool} {timeoutMs : Nat}
      {invocation : Option JobInvocation} {jobId : Uuid} {s : TaskState} {db' : Db}
      (h : startJobRecord env id revision mutatesCandidate timeoutMs invocation jobId db =
        .ok (s, db'))
      (hd : ∀ s head, loadState db id = .ok (s, head) → draws s jobId) :
      Step draws db (some s) none db'
  | settleJob {env : Env} {id : TaskId} {jobId : Uuid} {status : JobStatus}
      {receipt : Option Digest} {s : TaskState} {db' : Db}
      (h : settleJobRecord env id jobId status receipt db = .ok (s, db')) :
      Step draws db (some s) none db'
  | fenceJob {env : Env} {id : TaskId} {jobId : Uuid} {receipt : Digest} {s : TaskState} {db' : Db}
      (h : fenceJob env id jobId receipt db = .ok (s, db')) : Step draws db (some s) none db'
  | recordFinding {env : Env} {id : TaskId} {revision : Nat} {finding : Finding} {s : TaskState}
      {db' : Db} (h : recordFinding env id revision finding db = .ok (s, db')) :
      Step draws db (some s) none db'
  | recordEffect {env : Env} {id : TaskId} {revision : Nat} {effect : Effect} {s : TaskState}
      {db' : Db} (h : recordEffect env id revision effect db = .ok (s, db')) :
      Step draws db (some s) none db'
  | recordModelCall {env : Env} {id : TaskId} {operation : Uuid} {receipt : ModelCallReceipt}
      {s : TaskState} {db' : Db} (h : recordModelCall env id operation receipt db = .ok (s, db')) :
      Step draws db (some s) none db'
  | accountUsage {env : Env} {id : TaskId} {operation : Uuid} {usage : Option Usage}
      {s : TaskState} {db' : Db} (h : accountUsage env id operation usage db = .ok (s, db')) :
      Step draws db (some s) none db'
  | recordDelivery {env : Env} {id : TaskId} {revision : Nat} {delivery : Delivery} {s : TaskState}
      {db' : Db} (h : recordDelivery env id revision delivery db = .ok (s, db')) :
      Step draws db (some s) none db'
  | complete {env : Env} {id : TaskId} {revision : Nat} {s : TaskState} {db' : Db}
      (h : complete env id revision db = .ok (s, db')) : Step draws db (some s) none db'
  | stop {env : Env} {id : TaskId} {revision : Nat} {outcome : Outcome} {reason : String}
      {s : TaskState} {db' : Db} (h : stop env id revision outcome reason db = .ok (s, db')) :
      Step draws db (some s) none db'
  | reopen {env : Env} {id : TaskId} {revision : Nat} {reason : String} {s : TaskState} {db' : Db}
      (h : reopen env id revision reason db = .ok (s, db')) : Step draws db (some s) none db'
  | interruptTask {env : Env} {id : TaskId} {s : TaskState} {db' : Db}
      (h : interruptTask env id db = .ok (s, db')) : Step draws db (some s) none db'
  | sessionCommand {env : Env} {id : SessionId} {revision : Nat} {operation : Uuid}
      {command : SessionCommand ContextView} {s : SessionState} {db' : Db}
      (h : sessionCommand env id revision operation command db = .ok (s, db')) :
      Step draws db none (some s) db'
  | createSession {env : Env} {id : SessionId} {config : SessionConfig}
      {admission : SessionAdmissionProfile} {parent : Option SessionCursor}
      {seed : Option (ImportedSource × List Value)} {freshContext : Bool} {s : SessionState} {db' : Db}
      (h : createSessionSeeded env id config admission parent seed freshContext db = .ok (s, db')) :
      Step draws db none (some s) db'
  | startTask {env : Env} {sessionId : SessionId} {operation : Uuid} {contract : Contract}
      {id : TaskId} {session : SessionState} {task : TaskState} {fresh : Bool} {db' : Db}
      (h : startTask env sessionId operation contract id db = .ok (session, task, fresh, db')) :
      Step draws db (some task) (some session) db'
  | startRequest {env : Env} {sessionId : SessionId} {operation : Uuid} {request : String}
      {limits : Limits} {intake : Digest} {id : TaskId} {session : SessionState} {task : TaskState}
      {fresh : Bool} {db' : Db}
      (h : startRequest env sessionId operation request limits intake id db =
        .ok (session, task, fresh, db')) : Step draws db (some task) (some session) db'
  | startPreparedRequest {env : Env} {sessionId : SessionId} {operation : Uuid}
      {input : PreparedInput} {limits : Limits} {intake : Digest} {id : TaskId}
      {session : SessionState} {task : TaskState} {fresh : Bool} {db' : Db}
      (h : startPreparedRequest env sessionId operation input limits intake id db =
        .ok (session, task, fresh, db')) : Step draws db (some task) (some session) db'
  | resumeTask {env : Env} {sessionId : SessionId} {operation : Uuid} {id : TaskId} {revision : Nat}
      {reason : String} {session : SessionState} {task : TaskState} {fresh : Bool} {db' : Db}
      (h : resumeTask env sessionId operation id revision reason db =
        .ok (session, task, fresh, db')) : Step draws db (some task) (some session) db'
  | editSubmission {env : Env} {sessionId : SessionId} {operation request : Uuid}
      {expectedInput : Digest} {input : Option Digest} {submission : Submission}
      {session : SessionState} {task : Option TaskState} {db' : Db}
      (h : editSubmission env sessionId operation request expectedInput input db =
        .ok (submission, session, task, db')) : Step draws db task (some session) db'
  | submit {env : Env} {sessionId : SessionId} {id : Uuid} {input : Digest} {intent : WorkIntent}
      {submission : Submission} {session : SessionState} {task : Option TaskState} {db' : Db}
      (h : submit env sessionId id input intent db = .ok (submission, session, task, db')) :
      Step draws db task (some session) db'
  | continueSubmission {env : Env} {sessionId : SessionId} {request : Uuid} {session : SessionState}
      {task : TaskState} {fresh : Bool} {db' : Db}
      (h : continueSubmission env sessionId request db = .ok (session, task, fresh, db')) :
      Step draws db (some task) (some session) db'
  | beginShell {env : Env} {sessionId : SessionId} {request : Uuid} {job : ManualJob}
      {session : SessionState} {task : Option TaskState} {db' : Db}
      (h : beginShell env sessionId request job db = .ok (session, task, db'))
      (hd : ∀ id s head, job.task = some id → loadState db id = .ok (s, head) → draws s job.job) :
      Step draws db task (some session) db'
  | finishShell {env : Env} {sessionId : SessionId} {request : Uuid} {report : ShellReport}
      {digest : Digest} {session : SessionState} {task : Option TaskState} {db' : Db}
      (h : finishShell env sessionId request report db = .ok (digest, session, task, db')) :
      Step draws db task (some session) db'

variable {draws : TaskState → Uuid → Prop} {db db' : Db} {w w' : World}

/-- what every transaction establishes -/
structure Sound (draws : TaskState → Uuid → Prop) (db : Db) (w : World) (task : Option TaskState)
    (session : Option SessionState) (db' : Db) : Prop where
  represents : Represents db' (w.write task session)
  moves : ∀ s, task = some s → Moves draws (w.tasks s.id) s
  grows : Lengthens db db'
  opens : ∀ s, session = some s → Opens w s

theorem TaskMoved.sound (h : TaskMoved draws db db' w s) : Sound draws db w (some s) none db' :=
  ⟨h.represents, fun t ht => by cases ht; exact h.moves, h.grows, fun _ h => (nomatch h)⟩

theorem RequestMoved.sound {task : Option TaskState} {s : SessionState}
    (h : RequestMoved draws db db' w task s) : Sound draws db w task (some s) db' :=
  ⟨h.represents, h.moves, h.grows, fun t ht => by cases ht; exact h.opens⟩

theorem SessionMoved.sound {s : SessionState} (h : SessionMoved db db' w s) :
    Sound draws db w none (some s) db' :=
  ⟨h.represents, fun _ h => (nomatch h), h.grows, fun t ht => by cases ht; exact h.opens⟩

/-- **Every transaction takes a represented world to the world it left.** -/
theorem Step.sound {task : Option TaskState} {session : Option SessionState}
    (h : Represents db w) (hs : Step draws db task session db') : Sound draws db w task session db' := by
  cases hs with
  | create hc => exact (create_moves h hc).sound
  | auditEvidence hc => exact (auditEvidence_moves h hc).sound
  | selectCandidate hc => exact (selectCandidate_moves h hc).sound
  | establishWorkspace hc => exact (establishWorkspace_moves h hc).sound
  | establishBaseline hc => exact (establishBaseline_moves h hc).sound
  | invalidateCandidate hc => exact (invalidateCandidate_moves h hc).sound
  | requestCancellation hc => exact (requestCancellation_moves h hc).sound
  | workspaceRestored hc => exact (workspaceRestored_moves h hc).sound
  | amendContract hc => exact (amendContract_moves h hc).sound
  | admitContract hc => exact (admitContract_moves h hc).sound
  | acceptAdditiveContract hc => exact (acceptAdditiveContract_moves h hc).sound
  | setPhase hc => exact (setPhase_moves h hc).sound
  | beginCheck hc hd => exact (beginCheck_moves h hc hd).sound
  | finishCheck hc => exact (finishCheck_moves h hc).sound
  | startJob hc hd => exact (startJobRecord_moves h hc hd).sound
  | settleJob hc => exact (settleJobRecord_moves h hc).sound
  | fenceJob hc => exact (fenceJob_moves h hc).sound
  | recordFinding hc => exact (recordFinding_moves h hc).sound
  | recordEffect hc => exact (recordEffect_moves h hc).sound
  | recordModelCall hc => exact (recordModelCall_moves h hc).sound
  | accountUsage hc => exact (accountUsage_moves h hc).sound
  | recordDelivery hc => exact (recordDelivery_moves h hc).sound
  | complete hc => exact (complete_moves h hc).sound
  | stop hc => exact (stop_moves h hc).sound
  | reopen hc => exact (reopen_moves h hc).sound
  | interruptTask hc => exact (interruptTask_moves h hc).sound
  | sessionCommand hc => exact (sessionCommand_represents h hc).1.sound
  | createSession hc => exact (createSessionSeeded_represents h hc).sound
  | startTask hc => exact (startTask_moves h hc).sound
  | startRequest hc => exact (startRequest_moves h hc).sound
  | startPreparedRequest hc => exact (startPreparedRequest_moves h hc).sound
  | resumeTask hc => exact (resumeTask_moves h hc).sound
  | editSubmission hc => exact (editSubmission_moves h hc).sound
  | submit hc => exact (submit_moves h hc).sound
  | continueSubmission hc => exact (continueSubmission_moves h hc).sound
  | beginShell hc hd => exact (beginShell_moves h hc hd).sound
  | finishShell hc => exact (finishShell_moves h hc).sound

/-! ## runs -/

/-- any number of transactions after a database and its world -/
inductive Run (draws : TaskState → Uuid → Prop) (db : Db) (w : World) : Db → World → Prop
  | refl : Run draws db w db w
  | step {db₁ db₂ : Db} {w₁ : World} {task : Option TaskState} {session : Option SessionState}
      (h : Run draws db w db₁ w₁) (hs : Step draws db₁ task session db₂) :
      Run draws db w db₂ (w₁.write task session)

/-- what a store that began empty has come to -/
def Reachable (draws : TaskState → Uuid → Prop) (db : Db) (w : World) : Prop :=
  Run draws Db.empty World.empty db w

theorem Run.trans {db₁ db₂ : Db} {w₁ w₂ : World} (h : Run draws db w db₁ w₁)
    (h' : Run draws db₁ w₁ db₂ w₂) : Run draws db w db₂ w₂ := by
  induction h' with
  | refl => exact h
  | step _ hs ih => exact ih.step hs

theorem Run.represents (h : Run draws db w db' w') (hr : Represents db w) : Represents db' w' := by
  induction h with
  | refl => exact hr
  | step _ hs ih => exact (Step.sound ih hs).represents

theorem Reachable.represents (h : Reachable draws db w) : Represents db w := Run.represents h represents_empty

theorem Run.lengthens (h : Run draws db w db' w') (hr : Represents db w) : Lengthens db db' := by
  induction h with
  | refl => exact .refl db
  | step hrun hone ih => exact ih.trans (Step.sound (hrun.represents hr) hone).grows

theorem World.write_tasks (w : World) (task : Option TaskState) (session : Option SessionState) :
    (w.write task session).tasks = (w.write task none).tasks := by
  cases session <;> rfl

theorem Sound.task {task : Option TaskState} {session : Option SessionState}
    (h : Sound draws db w task session db') {t : TaskState} (ht : (w.write task session).tasks id = some t)
    :
    w.tasks id = some t ∨ (id = t.id ∧ Moves draws (w.tasks id) t) := by
  rw [World.write_tasks] at ht
  cases task with
  | none => exact .inl ht
  | some s =>
    have hupd : Function.update w.tasks s.id (some s) id = some t := ht
    rw [Function.update_apply] at hupd
    split at hupd
    · rename_i he
      cases hupd
      subst he
      exact .inr ⟨rfl, h.moves t rfl⟩
    · exact .inl hupd

/-- **The rule for invariants of a task**: they hold of new tasks, and every commit keeps them. -/
theorem Reachable.task_invariant {P : TaskState → Prop} (hinit : ∀ s, Initial s → P s)
    (hstep : ∀ s events, P s → Commit draws s events → P (events.foldl TaskState.apply s))
    (h : Reachable draws db w) (hs : w.tasks id = some s) : P s := by
  unfold Reachable at h
  induction h generalizing id s with
  | refl => cases hs
  | step hrun hone ih =>
    rcases (Step.sound (Reachable.represents hrun) hone).task hs with hold | ⟨-, hmoves⟩
    · exact ih hold
    · generalize hbefore : World.tasks _ id = before at hmoves
      cases before with
      | none => exact hinit s hmoves
      | some t =>
        obtain ⟨events, hcommit, rfl⟩ := hmoves
        exact hstep t events (ih hbefore) hcommit

/-! ## event by event -/

theorem apply_generation (s : TaskState) (e : TaskEvent) : s.generation ≤ (s.apply e).generation := by
  cases e with
  | modelCallRecorded operation receipt =>
    simp only [TaskState.apply, TaskState.update]
    split
    · exact Nat.le_succ _
    · exact Nat.le_refl _
  | usageCharged operation usage =>
    simp only [TaskState.apply, TaskState.update]
    split
    · exact Nat.le_succ _
    · exact Nat.le_refl _
  | _ => first | exact Nat.le_refl _ | exact Nat.le_succ _

/-- an event of a commit, in the state it is appended to; the end of a command of the user has
three kinds that no operation appends alone -/
inductive Appends (draws : TaskState → Uuid → Prop) (s : TaskState) : TaskEvent → Prop
  | allowed {e : TaskEvent} (h : Allowed draws s e) : Appends draws s e
  | adopted (candidate : Candidate) (origin : Digest) : Appends draws s (.manualWorkspace candidate origin)
  | recorded (request : Uuid) (status : EffectStatus) :
      Appends draws s (.effectRecorded (adoption request status))
  | blocked (reason : String) : Appends draws s (.stopped .blocked reason)

section
variable {R : TaskState → TaskState → Prop} (hrefl : ∀ s, R s s)
  (htrans : ∀ {a b c}, R a b → R b c → R a c)
  (hstep : ∀ {s e}, Appends draws s e → R s (s.apply e))
include hrefl htrans hstep

theorem Commit.relation {s : TaskState} {events : List TaskEvent} (h : Commit draws s events) :
    R s (events.foldl TaskState.apply s) := by
  cases h with
  | none => exact hrefl s
  | one he => exact hstep (.allowed he)
  | two he he' _ => exact htrans (hstep (.allowed he)) (hstep (.allowed he'))
  | @shell job request status receipt j adopted effect reason hjob hrun hstatus =>
    have hadopt : ∀ t, R t ((adopted.map fun a => TaskEvent.manualWorkspace a.1 a.2).foldl
        TaskState.apply t) := by
      induction adopted with
      | nil => exact hrefl
      | cons a adopted ih => exact fun t => htrans (hstep (.adopted a.1 a.2)) (ih _)
    have hsettled : Allowed draws s (.jobSettled job status receipt) :=
      ⟨⟨j, hjob, by rw [hrun]; rfl⟩, hstatus⟩
    rw [List.foldl_append, List.foldl_append]
    exact htrans (htrans (hstep (.allowed hsettled)) (hadopt _))
      (htrans (hstep (.recorded request effect)) (hstep (.blocked reason)))

/-- **The rule for the course of a task**: what every event does, a run does. -/
theorem Run.task_relation (h : Run draws db w db' w') (hr : Represents db w) {id : TaskId}
    {s : TaskState} (hs : w.tasks id = some s) : ∃ t, w'.tasks id = some t ∧ R s t := by
  induction h with
  | refl => exact ⟨s, hs, hrefl s⟩
  | @step db₁ db₂ w₁ task session hrun hone ih =>
    obtain ⟨t, ht, hrel⟩ := ih
    have hsound := Step.sound (hrun.represents hr) hone
    cases task with
    | none => exact ⟨t, by rw [World.write_tasks]; exact ht, hrel⟩
    | some u =>
      have hmoves := hsound.moves u rfl
      by_cases he : id = u.id
      · subst he
        refine ⟨u, by rw [World.write_tasks]; exact World.setTask_get w₁ u, ?_⟩
        rw [ht] at hmoves
        obtain ⟨events, hcommit, rfl⟩ := hmoves
        exact htrans hrel (hcommit.relation hrefl htrans hstep)
      · refine ⟨t, ?_, hrel⟩
        rw [World.write_tasks]
        show Function.update w₁.tasks u.id (some u) id = some t
        rw [Function.update_of_ne he, ht]

end

/-- **The rule for invariants, event by event.** -/
theorem Reachable.event_invariant {P : TaskState → Prop} (hinit : ∀ s, Initial s → P s)
    (hstep : ∀ {s e}, Appends draws s e → P s → P (s.apply e)) (h : Reachable draws db w)
    (hs : w.tasks id = some s) : P s :=
  h.task_invariant hinit (fun _ _ hp hcommit => hcommit.relation (R := fun s t => P s → P t)
    (fun _ hp => hp) (fun h h' hp => h' (h hp)) hstep hp) hs

/-! ## replay -/

/-- reading a task returns `s`, and so does replaying its journal from the beginning and from every
checkpoint -/
structure TaskReplays (db : Db) (id : TaskId) (s : TaskState) : Prop where
  loads : ∃ head, loadState db id = .ok (s, head)
  replays : ∃ a, db.tasks.get id = some a ∧
    (taskFormat id).replay Journal.start a.events = .ok ⟨some s, some a.head, a.revision⟩ ∧
    ∀ c ∈ a.checkpoints, ∃ t, c.state.read = .ok t ∧
      (taskFormat id).replay ⟨some t, some c.head, c.revision⟩
        (a.events.filter fun r => c.revision < r.revision) = .ok ⟨some s, some a.head, a.revision⟩

/-- the same for a session -/
structure SessionReplays (db : Db) (id : SessionId) (s : SessionState) : Prop where
  loads : ∃ head, loadSessionState db id none = .ok (s, head)
  replays : ∃ a, db.sessions.get id = some a ∧
    (sessionFormat id).replay Journal.start a.events = .ok ⟨some s, some a.head, a.revision⟩ ∧
    ∀ c ∈ a.checkpoints, ∃ t, c.state.value = .ok t ∧
      (sessionFormat id).replay ⟨some t, some c.head, c.revision⟩
        (a.events.filter fun r => c.revision < r.revision) = .ok ⟨some s, some a.head, a.revision⟩

theorem Represents.task_replays (h : Represents db w) (hs : w.tasks id = some s) : TaskReplays db id s := by
  obtain ⟨a, ha, hholds⟩ := h.task_row hs
  refine ⟨h.loadState hs, a, ha, by rw [hholds.length]; exact hholds.events, fun c hc => ?_⟩
  obtain ⟨t, hdoc, -, -, hresume⟩ := hholds.resume hc
  refine ⟨t, by rw [hdoc]; rfl, ?_⟩
  rw [hholds.events.after, hholds.length]
  exact hresume

theorem Represents.session_replays (h : Represents db w) {id : SessionId} {s : SessionState}
    (hs : w.sessions id = some s) : SessionReplays db id s := by
  obtain ⟨a, ha, hholds⟩ := h.session_row hs
  refine ⟨h.loadSession hs, a, ha, by rw [hholds.length]; exact hholds.events, fun c hc => ?_⟩
  obtain ⟨t, hdoc, -, hgood, hresume⟩ := hholds.resume hc
  refine ⟨t, ?_, ?_⟩
  · rw [hdoc]
    show Except.ok t.reread = _
    rw [hgood.2.reread]
  · rw [hholds.events.after, hholds.length]
    exact hresume

/-- **Replay refines the write path**: after every run, each task and each session is read back in
the state that the last operation on it left, from the cache, from the first event and from every
checkpoint. -/
theorem replay_refines (h : Reachable draws db w) :
    (∀ id s, w.tasks id = some s → TaskReplays db id s) ∧
    (∀ id s, w.sessions id = some s → SessionReplays db id s) :=
  ⟨fun _ _ hs => h.represents.task_replays hs, fun _ _ hs => h.represents.session_replays hs⟩

end

/-! ## a task and a session of the example store -/

namespace Sample
variable {draws : TaskState → Uuid → Prop} {db : Db} {w : World}
variable {s : SessionState} {operation : Uuid} {c : SessionCommand ContextView}

def taskId : TaskId := ⟨⟨1⟩⟩
def sessionId : SessionId := ⟨⟨2⟩⟩

def check : CheckDefinition where
  purpose := "it builds"
  kind := .build
  verifier := ⟨0⟩
  command := ["make"]
  timeoutMs := 1
  minimumAssertions := 0
  control := .none
  controlSource := none
  baseline := .mustPass
  flake := .rejectAnyFailure

def contract : Contract where
  request := "build"
  outcome := "a build"
  scope := "all"
  requirements := [⟨"r", "it builds", .user "request", ["c"], []⟩]
  checks := .ofList [("c", check)]
  protectedBehavior := []
  assumptions := []
  openQuestions := []
  delivery := .source
  limits := Limits.default

theorem contract_validate : contract.validate = .ok () := by decide +kernel

def begun : TaskState := TaskState.created taskId contract 0

theorem reachable_begun (h : Reachable draws db w) (hfree : db.tasks.get taskId = none) :
    ∃ db', Reachable draws db' (w.setTask begun) ∧ db'.leases = db.leases := by
  have hc : ∃ db', Orvek.create env taskId contract db = .ok (begun, db') ∧
      db'.leases = db.leases := by
    have hins : Table.insert db.tasks taskId = fun a => some (db.tasks ++ [(taskId, a)]) := by
      funext a
      rw [Table.insert, hfree]
      rfl
    refine ⟨{ db with tasks := db.tasks ++ [(taskId, Orvek.created
      (TaskEvent.created contract 0).document begun.document
      (aggregateHash "task" taskId.uuid 1 none []))] }, ?_, rfl⟩
    rw [Orvek.create, contract_validate]
    show (createTask env taskId (.created contract 0) begun db >>= _) = _
    rw [createTask, hins]
    rfl
  obtain ⟨db', hc, hleases⟩ := hc
  exact ⟨db', Run.step h (.create hc), hleases⟩

def config : SessionConfig := ⟨"/workspace", ModelSettings.default, "", 272000⟩

def profile : SessionAdmissionProfile where
  version := 1
  request := ⟨"/workspace", ModelSettings.default, 272000, .stable⟩
  binding := ⟨⟨⟨0⟩, ⟨0⟩, ⟨0⟩, ⟨0⟩, .stable⟩, ⟨0⟩, ⟨0⟩, ⟨0⟩, ⟨0⟩⟩
  provenance := .registered
  authority := ⟨0⟩
  requestDigest := ⟨0⟩
  revisionManifest := []
  behaviorInstructions := ""

def creation : SessionCreation where
  branch := SessionBranch.default
  config := config
  admission := some profile
  parent := none
  history := []
  startedMs := 0
  imported := none

def opened : SessionState := SessionState.create sessionId creation

theorem opens : ∃ db, createSessionSeeded env sessionId config profile none none false Db.empty =
    .ok (opened, db) ∧ db.tasks = [] ∧ db.leases = [] ∧ db.sessions.map Prod.fst = [sessionId] :=
  ⟨_, rfl, rfl, rfl, rfl⟩

theorem reachable_opened : ∃ db, Reachable draws db (World.empty.setSession opened) ∧
    db.tasks = [] ∧ db.leases = [] ∧ db.sessions.map Prod.fst = [sessionId] := by
  obtain ⟨db, hc, ht, hl, hk⟩ := opens
  exact ⟨db, Run.step .refl (.createSession hc), ht, hl, hk⟩

theorem pendingSubmissions_one (h : Represents db w) (hkeys : db.sessions.map Prod.fst = [sessionId])
    (hs : w.sessions sessionId = some s) : pendingSubmissions db = .ok (pendingOf s).length := by
  obtain ⟨head, hload⟩ := h.loadSession hs
  obtain ⟨row, hrow, hkey⟩ := List.map_eq_singleton_iff.mp hkeys
  rw [pendingSubmissions, hrow]
  show (loadSessionState db row.1 none >>= _) >>= _ = _
  rw [hkey, hload]
  show Except.ok (0 + (pendingOf s).length) = _
  rw [Nat.zero_add]

/-! ### its first request -/

def firstRequest : Uuid := ⟨7⟩

def after (s : SessionState) (operation : Uuid) (c : SessionCommand ContextView) : SessionState :=
  match s.apply operation c with
  | .ok t => t
  | .error _ => s

def asked : SessionState := after opened firstRequest (.input .task [userItem contract.request])

def linked : SessionState :=
  after asked (firstRequest.named "task-link") (.taskLinked firstRequest taskId)

theorem commandFits {atMs : Nat} (h : s.revision + 1 < 2 ^ 63) :
    CommandFits s operation c atMs := ⟨Nat.zero_le _, h⟩

theorem commands (h : Represents db w) {s' : SessionState} {head : Digest} (hs : SessionLoaded db w s head)
    (clock : Nat → Nat) (hap : s.apply operation c = .ok s') (hr : s.revision + 1 < 2 ^ 63)
    (howned : c.ownedBy s) :
    ∃ hash db', appendSessionCommand s head operation c clock db = .ok (s', hash, db') ∧
      db'.tasks = db.tasks ∧ db'.sessions.map Prod.fst = db.sessions.map Prod.fst ∧
      Represents db' (w.setSession s') ∧ SessionLoaded db' (w.setSession s') s' hash := by
  obtain ⟨hash, db', happ, htasks, -, hkeys⟩ := hs.appends h _ hap (commandFits hr)
  have happended := hs.append h happ howned
  exact ⟨hash, db', happ, htasks, hkeys, happended.represents, World.setSession_get w s',
    happended.head⟩

theorem links (e : Env) (h : Represents db w) {t u : SessionState} {head : Digest}
    (hs : SessionLoaded db w s head) {content : List Value} {task : TaskId}
    (hone : s.apply operation (.input .task content) = .ok t)
    (htwo : t.apply (operation.named "task-link") (.taskLinked operation task) = .ok u)
    (hr : s.revision + 2 < 2 ^ 63) :
    ∃ db', linkTask e s head operation content task db = .ok (u, db') ∧ db'.tasks = db.tasks ∧
      db'.sessions.map Prod.fst = db.sessions.map Prod.fst := by
  have hrev := (apply_keeps hone).2.1
  obtain ⟨g, db₁, happ, htasks, hkeys, hrep, hloaded⟩ :=
    commands h hs (e.appendClock 0) hone (by omega) trivial
  obtain ⟨k, db₂, happ', htasks', hkeys', -⟩ :=
    commands hrep hloaded (e.appendClock 1) htwo (by omega) trivial
  refine ⟨db₂, ?_, htasks'.trans htasks, hkeys'.trans hkeys⟩
  rw [linkTask, happ, ok_bind]
  simp only
  rw [happ', ok_bind]

theorem creates (hfree : db.tasks = []) :
    ∃ db', createTask env taskId (.created contract 0) begun db = .ok db' := by
  refine ⟨{ db with tasks := [(taskId, Orvek.created (TaskEvent.created contract 0).document
    begun.document (aggregateHash "task" taskId.uuid 1 none []))] }, ?_⟩
  rw [createTask, hfree]
  rfl

def firstStart : StartRequest := ⟨contract.request, contract.limits, some contract, none, none⟩

theorem startsAt (h : Represents db w) {t u : SessionState} (hs : w.sessions sessionId = some s)
    (hfree : db.tasks = []) (hnew : s.tasksByRequest[firstRequest]? = none)
    (hadmits : admitStart s firstRequest firstStart = .ok ())
    (hone : s.apply firstRequest (.input .task [userItem contract.request]) = .ok t)
    (htwo : t.apply (firstRequest.named "task-link") (.taskLinked firstRequest taskId) = .ok u)
    (hr : s.revision + 2 < 2 ^ 63) :
    ∃ db', startTask env sessionId firstRequest contract taskId db = .ok (u, begun, true, db') ∧
      db'.sessions.map Prod.fst = db.sessions.map Prod.fst := by
  obtain ⟨head, hload⟩ := h.loadSession hs
  obtain ⟨db₁, hcreate⟩ := creates hfree
  have hread : taskCreate taskId (TaskEvent.created contract 0).document = .ok begun := by
    rw [taskCreate, show (TaskEvent.created contract 0).document.read = .ok (.created contract 0) from rfl,
      ok_bind]
    simp only
    rw [contract_validate]
    rfl
  have hpart : TaskPart (fun _ _ => True) db w (some begun) db₁ :=
    TaskPart.created h hcreate hread rfl rfl (.created taskId contract 0)
  have hloaded := (SessionLoaded.of_load h hload).1.after hpart
  obtain ⟨db₂, hlink, -, hkeys⟩ := links env hpart.represents hloaded hone htwo hr
  refine ⟨db₂, ?_, by rw [hkeys, hpart.sessions]⟩
  rw [startTask, contract_validate]
  show startRecord env sessionId firstRequest firstStart taskId db = _
  rw [startRecord, hload, ok_bind]
  simp only
  rw [hnew]
  simp only
  rw [hadmits, ok_bind]
  show (createTask env taskId (.created contract 0) begun db >>= _) = _
  rw [hcreate, ok_bind, show StartRequest.content _ = [userItem contract.request] from rfl, hlink]
  rfl

theorem starts (h : Represents db w) (hs : w.sessions sessionId = some opened) (hfree : db.tasks = []) :
    ∃ db', startTask env sessionId firstRequest contract taskId db = .ok (linked, begun, true, db') ∧
      db'.sessions.map Prod.fst = db.sessions.map Prod.fst :=
  startsAt h hs hfree rfl rfl
    (show opened.apply firstRequest (.input .task [userItem contract.request]) = .ok asked from rfl)
    (show asked.apply (firstRequest.named "task-link") (.taskLinked firstRequest taskId) =
      .ok linked from rfl) (by decide)

theorem reachable_linked : ∃ db w, Reachable draws db w ∧ w.sessions sessionId = some linked ∧
    w.tasks taskId = some begun ∧ db.sessions.map Prod.fst = [sessionId] := by
  obtain ⟨db, hr, ht, -, hkeys⟩ := @reachable_opened draws
  obtain ⟨db₁, hstart, hkeys₁⟩ := starts hr.represents (World.setSession_get World.empty opened) ht
  exact ⟨db₁, _, Run.step hr (.startTask hstart), World.setSession_get _ linked,
    World.setTask_get (World.empty.setSession opened) begun, hkeys₁.trans hkeys⟩

/-! ### an ordinary request in its queue -/

def typing : Env := { env with
  input := fun d => .ok ⟨"build", d, [userItem "build"]⟩
  messages := fun _ => .ok [userItem "build"] }

def ordinaryId : Uuid := ⟨10⟩

def ordinaryIntent : WorkIntent := .ordinary Limits.default ⟨0⟩ .queue

def ordinary : Submission where
  manualJob := none
  id := ordinaryId
  input := ⟨0⟩
  initialInput := ⟨0⟩
  records := []
  result := none
  intent := ordinaryIntent
  status := .queued
  submittedRevision := 2
  submittedMs := 0

def waiting : SessionState := after opened (ordinaryId.named "submitted") (.submitted ordinary)

/-- the identifier that is drawn for the claim -/
def claimId : Uuid := ⟨11⟩

def claimed : SessionState := after waiting claimId (.submissionChanged ordinaryId .running)

/-- the request with its classification under way -/
def classifying : SessionState := after claimed ordinaryId .auxiliaryStarted

theorem submits (h : Represents db w) (hkeys : db.sessions.map Prod.fst = [sessionId])
    (hs : w.sessions sessionId = some opened) :
    ∃ db', submit typing sessionId ordinaryId ⟨0⟩ ordinaryIntent db = .ok (ordinary, waiting, none, db') ∧
      db'.tasks = db.tasks ∧ db'.sessions.map Prod.fst = db.sessions.map Prod.fst := by
  obtain ⟨head, hload⟩ := h.loadSession hs
  have hap : opened.apply (ordinaryId.named "submitted") (.submitted ordinary) = .ok waiting := rfl
  obtain ⟨hash, db', happ, htasks, hsame, -⟩ := commands h (SessionLoaded.of_load h hload).1
    (typing.appendClock 0) hap (by decide) trivial
  refine ⟨db', ?_, htasks, hsame⟩
  have hcapacity : admitCapacity opened ordinaryId db = .ok () := by
    rw [admitCapacity, if_neg (by decide), pendingSubmissions_one h hkeys hs]
    rfl
  rw [submit, hload, ok_bind]
  simp only [hcapacity, ok_bind]
  show ((appendSessionCommand opened head (ordinaryId.named "submitted") (.submitted ordinary)
    (typing.appendClock 0) db) >>= _) = _
  rw [happ]
  rfl

theorem issues (h : Represents db w) {s' : SessionState} (hs : w.sessions sessionId = some s)
    (hap : s.apply operation c = .ok s') (hr : s.revision + 1 < 2 ^ 63) (howned : c.ownedBy s)
    (hnew : s.operations[operation]? = none)
    (hanswers : (c.answers.any fun request => s.activeRequest != some request) = false)
    (hadmitted : admitCommand env s db c = .ok ()) :
    ∃ db', sessionCommand env sessionId s.revision operation c db = .ok (s', db') ∧
      db'.tasks = db.tasks ∧ db'.sessions.map Prod.fst = db.sessions.map Prod.fst := by
  obtain ⟨head, hload⟩ := h.loadSession hs
  obtain ⟨hash, db', happ, htasks, hkeys, -⟩ := commands h (SessionLoaded.of_load h hload).1
    (env.appendClock 0) hap hr howned
  exact ⟨db', sessionCommand_new hload hnew hanswers hadmitted happ, htasks, hkeys⟩

theorem reachable_claimed : ∃ db w, Reachable draws db w ∧ w.sessions sessionId = some claimed ∧
    db.tasks = [] := by
  obtain ⟨db, hr, ht, -, hkeys⟩ := @reachable_opened draws
  obtain ⟨db₁, hsubmit, ht₁, -⟩ := submits hr.represents hkeys (World.setSession_get World.empty opened)
  have hr₁ : Reachable draws db₁ ((World.empty.setSession opened).setSession waiting) :=
    Run.step hr (.submit hsubmit)
  obtain ⟨db₂, hclaim, ht₂, -⟩ := issues hr₁.represents (World.setSession_get _ waiting)
    (show waiting.apply claimId (.submissionChanged ordinaryId .running) = .ok claimed from rfl)
    (by decide) trivial (by decide) rfl rfl
  exact ⟨db₂, _, Run.step hr₁ (.sessionCommand hclaim), World.setSession_get _ claimed,
    ht₂.trans (ht₁.trans ht)⟩

theorem classifies (h : Represents db w) (hs : w.sessions sessionId = some claimed) :
    ∃ db', sessionCommand env sessionId 3 ordinaryId .auxiliaryStarted db = .ok (classifying, db') ∧
      db'.tasks = db.tasks ∧ db'.sessions.map Prod.fst = db.sessions.map Prod.fst := by
  obtain ⟨db', hc, htasks, hkeys⟩ := issues h hs
    (show claimed.apply ordinaryId .auxiliaryStarted = .ok classifying from rfl) (by decide)
    trivial (by decide) rfl rfl
  exact ⟨db', hc, htasks, hkeys⟩

/-! ### its task with a check under way, and with the evidence of it -/

def candidate : Candidate := ⟨⟨0⟩, ⟨0⟩, ⟨0⟩, true, none⟩

def selected : TaskState := begun.apply (.candidateSelected candidate)

def job : Uuid := ⟨3⟩
def token : Uuid := ⟨4⟩
def lease : VerificationLease := ⟨taskId, job, token.display⟩

def checkBegun : TaskState :=
  selected.apply (.jobStarted (checkJob selected contract candidate "c" check job 0))

def observation : Observation where
  status := .passed
  report := ⟨0⟩
  assertions := 0
  discovered := none
  skipped := 0
  exitCode := some 0
  signal := none
  control := none
  baselineUnchanged := false
  limitations := []
  unreconciledJobs := []

def evidence : Evidence where
  jobId := job
  generation := 2
  check := "c"
  identity := identityOf contract candidate check
  startedMs := 0
  finishedMs := 0
  observation := observation

def checked : TaskState := checkBegun.apply (.observed evidence)

theorem reachable_selected : ∃ db w, Reachable draws db w ∧ w.tasks taskId = some selected ∧
    db.leases = [] := by
  obtain ⟨db, hr, hleases⟩ := @reachable_begun draws _ _ .refl rfl
  have hc : ∃ db', selectCandidate env taskId 1 candidate db = .ok (selected, db') ∧
      db'.leases = db.leases ∧ _ :=
    hr.represents.changes (World.setTask_get _ begun) rfl (by decide) rfl (fits _ _ (by decide))
  obtain ⟨db', hc, hleases', -⟩ := hc
  exact ⟨db', _, Run.step hr (.selectCandidate hc), World.setTask_get _ selected, hleases'.trans hleases⟩

theorem begins (h : Represents db w) (hs : w.tasks taskId = some selected) (hl : db.leases = []) :
    ∃ db', beginCheck env taskId 2 "c" token job db = .ok (lease, checkBegun, db') ∧
      db'.leases = [((taskId, job), Digest.ofStr token.display)] := by
  have hc : ∃ db', change env taskId (some 2) false
      (beginCheckOperation env taskId "c" token job db.leases) db = .ok (checkBegun, db') ∧ _ :=
    h.changes hs rfl (by decide) (by rw [hl]; rfl) (fits _ _ (by decide))
  obtain ⟨db', hc, hleases, -⟩ := hc
  refine ⟨db', ?_, hleases⟩
  rw [beginCheck, hc]
  rfl

theorem finishes (h : Represents db w) (hs : w.tasks taskId = some checkBegun)
    (hl : db.leases = [((taskId, job), Digest.ofStr token.display)]) :
    ∃ db', finishCheck env lease observation db = .ok (checked, db') := by
  have hc : ∃ db', finishCheck env lease observation db = .ok (checked, db') ∧ _ :=
    h.changes hs rfl (by decide) (by rw [hl]; rfl) (fits _ _ (by decide))
  obtain ⟨db', hc, -⟩ := hc
  exact ⟨db', hc⟩

end Sample

open Sample in
theorem replay_refines_begun : ∃ db, TaskReplays db taskId (begun.apply (.phaseChanged .baseline)) ∧
    SessionReplays db sessionId opened := by
  obtain ⟨db, hr, ht, -⟩ := @reachable_opened fun _ _ => True
  obtain ⟨db₁, hr₁, -⟩ := reachable_begun hr (by rw [ht]; rfl)
  have hphase : ∃ db₂, setPhase Sample.env taskId 1 .baseline db₁ =
      .ok (begun.apply (.phaseChanged .baseline), db₂) ∧ _ :=
    hr₁.represents.changes (World.setTask_get _ begun) rfl (by decide) rfl (fits _ _ (by decide))
  obtain ⟨db₂, hphase, -⟩ := hphase
  obtain ⟨htasks, hsessions⟩ := replay_refines (Run.step hr₁ (.setPhase hphase))
  exact ⟨db₂, htasks _ _ (World.setTask_get ((World.empty.setSession opened).setTask begun) _),
    hsessions _ _ (World.setSession_get World.empty opened)⟩

end Orvek
