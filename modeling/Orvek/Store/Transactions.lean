import Orvek.Store.Commits

/-!
# Transactions on a session and its task

A transaction may append several events to a task and then several commands to a session.  What it
has done to the task so far is a `TaskPart`, which leaves every session as it was, and the whole
is a `RequestMoved`:

* `Appended.first`, `Appended.next`   one event of a task after another;
* `SessionLoaded.append`              the commands that follow;
* `startRecord_moves` and so on       what every request establishes.
-/

set_option linter.unusedSectionVars false

namespace Orvek
open Checks Completion Json

/-- a world after a transaction that left these states -/
def World.write (w : World) (task : Option TaskState) (session : Option SessionState) : World :=
  session.elim (task.elim w w.setTask) (task.elim w w.setTask).setSession

section
variable [Sha256] [ContractCodec] [SessionCodec] [StoreCodec] [JsonReader]
variable {db db' : Db} {w : World} {env : Env} {draws : TaskState → Uuid → Prop}
variable {task : Option TaskState} {s s' session : SessionState} {id : TaskId} {head input : Digest}
  {e : TaskEvent} {revision : Nat} {operation request : Uuid} {c : SessionCommand ContextView}
  {sessionId : SessionId} {fresh : Bool} {intent : WorkIntent} {report : ShellReport}

/-! ## the task in a transaction -/

/-- what a transaction has done to a task so far; the sessions are as they were -/
structure TaskPart (draws : TaskState → Uuid → Prop) (db : Db) (w : World) (task : Option TaskState)
    (db' : Db) : Prop where
  represents : Represents db' (w.write task none)
  moves : ∀ s, task = some s → Moves draws (w.tasks s.id) s
  sessions : db'.sessions = db.sessions
  grows : Lengthens db db'

theorem TaskPart.none (h : Represents db w) : TaskPart draws db w none db :=
  ⟨h, fun _ h => (nomatch h), rfl, .refl db⟩

theorem TaskPart.moved {task : TaskState} (h : TaskPart draws db w (some task) db') :
    TaskMoved draws db db' w task := ⟨h.represents, h.moves task rfl, h.sessions, h.grows⟩

/-- the events that a transaction has appended to a task it loaded -/
structure Appended (db : Db) (w : World) (s : TaskState) (events : List TaskEvent) (t : TaskState)
    (db' : Db) : Prop where
  loaded : w.tasks s.id = some s
  state : t = events.foldl TaskState.apply s
  id : t.id = s.id
  represents : Represents db' (w.setTask t)
  sessions : db'.sessions = db.sessions
  grows : Lengthens db db'

theorem Appended.part {s t : TaskState} {events : List TaskEvent} (h : Appended db w s events t db')
    (hc : Commit draws s events) : TaskPart draws db w (some t) db' := by
  refine ⟨h.represents, fun u hu => ?_, h.sessions, h.grows⟩
  cases hu
  rw [h.id, h.loaded]
  exact ⟨events, hc, h.state⟩

theorem Appended.reset (h : Represents db w) {s r s' : TaskState} (hl : loadState db id = .ok (s, head))
    (hid : r.id = s.id) (heq : r.apply e = s.apply e)
    (happ : appendTaskEvent env r head e db = .ok (s', db')) (he : e.isCreation = false) :
    Appended db w s [e] s' db' := by
  obtain ⟨hs, rfl, hhead⟩ := h.of_loadState hl
  rw [← hid] at hhead
  obtain ⟨rfl, hid', hr, hgrows⟩ := h.appendTask happ (by rw [hid]; exact hs) hhead heq he
  exact ⟨hs, rfl, hid'.trans hid, hr, appendTaskEvent_sessions happ, hgrows⟩

theorem Appended.first (h : Represents db w) {id : TaskId} {s s' : TaskState} {head : Digest}
    {e : TaskEvent} (hl : loadState db id = .ok (s, head))
    (happ : appendTaskEvent env s head e db = .ok (s', db')) (he : e.isCreation = false) :
    Appended db w s [e] s' db' := Appended.reset h hl rfl rfl happ he

theorem Appended.next {db₁ : Db} {s t t' : TaskState} {events : List TaskEvent} {e : TaskEvent}
    (h : Appended db w s events t db₁) {id : TaskId} (hid : id = s.id)
    (happ : appendNext env t id e db₁ = .ok (t', db')) (he : e.isCreation = false) :
    Appended db w s (events ++ [e]) t' db' := by
  obtain ⟨⟨u, head⟩, hl, happ⟩ := bind_ok happ
  obtain ⟨hu, -, hhead⟩ := h.represents.of_loadState hl
  have ht : (w.setTask t).tasks t.id = some t := World.setTask_get w t
  have hidt : id = t.id := hid.trans h.id.symm
  rw [hidt] at hhead
  obtain ⟨rfl, hid', hr, hgrows⟩ := h.represents.appendTask happ ht hhead rfl he
  refine ⟨h.loaded, ?_, hid'.trans h.id, ?_, (appendTaskEvent_sessions happ).trans h.sessions,
    h.grows.trans hgrows⟩
  · rw [List.foldl_append, ← h.state]
    rfl
  · rwa [World.setTask_setTask hid'] at hr

theorem establishWorkspace_moves (h : Represents db w) {origin : Digest} {baseline : Candidate}
    {s' : TaskState} (hc : establishWorkspace env id revision origin baseline db = .ok (s', db')) :
    TaskMoved draws db db' w s' := by
  obtain ⟨⟨s, head⟩, hl, hc⟩ := bind_ok hc
  obtain ⟨-, -, hc⟩ := bind_ok hc
  obtain ⟨hopen, hc⟩ := refuseIf_bind hc
  obtain ⟨-, -, hc⟩ := bind_ok hc
  obtain ⟨-, -, hc⟩ := bind_ok hc
  obtain ⟨-, -, hc⟩ := bind_ok hc
  obtain ⟨⟨t, db₁⟩, happ, hc⟩ := bind_ok hc
  have hfirst := Appended.first h hl happ rfl
  have hid := (h.of_loadState hl).2.1
  have hnone : s.outcome = none := by simpa using fun hsome => hopen (.inl hsome)
  exact ((hfirst.next hid.symm hc rfl).part (.two hnone hnone fun h => h)).moved

/-! ## the session in a transaction -/

/-- a session that a transaction has loaded and not yet changed -/
structure SessionLoaded (db : Db) (w : World) (s : SessionState) (head : Digest) : Prop where
  state : w.sessions s.id = some s
  head : SessionHead db s.id head

theorem SessionLoaded.of_load (h : Represents db w) {id : SessionId}
    (hl : loadSessionState db id none = .ok (s, head)) : SessionLoaded db w s head ∧ s.id = id := by
  obtain ⟨hs, rfl, hhead⟩ := h.of_loadSession hl
  exact ⟨⟨hs, hhead⟩, rfl⟩

theorem World.write_task_sessions (w : World) (task : Option TaskState) :
    (w.write task none).sessions = w.sessions := by
  cases task <;> rfl

theorem World.write_sessions (w : World) (task : Option TaskState) (s : SessionState) :
    (w.write task (some s)).sessions = Function.update w.sessions s.id (some s) := by
  cases task <;> rfl

theorem SessionLoaded.after (hs : SessionLoaded db w s head) (h : TaskPart draws db w task db') :
    SessionLoaded db' (w.write task none) s head := by
  refine ⟨by rw [World.write_task_sessions]; exact hs.state, ?_⟩
  unfold SessionHead
  rw [h.sessions]
  exact hs.head

theorem SessionLoaded.append (h : Represents db w) {hash : Digest} {clock : Nat → Nat}
    (hs : SessionLoaded db w s head)
    (happ : appendSessionCommand s head operation c clock db = .ok (s', hash, db')) (howned : c.ownedBy s) :
    SessionAppended db db' w s s' hash :=
  h.appendSession happ hs.state hs.head howned

theorem SessionLoaded.link (h : Represents db w) {content : List Value} {task : TaskId}
    (hs : SessionLoaded db w s head) (hc : linkTask env s head operation content task db = .ok (s', db')) :
    ∃ hash, SessionAppended db db' w s s' hash := by
  obtain ⟨⟨t, g, db₁⟩, hone, hc⟩ := bind_ok hc
  obtain ⟨⟨u, k, db₂⟩, htwo, hc⟩ := bind_ok hc
  cases hc
  have hfirst := hs.append h hone trivial
  have hsecond := hfirst.represents.appendSession htwo (World.setSession_get w t) hfirst.head trivial
  exact ⟨k, hfirst.trans hsecond⟩

/-- a session that a transaction leaves was there before, or it comes from a session that had got
that far -/
def Opens (w : World) (s : SessionState) : Prop :=
  (w.sessions s.id).isSome = true ∨ ∀ cursor, s.parent = some cursor →
    ∃ p, w.sessions cursor.session = some p ∧ cursor.revision ≤ p.revision

theorem SessionLoaded.opens (hs : SessionLoaded db w s head) (hid : s'.id = s.id) : Opens w s' := by
  refine .inl ?_
  rw [hid, hs.state]
  rfl

/-! ## commands -/

/-- what a transaction on a session establishes -/
structure SessionMoved (db₀ db : Db) (w : World) (s : SessionState) : Prop where
  represents : Represents db (w.setSession s)
  grows : Lengthens db₀ db
  opens : Opens w s

theorem SessionLoaded.unchanged (h : Represents db w) (hs : SessionLoaded db w s head) :
    SessionMoved db db w s :=
  ⟨by rw [World.setSession_self hs.state]; exact h, .refl db, hs.opens rfl⟩

theorem admitCommand_owned {u : Unit} (h : admitCommand env s db c = .ok u) : c.ownedBy s := by
  cases c with
  | interpreter request event =>
    cases event with
    | callStarted cell ordinal callId name arguments =>
      obtain ⟨hguard, -⟩ := refuseIf_bind h
      have howns : ownsPending s request cell = true := by
        by_contra hne
        exact hguard (.inr (.inr (.inr (by simpa using hne))))
      intro hempty
      rw [ownsPending, hempty] at howns
      simp at howns
    | _ => trivial
  | _ => trivial

/-- what a command that succeeded was: known already, or new, in time, admitted and appended -/
theorem sessionCommand_ok {id : SessionId}
    (hc : sessionCommand env id revision operation c db = .ok (s', db')) :
    ∃ s head, loadSessionState db id none = .ok (s, head) ∧
      ((s' = s ∧ db' = db ∧ s.operations[operation]? = some c.digest) ∨
        (s.operations[operation]? = none ∧ s.revision = revision ∧
          (∀ request, c.answers = some request → s.activeRequest = some request) ∧
          admitCommand env s db c = .ok () ∧ ∃ hash,
            appendSessionCommand s head operation c (env.appendClock 0) db = .ok (s', hash, db'))) := by
  obtain ⟨⟨s, head⟩, hl, hc⟩ := bind_ok hc
  refine ⟨s, head, hl, ?_⟩
  simp only at hc
  split at hc
  · rename_i previous hprevious
    split at hc
    · rename_i he
      cases hc
      exact .inl ⟨rfl, rfl, by rw [hprevious, he]⟩
    · cases hc
  · rename_i hnone
    obtain ⟨hrev, hc⟩ := refuseIf_bind hc
    obtain ⟨hlate, hc⟩ := refuseIf_bind hc
    obtain ⟨u, hadmitted, hc⟩ := bind_ok hc
    obtain ⟨⟨t, g, db₁⟩, happ, hc⟩ := bind_ok hc
    cases hc
    refine .inr ⟨hnone, not_not.mp hrev, fun request hanswers => ?_, hadmitted, g, happ⟩
    rw [hanswers] at hlate
    simpa using hlate

theorem sessionCommand_represents (h : Represents db w) {id : SessionId}
    (hc : sessionCommand env id revision operation c db = .ok (s', db')) :
    SessionMoved db db' w s' ∧ s'.id = id := by
  obtain ⟨s, head, hl, ⟨rfl, rfl, -⟩ | ⟨-, -, -, hadmitted, hash, happ⟩⟩ := sessionCommand_ok hc
  · obtain ⟨hs, hid⟩ := SessionLoaded.of_load h hl
    exact ⟨hs.unchanged h, hid⟩
  · obtain ⟨hs, hid⟩ := SessionLoaded.of_load h hl
    have happended := hs.append h happ (admitCommand_owned hadmitted)
    exact ⟨⟨happended.represents, happended.grows, hs.opens happended.id⟩, happended.id.trans hid⟩

theorem insertSession_grows {id : SessionId} {creation : SessionCreation}
    (hc : insertSession id creation db = .ok (s, db')) : Lengthens db db' := by
  obtain ⟨-, hc⟩ := refuseIf_bind hc
  obtain ⟨sessions, ht, hc⟩ := bind_ok hc
  cases hc
  exact ⟨.refl _, .insert (orSql_ok ht)⟩

theorem inherits_opens (h : Represents db w) {parent : Option SessionCursor} {cursor : SessionCursor}
    (hp : parent = some cursor) {seed : Option (ImportedSource × List Value)}
    {admission : SessionAdmissionProfile} {freshContext : Bool} {inherited : Inheritance}
    (hc : inherits parent seed admission freshContext db = .ok inherited) :
    ∃ p, w.sessions cursor.session = some p ∧ cursor.revision ≤ p.revision := by
  subst hp
  cases seed with
  | some seed => cases hc
  | none =>
    obtain ⟨-, hc⟩ := refuseIf_bind hc
    obtain ⟨⟨t, head⟩, hl, -⟩ := bind_ok hc
    obtain ⟨p, hs, -, hk⟩ := h.of_loadSession_at hl
    exact ⟨p, hs, hk⟩

theorem createSessionSeeded_represents (h : Represents db w) {id : SessionId} {config : SessionConfig}
    {admission : SessionAdmissionProfile} {parent : Option SessionCursor}
    {seed : Option (ImportedSource × List Value)} {freshContext : Bool}
    (hc : createSessionSeeded env id config admission parent seed freshContext db = .ok (s', db')) :
    SessionMoved db db' w s' := by
  obtain ⟨-, hc⟩ := refuseIf_bind hc
  split at hc
  · rename_i existing head hl
    split at hc
    · cases hc
      exact (SessionLoaded.of_load h hl).1.unchanged h
    · cases hc
  · obtain ⟨inherited, hinherits, hc⟩ := bind_ok hc
    obtain ⟨-, -, hc⟩ := bind_ok hc
    obtain ⟨-, -, hc⟩ := bind_ok hc
    obtain ⟨rfl, -, hr⟩ := h.insertSession hc
    exact ⟨hr, insertSession_grows hc, .inr fun cursor hp => inherits_opens h hp hinherits⟩
  · cases hc

/-! ## requests -/

theorem TaskPart.created (h : Represents db w) {s : TaskState} (hc : createTask env id e s db = .ok db')
    (hread : taskCreate id e.document = .ok s) (hid : s.id = id) (hone : s.revision = 1) (hinit : Initial s)
    :
    TaskPart draws db w (some s) db' := by
  obtain ⟨hnone, hr⟩ := h.createTask hc hread hid hone
  have hmoves : ∀ t, some s = some t → Moves draws (w.tasks t.id) t := by
    intro t ht
    cases ht
    rw [hid, hnone]
    exact hinit
  obtain ⟨-, -, hc⟩ := bind_ok hc
  obtain ⟨_, -, hc⟩ := bind_ok hc
  obtain ⟨tasks, ht, hc⟩ := bind_ok hc
  cases hc
  exact ⟨hr, hmoves, rfl, .insert (orSql_ok ht), .refl _⟩

theorem create_moves (h : Represents db w) {contract : Contract} {s' : TaskState}
    (hc : create env id contract db = .ok (s', db')) : TaskMoved draws db db' w s' := by
  obtain ⟨u, hvalid, hc⟩ := bind_ok hc
  obtain ⟨_, -, hc⟩ := bind_ok hc
  obtain ⟨db₁, hins, hc⟩ := bind_ok hc
  cases hc
  have hread : taskCreate id (TaskEvent.created contract (env.now 0)).document =
      .ok (TaskState.created id contract (env.now 0)) := by
    show (contract.validate.mapError StoreError.contract >>= _) = _
    rw [hvalid]
    rfl
  exact (TaskPart.created h hins hread rfl rfl (.created id contract (env.now 0))).moved

/-- a request that was checked before its task is made -/
def StartRequest.Checked (r : StartRequest) : Prop :=
  match r.contract with
  | some contract => contract.validate = .ok ()
  | none => r.limits.validate = .ok () ∧ blank r.request = false

theorem StartRequest.begin_ok {r : StartRequest} (hr : r.Checked) {atMs : Nat} {s : TaskState}
    (h : r.begin id atMs = .ok (e, s)) :
    taskCreate id e.document = .ok s ∧ s.id = id ∧ s.revision = 1 ∧ Initial s := by
  unfold StartRequest.Checked at hr
  unfold StartRequest.begin at h
  split at h
  · rename_i contract hcon
    cases h
    rw [hcon] at hr
    refine ⟨?_, rfl, rfl, .created ..⟩
    show (contract.validate.mapError StoreError.contract >>= _) = _
    rw [show contract.validate = .ok () from hr]
    rfl
  · rename_i intake hcon hintake
    cases h
    rw [hcon] at hr
    refine ⟨?_, rfl, rfl, .requested ..⟩
    show (r.limits.validate.mapError StoreError.contract >>= _) = _
    rw [hr.1]
    show (refuseIf (blank r.request = true) _ >>= _) = _
    rw [refuseIf_of_not _ (by simp [hr.2])]
    rfl
  · cases h

/-- what a transaction on a session and its task establishes -/
structure RequestMoved (draws : TaskState → Uuid → Prop) (db₀ db : Db) (w : World)
    (task : Option TaskState) (session : SessionState) : Prop where
  represents : Represents db (w.write task (some session))
  moves : ∀ s, task = some s → Moves draws (w.tasks s.id) s
  grows : Lengthens db₀ db
  opens : Opens w session

theorem RequestMoved.unchanged (hs : SessionLoaded db w s head) (ht : TaskPart draws db w task db) :
    RequestMoved draws db db w task s := by
  refine ⟨?_, ht.moves, .refl db, hs.opens rfl⟩
  show Represents db ((w.write task none).setSession s)
  rw [World.setSession_self (by rw [World.write_task_sessions]; exact hs.state)]
  exact ht.represents

theorem TaskPart.links {db₁ : Db} (ht : TaskPart draws db w task db₁) (hs : SessionLoaded db w s head)
    {content : List Value} (hc : linkTask env s head operation content id db₁ = .ok (s', db')) :
    RequestMoved draws db db' w task s' := by
  obtain ⟨hash, happended⟩ := (hs.after ht).link ht.represents hc
  exact ⟨happended.represents, ht.moves, ht.grows.trans happended.grows,
    hs.opens happended.id⟩

theorem startRecord_moves (h : Represents db w) {r : StartRequest} (hr : r.Checked) {task : TaskState}
    (hc : startRecord env sessionId operation r id db = .ok (session, task, fresh, db')) :
    RequestMoved draws db db' w (some task) session := by
  obtain ⟨⟨s, head⟩, hl, hc⟩ := bind_ok hc
  have hs := (SessionLoaded.of_load h hl).1
  simp only at hc
  split at hc
  · obtain ⟨⟨t, thead⟩, htl, hc⟩ := bind_ok hc
    obtain ⟨_, -, hc⟩ := bind_ok hc
    obtain ⟨-, hc⟩ := refuseIf_bind hc
    cases hc
    have hm : TaskMoved draws db db w t := TaskMoved.unchanged h htl
    exact RequestMoved.unchanged hs
      ⟨hm.represents, fun t ht => by cases ht; exact hm.moves, rfl, .refl db⟩
  · obtain ⟨-, -, hc⟩ := bind_ok hc
    obtain ⟨⟨e, t⟩, hbegin, hc⟩ := bind_ok hc
    obtain ⟨db₁, hins, hc⟩ := bind_ok hc
    obtain ⟨⟨u, db₂⟩, hlink, hc⟩ := bind_ok hc
    cases hc
    obtain ⟨hread, hid, hone, hinit⟩ := StartRequest.begin_ok hr hbegin
    have hpart : TaskPart draws db w (some t) db₁ := TaskPart.created h hins hread hid hone hinit
    exact hpart.links hs hlink

theorem startTask_moves (h : Represents db w) {contract : Contract} {task : TaskState}
    (hc : startTask env sessionId operation contract id db = .ok (session, task, fresh, db')) :
    RequestMoved draws db db' w (some task) session := by
  obtain ⟨u, hvalid, hc⟩ := bind_ok hc
  refine startRecord_moves h ?_ hc
  show contract.validate = .ok ()
  exact mapError_ok hvalid

theorem startRequest_moves (h : Represents db w) {request : String} {limits : Limits} {intake : Digest}
    {task : TaskState} (hc : startRequest env sessionId operation request limits intake id db =
      .ok (session, task, fresh, db')) : RequestMoved draws db db' w (some task) session := by
  obtain ⟨hblank, hc⟩ := refuseIf_bind hc
  obtain ⟨u, hvalid, hc⟩ := bind_ok hc
  obtain ⟨-, -, hc⟩ := bind_ok hc
  refine startRecord_moves h ?_ hc
  exact ⟨mapError_ok hvalid, by simpa using hblank⟩

theorem startPreparedRequest_moves (h : Represents db w) {input : PreparedInput} {limits : Limits}
    {intake : Digest} {task : TaskState}
    (hc : startPreparedRequest env sessionId operation input limits intake id db =
      .ok (session, task, fresh, db')) : RequestMoved draws db db' w (some task) session := by
  obtain ⟨hblank, hc⟩ := refuseIf_bind hc
  obtain ⟨u, hvalid, hc⟩ := bind_ok hc
  obtain ⟨-, -, hc⟩ := bind_ok hc
  obtain ⟨_, -, hc⟩ := bind_ok hc
  obtain ⟨-, hc⟩ := refuseIf_bind hc
  refine startRecord_moves h ?_ hc
  exact ⟨mapError_ok hvalid, by simpa using hblank⟩

theorem TaskMoved.part {task : TaskState} (h : TaskMoved draws db db' w task) :
    TaskPart draws db w (some task) db' :=
  ⟨h.represents, fun t ht => by cases ht; exact h.moves, h.sessions, h.grows⟩

theorem resumeTask_moves (h : Represents db w) {reason : String} {task : TaskState}
    (hc : resumeTask env sessionId operation id revision reason db = .ok (session, task, fresh, db')) :
    RequestMoved draws db db' w (some task) session := by
  obtain ⟨-, hc⟩ := refuseIf_bind hc
  obtain ⟨⟨s, head⟩, hl, hc⟩ := bind_ok hc
  obtain ⟨⟨t, thead⟩, htl, hc⟩ := bind_ok hc
  have hs := (SessionLoaded.of_load h hl).1
  simp only at hc
  split at hc
  · obtain ⟨-, hc⟩ := refuseIf_bind hc
    cases hc
    exact RequestMoved.unchanged hs (TaskMoved.unchanged h htl).part
  · obtain ⟨-, hc⟩ := refuseIf_bind hc
    obtain ⟨-, hc⟩ := refuseIf_bind hc
    obtain ⟨-, -, hc⟩ := bind_ok hc
    obtain ⟨-, -, hc⟩ := bind_ok hc
    obtain ⟨-, -, hc⟩ := bind_ok hc
    obtain ⟨⟨t', db₁⟩, happ, hc⟩ := bind_ok hc
    obtain ⟨⟨u, db₂⟩, hlink, hc⟩ := bind_ok hc
    cases hc
    have hpart : TaskPart draws db w (some t') db₁ :=
      (Appended.reset h htl rfl rfl happ rfl).part (.one trivial)
    exact hpart.links hs hlink

/-! ## submissions -/

theorem directTask_part (h : Represents db w) {s s' : TaskState} (hl : loadState db id = .ok (s, head))
    (he : Allowed draws s e) (hc : directTask env id s head e db = .ok (s', db')) :
    Appended db w s [e] s' db' := by
  obtain ⟨⟨t, db₁⟩, happ, hc⟩ := bind_ok hc
  cases hc
  have hfirst := Appended.first h hl happ he.notCreation
  exact ⟨hfirst.loaded, hfirst.state, hfirst.id, hfirst.represents.withLeases _, hfirst.sessions,
    hfirst.grows.tasks, hfirst.grows.sessions⟩

theorem editContinuation_part (h : Represents db w) {replacement : Digest} {input : Option Digest}
    (hc : editContinuation env session id request replacement input db = .ok (task, db')) :
    TaskPart draws db w task db' := by
  obtain ⟨-, hc⟩ := refuseIf_bind hc
  obtain ⟨⟨s, head⟩, hl, hc⟩ := bind_ok hc
  obtain ⟨-, hc⟩ := refuseIf_bind hc
  have hdirect : ∀ {e : TaskEvent} {r : TaskState × Db}, directTask env id s head e db = .ok r →
      Allowed draws s e → TaskPart draws db w (some r.1) r.2 :=
    fun hd he => (directTask_part h hl he hd).part (.one he)
  split at hc
  · obtain ⟨r, hd, hc⟩ := bind_ok hc
    cases hc
    exact hdirect hd trivial
  · split at hc
    · obtain ⟨r, hd, hc⟩ := bind_ok hc
      cases hc
      exact hdirect hd trivial
    · cases hc
      exact .none h

theorem admitEdit_part (h : Represents db w) {prepared : PreparedInput} {replacement : Digest}
    {input : Option Digest}
    (hc : admitEdit env session request prepared replacement input db intent = .ok (task, db')) :
    TaskPart draws db w task db' := by
  cases intent with
  | «continue» id scope schedule => exact editContinuation_part h hc
  | shell spec =>
    obtain ⟨_, -, hc⟩ := bind_ok hc
    obtain ⟨-, -, hc⟩ := bind_ok hc
    cases hc
    exact .none h
  | newTask limits policy =>
    obtain ⟨-, hc⟩ := refuseIf_bind hc
    cases hc
    exact .none h
  | ordinary limits policy schedule =>
    cases hc
    exact .none h
  | auxiliary spec =>
    cases hc
    exact .none h

theorem TaskPart.command {task : Option TaskState} {db₁ : Db} (ht : TaskPart draws db w task db₁)
    {s s' : SessionState} {head hash : Digest} (hs : SessionLoaded db w s head) {operation : Uuid}
    {c : SessionCommand ContextView} {clock : Nat → Nat}
    (happ : appendSessionCommand s head operation c clock db₁ = .ok (s', hash, db'))
    (howned : c.ownedBy s) : RequestMoved draws db db' w task s' := by
  have happended := (hs.after ht).append ht.represents happ howned
  exact ⟨happended.represents, ht.moves, ht.grows.trans happended.grows,
    hs.opens happended.id⟩

theorem editSubmission_moves (h : Represents db w) {expectedInput : Digest} {input : Option Digest}
    {submission : Submission} (hc : editSubmission env sessionId operation request expectedInput input db =
      .ok (submission, session, task, db')) : RequestMoved draws db db' w task session := by
  obtain ⟨⟨s, head⟩, hl, hc⟩ := bind_ok hc
  have hs := (SessionLoaded.of_load h hl).1
  simp only at hc
  split at hc
  · obtain ⟨-, hc⟩ := refuseIf_bind hc
    obtain ⟨_, -, hc⟩ := bind_ok hc
    cases hc
    exact RequestMoved.unchanged hs (.none h)
  · obtain ⟨_, -, hc⟩ := bind_ok hc
    obtain ⟨-, hc⟩ := refuseIf_bind hc
    obtain ⟨_, -, hc⟩ := bind_ok hc
    obtain ⟨⟨t, db₁⟩, hedit, hc⟩ := bind_ok hc
    obtain ⟨⟨u, g, db₂⟩, happ, hc⟩ := bind_ok hc
    obtain ⟨_, -, hc⟩ := bind_ok hc
    cases hc
    exact (admitEdit_part h hedit).command hs happ trivial

theorem submitContinuation_part (h : Represents db w) {id : Uuid}
    (hc : submitContinuation env session id input db intent = .ok (task, db')) :
    TaskPart draws db w task db' := by
  cases intent with
  | «continue» taskId scope schedule =>
    obtain ⟨-, hc⟩ := refuseIf_bind hc
    obtain ⟨⟨s, head⟩, hl, hc⟩ := bind_ok hc
    obtain ⟨-, hc⟩ := refuseIf_bind hc
    obtain ⟨-, hc⟩ := refuseIf_bind hc
    split at hc
    · obtain ⟨r, hd, hc⟩ := bind_ok hc
      cases hc
      have he : Allowed draws s (.directiveReceived id input) := trivial
      exact (directTask_part h hl he hd).part (.one he)
    · cases hc
      exact .none h
  | _ =>
    cases hc
    exact .none h

theorem submit_moves (h : Represents db w) {id : Uuid} {submission : Submission}
    (hc : submit env sessionId id input intent db = .ok (submission, session, task, db')) :
    RequestMoved draws db db' w task session := by
  obtain ⟨⟨s, head⟩, hl, hc⟩ := bind_ok hc
  have hs := (SessionLoaded.of_load h hl).1
  obtain ⟨-, -, hc⟩ := bind_ok hc
  obtain ⟨_, -, hc⟩ := bind_ok hc
  obtain ⟨-, -, hc⟩ := bind_ok hc
  simp only at hc
  split at hc
  · obtain ⟨-, hc⟩ := refuseIf_bind hc
    cases hc
    exact RequestMoved.unchanged hs (.none h)
  · obtain ⟨-, hc⟩ := refuseIf_bind hc
    obtain ⟨-, hc⟩ := refuseIf_bind hc
    obtain ⟨⟨t, db₁⟩, hsub, hc⟩ := bind_ok hc
    obtain ⟨⟨u, g, db₂⟩, happ, hc⟩ := bind_ok hc
    cases hc
    exact (submitContinuation_part h hsub).command hs happ trivial

theorem reopenContinuation_part (h : Represents db w) {s s' : TaskState}
    (hl : loadState db id = .ok (s, head))
    (hc : reopenContinuation env id s head request input db = .ok (s', db')) :
    TaskPart draws db w (some s') db' := by
  unfold reopenContinuation at hc
  split at hc
  · exact (Appended.first h hl hc rfl).part (.one trivial)
  · obtain ⟨⟨t, db₁⟩, hd, hc⟩ := bind_ok hc
    have he : Allowed draws s (.directiveReceived request input) := trivial
    have hfirst := directTask_part h hl he hd
    exact (hfirst.next (h.of_loadState hl).2.1.symm hc rfl).part (.two he trivial fun _ => rfl)

theorem continueSubmission_moves (h : Represents db w) {task : TaskState}
    (hc : continueSubmission env sessionId request db = .ok (session, task, fresh, db')) :
    RequestMoved draws db db' w (some task) session := by
  obtain ⟨⟨s, head⟩, hl, hc⟩ := bind_ok hc
  have hs := (SessionLoaded.of_load h hl).1
  obtain ⟨_, -, hc⟩ := bind_ok hc
  obtain ⟨id, -, hc⟩ := bind_ok hc
  obtain ⟨_, -, hc⟩ := bind_ok hc
  obtain ⟨-, hc⟩ := refuseIf_bind hc
  obtain ⟨⟨t, thead⟩, htl, hc⟩ := bind_ok hc
  simp only at hc
  split at hc
  · cases hc
    exact RequestMoved.unchanged hs (TaskMoved.unchanged h htl).part
  · obtain ⟨-, -, hc⟩ := bind_ok hc
    obtain ⟨⟨t', db₁⟩, hreopen, hc⟩ := bind_ok hc
    obtain ⟨-, -, hc⟩ := bind_ok hc
    obtain ⟨⟨u, db₂⟩, hlink, hc⟩ := bind_ok hc
    cases hc
    have hpart : TaskPart draws db w (some t') db₁ := reopenContinuation_part h htl hreopen
    exact hpart.links hs hlink

/-! ## commands of the user -/

theorem beginShells_part (h : Represents db w) {spec : ShellSpec} {job : ManualJob}
    (hc : beginShells env sessionId request input spec job db = .ok (task, db'))
    (hd : ∀ id s head, job.task = some id → loadState db id = .ok (s, head) → draws s job.job) :
    TaskPart draws db w task db' := by
  unfold beginShells at hc
  split at hc
  · cases hc
    exact .none h
  · rename_i id hid
    obtain ⟨⟨t, db₁⟩, hbegin, hc⟩ := bind_ok hc
    cases hc
    obtain ⟨⟨s, head⟩, hl, hbegin⟩ := bind_ok hbegin
    obtain ⟨-, hbegin⟩ := refuseIf_bind hbegin
    obtain ⟨-, hbegin⟩ := refuseIf_bind hbegin
    obtain ⟨⟨u, db₂⟩, happ, hbegin⟩ := bind_ok hbegin
    have hstart : Allowed draws s (.manualStarted (shellJob sessionId request input spec job s)) :=
      ⟨hd id s head hid hl, rfl, rfl⟩
    have hfirst := Appended.first h hl happ rfl
    exact (hfirst.next (h.of_loadState hl).2.1.symm hbegin rfl).part (.two hstart (.inl rfl) fun h => h)

theorem beginShell_moves (h : Represents db w) {job : ManualJob}
    (hc : beginShell env sessionId request job db = .ok (session, task, db'))
    (hd : ∀ id s head, job.task = some id → loadState db id = .ok (s, head) → draws s job.job) :
    RequestMoved draws db db' w task session := by
  obtain ⟨⟨s, head⟩, hl, hc⟩ := bind_ok hc
  have hs := (SessionLoaded.of_load h hl).1
  obtain ⟨_, -, hc⟩ := bind_ok hc
  obtain ⟨_, -, hc⟩ := bind_ok hc
  obtain ⟨-, -, hc⟩ := bind_ok hc
  obtain ⟨-, hc⟩ := refuseIf_bind hc
  obtain ⟨-, hc⟩ := refuseIf_bind hc
  obtain ⟨-, -, hc⟩ := bind_ok hc
  obtain ⟨-, -, hc⟩ := bind_ok hc
  obtain ⟨⟨t, db₁⟩, hbegin, hc⟩ := bind_ok hc
  obtain ⟨⟨u, g, db₂⟩, happ, hc⟩ := bind_ok hc
  cases hc
  exact (beginShells_part h hbegin hd).command hs happ trivial

theorem jobStatus_ne_running (status : ExecutionStatus) : status.jobStatus ≠ .running := by
  cases status with
  | exited code =>
    show (if code = 0 then JobStatus.succeeded else .failed) ≠ .running
    split <;> decide
  | _ => exact JobStatus.noConfusion

theorem adoptSeed_appended {db₁ : Db} {s t t' : TaskState} {events : List TaskEvent}
    (h : Appended db w s events t db₁) (hid : id = s.id) {seed : Option WorkspaceSeed}
    (hc : adoptSeed env id t report seed db₁ = .ok (t', db')) :
    ∃ adopted : List (Candidate × Digest),
      Appended db w s (events ++ adopted.map fun a => .manualWorkspace a.1 a.2) t' db' := by
  cases seed with
  | some seed =>
    exact ⟨[(adoptedCandidate report seed, seed.origin)], h.next hid hc rfl⟩
  | none =>
    cases hc
    exact ⟨[], by simpa using h⟩

theorem settleShells_part (h : Represents db w) {report' : ShellReport} {seed seed' : Option WorkspaceSeed}
    (hc : settleShells env request report seed db = .ok (task, report', seed', db')) :
    TaskPart draws db w task db' := by
  unfold settleShells at hc
  split at hc
  · cases hc
    exact .none h
  · rename_i id hid
    obtain ⟨⟨t, r, sd, db₁⟩, hsettle, hc⟩ := bind_ok hc
    cases hc
    obtain ⟨⟨s, head⟩, hl, hsettle⟩ := bind_ok hsettle
    obtain ⟨_, hrunning, hsettle⟩ := bind_ok hsettle
    obtain ⟨⟨t₁, db₁⟩, happ, hsettle⟩ := bind_ok hsettle
    obtain ⟨⟨t₂, db₂⟩, hadopt, hsettle⟩ := bind_ok hsettle
    obtain ⟨⟨t₃, db₃⟩, heffect, hsettle⟩ := bind_ok hsettle
    obtain ⟨⟨t₄, db₄⟩, hstop, hsettle⟩ := bind_ok hsettle
    cases hsettle
    have hsid := (h.of_loadState hl).2.1.symm
    have hfirst := Appended.first h hl happ rfl
    obtain ⟨adopted, hadopted⟩ := adoptSeed_appended hfirst hsid hadopt
    have hlast := (hadopted.next hsid heffect rfl).next hsid hstop rfl
    have hrun := refuseIf_ok hrunning
    rw [Bool.not_eq_false, Option.any_eq_true] at hrun
    obtain ⟨j, hj, hjr⟩ := hrun
    refine hlast.part ?_
    rw [List.append_assoc]
    exact .shell hj (by simpa using hjr) (jobStatus_ne_running report.status)

theorem finishShell_moves (h : Represents db w) {digest : Digest}
    (hc : finishShell env sessionId request report db = .ok (digest, session, task, db')) :
    RequestMoved draws db db' w task session := by
  obtain ⟨⟨s, head⟩, hl, hc⟩ := bind_ok hc
  have hs := (SessionLoaded.of_load h hl).1
  obtain ⟨_, -, hc⟩ := bind_ok hc
  obtain ⟨-, hc⟩ := refuseIf_bind hc
  obtain ⟨-, -, hc⟩ := bind_ok hc
  obtain ⟨seed, -, hc⟩ := bind_ok hc
  obtain ⟨⟨t, r, sd, db₁⟩, hsettle, hc⟩ := bind_ok hc
  have hpart : TaskPart draws db w t db₁ := settleShells_part h hsettle
  obtain ⟨_, -, hc⟩ := bind_ok hc
  obtain ⟨⟨u, g, db₂⟩, hpub, hc⟩ := bind_ok hc
  obtain ⟨⟨v, k, db₃⟩, hturn, hc⟩ := bind_ok hc
  cases hc
  have hfirst := (hs.after hpart).append hpart.represents hpub trivial
  have hsecond := hfirst.represents.appendSession hturn (World.setSession_get _ u) hfirst.head trivial
  have hboth := hfirst.trans hsecond
  exact ⟨hboth.represents, hpart.moves, hpart.grows.trans hboth.grows,
    hs.opens hboth.id⟩

/-! ## progress -/

/-- a command that the journal has room for -/
structure CommandFits (s : SessionState) (operation : Uuid) (c : SessionCommand ContextView)
    (atMs : Nat) : Prop where
  size : (SessionEvent.command operation c.stored atMs).document.bytes.length ≤ maxEventBytes
  revision : s.revision + 1 < 2 ^ 63

/-- **A command that fits and that the session accepts is appended.** -/
theorem SessionLoaded.appends (h : Represents db w) (hs : SessionLoaded db w s head) (clock : Nat → Nat)
    (hap : s.apply operation c = .ok s') (hf : CommandFits s operation c (clock 0)) :
    ∃ hash db', appendSessionCommand s head operation c clock db = .ok (s', hash, db') ∧
      db'.tasks = db.tasks ∧ db'.leases = db.leases ∧
      db'.sessions.map Prod.fst = db.sessions.map Prod.fst := by
  obtain ⟨a, ha, hholds⟩ := h.session_row hs.state
  obtain ⟨hid, hrev, -⟩ := apply_keeps hap
  have hnumber : s'.revision = a.events.length + 1 := by
    rw [hrev, show s.revision = a.revision from hholds.numbered, hholds.length]
  obtain ⟨hash, hhash⟩ : ∃ hash, hash = aggregateHash "session" s'.id.uuid s'.revision (some head)
      (SessionEvent.command operation c.stored (clock 0)).document.bytes := ⟨_, rfl⟩
  have hextend : ∃ b, extend a s'.revision (SessionEvent.command operation c.stored (clock 0)).document
      s'.document hash = some b := by
    rw [extend, hnumber, Journal.insertRow_last fun r hr =>
      Nat.lt_succ_of_le (hholds.events.numbered r hr).2]
    exact ⟨_, rfl⟩
  obtain ⟨b, hb⟩ := hextend
  rw [← hid] at ha
  have hroom : ¬ exhausted s'.revision := by
    rw [hrev]
    exact Nat.not_le.mpr hf.revision
  refine ⟨hash, { db with sessions := db.sessions.update s'.id fun _ => b }, ?_, rfl, rfl,
    Table.keys_update db.sessions s'.id fun _ => b⟩
  unfold appendSessionCommand
  simp only [if_neg (Nat.not_lt.mpr hf.size)]
  unfold appendSmall
  simp only [refuseIf_of_not _ (Nat.not_lt.mpr hf.size), refuseIf_of_not _ hroom, hap, Except.mapError,
    ok_bind, ha, orSql, ← hhash, hb]

theorem sessionCommand_known {id : SessionId} {digest : Digest}
    (hload : loadSessionState db id none = .ok (s, head)) (hknown : s.operations[operation]? = some digest)
    (revision : Nat) (c : SessionCommand ContextView) :
    sessionCommand env id revision operation c db =
      if digest = c.digest then .ok (s, db)
      else .error (.invalid "command ID reused with different input") := by
  rw [sessionCommand, hload, ok_bind]
  simp only [hknown]

theorem sessionCommand_new {id : SessionId} {hash : Digest}
    (hload : loadSessionState db id none = .ok (s, head)) (hnew : s.operations[operation]? = none)
    (hanswers : (c.answers.any fun request => s.activeRequest != some request) = false)
    (hadmitted : admitCommand env s db c = .ok ())
    (happ : appendSessionCommand s head operation c (env.appendClock 0) db = .ok (s', hash, db')) :
    sessionCommand env id s.revision operation c db = .ok (s', db') := by
  rw [sessionCommand, hload, ok_bind]
  simp only [hnew]
  rw [refuseIf_of_not _ (by simp), ok_bind, refuseIf_of_not _ (by rw [hanswers]; simp), ok_bind, hadmitted,
    ok_bind, happ, ok_bind]

end

end Orvek
