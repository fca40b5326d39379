import Orvek.Lib.Sweep
import Orvek.Store.LinkedTasks

/-!
# Recovery after a crash

A new host brings the store to rest before it takes work:

* `recoverInterrupted`   interrupts every task that has no outcome and settles the active request of
                         every session;
* `recoverSubmissions`   takes every submission that runs out of execution.

Both read the sessions in pages.  `sweepSessions_meets` is the rule for them: the work on a session
is described by what it makes of this session, and the others are left alone.
-/

set_option linter.unusedSectionVars false

namespace Orvek
open Checks Json Sweep

section
variable [Sha256] [ContractCodec] [SessionCodec] [StoreCodec] [JsonReader]
variable {id : TaskId}

/-! ## reading -/

/-- `list`: the newest task comes first -/
def listTasks (db : Db) : List TaskId := (db.tasks.map Prod.fst).reverse

/-- `list` for sessions -/
def listSessions (db : Db) : List SessionId := (db.sessions.map Prod.fst).reverse

/-- `load_session` -/
def loadSession (db : Db) (id : SessionId) : Except StoreError SessionState := do
  let (s, _) ← loadSessionState db id none
  .ok s

/-- `sessions`: a page of them -/
def sessionsPage (db : Db) (offset limit : Nat) : Except StoreError (List SessionState) := do
  refuseIf (limit = 0 ∨ 64 < limit) (StoreError.invalid "session page limit must be 1..64")
  refuseIf (2 ^ 63 ≤ offset) (StoreError.invalid "session offset exceeds its bound")
  (((listSessions db).drop offset).take limit).mapM (loadSession db)

/-! ## recovery -/

/-- what a restart finds outside the database: the environment of each of its transactions, and the
identifiers that it draws for the changes of submissions -/
structure Restart where
  interrupting : TaskId → Env
  settling : SessionId → Env
  changing : SessionId → Uuid → Env
  drawn : SessionId → Uuid → Uuid

def recoverTask (r : Restart) : List TaskId × Db → TaskId → Except StoreError (List TaskId × Db)
  | (recovered, db), id => do
    let (s, _) ← loadState db id
    if s.outcome.isSome = true then .ok (recovered, db)
    else do
      let (_, db) ← interruptTask (r.interrupting id) id db
      .ok (recovered ++ [id], db)

def hostInterrupted : String :=
  "Host interrupted this request; persisted work is available for recovery"

def linkedOutcome (s : SessionState) (request : Uuid) (db : Db) : Except StoreError (Option Outcome) :=
  match s.tasksByRequest[request]? with
  | none => .ok none
  | some id => do
    let (task, _) ← loadState db id
    .ok task.outcome

/-- the operation under which a restart settles a request -/
def recoveredId (request : Uuid) : Uuid := request.named "host-recovered"

/-- the end of the request that a session was working on; that none is active then is only asserted -/
def settleActive (r : Restart) (db : Db) (s : SessionState) : Except StoreError Db :=
  match s.activeRequest with
  | none => .ok db
  | some request => do
    let outcome ← linkedOutcome s request db
    let (_, db) ← sessionCommand (r.settling s.id) s.id s.revision (recoveredId request)
      (.turnSettled request outcome (some hostInterrupted)) db
    .ok db

def recoverInterrupted (r : Restart) (db : Db) : Except StoreError (List TaskId × Db) := do
  let (recovered, db) ← (listTasks db).foldlM (recoverTask r) ([], db)
  let db ← sweep (fun db offset => sessionsPage db offset 64) (settleActive r) List.isEmpty
    (db.sessions.length + 1) 0 db
  .ok (recovered, db)

def runningOf (s : SessionState) : List Submission :=
  (valuesOf s.submissions).filter fun x => x.status = .running

/-- execution that never began is repeated, and one that may have begun is not -/
def recoveredStatus (s : SessionState) (x : Submission) : SubmissionStatus :=
  if x.id ∈ s.operations then .interrupted else .queued

def recoverSubmission (r : Restart) (s : SessionState) (db : Db) (x : Submission) :
    Except StoreError Db := do
  let (_, _, db) ← setSubmissionStatus (r.changing s.id x.id) s.id x.id (recoveredStatus s x)
    (r.drawn s.id x.id) db
  .ok db

def recoverSession (r : Restart) (db : Db) (s : SessionState) : Except StoreError Db :=
  (runningOf s).foldlM (recoverSubmission r s) db

def recoverSubmissions (r : Restart) (db : Db) : Except StoreError Db :=
  sweep (fun db offset => sessionsPage db offset 64) (recoverSession r) (fun page => page.length < 64)
    (db.sessions.length + 1) 0 db

/-- what a host does first -/
def recover (r : Restart) (db : Db) : Except StoreError (List TaskId × Db) := do
  let (recovered, db) ← recoverInterrupted r db
  let db ← recoverSubmissions r db
  .ok (recovered, db)

variable {db db' : Db} {w w' : World} {r : Restart} {E : Prop}

/-! ## pages -/

theorem Represents.listed (h : Represents db w) {id : SessionId} (hid : id ∈ listSessions db) :
    ∃ s, w.sessions id = some s ∧ s.id = id := by
  obtain ⟨a, ha⟩ := Table.get_of_mem (List.mem_reverse.mp hid)
  have hr := h.sessions id
  rw [ha] at hr
  generalize w.sessions id = x at hr
  cases hr with
  | @some _ s hholds => exact ⟨s, rfl, hholds.good.1⟩

theorem Represents.listed_task (h : Represents db w) (hid : id ∈ listTasks db) :
    ∃ t, w.tasks id = some t ∧ t.id = id := by
  obtain ⟨a, ha⟩ := Table.get_of_mem (List.mem_reverse.mp hid)
  have hr := h.tasks id
  rw [ha] at hr
  generalize w.tasks id = x at hr
  cases hr with
  | @some _ t hholds => exact ⟨t, rfl, hholds.good⟩

theorem Represents.session_id (h : Represents db w) {id : SessionId} {s : SessionState}
    (hs : w.sessions id = some s) : s.id = id := by
  obtain ⟨a, -, hholds⟩ := h.session_row hs
  exact hholds.good.1

theorem Represents.keyed (h : Represents db w) {id : SessionId} {s : SessionState}
    (hs : w.sessions id = some s) : id ∈ listSessions db := by
  obtain ⟨a, ha, -⟩ := h.session_row hs
  exact List.mem_reverse.mpr (Table.mem_of_get ha)

theorem Represents.keyed_task (h : Represents db w) {t : TaskState} (ht : w.tasks id = some t) :
    id ∈ listTasks db := by
  obtain ⟨a, ha, -⟩ := h.task_row ht
  exact List.mem_reverse.mpr (Table.mem_of_get ha)

theorem Represents.rows (h : Represents db w) : ∃ rows : List SessionState,
    rows.map (·.id) = listSessions db ∧ ∀ s ∈ rows, w.sessions s.id = some s := by
  have hall : ∀ id ∈ listSessions db, ∃ s, w.sessions id = some s ∧ s.id = id := fun _ => h.listed
  generalize listSessions db = ids at hall
  induction ids with
  | nil => exact ⟨[], rfl, fun _ h => (nomatch h)⟩
  | cons id ids ih =>
    obtain ⟨s, hs, hid⟩ := hall id List.mem_cons_self
    obtain ⟨rows, hrows, hstates⟩ := ih fun k hk => hall k (List.mem_cons_of_mem id hk)
    refine ⟨s :: rows, by rw [List.map_cons, hrows, hid], fun t ht => ?_⟩
    rcases List.mem_cons.mp ht with rfl | ht
    · rw [hid]
      exact hs
    · exact hstates t ht

theorem loads_all (h : Represents db w) {rows : List SessionState}
    (hrows : ∀ s ∈ rows, w.sessions s.id = some s) :
    (rows.map (·.id)).mapM (loadSession db) = .ok rows := by
  induction rows with
  | nil => rfl
  | cons s rows ih =>
    obtain ⟨head, hl⟩ := h.loadSession (hrows s List.mem_cons_self)
    have hload : loadSession db s.id = .ok s := by
      rw [loadSession, hl]
      rfl
    rw [List.map_cons, List.mapM_cons, hload, ok_bind,
      ih fun t ht => hrows t (List.mem_cons_of_mem s ht), ok_bind]
    rfl

theorem sessionsPage_ok (h : Represents db w) (done todo : List SessionState)
    (hkeys : (done ++ todo).map (·.id) = listSessions db) (htodo : ∀ s ∈ todo, w.sessions s.id = some s)
    (hbound : done.length < 2 ^ 63) : sessionsPage db done.length 64 = .ok (todo.take 64) := by
  rw [sessionsPage, refuseIf_of_not _ (by decide), ok_bind, refuseIf_of_not _ (Nat.not_le.mpr hbound),
    ok_bind, ← hkeys, List.map_append, ← List.length_map (·.id), List.drop_left, ← List.map_take]
  exact loads_all h fun s hs => htodo s (List.mem_of_mem_take hs)

/-! ## work on every session -/

/-- the tasks, the leases and the keys of the sessions are as they were -/
structure Beside (db₀ db : Db) : Prop where
  tasks : db.tasks = db₀.tasks
  leases : db.leases = db₀.leases
  keys : db.sessions.map Prod.fst = db₀.sessions.map Prod.fst

theorem Beside.refl (db : Db) : Beside db db := ⟨rfl, rfl, rfl⟩

theorem Beside.trans {db₁ : Db} (h : Beside db db₁) (h' : Beside db₁ db') : Beside db db' :=
  ⟨h'.tasks.trans h.tasks, h'.leases.trans h.leases, h'.keys.trans h.keys⟩

/-- what the work on the session `s` establishes: it is in the state `t` now -/
structure Worked (R : SessionState → SessionState → Prop) (db : Db) (w : World) (s t : SessionState)
    (db' : Db) : Prop where
  id : t.id = s.id
  made : R s t
  represents : Represents db' (w.setSession t)
  beside : Beside db db'

/-- the middle of a sweep: `R` relates what the sessions that are done were to what they are -/
structure Swept (R : SessionState → SessionState → Prop) (db₀ : Db) (w₀ : World)
    (done : List SessionState) (db : Db) (w : World) : Prop where
  represents : Represents db w
  tasks : w.tasks = w₀.tasks
  beside : Beside db₀ db
  sessions : ∀ id, Option.Rel (fun s t => (s ∈ done → R s t) ∧ (s ∉ done → t = s))
    (w₀.sessions id) (w.sessions id)

section
variable {R : SessionState → SessionState → Prop} {db₀ : Db} {w₀ : World} {done : List SessionState}
  {s t : SessionState}

theorem Swept.start (h : Represents db₀ w₀) : Swept R db₀ w₀ [] db₀ w₀ := by
  refine ⟨h, rfl, .refl db₀, fun id => ?_⟩
  cases w₀.sessions id with
  | none => exact .none
  | some s => exact .some ⟨fun hs => (nomatch hs), fun _ => rfl⟩

theorem Swept.untouched (h : Swept R db₀ w₀ done db w) (hs : w₀.sessions s.id = some s)
    (hdone : s ∉ done) : w.sessions s.id = some s := by
  have hrel := h.sessions s.id
  rw [hs] at hrel
  generalize w.sessions s.id = x at hrel
  cases hrel with
  | some hrel => rw [hrel.2 hdone]

theorem Swept.step (h : Swept R db₀ w₀ done db w) (h₀ : Represents db₀ w₀)
    (hs : w₀.sessions s.id = some s) (hw : Worked R db w s t db') : Swept R db₀ w₀ (done ++ [s]) db' (w.setSession t) := by
  refine ⟨hw.represents, h.tasks, h.beside.trans hw.beside, fun id => ?_⟩
  show Option.Rel _ (w₀.sessions id) (Function.update w.sessions t.id (some t) id)
  rw [Function.update_apply, hw.id]
  split
  · rename_i he
    rw [he, hs]
    exact .some ⟨fun _ => hw.made, fun hn => absurd (by simp) hn⟩
  · rename_i hne
    have hrel := h.sessions id
    generalize hx : w₀.sessions id = x at hrel
    generalize w.sessions id = y at hrel
    cases hrel with
    | none => exact .none
    | @some u v hrel =>
      refine .some ⟨fun hu => ?_, fun hu => hrel.2 fun hd => hu (List.mem_append_left _ hd)⟩
      rcases List.mem_append.mp hu with hd | hu
      · exact hrel.1 hd
      · cases List.mem_singleton.mp hu
        exact absurd (h₀.session_id hx).symm hne

section
variable (body : Db → SessionState → Except StoreError Db) (last : List SessionState → Bool)
  (hempty : last [] = true) (hshort : ∀ page, last page = true → page.length < 64)
  (h₀ : Represents db₀ w₀) (hnodup : (db₀.sessions.map Prod.fst).Nodup)
  (hbound : db₀.sessions.length < 2 ^ 63)
  (hbody : ∀ db w s, Represents db w → w.tasks = w₀.tasks → w.sessions s.id = some s →
    w₀.sessions s.id = some s → Meets E (body db s) fun db' => ∃ t, Worked R db w s t db')
include hempty hshort h₀ hnodup hbound hbody

/-- **The rule for work on every session**: what it makes of one session, it makes of each. -/
theorem sweepSessions_meets : Meets E
    (sweep (fun db offset => sessionsPage db offset 64) body last (db₀.sessions.length + 1) 0 db₀)
    fun db => ∃ w, Represents db w ∧ w.tasks = w₀.tasks ∧ Beside db₀ db ∧
      ∀ id, Option.Rel R (w₀.sessions id) (w.sessions id) := by
  obtain ⟨rows, hkeys, hstates⟩ := h₀.rows
  have hlen : rows.length = db₀.sessions.length := by
    have := congrArg List.length hkeys
    simpa [listSessions] using this
  have hdistinct : (rows.map (·.id)).Nodup := by
    rw [hkeys]
    exact List.nodup_reverse.mpr hnodup
  -- a row that is to come is not done
  have hnew : ∀ done s rest, done ++ s :: rest = rows → s ∉ done := by
    intro done s rest hsplit hs
    rw [← hsplit, List.map_append, List.map_cons] at hdistinct
    exact (List.nodup_append.mp hdistinct).2.2 s.id (List.mem_map_of_mem hs) s.id
      List.mem_cons_self rfl
  have hsweep := sweep_meets (E := E) (fun db offset => sessionsPage db offset 64) body last rows
    (n := 64) (I := fun done db => ∃ w, Swept R db₀ w₀ done db w) hempty hshort ?_ ?_
    (db₀.sessions.length + 1) (by omega) ⟨w₀, .start h₀⟩
  · refine hsweep.mono ?_
    rintro db ⟨w, hw⟩
    refine ⟨w, hw.represents, hw.tasks, hw.beside, fun id => ?_⟩
    have hrel := hw.sessions id
    generalize hx : w₀.sessions id = x at hrel
    generalize w.sessions id = y at hrel
    cases hrel with
    | none => exact .none
    | @some s t hrel =>
      refine .some (hrel.1 ?_)
      have hmem := h₀.keyed hx
      rw [← hkeys] at hmem
      obtain ⟨u, hu, hid⟩ := List.mem_map.mp hmem
      have hus := hstates u hu
      rw [hid, hx] at hus
      cases hus
      exact hu
  · rintro done todo db hsplit ⟨w, hw⟩
    refine sessionsPage_ok hw.represents done todo ?_ (fun s hs => ?_) ?_
    · rw [hsplit, hkeys, listSessions, listSessions, hw.beside.keys]
    · refine hw.untouched (hstates s (by rw [← hsplit]; exact List.mem_append_right _ hs)) ?_
      obtain ⟨before, after, rfl⟩ := List.append_of_mem hs
      intro hdone
      exact hnew (done ++ before) s after (by rw [List.append_assoc]; exact hsplit)
        (List.mem_append_left _ hdone)
    · have := congrArg List.length hsplit
      rw [List.length_append] at this
      omega
  · rintro done s rest db hsplit ⟨w, hw⟩
    have hs := hstates s (by rw [← hsplit]; simp)
    refine (hbody db w s hw.represents hw.tasks (hw.untouched hs (hnew done s rest hsplit)) hs).mono ?_
    rintro db' ⟨t, ht⟩
    exact ⟨w.setSession t, hw.step h₀ hs ht⟩

end

end

/-! ## the tasks -/

/-- the journals have room for what a recovery appends -/
structure Room (db : Db) (w : World) : Prop where
  rows : db.sessions.length < 2 ^ 63
  tasks : ∀ id t, w.tasks id = some t → t.outcome = none → t.revision + 1 < 2 ^ 63
  sessions : ∀ id s, w.sessions id = some s → s.revision + 1 + (runningOf s).length < 2 ^ 63

/-- the events of a recovery are encoded in fewer bytes than an event may have -/
structure SmallEvents : Prop where
  interrupted : (StoreCodec.taskEvent (.interrupted restartReason)).length ≤ maxEventBytes
  settled : ∀ (operation request : Uuid) (outcome : Option Outcome) (atMs : Nat),
    (StoreCodec.sessionEvent (.command operation
      (SessionCommand.stored (.turnSettled request outcome (some hostInterrupted))) atMs)).length ≤
        maxEventBytes
  changed : ∀ (operation request : Uuid) (atMs : Nat), ∀ status ∈ [SubmissionStatus.interrupted, .queued],
    (StoreCodec.sessionEvent (.command operation
      (SessionCommand.stored (.submissionChanged request status)) atMs)).length ≤ maxEventBytes

/-- what becomes of a task -/
structure Ends (t t' : TaskState) : Prop where
  kept : t.outcome.isSome = true → t' = t
  interrupted : t.outcome = none → t' = t.apply (.interrupted restartReason)

/-- the middle of the work on the tasks -/
structure TasksSwept (db₀ : Db) (w₀ : World) (done : List TaskId) (db : Db) (w : World) : Prop where
  represents : Represents db w
  sessions : w.sessions = w₀.sessions
  rows : db.sessions = db₀.sessions
  keys : db.tasks.map Prod.fst = db₀.tasks.map Prod.fst
  tasks : ∀ id, Option.Rel (fun t t' => (id ∈ done → Ends t t') ∧ (id ∉ done → t' = t))
    (w₀.tasks id) (w.tasks id)
  leases : ∀ id ∈ done, ∀ t, w₀.tasks id = some t → t.outcome = none →
    ∀ token, db.leases.get (id, token) = none

theorem change_keys {env : Env} {revision : Option Nat} {allowTerminal : Bool}
    {operation : TaskState → Except StoreError (TaskEvent × Leases)} {t : TaskState}
    (hc : change env id revision allowTerminal operation db = .ok (t, db')) :
    db'.tasks.map Prod.fst = db.tasks.map Prod.fst := by
  obtain ⟨s, head, e, leases, -, -, -, happ⟩ := change_ok hc
  obtain ⟨-, -, a, b, -, -, rfl⟩ := appendTaskEvent_ok happ
  exact Table.keys_update db.tasks s.id fun _ => b

theorem interruptTask_open (h : Represents db w) {t : TaskState} (ht : w.tasks id = some t)
    (hopen : t.outcome = none) (hsmall : SmallEvents) (hroom : t.revision + 1 < 2 ^ 63) (env : Env) :
    ∃ db', interruptTask env id db = .ok (t.apply (.interrupted restartReason), db') ∧
      db'.leases = Leases.dropTask db.leases id ∧ db'.sessions = db.sessions ∧
      db'.tasks.map Prod.fst = db.tasks.map Prod.fst := by
  obtain ⟨head, hl⟩ := h.loadState ht
  obtain ⟨db', hc, hleases, hrows⟩ : ∃ db', change env id (some t.revision) false
      (fun _ => .ok (.interrupted restartReason, Leases.dropTask db.leases id)) db =
        .ok (t.apply (.interrupted restartReason), db') ∧
      db'.leases = Leases.dropTask db.leases id ∧ db'.sessions = db.sessions :=
    h.changes ht (refuseIf_of_not _ (by simp)) (by simp [hopen]) rfl
      ⟨rfl, hsmall.interrupted, hroom⟩
  refine ⟨db', ?_, hleases, hrows, change_keys hc⟩
  rw [interruptTask, hl, ok_bind]
  simp only
  rw [if_neg (by simp [hopen])]
  exact hc

section
variable {db₀ : Db} {w₀ : World} {done : List TaskId} {id : TaskId} {t t' : TaskState}

theorem TasksSwept.start (h : Represents db₀ w₀) : TasksSwept db₀ w₀ [] db₀ w₀ := by
  refine ⟨h, rfl, rfl, rfl, fun id => ?_, fun _ hid => (nomatch hid)⟩
  cases w₀.tasks id with
  | none => exact .none
  | some t => exact .some ⟨fun hid => (nomatch hid), fun _ => rfl⟩

theorem TasksSwept.untouched (h : TasksSwept db₀ w₀ done db w) (ht : w₀.tasks id = some t)
    (hdone : id ∉ done) : w.tasks id = some t := by
  have hrel := h.tasks id
  rw [ht] at hrel
  generalize w.tasks id = x at hrel
  cases hrel with
  | some hrel => rw [hrel.2 hdone]

theorem TasksSwept.step (h : TasksSwept db₀ w₀ done db w) (ht : w₀.tasks id = some t) (hid : t'.id = id)
    (hends : Ends t t') (hr : Represents db' (w.setTask t')) (hrows : db'.sessions = db.sessions)
    (hkeys : db'.tasks.map Prod.fst = db.tasks.map Prod.fst)
    (hleases : ∀ k token, db.leases.get (k, token) = none → db'.leases.get (k, token) = none)
    (hdropped : t.outcome = none → ∀ token, db'.leases.get (id, token) = none) :
    TasksSwept db₀ w₀ (done ++ [id]) db' (w.setTask t') := by
  refine ⟨hr, h.sessions, hrows.trans h.rows, hkeys.trans h.keys, fun k => ?_, ?_⟩
  · show Option.Rel _ (w₀.tasks k) (Function.update w.tasks t'.id (some t') k)
    rw [Function.update_apply, hid]
    split
    · rename_i he
      rw [he, ht]
      exact .some ⟨fun _ => hends, fun hn => absurd (by simp) hn⟩
    · rename_i hne
      have hrel := h.tasks k
      generalize w₀.tasks k = x at hrel
      generalize w.tasks k = y at hrel
      cases hrel with
      | none => exact .none
      | some hrel =>
        refine .some ⟨fun hk => hrel.1 ?_, fun hk => hrel.2 fun hd => hk (List.mem_append_left _ hd)⟩
        rcases List.mem_append.mp hk with hd | hk
        · exact hd
        · exact absurd (List.mem_singleton.mp hk) hne
  · intro k hk u hu hopen token
    rcases List.mem_append.mp hk with hd | hk
    · exact hleases k token (h.leases k hd u hu hopen token)
    · cases List.mem_singleton.mp hk
      cases ht.symm.trans hu
      exact hdropped hopen token

theorem interrupted_id (t : TaskState) : (t.apply (.interrupted restartReason)).id = t.id :=
  apply_id t _

theorem recoverTask_meets (h : TasksSwept db₀ w₀ done db w) (ht : w₀.tasks id = some t)
    (htid : t.id = id) (hdone : id ∉ done) (hsmall : SmallEvents)
    (hroom : t.outcome = none → t.revision + 1 < 2 ^ 63) (recovered : List TaskId) :
    Meets E (recoverTask r (recovered, db) id) fun x => ∃ w, TasksSwept db₀ w₀ (done ++ [id]) x.2 w := by
  have hnow := h.untouched ht hdone
  obtain ⟨head, hl⟩ := h.represents.loadState hnow
  rw [recoverTask, hl, ok_bind]
  simp only
  by_cases hsome : t.outcome.isSome = true
  · rw [if_pos hsome]
    have hself := World.setTask_self (show w.tasks t.id = some t by rw [htid]; exact hnow)
    refine ⟨w.setTask t, h.step ht htid ⟨fun _ => rfl, fun hn => ?_⟩ (by rw [hself]; exact h.represents)
      rfl rfl (fun _ _ hk => hk) fun hn => ?_⟩
    · rw [hn] at hsome
      cases hsome
    · rw [hn] at hsome
      cases hsome
  · have hopen : t.outcome = none := by simpa using hsome
    rw [if_neg hsome]
    obtain ⟨db', hc, hleases, hrows, hkeys⟩ := interruptTask_open h.represents hnow hopen hsmall
      (hroom hopen) (r.interrupting id)
    have hmoved : TaskMoved anyDraw _ _ _ _ := interruptTask_moves h.represents hc
    rw [hc, ok_bind]
    refine ⟨_, h.step ht ((interrupted_id t).trans htid) ⟨fun hs => absurd hs hsome, fun _ => rfl⟩
      hmoved.represents hrows hkeys (fun k token hk => ?_) fun _ token => ?_⟩
    · rw [hleases, Leases.dropTask, Table.get_delete]
      split
      · rfl
      · exact hk
    · rw [hleases, Leases.dropTask, Table.get_delete, if_pos (by simp)]

/-- **Every open task is interrupted**, and nothing else changes. -/
theorem recoverTasks_meets (h₀ : Represents db₀ w₀) (hnodup : (db₀.tasks.map Prod.fst).Nodup)
    (hsmall : SmallEvents)
    (hroom : ∀ id t, w₀.tasks id = some t → t.outcome = none → t.revision + 1 < 2 ^ 63) :
    Meets E ((listTasks db₀).foldlM (recoverTask r) ([], db₀)) fun x =>
      ∃ w, TasksSwept db₀ w₀ (listTasks db₀) x.2 w := by
  refine foldlM_meets (recoverTask r) (listTasks db₀)
    (I := fun done (x : List TaskId × Db) => ∃ w, TasksSwept db₀ w₀ done x.2 w) ?_ [] (listTasks db₀) ([], db₀) rfl ⟨w₀, .start h₀⟩
  rintro done id rest ⟨recovered, db⟩ hsplit ⟨w, hw⟩
  have hlisted : id ∈ listTasks db₀ := by rw [← hsplit]; simp
  obtain ⟨t, ht, hid⟩ := h₀.listed_task hlisted
  have hnew : id ∉ done := by
    have hdistinct : (listTasks db₀).Nodup := List.nodup_reverse.mpr hnodup
    rw [← hsplit] at hdistinct
    intro hdone
    exact (List.nodup_append.mp hdistinct).2.2 id hdone id List.mem_cons_self rfl
  exact recoverTask_meets hw ht hid hnew hsmall (hroom id t ht) recovered

end

/-! ## the active request -/

/-- the session works on a request that an earlier recovery has settled -/
def Stuck (s : SessionState) : Prop :=
  ∃ request, s.activeRequest = some request ∧ recoveredId request ∈ s.operations

/-- what becomes of a session and its active request -/
structure Settles (s t : SessionState) : Prop where
  rests : ¬ Stuck s → t.activeRequest = none
  stuck : Stuck s → t = s
  submissions : t.submissions = s.submissions
  revision : t.revision ≤ s.revision + 1
  operations : ∀ id ∈ t.operations, id ∈ s.operations ∨
    ∃ request, s.activeRequest = some request ∧ id = recoveredId request

section
variable {s : SessionState} {request : Uuid}

theorem Worked.unchanged (h : Represents db w) (hs : w.sessions s.id = some s)
    (hrests : ¬ Stuck s → s.activeRequest = none) : Worked Settles db w s s db :=
  ⟨rfl, ⟨hrests, fun _ => rfl, rfl, Nat.le_succ _, fun _ hid => .inl hid⟩,
    by rw [World.setSession_self hs]; exact h, .refl db⟩

theorem linkedOutcome_ok (h : Represents db w)
    (hlinked : ∀ id, s.tasksByRequest[request]? = some id → ∃ t, w.tasks id = some t) :
    ∃ outcome, linkedOutcome s request db = .ok outcome ∧ ∀ env error,
      admitCommand env s db (.turnSettled request outcome error) = .ok () := by
  unfold linkedOutcome
  cases hlink : s.tasksByRequest[request]? with
  | none => exact ⟨none, rfl, fun _ _ => rfl⟩
  | some id =>
    obtain ⟨t, ht⟩ := hlinked id hlink
    obtain ⟨head, hl⟩ := h.loadState ht
    refine ⟨t.outcome, by simp only; rw [hl]; rfl, fun env error => ?_⟩
    cases houtcome : t.outcome with
    | none => rfl
    | some outcome =>
      show admitOutcome s request outcome db = _
      rw [admitOutcome, hlink]
      show (loadState db id >>= _) = _
      rw [hl, ok_bind]
      exact refuseIf_of_not _ (by simp [houtcome])

theorem settleActive_meets (h : Represents db w) (hs : w.sessions s.id = some s)
    (hlinked : ∀ (request : Uuid) (id : TaskId), s.tasksByRequest[request]? = some id →
      ∃ t, w.tasks id = some t) (hsmall : SmallEvents) (hroom : s.revision + 1 < 2 ^ 63) :
    Meets (Stuck s) (settleActive r db s) fun db' => ∃ t, Worked Settles db w s t db' := by
  unfold settleActive
  split
  · rename_i hnone
    exact ⟨s, .unchanged h hs fun _ => hnone⟩
  · rename_i request hactive
    obtain ⟨outcome, houtcome, hadmitted⟩ := linkedOutcome_ok h (hlinked request)
    obtain ⟨head, hl⟩ := h.loadSession hs
    rw [houtcome, ok_bind]
    cases hop : s.operations[recoveredId request]? with
    | some digest =>
      -- the operation is known: the command is a repetition, or it is refused
      have hstuck : Stuck s := ⟨request, hactive, by
        rw [Std.ExtTreeMap.mem_iff_isSome_getElem?, hop]
        rfl⟩
      rw [sessionCommand_known hl hop]
      split
      · exact ⟨s, .unchanged h hs fun hn => absurd hstuck hn⟩
      · exact hstuck
    | none =>
      have hfree : ¬ Stuck s := by
        rintro ⟨other, hother, hmem⟩
        cases hactive.symm.trans hother
        exact not_mem_operations hop hmem
      obtain ⟨t, hap, hrests, hsubs⟩ : ∃ t, s.apply (recoveredId request)
          (.turnSettled request outcome (some hostInterrupted)) = .ok t ∧ t.activeRequest = none ∧
          t.submissions = s.submissions := ⟨_, rfl, rfl, rfl⟩
      have hloaded := (SessionLoaded.of_load h hl).1
      obtain ⟨hash, db', happ, htasks, hleases, hkeys⟩ := hloaded.appends h
        ((r.settling s.id).appendClock 0) hap ⟨hsmall.settled _ _ _ _, hroom⟩
      rw [sessionCommand_new hl hop (by simp [SessionCommand.answers, hactive]) (hadmitted _ _) happ]
      have happended := hloaded.append h happ trivial
      obtain ⟨digest, hops, -⟩ := apply_operations hap
      refine ⟨t, happended.id, ⟨fun _ => hrests, fun hst => absurd hst hfree, hsubs,
        Nat.le_of_eq (apply_keeps hap).2.1, fun id hid => ?_⟩, happended.represents,
        htasks, hleases, hkeys⟩
      rw [hops, Std.ExtTreeMap.mem_insert] at hid
      rcases hid with he | hid
      · exact .inr ⟨request, hactive, (Std.LawfulEqOrd.compare_eq_iff_eq.mp he).symm⟩
      · exact .inl hid

end

/-! ## the submissions -/

/-- the submissions of a session are stored under their identifiers -/
def Named (s : SessionState) : Prop :=
  ∀ (k : Uuid) (x : Submission), s.submissions[k]? = some x → x.id = k

/-- the identifiers that are drawn for a session are new, and distinct -/
structure DrawsNew (r : Restart) (s : SessionState) : Prop where
  new : ∀ x ∈ runningOf s, r.drawn s.id x.id ∉ s.operations
  distinct : ∀ x ∈ runningOf s, ∀ y ∈ runningOf s, r.drawn s.id x.id = r.drawn s.id y.id → x.id = y.id

/-- what becomes of a session and its submissions -/
structure Requeues (s t : SessionState) : Prop where
  active : t.activeRequest = s.activeRequest
  rests : ∀ (k : Uuid) (x : Submission), t.submissions[k]? = some x → x.status ≠ .running

/-- the middle of the work on the submissions of a session -/
structure Changed (r : Restart) (s : SessionState) (done : List Submission) (t : SessionState) : Prop where
  id : t.id = s.id
  active : t.activeRequest = s.activeRequest
  revision : t.revision = s.revision + done.length
  operations : ∀ id ∈ t.operations, id ∈ s.operations ∨ ∃ x ∈ done, id = r.drawn s.id x.id
  rests : ∀ x ∈ done, ∀ y : Submission, t.submissions[x.id]? = some y → y.status ≠ .running
  others : ∀ k : Uuid, (∀ x ∈ done, x.id ≠ k) → t.submissions[k]? = s.submissions[k]?

section
variable {s t : SessionState} {done : List Submission} {x : Submission}

theorem mem_runningOf : x ∈ runningOf s ↔ (∃ k : Uuid, s.submissions[k]? = some x) ∧ x.status = .running := by
  rw [runningOf, List.mem_filter, mem_valuesOf, decide_eq_true_iff]

theorem Named.running (h : Named s) (hx : x ∈ runningOf s) : s.submissions[x.id]? = some x := by
  obtain ⟨⟨k, hk⟩, -⟩ := mem_runningOf.mp hx
  rw [h k x hk]
  exact hk

theorem Named.distinct (h : Named s) : ((runningOf s).map (·.id)).Nodup := by
  have hkeys : (valuesOf s.submissions).map (·.id) = s.submissions.toList.map Prod.fst := by
    rw [valuesOf, List.map_map]
    refine List.map_congr_left fun row hrow => ?_
    exact h row.1 row.2 (Std.ExtTreeMap.mem_toList_iff_getElem?_eq_some.mp hrow)
  have hnodup : ((valuesOf s.submissions).map (·.id)).Nodup := by
    rw [hkeys]
    exact Tally.nodup_keys s.submissions
  exact hnodup.sublist (List.filter_sublist.map _)

/-- a submission that runs is taken out of execution -/
theorem setSubmissionStatus_rests (h : Represents db w) (ht : w.sessions t.id = some t)
    {request operation : Uuid} (hx : t.submissions[request]? = some x) (hrun : x.status = .running)
    {status : SubmissionStatus} (hstatus : status ∈ [SubmissionStatus.interrupted, .queued])
    (hnew : t.operations[operation]? = none) (hsmall : SmallEvents) (hroom : t.revision + 1 < 2 ^ 63)
    (env : Env) : ∃ y t' db', setSubmissionStatus env t.id request status operation db = .ok (y, t', db') ∧
      t.apply operation (.submissionChanged request status) = .ok t' ∧
      Represents db' (w.setSession t') ∧ Beside db db' := by
  obtain ⟨head, hl⟩ := h.loadSession ht
  have hloaded := (SessionLoaded.of_load h hl).1
  obtain ⟨t', hap, hsubs⟩ : ∃ t', t.apply operation (.submissionChanged request status) = .ok t' ∧
      t'.submissions = t.submissions.modify request fun x => { x with status := status } :=
    ⟨_, rfl, rfl⟩
  obtain ⟨hash, db', happ, htasks, hleases, hkeys⟩ := hloaded.appends h
    (env.appendClock 0) hap ⟨hsmall.changed _ _ _ status hstatus, hroom⟩
  have hcommand : sessionCommand env t.id t.revision operation (.submissionChanged request status) db =
      .ok (t', db') := sessionCommand_new hl hnew rfl rfl happ
  have hget : t'.submissions[request]? = some { x with status := status } := by
    rw [hsubs, Std.ExtTreeMap.getElem?_modify_self, hx]
    rfl
  have hmoves : transitions t request x.status status = true := by
    rw [hrun]
    simp only [List.mem_cons, List.not_mem_nil, or_false] at hstatus
    rcases hstatus with rfl | rfl <;> rfl
  have hne : x.status ≠ status := by
    rw [hrun]
    rintro rfl
    simp at hstatus
  refine ⟨{ x with status := status }, t', db', ?_, hap, (hloaded.append h happ trivial).represents,
    htasks, hleases, hkeys⟩
  rw [setSubmissionStatus, hl, ok_bind]
  simp only
  rw [submissionOf, hx]
  show (if x.status = status then _ else _) = _
  rw [if_neg hne, refuseIf_of_not _ (by rw [hmoves]; decide), ok_bind, hcommand, ok_bind]
  simp only
  rw [submissionOf, hget]
  rfl

theorem recoveredStatus_mem (s : SessionState) (x : Submission) :
    recoveredStatus s x ∈ [SubmissionStatus.interrupted, .queued] := by
  unfold recoveredStatus
  split <;> simp

theorem recoverSubmission_meets (h : Represents db (w.setSession t)) (hc : Changed r s done t)
    (hnamed : Named s) (hdraws : DrawsNew r s) (hdone : ∀ y ∈ done, y ∈ runningOf s)
    (hx : x ∈ runningOf s) (hnew : ∀ y ∈ done, y.id ≠ x.id) (hsmall : SmallEvents)
    (hroom : t.revision + 1 < 2 ^ 63) :
    Meets E (recoverSubmission r s db x) fun db' => ∃ t', Changed r s (done ++ [x]) t' ∧
      Represents db' (w.setSession t') ∧ Beside db db' := by
  have hget : t.submissions[x.id]? = some x := (hc.others x.id hnew).trans (hnamed.running hx)
  have hfree : t.operations[r.drawn s.id x.id]? = none := by
    rw [← Option.not_isSome_iff_eq_none, ← Std.ExtTreeMap.mem_iff_isSome_getElem?]
    intro hmem
    rcases hc.operations _ hmem with hold | ⟨y, hy, he⟩
    · exact hdraws.new x hx hold
    · exact hnew y hy (hdraws.distinct y (hdone y hy) x hx he.symm)
  obtain ⟨y, t', db', hset, hap, hr, hbeside⟩ := setSubmissionStatus_rests h (World.setSession_get w t)
    hget (mem_runningOf.mp hx).2 (recoveredStatus_mem s x) hfree hsmall hroom (r.changing s.id x.id)
  rw [hc.id] at hset
  rw [recoverSubmission, hset, ok_bind]
  obtain ⟨hid, hrev, -⟩ := apply_keeps hap
  rw [World.setSession_setSession hid] at hr
  refine ⟨t', ⟨hid.trans hc.id, ?_, ?_, fun id hmem => ?_, fun z hz v hv => ?_, fun k hk => ?_⟩, hr, hbeside⟩
  · cases hap
    exact hc.active
  · rw [hrev, hc.revision, List.length_append]
    rfl
  · obtain ⟨digest, hops, -⟩ := apply_operations hap
    rw [hops, Std.ExtTreeMap.mem_insert] at hmem
    rcases hmem with he | hold
    · exact .inr ⟨x, by simp, (Std.LawfulEqOrd.compare_eq_iff_eq.mp he).symm⟩
    · rcases hc.operations id hold with hold | ⟨y, hy, he⟩
      · exact .inl hold
      · exact .inr ⟨y, List.mem_append_left _ hy, he⟩
  · have hsubs : t'.submissions = t.submissions.modify x.id fun y =>
        { y with status := recoveredStatus s x } := by
      cases hap
      rfl
    rw [hsubs, Std.ExtTreeMap.getElem?_modify] at hv
    split at hv
    · obtain ⟨u, -, rfl⟩ := Option.map_eq_some_iff.mp hv
      show recoveredStatus s x ≠ .running
      intro he
      have hmem := recoveredStatus_mem s x
      rw [he] at hmem
      simp at hmem
    · rename_i hne
      rcases List.mem_append.mp hz with hz | hz
      · exact hc.rests z hz v hv
      · cases List.mem_singleton.mp hz
        exact absurd Std.ReflCmp.compare_self hne
  · have hsubs : t'.submissions = t.submissions.modify x.id fun y =>
        { y with status := recoveredStatus s x } := by
      cases hap
      rfl
    rw [hsubs, Std.ExtTreeMap.getElem?_modify, if_neg]
    · exact hc.others k fun y hy => hk y (List.mem_append_left _ hy)
    · intro he
      exact hk x (by simp) (Std.LawfulEqOrd.compare_eq_iff_eq.mp he)

/-- **No submission of the session runs any more.** -/
theorem recoverSession_meets (h : Represents db w) (hs : w.sessions s.id = some s) (hnamed : Named s)
    (hdraws : DrawsNew r s) (hsmall : SmallEvents)
    (hroom : s.revision + (runningOf s).length < 2 ^ 63) :
    Meets E (recoverSession r db s) fun db' => ∃ t, Worked Requeues db w s t db' := by
  have hfold := foldlM_meets (E := E) (recoverSubmission r s) (runningOf s)
    (I := fun done db' => ∃ t, Changed r s done t ∧ Represents db' (w.setSession t) ∧ Beside db db')
    ?_ [] (runningOf s) db rfl ⟨s, ⟨rfl, rfl, rfl, fun _ h => .inl h, fun _ h => (nomatch h),
      fun _ _ => rfl⟩, by rw [World.setSession_self hs]; exact h, .refl db⟩
  · refine hfold.mono ?_
    rintro db' ⟨t, hc, hr, hbeside⟩
    refine ⟨t, hc.id, ⟨hc.active, fun k x hx => ?_⟩, hr, hbeside⟩
    by_cases hdone : ∃ y ∈ runningOf s, y.id = k
    · obtain ⟨y, hy, rfl⟩ := hdone
      exact hc.rests y hy x hx
    · rw [hc.others k fun y hy he => hdone ⟨y, hy, he⟩] at hx
      intro hrun
      exact hdone ⟨x, mem_runningOf.mpr ⟨⟨k, hx⟩, hrun⟩, hnamed k x hx⟩
  · rintro done x rest db' hsplit ⟨t, hc, hr, hbeside⟩
    have hmem : ∀ y ∈ done, y ∈ runningOf s := fun y hy => by
      rw [← hsplit]
      exact List.mem_append_left _ hy
    have hdistinct := hnamed.distinct
    rw [← hsplit, List.map_append, List.map_cons] at hdistinct
    have hlen := congrArg List.length hsplit
    rw [List.length_append, List.length_cons] at hlen
    refine (recoverSubmission_meets hr hc hnamed hdraws hmem (by rw [← hsplit]; simp)
      (fun y hy => (List.nodup_append.mp hdistinct).2.2 y.id (List.mem_map_of_mem hy) x.id
        List.mem_cons_self) hsmall (by rw [hc.revision]; omega)).mono ?_
    rintro db'' ⟨t', hc', hr', hbeside'⟩
    exact ⟨t', hc', hr', hbeside.trans hbeside'⟩

end

end

end Orvek
