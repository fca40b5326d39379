import Orvek.Events.Rows
import Orvek.Store.Host

/-!
# The intake of events

The host turns an event into a submission of its session.  The row of the event and the submission
are written by separate transactions; a reconciliation reads both, and it may stop between any two
of them and be run again.

* `reconcileEvent`, `admitEvent`, `submitEvent`   the parts of a reconciliation;
* `tickSource`        a source in the loop of the worker;
* `IntakeStep`        deliveries, cancellations, disabled sources and the worker, one at a time under
                      the lock on the intake, beside the rest of the host;
* `Holder.Current`    what the holder of the lock knows of the rows;
* `Intaking.Orderly`    the invariant, and `IntakeStep.orderly` carries it;
* `events_submitted_once`   an event is submitted once, and not at all after it was cancelled.
-/

set_option linter.unusedSectionVars false

namespace Orvek
open Checks Json Grid

section
variable [Sha256] [ContractCodec] [SessionCodec] [StoreCodec] [EventCodec] [JsonReader]

/-! ## reconciliation -/

/-- what the intake finds outside the tables -/
structure IntakeEnv where
  store : Env
  events : EventEnv
  /-- `validate_session_admission`, and the authority of the profile that it admits -/
  admission : SessionState → Except StoreError Digest
  /-- `error.to_string()` -/
  describe : StoreError → String

/-- what follows an event -/
inductive Rest where
  /-- the answer to a delivery or to a cancellation -/
  | finish
  /-- other events that were pending, and whether the worker goes on to its sources -/
  | events (pending : List EventRecord) (worker : Bool)
  | sources (sources : List SourceRecord)

/-- where a reconciliation stands -/
inductive Stage where
  | reconcile
  /-- the intent to cancel is to be saved -/
  | cancelling
  /-- `cancel_submission` -/
  | withdraw
  /-- `cancel_request`, for a submission that runs -/
  | interrupt
  | reread
  | admitting (source : SourceRecord)
  | submit (source : SourceRecord) (text : String)
  | save

/-- the holder of the lock on the intake -/
inductive Holder where
  | free
  /-- an event with the intent to cancel it, to be saved -/
  | cancelled (event : EventRecord)
  /-- a source that is disabled, and whose events are to be listed -/
  | disabled (source : Uuid)
  | working (stage : Stage) (event : EventRecord) (rest : Rest)
  | next (rest : Rest)

def validateEventSource (env : IntakeEnv) (source : SourceRecord) (db : Db) :
    Except StoreError Unit := do
  let (s, _) ← loadSessionState db source.config.session none
  let authority ← env.admission s
  refuseIf (authority ≠ source.authority)
    (StoreError.invalid "event source admission authority changed")

def SourceRecord.intent (source : SourceRecord) : WorkIntent :=
  .newTask source.config.limits (Digest.of (EventCodec.policy source.config.policy))

namespace EventRecord

def conflicts (event : EventRecord) (source : SourceRecord) (x : Submission) : Bool :=
  x.initialInput ≠ event.input ∨ x.intent ≠ source.intent

def refused (event : EventRecord) : EventRecord :=
  { event with
    error := some "event request ID conflicts with another queue submission"
    settled := true }

def adopt (event : EventRecord) (source : SourceRecord) (existing : Option Submission) : EventRecord :=
  { event with
    cancelRequested := event.cancelRequested || source.disabled
    submission := existing
    error := none }

def withdrawn (event : EventRecord) : EventRecord :=
  { event with settled := event.submission.all fun x => !x.status.pending }

def settle (event : EventRecord) : EventRecord :=
  { event with settled := event.settled || event.submission.any fun x => !x.status.pending }

end EventRecord

/-- the first part of a reconciliation: what there is of the event in the queue, and what follows -/
def reconcileEvent (db : Db) (events : EventDb) (event : EventRecord) (rest : Rest) :
    Except StoreError Holder :=
  if event.settled then .ok (.next rest)
  else do
    let source ← events.eventSource event.source
    let (s, _) ← loadSessionState db event.session none
    let existing := s.submissions[event.request]?
    if existing.any (event.conflicts source) then .ok (.working .save event.refused rest)
    else
      let event := event.adopt source existing
      if event.cancelRequested then .ok (.working .cancelling event rest)
      else if event.submission.isNone then .ok (.working (.admitting source) event rest)
      else .ok (.working .save event.settle rest)

def admitEvent (env : IntakeEnv) (source : SourceRecord) (event : EventRecord) (db : Db) :
    Except StoreError String := do
  validateEventSource env source db
  let prepared ← env.store.input event.input
  .ok prepared.text

/-- `Host::submit` -/
def submitEvent (env : IntakeEnv) (source : SourceRecord) (text : String) (event : EventRecord)
    (db : Db) : Except StoreError (Submission × SessionState × Option TaskState × Db) := do
  let prepared ← env.events.prepare [ofFields [("type", .string "input_text"), ("text", .string text)]]
  source.config.policy.validate
  source.config.limits.validate.mapError StoreError.contract
  env.events.put (EventCodec.policy source.config.policy)
  submit env.store event.session event.request prepared.artifact source.intent db

/-- `cancel_request`: the task of the active request is told to stop -/
def cancelRequest (env : Env) (session : SessionId) (request : Uuid) (db : Db) :
    Except StoreError (Option TaskState × Db) := do
  let (s, _) ← loadSessionState db session none
  if s.activeRequest ≠ some request ∨ s.kind ≠ .task then .ok (none, db)
  else
    match s.tasksByRequest[request]? with
    | none => .ok (none, db)
    | some id => do
      let (task, _) ← loadState db id
      if task.outcome.isSome then .ok (none, db)
      else do
        let (task, db) ← requestCancellation env id db
        .ok (some task, db)

/-- a submission that waits, or that runs and is not admitted, is cancelled in the queue -/
def withdraws (s : SessionState) (x : Submission) (request : Uuid) : Prop :=
  x.status = .queued ∨ x.status = .running ∧ request ∉ s.operations

instance (s : SessionState) (x : Submission) (request : Uuid) : Decidable (withdraws s x request) := by
  unfold withdraws
  infer_instance

/-! ## the worker -/

/-- what follows the events before it -/
def Rest.resume (events : EventDb) : Rest → Holder
  | .finish => .free
  | .events (event :: pending) worker => .working .reconcile event (.events pending worker)
  | .events [] true => .next (.sources events.eventSources)
  | .events [] false => .free
  | .sources _ => .free

/-- a source of the worker: whether it is still admitted, and its clock -/
def tickSource (env : IntakeEnv) (source : SourceRecord) (rest : List SourceRecord) (now : Nat) (db : Db)
    (events : EventDb) : Holder × EventDb :=
  match validateEventSource env source db with
  | .error e =>
    (.next (.sources rest), events.recordEventSourceAdmission source (some (env.describe e)))
  | .ok () =>
    match tickEventSource env.events source.config.id now
      (events.recordEventSourceAdmission source none) with
    | (.ok (some event), events) => (.working .reconcile event (.sources rest), events)
    | (.ok none, events) => (.next (.sources rest), events)
    | (.error (.invalid error), events) =>
      if error = "host event intake capacity reached" then (.next (.sources rest), events)
      else (.free, events)
    | (.error _, events) => (.free, events)

/-! ## steps -/

/-- the store with its tables of events, the holder of the lock, and the events that the intake
submitted, the latest first -/
structure Intaking where
  db : Db
  world : World
  events : EventDb
  holder : Holder
  log : List (Uuid × String)

def Intaking.empty : Intaking := ⟨.empty, .empty, .empty, .free, []⟩

/-- one step of the host; any step that fails ends as `stop` does, and so does a crash -/
inductive IntakeStep (c : Intaking) : Intaking → Prop
  | host {task : Option TaskState} {session : Option SessionState} {db : Db}
      (h : HostStep (fun _ _ => True) c.db task session db) :
      IntakeStep c { c with db := db, world := c.world.write task session }
  | stop : IntakeStep c { c with holder := .free }
  | register {env : IntakeEnv} {config : SourceConfig} {s : SessionState} {head authority : Digest}
      {source : SourceRecord} {events : EventDb} (hfree : c.holder = .free)
      (hload : loadSessionState c.db config.session none = .ok (s, head))
      (hadmits : env.admission s = .ok authority)
      (h : c.events.registerEventSource config authority = .ok (source, events)) :
      IntakeStep c { c with events := events }
  | deliver {env : IntakeEnv} {source : Uuid} {key payload : String} {now : Nat} {event : EventRecord}
      {events : EventDb} (hfree : c.holder = .free)
      (hvalid : c.events.event source key = none → ∃ configured,
        c.events.eventSource source = .ok configured ∧ validateEventSource env configured c.db = .ok ())
      (h : receiveEvent env.events source key payload now c.events = .ok (event, events)) :
      IntakeStep c { c with events := events, holder := .working .reconcile event .finish }
  | cancel {source : Uuid} {key : String} {event : EventRecord} (hfree : c.holder = .free)
      (h : c.events.event source key = some event) :
      IntakeStep c { c with holder := .cancelled { event with cancelRequested := true } }
  | cancelSaved {event : EventRecord} (h : c.holder = .cancelled event) :
      IntakeStep c { c with events := c.events.saveEvent event,
                            holder := .working .reconcile event .finish }
  | disable {id : Uuid} {source : SourceRecord} {events : EventDb} (hfree : c.holder = .free)
      (h : c.events.disableEventSource id = .ok (source, events)) :
      IntakeStep c { c with events := events, holder := .disabled id }
  | list {id : Uuid} (h : c.holder = .disabled id) :
      IntakeStep c { c with holder := .next (.events
        (c.events.pendingEvents.filter fun event => event.source = id) false) }
  | work (hfree : c.holder = .free) :
      IntakeStep c { c with holder := .next (.events c.events.pendingEvents true) }
  | resume {rest : Rest} (h : c.holder = .next rest) (hrest : ∀ source sources,
      rest ≠ .sources (source :: sources)) : IntakeStep c { c with holder := rest.resume c.events }
  | tick (env : IntakeEnv) {source : SourceRecord} {rest : List SourceRecord} (now : Nat)
      (h : c.holder = .next (.sources (source :: rest))) :
      IntakeStep c { c with events := (tickSource env source rest now c.db c.events).2,
                            holder := (tickSource env source rest now c.db c.events).1 }
  | reconcile {event : EventRecord} {rest : Rest} {holder : Holder}
      (h : c.holder = .working .reconcile event rest)
      (hc : reconcileEvent c.db c.events event rest = .ok holder) :
      IntakeStep c { c with holder := holder }
  | cancelling {event : EventRecord} {rest : Rest} (h : c.holder = .working .cancelling event rest) :
      IntakeStep c { c with
        events := c.events.saveEvent event,
        holder := if event.submission.isSome then .working .withdraw event rest
          else .working .save event.withdrawn.settle rest }
  | withdraw {env : IntakeEnv} {operation : Uuid} {event : EventRecord} {rest : Rest} {s t : SessionState}
      {head : Digest} {x y : Submission} {db : Db} (h : c.holder = .working .withdraw event rest)
      (hload : loadSessionState c.db event.session none = .ok (s, head))
      (hx : s.submissions[event.request]? = some x) (hwaits : withdraws s x event.request)
      (hc : setSubmissionStatus env.store event.session event.request .cancelled operation c.db =
        .ok (y, t, db)) :
      IntakeStep c { c with
        db := db, world := c.world.write none (some t),
        holder := .working .save ({ event with submission := some y }).withdrawn.settle rest }
  | running {event : EventRecord} {rest : Rest} {s : SessionState} {head : Digest} {x : Submission}
      (h : c.holder = .working .withdraw event rest)
      (hload : loadSessionState c.db event.session none = .ok (s, head))
      (hx : s.submissions[event.request]? = some x) (hwaits : ¬ withdraws s x event.request) :
      IntakeStep c { c with
        holder := .working (if x.status = .running ∧ s.activeRequest = some event.request
          then .interrupt else .reread) event rest }
  | interrupt {env : IntakeEnv} {event : EventRecord} {rest : Rest} {task : Option TaskState} {db : Db}
      (h : c.holder = .working .interrupt event rest)
      (hc : cancelRequest env.store event.session event.request c.db = .ok (task, db)) :
      IntakeStep c { c with
        db := db, world := c.world.write task none, holder := .working .reread event rest }
  | reread {event : EventRecord} {rest : Rest} {s : SessionState} {head : Digest} {x : Submission}
      (h : c.holder = .working .reread event rest)
      (hload : loadSessionState c.db event.session none = .ok (s, head))
      (hx : s.submissions[event.request]? = some x) :
      IntakeStep c { c with
        holder := .working .save ({ event with submission := some x }).withdrawn.settle rest }
  | admitting {env : IntakeEnv} {source : SourceRecord} {event : EventRecord} {rest : Rest} {text : String}
      (h : c.holder = .working (.admitting source) event rest)
      (hc : admitEvent env source event c.db = .ok text) :
      IntakeStep c { c with holder := .working (.submit source text) event rest }
  | submit {env : IntakeEnv} {source : SourceRecord} {text : String} {event : EventRecord} {rest : Rest}
      {s t : SessionState} {head : Digest} {x : Submission} {task : Option TaskState} {db : Db}
      (h : c.holder = .working (.submit source text) event rest)
      (hload : loadSessionState c.db event.session none = .ok (s, head))
      (hc : submitEvent env source text event c.db = .ok (x, t, task, db)) :
      IntakeStep c { c with
        db := db, world := c.world.write task (some t),
        holder := .working .save ({ event with submission := some x }).settle rest,
        -- a submission that was there is returned, and nothing is submitted
        log := if event.request ∈ s.submissions then c.log
          else (event.source, event.key) :: c.log }
  /-- an admission that fails, for the host may be shutting down as well -/
  | unadmitted {stage : Stage} {event : EventRecord} {rest : Rest} (error : String)
      (h : c.holder = .working stage event rest)
      (hstage : (∃ source, stage = .admitting source) ∨ ∃ source text, stage = .submit source text) :
      IntakeStep c { c with holder := .working .save ({ event with error := some error }).settle rest }
  | save {event : EventRecord} {rest : Rest} (h : c.holder = .working .save event rest) :
      IntakeStep c { c with events := c.events.saveEvent event, holder := .next rest }

abbrev IntakeRun : Intaking → Intaking → Prop := Relation.ReflTransGen IntakeStep

abbrev IntakeReachable (c : Intaking) : Prop := IntakeRun .empty c

/-! ## what the holder knows -/

def Fresh (events : EventDb) (event : EventRecord) : Prop :=
  ∃ row, events.events.get event.request = some row ∧ row.record = event

/-- the event is changed, and is still to be saved -/
def InHand (events : EventDb) (event : EventRecord) : Prop :=
  ∃ row, events.events.get event.request = some row ∧ Revises row.record event

def OpenInHand (events : EventDb) (event : EventRecord) : Prop :=
  ∃ row, events.events.get event.request = some row ∧ Revises row.record event ∧
    row.record.settled = false

/-- the copies that are left; `held` are the requests of the events that were taken before -/
def Rest.Current (events : EventDb) (held : List Uuid) : Rest → Prop
  | .finish => True
  | .events pending _ => (∀ e ∈ pending, Fresh events e) ∧
      (held ++ pending.map EventRecord.request).Nodup
  | .sources listed => (∀ s ∈ listed, events.findEventSource s.config.id = some s) ∧
      (listed.map fun s => s.config.id).Nodup

/-- an event is admitted while neither it nor its source is taken back -/
structure Admissible (events : EventDb) (event : EventRecord) (source : SourceRecord) : Prop where
  inHand : OpenInHand events event
  wanted : event.cancelRequested = false
  found : events.findEventSource event.source = some source
  enabled : source.disabled = false

def Stage.Current (events : EventDb) (event : EventRecord) : Stage → Prop
  | .reconcile => Fresh events event
  | .cancelling => OpenInHand events event ∧ event.settled = false
  | .admitting source => Admissible events event source
  | .submit source _ => Admissible events event source
  | .withdraw | .interrupt | .reread | .save => OpenInHand events event

def Holder.Current (events : EventDb) : Holder → Prop
  | .free => True
  | .disabled _ => True
  | .cancelled event => InHand events event
  | .working stage event rest => stage.Current events event ∧ rest.Current events [event.request]
  | .next rest => rest.Current events []

section
variable {db db' : Db} {w w' : World} {events events' : EventDb} {event : EventRecord}
  {source : SourceRecord} {rest : Rest} {log : List (Uuid × Window)}
variable {env : EventEnv} {id request : Uuid} {t : SessionState} {task : Option TaskState}
  {session : SessionId} {x : Submission}

theorem OpenInHand.inHand (h : OpenInHand events event) : InHand events event := by
  obtain ⟨row, hrow, hr, -⟩ := h
  exact ⟨row, hrow, hr⟩

theorem Fresh.inHand (h : Fresh events event) {event' : EventRecord}
    (hr : Revises event event') : InHand events event' := by
  obtain ⟨row, hrow, rfl⟩ := h
  exact ⟨row, by rw [hr.request]; exact hrow, hr⟩

theorem Fresh.openInHand (h : Fresh events event) (hopen : event.settled = false)
    {event' : EventRecord} (hr : Revises event event') : OpenInHand events event' := by
  obtain ⟨row, hrow, rfl⟩ := h
  exact ⟨row, by rw [hr.request]; exact hrow, hr, hopen⟩

theorem Rest.Current.weaken {held : List Uuid} (h : rest.Current events held) : rest.Current events [] := by
  cases rest with
  | finish => trivial
  | events pending worker =>
    obtain ⟨hfresh, hnodup⟩ := h
    exact ⟨hfresh, (List.nodup_append.mp hnodup).2.1⟩
  | sources listed => exact h

/-! ## saves -/

theorem fresh_saveEvent (h : InHand events event) : Fresh (events.saveEvent event) event := by
  obtain ⟨row, hrow, -⟩ := h
  refine ⟨{ row with record := event, settled := event.settled }, ?_, rfl⟩
  rw [get_saveEvent, if_pos rfl, hrow]
  rfl

theorem Fresh.save (h : Fresh events event) {other : EventRecord} (hne : event.request ≠ other.request) :
    Fresh (events.saveEvent other) event := by
  obtain ⟨row, hrow, he⟩ := h
  exact ⟨row, by rw [get_saveEvent, if_neg hne]; exact hrow, he⟩

theorem Rest.Current.save (h : rest.Current events [event.request]) :
    rest.Current (events.saveEvent event) [event.request] := by
  cases rest with
  | finish => trivial
  | events pending worker =>
    obtain ⟨hfresh, hnodup⟩ := h
    refine ⟨fun e he => (hfresh e he).save ?_, hnodup⟩
    rintro hsame
    rw [List.singleton_append, List.nodup_cons] at hnodup
    exact hnodup.1 (hsame ▸ List.mem_map_of_mem he)
  | sources listed => exact h

/-! ## lists -/

theorem pendingEvents_current (hs : Scheduled events log) (hk : RowsKept events) (worker : Bool) :
    (Rest.events events.pendingEvents worker).Current events [] := by
  have hget : ∀ row ∈ events.events, events.events.get row.1 = some row.2 :=
    fun row hrow => Table.get_row hs.requests hrow
  refine ⟨fun e he => ?_, ?_⟩
  · obtain ⟨row, hrow, rfl⟩ := List.mem_map.mp (List.mem_of_mem_take he)
    have hfound := hget row (List.mem_filter.mp hrow).1
    refine ⟨row.2, ?_, rfl⟩
    rw [(hk.named _ _ hfound).1]
    exact hfound
  · rw [List.nil_append, EventDb.pendingEvents, List.map_take, List.map_map]
    have hkeys : (events.events.filter fun row => !row.2.settled).map
        (EventRecord.request ∘ fun row => row.2.record) =
        (events.events.filter fun row => !row.2.settled).map Prod.fst :=
      List.map_congr_left fun row hrow =>
        (hk.named _ _ (hget row (List.mem_filter.mp hrow).1)).1
    rw [hkeys]
    exact ((List.filter_sublist.map Prod.fst).nodup hs.requests).sublist (List.take_sublist _ _)

theorem Rest.Current.filter {pending : List EventRecord} {worker : Bool}
    (h : (Rest.events pending worker).Current events []) (p : EventRecord → Bool) (worker' : Bool) :
    (Rest.events (pending.filter p) worker').Current events [] := by
  obtain ⟨hfresh, hnodup⟩ := h
  refine ⟨fun e he => hfresh e (List.mem_filter.mp he).1, ?_⟩
  exact hnodup.sublist (List.filter_sublist.map EventRecord.request)

theorem eventSources_current (hs : Scheduled events log) (hk : RowsKept events) :
    (Rest.sources events.eventSources).Current events [] := by
  have hfound : ∀ row ∈ events.sources, events.findEventSource row.1 = some row.2.record :=
    fun row hrow => findEventSource_of_row (Table.get_row hk.sources hrow)
  have hnamed : ∀ row ∈ events.sources, row.2.record.config.id = row.1 :=
    fun row hrow => (hs.sources _ _ (hfound row hrow)).named
  have hmem : ∀ row ∈ (events.sources.filter fun row => !row.2.disabled).mergeSort
      (fun a b => a.1.bits.toNat ≤ b.1.bits.toNat), row ∈ events.sources :=
    fun row hrow => (List.mem_filter.mp (List.mem_mergeSort.mp hrow)).1
  refine ⟨fun s hs' => ?_, ?_⟩
  · obtain ⟨row, hrow, rfl⟩ := List.mem_map.mp hs'
    rw [hnamed row (hmem row hrow)]
    exact hfound row (hmem row hrow)
  · rw [EventDb.eventSources, List.map_map]
    have hkeys : List.map ((fun s : SourceRecord => s.config.id) ∘ fun row : Uuid × SourceRow =>
        row.2.record) ((events.sources.filter fun row => !row.2.disabled).mergeSort
          (fun a b => a.1.bits.toNat ≤ b.1.bits.toNat)) =
        ((events.sources.filter fun row => !row.2.disabled).mergeSort
          (fun a b => a.1.bits.toNat ≤ b.1.bits.toNat)).map Prod.fst :=
      List.map_congr_left fun row hrow => hnamed row (hmem row hrow)
    rw [hkeys]
    exact ((List.mergeSort_perm _ _).map Prod.fst).nodup_iff.mpr
      (hk.sources.sublist (List.filter_sublist.map Prod.fst))

theorem Rest.Current.resume (h : rest.Current events []) (hs : Scheduled events log)
    (hk : RowsKept events) : (rest.resume events).Current events := by
  cases rest with
  | finish => trivial
  | events pending worker =>
    cases pending with
    | nil =>
      cases worker with
      | false => trivial
      | true => exact eventSources_current hs hk
    | cons event pending =>
      obtain ⟨hfresh, hnodup⟩ := h
      exact ⟨hfresh event List.mem_cons_self,
        fun e he => hfresh e (List.mem_cons_of_mem event he), hnodup⟩
  | sources listed => trivial

/-! ## events that are written -/

theorem insertEvent_fresh (hs : Scheduled events log) (hk : RowsKept events) {key payload : String}
    {now : Nat} (h : insertEvent env source key payload now events = .ok (event, events')) :
    Fresh events' event := by
  rcases insertEvent_ok h with ⟨hold, rfl, -⟩ | ⟨-, -, hrow, -⟩
  · obtain ⟨row, hrow, he, -⟩ := hk.of_event hs.requests hold
    exact ⟨row, hrow, he⟩
  · obtain ⟨-, -, hinsert⟩ := insertRow_ok hrow
    refine ⟨⟨event.source, event.key, event, event.settled⟩, ?_, rfl⟩
    rw [(Table.get_insert hinsert _).2, if_pos rfl]

theorem tickEventSource_fresh (hs : Scheduled events log) (hk : RowsKept events) {now : Nat}
    (h : (tickEventSource env id now events).1 = .ok (some event)) :
    Fresh (tickEventSource env id now events).2 event := by
  rcases tick_cases env id now events with ⟨s, w, following, e, db', hdue, hemit, htick, -⟩ | ⟨hnone, -, -⟩
  · rw [htick] at h ⊢
    cases h
    obtain ⟨⟨e, db₁⟩, hinsert, hemit⟩ := bind_ok hemit
    obtain ⟨-, -, hemit⟩ := bind_ok hemit
    cases hemit
    -- the cursor is in the other table
    have hfresh := insertEvent_fresh hs hk hinsert
    exact hfresh
  · exact absurd h (hnone event)

/-! ## a source of the worker -/

theorem recordEventSourceAdmission_other (error : Option String) {key : Uuid}
    (hne : key ≠ source.config.id) :
    (events.recordEventSourceAdmission source error).findEventSource key =
      events.findEventSource key := by
  unfold EventDb.recordEventSourceAdmission
  split
  · rfl
  · rw [EventDb.writeSource, findEventSource_update, if_neg hne]

theorem tickEventSource_other (env : EventEnv) {key : Uuid} (now : Nat) (hne : key ≠ id) :
    (tickEventSource env id now events).2.findEventSource key = events.findEventSource key := by
  rcases tick_cases env id now events with ⟨s, w, following, e, db', hdue, hemit, htick, -⟩ | ⟨-, hsame, -⟩
  · rw [htick]
    obtain ⟨⟨e, db₁⟩, hinsert, hemit⟩ := bind_ok hemit
    obtain ⟨-, -, hemit⟩ := bind_ok hemit
    cases hemit
    rw [EventDb.writeSource, findEventSource_update, if_neg hne]
    rcases insertEvent_rows hinsert with rfl | hrow
    · rfl
    · exact findEventSource_same (insertRow_ok hrow).2.1 key
  · rw [hsame]

/-- the tables after one source, and what is left to do -/
theorem tickSource_current (hreach : EventReachable events log) (env : IntakeEnv)
    {sources : List SourceRecord} (now : Nat) (db : Db)
    (h : (Rest.sources (source :: sources)).Current events []) :
    (∃ log', EventReachable (tickSource env source sources now db events).2 log') ∧
      events.Carries (tickSource env source sources now db events).2 ∧
      (tickSource env source sources now db events).1.Current
        (tickSource env source sources now db events).2 := by
  obtain ⟨hfound, hnodup⟩ := h
  rw [List.map_cons, List.nodup_cons] at hnodup
  -- the sources that are left are not the one of the step
  have hother : ∀ s ∈ sources, s.config.id ≠ source.config.id := by
    rintro s hs he
    exact hnodup.1 (he ▸ List.mem_map_of_mem hs)
  have hadmission : ∀ error, EventStep events [] (events.recordEventSourceAdmission source error) :=
    fun error => .admission error (hfound source List.mem_cons_self)
  have hleft : ∀ error, (Rest.sources sources).Current
      (events.recordEventSourceAdmission source error) [] := by
    refine fun error => ⟨fun s hs => ?_, hnodup.2⟩
    rw [recordEventSourceAdmission_other error (hother s hs)]
    exact hfound s (List.mem_cons_of_mem source hs)
  unfold tickSource
  cases validateEventSource env source db with
  | error e =>
    exact ⟨⟨_, hreach.step (hadmission _)⟩, ((hadmission _).kept hreach.rowsKept).2, hleft _⟩
  | ok _ =>
    have hreach₁ := hreach.step (hadmission none)
    have htick : EventStep (events.recordEventSourceAdmission source none) _ _ :=
      .tick env.events source.config.id now
    have hreach₂ := hreach₁.step htick
    have hcarries := ((hadmission none).kept hreach.rowsKept).2.trans (htick.kept hreach₁.rowsKept).2
    have hleft₂ : (Rest.sources sources).Current (tickEventSource env.events source.config.id now
        (events.recordEventSourceAdmission source none)).2 [] := by
      refine ⟨fun s hs => ?_, hnodup.2⟩
      rw [tickEventSource_other _ _ (hother s hs)]
      exact (hleft none).1 s hs
    have hfresh : ∀ event, (tickEventSource env.events source.config.id now
        (events.recordEventSourceAdmission source none)).1 = .ok (some event) →
        Fresh (tickEventSource env.events source.config.id now
          (events.recordEventSourceAdmission source none)).2 event :=
      fun event h => tickEventSource_fresh hreach₁.scheduled hreach₁.rowsKept h
    generalize tickEventSource env.events source.config.id now
      (events.recordEventSourceAdmission source none) = out at hreach₂ hcarries hleft₂ hfresh
    obtain ⟨result, events₂⟩ := out
    cases result with
    | ok found =>
      cases found with
      | none => exact ⟨⟨_, hreach₂⟩, hcarries, hleft₂⟩
      | some event => exact ⟨⟨_, hreach₂⟩, hcarries, hfresh event rfl, hleft₂⟩
    | error e =>
      cases e with
      | invalid error =>
        simp only
        split
        · exact ⟨⟨_, hreach₂⟩, hcarries, hleft₂⟩
        · exact ⟨⟨_, hreach₂⟩, hcarries, trivial⟩
      | _ => exact ⟨⟨_, hreach₂⟩, hcarries, trivial⟩

/-! ## a reconciliation -/

theorem EventRecord.revises_adopt (event : EventRecord) (source : SourceRecord)
    (existing : Option Submission) : Revises event (event.adopt source existing) :=
  ⟨rfl, rfl, rfl, rfl, rfl, rfl, rfl, fun h => by rw [adopt, h]; rfl, fun h => h⟩

theorem OpenInHand.sets (h : OpenInHand events event) (submission : Option Submission)
    (settled : Bool) (error : Option String) :
    OpenInHand events { event with submission := submission, settled := settled, error := error } := by
  obtain ⟨row, hrow, hr, hopen⟩ := h
  refine ⟨row, hrow, ⟨hr.source, hr.key, hr.payloadDigest, hr.input, hr.session, hr.request,
    hr.receivedMs, hr.cancelRequested, fun hs => ?_⟩, hopen⟩
  rw [hopen] at hs
  cases hs

/-- **A reconciliation goes on with a row that is open**; it admits an event only while neither the
event nor its source is taken back. -/
theorem reconcileEvent_current (hfresh : Fresh events event) (hrest : rest.Current events [event.request])
    {holder : Holder} (h : reconcileEvent db events event rest = .ok holder) :
    holder.Current events := by
  unfold reconcileEvent at h
  split at h
  · cases h
    exact hrest.weaken
  · rename_i hopen
    rw [Bool.not_eq_true] at hopen
    obtain ⟨source, hsource, h⟩ := bind_ok h
    obtain ⟨⟨s, head⟩, -, h⟩ := bind_ok h
    have hheld : OpenInHand events event := hfresh.openInHand hopen (.refl _)
    have hadopted : OpenInHand events (event.adopt source s.submissions[event.request]?) :=
      hfresh.openInHand hopen (event.revises_adopt source _)
    simp only at h
    split at h
    · cases h
      exact ⟨hheld.sets _ _ _, hrest⟩
    · split at h
      · cases h
        exact ⟨⟨hadopted, hopen⟩, hrest⟩
      · rename_i hwanted
        split at h
        · cases h
          rw [EventRecord.adopt, Bool.not_eq_true, Bool.or_eq_false_iff] at hwanted
          refine ⟨⟨hadopted, ?_, eventSource_ok hsource, hwanted.2⟩, hrest⟩
          rw [EventRecord.adopt, hwanted.1, hwanted.2]
          rfl
        · cases h
          exact ⟨hadopted.sets _ _ _, hrest⟩

/-! ## submissions -/

/-- what was submitted to a session stays in it -/
def World.KeepsSubmissions (w w' : World) : Prop :=
  ∀ (id : SessionId) (s : SessionState), w.sessions id = some s →
    ∃ s', w'.sessions id = some s' ∧ ∀ request ∈ s.submissions, request ∈ s'.submissions

theorem World.KeepsSubmissions.refl (w : World) : w.KeepsSubmissions w :=
  fun _ s hs => ⟨s, hs, fun _ h => h⟩

theorem mem_submissions {s : SessionState} : request ∈ s.submissions ↔ s.submissions[request]? ≠ none := by
  rw [Std.ExtTreeMap.mem_iff_isSome_getElem?, Option.isSome_iff_ne_none]

theorem apply_keepsSubmissions {s : SessionState} {operation : Uuid} {c : SessionCommand ContextView}
    (h : s.apply operation c = .ok t) : ∀ request ∈ s.submissions, request ∈ t.submissions := by
  intro request hmem
  rw [mem_submissions] at hmem ⊢
  by_cases hc : ∃ x, c = .submitted x
  · obtain ⟨x, rfl⟩ := hc
    rw [apply_submitted h]
    split
    · exact Option.some_ne_none x
    · exact hmem
  · rw [apply_submissions h fun x hx => hc ⟨x, hx⟩]
    exact fun hnone => hmem (Option.map_eq_none_iff.mp hnone)

theorem HostStep.keepsSubmissions {admits : SessionState → HostCall → Prop} {session : Option SessionState}
    (h : HostStep admits db task session db') (hr : Represents db w) :
    w.KeepsSubmissions (w.write task session) := fun id s hs =>
  (HostRun.session_relation (P := fun _ => True)
    (R := fun s t => ∀ request ∈ s.submissions, request ∈ t.submissions) (fun _ _ => trivial)
    (fun _ _ h => h) (fun h h' _ ha => h' _ (h _ ha))
    (fun _ _ _ _ hap => ⟨trivial, applyAll_relation
      (R := fun s t => ∀ request ∈ s.submissions, request ∈ t.submissions) (fun _ _ h => h)
      (fun h h' _ ha => h' _ (h _ ha)) (fun _ _ _ _ hone => apply_keepsSubmissions hone) hap⟩)
    (HostRun.step .refl h) hr (fun _ _ _ => trivial)).2 id s hs

theorem submit_submitted {env : Env} {input : Digest} {intent : WorkIntent}
    (h : submit env session id input intent db = .ok (x, t, task, db')) : id ∈ t.submissions := by
  obtain ⟨⟨s, head⟩, -, h⟩ := bind_ok h
  obtain ⟨-, -, h⟩ := bind_ok h
  obtain ⟨prepared, -, h⟩ := bind_ok h
  obtain ⟨-, -, h⟩ := bind_ok h
  simp only at h
  rw [mem_submissions]
  split at h
  · rename_i previous hprevious
    obtain ⟨-, h⟩ := refuseIf_bind h
    cases h
    rw [hprevious]
    exact Option.some_ne_none _
  · obtain ⟨-, h⟩ := refuseIf_bind h
    obtain ⟨-, h⟩ := refuseIf_bind h
    obtain ⟨⟨task', db₁⟩, -, h⟩ := bind_ok h
    obtain ⟨⟨u, hash, db₂⟩, happ, h⟩ := bind_ok h
    cases h
    have hap := append_one happ rfl
    rw [applyAll_one] at hap
    rw [apply_submitted hap, if_pos rfl]
    exact Option.some_ne_none _

theorem submitEvent_submit {env : IntakeEnv} {text : String}
    (h : submitEvent env source text event db = .ok (x, t, task, db')) :
    ∃ input, submit env.store event.session event.request input source.intent db =
      .ok (x, t, task, db') := by
  obtain ⟨prepared, -, h⟩ := bind_ok h
  obtain ⟨-, -, h⟩ := bind_ok h
  obtain ⟨-, -, h⟩ := bind_ok h
  obtain ⟨-, -, h⟩ := bind_ok h
  exact ⟨prepared.artifact, h⟩

theorem submitEvent_step {env : IntakeEnv} {text : String}
    (h : submitEvent env source text event db = .ok (x, t, task, db')) :
    HostStep (fun _ _ => True) db task (some t) db' := by
  obtain ⟨input, hsubmit⟩ := submitEvent_submit h
  have hcall : (HostCall.submit event.session event.request input source.intent).run env.store db =
      .ok (task, t, db') := by
    rw [HostCall.run, hsubmit, ok_bind]
  exact .call hcall rfl fun _ _ _ => trivial

theorem submitEvent_found (hr : Represents db w) {env : IntakeEnv} {text : String}
    (h : submitEvent env source text event db = .ok (x, t, task, db')) :
    (w.write task (some t)).sessions event.session = some t ∧ event.request ∈ t.submissions := by
  obtain ⟨input, hsubmit⟩ := submitEvent_submit h
  have hcall : (HostCall.submit event.session event.request input source.intent).run env.store db =
      .ok (task, t, db') := by
    rw [HostCall.run, hsubmit, ok_bind]
  obtain ⟨s, head, frames, hl, -, hap⟩ := HostCall.plan hcall
  have hid : t.id = event.session := (applyAll_id hap).trans (SessionLoaded.of_load hr hl).2
  refine ⟨?_, submit_submitted hsubmit⟩
  rw [World.write_sessions, ← hid]
  exact Function.update_self ..

theorem setSubmissionStatus_step {env : Env} {operation : Uuid} {status : SubmissionStatus} {y : Submission}
    (h : setSubmissionStatus env session request status operation db = .ok (y, t, db')) :
    HostStep (fun _ _ => True) db none (some t) db' := by
  have hcall : (HostCall.setSubmissionStatus session request status operation).run env db =
      .ok (none, t, db') := by
    rw [HostCall.run, h, ok_bind]
  exact .call hcall rfl fun _ _ _ => trivial

theorem cancelRequest_cases {env : Env} (h : cancelRequest env session request db = .ok (task, db')) :
    (task = none ∧ db' = db) ∨ HostStep (fun _ _ => True) db task none db' := by
  obtain ⟨⟨s, head⟩, -, h⟩ := bind_ok h
  simp only at h
  split at h
  · cases h
    exact .inl ⟨rfl, rfl⟩
  · split at h
    · cases h
      exact .inl ⟨rfl, rfl⟩
    · obtain ⟨⟨u, g⟩, -, h⟩ := bind_ok h
      simp only at h
      split at h
      · cases h
        exact .inl ⟨rfl, rfl⟩
      · obtain ⟨⟨v, db₁⟩, hcancel, h⟩ := bind_ok h
        cases h
        exact .inr (.task (.requestCancellation hcancel))

/-! ## the invariant -/

def Intaking.Submitted (c : Intaking) (e : Uuid × String) : Prop :=
  ∃ event s, c.events.event e.1 e.2 = some event ∧ c.world.sessions event.session = some s ∧
    event.request ∈ s.submissions

structure Intaking.Orderly (c : Intaking) : Prop where
  represents : Represents c.db c.world
  reachable : ∃ log, EventReachable c.events log
  current : c.holder.Current c.events
  submitted : ∀ e ∈ c.log, c.Submitted e
  once : c.log.Nodup

def TakenBack (events : EventDb) (e : Uuid × String) : Prop :=
  (∃ event, events.event e.1 e.2 = some event ∧ event.cancelRequested = true) ∨
    ∃ source, events.findEventSource e.1 = some source ∧ source.disabled = true

/-- what a step leaves: nothing is taken back, and an event that is submitted was not either -/
structure Intaking.Goes (c c' : Intaking) : Prop where
  orderly : c'.Orderly
  carries : c.events.Carries c'.events
  log : c'.log = c.log ∨ ∃ e, c'.log = e :: c.log ∧ ¬ TakenBack c.events e

variable {c c' : Intaking}

theorem Intaking.Orderly.rowsKept (h : c.Orderly) : RowsKept c.events := by
  obtain ⟨log, hreach⟩ := h.reachable
  exact hreach.rowsKept

theorem Intaking.Orderly.requests (h : c.Orderly) : (c.events.events.map Prod.fst).Nodup := by
  obtain ⟨log, hreach⟩ := h.reachable
  exact hreach.scheduled.requests

theorem EventDb.Carries.found (h : events.Carries events') (hk : RowsKept events)
    (hnodup : (events.events.map Prod.fst).Nodup) (hk' : RowsKept events')
    (hnodup' : (events'.events.map Prod.fst).Nodup) {key : String}
    (hevent : events.event id key = some event) :
    ∃ event', events'.event id key = some event' ∧ Revises event event' := by
  obtain ⟨row, hrow, rfl, rfl, rfl⟩ := hk.of_event hnodup hevent
  obtain ⟨row', hrow', hr⟩ := h.rows _ row hrow
  have hfound := hk'.found hnodup' hrow'
  rw [hr.source, hr.key] at hfound
  exact ⟨row'.record, hfound, hr⟩

theorem TakenBack.carries {e : Uuid × String} (h : TakenBack events e) (hc : events.Carries events')
    (hk : RowsKept events) (hnodup : (events.events.map Prod.fst).Nodup) (hk' : RowsKept events')
    (hnodup' : (events'.events.map Prod.fst).Nodup) : TakenBack events' e := by
  rcases h with ⟨event, hevent, hcancelled⟩ | ⟨source, hsource, hdisabled⟩
  · obtain ⟨event', hevent', hr⟩ := hc.found hk hnodup hk' hnodup' hevent
    exact .inl ⟨event', hevent', hr.cancelRequested hcancelled⟩
  · obtain ⟨source', hsource', hd⟩ := hc.sources _ _ hsource
    exact .inr ⟨source', hsource', hd hdisabled⟩

theorem Intaking.Submitted.kept {e : Uuid × String} (h : c.Submitted e)
    (hc : c.events.Carries c'.events) (hw : c.world.KeepsSubmissions c'.world) (hk : RowsKept c.events)
    (hnodup : (c.events.events.map Prod.fst).Nodup) (hk' : RowsKept c'.events)
    (hnodup' : (c'.events.events.map Prod.fst).Nodup) : c'.Submitted e := by
  obtain ⟨event, s, hevent, hs, hmem⟩ := h
  obtain ⟨event', hevent', hr⟩ := hc.found hk hnodup hk' hnodup' hevent
  obtain ⟨s', hs', hkeeps⟩ := hw _ s hs
  refine ⟨event', s', hevent', by rw [hr.session]; exact hs', ?_⟩
  rw [hr.request]
  exact hkeeps _ hmem

/-! ### steps that submit nothing -/

theorem Intaking.Orderly.tables (h : c.Orderly) (hreach : ∃ log, EventReachable events log)
    (hcarries : c.events.Carries events) (holder : Holder) (hcurrent : holder.Current events) :
    c.Goes { c with events := events, holder := holder } := by
  obtain ⟨log, hreach'⟩ := hreach
  refine ⟨⟨h.represents, ⟨log, hreach'⟩, hcurrent, fun e he => ?_, h.once⟩, hcarries, .inl rfl⟩
  exact (h.submitted e he).kept hcarries (.refl _) h.rowsKept h.requests hreach'.rowsKept
    hreach'.scheduled.requests

theorem Intaking.Orderly.step (h : c.Orderly) {out : List (Uuid × Window)}
    (hs : EventStep c.events out events) (holder : Holder) (hcurrent : holder.Current events) :
    c.Goes { c with events := events, holder := holder } := by
  obtain ⟨log, hreach⟩ := h.reachable
  exact h.tables ⟨_, hreach.step hs⟩ (hs.kept hreach.rowsKept).2 holder hcurrent

theorem Intaking.Orderly.moves (h : c.Orderly) (holder : Holder) (hcurrent : holder.Current c.events) :
    c.Goes { c with holder := holder } := h.tables h.reachable (.refl _) holder hcurrent

theorem Intaking.Orderly.host (h : c.Orderly) {session : Option SessionState}
    (hs : HostStep (fun _ _ => True) c.db task session db) (holder : Holder)
    (hcurrent : holder.Current c.events) :
    c.Goes { c with db := db, world := c.world.write task session, holder := holder } := by
  have hkeeps := hs.keepsSubmissions h.represents
  have hrun : HostRun (fun _ _ => True) c.db c.world db (c.world.write task session) :=
    HostRun.step .refl hs
  refine ⟨⟨hrun.represents h.represents, h.reachable, hcurrent, fun e he => ?_, h.once⟩, .refl _,
    .inl rfl⟩
  exact (h.submitted e he).kept (.refl _) hkeeps h.rowsKept h.requests h.rowsKept h.requests

theorem Intaking.Orderly.save (h : c.Orderly) (hheld : InHand c.events event) (holder : Holder)
    (hcurrent : holder.Current (c.events.saveEvent event)) :
    c.Goes { c with events := c.events.saveEvent event, holder := holder } := by
  obtain ⟨row, hrow, hr⟩ := hheld
  exact h.step (.save hrow hr) holder hcurrent

/-! ### submissions -/

theorem Admissible.wants (h : Admissible events event source) (hk : RowsKept events)
    (hnodup : (events.events.map Prod.fst).Nodup) :
    (∃ old, events.event event.source event.key = some old ∧ Revises old event) ∧
      ¬ TakenBack events (event.source, event.key) := by
  obtain ⟨row, hrow, hr, -⟩ := h.inHand
  have hfound := hk.found hnodup hrow
  rw [← hr.source, ← hr.key] at hfound
  refine ⟨⟨row.record, hfound, hr⟩, ?_⟩
  rintro (⟨e, he, hcancelled⟩ | ⟨s, hs, hdisabled⟩)
  · cases hfound.symm.trans he
    have hwanted := h.wanted
    rw [hr.cancelRequested hcancelled] at hwanted
    cases hwanted
  · cases h.found.symm.trans hs
    rw [h.enabled] at hdisabled
    cases hdisabled

/-- **An event is submitted when its request is new to its session.** -/
theorem Intaking.Orderly.submit (h : c.Orderly) {env : IntakeEnv} {text : String} {s t : SessionState}
    {head : Digest} {x : Submission} {task : Option TaskState}
    (hholder : c.holder = .working (.submit source text) event rest)
    (hload : loadSessionState c.db event.session none = .ok (s, head))
    (hc : submitEvent env source text event c.db = .ok (x, t, task, db)) :
    c.Goes { c with
      db := db, world := c.world.write task (some t),
      holder := .working .save ({ event with submission := some x }).settle rest,
      log := if event.request ∈ s.submissions then c.log else (event.source, event.key) :: c.log } := by
  have hcurrent := h.current
  rw [hholder] at hcurrent
  obtain ⟨hadmissible, hrest⟩ := hcurrent
  obtain ⟨⟨old, hold, hr⟩, hwanted⟩ := hadmissible.wants h.rowsKept h.requests
  obtain ⟨hloaded, hid⟩ := SessionLoaded.of_load h.represents hload
  have hstate := hloaded.state
  rw [hid] at hstate
  have hsaved : OpenInHand c.events ({ event with submission := some x }).settle :=
    hadmissible.inHand.sets _ _ _
  have hholds : (Holder.working .save ({ event with submission := some x }).settle rest).Current
      c.events := ⟨hsaved, hrest⟩
  obtain ⟨horderly, -, -⟩ := h.host (submitEvent_step hc) _ hholds
  by_cases hmem : event.request ∈ s.submissions
  · rw [if_pos hmem]
    exact ⟨horderly, .refl _, .inl rfl⟩
  · rw [if_neg hmem]
    refine ⟨⟨horderly.represents, h.reachable, horderly.current, fun e he => ?_, ?_⟩, .refl _,
      .inr ⟨_, rfl, hwanted⟩⟩
    · rcases List.mem_cons.mp he with rfl | he
      · -- the session of the event has its request now
        obtain ⟨hfound, hin⟩ := submitEvent_found h.represents hc
        exact ⟨old, t, hold, by rw [← hr.session]; exact hfound, by rw [← hr.request]; exact hin⟩
      · obtain ⟨e', s', he', hs', hmem'⟩ := horderly.submitted e he
        exact ⟨e', s', he', hs', hmem'⟩
    · refine List.nodup_cons.mpr ⟨fun hin => ?_, h.once⟩
      -- the same event was submitted before, under the same request
      obtain ⟨e', s', he', hs', hmem'⟩ := h.submitted _ hin
      cases hold.symm.trans he'
      rw [← hr.session, hstate] at hs'
      cases hs'
      rw [← hr.request] at hmem'
      exact hmem hmem'

/-! ### every step -/

theorem receiveEvent_fresh (hs : Scheduled events log) (hk : RowsKept events) {key payload : String}
    {now : Nat} (h : receiveEvent env id key payload now events = .ok (event, events')) :
    Fresh events' event := by
  obtain ⟨source, -, hinsert⟩ := receiveEvent_ok h
  exact insertEvent_fresh hs hk hinsert

/-- **Every step keeps the invariant.** -/
theorem IntakeStep.goes (hstep : IntakeStep c c') (h : c.Orderly) : c.Goes c' := by
  obtain ⟨log, hreach⟩ := h.reachable
  have hcurrent := h.current
  cases hstep with
  | host hs => exact h.host hs _ hcurrent
  | stop => exact h.moves .free trivial
  | register hfree hload hadmits hc =>
    exact h.step (.register hc) c.holder (by rw [hfree]; trivial)
  | deliver hfree hvalid hc =>
    exact h.step (.receive hc) _ ⟨receiveEvent_fresh hreach.scheduled hreach.rowsKept hc, trivial⟩
  | @cancel source key event hfree hc =>
    obtain ⟨row, hrow, he, -⟩ := hreach.rowsKept.of_event h.requests hc
    refine h.moves (.cancelled { event with cancelRequested := true }) ?_
    exact Fresh.inHand ⟨row, hrow, he⟩ ⟨rfl, rfl, rfl, rfl, rfl, rfl, rfl, fun _ => rfl, fun hs => hs⟩
  | cancelSaved hholder =>
    rw [hholder] at hcurrent
    exact h.save hcurrent _ ⟨fresh_saveEvent hcurrent, trivial⟩
  | @disable id source events hfree hc => exact h.step (.disable hc) (.disabled id) trivial
  | list hholder =>
    exact h.moves _ ((pendingEvents_current hreach.scheduled hreach.rowsKept false).filter _ false)
  | work hfree => exact h.moves _ (pendingEvents_current hreach.scheduled hreach.rowsKept true)
  | resume hholder hrest =>
    rw [hholder] at hcurrent
    exact h.moves _ (Rest.Current.resume hcurrent hreach.scheduled hreach.rowsKept)
  | tick env now hholder =>
    rw [hholder] at hcurrent
    obtain ⟨hreach', hcarries, hnext⟩ := tickSource_current hreach env now c.db hcurrent
    exact h.tables hreach' hcarries _ hnext
  | reconcile hholder hc =>
    rw [hholder] at hcurrent
    exact h.moves _ (reconcileEvent_current hcurrent.1 hcurrent.2 hc)
  | @cancelling event rest hholder =>
    rw [hholder] at hcurrent
    obtain ⟨⟨hheld, hopen⟩, hrest⟩ := hcurrent
    have hsaved := fresh_saveEvent hheld.inHand
    refine h.save hheld.inHand _ ?_
    split
    · exact ⟨hsaved.openInHand hopen (.refl _), hrest.save⟩
    · exact ⟨(hsaved.openInHand hopen (.refl _)).sets _ _ _, hrest.save⟩
  | withdraw hholder hload hx hwaits hc =>
    rw [hholder] at hcurrent
    exact h.host (setSubmissionStatus_step hc) _ ⟨OpenInHand.sets hcurrent.1 _ _ _, hcurrent.2⟩
  | running hholder hload hx hwaits =>
    rw [hholder] at hcurrent
    refine h.moves _ ⟨?_, hcurrent.2⟩
    split <;> exact hcurrent.1
  | @interrupt env event rest task db hholder hc =>
    rw [hholder] at hcurrent
    rcases cancelRequest_cases hc with ⟨rfl, rfl⟩ | hs
    · exact h.moves (.working .reread event rest) hcurrent
    · exact h.host hs (.working .reread event rest) hcurrent
  | reread hholder hload hx =>
    rw [hholder] at hcurrent
    exact h.moves _ ⟨OpenInHand.sets hcurrent.1 _ _ _, hcurrent.2⟩
  | @admitting env source event rest text hholder hc =>
    rw [hholder] at hcurrent
    exact h.moves (.working (.submit source text) event rest) hcurrent
  | submit hholder hload hc => exact h.submit hholder hload hc
  | @unadmitted stage event rest error hholder hstage =>
    rw [hholder] at hcurrent
    obtain ⟨hstage', hrest⟩ := hcurrent
    have hheld : OpenInHand c.events event := by
      obtain ⟨source, rfl⟩ | ⟨source, text, rfl⟩ := hstage
      · exact hstage'.inHand
      · exact hstage'.inHand
    exact h.moves _ ⟨hheld.sets _ _ _, hrest⟩
  | @save event rest hholder =>
    rw [hholder] at hcurrent
    obtain ⟨hheld, hrest⟩ := hcurrent
    exact h.save (OpenInHand.inHand hheld) (.next rest) hrest.save.weaken

theorem orderly_empty : Intaking.empty.Orderly where
  represents := represents_empty
  reachable := ⟨[], .start⟩
  current := trivial
  submitted _ h := nomatch h
  once := .nil

theorem IntakeRun.goes (hrun : IntakeRun c c') (h : c.Orderly) :
    c'.Orderly ∧ c.events.Carries c'.events ∧ ∀ e, TakenBack c.events e →
      ∃ more, c'.log = more ++ c.log ∧ e ∉ more := by
  induction hrun with
  | refl => exact ⟨h, .refl _, fun e _ => ⟨[], rfl, List.not_mem_nil⟩⟩
  | @tail c₁ c₂ _ hstep ih =>
    obtain ⟨h₁, hcarries, hback⟩ := ih
    have hgoes := hstep.goes h₁
    refine ⟨hgoes.orderly, hcarries.trans hgoes.carries, fun e he => ?_⟩
    obtain ⟨more, hmore, hfresh⟩ := hback e he
    rcases hgoes.log with hsame | ⟨e', hlog, hwanted⟩
    · exact ⟨more, hsame.trans hmore, hfresh⟩
    · refine ⟨e' :: more, by rw [hlog, hmore]; rfl, fun hmem => ?_⟩
      rcases List.mem_cons.mp hmem with rfl | hmem
      · exact hwanted (he.carries hcarries h.rowsKept h.requests h₁.rowsKept h₁.requests)
      · exact hfresh hmem

theorem IntakeReachable.orderly (h : IntakeReachable c) : c.Orderly := (h.goes orderly_empty).1

/-- **An event is submitted once**: whatever the order of deliveries, cancellations, disabled sources,
reconciliations and crashes, the intake submits no source and key twice; what it submitted is in
the session of the event, under the request of the event; a delivery with another payload is refused
from then on; and once the event is cancelled, or its source is disabled, the intake does not
submit it. -/
theorem events_submitted_once (h : IntakeReachable c) :
    c.log.Nodup ∧
      (∀ e ∈ c.log, ∃ event s, c.events.event e.1 e.2 = some event ∧
        c.world.sessions event.session = some s ∧ event.request ∈ s.submissions) ∧
      (∀ source key event, c.events.event source key = some event → ∀ c', IntakeRun c c' →
        ∀ env payload now, Digest.ofStr payload ≠ event.payloadDigest →
          ∃ e, receiveEvent env source key payload now c'.events = .error e) ∧
      ∀ e, TakenBack c.events e → ∀ c', IntakeRun c c' →
        ∃ more, c'.log = more ++ c.log ∧ e ∉ more := by
  have horderly := h.orderly
  refine ⟨horderly.once, horderly.submitted, fun source key event hevent c' hrun env payload now hother => ?_,
    fun e he c' hrun => (hrun.goes horderly).2.2 e he⟩
  obtain ⟨horderly', hcarries, -⟩ := hrun.goes horderly
  obtain ⟨event', hevent', hr⟩ := hcarries.found horderly.rowsKept horderly.requests
    horderly'.rowsKept horderly'.requests hevent
  obtain ⟨log, hreach⟩ := horderly'.reachable
  refine receiveEvent_reused hevent' (fun s hs => (hreach.scheduled.sources source s hs).named) ?_ env now
  rw [hr.payloadDigest]
  exact hother

end

end

/-! ## a delivery for examples -/

namespace Sample

/-- a source of the session of the example, which events are delivered to -/
def webhook : SourceConfig := { everySecond with id := ⟨21⟩, trigger := .webhook }

def hooked : SourceRecord := ⟨webhook, ⟨0⟩, false, none, none, none⟩

def hookedDb : EventDb := ⟨[(webhook.id, ⟨hooked, false⟩)], []⟩

theorem registersWebhook : EventDb.empty.registerEventSource webhook ⟨0⟩ = .ok (hooked, hookedDb) := rfl

/-- every session is admitted -/
def intakeEnv : IntakeEnv := ⟨typing, eventEnv, fun _ => .ok ⟨0⟩, fun _ => ""⟩

def pushed : EventRecord where
  source := webhook.id
  key := "push"
  payloadDigest := Digest.ofStr "main"
  input := ⟨0⟩
  session := sessionId
  request := eventRequest webhook.id "push"
  receivedMs := 0
  cancelRequested := false
  submission := none
  settled := false
  error := none

def pushedDb : EventDb := { hookedDb with events := [(pushed.request, ⟨webhook.id, "push", pushed, false⟩)] }

theorem receives : receiveEvent eventEnv webhook.id "push" "main" 0 hookedDb = .ok (pushed, pushedDb) :=
  rfl

/-- its submission -/
def pushedWork : Submission where
  manualJob := none
  id := pushed.request
  input := ⟨0⟩
  initialInput := ⟨0⟩
  records := []
  result := none
  intent := hooked.intent
  status := .queued
  submittedRevision := 2
  submittedMs := 0

def pushedSession : SessionState := after opened (pushed.request.named "submitted") (.submitted pushedWork)

variable {db : Db} {w : World}

theorem validates (h : Represents db w) (hs : w.sessions sessionId = some opened) :
    validateEventSource intakeEnv hooked db = .ok () := by
  obtain ⟨head, hload⟩ := h.loadSession hs
  rw [validateEventSource]
  show (loadSessionState db sessionId none >>= _) = _
  rw [hload]
  rfl

theorem submitsEvent (h : Represents db w) (hkeys : db.sessions.map Prod.fst = [sessionId])
    (hs : w.sessions sessionId = some opened) :
    ∃ db', submitEvent intakeEnv hooked "build" pushed db =
      .ok (pushedWork, pushedSession, none, db') := by
  obtain ⟨head, hload⟩ := h.loadSession hs
  have hap : opened.apply (pushed.request.named "submitted") (.submitted pushedWork) =
    .ok pushedSession := rfl
  obtain ⟨hash, db', happ, -⟩ := commands h (SessionLoaded.of_load h hload).1 (typing.appendClock 0)
    hap (by decide) trivial
  refine ⟨db', ?_⟩
  have hcapacity : admitCapacity opened pushed.request db = .ok () := by
    rw [admitCapacity, if_neg (by decide), pendingSubmissions_one h hkeys hs]
    rfl
  have hsubmit : submit typing sessionId pushed.request ⟨0⟩ hooked.intent db =
      .ok (pushedWork, pushedSession, none, db') := by
    rw [submit, hload, ok_bind]
    simp only [hcapacity, ok_bind]
    show ((appendSessionCommand opened head (pushed.request.named "submitted") (.submitted pushedWork)
      (typing.appendClock 0) db) >>= _) = _
    rw [happ]
    rfl
  exact hsubmit

/-- the event is delivered, reconciled, admitted and submitted -/
theorem reachable_pushed : ∃ c, IntakeReachable c ∧ c.log = [(webhook.id, "push")] := by
  obtain ⟨db, hopen, -, -, hkeys⟩ := opens
  have h₁ : IntakeReachable ⟨db, World.empty.setSession opened, .empty, .free, []⟩ :=
    .tail .refl (.host (.create hopen))
  have hr : Represents db (World.empty.setSession opened) := h₁.orderly.represents
  have hs := World.setSession_get World.empty opened
  obtain ⟨head, hload⟩ : ∃ head, loadSessionState db sessionId none = .ok (opened, head) :=
    hr.loadSession hs
  have h₂ : IntakeReachable ⟨db, World.empty.setSession opened, hookedDb, .free, []⟩ :=
    h₁.tail (.register rfl hload (show intakeEnv.admission opened = .ok ⟨0⟩ from rfl) registersWebhook)
  have h₃ : IntakeReachable ⟨db, World.empty.setSession opened, pushedDb,
      .working .reconcile pushed .finish, []⟩ :=
    h₂.tail (.deliver rfl (fun _ => ⟨hooked, rfl, validates hr hs⟩)
      (show receiveEvent intakeEnv.events webhook.id "push" "main" 0 hookedDb = _ from receives))
  have hreconcile : reconcileEvent db pushedDb pushed .finish =
      .ok (.working (.admitting hooked) pushed .finish) := by
    rw [reconcileEvent, if_neg (by decide)]
    show (loadSessionState db sessionId none >>= _) = _
    rw [hload]
    rfl
  have h₄ : IntakeReachable ⟨db, World.empty.setSession opened, pushedDb,
      .working (.admitting hooked) pushed .finish, []⟩ := h₃.tail (.reconcile rfl hreconcile)
  have hadmits : admitEvent intakeEnv hooked pushed db = .ok "build" := by
    rw [admitEvent, validates hr hs]
    rfl
  have h₅ : IntakeReachable ⟨db, World.empty.setSession opened, pushedDb,
      .working (.submit hooked "build") pushed .finish, []⟩ := h₄.tail (.admitting rfl hadmits)
  obtain ⟨db', hsubmit⟩ := submitsEvent hr hkeys hs
  have hnew : pushed.request ∉ opened.submissions := by decide
  have hlog : (if pushed.request ∈ opened.submissions then [] else [(webhook.id, "push")]) =
      [(webhook.id, "push")] := if_neg hnew
  exact ⟨_, h₅.tail (.submit rfl hload hsubmit), hlog⟩

end Sample

open Sample in
theorem events_submitted_once_pushed : ∃ c, IntakeReachable c ∧ c.log = [(webhook.id, "push")] ∧
    ∀ e ∈ c.log, ∃ event s, c.events.event e.1 e.2 = some event ∧
      c.world.sessions event.session = some s ∧ event.request ∈ s.submissions := by
  obtain ⟨c, hc, hlog⟩ := reachable_pushed
  exact ⟨c, hc, hlog, (events_submitted_once hc).2.1⟩

end Orvek
