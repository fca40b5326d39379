import Orvek.Events.Intake
import Orvek.Store.Commits

/-!
# The schedule of an interval source

Whatever the clock reads, whenever events are settled or a source is disabled, and wherever a tick
fails: the events of an interval source stand for every occurrence of its schedule up to its cursor,
and for each of them once.

* `Revises`                   what a save changes of an event;
* `EventStep`                 one operation on the tables, and the windows of the events it emits;
* `Kept`                      the invariant of one source;
* `Scheduled.step`            it is carried from step to step;
* `interval_schedule_exact`   the schedule is exact.
-/

set_option linter.unusedSectionVars false

namespace Orvek
open Checks Json Grid

/-! ## runs -/

/-- what a save of the host changes of an event: its identity stays, an intent to cancel is not taken
back, and an event that is settled stays settled -/
structure Revises (old new : EventRecord) : Prop where
  source : new.source = old.source
  key : new.key = old.key
  payloadDigest : new.payloadDigest = old.payloadDigest
  input : new.input = old.input
  session : new.session = old.session
  request : new.request = old.request
  receivedMs : new.receivedMs = old.receivedMs
  cancelRequested : old.cancelRequested = true → new.cancelRequested = true
  settled : old.settled = true → new.settled = true

section
variable [Sha256] [SessionCodec] [EventCodec] {db db' : EventDb} {out log : List (Uuid × Window)}

def emitted (env : EventEnv) (id : Uuid) (now : Nat) (db : EventDb) : List (Uuid × Window) :=
  match (tickEventSource env id now db).1, dueWindow id now db with
  | .ok (some _), .ok (some (_, w, _)) => [(id, w)]
  | _, _ => []

/-- an operation of the host on the tables; a record that is written was read before, while the host
held its lock on the intake -/
inductive EventStep (db : EventDb) : List (Uuid × Window) → EventDb → Prop
  | register {config : SourceConfig} {authority : Digest} {source : SourceRecord} {db' : EventDb}
      (h : db.registerEventSource config authority = .ok (source, db')) : EventStep db [] db'
  | receive {env : EventEnv} {source : Uuid} {key payload : String} {now : Nat} {event : EventRecord}
      {db' : EventDb} (h : receiveEvent env source key payload now db = .ok (event, db')) :
      EventStep db [] db'
  | tick (env : EventEnv) (id : Uuid) (now : Nat) :
      EventStep db (emitted env id now db) (tickEventSource env id now db).2
  | disable {id : Uuid} {source : SourceRecord} {db' : EventDb}
      (h : db.disableEventSource id = .ok (source, db')) : EventStep db [] db'
  | admission {source : SourceRecord} (error : Option String)
      (h : db.findEventSource source.config.id = some source) :
      EventStep db [] (db.recordEventSourceAdmission source error)
  | save {event : EventRecord} {row : EventRow} (h : db.events.get event.request = some row)
      (hr : Revises row.record event) : EventStep db [] (db.saveEvent event)

/-- the tables after a run, and the windows of the events it emitted, with their sources -/
inductive EventReachable : EventDb → List (Uuid × Window) → Prop
  | start : EventReachable .empty []
  | step {db db' : EventDb} {log out : List (Uuid × Window)} (h : EventReachable db log)
      (hs : EventStep db out db') : EventReachable db' (log ++ out)

def windowsOf (id : Uuid) (log : List (Uuid × Window)) : List Window :=
  (log.filter fun e => e.1 = id).map Prod.snd

def eventsOf (db : EventDb) (id : Uuid) : List (String × Digest) :=
  (db.events.filter fun row => row.2.source = id).map fun row =>
    (row.2.dedupKey, row.2.record.payloadDigest)

def windowEvent (w : Window) : String × Digest := (windowKey w, Digest.ofStr (windowPayload w))

def openEvents (db : EventDb) (id : Uuid) : Nat :=
  db.events.countP fun row => row.2.source = id ∧ row.2.settled = false

/-! ## arithmetic -/

theorem checkedAdd_some {a b c : Nat} (h : checkedAdd a b = some c) : c = a + b := by
  unfold checkedAdd at h
  split at h
  · cases h
    rfl
  · cases h

theorem latestDue_from {next step now latest following count : Nat}
    (h : latestDue next step now = some (latest, following, count)) :
    Window.From step next ⟨next, latest, count⟩ ∧ following = latest + step := by
  unfold latestDue at h
  split at h
  · cases h
  · obtain ⟨f, hf, he⟩ := Option.map_eq_some_iff.mp h
    cases he
    refine ⟨⟨rfl, Nat.succ_pos _, ?_⟩, checkedAdd_some hf⟩
    show next + ((now - next) / step + 1 - 1) * step + step = next + ((now - next) / step + 1) * step
    rw [Nat.add_sub_cancel, Nat.add_mul]
    omega

theorem windowKey_inj {v w : Window} (h : windowKey v = windowKey w) : v.latest = w.latest := by
  have hlist := congrArg String.toList h
  rw [windowKey, windowKey, String.toList_append, String.toList_append] at hlist
  have hdigits := List.append_cancel_left hlist
  rw [Nat.toString_eq_ofList_toDigits, Nat.toString_eq_ofList_toDigits, String.toList_ofList,
    String.toList_ofList] at hdigits
  have hvalue := congrArg (fun l => Nat.ofDigitChars 10 l 0) hdigits
  simpa using hvalue

theorem number_ends {a b : Nat} {c : Char} (hc : c.isDigit = false) {x y : List Char}
    (h : (toString a).toList ++ c :: x = (toString b).toList ++ c :: y) : a = b ∧ x = y := by
  have hall (n : Nat) : ∀ d ∈ (toString n).toList, d.isDigit = true := by
    rw [Nat.toString_eq_ofList_toDigits, String.toList_ofList]
    exact fun d hd => Nat.isDigit_of_mem_toDigits (by decide) (by decide) hd
  have hnumber (n : Nat) (rest : List Char) :
      ((toString n).toList ++ c :: rest).takeWhile Char.isDigit = (toString n).toList := by
    rw [List.takeWhile_append_of_pos (hall n), List.takeWhile_cons_of_neg (by simp [hc]),
      List.append_nil]
  have hsame : (toString a).toList = (toString b).toList := by
    rw [← hnumber a x, ← hnumber b y, h]
  rw [hsame] at h
  refine ⟨?_, List.tail_eq_of_cons_eq (List.append_cancel_left h)⟩
  rw [Nat.toString_eq_ofList_toDigits, Nat.toString_eq_ofList_toDigits, String.toList_ofList,
    String.toList_ofList] at hsame
  simpa using congrArg (fun l => Nat.ofDigitChars 10 l 0) hsame

theorem windowPayload_text (w : Window) : (windowPayload w).toList =
    "\x7b\"coalescing\":\"latest_only\",\"first_due_ms\":".toList ++ ((toString w.first).toList ++
      ',' :: ("\"latest_due_ms\":".toList ++ ((toString w.latest).toList ++
        ',' :: ("\"occurrences\":".toList ++ ((toString w.count).toList ++ ['\x7d']))))) := by
  have hfields (a b c : Value) : ofFields [("first_due_ms", a), ("latest_due_ms", b), ("occurrences", c),
      ("coalescing", .string "latest_only")] = .object [("coalescing", .string "latest_only"),
        ("first_due_ms", a), ("latest_due_ms", b), ("occurrences", c)] := by
    have hlatest : ¬ "latest_due_ms" < "first_due_ms" := by decide
    have hfirst : ¬ "occurrences" < "first_due_ms" := by decide
    have hcount : ¬ "occurrences" < "latest_due_ms" := by decide
    have hcoalescing : "coalescing" < "first_due_ms" := by decide
    simp [ofFields, insertField, hlatest, hfirst, hcount, hcoalescing]
  rw [windowPayload, String.toList_ofList, hfields]
  simp [Value.text, textFields, textFieldsRest, quote, escapeChar, ofNat]

/-- **A payload shows its window**: the first and the latest occurrence, and how many there are. -/
theorem windowPayload_inj {v w : Window} (h : windowPayload v = windowPayload w) : v = w := by
  have htext := congrArg String.toList h
  rw [windowPayload_text, windowPayload_text] at htext
  obtain ⟨hfirst, htext⟩ := number_ends (by decide) (List.append_cancel_left htext)
  obtain ⟨hlatest, htext⟩ := number_ends (by decide) (List.append_cancel_left htext)
  obtain ⟨hcount, -⟩ := number_ends (by decide) (List.append_cancel_left htext)
  cases v
  cases w
  cases hfirst
  cases hlatest
  cases hcount
  rfl

/-! ## the invariant -/

/-- the row of a source: its identifier, a trigger that was checked, and, when it is an interval,
events that cover the schedule up to the cursor -/
structure Kept (db : EventDb) (log : List (Uuid × Window)) (id : Uuid) (source : SourceRecord) :
    Prop where
  named : source.config.id = id
  trigger : source.config.trigger.validate = .ok ()
  schedule : ∀ first step, source.config.trigger = .interval first step → ∃ next,
    source.nextDueMs = some next ∧ Covers step first (windowsOf id log) next ∧
      eventsOf db id = (windowsOf id log).map windowEvent ∧ openEvents db id ≤ 1

structure Scheduled (db : EventDb) (log : List (Uuid × Window)) : Prop where
  requests : (db.events.map Prod.fst).Nodup
  settled : ∀ row ∈ db.events, row.2.settled = row.2.record.settled
  sources : ∀ id source, db.findEventSource id = some source → Kept db log id source
  /-- a source that is not there has no events -/
  missing : ∀ id, db.findEventSource id = none → windowsOf id log = [] ∧ eventsOf db id = []

section
variable {id : Uuid} {source source' : SourceRecord}
variable {event : EventRecord} {env : EventEnv} {now : Nat}

theorem Kept.frame (h : Kept db log id source) {log' : List (Uuid × Window)}
    (hconfig : source'.config = source.config) (hnext : source'.nextDueMs = source.nextDueMs)
    (hwindows : windowsOf id log' = windowsOf id log) (hevents : eventsOf db' id = eventsOf db id)
    (hopen : openEvents db' id ≤ openEvents db id) : Kept db' log' id source' := by
  refine ⟨by rw [hconfig]; exact h.named, by rw [hconfig]; exact h.trigger, fun first step ht => ?_⟩
  rw [hconfig] at ht
  rw [hwindows]
  obtain ⟨next, hcursor, hcovers, hall, hone⟩ := h.schedule first step ht
  exact ⟨next, hnext.trans hcursor, hcovers, hevents.trans hall, hopen.trans hone⟩

theorem openEvents_le (db : EventDb) (id : Uuid) : openEvents db id ≤ (eventsOf db id).length := by
  rw [eventsOf, List.length_map, ← List.countP_eq_length_filter]
  refine List.countP_mono_left fun row _ h => ?_
  simp only [decide_eq_true_eq] at h ⊢
  exact h.1

theorem findEventSource_of_row {row : SourceRow} (h : db.sources.get id = some row) :
    db.findEventSource id = some row.record := by
  rw [EventDb.findEventSource, h]
  rfl

theorem eventSource_ok (h : db.eventSource id = .ok source) : db.findEventSource id = some source := by
  unfold EventDb.eventSource orInvalid at h
  split at h
  · rename_i s hs
    cases h
    exact hs
  · cases h

/-! ## writing a source -/

theorem findEventSource_update (f : SourceRow → SourceRow) (key : Uuid) :
    (EventDb.mk (db.sources.update id f) db.events).findEventSource key =
      if key = id then (db.sources.get key).map fun row => (f row).record
      else db.findEventSource key := by
  rw [EventDb.findEventSource, EventDb.findEventSource, Table.get_update]
  split
  · rw [Option.map_map]
    rfl
  · rfl

/-- **A record that keeps the configuration and the cursor keeps the schedule.** -/
theorem Scheduled.rewrite (h : Scheduled db log) {f : SourceRow → SourceRow}
    (hfind : db.findEventSource id = some source) (hf : ∀ row, (f row).record = source')
    (hconfig : source'.config = source.config) (hnext : source'.nextDueMs = source.nextDueMs) :
    Scheduled { db with sources := db.sources.update id f } log := by
  refine ⟨h.requests, h.settled, fun key s hs => ?_, fun key hnone => ?_⟩
  · rw [findEventSource_update] at hs
    split at hs
    · rename_i he
      obtain ⟨row, hrow, rfl⟩ := Option.map_eq_some_iff.mp hs
      rw [hf row, he]
      exact (h.sources id source hfind).frame hconfig hnext rfl rfl le_rfl
    · exact (h.sources key s hs).frame rfl rfl rfl rfl le_rfl
  · rw [findEventSource_update] at hnone
    split at hnone
    · rename_i he
      rw [Option.map_eq_none_iff] at hnone
      rw [he] at hnone
      rw [EventDb.findEventSource, hnone] at hfind
      cases hfind
    · exact h.missing key hnone

/-! ## writing an event -/

theorem insertRow_ok (h : db.insertRow event = some db') :
    db.event event.source event.key = none ∧ db'.sources = db.sources ∧
      db.events.insert event.request ⟨event.source, event.key, event, event.settled⟩ =
        some db'.events := by
  obtain ⟨events, hinsert, h⟩ := Option.bind_eq_some_iff.mp h
  split at h
  · cases h
  · rename_i hnone
    cases h
    exact ⟨by simpa using hnone, rfl, hinsert⟩

theorem eventsOf_insert (h : db.insertRow event = some db') (key : Uuid) :
    eventsOf db' key = eventsOf db key ++
      if event.source = key then [(event.key, event.payloadDigest)] else [] := by
  rw [eventsOf, eventsOf, Table.insert_eq (insertRow_ok h).2.2, List.filter_append, List.map_append]
  congr 1
  by_cases he : event.source = key
  · simp [he]
  · simp [he]

theorem openEvents_insert (h : db.insertRow event = some db') (key : Uuid) :
    openEvents db' key = openEvents db key +
      if event.source = key ∧ event.settled = false then 1 else 0 := by
  rw [openEvents, openEvents, Table.insert_eq (insertRow_ok h).2.2, List.countP_append]
  congr 1
  by_cases he : event.source = key ∧ event.settled = false
  · simp [he]
  · rw [if_neg he]
    simpa using he

/-- what an insertion returns: the event that was there, or a new one -/
theorem insertEvent_ok {key payload : String}
    (h : insertEvent env source key payload now db = .ok (event, db')) :
    (db.event source.config.id key = some event ∧ db' = db ∧
        event.payloadDigest = Digest.ofStr payload) ∨
      (db.event source.config.id key = none ∧ source.disabled = false ∧
        db.insertRow event = some db' ∧ event.source = source.config.id ∧ event.key = key ∧
        event.session = source.config.session ∧ event.request = eventRequest source.config.id key ∧
        event.payloadDigest = Digest.ofStr payload ∧ event.cancelRequested = false ∧
        event.submission = none ∧ event.settled = false) := by
  unfold insertEvent at h
  split at h
  · rename_i previous hprevious
    obtain ⟨hsame, h⟩ := refuseIf_bind h
    cases h
    exact .inl ⟨hprevious, rfl, by simpa using hsame⟩
  · rename_i hnone
    obtain ⟨henabled, h⟩ := refuseIf_bind h
    obtain ⟨-, h⟩ := refuseIf_bind h
    obtain ⟨-, -, h⟩ := bind_ok h
    obtain ⟨prepared, -, h⟩ := bind_ok h
    obtain ⟨db₁, hrow, h⟩ := bind_ok h
    cases h
    exact .inr ⟨hnone, by simpa using henabled, orSql_ok hrow, rfl, rfl, rfl, rfl, rfl, rfl, rfl, rfl⟩

theorem Scheduled.insert_rows (h : Scheduled db log) (hrow : db.insertRow event = some db') :
    (db'.events.map Prod.fst).Nodup ∧ (∀ row ∈ db'.events, row.2.settled = row.2.record.settled) := by
  have hinsert := (insertRow_ok hrow).2.2
  refine ⟨Table.nodup_insert hinsert h.requests, fun row hmem => ?_⟩
  rw [Table.insert_eq hinsert] at hmem
  rcases List.mem_append.mp hmem with hmem | hmem
  · exact h.settled row hmem
  · cases List.mem_singleton.mp hmem
    rfl

theorem findEventSource_same (h : db'.sources = db.sources) (key : Uuid) :
    db'.findEventSource key = db.findEventSource key := by
  rw [EventDb.findEventSource, EventDb.findEventSource, h]

theorem Scheduled.receive (h : Scheduled db log) {name : Uuid} {key payload : String}
    (hc : receiveEvent env name key payload now db = .ok (event, db')) : Scheduled db' log := by
  obtain ⟨-, -, hc⟩ := bind_ok hc
  obtain ⟨source, hsource, hc⟩ := bind_ok hc
  obtain ⟨htrigger, hc⟩ := refuseIf_bind hc
  have hfind := eventSource_ok hsource
  have hnamed := (h.sources name source hfind).named
  rcases insertEvent_ok hc with ⟨-, rfl, -⟩ | ⟨-, -, hrow, hs, -⟩
  · exact h
  · have hsources := (insertRow_ok hrow).2.1
    obtain ⟨hnodup, hsettled⟩ := h.insert_rows hrow
    refine ⟨hnodup, hsettled, fun id s hid => ?_, fun id hid => ?_⟩
    · rw [findEventSource_same hsources] at hid
      by_cases he : id = name
      · -- a webhook has no schedule
        subst he
        cases hfind.symm.trans hid
        have hkept := h.sources id source hfind
        refine ⟨hkept.named, hkept.trigger, fun first step ht => ?_⟩
        rw [ht] at htrigger
        exact absurd (by simp) htrigger
      · have hne : ¬ event.source = id := by
          rw [hs, hnamed]
          exact Ne.symm he
        refine (h.sources id s hid).frame rfl rfl rfl ?_ ?_
        · rw [eventsOf_insert hrow, if_neg hne, List.append_nil]
        · rw [openEvents_insert hrow, if_neg fun hx => hne hx.1, Nat.add_zero]
    · rw [findEventSource_same hsources] at hid
      have hne : ¬ event.source = id := by
        rintro rfl
        rw [hs, hnamed, hfind] at hid
        cases hid
      rw [eventsOf_insert hrow, if_neg hne, List.append_nil]
      exact h.missing id hid

/-! ## ticks -/

theorem mem_eventsOf {id : Uuid} {key : String} (h : db.event id key = some event) :
    (key, event.payloadDigest) ∈ eventsOf db id := by
  obtain ⟨row, hrow, rfl⟩ := Option.map_eq_some_iff.mp h
  have hsome := List.find?_some hrow
  simp only [decide_eq_true_eq] at hsome
  refine List.mem_map.mpr ⟨row, List.mem_filter.mpr ⟨List.mem_of_find?_eq_some hrow, ?_⟩, ?_⟩
  · simpa using hsome.1
  · rw [hsome.2]

theorem dueWindow_ok {following : Nat} {w : Window}
    (h : dueWindow id now db = .ok (some (source, w, following))) :
    db.findEventSource id = some source ∧ source.disabled = false ∧ openEvents db id = 0 ∧
      ∃ first step next, source.config.trigger = .interval first step ∧
        source.nextDueMs = some next ∧ w.From step next ∧ following = w.latest + step := by
  obtain ⟨s, hs, h⟩ := bind_ok h
  split at h
  · cases h
  · rename_i henabled
    split at h
    · cases h
    · rename_i first step htrigger
      split at h
      · cases h
      · rename_i hbusy
        split at h
        · cases h
        · rename_i next hnext
          cases hdue : latestDue next step now with
          | none =>
            rw [hdue] at h
            cases h
          | some due =>
            obtain ⟨latest, after, count⟩ := due
            rw [hdue] at h
            cases h
            obtain ⟨hfrom, hafter⟩ := latestDue_from hdue
            refine ⟨eventSource_ok hs, by simpa using henabled, ?_, first, step, next, htrigger, hnext,
              hfrom, hafter⟩
            rw [openEvents, List.countP_eq_zero]
            rw [List.any_eq_true] at hbusy
            exact fun row hrow hopen => hbusy ⟨row, hrow, hopen⟩

/-- **A tick emits the event of a window and moves the cursor, or it changes nothing.** -/
theorem tick_cases (env : EventEnv) (id : Uuid) (now : Nat) (db : EventDb) :
    (∃ source w following event db', dueWindow id now db = .ok (some (source, w, following)) ∧
        emitEvent env id source w following now db = .ok (event, db') ∧
        tickEventSource env id now db = (.ok (some event), db') ∧
        emitted env id now db = [(id, w)]) ∨
      ((∀ event, (tickEventSource env id now db).1 ≠ .ok (some event)) ∧
        (tickEventSource env id now db).2 = db ∧ emitted env id now db = []) := by
  unfold emitted tickEventSource
  cases hdue : dueWindow id now db with
  | error e => exact .inr ⟨fun _ h => (nomatch h), rfl, rfl⟩
  | ok due =>
    cases due with
    | none => exact .inr ⟨fun _ h => (nomatch h), rfl, rfl⟩
    | some due =>
      obtain ⟨source, w, following⟩ := due
      simp only
      rcases transaction_cases env.commit (emitEvent env id source w following now) db with
        ⟨event, db', hbody, ht⟩ | ⟨e, ht⟩
      · rw [ht]
        exact .inl ⟨source, w, following, event, db', rfl, hbody, rfl, rfl⟩
      · rw [ht]
        exact .inr ⟨fun _ h => (nomatch h), rfl, rfl⟩

theorem windowsOf_append (id : Uuid) (log out : List (Uuid × Window)) :
    windowsOf id (log ++ out) = windowsOf id log ++ windowsOf id out := by
  rw [windowsOf, windowsOf, windowsOf, List.filter_append, List.map_append]

theorem windowsOf_one (key id : Uuid) (w : Window) :
    windowsOf key [(id, w)] = if id = key then [w] else [] := by
  by_cases he : id = key
  · simp [windowsOf, he]
  · simp [windowsOf, he]

/-- the row of an emitted event is new, and the cursor is after its window -/
theorem Scheduled.emit (h : Scheduled db log) {following : Nat} {w : Window}
    (hdue : dueWindow id now db = .ok (some (source, w, following)))
    (hc : emitEvent env id source w following now db = .ok (event, db')) :
    Scheduled db' (log ++ [(id, w)]) := by
  obtain ⟨hfind, -, hidle, first, step, next, htrigger, hnext, hfrom, hfollowing⟩ := dueWindow_ok hdue
  have hkept := h.sources id source hfind
  obtain ⟨cursor, hcursor, hcovers, hevents, -⟩ := hkept.schedule first step htrigger
  cases hcursor.symm.trans hnext
  have hstep : 0 < step := by
    have hchecked := hkept.trigger
    rw [htrigger] at hchecked
    have := refuseIf_ok hchecked
    omega
  -- no event has the key of the window, since all of them end before the cursor
  have hnew : db.event source.config.id (windowKey w) = none := by
    rw [hkept.named, Option.eq_none_iff_forall_not_mem]
    intro previous hprevious
    have hmem := mem_eventsOf hprevious
    rw [hevents] at hmem
    obtain ⟨v, hv, hvw⟩ := List.mem_map.mp hmem
    have hlatest := windowKey_inj (congrArg Prod.fst hvw)
    have hbefore := (hcovers.before_next hstep v hv).2
    have hle := hfrom.le
    omega
  obtain ⟨⟨e, db₁⟩, hinsert, hc⟩ := bind_ok hc
  obtain ⟨-, -, hc⟩ := bind_ok hc
  cases hc
  rcases insertEvent_ok hinsert with ⟨hold, -⟩ | ⟨-, -, hrow, hs, hk, -, -, hpayload, -⟩
  · rw [hnew] at hold
    cases hold
  · have hsources := (insertRow_ok hrow).2.1
    obtain ⟨hnodup, hsettled⟩ := h.insert_rows hrow
    rw [hkept.named] at hs
    refine ⟨hnodup, hsettled, fun key s hkey => ?_, fun key hnone => ?_⟩
    · rw [EventDb.writeSource, findEventSource_update] at hkey
      split at hkey
      · rename_i he
        subst he
        obtain ⟨row, -, rfl⟩ := Option.map_eq_some_iff.mp hkey
        refine ⟨hkept.named, hkept.trigger, fun first' step' ht => ?_⟩
        cases htrigger.symm.trans ht
        refine ⟨w.latest + step, congrArg some hfollowing, ?_, ?_, ?_⟩
        · rw [windowsOf_append, windowsOf_one, if_pos rfl]
          exact hcovers.snoc hfrom
        · rw [windowsOf_append, windowsOf_one, if_pos rfl, List.map_append, ← hevents]
          refine (eventsOf_insert hrow key).trans ?_
          rw [if_pos hs, hk, hpayload]
          rfl
        · refine (openEvents_insert hrow key).le.trans ?_
          rw [hidle]
          split <;> omega
      · rename_i hne
        rw [findEventSource_same hsources] at hkey
        have hother : ¬ event.source = key := by
          rw [hs]
          exact Ne.symm hne
        refine (h.sources key s hkey).frame rfl rfl ?_ ?_ ?_
        · rw [windowsOf_append, windowsOf_one, if_neg (Ne.symm hne), List.append_nil]
        · refine (eventsOf_insert hrow key).trans ?_
          rw [if_neg hother, List.append_nil]
        · refine (openEvents_insert hrow key).le.trans ?_
          rw [if_neg fun hx => hother hx.1, Nat.add_zero]
    · rw [EventDb.writeSource, findEventSource_update] at hnone
      split at hnone
      · rename_i he
        rw [Option.map_eq_none_iff, he, hsources] at hnone
        rw [EventDb.findEventSource, hnone] at hfind
        cases hfind
      · rename_i hne
        rw [findEventSource_same hsources] at hnone
        obtain ⟨hwindows, hempty⟩ := h.missing key hnone
        refine ⟨?_, ?_⟩
        · rw [windowsOf_append, windowsOf_one, if_neg (Ne.symm hne), List.append_nil, hwindows]
        · refine (eventsOf_insert hrow key).trans ?_
          rw [if_neg (by rw [hs]; exact Ne.symm hne), List.append_nil, hempty]

theorem Scheduled.tick (h : Scheduled db log) (env : EventEnv) (id : Uuid) (now : Nat) :
    Scheduled (tickEventSource env id now db).2 (log ++ emitted env id now db) := by
  rcases tick_cases env id now db with
    ⟨source, w, following, event, db', hdue, hemit, htick, hout⟩ | ⟨-, hsame, hout⟩
  · rw [htick, hout]
    exact h.emit hdue hemit
  · rw [hsame, hout, List.append_nil]
    exact h

/-! ## the other operations -/

theorem Scheduled.register (h : Scheduled db log) {config : SourceConfig} {authority : Digest}
    (hc : db.registerEventSource config authority = .ok (source, db')) : Scheduled db' log := by
  obtain ⟨_, hvalid, hc⟩ := bind_ok hc
  split at hc
  · obtain ⟨-, hc⟩ := refuseIf_bind hc
    cases hc
    exact h
  · rename_i hnone
    obtain ⟨-, hc⟩ := refuseIf_bind hc
    obtain ⟨sources, hinsert, hc⟩ := bind_ok hc
    cases hc
    have hget := Table.get_insert (orSql_ok hinsert)
    have htrigger : config.trigger.validate = .ok () := by
      obtain ⟨-, hvalid⟩ := refuseIf_bind hvalid
      obtain ⟨-, hvalid⟩ := refuseIf_bind hvalid
      obtain ⟨-, -, hvalid⟩ := bind_ok hvalid
      obtain ⟨-, -, hvalid⟩ := bind_ok hvalid
      exact hvalid
    obtain ⟨hwindows, hevents⟩ := h.missing config.id hnone
    refine ⟨h.requests, h.settled, fun key s hkey => ?_, fun key hkey => ?_⟩
    · rw [EventDb.findEventSource, (hget key).2] at hkey
      split at hkey
      · rename_i he
        cases hkey
        rw [he]
        refine ⟨rfl, htrigger, fun first step ht => ⟨first, ?_, ?_, ?_, ?_⟩⟩
        · have hinterval : config.trigger = .interval first step := ht
          simp only [hinterval]
        · rw [hwindows]
          exact .nil
        · rw [hwindows]
          exact hevents
        · refine (openEvents_le _ _).trans ?_
          show (eventsOf db config.id).length ≤ 1
          rw [hevents]
          exact Nat.zero_le 1
      · exact (h.sources key s hkey).frame rfl rfl rfl rfl le_rfl
    · rw [EventDb.findEventSource, (hget key).2] at hkey
      split at hkey
      · cases hkey
      · exact h.missing key hkey

theorem Scheduled.disable (h : Scheduled db log)
    (hc : db.disableEventSource id = .ok (source, db')) : Scheduled db' log := by
  obtain ⟨s, hs, hc⟩ := bind_ok hc
  cases hc
  exact h.rewrite (eventSource_ok hs) (fun _ => rfl) rfl rfl

theorem Scheduled.admission (h : Scheduled db log) (error : Option String)
    (hfind : db.findEventSource source.config.id = some source) :
    Scheduled (db.recordEventSourceAdmission source error) log := by
  unfold EventDb.recordEventSourceAdmission
  split
  · exact h
  · exact h.rewrite hfind (fun _ => rfl) rfl rfl

theorem Scheduled.save (h : Scheduled db log) {event : EventRecord} {row : EventRow}
    (hrow : db.events.get event.request = some row) (hr : Revises row.record event) :
    Scheduled (db.saveEvent event) log := by
  -- the row of the event is the one that was read
  have hread : ∀ r ∈ db.events, r.1 = event.request → r.2 = row := by
    intro r hmem he
    have hget := Table.get_row h.requests hmem
    rw [he, hrow] at hget
    exact (Option.some.inj hget).symm
  have hevents : ∀ key, eventsOf (db.saveEvent event) key = eventsOf db key := by
    intro key
    rw [eventsOf, EventDb.saveEvent, Table.update, List.filter_map, List.map_map, eventsOf]
    have hsource : ((fun r : Uuid × EventRow => decide (r.2.source = key)) ∘ fun r =>
        if r.1 = event.request then
          (r.1, { r.2 with record := event, settled := event.settled }) else r) =
        fun r => decide (r.2.source = key) := by
      funext r
      show decide ((if _ then _ else _ : Uuid × EventRow).2.source = key) = _
      split <;> rfl
    rw [hsource]
    refine List.map_congr_left fun r hmem => ?_
    rw [Function.comp_apply]
    split
    · rename_i he
      rw [hread r (List.mem_of_mem_filter hmem) he, hr.payloadDigest]
    · rfl
  have hopen : ∀ key, openEvents (db.saveEvent event) key ≤ openEvents db key := by
    intro key
    rw [openEvents, EventDb.saveEvent, Table.update, List.countP_map, openEvents]
    refine List.countP_mono_left fun r hmem hr' => ?_
    rw [Function.comp_apply] at hr'
    split at hr'
    · rename_i he
      -- the row of the event: it was open if it is open now
      have hsettled := h.settled r hmem
      simp only [decide_eq_true_eq] at hr' ⊢
      refine ⟨hr'.1, ?_⟩
      rw [hread r hmem he] at hsettled ⊢
      rw [hsettled]
      by_contra hold
      rw [Bool.not_eq_false] at hold
      rw [hr.settled hold] at hr'
      cases hr'.2
    · exact hr'
  refine ⟨?_, ?_, fun key s hkey => ?_, fun key hkey => ?_⟩
  · rw [EventDb.saveEvent]
    show ((db.events.update event.request fun row =>
      { row with record := event, settled := event.settled }).map Prod.fst).Nodup
    rw [Table.keys_update]
    exact h.requests
  · intro r hr
    obtain ⟨r₀, hr₀, rfl⟩ := List.mem_map.mp hr
    split
    · rfl
    · exact h.settled r₀ hr₀
  · exact (h.sources key s hkey).frame rfl rfl rfl (hevents key) (hopen key)
  · rw [hevents]
    exact h.missing key hkey

/-- **Every operation keeps the schedules.** -/
theorem Scheduled.step (h : Scheduled db log) (hs : EventStep db out db') :
    Scheduled db' (log ++ out) := by
  cases hs with
  | tick env id now => exact h.tick env id now
  | register hc =>
    rw [List.append_nil]
    exact h.register hc
  | receive hc =>
    rw [List.append_nil]
    exact h.receive hc
  | disable hc =>
    rw [List.append_nil]
    exact h.disable hc
  | admission error hfind =>
    rw [List.append_nil]
    exact h.admission error hfind
  | save hrow hr =>
    rw [List.append_nil]
    exact h.save hrow hr

theorem scheduled_empty : Scheduled .empty [] where
  requests := .nil
  settled _ h := nomatch h
  sources _ _ h := nomatch h
  missing _ _ := ⟨rfl, rfl⟩

theorem EventReachable.scheduled (h : EventReachable db log) : Scheduled db log := by
  induction h with
  | start => exact scheduled_empty
  | step _ hs ih => exact ih.step hs

/-! ## the schedule -/

/-- **The schedule of an interval source is exact**: the windows of its events begin with the first
occurrence, follow one another without a gap and do not meet; each of them, and all of them together,
count the occurrences they stand for; the events of the source are those of its windows, each with the
payload that shows its window; at most one event is open; and a tick that fails, or that has nothing to
emit, leaves the tables as they are. -/
theorem interval_schedule_exact (h : EventReachable db log) {first step : Nat}
    (hsource : db.findEventSource id = some source)
    (htrigger : source.config.trigger = .interval first step) :
    ∃ next, source.nextDueMs = some next ∧
      (∀ w ∈ (windowsOf id log).head?, w.first = first) ∧
      (windowsOf id log).IsChain (fun a b => b.first = a.latest + step) ∧
      (∀ w ∈ (windowsOf id log).getLast?, w.latest + step = next) ∧
      (windowsOf id log).Pairwise (fun a b => a.latest < b.first) ∧
      (∀ w ∈ windowsOf id log, w.first ≤ w.latest ∧
        points first step (w.latest + 1) = points first step w.first + w.count) ∧
      ((windowsOf id log).map Window.count).sum = points first step next ∧
      eventsOf db id = (windowsOf id log).map windowEvent ∧
      (∀ v w, windowPayload v = windowPayload w → v = w) ∧
      openEvents db id ≤ 1 ∧
      ∀ env now, (∀ event, (tickEventSource env id now db).1 ≠ .ok (some event)) →
        (tickEventSource env id now db).2 = db := by
  have hkept := h.scheduled.sources id source hsource
  obtain ⟨next, hnext, hcovers, hevents, hopen⟩ := hkept.schedule first step htrigger
  have hstep : 0 < step := by
    have hchecked := hkept.trigger
    rw [htrigger] at hchecked
    have := refuseIf_ok hchecked
    omega
  refine ⟨next, hnext, hcovers.begins, hcovers.consecutive, hcovers.ends, hcovers.disjoint hstep,
    fun w hw => ⟨(hcovers.before_next hstep w hw).1, hcovers.counts hstep w hw⟩,
    hcovers.points hstep, hevents, fun _ _ => windowPayload_inj, hopen, fun env now hfails => ?_⟩
  rcases tick_cases env id now db with ⟨_, _, _, event, _, -, -, htick, -⟩ | ⟨-, hsame, -⟩
  · exact absurd (by rw [htick]) (hfails event)
  · exact hsame

end

end

/-! ## an interval for examples -/

namespace Sample

scoped instance eventCodec : EventCodec := ⟨fun _ => [], fun _ => []⟩

/-- every artifact is stored and every transaction is committed -/
def eventEnv : EventEnv where
  put _ := .ok ()
  prepare items := .ok ⟨"", ⟨0⟩, items⟩
  advance := .ok ()
  commit := .ok ()

def everySecond : SourceConfig where
  id := ⟨20⟩
  session := ⟨⟨2⟩⟩
  objective := "Summarize the repository"
  policy := ⟨1, ⟨1, "fixture", ∅⟩, .source⟩
  limits := Limits.default
  trigger := .interval 1000 1000

/-- the source as it is registered, and after its first event -/
def ticking (next : Nat) (last : Option String) : SourceRecord :=
  ⟨everySecond, ⟨0⟩, false, some next, last, none⟩

def registered : EventDb := ⟨[(everySecond.id, ⟨ticking 1000 none, false⟩)], []⟩

theorem registers : EventDb.empty.registerEventSource everySecond ⟨0⟩ =
    .ok (ticking 1000 none, registered) := rfl

theorem ticks : emitted eventEnv everySecond.id 3500 registered =
      [(everySecond.id, ⟨1000, 3000, 3⟩)] ∧
    (tickEventSource eventEnv everySecond.id 3500 registered).2.findEventSource everySecond.id =
      some (ticking 4000 (some "interval:3000")) := ⟨rfl, rfl⟩

end Sample

open Sample in
theorem interval_schedule_exact_everySecond : ∃ db log source, EventReachable db log ∧
    db.findEventSource everySecond.id = some source ∧
    windowsOf everySecond.id log = [⟨1000, 3000, 3⟩] ∧
    eventsOf db everySecond.id = [("interval:3000", Digest.ofStr (windowPayload ⟨1000, 3000, 3⟩))] ∧
    ∃ next, source.nextDueMs = some next ∧
      ((windowsOf everySecond.id log).map Window.count).sum = points 1000 1000 next := by
  have hr : EventReachable registered ([] ++ []) := .step .start (.register registers)
  have hr' := hr.step (.tick eventEnv everySecond.id 3500)
  obtain ⟨hout, hfind⟩ := ticks
  obtain ⟨next, hnext, -, -, -, -, -, hsum, hevents, -⟩ := interval_schedule_exact hr' hfind rfl
  have hwindows : windowsOf everySecond.id ([] ++ [] ++ emitted eventEnv everySecond.id 3500 registered) =
      [⟨1000, 3000, 3⟩] := by
    rw [hout]
    rfl
  rw [hwindows] at hevents
  exact ⟨_, _, _, hr', hfind, hwindows, hevents, next, hnext, hsum⟩

end Orvek
