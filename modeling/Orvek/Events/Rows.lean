import Orvek.Events.Schedule

/-!
# The rows of events

What the operations on the tables keep of an event and of its source, whoever calls them.

* `RowsKept`           a row is kept under its key, and no two events have one source and key;
* `EventDb.Carries`    what is not taken back: the identity of an event, an intent to cancel it, and
                       that a source is disabled;
* `EventStep.rowsKept`, `EventStep.carries`   every operation keeps them.
-/

set_option linter.unusedSectionVars false

namespace Orvek
open Checks Json Grid

/-! ## revisions -/

theorem Revises.refl (e : EventRecord) : Revises e e := ⟨rfl, rfl, rfl, rfl, rfl, rfl, rfl, id, id⟩

theorem Revises.trans {a b c : EventRecord} (h : Revises a b) (h' : Revises b c) : Revises a c where
  source := h'.source.trans h.source
  key := h'.key.trans h.key
  payloadDigest := h'.payloadDigest.trans h.payloadDigest
  input := h'.input.trans h.input
  session := h'.session.trans h.session
  request := h'.request.trans h.request
  receivedMs := h'.receivedMs.trans h.receivedMs
  cancelRequested hc := h'.cancelRequested (h.cancelRequested hc)
  settled hs := h'.settled (h.settled hs)

/-! ## rows -/

/-- the row of an event is kept under its request, and the source and the key of an event are its own -/
structure RowsKept (db : EventDb) : Prop where
  named : ∀ (k : Uuid) (row : EventRow), db.events.get k = some row →
    row.record.request = k ∧ row.source = row.record.source ∧ row.dedupKey = row.record.key
  apart : ∀ (k k' : Uuid) (row row' : EventRow), db.events.get k = some row →
    db.events.get k' = some row' → row.source = row'.source → row.dedupKey = row'.dedupKey → k = k'
  sources : (db.sources.map Prod.fst).Nodup

/-- what later tables keep of earlier ones -/
structure EventDb.Carries (db db' : EventDb) : Prop where
  rows : ∀ (k : Uuid) (row : EventRow), db.events.get k = some row →
    ∃ row', db'.events.get k = some row' ∧ Revises row.record row'.record
  sources : ∀ (id : Uuid) (s : SourceRecord), db.findEventSource id = some s →
    ∃ s', db'.findEventSource id = some s' ∧ (s.disabled = true → s'.disabled = true)

theorem EventDb.Carries.refl (db : EventDb) : db.Carries db :=
  ⟨fun _ row h => ⟨row, h, Revises.refl _⟩, fun _ s h => ⟨s, h, id⟩⟩

theorem EventDb.Carries.trans {a b c : EventDb} (h : a.Carries b) (h' : b.Carries c) : a.Carries c := by
  refine ⟨fun k row hrow => ?_, fun id s hs => ?_⟩
  · obtain ⟨row₁, hrow₁, hr₁⟩ := h.rows k row hrow
    obtain ⟨row₂, hrow₂, hr₂⟩ := h'.rows k row₁ hrow₁
    exact ⟨row₂, hrow₂, hr₁.trans hr₂⟩
  · obtain ⟨s₁, hs₁, hd₁⟩ := h.sources id s hs
    obtain ⟨s₂, hs₂, hd₂⟩ := h'.sources id s₁ hs₁
    exact ⟨s₂, hs₂, fun hd => hd₂ (hd₁ hd)⟩

theorem rowsKept_empty : RowsKept .empty := ⟨fun _ _ h => (nomatch h), fun _ _ _ _ h => (nomatch h), .nil⟩

variable {db db' : EventDb} {id : Uuid} {key : String} {event : EventRecord}

theorem event_row (hnodup : (db.events.map Prod.fst).Nodup) (h : db.event id key = some event) :
    ∃ k row, db.events.get k = some row ∧ row.record = event ∧ row.source = id ∧ row.dedupKey = key := by
  obtain ⟨row, hrow, rfl⟩ := Option.map_eq_some_iff.mp h
  have hcolumns := List.find?_some hrow
  simp only [decide_eq_true_eq] at hcolumns
  exact ⟨row.1, row.2, Table.get_row hnodup (List.mem_of_find?_eq_some hrow), rfl, hcolumns.1,
    hcolumns.2⟩

theorem RowsKept.of_event (h : RowsKept db) (hnodup : (db.events.map Prod.fst).Nodup)
    (hevent : db.event id key = some event) :
    ∃ row, db.events.get event.request = some row ∧ row.record = event ∧ event.source = id ∧
      event.key = key := by
  obtain ⟨k, row, hrow, rfl, rfl, rfl⟩ := event_row hnodup hevent
  obtain ⟨hk, hsource, hkey⟩ := h.named k row hrow
  exact ⟨row, by rw [hk]; exact hrow, rfl, hsource.symm, hkey.symm⟩

theorem RowsKept.found (h : RowsKept db) (hnodup : (db.events.map Prod.fst).Nodup) {k : Uuid}
    {row : EventRow} (hrow : db.events.get k = some row) :
    db.event row.record.source row.record.key = some row.record := by
  obtain ⟨-, hsource, hkey⟩ := h.named k row hrow
  cases hfound : db.event row.record.source row.record.key with
  | none =>
    -- the search would have stopped at the row
    rw [EventDb.event, Option.map_eq_none_iff, List.find?_eq_none] at hfound
    have hmem := Table.row_mem hrow
    exact absurd (by simp [hsource, hkey]) (hfound _ hmem)
  | some e =>
    obtain ⟨k', row', hrow', rfl, hs, hk⟩ := event_row hnodup hfound
    cases h.apart k k' row row' hrow hrow' (hsource.trans hs.symm) (hkey.trans hk.symm)
    cases hrow.symm.trans hrow'
    rfl

/-! ## writing a row -/

section insert
variable [Sha256] [SessionCodec] [EventCodec]

theorem RowsKept.insert (h : RowsKept db) (hrow : db.insertRow event = some db') : RowsKept db' := by
  obtain ⟨hnone, hsources, hinsert⟩ := insertRow_ok hrow
  have hget := Table.get_insert hinsert
  -- the unique index keeps the new row apart from those that are there
  have hapart : ∀ k row, db.events.get k = some row → row.source = event.source →
      row.dedupKey = event.key → False := by
    intro k row hk hsource hkey
    rw [EventDb.event, Option.map_eq_none_iff, List.find?_eq_none] at hnone
    have hmem := Table.row_mem hk
    exact hnone _ hmem (by simp [hsource, hkey])
  refine ⟨fun k row hk => ?_, fun k k' row row' hk hk' hs hd => ?_, by rw [hsources]; exact h.sources⟩
  · rw [(hget k).2] at hk
    split at hk
    · rename_i he
      cases hk
      exact ⟨he.symm, rfl, rfl⟩
    · exact h.named k row hk
  · rw [(hget k).2] at hk
    rw [(hget k').2] at hk'
    split at hk <;> split at hk'
    · rename_i he he'
      rw [he, he']
    · cases hk
      exact (hapart k' row' hk' hs.symm hd.symm).elim
    · cases hk'
      exact (hapart k row hk hs hd).elim
    · exact h.apart k k' row row' hk hk' hs hd

theorem carries_insert (hrow : db.insertRow event = some db') : db.Carries db' := by
  obtain ⟨-, hsources, hinsert⟩ := insertRow_ok hrow
  have hget := Table.get_insert hinsert
  refine ⟨fun k row hk => ⟨row, ?_, Revises.refl _⟩, fun id s hs => ⟨s, ?_, fun hd => hd⟩⟩
  · rw [(hget k).2]
    split
    · rename_i he
      rw [he, (hget k).1] at hk
      cases hk
    · exact hk
  · rw [findEventSource_same hsources]
    exact hs

end insert

theorem RowsKept.of_events (h : RowsKept db) (hsame : db'.events = db.events)
    (hsources : (db'.sources.map Prod.fst).Nodup) : RowsKept db' :=
  ⟨by rw [hsame]; exact h.named, by rw [hsame]; exact h.apart, hsources⟩

theorem RowsKept.update (h : RowsKept db) (id : Uuid) (f : SourceRow → SourceRow) :
    RowsKept { db with sources := db.sources.update id f } :=
  h.of_events rfl (by rw [Table.keys_update]; exact h.sources)

theorem get_saveEvent (event : EventRecord) (db : EventDb) (k : Uuid) :
    (db.saveEvent event).events.get k = if k = event.request then
      (db.events.get k).map fun row => { row with record := event, settled := event.settled }
    else db.events.get k := by
  rw [EventDb.saveEvent, Table.get_update]

theorem RowsKept.save (h : RowsKept db) {row : EventRow} (hrow : db.events.get event.request = some row)
    (hr : Revises row.record event) : RowsKept (db.saveEvent event) := by
  -- a save changes neither the columns of a row nor its place
  have hback : ∀ k r, (db.saveEvent event).events.get k = some r → ∃ r₀, db.events.get k = some r₀ ∧
      r.source = r₀.source ∧ r.dedupKey = r₀.dedupKey ∧
      (r.record = r₀.record ∨ k = event.request ∧ r.record = event) := by
    intro k r hk
    rw [get_saveEvent] at hk
    split at hk
    · rename_i he
      obtain ⟨r₀, hr₀, rfl⟩ := Option.map_eq_some_iff.mp hk
      exact ⟨r₀, hr₀, rfl, rfl, .inr ⟨he, rfl⟩⟩
    · exact ⟨r, hk, rfl, rfl, .inl rfl⟩
  refine ⟨fun k r hk => ?_, fun k k' r r' hk hk' hs hd => ?_, h.sources⟩
  · obtain ⟨r₀, hr₀, hsource, hkey, hrecord | ⟨rfl, hrecord⟩⟩ := hback k r hk
    · rw [hsource, hkey, hrecord]
      exact h.named k r₀ hr₀
    · cases hrow.symm.trans hr₀
      obtain ⟨-, hsource₀, hkey₀⟩ := h.named _ row hrow
      rw [hsource, hkey, hrecord]
      exact ⟨rfl, hsource₀.trans hr.source.symm, hkey₀.trans hr.key.symm⟩
  · obtain ⟨r₀, hr₀, hsource, hkey, -⟩ := hback k r hk
    obtain ⟨r₀', hr₀', hsource', hkey', -⟩ := hback k' r' hk'
    exact h.apart k k' r₀ r₀' hr₀ hr₀' (hsource.symm.trans (hs.trans hsource'))
      (hkey.symm.trans (hd.trans hkey'))

theorem carries_save {row : EventRow} (hrow : db.events.get event.request = some row)
    (hr : Revises row.record event) : db.Carries (db.saveEvent event) := by
  refine ⟨fun k r hk => ?_, fun id s hs => ⟨s, hs, fun hd => hd⟩⟩
  rw [get_saveEvent]
  split
  · rename_i he
    subst he
    cases hrow.symm.trans hk
    rw [hrow]
    exact ⟨_, rfl, hr⟩
  · exact ⟨r, hk, Revises.refl _⟩

/-! ## writing a source -/

section
variable [Sha256] [SessionCodec] [EventCodec] {source : SourceRecord} {env : EventEnv}
  {payload : String} {now : Nat}

theorem carries_update {source' : SourceRecord} {f : SourceRow → SourceRow}
    (hfind : db.findEventSource id = some source) (hf : ∀ row, (f row).record = source')
    (hdisabled : source.disabled = true → source'.disabled = true) :
    db.Carries { db with sources := db.sources.update id f } := by
  refine ⟨fun k row hk => ⟨row, hk, Revises.refl _⟩, fun key s hs => ?_⟩
  rw [findEventSource_update]
  split
  · rename_i he
    subst he
    cases hfind.symm.trans hs
    obtain ⟨row, hrow, -⟩ := Option.map_eq_some_iff.mp hfind
    rw [hrow]
    exact ⟨source', congrArg some (hf row), hdisabled⟩
  · exact ⟨s, hs, fun hd => hd⟩

/-! ## the operations -/

theorem insertEvent_rows (h : insertEvent env source key payload now db = .ok (event, db')) :
    db' = db ∨ db.insertRow event = some db' := by
  rcases insertEvent_ok h with ⟨-, hsame, -⟩ | ⟨-, -, hrow, -⟩
  · exact .inl hsame
  · exact .inr hrow

theorem receiveEvent_ok (h : receiveEvent env id key payload now db = .ok (event, db')) :
    ∃ source, db.findEventSource id = some source ∧
      insertEvent env source key payload now db = .ok (event, db') := by
  obtain ⟨-, -, h⟩ := bind_ok h
  obtain ⟨source, hsource, h⟩ := bind_ok h
  obtain ⟨-, h⟩ := refuseIf_bind h
  exact ⟨source, eventSource_ok hsource, h⟩

theorem RowsKept.receive (hk : RowsKept db)
    (h : receiveEvent env id key payload now db = .ok (event, db')) :
    RowsKept db' ∧ db.Carries db' := by
  obtain ⟨source, -, hinsert⟩ := receiveEvent_ok h
  rcases insertEvent_rows hinsert with rfl | hrow
  · exact ⟨hk, .refl _⟩
  · exact ⟨hk.insert hrow, carries_insert hrow⟩

theorem RowsKept.tick (hk : RowsKept db) (env : EventEnv) (id : Uuid) (now : Nat) :
    RowsKept (tickEventSource env id now db).2 ∧ db.Carries (tickEventSource env id now db).2 := by
  rcases tick_cases env id now db with
    ⟨source, w, following, event, db', hdue, hemit, htick, -⟩ | ⟨-, hsame, -⟩
  · rw [htick]
    obtain ⟨hfind, -⟩ := dueWindow_ok hdue
    obtain ⟨⟨e, db₁⟩, hinsert, hemit⟩ := bind_ok hemit
    obtain ⟨-, -, hemit⟩ := bind_ok hemit
    cases hemit
    -- the cursor of the source moves after the row is written
    have hwrite : ∀ {d : EventDb}, d.findEventSource id = some source →
        d.Carries (d.writeSource id { source with
          nextDueMs := some following, lastKey := some event.key }) :=
      fun hd => carries_update hd (fun _ => rfl) fun h => h
    rcases insertEvent_rows hinsert with rfl | hrow
    · exact ⟨hk.update _ _, hwrite hfind⟩
    · refine ⟨(hk.insert hrow).update _ _, (carries_insert hrow).trans (hwrite ?_)⟩
      rw [findEventSource_same (insertRow_ok hrow).2.1]
      exact hfind
  · rw [hsame]
    exact ⟨hk, .refl _⟩

theorem RowsKept.register (hk : RowsKept db) {config : SourceConfig} {authority : Digest}
    (h : db.registerEventSource config authority = .ok (source, db')) :
    RowsKept db' ∧ db.Carries db' := by
  obtain ⟨_, -, h⟩ := bind_ok h
  split at h
  · obtain ⟨-, h⟩ := refuseIf_bind h
    cases h
    exact ⟨hk, .refl _⟩
  · rename_i hnone
    obtain ⟨-, h⟩ := refuseIf_bind h
    obtain ⟨sources, hinsert, h⟩ := bind_ok h
    cases h
    have hrow := orSql_ok hinsert
    refine ⟨hk.of_events rfl (Table.nodup_insert hrow hk.sources),
      fun k row hk => ⟨row, hk, Revises.refl _⟩, fun id s hs => ⟨s, ?_, fun hd => hd⟩⟩
    rw [EventDb.findEventSource, (Table.get_insert hrow id).2]
    split
    · rename_i he
      rw [he, hnone] at hs
      cases hs
    · exact hs

theorem RowsKept.admission (hk : RowsKept db) (error : Option String)
    (h : db.findEventSource source.config.id = some source) :
    RowsKept (db.recordEventSourceAdmission source error) ∧
      db.Carries (db.recordEventSourceAdmission source error) := by
  unfold EventDb.recordEventSourceAdmission
  split
  · exact ⟨hk, .refl _⟩
  · exact ⟨hk.update _ _, carries_update h (fun _ => rfl) fun hd => hd⟩

theorem RowsKept.disable (hk : RowsKept db) (h : db.disableEventSource id = .ok (source, db')) :
    RowsKept db' ∧ db.Carries db' := by
  obtain ⟨s, hs, h⟩ := bind_ok h
  cases h
  exact ⟨hk.update _ _, carries_update (eventSource_ok hs) (fun _ => rfl) fun _ => rfl⟩

/-- **Every operation keeps the rows apart, and takes nothing back.** -/
theorem EventStep.kept {out : List (Uuid × Window)} (hs : EventStep db out db') (hk : RowsKept db) :
    RowsKept db' ∧ db.Carries db' := by
  cases hs with
  | register h => exact hk.register h
  | receive h => exact hk.receive h
  | tick env id now => exact hk.tick env id now
  | disable h => exact hk.disable h
  | admission error h => exact hk.admission error h
  | save hrow hr => exact ⟨hk.save hrow hr, carries_save hrow hr⟩

theorem EventReachable.rowsKept {log : List (Uuid × Window)} (h : EventReachable db log) :
    RowsKept db := by
  induction h with
  | start => exact rowsKept_empty
  | step _ hs ih => exact (hs.kept ih).1

/-- **A key that is reused with another payload is refused**, once its event has a row. -/
theorem receiveEvent_reused (hdb : db.event id key = some event)
    (hnamed : ∀ source, db.findEventSource id = some source → source.config.id = id)
    (hother : Digest.ofStr payload ≠ event.payloadDigest) (env : EventEnv) (now : Nat) :
    ∃ e, receiveEvent env id key payload now db = .error e := by
  cases h : receiveEvent env id key payload now db with
  | error e => exact ⟨e, rfl⟩
  | ok r =>
    obtain ⟨source, hfind, hinsert⟩ := receiveEvent_ok h
    rcases insertEvent_ok hinsert with ⟨hold, -, hsame⟩ | ⟨hnone, -⟩
    · rw [hnamed source hfind, hdb] at hold
      cases hold
      exact absurd hsame.symm hother
    · rw [hnamed source hfind, hdb] at hnone
      cases hnone

end

end Orvek
