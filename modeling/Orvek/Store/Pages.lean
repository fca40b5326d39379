import Orvek.Store.ToolResults
import Orvek.Lib.Paging
import Mathlib.Order.Nat

/-!
# Pages of the journal

The events of all tasks and sessions are one table, in the order of their commits.  A reader follows
it page by page from the last sequence it has seen.

* `StoredEvent`      a row of the table; `Committed` is a table that transactions have filled;
* `journalPage`      a page, bounded by a number of records and by their bytes;
* `Committed.links`  a row is numbered and hashed after the row before it of its aggregate;
* `journalPage_ok`   a page is a beginning of what follows its cursor, and empty only at the end.
-/

set_option linter.unusedSectionVars false

namespace Orvek
open Checks Json Paging

/-! ## the table of events -/

def maxJournalPageBytes : Nat := 4 * 1024 * 1024

inductive AggregateKind where
  | task | session
  deriving DecidableEq, Repr

def AggregateKind.text : AggregateKind → String
  | .task => "task"
  | .session => "session"

structure StoredEvent where
  sequence : Nat
  aggregate : Uuid
  kind : AggregateKind
  revision : Nat
  event : List UInt8
  hash : Digest
  deriving DecidableEq

/-- the revision, the event and the hash of a row -/
abbrev EventColumns : Type := Nat × List UInt8 × Digest

def rowsOf (rows : List StoredEvent) (kind : AggregateKind) (id : Uuid) : List EventColumns :=
  (rows.filter fun r => r.aggregate = id ∧ r.kind = kind).map fun r => (r.revision, r.event, r.hash)

def journalHead (rows : List StoredEvent) : Nat := (rows.map StoredEvent.sequence).foldr max 0

theorem rowsOf_append (rows added : List StoredEvent) (kind : AggregateKind) (id : Uuid) :
    rowsOf (rows ++ added) kind id = rowsOf rows kind id ++ rowsOf added kind id := by
  rw [rowsOf, List.filter_append, List.map_append]
  rfl

theorem le_journalHead {rows : List StoredEvent} {r : StoredEvent} (h : r ∈ rows) :
    r.sequence ≤ journalHead rows := by
  induction rows with
  | nil => cases h
  | cons x rows ih =>
    rw [journalHead, List.map_cons, List.foldr_cons]
    rcases List.mem_cons.mp h with rfl | h
    · exact Nat.le_max_left _ _
    · exact Nat.le_trans (ih h) (Nat.le_max_right _ _)

theorem journalHead_append (rows added : List StoredEvent) :
    journalHead rows ≤ journalHead (rows ++ added) := by
  induction rows with
  | nil => exact Nat.zero_le _
  | cons x rows ih =>
    simp only [journalHead, List.cons_append, List.map_cons, List.foldr_cons] at ih ⊢
    omega

/-! ## records -/

structure JournalRecord where
  sequence : Nat
  aggregate : String
  kind : String
  revision : Nat
  event : Value
  deriving DecidableEq

def JournalRecord.json (r : JournalRecord) : Value :=
  .object [("sequence", .number (showUsize r.sequence)), ("aggregate", .string r.aggregate),
    ("kind", .string r.kind), ("revision", .number (showUsize r.revision)), ("event", r.event)]

/-- `serde_json::from_slice` of an event that is read without a schema -/
class JournalReader where
  event : List UInt8 → Except JsonError Value

section
variable [Sha256] [JournalReader]

/-- the hash of the row before a revision of an aggregate, which the hash of its row covers -/
def previousHash (columns : List EventColumns) (revision : Nat) :
    Except StoreError (Option Digest) :=
  if 1 < revision then
    match columns.find? fun e => e.1 = revision - 1 with
    | none => .error (.integrity "journal predecessor missing")
    | some e => .ok (some e.2.2)
  else .ok none

def journalRecord (rows : List StoredEvent) (r : StoredEvent) : Except StoreError JournalRecord :=
    do
  let previous ← previousHash (rowsOf rows r.kind r.aggregate) r.revision
  refuseIf (aggregateHash r.kind.text r.aggregate r.revision previous r.event ≠ r.hash)
    (StoreError.integrity "journal event integrity")
  let event ← (JournalReader.event r.event).mapError StoreError.json
  .ok { sequence := r.sequence, aggregate := r.aggregate.display, kind := r.kind.text,
        revision := r.revision, event }

/-- the records of a page; a record that would make it too long ends it -/
def fillPage (rows : List StoredEvent) (encodedBytes : Nat) (records : List JournalRecord) :
    List StoredEvent → Except StoreError (List JournalRecord)
  | [] => .ok records
  | r :: rest => do
    let record ← journalRecord rows r
    let recordBytes := (toVec record.json).length
    let separator := if records.isEmpty then 0 else 1
    if maxJournalPageBytes < encodedBytes + separator + recordBytes then .ok records
    else fillPage rows (encodedBytes + (separator + recordBytes)) (records ++ [record]) rest

def journalPage (rows : List StoredEvent) (cursor limit : Nat) :
    Except StoreError (List JournalRecord) := do
  refuseIf (limit = 0 ∨ 256 < limit) (StoreError.invalid "journal page limit must be 1..256")
  refuseIf (2 ^ 63 ≤ cursor) (StoreError.invalid "cursor exceeds journal range")
  fillPage rows 0 [] ((after StoredEvent.sequence (some cursor) rows).take limit)

end

/-! ## what transactions commit -/

def Db.eventsOf (db : Db) (kind : AggregateKind) (id : Uuid) : List EventColumns :=
  match kind with
  | .task => match db.tasks.get ⟨id⟩ with
    | none => []
    | some a => a.events.map fun r => (r.revision, r.event.bytes, r.hash)
  | .session => match db.sessions.get ⟨id⟩ with
    | none => []
    | some a => a.events.map fun r => (r.revision, r.event.bytes, r.hash)

section
variable [Sha256] [ContractCodec] [SessionCodec] [StoreCodec] [JsonReader]
variable {cursor : Nat}

/-- a store with its table of events: a transaction adds the events by which its aggregates grew, in
any order between them, numbered after all rows there are -/
inductive Committed (draws : TaskState → Uuid → Prop) : Db → World → List StoredEvent → Prop
  | empty : Committed draws Db.empty World.empty []
  | step {db db' : Db} {w : World} {task : Option TaskState} {session : Option SessionState}
      {rows added : List StoredEvent} (h : Committed draws db w rows)
      (hs : Step draws db task session db')
      (hadded : ∀ kind id, db'.eventsOf kind id = db.eventsOf kind id ++ rowsOf added kind id)
      (hsorted : Sorted StoredEvent.sequence (rows ++ added))
      (hrange : ∀ r ∈ added, r.sequence < 2 ^ 63) :
      Committed draws db' (w.write task session) (rows ++ added)

variable {draws : TaskState → Uuid → Prop} {db : Db} {w : World} {rows : List StoredEvent}

theorem Committed.reachable (h : Committed draws db w rows) : Reachable draws db w := by
  induction h with
  | empty => exact Run.refl
  | step _ hs _ _ _ ih => exact Run.step ih hs

theorem Committed.sorted (h : Committed draws db w rows) : Sorted StoredEvent.sequence rows := by
  cases h with
  | empty => exact List.Pairwise.nil
  | step _ _ _ hsorted _ => exact hsorted

theorem Committed.range (h : Committed draws db w rows) : ∀ r ∈ rows, r.sequence < 2 ^ 63 := by
  induction h with
  | empty => exact fun _ hr => nomatch hr
  | step _ _ _ _ hrange ih =>
    intro r hr
    rcases List.mem_append.mp hr with hr | hr
    · exact ih r hr
    · exact hrange r hr

theorem Committed.events (h : Committed draws db w rows) (kind : AggregateKind) (id : Uuid) :
    rowsOf rows kind id = db.eventsOf kind id := by
  induction h with
  | empty => cases kind <;> rfl
  | step _ _ hadded _ _ ih => rw [rowsOf_append, ih, hadded kind id]

/-! ## rows and the rows before them -/

theorem previousHash_columns {σ δ : Type} {F : Journal.Format σ δ Digest StoreError}
    {events : List (Journal.Row δ Digest)} {s : σ} {head : Digest} (H : F.Holds events s head)
    (bytes : δ → List UInt8) {r : Journal.Row δ Digest} (hr : r ∈ events) :
    F.size r.event ≤ F.maxBytes ∧ ∃ previous,
      previousHash (events.map fun r => (r.revision, bytes r.event, r.hash)) r.revision = .ok
        previous ∧
      F.hash r.revision previous r.event = r.hash := by
  obtain ⟨before, later, rfl⟩ := List.append_of_mem hr
  obtain ⟨hrev, hsize, hhash⟩ := H.linked rfl
  refine ⟨hsize, before.getLast?.map Journal.Row.hash, ?_, hhash⟩
  unfold previousHash
  cases hlast : before.getLast? with
  | none =>
    have hnil := List.getLast?_eq_none_iff.mp hlast
    subst hnil
    rw [hrev]
    exact if_neg (by simp)
  | some q =>
    obtain ⟨init, rfl⟩ := List.getLast?_eq_some_iff.mp hlast
    have hinit : ∀ x ∈ init, x.revision ≠ init.length + 1 := by
      intro x hx
      obtain ⟨a, b, rfl⟩ := List.append_of_mem hx
      have hxrev := (H.linked (show _ = a ++ x :: (b ++ [q] ++ r :: later) by simp)).1
      rw [hxrev, List.length_append, List.length_cons]
      omega
    have hq : q.revision = init.length + 1 :=
      (H.linked (show _ = init ++ q :: (r :: later) by simp)).1
    have hfind : ((init ++ [q] ++ r :: later).map fun r =>
      (r.revision, bytes r.event, r.hash)).find?
        (fun e => e.1 = r.revision - 1) = some (q.revision, bytes q.event, q.hash) := by
      rw [List.find?_map, hrev, List.length_append, List.length_singleton, Nat.add_sub_cancel]
      rw [List.append_assoc, List.find?_append, List.find?_eq_none.mpr (by simpa using hinit),
        Option.none_or,
        List.singleton_append, List.find?_cons_of_pos (by simpa using hq)]
      rfl
    rw [if_pos (by rw [hrev, List.length_append, List.length_singleton]; omega), hfind]
    rfl

variable {r : StoredEvent}

/-- **A row is hashed after the row before it of its aggregate**, and its event has a bounded size.
-/
theorem Committed.links (h : Committed draws db w rows) (hr : r ∈ rows) :
    r.event.length ≤ maxEventBytes ∧ ∃ previous,
      previousHash (rowsOf rows r.kind r.aggregate) r.revision = .ok previous ∧
      aggregateHash r.kind.text r.aggregate r.revision previous r.event = r.hash := by
  have hmem : (r.revision, r.event, r.hash) ∈ rowsOf rows r.kind r.aggregate :=
    List.mem_map.mpr ⟨r, List.mem_filter.mpr ⟨hr, by simp⟩, rfl⟩
  have hrep := h.reachable.represents
  rw [h.events] at hmem ⊢
  generalize hkind : r.kind = kind at hmem ⊢
  cases kind with
  | task =>
    cases ha : db.tasks.get ⟨r.aggregate⟩ with
    | none =>
      rw [Db.eventsOf, ha] at hmem
      cases hmem
    | some a =>
      have hrow := hrep.tasks ⟨r.aggregate⟩
      rw [ha] at hrow
      rw [Db.eventsOf, ha] at hmem ⊢
      obtain ⟨x, hx, he⟩ := List.mem_map.mp hmem
      generalize w.tasks ⟨r.aggregate⟩ = y at hrow
      cases hrow with
      | some hholds =>
        obtain ⟨hsize, previous, hprevious, hhash⟩ :=
          previousHash_columns hholds.events (fun d => d.bytes) hx
        obtain ⟨he₁, he₂, he₃⟩ : x.revision = r.revision ∧ x.event.bytes = r.event ∧
          x.hash = r.hash := by
          simpa using he
        rw [he₁] at hprevious hhash
        rw [← he₂, ← he₃]
        exact ⟨hsize, previous, hprevious, hhash⟩
  | session =>
    cases ha : db.sessions.get ⟨r.aggregate⟩ with
    | none =>
      rw [Db.eventsOf, ha] at hmem
      cases hmem
    | some a =>
      have hrow := hrep.sessions ⟨r.aggregate⟩
      rw [ha] at hrow
      rw [Db.eventsOf, ha] at hmem ⊢
      obtain ⟨x, hx, he⟩ := List.mem_map.mp hmem
      generalize w.sessions ⟨r.aggregate⟩ = y at hrow
      cases hrow with
      | some hholds =>
        obtain ⟨hsize, previous, hprevious, hhash⟩ :=
          previousHash_columns hholds.events (fun d => d.bytes) hx
        obtain ⟨he₁, he₂, he₃⟩ : x.revision = r.revision ∧ x.event.bytes = r.event ∧
          x.hash = r.hash := by
          simpa using he
        rw [he₁] at hprevious hhash
        rw [← he₂, ← he₃]
        exact ⟨hsize, previous, hprevious, hhash⟩

/-! ## records of the rows -/

variable [JournalReader]

/-- an event is the compact text of a value that reads back -/
def StoredEvent.IsText (r : StoredEvent) : Prop :=
  ∃ v, JournalReader.event r.event = .ok v ∧ toVec v = r.event

/-- a row as it is handed out -/
def StoredEvent.record (r : StoredEvent) : JournalRecord where
  sequence := r.sequence
  aggregate := r.aggregate.display
  kind := r.kind.text
  revision := r.revision
  event := match JournalReader.event r.event with
    | .ok v => v
    | .error _ => .null

theorem size_record (r : JournalRecord) :
    r.json.size ≤ r.event.size + escapedLength r.aggregate + escapedLength r.kind + 300 := by
  have h1 : escapedLength "sequence" = 8 := by decide
  have h2 : escapedLength "aggregate" = 9 := by decide
  have h3 : escapedLength "kind" = 4 := by decide
  have h4 : escapedLength "revision" = 8 := by decide
  have h5 : escapedLength "event" = 5 := by decide
  have h6 := size_number r.sequence
  have h7 := size_number r.revision
  rw [JournalRecord.json, size_object]
  simp only [List.map_cons, List.map_nil, List.sum_cons, List.sum_nil, fieldSize, h1, h2, h3, h4,
    h5,
    size_string]
  omega

attribute [grind =] StoredEvent.record

theorem size_storedRecord (htext : r.IsText) : r.record.json.size ≤ r.event.length + 600 := by
  obtain ⟨v, hv, htext⟩ := htext
  have hsize := size_record r.record
  have hevent : r.record.event = v := by
    rw [StoredEvent.record, hv]
  have haggregate : escapedLength r.record.aggregate ≤ 216 := escapedLength_uuid r.aggregate
  have hkind : escapedLength r.record.kind ≤ 7 := by
    show escapedLength r.kind.text ≤ 7
    cases r.kind <;> decide
  rw [hevent] at hsize
  rw [← htext, toVec_length]
  omega

theorem Committed.record (h : Committed draws db w rows) {r : StoredEvent} (hr : r ∈ rows)
    (htext : r.IsText) : journalRecord rows r = .ok r.record := by
  obtain ⟨-, previous, hprevious, hhash⟩ := h.links hr
  obtain ⟨v, hv, -⟩ := htext
  rw [journalRecord, hprevious, ok_bind, refuseIf_of_not _ (by simp [hhash]), ok_bind,
    StoredEvent.record, hv]
  rfl

/-! ## pages -/

def filledBytes (encodedBytes : Nat) (records : List JournalRecord) (r : StoredEvent) : Nat :=
  encodedBytes + ((if records.isEmpty then 0 else 1) + (toVec r.record.json).length)

theorem fillPage_cons (hrecord : journalRecord rows r = .ok r.record) (encodedBytes : Nat)
    (records : List JournalRecord) (rest : List StoredEvent) :
    fillPage rows encodedBytes records (r :: rest) =
      if maxJournalPageBytes < filledBytes encodedBytes records r then .ok records
      else fillPage rows (filledBytes encodedBytes records r) (records ++ [r.record]) rest := by
  rw [fillPage, hrecord, ok_bind]
  simp only [filledBytes, Nat.add_assoc]
  rfl

theorem fillPage_ok {l : List StoredEvent} (hrecord : ∀ r ∈ l, journalRecord rows r = .ok r.record)
    (encodedBytes : Nat) (records : List JournalRecord) :
    ∃ page tail, l = page ++ tail ∧
      fillPage rows encodedBytes records l = .ok (records ++ page.map StoredEvent.record) := by
  induction l generalizing encodedBytes records with
  | nil => exact ⟨[], [], rfl, by rw [fillPage, List.map_nil, List.append_nil]⟩
  | cons r rest ih =>
    rw [fillPage_cons (hrecord r List.mem_cons_self)]
    split
    · exact ⟨[], r :: rest, rfl, by rw [List.map_nil, List.append_nil]⟩
    · obtain ⟨page, tail, rfl, hpage⟩ := ih (fun x hx => hrecord x (List.mem_cons_of_mem r hx))
        (filledBytes encodedBytes records r) (records ++ [r.record])
      refine ⟨r :: page, tail, rfl, ?_⟩
      rw [hpage, List.map_cons, List.append_assoc]
      rfl

theorem fillPage_first {rest : List StoredEvent} (hrecord : journalRecord rows r = .ok r.record)
    (hsize : (toVec r.record.json).length ≤ maxJournalPageBytes) :
    fillPage rows 0 [] (r :: rest) = fillPage rows
      (toVec r.record.json).length [r.record] rest := by
  have hbytes : filledBytes 0 [] r = (toVec r.record.json).length := by
    rw [filledBytes, List.isEmpty_nil, if_pos rfl, Nat.zero_add, Nat.zero_add]
  rw [fillPage_cons hrecord, hbytes, if_neg (Nat.not_lt.mpr hsize), List.nil_append]

theorem fillPage_short {l : List StoredEvent} (hrecord : ∀ r ∈ l, journalRecord rows r = .ok r.record) (bound : Nat)
    (hbound : ∀ r ∈ l, (toVec r.record.json).length < bound) {encodedBytes : Nat} (records : List JournalRecord)
    (hfits : encodedBytes + l.length * bound ≤ maxJournalPageBytes) :
    fillPage rows encodedBytes records l = .ok (records ++ l.map StoredEvent.record) := by
  induction l generalizing encodedBytes records with
  | nil => rw [fillPage, List.map_nil, List.append_nil]
  | cons r rest ih =>
    have hr := hbound r List.mem_cons_self
    have hfilled : filledBytes encodedBytes records r ≤ encodedBytes + bound := by
      rw [filledBytes]
      split <;> omega
    rw [List.length_cons, Nat.succ_mul] at hfits
    rw [fillPage_cons (hrecord r List.mem_cons_self), if_neg (by omega), ih (fun x hx => hrecord x (List.mem_cons_of_mem r hx))
      (fun x hx => hbound x (List.mem_cons_of_mem r hx)) _ (by omega), List.append_assoc]
    rfl

/-- **A page is a beginning of the events after its cursor**, and it is empty only at the end. -/
theorem journalPage_ok (h : Committed draws db w rows) (htext : ∀ r ∈ rows, r.IsText) {limit : Nat}
    (hlimit : 0 < limit ∧ limit ≤ 256) (hcursor : cursor < 2 ^ 63) :
    ∃ page tail, journalPage rows cursor limit = .ok (page.map StoredEvent.record) ∧
      after StoredEvent.sequence (some cursor) rows = page ++ tail ∧ page.length ≤ limit ∧
      (page = [] → tail = []) := by
  have hmem : ∀ r ∈ after StoredEvent.sequence (some cursor) rows, r ∈ rows := fun r hr =>
    (List.mem_filter.mp hr).1
  have hpage : journalPage rows cursor limit =
      fillPage rows 0 [] ((after StoredEvent.sequence (some cursor) rows).take limit) := by
    rw [journalPage, refuseIf_of_not _ (by omega), ok_bind, refuseIf_of_not _ (by omega), ok_bind]
  rw [hpage]
  generalize after StoredEvent.sequence (some cursor) rows = l at hmem ⊢
  cases l with
  | nil => exact ⟨[], [], by rw [List.take_nil]; rfl, rfl, Nat.zero_le _, fun _ => rfl⟩
  | cons r rest =>
    obtain ⟨n, rfl⟩ : ∃ n, limit = n + 1 := ⟨limit - 1, by omega⟩
    have hr := hmem r List.mem_cons_self
    have hsize : (toVec r.record.json).length ≤ maxJournalPageBytes := by
      have h₁ := size_storedRecord (htext r hr)
      have h₂ := (h.links hr).1
      rw [toVec_length]
      unfold maxEventBytes at h₂
      unfold maxJournalPageBytes
      omega
    have hrest : ∀ x ∈ rest.take n, journalRecord rows x = .ok x.record := fun x hx =>
      h.record (hmem x (List.mem_cons_of_mem r (List.mem_of_mem_take hx)))
        (htext x (hmem x (List.mem_cons_of_mem r (List.mem_of_mem_take hx))))
    obtain ⟨page, tail, htake, hfill⟩ := fillPage_ok hrest (toVec r.record.json).length [r.record]
    have hlength := congrArg List.length htake
    rw [List.length_append] at hlength
    have hle : (rest.take n).length ≤ n := List.length_take_le _ _
    refine ⟨r :: page, tail ++ rest.drop n, ?_, ?_, ?_, fun he => nomatch he⟩
    · rw [List.take_succ_cons, fillPage_first (h.record hr (htext r hr)) hsize, hfill]
      rfl
    · rw [List.cons_append, ← List.append_assoc, ← htake, List.take_append_drop]
    · rw [List.length_cons]
      omega

/-- what is handed out of a table of events -/
def records (rows : List StoredEvent) : List JournalRecord := rows.map StoredEvent.record

theorem after_records (rows : List StoredEvent) (cursor : Nat) :
    after JournalRecord.sequence (some cursor) (records rows) =
      records (after StoredEvent.sequence (some cursor) rows) := by
  rw [after, records, List.filter_map]
  rfl

theorem Committed.sorted_records (h : Committed draws db w rows) :
    Sorted JournalRecord.sequence (records rows) :=
  List.pairwise_map.mpr h.sorted

theorem journalPage_records (h : Committed draws db w rows) (htext : ∀ r ∈ rows, r.IsText) {limit : Nat}
    (hlimit : 0 < limit ∧ limit ≤ 256) (hcursor : cursor < 2 ^ 63) :
    ∃ page tail, journalPage rows cursor limit = .ok page ∧
      after JournalRecord.sequence (some cursor) (records rows) = page ++ tail ∧
        page.length ≤ limit ∧
      (page = [] → tail = []) := by
  obtain ⟨page, tail, hpage, hrest, hlength, hempty⟩ := journalPage_ok h htext hlimit hcursor
  refine ⟨records page, records tail, hpage, ?_, ?_, fun he => ?_⟩
  · rw [after_records, hrest, records, List.map_append]
    rfl
  · rw [records, List.length_map]
    exact hlength
  · rw [hempty (List.map_eq_nil_iff.mp he)]
    rfl

end

end Orvek
