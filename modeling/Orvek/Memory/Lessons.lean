import Orvek.Memory.Export
import Orvek.Memory.Transfers
import Orvek.Memory.Versions

/-!
# Lessons

A run proposes lessons, and when it ends they get its outcome.  Both are loops over operations of the
store, so other runs may come in between.

* `lessonPage`                 the lessons after an identifier, at most a page of them;
* `Proposing`, `Finalizing`    where the two loops stand between two operations;
* `Lessons`, `Lessons.move`    a store with any number of them, and one operation of one of them;
* `list_ok`, `put_replaced`    what an operation that succeeded has done to the rows;
* `put_refused`                what it means that a key is stale.
-/

set_option linter.unusedSectionVars false

namespace Orvek
open Checks

inductive LessonQuery where
  | matching (scope : MemoryScope) (contentIdentity : String)
  | pending (trace : TraceReference)
  deriving DecidableEq, Repr

inductive LessonError where
  | invalidPagination
  | store (error : MemoryError)
  deriving DecidableEq, Repr

def MemoryKind.isLesson : MemoryKind → Bool
  | .lessonProposal _ _ => true
  | _ => false

/-- the error of a commit that fails: `sqlite_error` and `sqlite_write_error` -/
inductive StoreFault where
  | backend | unavailable | diskFull
  deriving DecidableEq, Repr

def StoreFault.error : StoreFault → MemoryError
  | .backend => .backend
  | .unavailable => .unavailable
  | .diskFull => .storageCapacity

namespace Memory

section
variable [Sha256] [MemoryText] (limits : MemoryLimits)

def LessonQuery.matches (query : LessonQuery) (r : MemoryRecord) : Bool :=
  r.metadata.kind.isLesson && match query with
    | .matching scope contentIdentity =>
      r.metadata.scope = scope && normalizeIdentity r.content = contentIdentity
    | .pending trace => r.metadata.pendingRun = some trace && r.metadata.kind.isPending

def lessonPage (env : MemoryEnv) (query : LessonQuery) (after now : Int) (db : MemoryDb) :
    Except MemoryError (List MemoryRecord) × MemoryDb :=
  match list limits env now db with
  | (.error e, db) => (.error e, db)
  | (.ok records, db) =>
    (.ok ((records.filter fun r => after < r.key.id && LessonQuery.matches query r).take
      maxExportPageRecords), db)

def validateRecord (query : LessonQuery) (after : Int) (r : MemoryRecord) :
    Except LessonError Int := do
  refuseIf (r.key.id ≤ after ∨ LessonQuery.matches query r = false) LessonError.invalidPagination
  .ok r.key.id

def validatePage (query : LessonQuery) (after : Int) (records : List MemoryRecord) :
    Except LessonError Unit := do
  refuseIf (maxExportPageRecords < records.length) LessonError.invalidPagination
  let _ ← records.foldlM (validateRecord query) after
  .ok ()

/-! ## proposing -/

/-- current evidence replaces what the record cites, which becomes its history -/
def nominated (record metadata : MemoryMetadata) : MemoryMetadata :=
  { metadata with
    historicalEvidence := (record.evidence ++ record.kind.behaviorTest).foldl pushNew
      record.historicalEvidence
    producingTraces := record.producingTraces.foldl pushNew metadata.producingTraces
    importedFrom := record.importedFrom
    transferredFrom := record.transferredFrom
    ownershipId := record.ownershipId }

/-- `propose_lesson` before its page, between the page and the put, and at its end -/
inductive Proposing where
  | ready
  | found (metadata : MemoryMetadata) (key : Option MemoryKey)
  | done (result : Except LessonError MemoryRecord)

def proposeLesson (env : MemoryEnv) (now : Int) (content : String) (metadata : MemoryMetadata)
    (db : MemoryDb) : Proposing → Proposing × MemoryDb
  | .ready =>
    if metadata.kind.isPending = false ∨ metadata.producingTraces.length ≠ 1 then
      (.done (.error (.store .invalidMetadata)), db)
    else
      let metadata := { metadata with pendingRun := metadata.producingTraces.head? }
      let query := LessonQuery.matching metadata.scope (normalizeIdentity content)
      match lessonPage limits env query 0 now db with
      | (.error e, db) => (.done (.error (.store e)), db)
      | (.ok records, db) =>
        match validatePage query 0 records with
        | .error e => (.done (.error e), db)
        | .ok _ =>
          match records.head? with
          | some record => (.found (nominated record.metadata metadata) (some record.key), db)
          | none => (.found metadata none, db)
  | .found metadata key =>
    match put limits env content metadata key now db with
    | (.ok record, db) => (.done (.ok record), db)
    | (.error e, db) => (.done (.error (.store e)), db)
  | .done result => (.done result, db)

/-! ## finalising -/

def finalized (m : MemoryMetadata) : MemoryMetadata :=
  match m.kind with
  | .lessonProposal test _ => { m with kind := .lessonProposal test .proposed, pendingRun := none }
  | _ => m

/-- `finalize_lessons` before a page, before one of the records of the page, and at its end -/
inductive Finalizing where
  | page (after : Int) (count : Nat)
  | settling (record : MemoryRecord) (rest : List MemoryRecord) (count : Nat)
  | done (result : Except LessonError Nat)

def Finalizing.next (after : Int) (rest : List MemoryRecord) (count : Nat) : Finalizing :=
  match rest with
  | [] => .page after count
  | record :: rest => .settling record rest count

/-- the outcome of one record, under the exact version that was observed -/
def finalizeRecord (env : MemoryEnv) (now : Int) (record : MemoryRecord) (db : MemoryDb) :
    Except MemoryError MemoryRecord × MemoryDb :=
  put limits env record.content (finalized record.metadata) (some record.key) now db

def finalizeLessons (env : MemoryEnv) (now : Int) (trace : TraceReference) (db : MemoryDb) :
    Finalizing → Finalizing × MemoryDb
  | .page after count =>
    match lessonPage limits env (.pending trace) after now db with
    | (.error e, db) => (.done (.error (.store e)), db)
    | (.ok records, db) =>
      match validatePage (.pending trace) after records with
      | .error e => (.done (.error e), db)
      | .ok _ =>
        match records with
        | [] => (.done (.ok count), db)
        | record :: rest => (.settling record rest count, db)
  | .settling record rest count =>
    -- `if let` on the kind: a page has nothing but lessons
    if record.metadata.kind.isLesson then
      match finalizeRecord limits env now record db with
      | (.ok _, db) => (.next record.key.id rest (count + 1), db)
      | (.error e, db) =>
        if e = .conflict ∨ e = .notFound then (.next record.key.id rest count, db)
        else (.done (.error (.store e)), db)
    else (.next record.key.id rest count, db)
  | .done result => (.done result, db)

/-! ## a store with its clients -/

inductive LessonRequest where
  | propose (content : String) (metadata : MemoryMetadata)
  | finalize (trace : TraceReference)

inductive LessonClient where
  | proposal (content : String) (metadata : MemoryMetadata) (at' : Proposing)
  | finalization (trace : TraceReference) (at' : Finalizing)

def LessonRequest.client : LessonRequest → LessonClient
  | .propose content metadata => .proposal content metadata .ready
  | .finalize trace => .finalization trace (.page 0 0)

structure Lessons where
  db : MemoryDb
  clients : List LessonClient

def Lessons.start (db : MemoryDb) (requests : List LessonRequest) : Lessons :=
  ⟨db, requests.map LessonRequest.client⟩

/-- a client makes its next operation; the commit may fail -/
structure Move where
  client : Nat
  draws : Nat → BitVec 128
  fault : Option StoreFault
  now : Int

def Move.env (m : Move) : MemoryEnv :=
  ⟨m.draws, match m.fault with
    | none => .ok ()
    | some fault => .error fault.error⟩

def LessonClient.step (m : Move) (db : MemoryDb) : LessonClient → LessonClient × MemoryDb
  | .proposal content metadata p =>
    let (p, db) := proposeLesson limits m.env m.now content metadata db p
    (.proposal content metadata p, db)
  | .finalization trace f =>
    let (f, db) := finalizeLessons limits m.env m.now trace db f
    (.finalization trace f, db)

def Lessons.move (s : Lessons) (m : Move) : Lessons :=
  match s.clients[m.client]? with
  | none => s
  | some c => ⟨(c.step limits m s.db).2, s.clients.set m.client (c.step limits m s.db).1⟩

def Lessons.run (s : Lessons) (moves : List Move) : Lessons := moves.foldl (Lessons.move limits) s

def LessonClient.outcome (m : Move) (db : MemoryDb) : LessonClient → Option MemoryKey
  | .finalization _ (.settling record _ _) =>
    if record.metadata.kind.isLesson then
      (finalizeRecord limits m.env m.now record db).1.toOption.map fun _ => record.key
    else none
  | _ => none

/-- the clients of a run and the versions that they gave their outcome, in order -/
def Lessons.outcomes (s : Lessons) : List Move → List (Nat × MemoryKey)
  | [] => []
  | m :: moves =>
    (((s.clients[m.client]?).bind (LessonClient.outcome limits m s.db)).map fun key =>
      (m.client, key)).toList ++ (s.move limits m).outcomes moves

end

/-! ## what an operation does to the rows -/

section
variable [Sha256] [MemoryText] {limits : MemoryLimits} {env : MemoryEnv} {now : Int}
  {db db' : MemoryDb} {r old new : MemoryRow}

/-- the rows that an operation begins with -/
def unexpired (now : Int) (db : MemoryDb) : List MemoryRow := db.rows.filter fun r => !expired now r

attribute [grind =] unexpired

theorem mem_unexpired : r ∈ unexpired now db ↔ r ∈ db.rows ∧ expired now r = false := by
  rw [unexpired, List.mem_filter, Bool.not_eq_true']

theorem openStore_next {opened : MemoryDb} (h : openStore db = .ok opened) :
    db.nextId ≤ opened.nextId ∧ ∀ r ∈ db.rows, r.id < opened.nextId := by
  obtain ⟨n, hn, h⟩ := bind_ok h
  cases h
  obtain ⟨rfl, -⟩ := next_ok hn
  refine ⟨le_max_left _ _, fun r hr => lt_of_lt_of_le ?_ (le_max_right _ _)⟩
  exact Int.lt_add_one_of_le (maxId_le hr)

theorem operate_follows {α : Type} {body : MemoryDb → Except MemoryError (α × MemoryDb)}
    (hbody : ∀ {opened a db'}, opened.rows = db.rows → (∀ r ∈ db.rows, r.id < opened.nextId) →
      body opened = .ok (a, db') → Follows opened db') : Follows db (operate env db body).2 := by
  unfold operate
  cases hopen : openStore db with
  | error e => exact Follows.refl db
  | ok opened =>
    obtain ⟨hle, hids⟩ := openStore_next hopen
    have hrows := (openStore_ok hopen).1
    have hopened : Follows db opened :=
      ⟨hle, fun b hb => .inr ⟨b, hrows ▸ hb, Continues.refl b⟩⟩
    rcases transaction_cases env.commit body opened with ⟨a, t, ht, heq⟩ | ⟨e, heq⟩
    · show Follows db (transaction env.commit body opened).2
      rw [heq]
      exact hopened.trans (hbody hrows hids ht)
    · show Follows db (transaction env.commit body opened).2
      rw [heq]
      exact hopened

theorem pruneExpired_follows (now : Int) (db : MemoryDb) : Follows db (pruneExpired now db) :=
  ⟨le_rfl, fun b hb => .inr ⟨b, (List.mem_filter.mp hb).1, Continues.refl b⟩⟩

/-- **A list that succeeded leaves the rows that have not expired, all of them valid, and returns
the visible ones in order.** -/
theorem list_ok {records : List MemoryRecord} (hids : (db.rows.map MemoryRow.id).Nodup)
    (h : list limits env now db = (.ok records, db')) :
    db'.rows = unexpired now db ∧ (∀ r ∈ db'.rows, r.id < db'.nextId) ∧
      (∀ r ∈ db'.rows, r.record.validate .local limits = .ok ()) ∧
      (records.Pairwise fun a b => a.key.id < b.key.id) ∧
      ∀ e, e ∈ records ↔ ∃ r ∈ db'.rows, visible none r = true ∧ r.record = e := by
  obtain ⟨opened, hopen, h⟩ := operate_ok h
  obtain ⟨rows, hload, h⟩ := bind_ok h
  cases h
  have hrows := (openStore_ok hopen).1
  obtain ⟨hle, hnext⟩ := openStore_next hopen
  obtain ⟨hloaded, hvalid⟩ := mapM_validateLoaded hload
  have hpruned : (pruneExpired now opened).rows = unexpired now db := by
    show opened.rows.filter _ = _
    rw [hrows, unexpired]
  have hmem : ∀ r, r ∈ rows ↔ r ∈ (pruneExpired now opened).rows := fun r => by
    rw [hloaded]
    exact (List.mergeSort_perm _ _).mem_iff
  refine ⟨hpruned, fun r hr => ?_, fun r hr => ?_, ?_, fun e => ?_⟩
  · rw [hpruned] at hr
    exact hnext r (mem_unexpired.mp hr).1
  · refine hvalid r ?_
    rw [← hloaded, hmem]
    exact hr
  · have hsorted : (rows.map MemoryRow.record).Pairwise fun a b => a.key.id < b.key.id := by
      rw [hloaded]
      have hids' : ((pruneExpired now opened).rows.map MemoryRow.id).Nodup := by
        rw [hpruned]
        exact hids.sublist (List.filter_sublist.map _)
      exact loaded_sorted hids'
    exact hsorted.sublist (List.filter_sublist.map _)
  · rw [List.mem_map]
    constructor
    · rintro ⟨r, hr, rfl⟩
      obtain ⟨hr, hvisible⟩ := List.mem_filter.mp hr
      exact ⟨r, (hmem r).mp hr, hvisible, rfl⟩
    · rintro ⟨r, hr, hvisible, rfl⟩
      exact ⟨r, List.mem_filter.mpr ⟨(hmem r).mpr hr, hvisible⟩, rfl⟩

theorem list_follows (env : MemoryEnv) (now : Int) (db : MemoryDb) :
    Follows db (list limits env now db).2 := by
  refine operate_follows fun {opened a t} hrows hids h => ?_
  obtain ⟨rows, -, h⟩ := bind_ok h
  cases h
  exact pruneExpired_follows now opened

theorem list_error {e : MemoryError} (h : list limits env now db = (.error e, db')) :
    db'.rows = db.rows := by
  have hdb : (list limits env now db).2 = db' := by rw [h]
  rcases operate_cases env db fun db => do
      let db := pruneExpired now db
      let rows ← loadAll limits db
      .ok ((rows.filter (visible none)).map MemoryRow.record, db) with ⟨records, hok⟩ | hrows
  · have hok : list limits env now db = (.ok records, (list limits env now db).2) := hok
    rw [hok] at h
    cases h
  · rw [← hdb]
    exact hrows

/-! ## putting under a key -/

section
variable {content : String} {metadata : MemoryMetadata} {key : MemoryKey} {m : MemoryRecord}
variable {e : MemoryError}

/-- the row that a put leaves under a key -/
structure Replaced (content : String) (metadata : MemoryMetadata) (old new : MemoryRow) : Prop where
  id : new.id = old.id
  version : new.version = old.version + 1
  content : new.content = content
  metadata : ∃ owner, (∀ o ∈ old.metadata.ownershipId, owner = o) ∧
    new.metadata = { metadata with ownershipId := some owner }

theorem put_ok {replacement : Option MemoryKey}
    (h : put limits env content metadata replacement now db = (.ok m, db')) :
    ∃ opened, openStore db = .ok opened ∧
      putBody limits env content metadata replacement now opened = .ok (m, db') := by
  unfold put at h
  split at h
  · cases h
  · unfold putMetadataLocal at h
    split at h
    · cases h
    · exact operate_ok h

theorem putBody_replaced (hids : (db.rows.map MemoryRow.id).Nodup)
    (h : putBody limits env content metadata (some key) now db = .ok (m, db')) :
    ∃ old ∈ unexpired now db, ∃ new, old.id = key.id ∧ old.version = key.version ∧
      Replaced content metadata old new ∧ db'.nextId = db.nextId ∧
      db'.rows = (unexpired now db).map fun r => if r.id = old.id then new else r := by
  have hpruned : ((pruneExpired now db).rows.map MemoryRow.id).Nodup :=
    hids.sublist (List.filter_sublist.map _)
  obtain ⟨owner, howner, h⟩ := bind_ok h
  obtain ⟨-, -, h⟩ := bind_ok h
  obtain ⟨⟨row, written⟩, hwrite, h⟩ := bind_ok h
  obtain ⟨reloaded, -, h⟩ := bind_ok h
  cases h
  obtain ⟨old, hmem, hid, hversion, hrow, hc, -, hv, -, -, f, rfl, hf, rfl⟩ := replace_ok hwrite
  obtain ⟨hsave, -⟩ := save_modify { metadata with ownershipId := some owner } hpruned hmem hf
  have hfind : find key.id (pruneExpired now db) = some old := by
    rw [← hid]
    exact find_of_mem hpruned hmem
  have howner' : ∀ o ∈ old.metadata.ownershipId, owner = o := by
    obtain ⟨loaded, hload, howner⟩ := bind_ok howner
    cases howner
    rw [loadOne_ok hload, hfind]
    intro o ho
    show ((some old).bind _).getD _ = o
    rw [Option.bind_some, Option.mem_def.mp ho, Option.getD_some]
  refine ⟨old, hmem, { f old with metadata := { metadata with ownershipId := some owner } }, hid,
    hversion, ⟨hf old, hv, hc, owner, howner', rfl⟩, rfl, ?_⟩
  rw [hrow, ← hid, hsave]
  rfl

theorem put_replaced (hids : (db.rows.map MemoryRow.id).Nodup)
    (h : put limits env content metadata (some key) now db = (.ok m, db')) :
    ∃ old ∈ unexpired now db, ∃ new, old.id = key.id ∧ old.version = key.version ∧
      Replaced content metadata old new ∧
      db'.rows = (unexpired now db).map fun r => if r.id = old.id then new else r := by
  obtain ⟨opened, hopen, h⟩ := put_ok h
  have hrows := (openStore_ok hopen).1
  have hpruned : unexpired now opened = unexpired now db := by rw [unexpired, hrows, unexpired]
  obtain ⟨old, hold, new, hid, hversion, hreplaced, -, hdb⟩ := putBody_replaced (hrows ▸ hids) h
  rw [hpruned] at hold hdb
  exact ⟨old, hold, new, hid, hversion, hreplaced, hdb⟩

theorem put_added (h : put limits env content metadata none now db = (.ok m, db')) :
    ∃ row, db'.rows = unexpired now db ++ [row] := by
  obtain ⟨opened, hopen, h⟩ := put_ok h
  have hrows := (openStore_ok hopen).1
  obtain ⟨owner, -, h⟩ := bind_ok h
  obtain ⟨-, -, h⟩ := bind_ok h
  obtain ⟨⟨row, written⟩, hwrite, h⟩ := bind_ok h
  obtain ⟨reloaded, -, h⟩ := bind_ok h
  cases h
  obtain ⟨-, hids, -, -, -, rfl⟩ := insert_ok hwrite
  rw [saveMetadata_append row _ _ hids]
  refine ⟨{ row with metadata := { metadata with ownershipId := some owner } }, ?_⟩
  show (opened.rows.filter _) ++ _ = _
  rw [hrows, unexpired]

theorem put_error {replacement : Option MemoryKey}
    (h : put limits env content metadata replacement now db = (.error e, db')) : db'.rows = db.rows := by
  unfold put at h
  split at h
  · cases h
    rfl
  · unfold putMetadataLocal at h
    split at h
    · cases h
      rfl
    · rcases operate_cases env db (putBody limits env content metadata replacement now) with
        ⟨a, hok⟩ | hrows
      · rw [hok] at h
        cases h
      · rw [h] at hrows
        exact hrows

theorem put_follows (hids : (db.rows.map MemoryRow.id).Nodup) (env : MemoryEnv) (content : String)
    (metadata : MemoryMetadata) (replacement : Option MemoryKey) (now : Int) :
    Follows db (put limits env content metadata replacement now db).2 := by
  unfold put
  split
  · exact Follows.refl db
  · unfold putMetadataLocal
    split
    · exact Follows.refl db
    · refine operate_follows fun {opened a t} hrows hnext h => ?_
      have hids' : (opened.rows.map MemoryRow.id).Nodup := hrows ▸ hids
      cases replacement with
      | some key =>
        obtain ⟨old, hold, new, -, -, hreplaced, hn, hdb⟩ := putBody_replaced hids' h
        refine ⟨hn.ge, fun b hb => .inr ?_⟩
        rw [hdb] at hb
        obtain ⟨r, hr, rfl⟩ := List.mem_map.mp hb
        have hmem := (mem_unexpired.mp hr).1
        by_cases hid : r.id = old.id
        · rw [if_pos hid]
          refine ⟨old, (mem_unexpired.mp hold).1, hreplaced.id.symm, .inl ?_⟩
          rw [hreplaced.version]
          exact Nat.lt_succ_self _
        · rw [if_neg hid]
          exact ⟨r, hmem, Continues.refl r⟩
      | none =>
        obtain ⟨owner, -, h⟩ := bind_ok h
        obtain ⟨-, -, h⟩ := bind_ok h
        obtain ⟨⟨row, written⟩, hwrite, h⟩ := bind_ok h
        obtain ⟨reloaded, -, h⟩ := bind_ok h
        cases h
        obtain ⟨⟨-, -, hle, -⟩, hfresh, -, -, -, rfl⟩ := insert_ok hwrite
        rw [saveMetadata_append row _ _ hfresh]
        refine ⟨hle.trans (Int.le_add_one le_rfl), fun b hb => ?_⟩
        rcases List.mem_append.mp hb with hb | hb
        · exact .inr ⟨b, (List.mem_filter.mp hb).1, Continues.refl b⟩
        · rw [List.mem_singleton.mp hb]
          exact .inl hle

/-! ## stale keys -/

/-- an error that a finalisation does not go over -/
def Firm {α : Type} (x : Except MemoryError α) : Prop :=
  ∀ e, x = .error e → e ≠ .conflict ∧ e ≠ .notFound

theorem Firm.ok {α : Type} (a : α) : Firm (.ok a : Except MemoryError α) := fun _ h => nomatch h

theorem Firm.bind {α β : Type} {x : Except MemoryError α} {f : α → Except MemoryError β}
    (hx : Firm x)
    (hf : ∀ a, x = .ok a → Firm (f a)) : Firm (x >>= f) := by
  cases x with
  | error e =>
    intro e' h
    cases h
    exact hx e rfl
  | ok a => exact hf a rfl

theorem Firm.refuseIf {c : Prop} [Decidable c] (he : ¬ c ∨ e ≠ .conflict ∧ e ≠ .notFound) :
    Firm (refuseIf c e) := by
  intro e' h
  unfold Checks.refuseIf at h
  split at h
  · cases h
    exact he.resolve_left (not_not.mpr (by assumption))
  · cases h

theorem Firm.checkAll {α : Type} {f : α → Except MemoryError Unit} (hf : ∀ a, Firm (f a))
    (l : List α) :
    Firm (checkAll f l) := by
  induction l with
  | nil => exact Firm.ok ()
  | cons a l ih => exact (hf a).bind fun _ _ => ih

theorem firm_validate (m : MemoryMetadata) : Firm m.validate := by
  refine (Firm.refuseIf (.inr ⟨by decide, by decide⟩)).bind fun _ _ => ?_
  refine (Firm.refuseIf (.inr ⟨by decide, by decide⟩)).bind fun _ _ => ?_
  refine Firm.checkAll (fun evidence => ?_) _
  cases evidence <;> exact Firm.refuseIf (.inr ⟨by decide, by decide⟩)

theorem firm_authored (limits : MemoryLimits) (content : String) (m : MemoryMetadata) :
    Firm (validateAuthoredContent limits content m) := by
  refine Firm.bind ?_ fun _ _ => (firm_validate m).bind fun _ _ => ?_
  · refine (Firm.refuseIf (.inr ⟨by decide, by decide⟩)).bind fun _ _ => ?_
    exact Firm.refuseIf (.inr ⟨fun h => (nomatch h), fun h => (nomatch h)⟩)
  · refine (Firm.refuseIf (.inr ⟨by decide, by decide⟩)).bind fun _ _ => ?_
    exact Firm.refuseIf (.inr ⟨by decide, by decide⟩)

theorem firm_loaded (limits : MemoryLimits) (r : MemoryRow) : Firm (validateLoaded limits r) :=
  (Firm.refuseIf (.inr ⟨by decide, by decide⟩)).bind fun _ _ => Firm.ok _

theorem firm_loadOne (limits : MemoryLimits) (id : Int) (db : MemoryDb) :
    Firm (loadOne limits id db) := by
  unfold loadOne
  cases find id db with
  | none => exact Firm.ok none
  | some r =>
    have hloaded := firm_loaded limits r
    intro e he
    cases hload : validateLoaded limits r with
    | error e' =>
      simp only [hload] at he
      cases he
      exact hloaded _ hload
    | ok s =>
      simp only [hload] at he
      cases he

theorem firm_reload {id : Int} (h : find id db = some r) : Firm (reload limits id db) := by
  refine (firm_loadOne limits id db).bind fun loaded hload => ?_
  rw [loadOne_ok hload, h]
  exact Firm.ok r

/-- the row is there, with a version after its own -/
structure Replaceable (now : Int) (key : MemoryKey) (r : MemoryRow) : Prop where
  id : r.id = key.id
  version : r.version = key.version
  unexpired : expired now r = false
  room : r.version + 1 < 2 ^ 63

theorem firm_putBody (hids : (db.rows.map MemoryRow.id).Nodup) (hr : r ∈ db.rows)
    (h : Replaceable now key r) : Firm (putBody limits env content metadata (some key) now db) := by
  have hpruned : ((pruneExpired now db).rows.map MemoryRow.id).Nodup :=
    hids.sublist (List.filter_sublist.map _)
  have hmem : r ∈ (pruneExpired now db).rows := mem_unexpired.mpr ⟨hr, h.unexpired⟩
  have hfind : find key.id (pruneExpired now db) = some r := by
    rw [← h.id]
    exact find_of_mem hpruned hmem
  refine Firm.bind ?_ fun owner _ => (firm_validate _).bind fun _ _ => ?_
  · exact (firm_loadOne limits key.id _).bind fun _ _ => Firm.ok _
  · refine Firm.bind ?_ fun written hwrite => ?_
    · unfold replace
      rw [hfind]
      refine (Firm.refuseIf (.inl (not_not.mpr h.version))).bind fun _ _ => ?_
      refine (Firm.refuseIf (.inr ⟨by decide, by decide⟩)).bind fun _ _ => ?_
      have hcapacity (a b c : Nat) : Firm (checkContentCapacity limits a b c) :=
        Firm.refuseIf (.inr ⟨fun h => (nomatch h), fun h => (nomatch h)⟩)
      refine (hcapacity _ _ _).bind fun _ _ => ?_
      refine (Firm.refuseIf (.inl (not_le.mpr h.room))).bind fun _ _ => ?_
      refine (firm_reload (r := ?_) ?_).bind fun _ _ => Firm.ok _
      pick_goal 2
      · rw [find_modify, hfind]
        · rfl
        · exact fun _ => rfl
    · obtain ⟨row, db'⟩ := written
      obtain ⟨old, hold, hid, -, hrow, -, -, -, -, -, f, rfl, hf, rfl⟩ := replace_ok hwrite
      obtain ⟨hsave, hfound⟩ := save_modify { metadata with ownershipId := some owner } hpruned
        hold hf
      refine (firm_reload (r := { f old with metadata :=
        { metadata with ownershipId := some owner } })
        ?_).bind fun _ _ => Firm.ok _
      show find (f old).id _ = _
      rw [hrow, ← hid, hsave]
      exact hfound

/-- **A put is refused as stale only when no row that can be replaced has the key.** -/
theorem put_refused (hids : (db.rows.map MemoryRow.id).Nodup) {move : Move} (hlocal : key.nameSpace = none)
    (h : (put limits move.env content metadata (some key) now db).1 = .error e)
    (he : e = .conflict ∨ e = .notFound) : ∀ r ∈ db.rows, ¬ Replaceable now key r := by
  intro r hr hthere
  have hfirm : Firm (put limits move.env content metadata (some key) now db).1 := by
    unfold put
    rw [if_neg (by rw [Option.any_some, hlocal]; decide)]
    unfold putMetadataLocal
    cases hauthored : validateAuthoredContent limits content metadata with
    | error e' =>
      intro e'' h'
      cases h'
      exact firm_authored limits content metadata _ hauthored
    | ok u =>
      show Firm (operate move.env db _).1
      unfold operate
      cases hopen : openStore db with
      | error e' =>
        intro e'' h'
        cases h'
        unfold openStore next at hopen
        split at hopen
        · cases hopen
        · cases hopen
          exact ⟨by decide, by decide⟩
      | ok opened =>
        have hrows := (openStore_ok hopen).1
        have hbody : Firm (putBody limits move.env content metadata (some key) now opened) :=
          firm_putBody (hrows ▸ hids) (hrows ▸ hr) hthere
        show Firm (transaction _ _ opened).1
        unfold transaction
        cases hput : putBody limits move.env content metadata (some key) now opened with
        | error e' =>
          intro e'' h'
          cases h'
          exact hbody _ hput
        | ok done =>
          obtain ⟨a, t⟩ := done
          unfold Move.env
          cases move.fault with
          | none => exact Firm.ok a
          | some fault =>
            intro e'' h'
            cases h'
            cases fault <;> exact ⟨by decide, by decide⟩
  exact he.elim (hfirm e h).1 (hfirm e h).2

end

end

end Memory

end Orvek
