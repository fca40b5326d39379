import Orvek.Memory.Records

/-!
# The local store of memories

A table of memories, and the next identifier.  Every operation opens the store, and then runs in one
transaction that begins by dropping the memories whose probation has passed.

* `MemoryRow`, `MemoryDb`      the table, with the identity of each memory as a column of its own;
* `insert`, `replace`          a new memory, and another text for one under its key;
* `put`, `delete`              the same as whole operations;
* `scan`, `read`, `list`       they count what they return;
* `importRecords`              memories of other stores: known ones are merged;
* `syncSnapshot`               the memories of another store take the place of all.
-/

set_option linter.unusedSectionVars false

namespace Orvek
open Checks Json

/-- a row of `memories`; identifiers and times are `i64` -/
structure MemoryRow where
  id : Int
  content : String
  normalizedIdentity : String
  createdAtMs : Int
  updatedAtMs : Int
  lastScannedAtMs : Option Int
  scanCount : Nat
  lastUsedAtMs : Option Int
  useCount : Nat
  probationUntilMs : Option Int
  version : Nat
  metadata : MemoryMetadata
  deriving DecidableEq, Repr

structure MemoryDb where
  rows : List MemoryRow
  nextId : Int
  deriving DecidableEq, Repr

def MemoryDb.empty : MemoryDb := ⟨[], 1⟩

/-- `MemoryRecord::from` -/
def MemoryRow.record (r : MemoryRow) : MemoryRecord :=
  ⟨r.metadata, ⟨r.id, r.version, none⟩, r.content, r.createdAtMs, r.updatedAtMs, r.lastScannedAtMs,
    r.scanCount, r.lastUsedAtMs, r.useCount, r.probationUntilMs⟩

/-- what an operation finds outside the store: the random bytes of each owner that it draws, and the
end of its transaction -/
structure MemoryEnv where
  draws : Nat → BitVec 128
  commit : Except MemoryError Unit

namespace Memory

def i64Max : Int := 2 ^ 63 - 1

/-- `i64::saturating_add` -/
def satAdd (a b : Int) : Int := max (-(2 ^ 63)) (min i64Max (a + b))

/-- `i64::checked_add(1)`, or the store is full -/
def next (n : Int) : Except MemoryError Int :=
  if n + 1 ≤ i64Max then .ok (n + 1) else .error .storageCapacity

/-! ## rows -/

def maxId (db : MemoryDb) : Int := (db.rows.map MemoryRow.id).foldl max 0

/-- the allocator is behind no row -/
def openStore (db : MemoryDb) : Except MemoryError MemoryDb := do
  let nextId ← next (maxId db)
  .ok { db with nextId := max db.nextId nextId }

def expired (now : Int) (r : MemoryRow) : Bool :=
  r.probationUntilMs.any (· ≤ now) && r.useCount = 0

def pruneExpired (now : Int) (db : MemoryDb) : MemoryDb :=
  { db with rows := db.rows.filter fun r => !expired now r }

def totalBytes (rows : List MemoryRow) : Nat := (rows.map fun r => strLen r.content).sum

def identityExists (identity : String) (excluded : Option Int) (db : MemoryDb) : Bool :=
  db.rows.any fun r => r.normalizedIdentity = identity && some r.id ≠ excluded

def find (id : Int) (db : MemoryDb) : Option MemoryRow := db.rows.find? fun r => r.id = id

/-- `UPDATE memories … WHERE id` -/
def modify (id : Int) (f : MemoryRow → MemoryRow) (db : MemoryDb) : MemoryDb :=
  { db with rows := db.rows.map fun r => if r.id = id then f r else r }

def saveMetadata (id : Int) (metadata : MemoryMetadata) (db : MemoryDb) : MemoryDb :=
  modify id (fun r => { r with metadata := metadata }) db

/-- a version is stored as a positive `i64` -/
def checkVersion (version : Nat) : Except MemoryError Unit :=
  refuseIf (version = 0 ∨ 2 ^ 63 ≤ version) MemoryError.backend

/-- `INSERT INTO memories`: neither the identifier nor the identity is taken -/
def insertRow (row : MemoryRow) (db : MemoryDb) : Except MemoryError MemoryDb := do
  refuseIf ((find row.id db).isSome = true ∨ identityExists row.normalizedIdentity none db = true)
    MemoryError.backend
  checkVersion row.version
  .ok { db with rows := db.rows ++ [row] }

/-- the trigger `memory_id_allocator` after an insertion -/
def allocatorTrigger (id : Int) (db : MemoryDb) : Except MemoryError MemoryDb := do
  refuseIf (id < db.nextId) MemoryError.backend
  .ok { db with nextId := if db.nextId ≤ id then id + 1 else db.nextId }

def allocateId (db : MemoryDb) : Except MemoryError Int := do
  let following ← next (maxId db)
  let id := max db.nextId following
  let _ ← next id
  .ok id

def observeId (id : Int) (db : MemoryDb) : Except MemoryError MemoryDb := do
  let nextId ← next id
  .ok { db with nextId := max db.nextId nextId }

/-- `lower(hex(randomblob(16)))` -/
def ownership (bytes : BitVec 128) : String := String.ofList (hexText 32 bytes.toNat)

section
variable [Sha256] [MemoryText] (limits : MemoryLimits)

def validateLoaded (r : MemoryRow) : Except MemoryError MemoryRow := do
  r.record.validate .local limits
  .ok r

def loadAll (db : MemoryDb) : Except MemoryError (List MemoryRow) :=
  (db.rows.mergeSort fun a b => a.id ≤ b.id).mapM (validateLoaded limits)

def loadOne (id : Int) (db : MemoryDb) : Except MemoryError (Option MemoryRow) :=
  match find id db with
  | none => .ok none
  | some r => (validateLoaded limits r).map some

/-- `load_one` of a row that has to be there -/
def reload (id : Int) (db : MemoryDb) : Except MemoryError MemoryRow := do
  match ← loadOne limits id db with
  | none => .error .notFound
  | some r => .ok r

def operate {α : Type} (env : MemoryEnv) (db : MemoryDb)
    (body : MemoryDb → Except MemoryError (α × MemoryDb)) : Except MemoryError α × MemoryDb :=
  match openStore db with
  | .error e => (.error e, db)
  | .ok db => transaction env.commit body db

/-! ## putting and deleting -/

def validateContent (content : String) : Except MemoryError Unit := do
  refuseIf (blank content = true) MemoryError.emptyContent
  refuseIf (limits.contentBytes < strLen content) (MemoryError.contentTooLarge limits.contentBytes)

def validateAuthoredContent (content : String) (metadata : MemoryMetadata) :
    Except MemoryError Unit := do
  validateContent limits content
  metadata.validate
  metadata.rejectLikelySecret
  refuseIf (MemoryText.containsLikelySecret content = true) MemoryError.secretRejected

def checkContentCapacity (current replaced new : Nat) : Except MemoryError Unit :=
  refuseIf (limits.totalContentBytes < current - replaced + new)
    (MemoryError.contentCapacity limits.totalContentBytes)

def insert (content identity : String) (now : Int) (db : MemoryDb) :
    Except MemoryError (MemoryRow × MemoryDb) := do
  refuseIf (identityExists identity none db = true) MemoryError.duplicate
  refuseIf (limits.records ≤ db.rows.length) (MemoryError.recordCapacity limits.records)
  checkContentCapacity limits (totalBytes db.rows) 0 (strLen content)
  let id ← allocateId db
  let row : MemoryRow := {
    id := id
    content := content
    normalizedIdentity := identity
    createdAtMs := now
    updatedAtMs := now
    lastScannedAtMs := none
    scanCount := 0
    lastUsedAtMs := none
    useCount := 0
    probationUntilMs := some (satAdd now limits.probationDurationMs)
    version := 1
    metadata := MemoryMetadata.default }
  let db ← insertRow row db
  let db ← allocatorTrigger id db
  let row ← reload limits id db
  .ok (row, db)

def replace (content identity : String) (key : MemoryKey) (now : Int) (db : MemoryDb) :
    Except MemoryError (MemoryRow × MemoryDb) := do
  match find key.id db with
  | none => .error .notFound
  | some current => do
    refuseIf (current.version ≠ key.version) MemoryError.conflict
    refuseIf (identityExists identity (some key.id) db = true) MemoryError.duplicate
    checkContentCapacity limits (totalBytes db.rows) (strLen current.content) (strLen content)
    refuseIf (2 ^ 63 ≤ current.version + 1) MemoryError.conflict
    let db := modify key.id (fun r => { r with
      content := content
      normalizedIdentity := identity
      updatedAtMs := now
      lastScannedAtMs := none
      scanCount := 0
      lastUsedAtMs := none
      useCount := 0
      probationUntilMs := some (satAdd now limits.probationDurationMs)
      version := current.version + 1 }) db
    let row ← reload limits key.id db
    .ok (row, db)

def ownerFor (env : MemoryEnv) (db : MemoryDb) : Option MemoryKey → Except MemoryError String
  | none => .ok (ownership (env.draws 0))
  | some key => do
    let row ← loadOne limits key.id db
    .ok ((row.bind fun r => r.metadata.ownershipId).getD (ownership (env.draws 0)))

/-- the memory of a put: `replacement` is a key of this store -/
def putBody (env : MemoryEnv) (content : String) (metadata : MemoryMetadata)
    (replacement : Option MemoryKey) (now : Int) (db : MemoryDb) :
    Except MemoryError (MemoryRecord × MemoryDb) := do
  let db := pruneExpired now db
  let owner ← ownerFor limits env db replacement
  let metadata := { metadata with ownershipId := some owner }
  metadata.validate
  let identity := metadata.identity content
  let (row, db) ← match replacement with
    | some key => replace limits content identity key now db
    | none => insert limits content identity now db
  let db := saveMetadata row.id metadata db
  let row ← reload limits row.id db
  .ok (row.record, db)

def putMetadataLocal (env : MemoryEnv) (content : String) (metadata : MemoryMetadata)
    (replacement : Option MemoryKey) (now : Int) (db : MemoryDb) :
    Except MemoryError MemoryRecord × MemoryDb :=
  match validateAuthoredContent limits content metadata with
  | .error e => (.error e, db)
  | .ok _ => operate env db (putBody limits env content metadata replacement now)

/-- `put_with_metadata`: only local memories are written -/
def put (env : MemoryEnv) (content : String) (metadata : MemoryMetadata)
    (replacement : Option MemoryKey) (now : Int) (db : MemoryDb) :
    Except MemoryError MemoryRecord × MemoryDb :=
  if replacement.any (fun key => key.nameSpace.isSome) then (.error .remoteReadOnly, db)
  else putMetadataLocal limits env content metadata replacement now db

def deleteBody (key : MemoryKey) (db : MemoryDb) : Except MemoryError (Unit × MemoryDb) :=
  match find key.id db with
  | none => .ok ((), db)
  | some current => do
    refuseIf (current.version ≠ key.version) MemoryError.conflict
    .ok ((), { db with rows := db.rows.filter fun r => r.id ≠ key.id })

def delete (env : MemoryEnv) (key : MemoryKey) (db : MemoryDb) : Except MemoryError Unit × MemoryDb :=
  if key.nameSpace.isSome then (.error .remoteReadOnly, db) else operate env db (deleteBody key)

/-! ## looking -/

/-- a memory that may be shown -/
def visible (repository : Option (Option String)) (r : MemoryRow) : Bool :=
  r.metadata.rejectLikelySecret = .ok () && !MemoryText.containsLikelySecret r.content &&
    repository.all fun repository => r.metadata.visibleIn repository

/-- `MAX(now, updated, COALESCE(last, now))` -/
def scanned (now : Int) (r : MemoryRow) : MemoryRow :=
  { r with
    lastScannedAtMs := some (max now (max r.updatedAtMs (r.lastScannedAtMs.getD now)))
    scanCount := r.scanCount + 1 }

/-- the statement changes one row, whose count has room -/
def countScan (now : Int) (db : MemoryDb) (key : MemoryKey) : Except MemoryError MemoryDb :=
  match find key.id db with
  | none => .error .invalidMetadata
  | some r => do
    refuseIf (2 ^ 63 - 1 ≤ r.scanCount) MemoryError.invalidMetadata
    .ok (modify key.id (scanned now) db)

def scan (env : MemoryEnv) (query : String) (limit : Nat) (now : Int)
    (repository : Option (Option String)) (db : MemoryDb) :
    Except MemoryError (List MemoryKey) × MemoryDb :=
  if limits.queryBytes < strLen query then (.error (.queryTooLarge limits.queryBytes), db)
  else operate env db fun db => do
    let db := pruneExpired now db
    let rows ← loadAll limits db
    let memories := (rows.filter (visible repository)).map MemoryRow.record
    let candidates := MemoryText.rank query memories (min limit limits.scanResults)
    let db ← candidates.foldlM (countScan now) db
    .ok (candidates, db)

def used (now : Int) (r : MemoryRow) : MemoryRow :=
  { r with
    lastUsedAtMs := some (max (max now r.updatedAtMs) (r.lastUsedAtMs.getD (-(2 ^ 63))))
    useCount := r.useCount + 1
    probationUntilMs := none }

/-- one reference of a read, by its identifier and perhaps its version; a memory that is missing,
stale, hidden or read before is left out -/
def readOne (now : Int) (repository : Option (Option String))
    (acc : List Int × List MemoryRecord × MemoryDb) (reference : Int × Option Nat) :
    Except MemoryError (List Int × List MemoryRecord × MemoryDb) := do
  let (seen, records, db) := acc
  match ← loadOne limits reference.1 db with
  | none => .ok (seen, records, db)
  | some r =>
    if !visible repository r || reference.2.any (· ≠ r.version) || reference.1 ∈ seen then
      .ok (seen, records, db)
    else do
      refuseIf (2 ^ 63 - 1 ≤ r.useCount) MemoryError.invalidMetadata
      .ok (reference.1 :: seen, records ++ [(used now r).record], modify reference.1 (used now) db)

def read (env : MemoryEnv) (references : List (Int × Option Nat)) (now : Int)
    (repository : Option (Option String)) (db : MemoryDb) :
    Except MemoryError (List MemoryRecord) × MemoryDb :=
  operate env db fun db => do
    let (_, records, db) ← references.foldlM (readOne limits now repository)
      ([], [], pruneExpired now db)
    .ok (records, db)

def list (env : MemoryEnv) (now : Int) (db : MemoryDb) :
    Except MemoryError (List MemoryRecord) × MemoryDb :=
  operate env db fun db => do
    let db := pruneExpired now db
    let rows ← loadAll limits db
    .ok ((rows.filter (visible none)).map MemoryRow.record, db)

/-! ## importing -/

/-- `Vec::push` of what is not there yet -/
def pushNew {α : Type} [DecidableEq α] (l : List α) (a : α) : List α := if a ∈ l then l else l ++ [a]

/-- old archives name no owner: it is then made of the key, the payload and the time of creation -/
def sourceOwnership (memory : MemoryRecord) : String :=
  memory.metadata.ownershipId.getD (String.ofList ((Digest.of (toVec (.array [memory.key.json,
    .string memory.content, memory.metadata.json,
    .number (toString memory.createdAtMs)]))).display.toList.take 32))

/-- what the memory is called wherever it is brought to -/
def incomingIdentity (memory : MemoryRecord) : String :=
  MemoryMetadata.transferIdentity { memory.metadata with ownershipId := some (sourceOwnership memory) }
    memory.content memory.key.nameSpace

def arriving (memory : MemoryRecord) : MemoryMetadata :=
  { memory.metadata with
    ownershipId := some (sourceOwnership memory)
    importedFrom := pushNew memory.metadata.importedFrom memory.key
    transferredFrom := pushNew memory.metadata.transferredFrom ⟨sourceOwnership memory, memory.key⟩ }

def mergeProvenance (current metadata : MemoryMetadata) : MemoryMetadata :=
  { current with
    importedFrom := metadata.importedFrom.foldl pushNew current.importedFrom
    transferredFrom := metadata.transferredFrom.foldl pushNew current.transferredFrom }

structure ImportReport where
  inserted : Nat
  skipped : Nat
  deriving DecidableEq, Repr

/-- the memories as they were loaded, kept in step with the table -/
structure ImportState where
  existing : List MemoryRecord
  report : ImportReport
  db : MemoryDb

/-- a known memory: provenance changes its version, its content stays -/
def mergeOne (current : MemoryRecord) (metadata : MemoryMetadata) (st : ImportState) :
    Except MemoryError ImportState := do
  let merged := mergeProvenance current.metadata metadata
  merged.validate
  let report := { st.report with skipped := st.report.skipped + 1 }
  if merged = current.metadata then .ok { st with report := report }
  else do
    let version := current.key.version + 1
    let identity := merged.identity current.content
    refuseIf (2 ^ 64 ≤ version) MemoryError.conflict
    checkVersion version
    refuseIf (identityExists identity (some current.key.id) st.db = true) MemoryError.backend
    let db := modify current.key.id
      (fun r => { r with version := version, normalizedIdentity := identity }) st.db
    let db := saveMetadata current.key.id merged db
    .ok {
      existing := st.existing.replace current
        { current with metadata := merged, key := { current.key with version := version } }
      report := report
      db := db }

/-- an unknown memory: its owner is new, its version and times survive -/
def admitOne (env : MemoryEnv) (memory : MemoryRecord) (metadata : MemoryMetadata) (now : Int)
    (st : ImportState) : Except MemoryError ImportState := do
  let metadata := { metadata with ownershipId := some (ownership (env.draws st.report.inserted)) }
  metadata.validate
  let (row, db) ← insert limits memory.content (metadata.identity memory.content) now st.db
  checkVersion memory.key.version
  let db := modify row.id (fun r => { r with
    version := memory.key.version
    createdAtMs := memory.createdAtMs
    updatedAtMs := memory.updatedAtMs
    lastScannedAtMs := memory.lastScannedAtMs
    scanCount := memory.scanCount
    lastUsedAtMs := memory.lastUsedAtMs
    useCount := memory.useCount
    probationUntilMs := memory.probationUntilMs }) db
  let db := saveMetadata row.id metadata db
  let row ← reload limits row.id db
  .ok {
    existing := st.existing ++ [row.record]
    report := { st.report with inserted := st.report.inserted + 1 }
    db := db }

def importOne (env : MemoryEnv) (now : Int) (st : ImportState) (memory : MemoryRecord) :
    Except MemoryError ImportState :=
  match st.existing.find? fun r =>
      r.metadata.transferIdentity r.content none = incomingIdentity memory with
  | some current => mergeOne current (arriving memory) st
  | none => admitOne limits env memory (arriving memory) now st

def checkImported (memory : MemoryRecord) : Except MemoryError Unit := do
  memory.validate .portable limits
  validateAuthoredContent limits memory.content memory.metadata

def importBody (env : MemoryEnv) (memories : List MemoryRecord) (now : Int) (db : MemoryDb) :
    Except MemoryError (ImportReport × MemoryDb) := do
  let db := pruneExpired now db
  let rows ← loadAll limits db
  let st ← memories.foldlM (importOne limits env now) ⟨rows.map MemoryRow.record, ⟨0, 0⟩, db⟩
  .ok (st.report, st.db)

def importRecords (env : MemoryEnv) (memories : List MemoryRecord) (now : Int) (db : MemoryDb) :
    Except MemoryError ImportReport × MemoryDb :=
  match checkAll (checkImported limits) memories with
  | .error e => (.error e, db)
  | .ok _ => operate env db (importBody limits env memories now)

def mergeRemoteExport (env : MemoryEnv) (memories : List MemoryRecord) (now : Int) (db : MemoryDb) :
    Except MemoryError ImportReport × MemoryDb :=
  if memories = [] then (.ok ⟨0, 0⟩, db)
  else match checkAll (fun memory => memory.validate .anyRemote limits) memories with
    | .error e => (.error e, db)
    | .ok _ => importRecords limits env memories now db

/-! ## taking over a snapshot -/

structure SyncReport where
  inserted : Nat
  replaced : Nat
  unchanged : Nat
  deleted : Nat
  deriving DecidableEq, Repr

/-- one memory of a snapshot, after the identifiers, the identities and the bytes before it -/
def validateAuthored (acc : List Int × List String × Nat) (memory : MemoryRecord) :
    Except MemoryError (List Int × List String × Nat) := do
  memory.validate .local limits
  refuseIf (memory.key.id ∈ acc.1) MemoryError.invalidMetadata
  refuseIf (memory.metadata.identity memory.content ∈ acc.2.1) MemoryError.duplicate
  memory.metadata.rejectLikelySecret
  refuseIf (MemoryText.containsLikelySecret memory.content = true) MemoryError.secretRejected
  .ok (memory.key.id :: acc.1, memory.metadata.identity memory.content :: acc.2.1,
    acc.2.2 + strLen memory.content)

def validateAuthoredSnapshot (memories : List MemoryRecord) : Except MemoryError Unit := do
  refuseIf (limits.records < memories.length) (MemoryError.recordCapacity limits.records)
  let acc ← memories.foldlM (validateAuthored limits) ([], [], 0)
  refuseIf (limits.totalContentBytes < acc.2.2) (MemoryError.contentCapacity limits.totalContentBytes)

/-- the row of a memory of the snapshot, before its metadata is saved -/
def syncRow (memory : MemoryRecord) : MemoryRow := {
  id := memory.key.id
  content := memory.content
  normalizedIdentity := memory.metadata.identity memory.content
  createdAtMs := memory.createdAtMs
  updatedAtMs := memory.updatedAtMs
  lastScannedAtMs := memory.lastScannedAtMs
  scanCount := memory.scanCount
  lastUsedAtMs := memory.lastUsedAtMs
  useCount := memory.useCount
  probationUntilMs := memory.probationUntilMs
  version := memory.key.version
  metadata := MemoryMetadata.default }

def owned (owner : String) (metadata : MemoryMetadata) : MemoryMetadata :=
  if metadata.ownershipId = none then { metadata with ownershipId := some owner } else metadata

/-- the identity of the row is that of the memory as it came, the owner is added afterwards -/
def syncOne (env : MemoryEnv) (previous : List MemoryRecord) (acc : SyncReport × MemoryDb)
    (memory : MemoryRecord) : Except MemoryError (SyncReport × MemoryDb) := do
  let (report, db) := acc
  let db ← observeId memory.key.id db
  let counted := match previous.find? fun r => r.key.id = memory.key.id with
    | some old =>
      if old = memory then { report with unchanged := report.unchanged + 1 }
      else { report with replaced := report.replaced + 1 }
    | none => { report with inserted := report.inserted + 1 }
  let db ← insertRow (syncRow memory) db
  let owner := ownership (env.draws (report.inserted + report.replaced + report.unchanged))
  .ok (counted, saveMetadata memory.key.id (owned owner memory.metadata) db)

/-- the trigger of the allocator is dropped while the rows are put in -/
def syncBody (env : MemoryEnv) (memories : List MemoryRecord) (now : Int) (db : MemoryDb) :
    Except MemoryError (SyncReport × MemoryDb) := do
  let db := pruneExpired now db
  let existing ← loadAll limits db
  let deleted := (existing.filter fun r => r.id ∉ memories.map fun m => m.key.id).length
  memories.foldlM (syncOne env (existing.map MemoryRow.record))
    (⟨0, 0, 0, deleted⟩, { db with rows := [] })

def syncSnapshot (env : MemoryEnv) (memories : List MemoryRecord) (now : Int) (db : MemoryDb) :
    Except MemoryError SyncReport × MemoryDb :=
  match validateAuthoredSnapshot limits memories with
  | .error e => (.error e, db)
  | .ok _ => operate env db (syncBody limits env memories now)

end

end Memory

end Orvek
