import Orvek.Lib.Checks
import Orvek.Lib.Paths
import Orvek.Text

/-!
# Memories

A memory is a text with its provenance.  The store finds duplicates by an identity that is computed
from both.

* `MemoryMetadata.validate`       scope, evidence and history of a memory;
* `MemoryMetadata.identity`       what two memories must not share;
* `MemoryRecord.validate`         a memory as a whole;
* `validate_withOwnership`        metadata that is valid stays valid when it gets its owner.
-/

set_option linter.unusedSectionVars false

namespace Orvek
open Checks Json

/-! ## data -/

inductive MemoryScope where
  | legacyUnscoped
  | global
  | repository (identity : String)
  deriving DecidableEq, Repr

inductive ProposalState where
  | pending | proposed
  deriving DecidableEq, Repr

structure LineRange where
  start : Nat
  stop : Nat
  deriving DecidableEq, Repr

inductive SourceEvidence where
  | file (repository path : String) (range : Option LineRange) (checkedRevision contentDigest : String)
  | artifact (digest source : String)
  deriving DecidableEq, Repr

inductive MemoryKind where
  | unverified | preference | procedure | codeClaim
  | lessonProposal (behaviorTest : SourceEvidence) (state : ProposalState)
  deriving DecidableEq, Repr

inductive MemoryOrigin where
  | legacyUnknown | user | model
  deriving DecidableEq, Repr

structure TraceReference where
  session : String
  request : String
  task : String
  deriving DecidableEq, Repr

/-- `nameSpace` is the remote namespace that owns the memory, or none for a local one -/
structure MemoryKey where
  id : Int
  version : Nat
  nameSpace : Option String
  deriving DecidableEq, Repr

structure OwnershipReference where
  ownershipId : String
  key : MemoryKey
  deriving DecidableEq, Repr

structure MemoryMetadata where
  scope : MemoryScope
  kind : MemoryKind
  origin : MemoryOrigin
  evidence : List SourceEvidence
  producingTraces : List TraceReference
  /-- the owning keys before each import -/
  importedFrom : List MemoryKey
  /-- the identity of the owning record, which no allocation of numbers determines -/
  ownershipId : Option String
  transferredFrom : List OwnershipReference
  pendingRun : Option TraceReference
  historicalEvidence : List SourceEvidence
  deriving DecidableEq, Repr

def MemoryMetadata.default : MemoryMetadata :=
  ⟨.legacyUnscoped, .unverified, .legacyUnknown, [], [], [], none, [], none, []⟩

structure MemoryRecord where
  metadata : MemoryMetadata
  key : MemoryKey
  content : String
  createdAtMs : Int
  updatedAtMs : Int
  lastScannedAtMs : Option Int
  scanCount : Nat
  lastUsedAtMs : Option Int
  useCount : Nat
  probationUntilMs : Option Int
  deriving DecidableEq, Repr

inductive MemoryRecordScope where
  | local
  | remote (expected : String)
  | anyRemote
  | portable
  deriving DecidableEq, Repr

structure MemoryLimits where
  contentBytes : Nat
  records : Nat
  totalContentBytes : Nat
  scanResults : Nat
  queryBytes : Nat
  probationDurationMs : Int
  deriving DecidableEq, Repr

/-- `MemoryLimits::PRODUCTION`, without the size of the file -/
def MemoryLimits.production : MemoryLimits :=
  ⟨1024, 512, 256 * 1024, 5, 512, 7 * 24 * 60 * 60 * 1000⟩

inductive MemoryError where
  | invalidMetadata
  | emptyContent
  | contentTooLarge (maximumBytes : Nat)
  | queryTooLarge (maximumBytes : Nat)
  | recordCapacity (maximum : Nat)
  | contentCapacity (maximumBytes : Nat)
  | storageCapacity
  | secretRejected
  | duplicate
  | notFound
  | conflict
  | remoteReadOnly
  | backend
  | unavailable
  deriving DecidableEq, Repr

/-- what the store asks of a text: `str::to_lowercase`, `contains_likely_secret`, and the ranking of
a scan, of which only the keys of the candidates are used -/
class MemoryText where
  toLowercase : String → String
  containsLikelySecret : String → Bool
  rank : String → List MemoryRecord → Nat → List MemoryKey

/-! ## encoding -/

def MemoryScope.json : MemoryScope → Value
  | .legacyUnscoped => .object [("type", .string "legacy_unscoped")]
  | .global => .object [("type", .string "global")]
  | .repository identity => .object [("type", .string "repository"), ("identity", .string identity)]

def ProposalState.json : ProposalState → Value
  | .pending => .string "pending"
  | .proposed => .string "proposed"

def LineRange.json (r : LineRange) : Value := .object [("start", ofNat r.start), ("end", ofNat r.stop)]

def SourceEvidence.json : SourceEvidence → Value
  | .file repository path range checkedRevision contentDigest =>
    .object [("type", .string "file"), ("repository", .string repository), ("path", .string path),
      ("range", optional LineRange.json range), ("checked_revision", .string checkedRevision),
      ("content_digest", .string contentDigest)]
  | .artifact digest source =>
    .object [("type", .string "artifact"), ("digest", .string digest), ("source", .string source)]

def MemoryKind.json : MemoryKind → Value
  | .unverified => .object [("type", .string "unverified")]
  | .preference => .object [("type", .string "preference")]
  | .procedure => .object [("type", .string "procedure")]
  | .codeClaim => .object [("type", .string "code_claim")]
  | .lessonProposal behaviorTest state => .object [("type", .string "lesson_proposal"),
      ("behavior_test", behaviorTest.json), ("state", state.json)]

def MemoryOrigin.json : MemoryOrigin → Value
  | .legacyUnknown => .object [("type", .string "legacy_unknown")]
  | .user => .object [("type", .string "user")]
  | .model => .object [("type", .string "model")]

def TraceReference.json (t : TraceReference) : Value :=
  .object [("session", .string t.session), ("request", .string t.request), ("task", .string t.task)]

/-- a local key is written without a namespace -/
def MemoryKey.json (k : MemoryKey) : Value :=
  .object ([("id", .number (toString k.id)), ("version", ofNat k.version)] ++
    (k.nameSpace.map fun n => ("namespace", Value.string n)).toList)

def OwnershipReference.json (r : OwnershipReference) : Value :=
  .object [("ownership_id", .string r.ownershipId), ("key", r.key.json)]

def MemoryMetadata.json (m : MemoryMetadata) : Value :=
  .object [("scope", m.scope.json), ("kind", m.kind.json), ("origin", m.origin.json),
    ("evidence", .array (m.evidence.map SourceEvidence.json)),
    ("producing_traces", .array (m.producingTraces.map TraceReference.json)),
    ("imported_from", .array (m.importedFrom.map MemoryKey.json)),
    ("ownership_id", optional Value.string m.ownershipId),
    ("transferred_from", .array (m.transferredFrom.map OwnershipReference.json)),
    ("pending_run", optional TraceReference.json m.pendingRun),
    ("historical_evidence", .array (m.historicalEvidence.map SourceEvidence.json))]

/-- `serde_json::to_string` -/
def jsonText (v : Value) : String := String.ofList v.text

/-! ## validation -/

def isHexDigit (c : Char) : Bool :=
  ('0' ≤ c && c ≤ '9') || ('a' ≤ c && c ≤ 'f') || ('A' ≤ c && c ≤ 'F')

def validOwnership (value : String) : Bool := strLen value = 32 && value.toList.all isHexDigit

def validDigest (value : String) : Bool := strLen value = 64 && value.toList.all isHexDigit

def isValidNamespace (text : String) : Bool :=
  text ≠ "" && strLen text ≤ 128 && text.toList.all fun c =>
    ('0' ≤ c && c ≤ '9') || ('a' ≤ c && c ≤ 'z') || ('A' ≤ c && c ≤ 'Z') || c = '-' || c = '_' || c = '.'

def TraceReference.incomplete (t : TraceReference) : Bool :=
  t.session = "" || t.request = "" || t.task = ""

/-- the first character of an absolute path is a slash -/
def isAbsolute (path : String) : Bool := path.toList.head? = some '/'

def SourceEvidence.validate : SourceEvidence → Except MemoryError Unit
  | .file repository path range checkedRevision contentDigest =>
    refuseIf (repository = "" ∨ checkedRevision = "" ∨ path = "" ∨ isAbsolute path = true ∨
        (Paths.components path.toList).all Paths.Component.isNormal = false ∨
        (range.any fun r => r.start = 0 || r.stop < r.start) = true ∨
        validDigest contentDigest = false) MemoryError.invalidMetadata
  | .artifact digest source =>
    refuseIf (source = "" ∨ validDigest digest = false) MemoryError.invalidMetadata

def MemoryKind.isPending : MemoryKind → Bool
  | .lessonProposal _ .pending => true
  | _ => false

/-- a kind that has to cite evidence -/
def MemoryKind.isClaim : MemoryKind → Bool
  | .codeClaim => true
  | .lessonProposal _ _ => true
  | _ => false

def MemoryKind.behaviorTest : MemoryKind → List SourceEvidence
  | .lessonProposal test _ => [test]
  | _ => []

namespace MemoryMetadata

def validate (m : MemoryMetadata) : Except MemoryError Unit := do
  refuseIf (16 * 1024 < (toVec m.json).length + (if m.ownershipId = none then 32 else 0) ∨
      16 < m.evidence.length ∨ 32 < m.producingTraces.length ∨ 32 < m.importedFrom.length ∨
      32 < m.transferredFrom.length ∨ 64 < m.historicalEvidence.length ∨
      (m.ownershipId.any fun id => !validOwnership id) = true ∨
      (m.transferredFrom.any fun source => !validOwnership source.ownershipId ||
        source.key.id ≤ 0 || source.key.version = 0) = true ∨
      (m.pendingRun.any fun trace => trace.incomplete || trace ∉ m.producingTraces ||
        !m.kind.isPending) = true) MemoryError.invalidMetadata
  refuseIf (m.scope = .repository "" ∨ (m.kind.isClaim = true ∧ m.evidence = []) ∨
      (m.kind.isClaim = true ∧ m.origin = .model ∧ m.producingTraces = []) ∨
      m.producingTraces.any TraceReference.incomplete = true ∨
      (m.importedFrom.any fun key => key.id ≤ 0 || key.version = 0 ||
        key.nameSpace.any fun n => !isValidNamespace n) = true) MemoryError.invalidMetadata
  checkAll SourceEvidence.validate (m.evidence ++ m.historicalEvidence ++ m.kind.behaviorTest)

def visibleIn (m : MemoryMetadata) (repository : Option String) : Bool :=
  match m.scope with
  | .repository identity => some identity = repository
  | _ => true

section
variable [MemoryText]

def rejectLikelySecret (m : MemoryMetadata) : Except MemoryError Unit :=
  refuseIf (MemoryText.containsLikelySecret (jsonText m.json) = true) MemoryError.secretRejected

def transferIdentity (m : MemoryMetadata) (content : String) (nameSpace : Option String) : String :=
  let origin := (m.transferredFrom.head?.map OwnershipReference.ownershipId).or m.ownershipId
  let nameSpace := match m.transferredFrom.head? with
    | none => nameSpace
    | some source => source.key.nameSpace
  let payload := { m with ownershipId := none, transferredFrom := [], importedFrom := [] }
  jsonText (.array [optional Value.string origin, optional Value.string nameSpace, .string content,
    payload.json])

end

end MemoryMetadata

/-- `str::split_whitespace` -/
def splitWhitespace (text : String) : List String :=
  ((text.toList.splitOnP isWhitespace).filter fun w => w ≠ []).map String.ofList

section
variable [MemoryText]

def normalizeIdentity (content : String) : String :=
  " ".intercalate ((splitWhitespace content).map MemoryText.toLowercase)

/-- what two memories of a store must not share: its scope counts, and its owner before an import -/
def MemoryMetadata.identity (m : MemoryMetadata) (content : String) : String :=
  if m.transferredFrom ≠ [] ∨ m.importedFrom ≠ [] then
    "import:" ++ m.transferIdentity content none
  else if m.scope = .legacyUnscoped then normalizeIdentity content
  else jsonText m.scope.json ++ ":" ++ normalizeIdentity content

end

def MemoryRecord.timesValid (r : MemoryRecord) : Bool :=
  0 ≤ r.createdAtMs && r.createdAtMs ≤ r.updatedAtMs &&
    r.lastScannedAtMs.all (r.updatedAtMs ≤ ·) && r.lastUsedAtMs.all (r.updatedAtMs ≤ ·) &&
    r.probationUntilMs.all (r.updatedAtMs ≤ ·)

def MemoryRecordScope.matches : MemoryRecordScope → Option String → Bool
  | .local, nameSpace => nameSpace = none
  | .remote expected, nameSpace => nameSpace = some expected
  | .anyRemote, nameSpace => nameSpace.isSome
  | .portable, _ => true

def MemoryRecord.validate (r : MemoryRecord) (scope : MemoryRecordScope) (limits : MemoryLimits) :
    Except MemoryError Unit :=
  refuseIf (r.key.id ≤ 0 ∨ r.key.version = 0 ∨ 2 ^ 63 ≤ r.key.version ∨ 2 ^ 63 ≤ r.scanCount ∨
      2 ^ 63 ≤ r.useCount ∨ r.key.nameSpace.all isValidNamespace = false ∨
      scope.matches r.key.nameSpace = false ∨ blank r.content = true ∨
      limits.contentBytes < strLen r.content ∨ r.timesValid = false ∨
      ¬ (r.scanCount = 0 ↔ r.lastScannedAtMs = none) ∨ ¬ (r.useCount = 0 ↔ r.lastUsedAtMs = none) ∨
      ¬ (r.probationUntilMs = none ∨ r.useCount = 0) ∨ r.metadata.validate ≠ .ok ())
    MemoryError.invalidMetadata

/-! ## the owner of a memory -/

theorem escapeChar_hex {c : Char} (h : isHexDigit c = true) : escapeChar c = [c] := by
  have hrange : 48 ≤ c.toNat ∧ c.toNat ≤ 57 ∨ 97 ≤ c.toNat ∧ c.toNat ≤ 102 ∨
      65 ≤ c.toNat ∧ c.toNat ≤ 70 := by
    simp only [isHexDigit, Bool.or_eq_true, Bool.and_eq_true, decide_eq_true_eq] at h
    rcases h with (⟨h₁, h₂⟩ | ⟨h₁, h₂⟩) | ⟨h₁, h₂⟩
    · exact .inl ⟨h₁, h₂⟩
    · exact .inr (.inl ⟨h₁, h₂⟩)
    · exact .inr (.inr ⟨h₁, h₂⟩)
  have hquote : c ≠ '"' := by
    rintro rfl
    revert hrange
    decide
  have hslash : c ≠ '\\' := by
    rintro rfl
    revert hrange
    decide
  unfold escapeChar
  rw [if_neg hquote, if_neg hslash, if_neg (by omega), if_neg (by omega), if_neg (by omega),
    if_neg (by omega), if_neg (by omega), if_neg (by omega)]

theorem size_ownership {id : String} (h : validOwnership id = true) : (Value.string id).size = 34 := by
  rw [validOwnership, Bool.and_eq_true, decide_eq_true_eq, List.all_eq_true] at h
  have hflat : id.toList.flatMap escapeChar = id.toList := by
    have hall := h.2
    generalize id.toList = l at hall
    induction l with
    | nil => rfl
    | cons c l ih =>
      rw [List.flatMap_cons, escapeChar_hex (hall c List.mem_cons_self),
        ih fun d hd => hall d (List.mem_cons_of_mem c hd)]
      rfl
  rw [size_string, escapedLength, hflat, ← strLen_eq, h.1]

namespace MemoryMetadata
variable {m : MemoryMetadata}

theorem json_size (m : MemoryMetadata) (owner : Option String) :
    (toVec { m with ownershipId := owner }.json).length + (optional Value.string m.ownershipId).size =
      (toVec m.json).length + (optional Value.string owner).size := by
  rw [toVec_length, toVec_length, json, json, size_object, size_object]
  simp only [List.map_cons, List.map_nil, List.sum_cons, List.sum_nil, fieldSize]
  omega

/-- **Metadata that is valid stays valid when it gets an owner.** -/
theorem validate_withOwnership (h : m.validate = .ok ()) {owner : String}
    (howner : validOwnership owner = true) :
    { m with ownershipId := some owner }.validate = .ok () := by
  obtain ⟨hfirst, h⟩ := refuseIf_bind h
  obtain ⟨hsecond, h⟩ := refuseIf_bind h
  have hsize := json_size m (some owner)
  rw [show optional Value.string (some owner) = Value.string owner from rfl, size_ownership howner] at hsize
  have hnew : ¬ 16 * 1024 < (toVec { m with ownershipId := some owner }.json).length := by
    intro hlt
    cases hold : m.ownershipId with
    | none =>
      rw [hold] at hsize
      refine hfirst (.inl ?_)
      rw [if_pos hold]
      have : (optional Value.string none).size = 4 := rfl
      omega
    | some old =>
      have hvalid : validOwnership old = true := by
        by_contra hnot
        refine hfirst (.inr (.inr (.inr (.inr (.inr (.inr (.inl ?_)))))))
        rw [hold]
        simpa using hnot
      rw [hold, show optional Value.string (some old) = Value.string old from rfl,
        size_ownership hvalid] at hsize
      refine hfirst (.inl ?_)
      rw [if_neg (by rw [hold]; simp)]
      omega
  simp only [not_or] at hfirst
  obtain ⟨-, h₁, h₂, h₃, h₄, h₅, -, h₆, h₇⟩ := hfirst
  unfold validate
  rw [refuseIf_of_not _ ?_, ok_bind, refuseIf_of_not _ hsecond, ok_bind]
  · exact h
  · simp only [not_or]
    refine ⟨?_, h₁, h₂, h₃, h₄, h₅, ?_, h₆, h₇⟩
    · rw [if_neg (by simp), Nat.add_zero]
      exact hnew
    · rw [Option.any_some, howner]
      decide

end MemoryMetadata

end Orvek
