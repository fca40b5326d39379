import Orvek.Lib.Tally
import Orvek.Store.Host

/-!
# The budget of auxiliary requests

Read-only assistance has a log of records of its own, and a budget of model calls and tokens.  The
records are artifacts; a submission holds their digests.

* `Accounting`          what the records so far amount to;
* `recordAuxiliary`     one more record, if the budget allows it;
* `Accounts`            the accounting agrees with the log it was made from;
* `AuxRun`              runs of the host in which records are written by this call only;
* `auxiliary_budget`    the budget in every state of such a run.
-/

set_option linter.unusedSectionVars false

namespace Orvek
open Checks Json

/-! ## records -/

inductive AuxiliaryRecord where
  | classificationIntended (atMs : Nat) (input : Digest) (call : Uuid)
  | classificationObserved (call : Uuid) (receipt : ModelCallReceipt) (kind : String)
  | started (atMs : Nat) (source review : Option Digest)
  | modelIntended (call : Uuid) (input : Digest)
  | modelObserved (call : Uuid) (receipt : ModelCallReceipt)
  | toolObserved (callId name : String) (input output : Digest)
  deriving DecidableEq, Repr

namespace AuxiliaryRecord

def classification : AuxiliaryRecord → Bool
  | classificationIntended .. => true
  | classificationObserved .. => true
  | _ => false

def intent : AuxiliaryRecord → Option Uuid
  | classificationIntended _ _ call => some call
  | modelIntended call _ => some call
  | _ => none

def receipt : AuxiliaryRecord → Option (Uuid × ModelCallReceipt)
  | classificationObserved call receipt _ => some (call, receipt)
  | modelObserved call receipt => some (call, receipt)
  | _ => none

def artifacts : AuxiliaryRecord → List Digest
  | modelIntended _ input => [input]
  | classificationIntended _ input _ => [input]
  | classificationObserved _ receipt _ => [receipt.report]
  | modelObserved _ receipt => [receipt.report]
  | toolObserved _ _ input output => [input, output]
  | started _ source review => source.toList ++ review.toList

end AuxiliaryRecord

/-- `started_ms` is the earliest work on the request, `run_started_ms` the start of its answer -/
structure Accounting where
  startedMs : Option Nat
  classifiedMs : Option Nat
  runStartedMs : Option Nat
  calls : Std.ExtTreeMap Uuid (Option ModelCallReceipt)

namespace Accounting

def default : Accounting := ⟨none, none, none, ∅⟩

def startAt (a : Accounting) (atMs : Nat) : Accounting :=
  { a with startedMs := some (match a.startedMs with
      | some existing => min existing atMs
      | none => atMs) }

/-- `u64::checked_add` -/
def checkedAdd (a b : Nat) : Option Nat := if a + b ≤ u64Max then some (a + b) else none

/-- `known_tokens`: no receipt may be missing, and each must report its tokens -/
def knownTokens (a : Accounting) : Option Nat :=
  (a.calls.toList.map Prod.snd).foldlM
    (fun total receipt => (receipt.bind ModelCallReceipt.tokens).bind (checkedAdd total)) 0

def hasPendingReceipt (a : Accounting) : Bool := (a.calls.toList.map Prod.snd).any Option.isNone

def invalidTransition : StoreError := .invalid "invalid auxiliary accounting transition"

def observe (a : Accounting) (call : Uuid) (receipt : ModelCallReceipt) : Except StoreError Accounting := do
  refuseIf (a.calls[call]? ≠ some none) invalidTransition
  .ok { a with calls := a.calls.insert call (some receipt) }

def apply (a : Accounting) : AuxiliaryRecord → Except StoreError Accounting
  | .classificationIntended atMs _ call => do
    refuseIf (a.runStartedMs.isSome = true)
      (StoreError.invalid "classification cannot follow a started auxiliary run")
    refuseIf (a.calls[call]?.isSome = true) (StoreError.invalid "classification call reused")
    let a := { a with classifiedMs := some (match a.classifiedMs with
        | some existing => min existing atMs
        | none => atMs) }
    let a := a.startAt atMs
    .ok { a with calls := a.calls.insert call none }
  | .classificationObserved call receipt _ => a.observe call receipt
  | .started atMs _ _ => do
    refuseIf (a.runStartedMs.isSome = true) invalidTransition
    .ok ({ a with runStartedMs := some atMs }.startAt atMs)
  | .modelIntended call _ => do
    refuseIf (a.calls[call]?.isSome = true) invalidTransition
    .ok { a with calls := a.calls.insert call none }
  | .modelObserved call receipt => a.observe call receipt
  | .toolObserved .. => do
    refuseIf (a.runStartedMs.isNone = true) invalidTransition
    .ok a

end Accounting

/-- `AuxiliaryLimits::default` -/
def AuxiliaryLimits.default : AuxiliaryLimits := ⟨32, 256000, 600000⟩

/-- the limits of a request that may have auxiliary records; an ordinary one has those of
`ordinary_conversation_spec` -/
def WorkIntent.auxiliaryLimits : WorkIntent → Option AuxiliaryLimits
  | .auxiliary spec => some spec.limits
  | .ordinary .. => some AuxiliaryLimits.default
  | _ => none

def Digest.json (d : Digest) : Value := .string d.display

def Uuid.json (u : Uuid) : Value := .string u.display

def ModelCallStatus.json : ModelCallStatus → Value
  | .completed => .string "completed"
  | .failed => .string "failed"
  | .cancelled => .string "cancelled"
  | .unknown => .string "unknown"

def ModelCallReceipt.json (r : ModelCallReceipt) : Value :=
  .object [("status", r.status.json), ("tokens", optional ofNat r.tokens), ("report", r.report.json)]

def tagged (type : String) (data : List (String × Value)) : Value :=
  .object [("type", .string type), ("data", .object data)]

def AuxiliaryRecord.json : AuxiliaryRecord → Value
  | .classificationIntended atMs input call => tagged "classification_intended"
      [("at_ms", ofNat atMs), ("input", input.json), ("call", call.json)]
  | .classificationObserved call receipt kind => tagged "classification_observed"
      [("call", call.json), ("receipt", receipt.json), ("kind", .string kind)]
  | .started atMs source review => tagged "started"
      [("at_ms", ofNat atMs), ("source", optional Digest.json source),
        ("review", optional Digest.json review)]
  | .modelIntended call input => tagged "model_intended"
      [("call", call.json), ("input", input.json)]
  | .modelObserved call receipt => tagged "model_observed"
      [("call", call.json), ("receipt", receipt.json)]
  | .toolObserved callId name input output => tagged "tool_observed"
      [("call_id", .string callId), ("name", .string name), ("input", input.json),
        ("output", output.json)]

/-- what `serde_json::from_slice` makes of bytes as a record -/
class AuxiliaryReader where
  fromSlice : List UInt8 → Except JsonError AuxiliaryRecord

section
variable [Sha256] [ContractCodec] [SessionCodec] [StoreCodec] [JsonReader] [AuxiliaryReader]

def readRecord (env : Env) (d : Digest) : Except StoreError AuxiliaryRecord := do
  let bytes ← (env.readArtifact d).mapError StoreError.artifact
  (AuxiliaryReader.fromSlice bytes).mapError StoreError.json

def auxiliaryAccounting (env : Env) (records : List Digest) : Except StoreError Accounting :=
  records.foldlM (fun a d => do let r ← readRecord env d; a.apply r) Accounting.default

def overBudget (env : Env) (limits : AuxiliaryLimits) (a : Accounting) (record : AuxiliaryRecord) : Bool :=
  match record.intent with
  | none => false
  | some call =>
    limits.modelCalls ≤ a.calls.size || (a.hasPendingReceipt && a.calls[call]?.isNone) ||
      a.knownTokens.any (limits.tokens ≤ ·) ||
      a.startedMs.any fun start => limits.elapsedMs ≤ env.now 0 - start

/-- `record_auxiliary`; `written` is how the writing of the artifact ends.  The session is the one the
call leaves -/
def recordAuxiliary (env : Env) (written : Except ArtifactError Unit) (sessionId : SessionId)
    (request operation : Uuid) (record : AuxiliaryRecord) (db : Db) :
    Except StoreError (SessionState × Db) := do
  let (state, _) ← loadSessionState db sessionId none
  match state.submissions[request]? with
  | none => .error (.invalid "unknown auxiliary submission")
  | some submission =>
    match submission.intent.auxiliaryLimits with
    | none => .error (.invalid "request is not auxiliary")
    | some limits => do
      refuseIf (record.classification = false ∧ (state.activeRequest ≠ some request ∨
          submission.intent.isOrdinary = false) ∧ state.activeRequest ≠ some request)
        (StoreError.invalid "auxiliary actor no longer owns this request")
      written.mapError StoreError.artifact
      let digest := Digest.of (toVec record.json)
      let command : SessionCommand ContextView := .auxiliaryRecorded request digest
      match state.operations[operation]? with
      | some previous =>
        if previous = command.digest then .ok (state, db)
        else .error (.invalid "auxiliary operation ID reused")
      | none => do
        let accounting ← auxiliaryAccounting env submission.records
        refuseIf (overBudget env limits accounting record = true) StoreError.budget
        refuseIf (256 ≤ submission.records.length) StoreError.budget
        checkAll env.read record.artifacts
        let _ ← accounting.apply record
        sessionCommand env sessionId state.revision operation command db

/-! ## the accounting and its log -/

/-- the calls that were intended -/
def intents (log : List AuxiliaryRecord) : List Uuid := log.filterMap AuxiliaryRecord.intent

def receipts (log : List AuxiliaryRecord) : List (Uuid × ModelCallReceipt) :=
  log.filterMap AuxiliaryRecord.receipt

def reportedTokens (log : List AuxiliaryRecord) : Nat :=
  ((receipts log).map fun r => r.2.tokens.getD 0).sum

def callTokens (receipt : Option ModelCallReceipt) : Nat := (receipt.bind ModelCallReceipt.tokens).getD 0

/-- the accounting of a log -/
structure Accounts (log : List AuxiliaryRecord) (a : Accounting) : Prop where
  count : a.calls.size = (intents log).length
  known : ∀ call ∈ intents log, (a.calls[call]?).isSome = true
  settled : ∀ call receipt, a.calls[call]? = some (some receipt) → (call, receipt) ∈ receipts log
  tokens : Tally.total callTokens a.calls = reportedTokens log

theorem Accounts.default : Accounts [] Accounting.default where
  count := rfl
  known := fun _ h => nomatch h
  settled := fun call receipt h => by
    rw [show Accounting.default.calls = ∅ from rfl, Std.ExtTreeMap.getElem?_empty] at h
    cases h
  tokens := Tally.total_empty _

theorem intents_append (log : List AuxiliaryRecord) (r : AuxiliaryRecord) :
    intents (log ++ [r]) = intents log ++ r.intent.toList := by
  unfold intents
  rw [List.filterMap_append]
  cases h : r.intent with
  | none => rw [List.filterMap_cons_none h]; rfl
  | some call => rw [List.filterMap_cons_some h]; rfl

theorem receipts_append (log : List AuxiliaryRecord) (r : AuxiliaryRecord) :
    receipts (log ++ [r]) = receipts log ++ r.receipt.toList := by
  unfold receipts
  rw [List.filterMap_append]
  cases h : r.receipt with
  | none => rw [List.filterMap_cons_none h]; rfl
  | some call => rw [List.filterMap_cons_some h]; rfl

theorem reportedTokens_append (log : List AuxiliaryRecord) (r : AuxiliaryRecord) :
    reportedTokens (log ++ [r]) =
      reportedTokens log + (r.receipt.map fun x => x.2.tokens.getD 0).getD 0 := by
  unfold reportedTokens
  rw [receipts_append, List.map_append, List.sum_append]
  cases r.receipt with
  | none => rfl
  | some x => rfl

variable {log : List AuxiliaryRecord} {a b : Accounting}
variable {r : AuxiliaryRecord}

theorem Accounts.same (h : Accounts log a) (hintent : r.intent = none) (hreceipt : r.receipt = none)
    (hcalls : b.calls = a.calls) : Accounts (log ++ [r]) b where
  count := by rw [hcalls, intents_append, hintent, Option.toList_none, List.append_nil]; exact h.count
  known := by rw [hcalls, intents_append, hintent, Option.toList_none, List.append_nil]; exact h.known
  settled := by
    rw [hcalls, receipts_append, hreceipt, Option.toList_none, List.append_nil]
    exact h.settled
  tokens := by rw [hcalls, reportedTokens_append, hreceipt]; exact h.tokens

theorem Accounts.intended (h : Accounts log a) {call : Uuid} (hintent : r.intent = some call)
    (hreceipt : r.receipt = none) (hnew : a.calls[call]? = none)
    (hcalls : b.calls = a.calls.insert call none) : Accounts (log ++ [r]) b where
  count := by
    rw [hcalls, Tally.size_insert, hnew, if_neg (by decide), h.count, intents_append, hintent]
    simp
  known := by
    intro c hc
    rw [hcalls, Tally.get_insert]
    split
    · rfl
    · rename_i hne
      rw [intents_append, hintent] at hc
      rcases List.mem_append.mp hc with hc | hc
      · exact h.known c hc
      · exact absurd (by simpa using hc) hne
  settled := by
    intro c receipt hc
    rw [hcalls, Tally.get_insert] at hc
    rw [receipts_append, hreceipt, Option.toList_none, List.append_nil]
    split at hc
    · cases hc
    · exact h.settled c receipt hc
  tokens := by
    rw [hcalls, Tally.total_insert_new _ _ hnew, h.tokens, reportedTokens_append, hreceipt]
    rfl

theorem Accounts.observed (h : Accounts log a) {call : Uuid} {receipt : ModelCallReceipt}
    (hintent : r.intent = none) (hreceipt : r.receipt = some (call, receipt))
    (hb : a.observe call receipt = .ok b) : Accounts (log ++ [r]) b := by
  obtain ⟨hpending, hb⟩ := refuseIf_bind hb
  cases hb
  rw [not_not] at hpending
  exact {
    count := by
      rw [Tally.size_insert, hpending, if_pos Option.isSome_some, h.count, intents_append, hintent]
      simp
    known := by
      intro c hc
      rw [Tally.get_insert]
      split
      · rfl
      · rw [intents_append, hintent, Option.toList_none, List.append_nil] at hc
        exact h.known c hc
    settled := by
      intro c x hc
      rw [Tally.get_insert] at hc
      rw [receipts_append, hreceipt]
      split at hc
      · rename_i heq
        cases hc
        rw [heq]
        exact List.mem_append_right _ (List.mem_singleton_self _)
      · exact List.mem_append_left _ (h.settled c x hc)
    tokens := by
      have hbalance := Tally.total_insert callTokens a.calls call (some receipt)
      rw [hpending] at hbalance
      rw [reportedTokens_append, hreceipt, ← h.tokens]
      exact hbalance }

theorem isNone_of_not_isSome {α : Type} {x : Option α} (h : ¬ x.isSome = true) : x = none :=
  Option.not_isSome_iff_eq_none.mp h

/-- **One record more keeps the accounting in step with its log.** -/
theorem Accounts.apply (h : Accounts log a) (hb : a.apply r = .ok b) : Accounts (log ++ [r]) b := by
  cases r with
  | classificationIntended atMs input call =>
    obtain ⟨-, hb⟩ := refuseIf_bind hb
    obtain ⟨hnew, hb⟩ := refuseIf_bind hb
    cases hb
    exact h.intended rfl rfl (isNone_of_not_isSome hnew) rfl
  | classificationObserved call receipt kind => exact h.observed rfl rfl hb
  | started atMs source review =>
    obtain ⟨-, hb⟩ := refuseIf_bind hb
    cases hb
    exact h.same rfl rfl rfl
  | modelIntended call input =>
    obtain ⟨hnew, hb⟩ := refuseIf_bind hb
    cases hb
    exact h.intended rfl rfl (isNone_of_not_isSome hnew) rfl
  | modelObserved call receipt => exact h.observed rfl rfl hb
  | toolObserved callId name input output =>
    obtain ⟨-, hb⟩ := refuseIf_bind hb
    cases hb
    exact h.same rfl rfl rfl

theorem Accounts.of_records (env : Env) {records : List Digest} {reading : Digest → Option AuxiliaryRecord}
    (hread : ∀ d bytes, env.readArtifact d = .ok bytes →
      (AuxiliaryReader.fromSlice bytes).toOption = reading d)
    (ha : auxiliaryAccounting env records = .ok a) (hlog : records.map reading = log.map some) :
    Accounts log a := by
  have hfold : ∀ (records : List Digest) (done log : List AuxiliaryRecord) (a b : Accounting),
      Accounts done a → records.map reading = log.map some →
      records.foldlM (fun a d => do let r ← readRecord env d; a.apply r) a = .ok b →
      Accounts (done ++ log) b := by
    intro records
    induction records with
    | nil =>
      intro done log a b h hmap hb
      cases hb
      rw [List.map_eq_nil_iff.mp hmap.symm, List.append_nil]
      exact h
    | cons d records ih =>
      intro done log a b h hmap hb
      obtain ⟨c, hone, hb⟩ := bind_ok hb
      obtain ⟨r, hr, hc⟩ := bind_ok hone
      cases log with
      | nil => cases hmap
      | cons r' log =>
        obtain ⟨hhead, hrest⟩ := List.cons.inj hmap
        obtain ⟨bytes, hbytes, hr⟩ := bind_ok hr
        have hdecoded := hread d bytes (mapError_ok hbytes)
        rw [mapError_ok hr, hhead] at hdecoded
        cases hdecoded
        rw [← List.singleton_append, ← List.append_assoc]
        exact ih (done ++ [r]) log c b (h.apply hc) hrest hb
  exact hfold records [] log Accounting.default a Accounts.default hlog ha

/-- every receipt reports its tokens, and the sum of them can be added up -/
def Reports (log : List AuxiliaryRecord) : Prop :=
  (∀ r ∈ receipts log, r.2.tokens.isSome = true) ∧ reportedTokens log ≤ u64Max

/-- another call is within the limits -/
structure Within (limits : AuxiliaryLimits) (log : List AuxiliaryRecord) : Prop where
  calls : (intents log).length < limits.modelCalls
  tokens : reportedTokens log < limits.tokens
  settled : ∀ call ∈ intents log, ∃ receipt, (call, receipt) ∈ receipts log

theorem foldlM_checkedAdd {l : List (Option ModelCallReceipt)} {acc : Nat}
    (hl : ∀ x ∈ l, ((x.bind ModelCallReceipt.tokens).isSome = true))
    (hsum : acc + (l.map callTokens).sum ≤ u64Max) :
    l.foldlM (fun total receipt =>
      (receipt.bind ModelCallReceipt.tokens).bind (Accounting.checkedAdd total)) acc =
        some (acc + (l.map callTokens).sum) := by
  induction l generalizing acc with
  | nil => rfl
  | cons x l ih =>
    obtain ⟨t, ht⟩ := Option.isSome_iff_exists.mp (hl x List.mem_cons_self)
    have hx : callTokens x = t := by rw [callTokens, ht, Option.getD_some]
    rw [List.map_cons, List.sum_cons, hx] at hsum ⊢
    have hadd : Accounting.checkedAdd acc t = some (acc + t) := if_pos (by omega)
    rw [List.foldlM_cons, ht, Option.bind_some, hadd, Option.bind_eq_bind, Option.bind_some,
      ih (fun y hy => hl y (List.mem_cons_of_mem x hy)) (by omega), Nat.add_assoc]

theorem not_pending (hpending : a.hasPendingReceipt = false) {call : Uuid}
    (hx : a.calls[call]? = some none) : False :=
  List.any_eq_false.mp hpending none
    (List.mem_map.mpr ⟨(call, none), Tally.mem_toList.mpr hx, rfl⟩) rfl

theorem Accounts.knownTokens (h : Accounts log a) (hreports : Reports log)
    (hpending : a.hasPendingReceipt = false) : a.knownTokens = some (reportedTokens log) := by
  have hsum : ((a.calls.toList.map Prod.snd).map callTokens).sum = reportedTokens log := by
    rw [List.map_map]
    exact h.tokens
  rw [Accounting.knownTokens, foldlM_checkedAdd, Nat.zero_add, hsum]
  · intro x hx
    obtain ⟨⟨call, y⟩, hmem, rfl⟩ := List.mem_map.mp hx
    cases y with
    | none => exact (not_pending hpending (Tally.mem_toList.mp hmem)).elim
    | some receipt =>
      exact hreports.1 _ (h.settled call receipt (Tally.mem_toList.mp hmem))
  · rw [hsum, Nat.zero_add]
    exact hreports.2

theorem Accounting.apply_new {call : Uuid} (hintent : r.intent = some call) (hb : a.apply r = .ok b) :
    a.calls[call]? = none := by
  cases r with
  | classificationIntended atMs input c =>
    cases hintent
    obtain ⟨-, hb⟩ := refuseIf_bind hb
    exact isNone_of_not_isSome (refuseIf_bind hb).1
  | modelIntended c input =>
    cases hintent
    exact isNone_of_not_isSome (refuseIf_bind hb).1
  | _ => cases hintent

/-- **A call that passes the test of the budget is within the limits**, if every receipt reports. -/
theorem Accounts.within (h : Accounts log a) (hreports : Reports log) {env : Env} {limits : AuxiliaryLimits}
    {call : Uuid} (hintent : r.intent = some call) (hbudget : ¬ overBudget env limits a r = true)
    (hb : a.apply r = .ok b) : Within limits log := by
  have hnew := Accounting.apply_new hintent hb
  unfold overBudget at hbudget
  rw [hintent] at hbudget
  simp only [Bool.or_eq_true, not_or, decide_eq_true_eq, hnew, Option.isNone_none, Bool.and_true,
    Bool.not_eq_true] at hbudget
  obtain ⟨⟨⟨hcalls, hpending⟩, htokens⟩, -⟩ := hbudget
  have hknown := h.knownTokens hreports hpending
  refine ⟨by rw [← h.count]; omega, ?_, ?_⟩
  · rw [hknown, Option.any_some, decide_eq_false_iff_not] at htokens
    omega
  · intro c hc
    obtain ⟨x, hx⟩ := Option.isSome_iff_exists.mp (h.known c hc)
    cases x with
    | none => exact (not_pending hpending hx).elim
    | some receipt => exact ⟨receipt, h.settled c receipt hx⟩

def Budgeted (limits : AuxiliaryLimits) (log : List AuxiliaryRecord) : Prop :=
  ∀ before r after, log = before ++ r :: after → r.intent.isSome = true → Within limits before

theorem Budgeted.nil (limits : AuxiliaryLimits) : Budgeted limits [] := by
  intro before r after h
  cases before <;> cases h

theorem Budgeted.append {limits : AuxiliaryLimits} (h : Budgeted limits log)
    (hr : r.intent.isSome = true → Within limits log) : Budgeted limits (log ++ [r]) := by
  intro before x after heq hx
  rcases List.eq_nil_or_concat after with rfl | ⟨init, last, rfl⟩
  · obtain ⟨rfl, hxr⟩ := List.append_inj' heq rfl
    cases hxr
    exact hr hx
  · rw [List.concat_eq_append, ← List.cons_append, ← List.append_assoc] at heq
    obtain ⟨hlog, -⟩ := List.append_inj' heq rfl
    exact h before x init hlog hx

/-! ## the records of a session -/

section
variable {s t : SessionState} {operation : Uuid} {c : SessionCommand ContextView}

def Submission.ledger (x : Submission) : WorkIntent × List Digest := (x.intent, x.records)

def SessionCommand.adds (id : Uuid) : SessionCommand ContextView → List Digest
  | .auxiliaryRecorded request record => if id = request then [record] else []
  | _ => []

theorem ledger_edited (operation : Uuid) (c : SessionCommand ContextView) (id : Uuid) (x : Submission) :
    (edited (c.edit operation) id x).ledger = (x.intent, x.records ++ c.adds id) := by
  have hkeep : ∀ {request : Uuid} {f : Submission → Submission}, (∀ y, (f y).ledger = y.ledger) →
      (edited (some (request, f)) id x).ledger = (x.intent, x.records ++ []) := by
    intro request f hf
    rw [List.append_nil]
    show (if id = request then f x else x).ledger = x.ledger
    split
    · exact hf x
    · rfl
  cases c with
  | shellStarted job => exact hkeep fun _ => rfl
  | shellPublished request report seed settled => exact hkeep fun _ => rfl
  | auxiliaryPublished request report text => exact hkeep fun _ => rfl
  | submissionChanged request status => exact hkeep fun _ => rfl
  | queueEdited request expected input =>
    cases input with
    | none => exact congrArg (Prod.mk x.intent) (List.append_nil _).symm
    | some input => exact hkeep fun _ => rfl
  | auxiliaryRecorded request record =>
    show (if id = request then { x with records := x.records ++ [record] } else x : Submission).ledger =
      (x.intent, x.records ++ if id = request then [record] else [])
    split
    · rfl
    · exact congrArg (Prod.mk x.intent) (List.append_nil _).symm
  | _ => exact congrArg (Prod.mk x.intent) (List.append_nil _).symm

/-- what the log of a submission has to satisfy -/
def Logged (reading : Digest → Option AuxiliaryRecord) (l : WorkIntent × List Digest) : Prop :=
  ∃ log : List AuxiliaryRecord, l.2.map reading = log.map some ∧
    ∀ limits, l.1.auxiliaryLimits = some limits → Budgeted limits log

/-- the log of every submission is within its budget -/
def AllLogged (reading : Digest → Option AuxiliaryRecord) (s : SessionState) : Prop :=
  ∀ (id : Uuid) (x : Submission), s.submissions[id]? = some x → Logged reading x.ledger

variable {reading : Digest → Option AuxiliaryRecord}

theorem Logged.unwritten (intent : WorkIntent) : Logged reading (intent, []) :=
  ⟨[], rfl, fun limits _ => Budgeted.nil limits⟩

theorem AllLogged.apply (h : AllLogged reading s) (hap : s.apply operation c = .ok t)
    (hc : ∀ x, c ≠ .submitted x) (hadds : ∀ id, c.adds id = []) : AllLogged reading t := by
  intro id y hy
  rw [apply_submissions hap hc id] at hy
  obtain ⟨x, hx, rfl⟩ := Option.map_eq_some_iff.mp hy
  rw [ledger_edited, hadds, List.append_nil]
  exact h id x hx

theorem AllLogged.submitted (h : AllLogged reading s) {x : Submission} (hrecords : x.records = [])
    (hap : s.apply operation (.submitted x) = .ok t) : AllLogged reading t := by
  intro id y hy
  rw [apply_submitted hap id] at hy
  split at hy
  · cases hy
    rw [Submission.ledger, hrecords]
    exact .unwritten _
  · exact h id y hy

theorem AllLogged.recorded (h : AllLogged reading s) {request : Uuid} {d : Digest} {r : AuxiliaryRecord}
    (hr : reading d = some r) {x : Submission} (hx : s.submissions[request]? = some x)
    (hwithin : ∀ limits log, x.intent.auxiliaryLimits = some limits →
      x.records.map reading = log.map some → r.intent.isSome = true → Within limits log)
    (hap : s.apply operation (.auxiliaryRecorded request d) = .ok t) : AllLogged reading t := by
  intro id y hy
  rw [apply_submissions hap (fun x hx => (nomatch hx)) id] at hy
  obtain ⟨z, hz, rfl⟩ := Option.map_eq_some_iff.mp hy
  rw [ledger_edited]
  obtain ⟨log, hlog, hbudget⟩ := h id z hz
  show Logged reading (z.intent, z.records ++ if id = request then [d] else [])
  split
  · rename_i hid
    rw [hid, hx] at hz
    cases hz
    refine ⟨log ++ [r], ?_, fun limits hlimits => ?_⟩
    · rw [List.map_append, List.map_append, List.map_singleton, List.map_singleton, hr]
      exact congrArg (· ++ [some r]) hlog
    · exact (hbudget limits hlimits).append (hwithin limits log hlimits hlog)
  · rw [List.append_nil]
    exact ⟨log, hlog, hbudget⟩

def SessionCommand.logs {V : Type} : SessionCommand V → Bool
  | .submitted _ => true
  | .auxiliaryRecorded .. => true
  | _ => false

theorem logs_submitted (h : c.logs = false) (x : Submission) : c ≠ .submitted x := by
  rintro rfl
  cases h

theorem logs_adds (h : c.logs = false) (id : Uuid) : c.adds id = [] := by
  cases c <;> first | rfl | cases h

theorem AllLogged.frames (h : AllLogged reading s) {frames : List Frame}
    (hframes : ∀ f ∈ frames, f.2.logs = false) (hap : s.applyAll frames = .ok t) :
    AllLogged reading t :=
  applyAll_relation (R := fun s t => AllLogged reading s → AllLogged reading t) (fun _ h => h)
    (fun h h' hs => h' (h hs)) (fun f hf _ _ hone hs =>
      hs.apply hone (logs_submitted (hframes f hf)) (logs_adds (hframes f hf))) hap h

theorem linkFrames_logs {request : Uuid} {content : List Value} {task : TaskId} :
    ∀ f ∈ linkFrames request content task, f.2.logs = false :=
  two_frames rfl rfl

theorem logical_logs {c : SessionCommand ContextView} (h : c.logical = false) : c.logs = false := by
  cases c <;> first | rfl | cases h

theorem direct_logs {c : SessionCommand ContextView} (hreserved : c.reserved = false)
    (hrecord : ∀ request d, c ≠ .auxiliaryRecorded request d) : c.logs = false := by
  cases c <;> first | rfl | cases hreserved
  case auxiliaryRecorded request record => exact absurd rfl (hrecord request record)

theorem submit_leaves {session : SessionId} {id : Uuid} {input : Digest} {intent : WorkIntent}
    (h : (HostCall.submit session id input intent).Leaves s t) :
    t = s ∨ ∃ x operation, x.records = [] ∧ s.apply operation (.submitted x) = .ok t := by
  obtain ⟨env, db, head, task, db', hl, hrun⟩ := h
  obtain ⟨_, hc, hrun⟩ := bind_ok hrun
  cases hrun
  obtain ⟨⟨u, head'⟩, hl', hc⟩ := bind_ok hc
  cases hl.symm.trans hl'
  obtain ⟨-, -, hc⟩ := bind_ok hc
  obtain ⟨_, -, hc⟩ := bind_ok hc
  obtain ⟨-, -, hc⟩ := bind_ok hc
  simp only at hc
  split at hc
  · obtain ⟨-, hc⟩ := refuseIf_bind hc
    cases hc
    exact .inl rfl
  · obtain ⟨-, hc⟩ := refuseIf_bind hc
    obtain ⟨-, hc⟩ := refuseIf_bind hc
    obtain ⟨_, -, hc⟩ := bind_ok hc
    obtain ⟨⟨u, g, db₂⟩, happ, hc⟩ := bind_ok hc
    cases hc
    exact .inr ⟨_, _, rfl, applyAll_one.mp (append_one happ rfl)⟩

/-! ## runs -/

def HostCall.records : HostCall → Bool
  | .command _ _ _ (.auxiliaryRecorded ..) => true
  | _ => false

/-- a record that is written has passed the test of the budget, and was within it -/
def Checked (reading : Digest → Option AuxiliaryRecord) (s : SessionState) : HostCall → Prop
  | .command _ _ operation (.auxiliaryRecorded request d) => operation ∈ s.operations ∨
      ∃ x r, s.submissions[request]? = some x ∧ reading d = some r ∧
        ∀ limits log, x.intent.auxiliaryLimits = some limits → x.records.map reading = log.map some →
          r.intent.isSome = true → Within limits log
  | _ => True

/-- every call keeps the logs within their budgets -/
theorem AllLogged.call (h : AllLogged reading s) {call : HostCall} {frames : List Frame}
    (hchecked : Checked reading s call) (hdirect : call.direct = true) (hplan : CallPlan s call frames)
    (hap : s.applyAll frames = .ok t) (hleaves : call.Leaves s t) : AllLogged reading t := by
  have hone : ∀ {operation : Uuid} {c : SessionCommand ContextView}, c.logs = false →
      ∀ f ∈ [((operation, c) : Frame)], f.2.logs = false := by
    intro operation c hc f hf
    rw [List.mem_singleton.mp hf]
    exact hc
  cases hplan with
  | nothing =>
    cases hap
    exact h
  | @command session revision operation c _ hnew hframed =>
    have hreserved : c.reserved = false := by simpa [HostCall.direct] using hdirect
    by_cases hrecord : ∃ request d, c = .auxiliaryRecorded request d
    · obtain ⟨request, d, rfl⟩ := hrecord
      rw [hframed.of_small rfl] at hap
      rcases hchecked with hold | ⟨x, r, hx, hr, hwithin⟩
      · exact absurd hold hnew
      · exact h.recorded hr hx hwithin (applyAll_one.mp hap)
    · refine h.frames (hframed.all (q := fun c => c.logs = false) (direct_logs hreserved ?_)
        fun _ => logical_logs) hap
      exact fun request d hc => hrecord ⟨request, d, hc⟩
  | start => exact h.frames linkFrames_logs hap
  | resume => exact h.frames linkFrames_logs hap
  | «continue» => exact h.frames linkFrames_logs hap
  | edit => exact h.frames (hone rfl) hap
  | submit =>
    rcases submit_leaves hleaves with rfl | ⟨x, operation, hrecords, hsubmit⟩
    · exact h
    · exact h.submitted hrecords hsubmit
  | beginShell => exact h.frames (hone rfl) hap
  | finishShell => exact h.frames (two_frames rfl rfl) hap
  | move => exact h.frames (hone rfl) hap
  | setStatus => exact h.frames (hone rfl) hap

end

section
variable {reading : Digest → Option AuxiliaryRecord}
  {meets : SessionState → Uuid → AuxiliaryRecord → Prop} {db db' : Db} {w w' : World}

/-- one step of the host, in which records are written by `recordAuxiliary` only.  `reading` is what
each artifact says as a record: artifacts do not change, and a record that is written can be read -/
inductive AuxStep (reading : Digest → Option AuxiliaryRecord)
    (meets : SessionState → Uuid → AuxiliaryRecord → Prop) (db : Db) :
    Option TaskState → Option SessionState → Db → Prop
  | host {task : Option TaskState} {session : Option SessionState} {db' : Db}
      (h : HostStep (fun _ call => call.records = false) db task session db') :
      AuxStep reading meets db task session db'
  | record {env : Env} {written : Except ArtifactError Unit} {sessionId : SessionId}
      {request operation : Uuid} {record : AuxiliaryRecord} {s : SessionState} {db' : Db}
      (h : recordAuxiliary env written sessionId request operation record db = .ok (s, db'))
      (hread : ∀ d bytes, env.readArtifact d = .ok bytes →
        (AuxiliaryReader.fromSlice bytes).toOption = reading d)
      (hput : reading (Digest.of (toVec record.json)) = some record)
      (hmeets : ∀ s head, loadSessionState db sessionId none = .ok (s, head) → meets s request record) :
      AuxStep reading meets db none (some s) db'

/-- any number of such steps -/
inductive AuxRun (reading : Digest → Option AuxiliaryRecord)
    (meets : SessionState → Uuid → AuxiliaryRecord → Prop) : Db → World → Prop
  | init : AuxRun reading meets Db.empty World.empty
  | step {db db' : Db} {w : World} {task : Option TaskState} {session : Option SessionState}
      (h : AuxRun reading meets db w) (hs : AuxStep reading meets db task session db') :
      AuxRun reading meets db' (w.write task session)

/-- whenever a call is intended, every receipt so far reports its tokens -/
def Reported (reading : Digest → Option AuxiliaryRecord) (s : SessionState) (request : Uuid)
    (record : AuxiliaryRecord) : Prop :=
  record.intent.isSome = true → ∀ x log, s.submissions[request]? = some x →
    x.records.map reading = log.map some → Reports log

/-- what `recordAuxiliary` does is a command, which it has checked -/
theorem recordAuxiliary_call {env : Env} {written : Except ArtifactError Unit} {sessionId : SessionId}
    {request operation : Uuid} {record : AuxiliaryRecord} {s' : SessionState}
    (h : recordAuxiliary env written sessionId request operation record db = .ok (s', db')) :
    ∃ s head, loadSessionState db sessionId none = .ok (s, head) ∧
      (HostCall.command sessionId s.revision operation (.auxiliaryRecorded request
        (Digest.of (toVec record.json)))).run env db = .ok (none, s', db') ∧
      (operation ∈ s.operations ∨ ∃ x limits a b, s.submissions[request]? = some x ∧
        x.intent.auxiliaryLimits = some limits ∧ auxiliaryAccounting env x.records = .ok a ∧
        (¬ overBudget env limits a record = true) ∧ a.apply record = .ok b) := by
  obtain ⟨⟨s, head⟩, hl, h⟩ := bind_ok h
  refine ⟨s, head, hl, ?_⟩
  simp only at h
  split at h
  · cases h
  · rename_i x hx
    split at h
    · cases h
    · rename_i limits hlimits
      obtain ⟨-, h⟩ := refuseIf_bind h
      obtain ⟨-, -, h⟩ := bind_ok h
      split at h
      · rename_i previous hprevious
        split at h
        · rename_i hsame
          cases h
          refine ⟨?_, .inl (Std.ExtTreeMap.mem_iff_isSome_getElem?.mpr (by rw [hprevious]; rfl))⟩
          rw [HostCall.run, sessionCommand, hl, ok_bind]
          simp only [hprevious, if_pos hsame, ok_bind]
        · cases h
      · obtain ⟨a, ha, h⟩ := bind_ok h
        obtain ⟨hbudget, h⟩ := refuseIf_bind h
        obtain ⟨-, h⟩ := refuseIf_bind h
        obtain ⟨-, -, h⟩ := bind_ok h
        obtain ⟨b, hb, h⟩ := bind_ok h
        refine ⟨?_, .inr ⟨x, limits, a, b, hx, hlimits, ha, hbudget, hb⟩⟩
        rw [HostCall.run, h, ok_bind]

theorem AuxRun.host (h : AuxRun reading (Reported reading) db w) :
    HostReachable (Checked reading) db w := by
  induction h with
  | init => exact .refl
  | step _ hs ih =>
    refine ih.step ?_
    cases hs with
    | host h =>
      cases h with
      | task h => exact .task h
      | create h => exact .create h
      | @call env call _ _ _ h hdirect hadmits =>
        refine .call h hdirect fun s head hl => ?_
        have hrecords := hadmits s head hl
        unfold Checked
        split
        · cases hrecords
        · trivial
    | @record env _ _ _ _ _ _ _ h hread hput hmeets =>
      obtain ⟨s, head, hl, hrun, hcase⟩ := recordAuxiliary_call h
      refine .call hrun rfl fun t head' hl' => ?_
      cases hl.symm.trans hl'
      rcases hcase with hold | ⟨x, limits, a, b, hx, hlimits, ha, hbudget, hb⟩
      · exact .inl hold
      · refine .inr ⟨x, _, hx, hput, fun limits' log hlimits' hlog hintent => ?_⟩
        cases hlimits.symm.trans hlimits'
        obtain ⟨call, hcall⟩ := Option.isSome_iff_exists.mp hintent
        have haccounts := Accounts.of_records env hread ha hlog
        exact haccounts.within (hmeets s head hl hintent x log hx hlog) hcall hbudget hb

/-- **The budget of auxiliary requests**: in every state of a run in which every receipt before a new
call reports its tokens, each call of each request was within the limits when it was intended. -/
theorem auxiliary_budget (reading : Digest → Option AuxiliaryRecord)
    (h : AuxRun reading (Reported reading) db w) {session : SessionId} {s : SessionState}
    (hs : w.sessions session = some s) {request : Uuid} {x : Submission}
    (hx : s.submissions[request]? = some x) {limits : AuxiliaryLimits}
    (hlimits : x.intent.auxiliaryLimits = some limits) :
    ∃ log : List AuxiliaryRecord, x.records.map reading = log.map some ∧
      ∀ before r after, log = before ++ r :: after → r.intent.isSome = true →
        (intents before).length < limits.modelCalls ∧ reportedTokens before < limits.tokens ∧
        ∀ call ∈ intents before, ∃ receipt, (call, receipt) ∈ receipts before := by
  have hall : AllLogged reading s :=
    (HostRun.session_course (R := fun _ _ => True)
      (fun id creation request x hx => by
        rw [show (SessionState.create id creation).submissions = ∅ from rfl,
          Std.ExtTreeMap.getElem?_empty] at hx
        cases hx)
      (fun _ => trivial) (fun _ _ => trivial)
      (fun hP hc hd hplan hap hleaves => ⟨AllLogged.call hP hc hd hplan hap hleaves, trivial⟩)
      h.host represents_empty (fun _ _ h => nomatch h)).1 session s hs
  obtain ⟨log, hlog, hbudget⟩ := hall request x hx
  refine ⟨log, hlog, fun before r after heq hintent => ?_⟩
  have hwithin := hbudget limits hlimits before r after heq hintent
  exact ⟨hwithin.calls, hwithin.tokens, hwithin.settled⟩

end

end

/-! ## the ordinary request of the example store -/

namespace Sample

def callA : Uuid := ⟨40⟩
def callB : Uuid := ⟨41⟩
def callC : Uuid := ⟨42⟩

def intendedA : AuxiliaryRecord := .classificationIntended 0 ⟨0⟩ callA
def intendedB : AuxiliaryRecord := .classificationIntended 0 ⟨0⟩ callB
def intendedC : AuxiliaryRecord := .classificationIntended 0 ⟨0⟩ callC

/-- the provider reports no tokens for the first call -/
def unreportedA : AuxiliaryRecord := .classificationObserved callA ⟨.unknown, none, ⟨0⟩⟩ ""

def reportedA : AuxiliaryRecord := .classificationObserved callA ⟨.completed, some 7, ⟨0⟩⟩ ""

/-- the second call takes more tokens than the limit -/
def excessB : AuxiliaryRecord := .classificationObserved callB ⟨.completed, some 300000, ⟨0⟩⟩ ""

def spending : List AuxiliaryRecord :=
  [intendedA, intendedB, intendedC, unreportedA, reportedA, excessB]

def recordDigest (r : AuxiliaryRecord) : Digest := Digest.of (toVec r.json)

scoped instance auxiliaryReader : AuxiliaryReader where
  fromSlice bytes := match spending.find? fun r => toVec r.json = bytes with
    | some r => .ok r
    | none => .error ⟨"expected value"⟩

def readingOf (d : Digest) : Option AuxiliaryRecord := spending.find? fun r => recordDigest r = d

def auditing : Env := { env with
  readArtifact := fun d => .ok ((readingOf d).elim [] fun r => toVec r.json) }

theorem digests_nodup : (spending.map recordDigest).Nodup := by decide +kernel

theorem find_spending {β : Type} [DecidableEq β] {f : AuxiliaryRecord → β} (h : (spending.map f).Nodup)
    {r : AuxiliaryRecord} (hr : r ∈ spending) : (spending.find? fun x => f x = f r) = some r := by
  cases hfind : spending.find? fun x => f x = f r with
  | none => exact absurd (decide_eq_true rfl) (List.find?_eq_none.mp hfind r hr)
  | some q =>
    have hq : f q = f r := by simpa using List.find?_some hfind
    rw [List.inj_on_of_nodup_map h (List.mem_of_find?_eq_some hfind) hr hq]

theorem readingOf_spending (r : AuxiliaryRecord) (hr : r ∈ spending) :
    readingOf (recordDigest r) = some r :=
  find_spending digests_nodup hr

theorem fromSlice_spending (r : AuxiliaryRecord) (hr : r ∈ spending) :
    (AuxiliaryReader.fromSlice (toVec r.json)).toOption = some r := by
  have hbytes : (spending.map fun r => toVec r.json).Nodup := by
    refine List.Nodup.of_map Digest.of ?_
    rw [List.map_map]
    exact digests_nodup
  simp only [AuxiliaryReader.fromSlice, find_spending hbytes hr]
  rfl

theorem auditing_reads (d : Digest) (bytes : List UInt8) (h : auditing.readArtifact d = .ok bytes) :
    (AuxiliaryReader.fromSlice bytes).toOption = readingOf d := by
  have hbytes : bytes = (readingOf d).elim [] fun r => toVec r.json := (Except.ok.inj h).symm
  rw [hbytes]
  cases hr : readingOf d with
  | none => decide +kernel
  | some r => exact fromSlice_spending r (List.mem_of_find?_eq_some hr)

variable {l : List AuxiliaryRecord}

theorem accounting_spending (hl : ∀ r ∈ l, r ∈ spending) :
    auxiliaryAccounting auditing (l.map recordDigest) = l.foldlM Accounting.apply Accounting.default := by
  have hfold : ∀ (l : List AuxiliaryRecord) (a : Accounting), (∀ r ∈ l, r ∈ spending) →
      (l.map recordDigest).foldlM (fun a d => do let r ← readRecord auditing d; a.apply r) a =
        l.foldlM Accounting.apply a := by
    intro l
    induction l with
    | nil => exact fun _ _ => rfl
    | cons r l ih =>
      intro a hl
      obtain ⟨hr, hl⟩ := List.forall_mem_cons.mp hl
      have hread : readRecord auditing (recordDigest r) = .ok r := by
        have hartifact : auditing.readArtifact (recordDigest r) = .ok (toVec r.json) := by
          show Except.ok ((readingOf (recordDigest r)).elim [] fun r => toVec r.json) = _
          rw [readingOf_spending r hr]
          rfl
        have hdecoded := fromSlice_spending r hr
        rw [readRecord, hartifact]
        show (AuxiliaryReader.fromSlice (toVec r.json)).mapError StoreError.json = _
        cases hslice : AuxiliaryReader.fromSlice (toVec r.json) with
        | error e =>
          rw [hslice] at hdecoded
          cases hdecoded
        | ok q =>
          rw [hslice] at hdecoded
          cases hdecoded
          rfl
      rw [List.map_cons, List.foldlM_cons, List.foldlM_cons, hread, ok_bind]
      cases a.apply r with
      | error e => rfl
      | ok b => exact ih b hl
  exact hfold l Accounting.default hl

def spent (l : List AuxiliaryRecord) : Submission :=
  { ordinary with status := .running, records := l.map recordDigest }

def noted (s : SessionState) (operation : Uuid) (r : AuxiliaryRecord) : SessionState :=
  after s operation (.auxiliaryRecorded ordinaryId (recordDigest r))

theorem noted_apply (s : SessionState) (operation : Uuid) (r : AuxiliaryRecord) :
    s.apply operation (.auxiliaryRecorded ordinaryId (recordDigest r)) = .ok (noted s operation r) := rfl

theorem noted_spent {s : SessionState} (hx : s.submissions[ordinaryId]? = some (spent l)) (operation : Uuid)
    (r : AuxiliaryRecord) : (noted s operation r).submissions[ordinaryId]? = some (spent (l ++ [r])) := by
  rw [apply_submissions (noted_apply s operation r) (fun x hx => (nomatch hx)) ordinaryId, hx]
  show some (if ordinaryId = ordinaryId then { spent l with records := l.map recordDigest ++
    [recordDigest r] } else spent l : Submission) = _
  rw [if_pos rfl, spent, spent, List.map_append]
  rfl

variable {meets : SessionState → Uuid → AuxiliaryRecord → Prop} {db : Db} {w : World}

theorem AuxRun.of_host {reading : Digest → Option AuxiliaryRecord}
    (h : HostReachable (fun _ call => call.records = false) db w) : AuxRun reading meets db w := by
  induction h with
  | refl => exact .init
  | step _ hs ih => exact ih.step (.host hs)

/-- the identifiers of the operations of the example -/
def noteId (n : Nat) : Uuid := ⟨BitVec.ofNat 128 (50 + n)⟩

/-- a run has come to the session, in which the request has the records of the log -/
structure Audited (meets : SessionState → Uuid → AuxiliaryRecord → Prop) (l : List AuxiliaryRecord)
    (s : SessionState) : Prop where
  run : ∃ db w, AuxRun readingOf meets db w ∧ Represents db w ∧ w.sessions sessionId = some s
  id : s.id = sessionId
  request : s.submissions[ordinaryId]? = some (spent l)
  revision : s.revision = 3 + l.length
  unused : ∀ n < 16, l.length ≤ n → s.operations[noteId n]? = none

theorem audited_claimed : Audited meets [] claimed where
  run := by
    obtain ⟨db, w, hr, hs, -⟩ : ∃ db w, HostReachable (fun _ call => call.records = false) db w ∧
        w.sessions sessionId = some claimed ∧ _ := hostReachable_claimed rfl rfl
    exact ⟨db, w, AuxRun.of_host hr, hr.represents, hs⟩
  id := rfl
  request := rfl
  revision := rfl
  unused := by decide +kernel

theorem checkAll_auditing (ds : List Digest) : checkAll auditing.read ds = .ok () :=
  checkAll_of fun _ _ => rfl

theorem Audited.next {l : List AuxiliaryRecord} {s : SessionState} (h : Audited meets l s)
    (hl : ∀ q ∈ l, q ∈ spending) {r : AuxiliaryRecord} (hr : r ∈ spending)
    (hclass : r.classification = true) {a b : Accounting}
    (ha : l.foldlM Accounting.apply Accounting.default = .ok a)
    (hbudget : overBudget auditing AuxiliaryLimits.default a r = false) (hroom : l.length < 16)
    (hb : a.apply r = .ok b) (hmeets : meets s ordinaryId r) :
    Audited meets (l ++ [r]) (noted s (noteId l.length) r) := by
  obtain ⟨db, w, hrun, hrep, hs⟩ := h.run
  obtain ⟨head, hload⟩ := hrep.loadSession hs
  have hnew := h.unused l.length hroom (Nat.le_refl _)
  have hrevision := h.revision
  obtain ⟨hash, db', happend, -⟩ := commands hrep (SessionLoaded.of_load hrep hload).1
    (auditing.appendClock 0) (noted_apply s (noteId l.length) r) (by omega) trivial
  have hcommand : sessionCommand auditing sessionId s.revision (noteId l.length)
      (.auxiliaryRecorded ordinaryId (recordDigest r)) db =
        .ok (noted s (noteId l.length) r, db') :=
    sessionCommand_new hload hnew rfl rfl happend
  have hrecord : recordAuxiliary auditing (.ok ()) sessionId ordinaryId (noteId l.length) r db =
      .ok (noted s (noteId l.length) r, db') := by
    rw [recordAuxiliary, hload, ok_bind]
    simp only [h.request]
    show (refuseIf _ _ >>= fun _ => _) = _
    rw [refuseIf_of_not _ (fun hnot => by rw [hclass] at hnot; cases hnot.1), ok_bind]
    show (match s.operations[noteId l.length]? with | some previous => _ | none => _) = _
    rw [hnew]
    show (auxiliaryAccounting auditing (l.map recordDigest) >>= fun _ => _) = _
    rw [accounting_spending hl, ha, ok_bind, refuseIf_of_not _ (by rw [hbudget]; decide), ok_bind,
      refuseIf_of_not _ (by
        show ¬ 256 ≤ (l.map recordDigest).length
        rw [List.length_map]
        omega), ok_bind, checkAll_auditing, ok_bind, hb, ok_bind]
    exact hcommand
  have hstep : AuxStep readingOf meets db none (some (noted s (noteId l.length) r)) db' := by
    refine .record hrecord auditing_reads (readingOf_spending r hr) fun t head' hl' => ?_
    cases hload.symm.trans hl'
    exact hmeets
  obtain ⟨t, head', hl', hcall, -⟩ := recordAuxiliary_call hrecord
  have hhost : HostRun (fun _ _ => True) db w db' (w.setSession (noted s (noteId l.length) r)) :=
    HostRun.step .refl (.call hcall rfl fun _ _ _ => trivial)
  have hid : (noted s (noteId l.length) r).id = sessionId := h.id
  refine ⟨⟨db', _, hrun.step hstep, hhost.represents hrep, ?_⟩, hid, noted_spent h.request _ r, ?_, ?_⟩
  · have hget := World.setSession_get w (noted s (noteId l.length) r)
    rw [hid] at hget
    exact hget
  · show s.revision + 1 = 3 + (l ++ [r]).length
    rw [hrevision, List.length_append, List.length_singleton]
    omega
  · intro n hn hle
    rw [List.length_append, List.length_singleton] at hle
    show (s.operations.insert (noteId l.length) _)[noteId n]? = none
    rw [Tally.get_insert, if_neg ?_]
    · exact h.unused n hn (by omega)
    · intro heq
      have heq := congrArg (fun u : Uuid => u.bits.toNat) heq
      simp only [noteId, BitVec.toNat_ofNat] at heq
      omega

theorem readingOf_spent (hl : ∀ r ∈ l, r ∈ spending) : (spent l).records.map readingOf = l.map some := by
  show (l.map recordDigest).map readingOf = l.map some
  rw [List.map_map]
  refine List.map_congr_left fun r hr => ?_
  rw [Function.comp_apply, readingOf_spending r (hl r hr)]

theorem Audited.reported {l : List AuxiliaryRecord} {s : SessionState}
    (h : Audited (Reported readingOf) l s) (hl : ∀ r ∈ l, r ∈ spending) (hreports : Reports l)
    (r : AuxiliaryRecord) : Reported readingOf s ordinaryId r := by
  intro _ x log hx hmap
  have hsame : l.map some = log.map some := by
    rw [← readingOf_spent hl, ← hmap, Option.some.inj (h.request.symm.trans hx)]
  rwa [List.map_injective_iff.mpr (Option.some_injective _) hsame] at hreports

end Sample

open Sample

theorem auxiliary_budget_reported :
    ∃ db w s x, AuxRun readingOf (Reported readingOf) db w ∧ w.sessions sessionId = some s ∧
      s.submissions[ordinaryId]? = some x ∧
      x.records = [intendedA, reportedA, intendedB].map recordDigest ∧
      ∃ log : List AuxiliaryRecord, x.records.map readingOf = log.map some ∧
        ∀ before r after, log = before ++ r :: after → r.intent.isSome = true →
          (intents before).length < 32 ∧ reportedTokens before < 256000 ∧
          ∀ call ∈ intents before, ∃ receipt, (call, receipt) ∈ receipts before := by
  have h₁ := audited_claimed.next (by decide) (show intendedA ∈ spending by decide) rfl rfl
    (by decide +kernel) (by decide) rfl
    (audited_claimed.reported (by decide) ⟨by decide, by decide⟩ intendedA)
  have h₂ := h₁.next (by decide) (show reportedA ∈ spending by decide) rfl rfl (by decide +kernel)
    (by decide) rfl (fun hintent => nomatch hintent)
  have h₃ := h₂.next (by decide) (show intendedB ∈ spending by decide) rfl rfl (by decide +kernel)
    (by decide) rfl (h₂.reported (by decide) ⟨by decide, by decide⟩ intendedB)
  obtain ⟨db, w, hrun, -, hs⟩ := h₃.run
  exact ⟨db, w, _, _, hrun, hs, h₃.request, rfl, auxiliary_budget readingOf hrun hs h₃.request rfl⟩

/-- after a receipt without tokens the tokens of the others are not counted any more -/
theorem auxiliary_budget_unreported :
    ∃ db w s x, AuxRun readingOf (fun _ _ _ => True) db w ∧ w.sessions sessionId = some s ∧
      s.submissions[ordinaryId]? = some x ∧
      x.intent.auxiliaryLimits = some AuxiliaryLimits.default ∧
      x.records.map readingOf = [intendedA, unreportedA, intendedB, excessB, intendedC].map some ∧
      intendedC.intent = some callC ∧
      AuxiliaryLimits.default.tokens ≤ reportedTokens [intendedA, unreportedA, intendedB, excessB] := by
  have h₀ : Audited (fun _ _ _ => True) [] claimed := audited_claimed
  have h₁ := h₀.next (by decide)
    (show intendedA ∈ spending by decide) rfl rfl (by decide +kernel) (by decide) rfl trivial
  have h₂ := h₁.next (by decide) (show unreportedA ∈ spending by decide) rfl rfl (by decide +kernel)
    (by decide) rfl trivial
  have h₃ := h₂.next (by decide) (show intendedB ∈ spending by decide) rfl rfl (by decide +kernel)
    (by decide) rfl trivial
  have h₄ := h₃.next (by decide) (show excessB ∈ spending by decide) rfl rfl (by decide +kernel)
    (by decide) rfl trivial
  have h₅ := h₄.next (by decide) (show intendedC ∈ spending by decide) rfl rfl (by decide +kernel)
    (by decide) rfl trivial
  obtain ⟨db, w, hrun, -, hs⟩ := h₅.run
  exact ⟨db, w, _, _, hrun, hs, h₅.request, rfl, readingOf_spent (by decide), rfl, by decide⟩

end Orvek
