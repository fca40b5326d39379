import Mathlib.Data.List.Induction
import Orvek.Lib.Tally
import Orvek.Store.Commits

/-!
# The totals of the monitor

The monitor reads the journal in pages.  A page brings facts: what was observed of one opportunity
under one signature.  A fact that is observed again replaces the one before it, and a measure adds up
the facts of a cohort and a signature, so that it is corrected by the difference.

* `commitMeasurement`, `monitorCommitPage`   one fact, and a page in one transaction;
* `Totals`                                   the invariant: every measure is the sum of its facts;
* `monitor_totals`                           it holds after every run, and a page that is committed
                                             again, or that fails, changes nothing.
-/

set_option linter.unusedSectionVars false

namespace Orvek
open Checks Json Tally

/-! ## data -/

structure Cohort where
  target : TargetProfile
  build : Option Digest
  behavior : Digest
  release : Option Digest
  deriving DecidableEq, Repr

inductive Signature where
  | jobOutcome | unresolvedEffect | unresolvedJob | providerError | missingUsage
  | verificationFailure | userCorrection | readUnderfill | evaluatorFailure | cost
  deriving DecidableEq, Repr

inductive SignalClass where
  | operational | taskQualitySignal | evaluatorFailure
  deriving DecidableEq, Repr

def Signature.signalClass : Signature → SignalClass
  | .verificationFailure => .taskQualitySignal
  | .userCorrection => .taskQualitySignal
  | .readUnderfill => .taskQualitySignal
  | .evaluatorFailure => .evaluatorFailure
  | _ => .operational

/-- counts are `u64`, and a cost is a `u128` of 10⁻¹⁸ dollars -/
structure Measure where
  signalClass : SignalClass
  cohort : Cohort
  signature : Signature
  opportunities : Nat
  failures : Nat
  measured : Nat
  recordedUsd : Nat
  deriving DecidableEq, Repr

def Measure.new (cohort : Cohort) (signature : Signature) (opportunities failures measured : Nat) :
    Measure :=
  ⟨signature.signalClass, cohort, signature, opportunities, failures, measured, 0⟩

structure Measurement where
  identity : Digest
  value : Measure
  deriving DecidableEq, Repr

structure Sampling where
  considered : Nat
  selected : Nat
  skippedSampling : Nat
  skippedOrigin : Nat
  skippedNoHypothesis : Nat
  skippedCapacity : Nat
  deriving DecidableEq, Repr

structure MonitorStatus where
  cursor : Nat
  sampleEvery : Nat
  sampling : Sampling
  lastError : Option String
  active : Digest
  previous : Option Digest
  deriving DecidableEq, Repr

/-- what the commit of a page reads of an episode; the rest of it is only stored -/
structure Episode where
  id : Digest
  rest : List UInt8
  deriving DecidableEq, Repr

/-- the tables of the monitor; each of them replaces a row under its key -/
structure MonitorDb where
  status : MonitorStatus
  facts : BTreeMap Digest Measure
  measures : BTreeMap Digest Measure
  episodes : BTreeMap Digest Episode

/-! ## keys -/

def Channel.name : Channel → String
  | .canary => "canary"
  | .stable => "stable"

def Signature.name : Signature → String
  | .jobOutcome => "job_outcome"
  | .unresolvedEffect => "unresolved_effect"
  | .unresolvedJob => "unresolved_job"
  | .providerError => "provider_error"
  | .missingUsage => "missing_usage"
  | .verificationFailure => "verification_failure"
  | .userCorrection => "user_correction"
  | .readUnderfill => "read_underfill"
  | .evaluatorFailure => "evaluator_failure"
  | .cost => "cost"

/-- an optional digest, as it is serialized -/
def digestJson : Option Digest → Value
  | none => .null
  | some d => .string d.display

def TargetProfile.json (t : TargetProfile) : Value :=
  .object [("model", .string t.model.display), ("protocol", .string t.protocol.display),
    ("environment", .string t.environment.display), ("task_profile", .string t.taskProfile.display),
    ("channel", .string t.channel.name)]

def Cohort.json (c : Cohort) : Value :=
  .object [("target", c.target.json), ("build", digestJson c.build),
    ("behavior", .string c.behavior.display), ("release", digestJson c.release)]

section
variable [Sha256]

def Measure.key (m : Measure) : Digest :=
  Digest.ofValue (.array [m.cohort.json, .string m.signature.name])

def Measurement.key (o : Measurement) : Digest :=
  Digest.ofValue (.array [.string o.identity.display, .string o.value.signature.name])

/-! ## a page -/

/-- `checked_sub`, with the reason of an integrity error -/
def lessOr (reason : String) (a b : Nat) : Except StoreError Nat :=
  if b ≤ a then .ok (a - b) else .error (.integrity reason)

/-- a measure without a fact that is replaced -/
def Measure.withdraw (value prior : Measure) : Except StoreError Measure := do
  let opportunities ← lessOr "monitor denominator" value.opportunities prior.opportunities
  let failures ← lessOr "monitor numerator" value.failures prior.failures
  let measured ← lessOr "monitor measured count" value.measured prior.measured
  let recordedUsd ← lessOr "monitor recorded cost" value.recordedUsd prior.recordedUsd
  .ok { value with
    opportunities := opportunities, failures := failures, measured := measured
    recordedUsd := recordedUsd }

/-- a measure with a fact more; only the cost is added with a check -/
def Measure.contribute (value delta : Measure) : Except StoreError Measure := do
  refuseIf (2 ^ 128 ≤ value.recordedUsd + delta.recordedUsd)
    (StoreError.integrity "monitor cost overflow")
  .ok { value with
    opportunities := (value.opportunities + delta.opportunities) % 2 ^ 64
    failures := (value.failures + delta.failures) % 2 ^ 64
    measured := (value.measured + delta.measured) % 2 ^ 64
    recordedUsd := value.recordedUsd + delta.recordedUsd }

/-- a measure without the fact that was there before -/
def Measure.correct (value delta : Measure) : Option Measure → Except StoreError Measure
  | none => .ok value
  | some prior => do
    refuseIf (prior.cohort ≠ delta.cohort) (StoreError.integrity "monitor opportunity cohort changed")
    value.withdraw prior

def commitMeasurement (db : MonitorDb) (o : Measurement) : Except StoreError MonitorDb := do
  let delta := o.value
  let value := db.measures[delta.key]?.getD (Measure.new delta.cohort delta.signature 0 0 0)
  let value ← value.correct delta db.facts[o.key]?
  let value ← value.contribute delta
  -- a table has no more rows than it has row numbers
  refuseIf (2 ^ 63 - 1 ≤ db.facts.size ∧ o.key ∉ db.facts) StoreError.sql
  .ok { db with
    measures := db.measures.insert delta.key value
    facts := db.facts.insert o.key delta }

def finishPage (status : MonitorStatus) (episodes : List Episode) (db : MonitorDb) : MonitorDb :=
  { db with
    status := status
    episodes := episodes.foldl (fun known e => known.insertIfNew e.id e) db.episodes }

def monitorCommitPage (commit : Except StoreError Unit) (status : MonitorStatus)
    (measures : List Measurement) (episodes : List Episode) (db : MonitorDb) :
    Except StoreError Unit × MonitorDb :=
  transaction commit (fun db => do
    let db ← measures.foldlM commitMeasurement db
    .ok ((), finishPage status episodes db)) db

/-! ## quantities -/

/-- what a measure adds up -/
inductive Quantity where
  | opportunities | failures | measured | recordedUsd
  deriving DecidableEq, Repr

def Measure.amount (m : Measure) : Quantity → Nat
  | .opportunities => m.opportunities
  | .failures => m.failures
  | .measured => m.measured
  | .recordedUsd => m.recordedUsd

/-- what a measure is about -/
structure Measure.Alike (m m' : Measure) : Prop where
  signalClass : m'.signalClass = m.signalClass
  cohort : m'.cohort = m.cohort
  signature : m'.signature = m.signature

theorem Measure.Alike.eq {m m' : Measure} (h : m.Alike m') (hq : ∀ q, m'.amount q = m.amount q) :
    m' = m := by
  cases m
  cases m'
  obtain ⟨h₁, h₂, h₃⟩ := h
  simp only at h₁ h₂ h₃
  have h₄ := hq .opportunities
  have h₅ := hq .failures
  have h₆ := hq .measured
  have h₇ := hq .recordedUsd
  simp only [Measure.amount] at h₄ h₅ h₆ h₇
  rw [h₁, h₂, h₃, h₄, h₅, h₆, h₇]

/-- what is stored of a sum: the counts are added as `u64` without a check, the cost with one -/
def Quantity.stored : Quantity → Nat → Nat
  | .recordedUsd, n => n
  | _, n => n % 2 ^ 64

theorem Quantity.stored_of_lt (q : Quantity) {n : Nat} (h : n < 2 ^ 64) : q.stored n = n := by
  cases q with
  | recordedUsd => rfl
  | opportunities => exact Nat.mod_eq_of_lt h
  | failures => exact Nat.mod_eq_of_lt h
  | measured => exact Nat.mod_eq_of_lt h

theorem Quantity.stored_replaced (q : Quantity) {rest sum sum' old new : Nat}
    (hrest : rest + old = q.stored sum) (hsum : sum' + old = sum + new) :
    q.stored (rest + new) = q.stored sum' := by
  cases q with
  | recordedUsd =>
    change rest + old = sum at hrest
    show rest + new = sum'
    omega
  | opportunities =>
    change rest + old = sum % 2 ^ 64 at hrest
    show (rest + new) % 2 ^ 64 = sum' % 2 ^ 64
    omega
  | failures =>
    change rest + old = sum % 2 ^ 64 at hrest
    show (rest + new) % 2 ^ 64 = sum' % 2 ^ 64
    omega
  | measured =>
    change rest + old = sum % 2 ^ 64 at hrest
    show (rest + new) % 2 ^ 64 = sum' % 2 ^ 64
    omega

/-- what is stored under a key -/
def amountAt (measures : BTreeMap Digest Measure) (k : Digest) (q : Quantity) : Nat :=
  (measures[k]?.map (·.amount q)).getD 0

def sumOf (facts : BTreeMap Digest Measure) (k : Digest) (q : Quantity) : Nat :=
  total (fun m => if m.key = k then m.amount q else 0) facts

theorem lessOr_ok {reason : String} {a b c : Nat} (h : lessOr reason a b = .ok c) : c + b = a := by
  unfold lessOr at h
  split at h
  · cases h
    omega
  · cases h

variable {value v : Measure}

theorem Measure.withdraw_ok {prior : Measure} (h : value.withdraw prior = .ok v) :
    value.Alike v ∧ ∀ q, v.amount q + prior.amount q = value.amount q := by
  obtain ⟨a, ha, h⟩ := bind_ok h
  obtain ⟨b, hb, h⟩ := bind_ok h
  obtain ⟨c, hc, h⟩ := bind_ok h
  obtain ⟨d, hd, h⟩ := bind_ok h
  cases h
  refine ⟨⟨rfl, rfl, rfl⟩, fun q => ?_⟩
  cases q with
  | opportunities => exact lessOr_ok ha
  | failures => exact lessOr_ok hb
  | measured => exact lessOr_ok hc
  | recordedUsd => exact lessOr_ok hd

variable {delta : Measure}

theorem Measure.contribute_alike (h : value.contribute delta = .ok v) : value.Alike v := by
  obtain ⟨-, h⟩ := refuseIf_bind h
  cases h
  exact ⟨rfl, rfl, rfl⟩

theorem Measure.contribute_ok (h : value.contribute delta = .ok v) (q : Quantity) :
    v.amount q = q.stored (value.amount q + delta.amount q) := by
  obtain ⟨-, h⟩ := refuseIf_bind h
  cases h
  cases q with
  | opportunities => rfl
  | failures => rfl
  | measured => rfl
  | recordedUsd => rfl

theorem Measure.correct_ok {prior : Option Measure} (h : value.correct delta prior = .ok v) :
    value.Alike v ∧ (∀ p, prior = some p → p.cohort = delta.cohort) ∧
      ∀ q, v.amount q + (prior.map (·.amount q)).getD 0 = value.amount q := by
  cases prior with
  | none =>
    cases h
    exact ⟨⟨rfl, rfl, rfl⟩, fun _ hp => (nomatch hp), fun _ => rfl⟩
  | some p =>
    obtain ⟨hcohort, h⟩ := refuseIf_bind h
    obtain ⟨halike, hq⟩ := withdraw_ok h
    refine ⟨halike, fun p' hp' => ?_, hq⟩
    cases hp'
    exact not_not.mp hcohort

theorem amount_getD (m : Option Measure) (cohort : Cohort) (signature : Signature) (q : Quantity) :
    (m.getD (Measure.new cohort signature 0 0 0)).amount q = (m.map (·.amount q)).getD 0 := by
  cases m with
  | some m => rfl
  | none => cases q <;> rfl

section
variable {db db' : MonitorDb} {o : Measurement} {log : List Measurement}

/-- the measure that a fact is added to -/
def measureOf (db : MonitorDb) (o : Measurement) : Measure :=
  db.measures[o.value.key]?.getD (Measure.new o.value.cohort o.value.signature 0 0 0)

theorem commitMeasurement_writes (hc : commitMeasurement db o = .ok db') :
    ∃ v, (measureOf db o).Alike v ∧ db' = { db with
      measures := db.measures.insert o.value.key v, facts := db.facts.insert o.key o.value } := by
  obtain ⟨u, hu, hc⟩ := bind_ok hc
  obtain ⟨v, hv, hc⟩ := bind_ok hc
  obtain ⟨-, hc⟩ := refuseIf_bind hc
  cases hc
  have hlike := (Measure.correct_ok hu).1
  have hlike' := Measure.contribute_alike hv
  exact ⟨v, ⟨hlike'.signalClass.trans hlike.signalClass, hlike'.cohort.trans hlike.cohort,
    hlike'.signature.trans hlike.signature⟩, rfl⟩

theorem commitMeasurement_adds (hc : commitMeasurement db o = .ok db') :
    (∀ p, db.facts[o.key]? = some p → p.cohort = o.value.cohort) ∧
      ∀ q, ∃ rest, rest + (db.facts[o.key]?.map (·.amount q)).getD 0 =
          amountAt db.measures o.value.key q ∧
        amountAt db'.measures o.value.key q = q.stored (rest + o.value.amount q) := by
  obtain ⟨u, hu, hc⟩ := bind_ok hc
  obtain ⟨v, hv, hc⟩ := bind_ok hc
  obtain ⟨-, hc⟩ := refuseIf_bind hc
  cases hc
  obtain ⟨-, hcohort, hless⟩ := Measure.correct_ok hu
  refine ⟨hcohort, fun q => ⟨u.amount q, ?_, ?_⟩⟩
  · rw [hless q, amount_getD]
    rfl
  · show ((db.measures.insert o.value.key v)[o.value.key]?.map (·.amount q)).getD 0 = _
    rw [get_insert, if_pos rfl, Option.map_some, Option.getD_some]
    exact Measure.contribute_ok hv q

/-! ## the invariant -/

/-- the hash tells the facts and the cohorts of a run apart -/
structure CollisionFree (log : List Measurement) : Prop where
  facts : ∀ a ∈ log, ∀ b ∈ log, a.key = b.key →
    a.identity = b.identity ∧ a.value.signature = b.value.signature
  measures : ∀ a ∈ log, ∀ b ∈ log, a.value.key = b.value.key →
    a.value.cohort = b.value.cohort ∧ a.value.signature = b.value.signature

/-- every measure is the sum of its facts, as it is stored -/
structure Totals (db : MonitorDb) (log : List Measurement) : Prop where
  sums : ∀ k q, amountAt db.measures k q = q.stored (sumOf db.facts k q)
  logged : ∀ (f : Digest) (v : Measure), db.facts[f]? = some v → ∃ o ∈ log, o.key = f ∧ o.value = v
  measured : ∀ (f : Digest) (v : Measure), db.facts[f]? = some v → v.key ∈ db.measures
  labelled : ∀ (k : Digest) (m : Measure), db.measures[k]? = some m → ∃ o ∈ log, o.value.key = k ∧
    m.cohort = o.value.cohort ∧ m.signature = o.value.signature

theorem sumOf_insert (facts : BTreeMap Digest Measure) (f : Digest) (v : Measure) (k : Digest)
    (q : Quantity) (hprior : ∀ p, facts[f]? = some p → p.key = v.key) :
    sumOf (facts.insert f v) k q + (if v.key = k then (facts[f]?.map (·.amount q)).getD 0 else 0) =
      sumOf facts k q + if v.key = k then v.amount q else 0 := by
  have hsum := total_insert (fun m : Measure => if m.key = k then m.amount q else 0) facts f v
  rw [sumOf, sumOf, ← hsum]
  congr 1
  cases hp : facts[f]? with
  | none => simp
  | some p =>
    rw [Option.map_some, Option.getD_some, Option.map_some, Option.getD_some, hprior p hp]

attribute [grind =] amountAt

/-- **A fact that is committed keeps the totals.** -/
theorem Totals.commit (h : Totals db log) (hfree : CollisionFree log) (hlog : o ∈ log)
    (hc : commitMeasurement db o = .ok db') : Totals db' log := by
  obtain ⟨hcohort, hamount⟩ := commitMeasurement_adds hc
  obtain ⟨v, hlike, rfl⟩ := commitMeasurement_writes hc
  -- the fact that is replaced belongs to the same measure
  have hprior : ∀ p, db.facts[o.key]? = some p → p.key = o.value.key := by
    intro p hp
    obtain ⟨o', ho', hkey, rfl⟩ := h.logged o.key p hp
    rw [Measure.key, Measure.key, hcohort _ hp, (hfree.facts o' ho' o hlog hkey).2]
  refine ⟨fun k q => ?_, fun f w hw => ?_, fun f w hw => ?_, fun k m hm => ?_⟩
  · have hsum := sumOf_insert db.facts o.key o.value k q hprior
    show amountAt (db.measures.insert o.value.key v) k q =
      q.stored (sumOf (db.facts.insert o.key o.value) k q)
    by_cases he : o.value.key = k
    · subst he
      rw [if_pos rfl, if_pos rfl] at hsum
      obtain ⟨rest, hrest, hv⟩ := hamount q
      exact hv.trans (q.stored_replaced (hrest.trans (h.sums _ q)) hsum)
    · rw [if_neg he, if_neg he] at hsum
      rw [amountAt, get_insert, if_neg (Ne.symm he), Nat.add_right_cancel hsum]
      exact h.sums k q
  · simp only [get_insert] at hw
    split at hw
    · rename_i he
      cases hw
      exact ⟨o, hlog, he.symm, rfl⟩
    · exact h.logged f w hw
  · simp only [get_insert] at hw
    rw [Std.ExtTreeMap.mem_insert]
    split at hw
    · cases hw
      exact .inl Std.ReflOrd.compare_self
    · exact .inr (h.measured f w hw)
  · simp only [get_insert] at hm
    split at hm
    · rename_i he
      cases hm
      refine ⟨o, hlog, he.symm, ?_⟩
      rw [hlike.cohort, hlike.signature, measureOf]
      cases hold : db.measures[o.value.key]? with
      | none => exact ⟨rfl, rfl⟩
      | some old =>
        obtain ⟨o', ho', hkey, hc', hs'⟩ := h.labelled _ old hold
        obtain ⟨hc'', hs''⟩ := hfree.measures o' ho' o hlog hkey
        exact ⟨hc'.trans hc'', hs'.trans hs''⟩
    · exact h.labelled k m hm

theorem Totals.mono (h : Totals db log) (log' : List Measurement) : Totals db (log ++ log') where
  sums := h.sums
  logged f v hv := by
    obtain ⟨o, ho, hof⟩ := h.logged f v hv
    exact ⟨o, List.mem_append_left log' ho, hof⟩
  measured := h.measured
  labelled k m hm := by
    obtain ⟨o, ho, hom⟩ := h.labelled k m hm
    exact ⟨o, List.mem_append_left log' ho, hom⟩

theorem CollisionFree.left {log' : List Measurement} (h : CollisionFree (log ++ log')) :
    CollisionFree log where
  facts a ha b hb := h.facts a (List.mem_append_left _ ha) b (List.mem_append_left _ hb)
  measures a ha b hb := h.measures a (List.mem_append_left _ ha) b (List.mem_append_left _ hb)

/-! ## pages -/

variable {page : List Measurement}

def lastOf (page : List Measurement) (k : Digest) : Option Measure :=
  ((page.filter fun o => o.key = k).getLast?).map Measurement.value

theorem lastOf_snoc (page : List Measurement) (o : Measurement) (k : Digest) :
    lastOf (page ++ [o]) k = if o.key = k then some o.value else lastOf page k := by
  rw [lastOf, lastOf, List.filter_append]
  by_cases he : o.key = k
  · simp [he]
  · simp [he]

/-- what a page that is committed leaves: its last facts, and measures of the same kind -/
structure PageWritten (page : List Measurement) (db db' : MonitorDb) : Prop where
  facts : ∀ k : Digest, db'.facts[k]? = (lastOf page k).or db.facts[k]?
  kept : ∀ (k : Digest) (m : Measure), db.measures[k]? = some m →
    ∃ m', db'.measures[k]? = some m' ∧ m.Alike m'
  known : ∀ k ∈ db'.measures, k ∈ db.measures ∨ ∃ o ∈ page, o.value.key = k
  status : db'.status = db.status
  episodes : db'.episodes = db.episodes

theorem page_written (hc : page.foldlM commitMeasurement db = .ok db') : PageWritten page db db' := by
  induction page using List.reverseRecOn generalizing db' with
  | nil =>
    cases hc
    exact ⟨fun _ => rfl, fun k m hm => ⟨m, hm, rfl, rfl, rfl⟩, fun k hk => .inl hk, rfl, rfl⟩
  | append_singleton page o ih =>
    rw [List.foldlM_append] at hc
    obtain ⟨db₁, h₁, hc⟩ := bind_ok hc
    rw [List.foldlM_cons] at hc
    obtain ⟨db₂, h₂, hc⟩ := bind_ok hc
    cases hc
    have hw := ih h₁
    obtain ⟨v, hlike, rfl⟩ := commitMeasurement_writes h₂
    refine ⟨fun k => ?_, fun k m hm => ?_, fun k hk => ?_, hw.status, hw.episodes⟩
    · rw [lastOf_snoc, get_insert, hw.facts]
      by_cases he : o.key = k
      · rw [if_pos he, if_pos he.symm]
        rfl
      · rw [if_neg he, if_neg (Ne.symm he)]
    · obtain ⟨m₁, hm₁, hlike₁⟩ := hw.kept k m hm
      simp only [get_insert]
      split
      · rename_i he
        subst he
        rw [measureOf, hm₁, Option.getD_some] at hlike
        exact ⟨v, rfl, hlike.signalClass.trans hlike₁.signalClass, hlike.cohort.trans hlike₁.cohort,
          hlike.signature.trans hlike₁.signature⟩
      · exact ⟨m₁, hm₁, hlike₁⟩
    · rw [Std.ExtTreeMap.mem_insert] at hk
      rcases hk with hk | hk
      · rw [Std.LawfulEqOrd.compare_eq_iff_eq] at hk
        exact .inr ⟨o, by simp, hk⟩
      · rcases hw.known k hk with hk | ⟨o', ho', hk⟩
        · exact .inl hk
        · exact .inr ⟨o', List.mem_append_left _ ho', hk⟩

theorem Totals.of_page (h : Totals db log) (hfree : CollisionFree log) (hlog : ∀ o ∈ page, o ∈ log)
    (hc : page.foldlM commitMeasurement db = .ok db') : Totals db' log := by
  induction page generalizing db with
  | nil =>
    cases hc
    exact h
  | cons o page ih =>
    rw [List.foldlM_cons] at hc
    obtain ⟨db₁, h₁, hc⟩ := bind_ok hc
    exact ih (h.commit hfree (hlog o List.mem_cons_self) h₁)
      (fun o' ho' => hlog o' (List.mem_cons_of_mem o ho')) hc

theorem page_cohort (hc : page.foldlM commitMeasurement db = .ok db') {f : Digest} {p : Measure}
    (hp : db.facts[f]? = some p) : ∀ o ∈ page, o.key = f → o.value.cohort = p.cohort := by
  induction page generalizing db p with
  | nil => exact fun o ho => nomatch ho
  | cons o page ih =>
    rw [List.foldlM_cons] at hc
    obtain ⟨db₁, h₁, hc⟩ := bind_ok hc
    obtain ⟨u, hu, -⟩ := bind_ok h₁
    have hcohort := (Measure.correct_ok hu).2.1
    obtain ⟨v, -, rfl⟩ := commitMeasurement_writes h₁
    intro o' ho' hkey
    by_cases he : o.key = f
    · have hfirst := hcohort p (by rw [he]; exact hp)
      rcases List.mem_cons.mp ho' with rfl | ho'
      · exact hfirst.symm
      · exact (ih hc (p := o.value) (by simp [he]) o' ho' hkey).trans hfirst.symm
    · rcases List.mem_cons.mp ho' with rfl | ho'
      · exact absurd hkey he
      · refine ih hc (p := p) ?_ o' ho' hkey
        show (db.facts.insert o.key o.value)[f]? = some p
        rw [get_insert, if_neg (Ne.symm he)]
        exact hp

/-- **Facts that are stored already add nothing.** -/
theorem Totals.repeated (h : Totals db log) (hfree : CollisionFree log) (hlog : ∀ o ∈ page, o ∈ log)
    (hstored : ∀ o ∈ page, db.facts[o.key]? = lastOf page o.key)
    (hc : page.foldlM commitMeasurement db = .ok db') : db' = db := by
  have hw := page_written hc
  have hfacts : db'.facts = db.facts := by
    refine Std.ExtTreeMap.ext_getElem? fun k => ?_
    rw [hw.facts]
    cases hlast : lastOf page k with
    | none => rfl
    | some v =>
      obtain ⟨o, ho, -⟩ := Option.map_eq_some_iff.mp hlast
      obtain ⟨hmem, hkey⟩ := List.mem_filter.mp (List.mem_of_getLast? ho)
      rw [decide_eq_true_eq] at hkey
      rw [← hkey, hstored o hmem, hkey, hlast]
      rfl
  have htotals := h.of_page hfree hlog hc
  have hmeasures : db'.measures = db.measures := by
    refine Std.ExtTreeMap.ext_getElem? fun k => ?_
    cases hold : db.measures[k]? with
    | some m =>
      obtain ⟨m', hm', hlike⟩ := hw.kept k m hold
      rw [hm']
      refine congrArg some (hlike.eq fun q => ?_)
      have hq := htotals.sums k q
      rw [hfacts, ← h.sums k q, amountAt, amountAt, hm', hold] at hq
      exact hq
    | none =>
      -- a measure of the page is there, since its fact is
      refine Std.ExtTreeMap.getElem?_eq_none fun hk => ?_
      have hout : k ∉ db.measures := by
        rw [Std.ExtTreeMap.mem_iff_isSome_getElem?, hold]
        simp
      rcases hw.known k hk with hk | ⟨o, ho, hk⟩
      · exact hout hk
      · have hlast : db.facts[o.key]? = lastOf page o.key := hstored o ho
        obtain ⟨v, hv⟩ : ∃ v, lastOf page o.key = some v := by
          have hmem : o ∈ page.filter fun o' => o'.key = o.key := List.mem_filter.mpr ⟨ho, by simp⟩
          exact ⟨_, by rw [lastOf, List.getLast?_eq_some_getLast (List.ne_nil_of_mem hmem)]; rfl⟩
        rw [hv] at hlast
        obtain ⟨o', ho', hkey, rfl⟩ := h.logged _ _ hlast
        have hcohort := page_cohort hc hlast o ho rfl
        have hsignature := (hfree.facts o' ho' o (hlog o ho) hkey).2
        have hsame : o'.value.key = k := by
          rw [← hk, Measure.key, Measure.key, hcohort, hsignature]
        exact hout (hsame ▸ h.measured _ _ hlast)
  cases db
  cases db'
  simp only at hfacts hmeasures
  have hstatus := hw.status
  have hepisodes := hw.episodes
  simp only at hstatus hepisodes
  rw [hfacts, hmeasures, hstatus, hepisodes]

/-! ## runs -/

/-- the host commits a page, or it writes the status or an episode without one -/
inductive MonitorStep (db : MonitorDb) : List Measurement → MonitorDb → Prop
  | page (commit : Except StoreError Unit) (status : MonitorStatus) {page : List Measurement}
      (episodes : List Episode) :
      MonitorStep db page (monitorCommitPage commit status page episodes db).2
  | elsewhere (status : MonitorStatus) (episodes : BTreeMap Digest Episode) :
      MonitorStep db [] { db with status := status, episodes := episodes }

/-- the tables after a run, and the facts that its pages brought -/
inductive MonitorReachable : MonitorDb → List Measurement → Prop
  | start (status : MonitorStatus) : MonitorReachable ⟨status, ∅, ∅, ∅⟩ []
  | step {db db' : MonitorDb} {log page : List Measurement} (h : MonitorReachable db log)
      (hs : MonitorStep db page db') : MonitorReachable db' (log ++ page)

theorem totals_empty (status : MonitorStatus) : Totals ⟨status, ∅, ∅, ∅⟩ [] where
  sums k q := by
    rw [sumOf, total_empty, q.stored_of_lt (Nat.two_pow_pos 64), amountAt]
    simp
  logged f v h := by simp at h
  measured f v h := by simp at h
  labelled k m h := by simp at h

attribute [grind =] monitorCommitPage

theorem MonitorReachable.totals (h : MonitorReachable db log) (hfree : CollisionFree log) :
    Totals db log := by
  induction h with
  | start status => exact totals_empty status
  | @step db db' log page h hs ih =>
    have hbefore := ih hfree.left
    cases hs with
    | elsewhere status episodes =>
      have hsame : Totals db (log ++ []) := hbefore.mono []
      exact ⟨hsame.sums, hsame.logged, hsame.measured, hsame.labelled⟩
    | page commit status episodes =>
      have hsame := hbefore.mono page
      unfold monitorCommitPage
      rcases transaction_cases commit _ db with ⟨u, db₂, hbody, ht⟩ | ⟨e, ht⟩
      · rw [ht]
        obtain ⟨db₁, hfold, hbody⟩ := bind_ok hbody
        cases hbody
        have hafter := hsame.of_page hfree (fun o ho => List.mem_append_right log ho) hfold
        exact ⟨hafter.sums, hafter.logged, hafter.measured, hafter.labelled⟩
      · rw [ht]
        exact hsame

/-- what a page wrote is what is stored -/
structure StillWritten (status : MonitorStatus) (page : List Measurement) (episodes : List Episode)
    (db : MonitorDb) : Prop where
  facts : ∀ o ∈ page, db.facts[o.key]? = lastOf page o.key
  episodes : ∀ e ∈ episodes, e.id ∈ db.episodes
  status : db.status = status

theorem mem_insertIfNew (known : BTreeMap Digest Episode) (e : Episode) (k : Digest) :
    k ∈ known.insertIfNew e.id e ↔ e.id = k ∨ k ∈ known := by
  rw [Std.ExtTreeMap.mem_insertIfNew, Std.LawfulEqOrd.compare_eq_iff_eq]

variable {episodes : List Episode}

theorem mem_episodes {known : BTreeMap Digest Episode} {k : Digest} :
    k ∈ episodes.foldl (fun known e => known.insertIfNew e.id e) known ↔
      k ∈ known ∨ ∃ e ∈ episodes, e.id = k := by
  induction episodes generalizing known with
  | nil => simp
  | cons e episodes ih =>
    rw [List.foldl_cons, ih, mem_insertIfNew]
    simp only [List.mem_cons, exists_eq_or_imp]
    tauto

theorem episodes_known {known : BTreeMap Digest Episode} (h : ∀ e ∈ episodes, e.id ∈ known) :
    episodes.foldl (fun known e => known.insertIfNew e.id e) known = known := by
  induction episodes with
  | nil => rfl
  | cons e episodes ih =>
    have hsame : known.insertIfNew e.id e = known := by
      refine Std.ExtTreeMap.ext_getElem? fun k => ?_
      rw [Std.ExtTreeMap.getElem?_insertIfNew, if_neg]
      rintro ⟨-, hnew⟩
      exact hnew (h e List.mem_cons_self)
    rw [List.foldl_cons, hsame]
    exact ih fun e' he' => h e' (List.mem_cons_of_mem e he')

theorem StillWritten.committed {commit : Except StoreError Unit} {status : MonitorStatus}
    (hc : (monitorCommitPage commit status page episodes db).1 = .ok ()) :
    StillWritten status page episodes (monitorCommitPage commit status page episodes db).2 := by
  unfold monitorCommitPage at hc ⊢
  rcases transaction_cases commit _ db with ⟨u, db₂, hbody, ht⟩ | ⟨e, ht⟩
  · rw [ht]
    obtain ⟨db₁, hfold, hbody⟩ := bind_ok hbody
    cases hbody
    refine ⟨fun o ho => ?_, fun e he => mem_episodes.mpr (.inr ⟨e, he, rfl⟩), rfl⟩
    show db₁.facts[o.key]? = _
    rw [(page_written hfold).facts]
    cases hlast : lastOf page o.key with
    | some v => rfl
    | none =>
      have hmem : o ∈ page.filter fun o' => o'.key = o.key := List.mem_filter.mpr ⟨ho, by simp⟩
      rw [lastOf, List.getLast?_eq_some_getLast (List.ne_nil_of_mem hmem)] at hlast
      cases hlast
  · rw [ht] at hc
    cases hc

theorem Totals.recommitted (h : Totals db log) (hfree : CollisionFree log) (commit : Except StoreError Unit)
    {status : MonitorStatus} (hlog : ∀ o ∈ page, o ∈ log) (hw : StillWritten status page episodes db) :
    (monitorCommitPage commit status page episodes db).2 = db := by
  unfold monitorCommitPage
  rcases transaction_cases commit _ db with ⟨u, db₂, hbody, ht⟩ | ⟨e, ht⟩
  · rw [ht]
    obtain ⟨db₁, hfold, hbody⟩ := bind_ok hbody
    cases hbody
    have hsame := h.repeated hfree hlog hw.facts hfold
    subst hsame
    show finishPage status episodes db₁ = db₁
    rw [finishPage, episodes_known hw.episodes, ← hw.status]
  · rw [ht]

theorem Totals.sum_eq (h : Totals db log) (hfree : CollisionFree log) {k : Digest} {m : Measure}
    (hm : db.measures[k]? = some m) (q : Quantity) :
    m.amount q = q.stored (((valuesOf db.facts).filter fun v =>
      v.cohort = m.cohort ∧ v.signature = m.signature).map (·.amount q)).sum := by
  have hsum := h.sums k q
  rw [amountAt, hm, Option.map_some, Option.getD_some, sumOf, total] at hsum
  rw [hsum, valuesOf, List.filter_map, List.map_map]
  congr 1
  obtain ⟨o, ho, hkey, hcohort, hsignature⟩ := h.labelled k m hm
  have hall : ∀ e ∈ db.facts.toList, e.2.key = k ↔ e.2.cohort = m.cohort ∧ e.2.signature = m.signature := by
    intro e he
    obtain ⟨o', ho', -, hval⟩ := h.logged e.1 e.2 (mem_toList.mp he)
    rw [← hval]
    constructor
    · intro hk
      rw [hcohort, hsignature]
      exact hfree.measures o' ho' o ho (hk.trans hkey.symm)
    · rintro ⟨hc, hs⟩
      rw [← hkey, Measure.key, Measure.key, hc, hs, hcohort, hsignature]
  revert hall
  generalize db.facts.toList = l
  intro hall
  induction l with
  | nil => rfl
  | cons e l ih =>
    rw [List.map_cons, List.sum_cons, ih fun e' he' => hall e' (List.mem_cons_of_mem e he'),
      List.filter_cons]
    have he := hall e List.mem_cons_self
    by_cases hk : e.2.key = k
    · simp [hk, he.mp hk]
    · rw [if_neg hk, Nat.zero_add, if_neg]
      rw [Function.comp_apply, decide_eq_true_eq]
      exact fun hx => hk (he.mpr hx)

/-! ## the totals -/

/-- **Every measure is the sum of its facts**, the counts modulo `2 ^ 64`, and every fact has its
measure.  A page that fails changes nothing, and neither does one that is committed again while what
it wrote is still stored. -/
theorem monitor_totals (h : MonitorReachable db log) (hfree : CollisionFree log) :
    (∀ (k : Digest) (m : Measure), db.measures[k]? = some m → ∀ q,
      m.amount q = q.stored (((valuesOf db.facts).filter fun v =>
        v.cohort = m.cohort ∧ v.signature = m.signature).map (·.amount q)).sum) ∧
    (∀ (f : Digest) (v : Measure), db.facts[f]? = some v → ∃ m, db.measures[v.key]? = some m) ∧
    (∀ commit status page episodes e, (monitorCommitPage commit status page episodes db).1 = .error e →
      (monitorCommitPage commit status page episodes db).2 = db) ∧
    (∀ commit status page episodes, (monitorCommitPage commit status page episodes db).1 = .ok () →
      StillWritten status page episodes (monitorCommitPage commit status page episodes db).2) ∧
    ∀ commit status page episodes, (∀ o ∈ page, o ∈ log) → StillWritten status page episodes db →
      (monitorCommitPage commit status page episodes db).2 = db := by
  have htotals := h.totals hfree
  refine ⟨fun k m hm q => htotals.sum_eq hfree hm q, fun f v hv => ?_,
    fun commit status page episodes e he => ?_, fun _ _ _ _ hc => .committed hc,
    fun commit _ _ _ hlog hw => htotals.recommitted hfree commit hlog hw⟩
  · exact Option.isSome_iff_exists.mp
      (Std.ExtTreeMap.mem_iff_isSome_getElem?.mp (htotals.measured f v hv))
  · unfold monitorCommitPage at he ⊢
    rcases transaction_cases commit _ db with ⟨u, db₂, -, ht⟩ | ⟨e', ht⟩
    · rw [ht] at he
      cases he
    · rw [ht]

end

end

/-! ## an evaluation for examples -/

namespace Sample

def cohort : Cohort := ⟨⟨⟨0⟩, ⟨0⟩, ⟨0⟩, ⟨0⟩, .stable⟩, none, ⟨0⟩, none⟩

/-- what the host notes when an evaluation begins and when it fails -/
def evaluationBegun : Measurement := ⟨⟨1⟩, Measure.new cohort .evaluatorFailure 1 0 0⟩
def evaluationFailed : Measurement := ⟨⟨1⟩, Measure.new cohort .evaluatorFailure 1 1 1⟩

def monitorStatus (cursor : Nat) : MonitorStatus := ⟨cursor, 1, ⟨0, 0, 0, 0, 0, 0⟩, none, ⟨0⟩, none⟩

def oneFact (o : Measurement) (cursor : Nat) : MonitorDb :=
  ⟨monitorStatus cursor, (∅ : BTreeMap Digest Measure).insert o.key o.value,
    (∅ : BTreeMap Digest Measure).insert o.value.key o.value, ∅⟩

theorem commits_new {db : MonitorDb} {o : Measurement} {v : Measure} (hnew : db.facts[o.key]? = none)
    (hv : (measureOf db o).contribute o.value = .ok v) (hroom : db.facts.size < 2 ^ 63 - 1) :
    commitMeasurement db o = .ok { db with
      measures := db.measures.insert o.value.key v, facts := db.facts.insert o.key o.value } := by
  have hfree : ¬ (2 ^ 63 - 1 ≤ db.facts.size ∧ o.key ∉ db.facts) := fun h => by omega
  rw [commitMeasurement, hnew]
  show ((measureOf db o).contribute o.value >>= _) = _
  rw [hv, ok_bind, refuseIf_of_not _ hfree]
  rfl

theorem begins_evaluation : monitorCommitPage (.ok ()) (monitorStatus 1) [evaluationBegun] []
    ⟨monitorStatus 0, ∅, ∅, ∅⟩ = (.ok (), oneFact evaluationBegun 1) := by
  have hone : commitMeasurement ⟨monitorStatus 0, ∅, ∅, ∅⟩ evaluationBegun =
      .ok { oneFact evaluationBegun 1 with status := monitorStatus 0 } :=
    commits_new Std.ExtTreeMap.getElem?_empty (by rw [measureOf, Std.ExtTreeMap.getElem?_empty]; rfl)
      (by simp)
  rw [monitorCommitPage, transaction, List.foldlM_cons, hone]
  rfl

theorem insert_insert (m : BTreeMap Digest Measure) (k : Digest) (v w : Measure) :
    (m.insert k v).insert k w = m.insert k w := by
  refine Std.ExtTreeMap.ext_getElem? fun a => ?_
  rw [Tally.get_insert, Tally.get_insert, Tally.get_insert]
  split <;> rfl

theorem replaces (o o' : Measurement) (hkey : o'.key = o.key) (hmeasure : o'.value.key = o.value.key)
    (hcohort : o.value.cohort = o'.value.cohort)
    (hvalue : (o.value.withdraw o.value >>= (·.contribute o'.value)) = .ok o'.value) (m n : Nat) :
    monitorCommitPage (.ok ()) (monitorStatus n) [o'] [] (oneFact o m) = (.ok (), oneFact o' n) := by
  have hone : commitMeasurement (oneFact o m) o' =
      .ok { oneFact o' n with status := monitorStatus m } := by
    obtain ⟨u, hu, hv⟩ := bind_ok hvalue
    rw [commitMeasurement]
    simp only [oneFact, hkey, hmeasure, Tally.get_insert, if_true, Option.getD_some, Measure.correct]
    rw [refuseIf_of_not _ (by simp [hcohort]), ok_bind, hu, ok_bind, hv, ok_bind,
      refuseIf_of_not _ (by simp), ok_bind, insert_insert, insert_insert]
  rw [monitorCommitPage, transaction, List.foldlM_cons, hone]
  rfl

theorem failed_keys : evaluationFailed.key = evaluationBegun.key ∧
    evaluationFailed.value.key = evaluationBegun.value.key := by
  simp only [Measurement.key, Measure.key, evaluationFailed, evaluationBegun, Measure.new, and_self]

theorem fails_evaluation (m n : Nat) : monitorCommitPage (.ok ()) (monitorStatus n) [evaluationFailed] []
    (oneFact evaluationBegun m) = (.ok (), oneFact evaluationFailed n) :=
  replaces _ _ failed_keys.1 failed_keys.2 rfl rfl m n

theorem reverts_evaluation (m n : Nat) : monitorCommitPage (.ok ()) (monitorStatus n) [evaluationBegun] []
    (oneFact evaluationFailed m) = (.ok (), oneFact evaluationBegun n) :=
  replaces _ _ failed_keys.1.symm failed_keys.2.symm rfl rfl m n

theorem reachable_failed : MonitorReachable (oneFact evaluationFailed 2)
    [evaluationBegun, evaluationFailed] := by
  have h₁ : MonitorReachable _ [evaluationBegun] := .step (.start (monitorStatus 0))
    (.page (.ok ()) (monitorStatus 1) [])
  rw [begins_evaluation] at h₁
  have h₂ : MonitorReachable (monitorCommitPage (.ok ()) (monitorStatus 2) [evaluationFailed] []
      (oneFact evaluationBegun 1)).2 ([evaluationBegun] ++ [evaluationFailed]) :=
    .step h₁ (.page (.ok ()) (monitorStatus 2) [])
  rw [fails_evaluation] at h₂
  exact h₂

theorem collisionFree_failed : CollisionFree [evaluationBegun, evaluationFailed] := by
  have hall : ∀ o ∈ [evaluationBegun, evaluationFailed], o.identity = ⟨1⟩ ∧
      o.value.cohort = cohort ∧ o.value.signature = .evaluatorFailure := by
    intro o ho
    rcases List.mem_cons.mp ho with rfl | ho
    · exact ⟨rfl, rfl, rfl⟩
    · cases List.mem_singleton.mp ho
      exact ⟨rfl, rfl, rfl⟩
  refine ⟨fun a ha b hb _ => ?_, fun a ha b hb _ => ?_⟩
  · obtain ⟨hi, -, hs⟩ := hall a ha
    obtain ⟨hi', -, hs'⟩ := hall b hb
    exact ⟨hi.trans hi'.symm, hs.trans hs'.symm⟩
  · obtain ⟨-, hc, hs⟩ := hall a ha
    obtain ⟨-, hc', hs'⟩ := hall b hb
    exact ⟨hc.trans hc'.symm, hs.trans hs'.symm⟩

def twoFacts (o o' : Measurement) (v : Measure) (cursor : Nat) : MonitorDb :=
  ⟨monitorStatus cursor, ((∅ : BTreeMap Digest Measure).insert o.key o.value).insert o'.key o'.value,
    (∅ : BTreeMap Digest Measure).insert o.value.key v, ∅⟩

theorem size_oneFact (o : Measurement) (cursor : Nat) :
    (oneFact o cursor).facts.size < 2 ^ 63 - 1 := by
  simp [oneFact, Std.ExtTreeMap.size_insert]

section
variable {o o' : Measurement} (hkey : o'.key ≠ o.key) (hmeasure : o'.value.key = o.value.key)
include hkey hmeasure

theorem commits_two {v : Measure} (hfirst : (Measure.new o.value.cohort o.value.signature 0 0 0).contribute
    o.value = .ok o.value) (hv : o.value.contribute o'.value = .ok v) (n : Nat) :
    monitorCommitPage (.ok ()) (monitorStatus n) [o, o'] [] ⟨monitorStatus 0, ∅, ∅, ∅⟩ =
      (.ok (), twoFacts o o' v n) := by
  have hone : commitMeasurement ⟨monitorStatus 0, ∅, ∅, ∅⟩ o = .ok (oneFact o 0) := by
    refine commits_new Std.ExtTreeMap.getElem?_empty ?_ (by simp)
    rw [measureOf, Std.ExtTreeMap.getElem?_empty]
    exact hfirst
  have hnew : (oneFact o 0).facts[o'.key]? = none := by
    rw [oneFact, Tally.get_insert, if_neg hkey, Std.ExtTreeMap.getElem?_empty]
  have hadd : (measureOf (oneFact o 0) o').contribute o'.value = .ok v := by
    rw [measureOf, hmeasure, oneFact, Tally.get_insert, if_pos rfl]
    exact hv
  have htwo : commitMeasurement (oneFact o 0) o' = .ok (twoFacts o o' v 0) := by
    rw [commits_new hnew hadd (size_oneFact o 0), hmeasure]
    simp only [oneFact, twoFacts, insert_insert]
  rw [monitorCommitPage, transaction, List.foldlM_cons, hone, ok_bind, List.foldlM_cons, htwo]
  rfl

theorem sumOf_two (v : Measure) (n : Nat) (q : Quantity) :
    sumOf (twoFacts o o' v n).facts o.value.key q = o.value.amount q + o'.value.amount q := by
  have hnew : ((∅ : BTreeMap Digest Measure).insert o.key o.value)[o'.key]? = none := by
    rw [Tally.get_insert, if_neg hkey, Std.ExtTreeMap.getElem?_empty]
  rw [sumOf, twoFacts, total_insert_new _ _ hnew, total_insert_new _ _ Std.ExtTreeMap.getElem?_empty,
    total_empty, hmeasure, if_pos rfl, if_pos rfl, Nat.zero_add]

end

theorem amountAt_two (o o' : Measurement) (v : Measure) (n : Nat) (q : Quantity) :
    amountAt (twoFacts o o' v n).measures o.value.key q = v.amount q := by
  rw [amountAt, twoFacts, Tally.get_insert, if_pos rfl]
  rfl

/-- half of what a count holds, twice -/
def manyJobs (n : Nat) : Measurement := ⟨⟨n⟩, Measure.new cohort .jobOutcome (2 ^ 63) 0 0⟩

/-- the count of the measure after both -/
def noJobs : Measure := Measure.new cohort .jobOutcome 0 0 0

theorem manyJobs_keys : (manyJobs 2).key ≠ (manyJobs 1).key ∧
    (manyJobs 2).value.key = (manyJobs 1).value.key :=
  ⟨by decide +kernel, by simp only [Measure.key, manyJobs, Measure.new]⟩

theorem wraps_jobs : monitorCommitPage (.ok ()) (monitorStatus 1) [manyJobs 1, manyJobs 2] []
    ⟨monitorStatus 0, ∅, ∅, ∅⟩ = (.ok (), twoFacts (manyJobs 1) (manyJobs 2) noJobs 1) :=
  commits_two manyJobs_keys.1 manyJobs_keys.2 rfl rfl 1

end Sample

open Sample in
theorem monitor_totals_failed : CollisionFree [evaluationBegun, evaluationFailed] ∧
    ∀ (k : Digest) (m : Measure), (oneFact evaluationFailed 2).measures[k]? = some m → ∀ q,
      m.amount q = q.stored (((valuesOf (oneFact evaluationFailed 2).facts).filter fun v =>
        v.cohort = m.cohort ∧ v.signature = m.signature).map (·.amount q)).sum :=
  ⟨collisionFree_failed, (monitor_totals reachable_failed collisionFree_failed).1⟩

open Sample in
/-- the page that began the evaluation is committed, then the one that ended it; when the first page is
committed again, the failure is gone and the cursor is back.  And two facts that add up to `2 ^ 64`
leave a count of 0. -/
theorem monitor_page_repeated_reverts :
    monitorCommitPage (.ok ()) (monitorStatus 1) [evaluationBegun] [] ⟨monitorStatus 0, ∅, ∅, ∅⟩ =
      (.ok (), oneFact evaluationBegun 1) ∧
    monitorCommitPage (.ok ()) (monitorStatus 2) [evaluationFailed] [] (oneFact evaluationBegun 1) =
      (.ok (), oneFact evaluationFailed 2) ∧
    monitorCommitPage (.ok ()) (monitorStatus 1) [evaluationBegun] [] (oneFact evaluationFailed 2) =
      (.ok (), oneFact evaluationBegun 1) ∧
    amountAt (oneFact evaluationFailed 2).measures evaluationFailed.value.key .failures = 1 ∧
    amountAt (oneFact evaluationBegun 1).measures evaluationFailed.value.key .failures = 0 ∧
    (oneFact evaluationFailed 2).status.cursor = 2 ∧ (oneFact evaluationBegun 1).status.cursor = 1 ∧
    monitorCommitPage (.ok ()) (monitorStatus 1) [manyJobs 1, manyJobs 2] []
      ⟨monitorStatus 0, ∅, ∅, ∅⟩ = (.ok (), twoFacts (manyJobs 1) (manyJobs 2) noJobs 1) ∧
    amountAt (twoFacts (manyJobs 1) (manyJobs 2) noJobs 1).measures (manyJobs 1).value.key
      .opportunities = 0 ∧
    sumOf (twoFacts (manyJobs 1) (manyJobs 2) noJobs 1).facts (manyJobs 1).value.key
      .opportunities = 2 ^ 64 := by
  refine ⟨begins_evaluation, fails_evaluation 1 2, reverts_evaluation 2 1, ?_, ?_, rfl, rfl, wraps_jobs,
    amountAt_two _ _ _ _ _, sumOf_two manyJobs_keys.1 manyJobs_keys.2 _ _ _⟩
  · rw [amountAt, oneFact, Tally.get_insert, if_pos rfl]
    rfl
  · rw [amountAt, oneFact, Tally.get_insert, if_pos failed_keys.2]
    rfl

end Orvek
