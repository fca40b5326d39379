import Orvek.Lib.Paths
import Orvek.Store.Leases
import Orvek.Workspace.Snapshot

/-!
# Verification

A check program is run on the tree of a candidate, probe after probe under one deadline, and on the
tree of a control when one is required.  What executors, trees, clocks and the cancellation do is the
`World` of a run.

* `prepare`             the ticket of a check: its program, the frozen candidate and a lease;
* `execute`             the report of a run, which every early end leaves a limitation in;
* `finish`              the observation that the report is exchanged for;
* `Justified`           when a run earns a pass, said of the run alone;
* `verdict_justified`   the observation is a pass exactly then.
-/

set_option linter.unusedSectionVars false

namespace Orvek.Verification
open Checks Json Workspace

/-! ## programs -/

inductive Expectation where
  | equals (text : String)
  | contains (text : String)
  deriving DecidableEq, Repr

def Expectation.matches (bytes : List UInt8) : Expectation → Bool
  | .equals text => decide (bytes = strBytes text)
  | .contains text => decide (text ≠ "") && decide (strBytes text <:+: bytes)

def Expectation.valid : Expectation → Bool
  | .contains text => decide (text ≠ "")
  | .equals _ => true

/-- an expectation that is not stated holds -/
def noneOr (expected : Option Expectation) (bytes : List UInt8) : Bool :=
  expected.all (·.matches bytes)

inductive Probe where
  | command (id command : String) (exitCode : Int) (stdout stderr : Option Expectation)
  | file (id path : String) (content : Digest)
  deriving DecidableEq, Repr

def Probe.id : Probe → String
  | .command id _ _ _ _ => id
  | .file id _ _ => id

structure ControlFailure where
  probe : String
  stdout : Option Expectation
  stderr : Option Expectation
  deriving DecidableEq, Repr

structure CheckProgram where
  version : Nat
  probes : List Probe
  controlFailure : Option ControlFailure
  deriving DecidableEq, Repr

def maxCommandBytes : Nat := 64 * 1024

/-- outputs of which at least one is expected, and none vacuously -/
def observable (stdout stderr : Option Expectation) : Bool :=
  (stdout.isSome || stderr.isSome) && stdout.all (·.valid) && stderr.all (·.valid)

def Probe.check : Probe → Except StoreError Unit
  | .command _ text _ stdout stderr =>
    refuseIf (blank text = true ∨ maxCommandBytes < strLen text ∨ observable stdout stderr = false)
      (StoreError.invalid
        "command probes require a bounded command and observable output expectation")
  | .file _ path _ =>
    refuseIf (path = "" ∨ (Paths.components path.toList).all Paths.Component.isNormal = false)
      (StoreError.invalid "file probe escapes candidate")

/-- the probes, after those with the ids `ids` -/
def checkProbes (ids : BTreeSet String) : List Probe → Except StoreError (BTreeSet String)
  | [] => .ok ids
  | probe :: probes => do
    refuseIf (probe.id = "" ∨ probe.id ∈ ids)
      (StoreError.invalid "verification probe IDs must be unique")
    probe.check
    checkProbes (ids.insert probe.id) probes

def CheckProgram.validate (p : CheckProgram) : Except StoreError Unit := do
  refuseIf (p.version ≠ 1 ∨ p.probes = [] ∨ 128 < p.probes.length)
    (StoreError.invalid "invalid verification program version or probe count")
  let ids ← checkProbes ∅ p.probes
  match p.controlFailure with
  | none => .ok ()
  | some control =>
    refuseIf (control.probe ∉ ids ∨ observable control.stdout control.stderr = false)
      (StoreError.invalid
        "control must name a probe and a non-empty expected behavioral failure")

/-! ## tickets -/

structure VerificationTicket where
  lease : VerificationLease
  program : CheckProgram
  candidate : Snapshot
  environment : Digest
  timeoutMs : Nat
  controlRequired : Bool
  controlKind : ControlRequirement
  controlSource : Option Digest

structure ExecutionRequest where
  jobId : Uuid
  workspace : List UInt8
  command : String
  readonly : Bool
  timeoutMs : Nat
  outputBytes : Nat

structure ExecutionResult where
  jobId : Uuid
  status : ExecutionStatus
  stdout : List UInt8
  stderr : List UInt8
  elapsedMs : Nat
  imageId : String
  containerName : String

structure ProbeReport where
  id : String
  passed : Bool
  infrastructureOk : Bool
  assertions : Nat
  stdout : List UInt8
  stderr : List UInt8
  execution : Option ExecutionResult

structure VerificationReport where
  jobId : Uuid
  probes : List ProbeReport
  control : List ProbeReport
  limitations : List String
  cancelled : Bool
  controlRequired : Bool
  controlMatched : Bool
  imageId : String
  source : Digest
  controlSource : Option Digest

/-- the artifacts as verification reads and writes them, and the digests it computes -/
class VerificationArtifacts where
  readProgram : Digest → Except StoreError CheckProgram
  loadSnapshot : Digest → Option Snapshot
  putReport : VerificationReport → Except StoreError Digest
  putControl : List ProbeReport → Except StoreError Digest
  snapshotDigest : Snapshot → Digest
  probeJobId : Uuid → String → Bool → Uuid

open VerificationArtifacts

section
variable [VerificationArtifacts]

def controlSourceOf (s : TaskState) (definition : CheckDefinition) :
    Except StoreError (Option Digest) :=
  match definition.control with
  | .none => .ok none
  | .baselineFailure => do
    let baseline ← orInvalid "baseline must be established before verification" s.baseline
    .ok (some baseline.source)
  | .negativeControl => .ok definition.controlSource

/-! ## the run -/

/-- one probe, as the world takes it: the time and the cancellation before it, and the executor -/
structure ProbeTurn where
  elapsedNs : Nat
  cancelled : Bool
  run : ExecutionRequest → Except String ExecutionResult

/-- the tree of a control: its snapshot and its path, and whether the tree is that of the snapshot -/
structure ControlTree where
  snapshot : Snapshot
  workspace : List UInt8
  before : Bool
  after : Bool
  turns : Nat → ProbeTurn

structure World where
  imageId : String
  workspace : List UInt8
  environment : Option Digest
  before : Bool
  turns : Nat → ProbeTurn
  control : Option ControlTree
  after : Bool
  cancelled : Bool

/-- the milliseconds that are left -/
def remaining (timeoutMs : Nat) (turn : ProbeTurn) : Nat :=
    (timeoutMs * 1000000 - turn.elapsedNs) / 1000000

def cleanExit : ExecutionStatus → Bool
  | .exited code => decide (code ≠ 126 ∧ code ≠ 127)
  | _ => false

def runProbe (jobId : Uuid) (snapshot : Snapshot) (workspace : List UInt8) (timeoutMs : Nat)
    (run : ExecutionRequest → Except String ExecutionResult) : Probe → ProbeReport
  | .file id path content =>
    let passed := match snapshot.entries[path]? with
      | some (.file actual _) => decide (actual = content)
      | _ => false
    ⟨id, passed, true, 1, [], [], none⟩
  | .command id command exitCode stdout stderr =>
    match run ⟨jobId, workspace, command, true, timeoutMs, 64 * 1024⟩ with
    | .ok execution =>
      let infrastructureOk := cleanExit execution.status
      let passed := decide (execution.status = .exited exitCode) && noneOr stdout execution.stdout
        &&
        noneOr stderr execution.stderr
      let assertions := infrastructureOk.toNat * (1 + stdout.isSome.toNat + stderr.isSome.toNat)
      ⟨id, passed, infrastructureOk, assertions, execution.stdout, execution.stderr, some execution⟩
    | .error error => ⟨id, false, false, 0, [], strBytes error, none⟩

/-- the probes from number `i` on, and the turn in which the loop was left -/
def runProbes (job : Uuid) (control : Bool) (snapshot : Snapshot) (workspace : List UInt8)
    (timeoutMs : Nat) (turns : Nat → ProbeTurn) :
    Nat → List Probe → List ProbeReport × Option ProbeTurn
  | _, [] => ([], none)
  | i, probe :: probes =>
    let turn := turns i
    if remaining timeoutMs turn = 0 ∨ turn.cancelled = true then ([], some turn)
    else
      let (reports, left) := runProbes job control snapshot workspace timeoutMs turns (i + 1) probes
      (runProbe (probeJobId job probe.id control) snapshot workspace (remaining timeoutMs turn)
        turn.run probe ::
        reports, left)

def matchesFailure (expected : ControlFailure) (probe : ProbeReport) : Bool :=
  decide (probe.id = expected.probe) && !probe.passed && probe.infrastructureOk &&
    noneOr expected.stdout probe.stdout && noneOr expected.stderr probe.stderr

/-- the control, when its tree is the required one -/
def runControl (ticket : VerificationTicket) (w : World) (report : VerificationReport) :
    VerificationReport :=
  match w.control.filter fun c =>
      c.before && decide (some (snapshotDigest c.snapshot) = ticket.controlSource) with
  | some c =>
    let (control, left) := runProbes ticket.lease.job true c.snapshot c.workspace ticket.timeoutMs c.turns 0
      ticket.program.probes
    { report with
      control
      controlSource := some (snapshotDigest c.snapshot)
      controlMatched := ticket.program.controlFailure.any fun expected =>
        control.any (matchesFailure expected)
      limitations := report.limitations ++
        (if left.isSome then ["negative control was interrupted"] else []) ++
        (if c.after then [] else ["control source changed during verification"]) }
  | none =>
    { report with
      limitations := report.limitations ++
        ["required baseline/control workspace unavailable or changed"] }

def execute (ticket : VerificationTicket) (w : World) : VerificationReport :=
  let report : VerificationReport :=
    ⟨ticket.lease.job, [], [], [], false, ticket.controlRequired, false, w.imageId,
      snapshotDigest ticket.candidate, none⟩
  if w.environment ≠ some ticket.environment then
    { report with limitations := ["execution environment differs from the admitted identity"] }
  else if w.before = false then
    { report with limitations := ["candidate bytes differ from the frozen manifest"] }
  else
    let (probes, left) := runProbes ticket.lease.job false ticket.candidate w.workspace ticket.timeoutMs
      w.turns 0
      ticket.program.probes
    let report := { report with
      probes
      cancelled := left.any (·.cancelled)
      limitations := if left.isSome then ["verification interrupted or deadline exhausted"] else []
        }
    let report := if ticket.controlRequired then runControl ticket w report else report
    { report with
      limitations := report.limitations ++
        (if w.after then [] else ["candidate changed during verification"])
      cancelled := report.cancelled || w.cancelled }

/-! ## the observation -/

def allObserved (ticket : VerificationTicket) (report : VerificationReport) : Bool :=
  decide (report.probes.length = ticket.program.probes.length) &&
    report.probes.all (·.infrastructureOk) && report.limitations.isEmpty

def passed (ticket : VerificationTicket) (report : VerificationReport) : Bool :=
  allObserved ticket report && report.probes.all (·.passed) &&
    (!report.controlRequired || report.controlMatched)

def statusOf (ticket : VerificationTicket) (report : VerificationReport) : CheckStatus :=
  if report.cancelled then .cancelled
  else if allObserved ticket report = false then .inconclusive
  else if passed ticket report then .passed
  else .failed

/-- the jobs of which nobody knows how they ended -/
def unreconciled (report : VerificationReport) : List Uuid :=
  (report.probes ++ report.control).filterMap fun probe => probe.execution.bind fun execution =>
    match execution.status with
    | .unknown _ => some execution.jobId
    | _ => none

def observationOf (ticket : VerificationTicket) (report : VerificationReport) (rawReport : Digest)
    (controlReport : Option Digest) : Observation where
  status := statusOf ticket report
  report := rawReport
  assertions := (report.probes.map (·.assertions)).sum
  discovered := some ticket.program.probes.length
  skipped := ticket.program.probes.length - report.probes.length
  exitCode := some (if passed ticket report then 0 else 1)
  signal := none
  control := report.controlSource.bind fun source => controlReport.map fun digest =>
    { kind := ticket.controlKind
      source
      rejected := report.control.any (!·.passed)
      intendedReason := report.controlMatched
      report := digest }
  baselineUnchanged := false
  limitations := report.limitations
  unreconciledJobs := unreconciled report

end

section
variable [Sha256] [ContractCodec] [SessionCodec] [StoreCodec] [JsonReader] [VerificationArtifacts]

def prepare (env : Env) (task : TaskId) (revision : Nat) (check : String) (token jobId : Uuid)
    (db : Db) :
    Except StoreError (VerificationTicket × Db) := do
  let (s, _) ← loadState db task
  refuseIf (s.revision ≠ revision) (StoreError.revision revision s.revision)
  let contract ← s.acceptedContract
  let definition ← orInvalid "unknown check" contract.checks[check]?
  let program ← readProgram definition.verifier
  program.validate
  let candidate ← orInvalid "missing candidate" s.candidate
  let snapshot ← orInvalid "invalid candidate snapshot" (loadSnapshot candidate.source)
  let controlRequired := decide (definition.control ≠ .none)
  let controlSource ← controlSourceOf s definition
  refuseIf (controlRequired = true ∧ program.controlFailure = none)
    (StoreError.invalid "required negative control is unspecified")
  let (lease, _, db) ← beginCheck env task revision check token jobId db
  .ok (⟨lease, program, snapshot, candidate.environment, definition.timeoutMs, controlRequired,
    definition.control, controlSource⟩, db)

def controlReportOf (report : VerificationReport) : Except StoreError (Option Digest) :=
  if report.controlRequired = true then (putControl report.control).map some else .ok none

def finish (env : Env) (ticket : VerificationTicket) (report : VerificationReport) (db : Db) :
    Except StoreError (TaskState × Db) := do
  refuseIf (report.jobId ≠ ticket.lease.job) StoreError.lease
  let rawReport ← putReport report
  let controlReport ← controlReportOf report
  finishCheck env ticket.lease (observationOf ticket report rawReport controlReport) db

end

/-! ## what earns a pass -/

/-- what an expectation asks of an output -/
def Expectation.Holds (bytes : List UInt8) : Expectation → Prop
  | .equals text => bytes = strBytes text
  | .contains text => strBytes text <:+: bytes

def Holds (expected : Option Expectation) (bytes : List UInt8) : Prop :=
    ∀ e ∈ expected, e.Holds bytes

section
variable [VerificationArtifacts]

/-- a probe is run: the deadline and the cancellation let its turn begin -/
def Runs (timeoutMs : Nat) (turn : ProbeTurn) : Prop := 0 < remaining timeoutMs turn ∧
    turn.cancelled = false

/-- what came of a probe: its outputs, and whether they and its end are the expected ones -/
inductive Outcome (jobId : Uuid) (snapshot : Snapshot) (workspace : List UInt8) (timeoutMs : Nat)
    (run : ExecutionRequest → Except String ExecutionResult) :
    Probe → Prop → List UInt8 → List UInt8 → Prop
  /-- a command that was run to its end, not one that could not be started -/
  | command {id text : String} {exitCode code : Int} {stdout stderr : Option Expectation}
      {execution : ExecutionResult} (hrun : run ⟨jobId, workspace, text, true, timeoutMs, 64 * 1024⟩ = .ok
        execution)
      (hexit : execution.status = .exited code) (hclean : code ≠ 126 ∧ code ≠ 127) :
      Outcome jobId snapshot workspace timeoutMs run (.command id text exitCode stdout stderr)
        (code = exitCode ∧ Holds stdout execution.stdout ∧ Holds stderr execution.stderr)
        execution.stdout execution.stderr
  /-- a file of the snapshot has no outputs -/
  | file {id path : String} {content : Digest} :
      Outcome jobId snapshot workspace timeoutMs run (.file id path content)
        (∃ mode, snapshot.entries[path]? = some (.file content mode)) [] []

/-- every probe ran on the candidate and found what it expects -/
def ProbesMet (ticket : VerificationTicket) (w : World) : Prop :=
  ∀ (i : Nat) (probe : Probe), ticket.program.probes[i]? = some probe →
    Runs ticket.timeoutMs (w.turns i) ∧
      ∃ met stdout stderr, Outcome (probeJobId ticket.lease.job probe.id false) ticket.candidate
        w.workspace (remaining ticket.timeoutMs (w.turns i)) (w.turns i).run probe met stdout stderr ∧ met

/-- the tree of the control is the required one throughout, every probe ran on it, and the named one
failed as expected -/
structure ControlMet (ticket : VerificationTicket) (c : ControlTree) : Prop where
  source : some (snapshotDigest c.snapshot) = ticket.controlSource
  before : c.before = true
  after : c.after = true
  ran : ∀ i < ticket.program.probes.length, Runs ticket.timeoutMs (c.turns i)
  failed : ∃ expected, ticket.program.controlFailure = some expected ∧
    ∃ (i : Nat) (probe : Probe), ticket.program.probes[i]? = some probe ∧
      probe.id = expected.probe ∧
      ∃ met stdout stderr, Outcome (probeJobId ticket.lease.job probe.id true) c.snapshot
        c.workspace (remaining ticket.timeoutMs (c.turns i)) (c.turns i).run probe met stdout stderr ∧
        ¬ met ∧ Holds expected.stdout stdout ∧ Holds expected.stderr stderr

/-- a run that earns a pass -/
structure Justified (ticket : VerificationTicket) (w : World) : Prop where
  uncancelled : w.cancelled = false
  environment : w.environment = some ticket.environment
  before : w.before = true
  after : w.after = true
  probes : ProbesMet ticket w
  control : ticket.controlRequired = true → ∃ c, w.control = some c ∧ ControlMet ticket c

/-! ## one probe -/

variable {jobId : Uuid} {snapshot : Snapshot} {workspace : List UInt8} {timeoutMs : Nat}
  {run : ExecutionRequest → Except String ExecutionResult} {probe : Probe}

theorem noneOr_iff {expected : Option Expectation} {bytes : List UInt8}
    (hvalid : expected.all (·.valid) = true) :
    noneOr expected bytes = true ↔ Holds expected bytes := by
  cases expected with
  | none => exact ⟨fun _ _ h => (nomatch h), fun _ => rfl⟩
  | some e =>
    have hone : e.matches bytes = true ↔ e.Holds bytes := by
      cases e with
      | equals text => exact decide_eq_true_iff
      | contains text =>
        have htext : text ≠ "" := of_decide_eq_true hvalid
        rw [Expectation.matches, decide_eq_true htext, Bool.true_and, decide_eq_true_iff]
        rfl
    refine hone.trans ⟨fun h e' he => ?_, fun h => h e rfl⟩
    obtain rfl := Option.some.inj he
    exact h

/-- the expectations of a probe are not vacuous -/
def Probe.Sound : Probe → Prop
  | .command _ _ _ stdout stderr => stdout.all (·.valid) = true ∧ stderr.all (·.valid) = true
  | .file _ _ _ => True

theorem runProbe_id : (runProbe jobId snapshot workspace timeoutMs run probe).id = probe.id := by
  cases probe with
  | command id text exitCode stdout stderr =>
    rw [runProbe]
    cases run ⟨jobId, workspace, text, true, timeoutMs, 64 * 1024⟩ <;> rfl
  | file => rfl

/-- **The report of a probe says what came of it.** -/
theorem runProbe_outcome (hsound : probe.Sound) :
    ((runProbe jobId snapshot workspace timeoutMs run probe).infrastructureOk = true ↔
      ∃ met stdout stderr, Outcome jobId snapshot workspace timeoutMs run probe met stdout stderr) ∧
    ∀ met stdout stderr, Outcome jobId snapshot workspace timeoutMs run probe met stdout stderr →
      ((runProbe jobId snapshot workspace timeoutMs run probe).passed = true ↔ met) ∧
        (runProbe jobId snapshot workspace timeoutMs run probe).stdout = stdout ∧
        (runProbe jobId snapshot workspace timeoutMs run probe).stderr = stderr := by
  cases probe with
  | file id path content =>
    refine ⟨⟨fun _ => ⟨_, _, _, .file⟩, fun _ => rfl⟩, ?_⟩
    rintro met stdout stderr ⟨⟩
    refine ⟨?_, rfl, rfl⟩
    show (match snapshot.entries[path]? with
      | some (.file actual _) => decide (actual = content)
      | _ => false) = true ↔ _
    rcases snapshot.entries[path]? with _ | ⟨actual, mode⟩ | mode | target
    · exact ⟨fun h => (nomatch h), fun ⟨_, h⟩ => (nomatch h)⟩
    · rw [decide_eq_true_iff]
      constructor
      · rintro rfl
        exact ⟨mode, rfl⟩
      · rintro ⟨_, h⟩
        cases h
        rfl
    · exact ⟨fun h => (nomatch h), fun ⟨_, h⟩ => (nomatch h)⟩
    · exact ⟨fun h => (nomatch h), fun ⟨_, h⟩ => (nomatch h)⟩
  | command id text exitCode stdout stderr =>
    rw [runProbe]
    rcases hrun : run ⟨jobId, workspace, text, true, timeoutMs, 64 * 1024⟩ with error | execution
    · refine ⟨⟨fun h => (nomatch h), ?_⟩, ?_⟩
      · rintro ⟨_, _, _, h⟩
        cases h with
        | command h _ _ => exact nomatch hrun.symm.trans h
      · rintro _ _ _ h
        cases h with
        | command h _ _ => exact nomatch hrun.symm.trans h
    · refine ⟨?_, ?_⟩
      · show cleanExit execution.status = true ↔ _
        constructor
        · intro h
          rcases hstatus : execution.status with code | _ | _ | _ | _ | _ <;> rw [hstatus] at h
          · exact ⟨_, _, _, .command hrun hstatus (of_decide_eq_true h)⟩
          all_goals exact nomatch h
        · rintro ⟨_, _, _, h⟩
          cases h with
          | command h hexit hclean =>
            obtain rfl := Except.ok.inj (hrun.symm.trans h)
            rw [hexit]
            exact decide_eq_true hclean
      · rintro _ _ _ h
        cases h with
        | command h hexit hclean =>
          obtain rfl := Except.ok.inj (hrun.symm.trans h)
          refine ⟨?_, rfl, rfl⟩
          show (decide (execution.status = .exited exitCode) && noneOr stdout execution.stdout &&
            noneOr stderr execution.stderr) = true ↔ _
          rw [Bool.and_eq_true, Bool.and_eq_true, decide_eq_true_iff, noneOr_iff hsound.1,
            noneOr_iff hsound.2, hexit, ExecutionStatus.exited.injEq, and_assoc]

/-! ## the loops -/

variable {job : Uuid} {control : Bool} {turns : Nat → ProbeTurn} {probes : List Probe} {i : Nat}

theorem runs_iff {turn : ProbeTurn} :
    ¬ (remaining timeoutMs turn = 0 ∨ turn.cancelled = true) ↔ Runs timeoutMs turn := by
  rw [not_or, Bool.not_eq_true]
  exact and_congr_left fun _ => Nat.pos_iff_ne_zero.symm

theorem runProbes_left : (runProbes job control snapshot workspace timeoutMs turns i probes).2 = none ↔
    ∀ j < probes.length, Runs timeoutMs (turns (i + j)) := by
  induction probes generalizing i with
  | nil => exact ⟨fun _ _ h => (nomatch h), fun _ => rfl⟩
  | cons probe probes ih =>
    rw [runProbes]
    dsimp only
    split
    · rename_i hleft
      exact ⟨fun h => (nomatch h), fun h => absurd hleft (runs_iff.mpr (h 0 (Nat.succ_pos _)))⟩
    · rename_i hruns
      rw [runs_iff] at hruns
      show (runProbes job control snapshot workspace timeoutMs turns (i + 1) probes).2 = none ↔ _
      rw [ih]
      constructor
      · intro h j hj
        cases j with
        | zero => exact hruns
        | succ j =>
          have := h j (Nat.lt_of_succ_lt_succ hj)
          rwa [Nat.add_assoc, Nat.add_comm 1] at this
      · intro h j hj
        have := h (j + 1) (Nat.succ_lt_succ hj)
        rwa [Nat.add_comm j 1, ← Nat.add_assoc] at this

/-- the reports of a loop that is not left early -/
theorem runProbes_reports (h : (runProbes job control snapshot workspace timeoutMs turns i probes).2 = none) :
    (runProbes job control snapshot workspace timeoutMs turns i probes).1.length = probes.length ∧
      ∀ (j : Nat) (report : ProbeReport),
        (runProbes job control snapshot workspace timeoutMs turns i probes).1[j]? = some report ↔
        ∃ probe, probes[j]? = some probe ∧ report = runProbe
          (probeJobId job probe.id control) snapshot workspace
          (remaining timeoutMs (turns (i + j))) (turns (i + j)).run probe := by
  induction probes generalizing i with
  | nil =>
    refine ⟨rfl, fun j report => ⟨fun h => (nomatch h), ?_⟩⟩
    rintro ⟨_, h, -⟩
    exact nomatch h
  | cons probe probes ih =>
    rw [runProbes] at h ⊢
    dsimp only at h ⊢
    split at h
    · exact nomatch h
    · rename_i hruns
      rw [if_neg hruns]
      obtain ⟨hlength, hget⟩ := ih h
      refine ⟨congrArg (· + 1) hlength, fun j report => ?_⟩
      cases j with
      | zero =>
        show some _ = some report ↔ ∃ p, some probe = some p ∧ _
        simp only [Option.some.injEq, exists_eq_left', Nat.add_zero]
        exact eq_comm
      | succ j =>
        refine (hget j report).trans ?_
        rw [Nat.add_assoc, Nat.add_comm 1]
        rfl

theorem mem_reports (h : (runProbes job control snapshot workspace timeoutMs turns 0 probes).2 = none)
    (report : ProbeReport) :
    report ∈ (runProbes job control snapshot workspace timeoutMs turns 0 probes).1 ↔
      ∃ (i : Nat) (probe : Probe), probes[i]? = some probe ∧
        report = runProbe (probeJobId job probe.id control) snapshot workspace
          (remaining timeoutMs (turns i)) (turns i).run probe := by
  rw [List.mem_iff_getElem?]
  refine exists_congr fun j => ((runProbes_reports h).2 j report).trans ?_
  rw [Nat.zero_add]

/-! ## the report -/

theorem statusOf_passed {ticket : VerificationTicket} {report : VerificationReport} :
    statusOf ticket report = .passed ↔ report.cancelled = false ∧ report.limitations = [] ∧
      report.probes.length = ticket.program.probes.length ∧
      (∀ p ∈ report.probes, p.infrastructureOk = true ∧ p.passed = true) ∧
      (report.controlRequired = true → report.controlMatched = true) := by
  have hobserved : allObserved ticket report = true ↔
      report.probes.length = ticket.program.probes.length ∧
        (∀ p ∈ report.probes, p.infrastructureOk = true) ∧ report.limitations = [] := by
    rw [allObserved, Bool.and_eq_true, Bool.and_eq_true, decide_eq_true_iff, List.all_eq_true,
      List.isEmpty_iff, and_assoc]
  have hpassed : passed ticket report = true ↔ allObserved ticket report = true ∧
      (∀ p ∈ report.probes, p.passed = true) ∧
      (report.controlRequired = true → report.controlMatched = true) := by
    rw [passed, Bool.and_eq_true, Bool.and_eq_true, List.all_eq_true, and_assoc]
    refine and_congr_right fun _ => and_congr_right fun _ => ?_
    cases report.controlRequired <;> cases report.controlMatched <;> decide
  unfold statusOf
  split
  · rename_i hc
    exact ⟨fun h => (by cases h), fun h => absurd hc (by rw [h.1]; exact Bool.false_ne_true)⟩
  · rename_i hc
    rw [Bool.not_eq_true] at hc
    split
    · rename_i hobs
      refine ⟨fun h => (by cases h), fun h => ?_⟩
      have := hobserved.mpr ⟨h.2.2.1, fun p hp => (h.2.2.2.1 p hp).1, h.2.1⟩
      rw [hobs] at this
      cases this
    · rename_i hobs
      rw [Bool.not_eq_false] at hobs
      obtain ⟨hlength, hinfra, hlimits⟩ := hobserved.mp hobs
      have hiff : (if passed ticket report = true then CheckStatus.passed else .failed) = .passed ↔
          passed ticket report = true := by
        split
        · exact ⟨fun _ => by assumption, fun _ => rfl⟩
        · exact ⟨fun h => (by cases h), fun h => by contradiction⟩
      rw [hiff, hpassed]
      exact ⟨fun h => ⟨hc, hlimits, hlength, fun p hp => ⟨hinfra p hp, h.2.1 p hp⟩, h.2.2⟩,
        fun h => ⟨hobs, fun p hp => (h.2.2.2.1 p hp).2, h.2.2.2.2⟩⟩

/-- the expectations of a program are not vacuous -/
structure CheckProgram.Sound (p : CheckProgram) : Prop where
  probes : ∀ probe ∈ p.probes, probe.Sound
  control : ∀ expected ∈ p.controlFailure,
    expected.stdout.all (·.valid) = true ∧ expected.stderr.all (·.valid) = true

theorem observable_valid {stdout stderr : Option Expectation}
    (h : ¬ observable stdout stderr = false) :
    stdout.all (·.valid) = true ∧ stderr.all (·.valid) = true := by
  rw [Bool.not_eq_false, observable, Bool.and_eq_true, Bool.and_eq_true] at h
  exact ⟨h.1.2, h.2⟩

theorem checkProbes_sound {ids ids' : BTreeSet String} (h : checkProbes ids probes = .ok ids') :
    ∀ probe ∈ probes, probe.Sound := by
  induction probes generalizing ids with
  | nil => exact fun _ h => nomatch h
  | cons probe probes ih =>
    rw [checkProbes] at h
    obtain ⟨-, h⟩ := refuseIf_bind h
    obtain ⟨_, hprobe, h⟩ := bind_ok h
    refine List.forall_mem_cons.mpr ⟨?_, ih h⟩
    cases probe with
    | file => trivial
    | command id text exitCode stdout stderr =>
      have hrefused := refuseIf_ok hprobe
      rw [not_or, not_or] at hrefused
      exact observable_valid hrefused.2.2

theorem validate_sound {p : CheckProgram} (h : p.validate = .ok ()) : p.Sound := by
  obtain ⟨-, h⟩ := refuseIf_bind h
  obtain ⟨ids, hids, h⟩ := bind_ok h
  refine ⟨checkProbes_sound hids, fun expected he => ?_⟩
  rw [Option.mem_def] at he
  rw [he] at h
  have hrefused := refuseIf_ok h
  rw [not_or] at hrefused
  exact observable_valid hrefused.2

/-! ## the run -/

variable {ticket : VerificationTicket} {w : World} {report : VerificationReport}

theorem runProbe_clean (hsound : probe.Sound) :
    (runProbe jobId snapshot workspace timeoutMs run probe).infrastructureOk = true ∧
        (runProbe jobId snapshot workspace timeoutMs run probe).passed = true ↔
      ∃ met stdout stderr,
        Outcome jobId snapshot workspace timeoutMs run probe met stdout stderr ∧ met := by
  obtain ⟨hinfra, hpassed⟩ := @runProbe_outcome _ jobId snapshot workspace timeoutMs run probe hsound
  rw [hinfra]
  constructor
  · rintro ⟨⟨met, stdout, stderr, h⟩, hp⟩
    exact ⟨met, stdout, stderr, h, (hpassed _ _ _ h).1.mp hp⟩
  · rintro ⟨met, stdout, stderr, h, hmet⟩
    exact ⟨⟨met, stdout, stderr, h⟩, (hpassed _ _ _ h).1.mpr hmet⟩

theorem runProbe_failure {expected : ControlFailure} (hsound : probe.Sound)
    (hexpected : expected.stdout.all (·.valid) = true ∧ expected.stderr.all (·.valid) = true) :
    matchesFailure expected (runProbe jobId snapshot workspace timeoutMs run probe) = true ↔
      probe.id = expected.probe ∧ ∃ met stdout stderr,
        Outcome jobId snapshot workspace timeoutMs run probe met stdout stderr ∧ ¬ met ∧
        Holds expected.stdout stdout ∧ Holds expected.stderr stderr := by
  obtain ⟨hinfra, hpassed⟩ := @runProbe_outcome _ jobId snapshot workspace timeoutMs run probe hsound
  rw [matchesFailure, Bool.and_eq_true, Bool.and_eq_true, Bool.and_eq_true, Bool.and_eq_true,
    decide_eq_true_iff, runProbe_id, Bool.not_eq_true', noneOr_iff hexpected.1,
      noneOr_iff hexpected.2,
    hinfra]
  constructor
  · rintro ⟨⟨⟨⟨hid, hfailed⟩, met, stdout, stderr, h⟩, hout⟩, herr⟩
    obtain ⟨hmet, hstdout, hstderr⟩ := hpassed _ _ _ h
    rw [hstdout] at hout
    rw [hstderr] at herr
    refine ⟨hid, met, stdout, stderr, h, fun hm => ?_, hout, herr⟩
    rw [hmet.mpr hm] at hfailed
    exact nomatch hfailed
  · rintro ⟨hid, met, stdout, stderr, h, hmet, hout, herr⟩
    obtain ⟨hiff, hstdout, hstderr⟩ := hpassed _ _ _ h
    rw [hstdout, hstderr]
    exact ⟨⟨⟨⟨hid, Bool.eq_false_iff.mpr fun hp => hmet (hiff.mp hp)⟩, met, stdout, stderr, h⟩,
      hout⟩, herr⟩

theorem runControl_spec (hsound : ticket.program.Sound) (w : World) (report : VerificationReport) :
    (runControl ticket w report).probes = report.probes ∧
    (runControl ticket w report).cancelled = report.cancelled ∧
    (runControl ticket w report).controlRequired = report.controlRequired ∧
    ∃ extra, (runControl ticket w report).limitations = report.limitations ++ extra ∧
      (extra = [] ∧ (runControl ticket w report).controlMatched = true ↔
        ∃ c, w.control = some c ∧ ControlMet ticket c) := by
  unfold runControl
  split
  · rename_i c hc
    obtain ⟨hc, htree⟩ := Option.filter_eq_some_iff.mp hc
    rw [Bool.and_eq_true, decide_eq_true_iff] at htree
    refine ⟨rfl, rfl, rfl, _, List.append_assoc _ _ _, ?_⟩
    generalize hloop : runProbes ticket.lease.job true c.snapshot c.workspace ticket.timeoutMs c.turns 0
      ticket.program.probes = loop
    obtain ⟨control, left⟩ := loop
    have hleft := @runProbes_left _ c.snapshot c.workspace ticket.timeoutMs ticket.lease.job true c.turns
      ticket.program.probes 0
    rw [hloop] at hleft
    simp only [Nat.zero_add] at hleft
    have hextra : (if left.isSome = true then ["negative control was interrupted"] else []) ++
        (if c.after = true then [] else ["control source changed during verification"]) = [] ↔
        left = none ∧ c.after = true := by
      cases left <;> cases c.after <;> simp
    dsimp only
    rw [hextra, Option.any_eq_true]
    constructor
    · rintro ⟨⟨rfl, hafter⟩, expected, hexpected, hany⟩
      obtain ⟨r, hr, hmatch⟩ := List.any_eq_true.mp hany
      have hnone : (runProbes ticket.lease.job true c.snapshot c.workspace ticket.timeoutMs c.turns 0
        ticket.program.probes).2 = none := by rw [hloop]
      have hmem := mem_reports hnone r
      rw [hloop] at hmem
      obtain ⟨i, probe, hget, rfl⟩ := hmem.mp hr
      have hprobe := hsound.probes probe (List.mem_of_getElem? hget)
      obtain ⟨hid, hfailure⟩ := (runProbe_failure hprobe (hsound.control expected hexpected)).mp
        hmatch
      exact ⟨c, hc, htree.2, htree.1, hafter, hleft.mp rfl, expected, hexpected, i, probe, hget,
        hid, hfailure⟩
    · rintro ⟨c', hc', hmet⟩
      obtain rfl := Option.some.inj (hc.symm.trans hc')
      obtain ⟨expected, hexpected, i, probe, hget, hid, hfailure⟩ := hmet.failed
      obtain rfl : left = none := hleft.mpr hmet.ran
      refine ⟨⟨rfl, hmet.after⟩, expected, hexpected, List.any_eq_true.mpr ?_⟩
      have hnone : (runProbes ticket.lease.job true c.snapshot c.workspace ticket.timeoutMs c.turns 0
        ticket.program.probes).2 = none := by rw [hloop]
      refine ⟨_, ?_, (runProbe_failure (hsound.probes probe (List.mem_of_getElem? hget))
        (hsound.control expected hexpected)).mpr ⟨hid, hfailure⟩⟩
      have hmem := mem_reports hnone (runProbe (probeJobId ticket.lease.job probe.id true)
        c.snapshot c.workspace
        (remaining ticket.timeoutMs (c.turns i)) (c.turns i).run probe)
      rw [hloop] at hmem
      exact hmem.mpr ⟨i, probe, hget, rfl⟩
  · rename_i hnone
    refine ⟨rfl, rfl, rfl, _, rfl, fun h => (nomatch h.1), ?_⟩
    rintro ⟨c, hc, hmet⟩
    refine absurd hnone ?_
    rw [hc]
    show ¬ (if (c.before && decide (some (snapshotDigest c.snapshot) = ticket.controlSource)) = true
      then some c else none) = none
    rw [hmet.before, hmet.source, Bool.true_and, decide_eq_true rfl, if_pos rfl]
    exact fun h => nomatch h

/-- **The status of a run is a pass exactly when the run earns it.** -/
theorem execute_passed (hsound : ticket.program.Sound) :
    statusOf ticket (execute ticket w) = .passed ↔ Justified ticket w := by
  rw [statusOf_passed]
  unfold execute
  dsimp only
  split
  · rename_i henv
    exact ⟨fun h => (by cases h.2.1), fun h => absurd h.environment henv⟩
  · rename_i henv
    rw [Ne, not_not] at henv
    split
    · rename_i hbefore
      refine ⟨fun h => (by cases h.2.1), fun h => ?_⟩
      cases hbefore.symm.trans h.before
    · rename_i hbefore
      rw [Bool.not_eq_false] at hbefore
      generalize hloop : runProbes ticket.lease.job false ticket.candidate w.workspace
        ticket.timeoutMs w.turns 0 ticket.program.probes = loop
      obtain ⟨probes, left⟩ := loop
      have hleft := @runProbes_left _ ticket.candidate w.workspace ticket.timeoutMs ticket.lease.job false
        w.turns
        ticket.program.probes 0
      rw [hloop] at hleft
      simp only [Nat.zero_add] at hleft
      have hmet : left = none → (probes.length = ticket.program.probes.length ∧
          ((∀ p ∈ probes, p.infrastructureOk = true ∧ p.passed = true) ↔ ProbesMet ticket w)) := by
        rintro rfl
        have hnone : (runProbes ticket.lease.job false ticket.candidate w.workspace ticket.timeoutMs w.turns 0
          ticket.program.probes).2 = none := by rw [hloop]
        have hlength := (runProbes_reports hnone).1
        have hmem := fun r => mem_reports hnone r
        rw [hloop] at hlength hmem
        refine ⟨hlength, fun h i probe hget => ?_, fun h r hr => ?_⟩
        · have hprobe := hsound.probes probe (List.mem_of_getElem? hget)
          have hi := (List.getElem?_eq_some_iff.mp hget).1
          exact ⟨hleft.mp rfl i hi, (runProbe_clean hprobe).mp
            (h _ ((hmem _).mpr ⟨i, probe, hget, rfl⟩))⟩
        · obtain ⟨i, probe, hget, rfl⟩ := (hmem r).mp hr
          exact (runProbe_clean (hsound.probes probe (List.mem_of_getElem? hget))).mpr
            (h i probe hget).2
      -- what the candidate's loop has to leave behind
      have hbase : ∀ extra : List String,
          (if left.isSome = true then ["verification interrupted or deadline exhausted"]
            else []) ++ extra ++
            (if w.after = true then [] else ["candidate changed during verification"]) = [] ↔
          left = none ∧ extra = [] ∧ w.after = true := by
        intro extra
        cases left <;> cases w.after <;> simp
      have hran : ProbesMet ticket w → left = none := fun h => hleft.mpr fun j hj =>
        (h j _ (List.getElem?_eq_getElem hj)).1
      have hcancel : ∀ b : Bool, (b || w.cancelled) = false ↔ b = false ∧ w.cancelled = false :=
        fun b =>
        Bool.or_eq_false_iff
      by_cases hreq : ticket.controlRequired = true
      · rw [if_pos hreq]
        obtain ⟨hprobes, hcancelled, hrequired, extra, hlimits, hcontrol⟩ :=
          runControl_spec hsound w
          ⟨ticket.lease.job, probes, [],
            if left.isSome = true then ["verification interrupted or deadline exhausted"] else [],
            left.any (·.cancelled), ticket.controlRequired, false, w.imageId,
            snapshotDigest ticket.candidate, none⟩
        rw [hprobes, hcancelled, hrequired, hlimits, hbase, hcancel]
        constructor
        · rintro ⟨⟨-, hc⟩, ⟨hl, he, hafter⟩, -, hall, hmatched⟩
          exact ⟨hc, henv, hbefore, hafter, (hmet hl).2.mp hall,
            fun _ => hcontrol.mp ⟨he, hmatched hreq⟩⟩
        · intro h
          have hl := hran h.probes
          obtain ⟨he, hmatched⟩ := hcontrol.mpr (h.control hreq)
          exact ⟨⟨by rw [hl]; rfl, h.uncancelled⟩, ⟨hl, he, h.after⟩, (hmet hl).1,
            (hmet hl).2.mpr h.probes,
            fun _ => hmatched⟩
      · rw [if_neg hreq]
        have hnone := hbase []
        rw [List.append_nil] at hnone
        dsimp only
        rw [hnone, hcancel]
        constructor
        · rintro ⟨⟨-, hc⟩, ⟨hl, -, hafter⟩, -, hall, -⟩
          exact ⟨hc, henv, hbefore, hafter, (hmet hl).2.mp hall, fun h => absurd h hreq⟩
        · intro h
          have hl := hran h.probes
          exact ⟨⟨by rw [hl]; rfl, h.uncancelled⟩, ⟨hl, rfl, h.after⟩, (hmet hl).1,
            (hmet hl).2.mpr h.probes,
            fun h => absurd h hreq⟩

end

/-! ## the evidence -/

section
variable [Sha256] [ContractCodec] [SessionCodec] [StoreCodec] [JsonReader] [VerificationArtifacts]

theorem prepare_sound {env : Env} {task : TaskId} {revision : Nat} {check : String}
    {token jobId : Uuid}
    {db db' : Db} {ticket : VerificationTicket}
    (h : prepare env task revision check token jobId db = .ok (ticket, db')) :
    ticket.program.Sound := by
  obtain ⟨⟨s, head⟩, -, h⟩ := bind_ok h
  obtain ⟨-, h⟩ := refuseIf_bind h
  obtain ⟨contract, -, h⟩ := bind_ok h
  obtain ⟨definition, -, h⟩ := bind_ok h
  obtain ⟨program, -, h⟩ := bind_ok h
  obtain ⟨_, hvalid, h⟩ := bind_ok h
  obtain ⟨candidate, -, h⟩ := bind_ok h
  obtain ⟨snapshot, -, h⟩ := bind_ok h
  obtain ⟨controlSource, -, h⟩ := bind_ok h
  obtain ⟨-, h⟩ := refuseIf_bind h
  obtain ⟨⟨lease, s', db''⟩, -, h⟩ := bind_ok h
  cases h
  exact validate_sound hvalid

theorem finish_ok {env : Env} {ticket : VerificationTicket} {report : VerificationReport}
    {db db' : Db}
    {s' : TaskState} (h : finish env ticket report db = .ok (s', db')) :
    ∃ (s : TaskState) (evidence : Evidence), s' = s.apply (.observed evidence) ∧
      evidence.observation.status = statusOf ticket report := by
  obtain ⟨-, h⟩ := refuseIf_bind h
  obtain ⟨rawReport, -, h⟩ := bind_ok h
  obtain ⟨controlReport, -, h⟩ := bind_ok h
  obtain ⟨s, head, e, leases, -, hop, -, happ⟩ := change_ok h
  obtain ⟨-, hop⟩ := refuseIf_bind hop
  obtain ⟨job, -, hop⟩ := bind_ok hop
  obtain ⟨-, hop⟩ := refuseIf_bind hop
  obtain ⟨-, -, hop⟩ := bind_ok hop
  obtain ⟨check, -, hop⟩ := bind_ok hop
  obtain ⟨identity, -, hop⟩ := bind_ok hop
  cases hop
  obtain ⟨rfl, -⟩ := appendTaskEvent_ok happ
  exact ⟨s, _, rfl, rfl⟩

/-- **A verdict is exactly justified.**  A check that was prepared and run anyhow is observed as
passed exactly when the run earned it, and the observation is what its evidence records. -/
theorem verdict_justified {env : Env} {task : TaskId} {revision : Nat} {check : String}
    {token jobId : Uuid} {db db₁ : Db} {ticket : VerificationTicket}
    (hprepare : prepare env task revision check token jobId db = .ok (ticket, db₁)) (w : World) :
    (∀ rawReport controlReport,
      (observationOf ticket (execute ticket w) rawReport controlReport).status = .passed ↔
        Justified ticket w) ∧
    ∀ (env' : Env) (db₂ db₃ : Db) (s' : TaskState),
      finish env' ticket (execute ticket w) db₂ = .ok (s', db₃) →
      ∃ (s : TaskState) (evidence : Evidence), s' = s.apply (.observed evidence) ∧
        (evidence.observation.status = .passed ↔ Justified ticket w) := by
  have hpassed := execute_passed (w := w) (prepare_sound hprepare)
  refine ⟨fun _ _ => hpassed, fun env' db₂ db₃ s' h => ?_⟩
  obtain ⟨s, evidence, hs, hstatus⟩ := finish_ok h
  exact ⟨s, evidence, hs, by rw [hstatus]; exact hpassed⟩

end

/-! ## the check of the example, run -/

namespace Sample
open Orvek.Sample

/-- `make` has to say `ok` -/
def program : CheckProgram := ⟨1, [.command "p" "make" 0 (some (.contains "ok")) none], none⟩

def snapshot : Snapshot := ⟨1, SnapshotPolicy.default, ∅⟩

instance artifacts : VerificationArtifacts where
  readProgram _ := .ok program
  loadSnapshot _ := some snapshot
  putReport _ := .ok ⟨0⟩
  putControl _ := .ok ⟨0⟩
  snapshotDigest _ := ⟨0⟩
  probeJobId job _ _ := job

/-- it says so at once -/
def built : World where
  imageId := "image"
  workspace := strBytes "/candidate"
  environment := some ⟨0⟩
  before := true
  turns _ := ⟨0, false, fun request => .ok ⟨request.jobId, .exited 0, strBytes "ok\n", [], 0,
    "image", "c"⟩⟩
  control := none
  after := true
  cancelled := false

theorem verdict_justified_built : ∃ ticket db₁,
    (∃ db, prepare env taskId 2 "c" token job db = .ok (ticket, db₁)) ∧
    ∀ rawReport controlReport,
      (observationOf ticket (execute ticket built) rawReport controlReport).status = .passed ↔
        Justified ticket built := by
  obtain ⟨db, w, hr, hs, hl⟩ := @reachable_selected fun _ _ => True
  obtain ⟨db₁, hb, -⟩ := begins hr.represents hs hl
  obtain ⟨head, hload⟩ := hr.represents.loadState hs
  have hprepare : prepare env taskId 2 "c" token job db =
      .ok (⟨lease, program, snapshot, ⟨0⟩, 1, false, .none, none⟩, db₁) := by
    rw [prepare, hload]
    show (program.validate >>= fun _ => _) = _
    have hvalid : program.validate = .ok () := by decide +kernel
    rw [hvalid]
    show (beginCheck env taskId 2 "c" token job db >>= _) = _
    rw [hb]
    rfl
  exact ⟨_, db₁, ⟨db, hprepare⟩, (verdict_justified hprepare built).1⟩

end Sample

end Orvek.Verification
