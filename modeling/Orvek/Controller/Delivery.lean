import Orvek.Lib.Effects
import Orvek.Store.Certified
import Orvek.Store.Host
import Orvek.Workspace.Snapshot

/-!
# Delivering a task

A task that may be complete is frozen, checked and delivered while its working tree and the store go
on changing.  Every step of the host is modelled with what happens before it.

* `Site`, `Drift`       what the steps read and write, and what others make of it meanwhile;
* `Host.freeze`         a capture of the working tree becomes the candidate of the task;
* `Host.verify`         a check, which freezes the tree again;
* `Host.deliver`        the tree or the patch is published, compared and recorded;
* `Host.tryComplete`    all of it, and the completion of the task.
-/

set_option linter.unusedSectionVars false

namespace Orvek.Deliveries
open Effects Prog Workspace

inductive HostError where
  | store (error : StoreError)
  | workspace (error : WorkspaceError)
  | concurrentChange
  | invalid (text : String)
  | io
  /-- the bound of the model on the rounds of a loop -/
  | rounds
  deriving DecidableEq

/-- a name in the directory of the deliveries of a task -/
inductive Target where
  | patch (artifact : Digest)
  | source (source : Digest)
  deriving DecidableEq

inductive Published (Tree : Type) where
  | file (bytes : List UInt8)
  | tree (tree : Tree)

/-- what the steps read and write -/
structure Site (Tree : Type) where
  db : Db
  artifacts : Digest → Option (List UInt8)
  working : Tree
  /-- `candidates/<task>` -/
  candidates : Digest → Option Tree
  /-- `deliveries/<task>` -/
  deliveries : Target → Option (Published Tree)
  cancelled : Bool

variable [Sha256] [ContractCodec] [SessionCodec] [StoreCodec] [JsonReader] {Tree : Type}

/-- what happens before a step: other transactions of the store, new artifacts, any change of the working
tree and of the candidates; and the step may fail -/
structure Drift (Tree : Type) where
  change : Site Tree → Site Tree
  fault : Option HostError
  runs : ∀ s w, Represents s.db w → ∃ w', Run anyDraw s.db w (change s).db w'

/-- the files and the database, and what is still to happen -/
structure Moment (Tree : Type) where
  site : Site Tree
  script : List (Drift Tree)

/-- nothing else writes in the directory of the deliveries -/
def Moment.drifted (m : Moment Tree) : Moment Tree :=
  match m.script with
  | [] => m
  | d :: rest => ⟨{ d.change m.site with deliveries := m.site.deliveries }, rest⟩

/-- while the store is locked no other transaction runs -/
def Moment.driftedLocked (m : Moment Tree) : Moment Tree :=
  { m.drifted with site := { m.drifted.site with db := m.site.db } }

abbrev Act (Tree α : Type) := Prog HostError (Moment Tree) α

def stepAfter {α : Type} (drift : Moment Tree → Moment Tree)
    (f : Site Tree → Except HostError (α × Site Tree)) : Act Tree α := fun m =>
  match m.script.head?.bind Drift.fault with
  | some e => (.error e, drift m)
  | none =>
    match f (drift m).site with
    | .ok (a, s) => (.ok a, { drift m with site := s })
    | .error e => (.error e, drift m)

/-- a step without the lock of the store, or the one that takes it -/
def step {α : Type} (f : Site Tree → Except HostError (α × Site Tree)) : Act Tree α :=
  stepAfter Moment.drifted f

def locked {α : Type} (f : Site Tree → Except HostError (α × Site Tree)) : Act Tree α :=
  stepAfter Moment.driftedLocked f

def look {α : Type} (f : Site Tree → Except HostError α) (s : Site Tree) :
    Except HostError (α × Site Tree) := (f s).map fun a => (a, s)

def transact {α : Type} (f : Site Tree → Except StoreError (α × Db)) (s : Site Tree) :
    Except HostError (α × Site Tree) :=
  match f s with
  | .ok (a, db) => .ok (a, { s with db := db })
  | .error e => .error (.store e)

/-! ## artifacts -/

/-- `ArtifactStore::read`, which checks the digest -/
def Site.read (s : Site Tree) (d : Digest) : Except HostError (List UInt8) :=
  match s.artifacts d with
  | some bytes => if Digest.of bytes = d then .ok bytes else .error (.store (.artifact (.integrity d)))
  | none => .error .io

/-- `ArtifactStore::put` -/
def Site.put (limit : Nat) (bytes : List UInt8) (s : Site Tree) : Except HostError (Digest × Site Tree) :=
  if limit < bytes.length then .error (.store (.artifact (.limit limit)))
  else if (s.artifacts (Digest.of bytes)).isSome = true then do
    let _ ← s.read (Digest.of bytes)
    .ok (Digest.of bytes, s)
  else .ok (Digest.of bytes, { s with artifacts := Function.update s.artifacts (Digest.of bytes) (some bytes) })

/-- what the host uses: the file system, the encodings, the executor, and what is drawn and observed -/
structure Host (Tree : Type) where
  /-- `Snapshot::scan`: the entries, and the contents of the files -/
  scan : SnapshotPolicy → Tree → Except HostError (BTreeMap String Workspace.Entry × List (List UInt8))
  /-- `Snapshot::materialize` -/
  materialize : Snapshot → (Digest → Option (List UInt8)) → Except HostError Tree
  /-- `rename` onto a tree that is there: it is replaced, or it stays, or the rename fails -/
  clash : Tree → Except HostError Bool
  encode : Snapshot → List UInt8
  decode : List UInt8 → Option Snapshot
  artifactLimit : Nat
  executor : Bool
  environment : List UInt8
  /-- `PatchBuilder::build`: the patch and its receipt -/
  patch : Snapshot → Snapshot → Except HostError (List UInt8 × List UInt8)
  receipt : Candidate → Target → List UInt8
  env : Site Tree → Env
  /-- what `verification::prepare` asks of the program of a check -/
  admissible : Site Tree → TaskState → String → Except StoreError Unit
  /-- the token and the job of a lease -/
  drawn : Site Tree → Uuid × Uuid
  observe : Site Tree → VerificationLease → Observation

namespace Host
variable (h : Host Tree)

def put (bytes : List UInt8) : Act Tree Digest := step (Site.put h.artifactLimit bytes)

def putAll : List (List UInt8) → Act Tree Unit
  | [] => pure ()
  | bytes :: rest => do
    let _ ← h.put bytes
    putAll rest

/-! ## snapshots -/

def validated (s : Snapshot) : Act Tree Unit :=
  match s.validate with
  | .ok _ => pure ()
  | .error e => fail (.workspace e)

/-- `Snapshot::capture` of the working tree with the default policy -/
def capture : Act Tree Snapshot := do
  let (first, contents) ← step (look fun s => h.scan .default s.working)
  h.putAll contents
  let (second, _) ← step (look fun s => h.scan .default s.working)
  refuse (first ≠ second) .concurrentChange
  validated ⟨1, .default, first⟩
  pure ⟨1, .default, first⟩

def publish (snapshot : Snapshot) : Act Tree Digest := do
  validated snapshot
  h.put (h.encode snapshot)

/-- `Snapshot::load` -/
def loaded (s : Site Tree) (d : Digest) : Except HostError Snapshot := do
  let bytes ← s.read d
  match h.decode bytes with
  | none => .error (.store (.json ⟨"snapshot"⟩))
  | some snapshot =>
    match snapshot.validate with
    | .ok _ => .ok snapshot
    | .error e => .error (.workspace e)

/-- `matches_exact`: nothing is excluded -/
def matchesExact (snapshot : Snapshot) (tree : Tree) : Except HostError Bool :=
  (h.scan { snapshot.policy with excludedRoots := [] } tree).map fun found =>
    decide (found.1 = snapshot.entries)

/-! ## the candidate -/

/-- `predicates_match` -/
def predicatesMatch (expected current : TaskState) : Bool :=
  expected.revision = current.revision ∧ expected.workspaceOverride = current.workspaceOverride ∧
    expected.origin = current.origin ∧ expected.baseline = current.baseline ∧
    expected.candidate = current.candidate ∧ expected.jobs = current.jobs ∧
    expected.modelReservations = current.modelReservations ∧ expected.outcome = current.outcome

def loadTask (task : TaskId) (s : Site Tree) : Except HostError (TaskState × Site Tree) :=
  match loadState s.db task with
  | .ok (t, _) => .ok (t, s)
  | .error e => .error (.store e)

def stopIfCancelled : Act Tree Unit := do
  let stop ← step (look fun s => .ok s.cancelled)
  refuse stop (.store .cancelled)

def orStore {α : Type} (x : Except StoreError α) : Act Tree α :=
  match x with
  | .ok a => pure a
  | .error e => fail (.store e)

def orInvalid {α : Type} (text : String) (x : Option α) : Act Tree α :=
  match x with
  | some a => pure a
  | none => fail (.invalid text)

def cached (state : TaskState) (source environment : Digest) (kind : DeliveryKind) : Option Candidate :=
  state.candidate.filter fun c => c.source = source ∧ c.environment = environment ∧ c.frozen = true ∧
    (kind = .source ∨ c.provenance.isSome = true)

def derive (state : TaskState) (snapshot : Snapshot) (source environment : Digest)
    (kind : DeliveryKind) : Act Tree Candidate :=
  match cached state source environment kind with
  | some candidate => pure candidate
  | none =>
    if kind = .patch then do
      let baseline ← orInvalid "patch requires an immutable baseline" state.baseline
      let base ← step (look fun s => h.loaded s baseline.source)
      let (patch, receipt) ← step (look fun _ => h.patch base snapshot)
      let artifact ← h.put patch
      let provenance ← h.put receipt
      pure ⟨source, environment, artifact, true, some provenance⟩
    else pure ⟨source, environment, source, true, none⟩

def changedOutside : HostError :=
  .invalid "frozen candidate directory changed outside the controller"

/-- `publish_noclobber` of a staged tree in the directory of the candidates -/
def placeCandidate (source : Digest) (tree : Tree) (s : Site Tree) : Except HostError (Bool × Site Tree) :=
  match s.candidates source with
  | none => .ok (true, { s with candidates := Function.update s.candidates source (some tree) })
  | some old =>
    match h.clash old with
    | .ok true => .ok (true, { s with candidates := Function.update s.candidates source (some tree) })
    | .ok false => .ok (false, s)
    | .error e => .error e

def standsExact (snapshot : Snapshot) (source : Digest) : Act Tree Bool :=
  step (look fun s => match s.candidates source with
    | some tree => h.matchesExact snapshot tree
    | none => .error .io)

def select (task : TaskId) (current : TaskState) (candidate : Candidate) : Act Tree Unit :=
  if current.candidate ≠ some candidate then do
    let _ ← locked (transact fun s => selectCandidate (h.env s) task current.revision candidate s.db)
    pure ()
  else pure ()

/-- the end of a round of `freeze`, when the directory of the candidate has been compared -/
def settleFrozen (task : TaskId) (state : TaskState) (snapshot : Snapshot) (source : Digest)
    (candidate : Candidate) (staged : Tree) (exact : Bool) : Act Tree (Option Snapshot) := do
  let current ← step (loadTask task)
  if predicatesMatch state current then do
    let there ← locked (look fun s => .ok (s.candidates source).isSome)
    if there then do
      refuse (!exact) changedOutside
      h.select task current candidate
      pure (some snapshot)
    else do
      let placed ← locked (h.placeCandidate source staged)
      if placed then do
        h.select task current candidate
        pure (some snapshot)
      else do
        let exact ← h.standsExact snapshot source
        refuse (!exact) changedOutside
        let current ← step (loadTask task)
        if predicatesMatch state current then do
          h.select task current candidate
          pure (some snapshot)
        else pure none
  else pure none

/-- a round of `freeze` from its capture on -/
def freezeCaptured (task : TaskId) (state : TaskState) (snapshot : Snapshot) :
    Act Tree (Option Snapshot) := do
  let source ← h.publish snapshot
  let environment ← h.put h.environment
  let contract ← orStore state.acceptedContract
  let candidate ← h.derive state snapshot source environment contract.delivery
  let staged ← step (look fun s => h.materialize snapshot s.artifacts)
  let there ← step (look fun s => .ok (s.candidates source).isSome)
  if there then do
    let exact ← h.standsExact snapshot source
    h.settleFrozen task state snapshot source candidate staged exact
  else h.settleFrozen task state snapshot source candidate staged false

/-- one round of `freeze`; the next one begins when the task has changed meanwhile -/
def freezeRound (task : TaskId) : Act Tree (Option Snapshot) := do
  stopIfCancelled
  let state ← step (loadTask task)
  let snapshot ← h.capture
  h.freezeCaptured task state snapshot

/-- a loop, for a number of rounds -/
def rounds {α : Type} (round : Act Tree (Option α)) : Nat → Act Tree α
  | 0 => fail .rounds
  | n + 1 => do
    match ← round with
    | some a => pure a
    | none => rounds round n

def freeze (n : Nat) (task : TaskId) : Act Tree Snapshot := do
  refuse (!h.executor) (.invalid "candidate freezing requires the Docker executor")
  rounds (h.freezeRound task) n

/-! ## checks -/

/-- `reconcile_unresolved`: what it does to the store happens before the step -/
def reconcile : Act Tree Unit := step (look fun _ => .ok ())

/-- `verification::prepare` -/
def prepare (task : TaskId) (check : String) (state : TaskState) (s : Site Tree) :
    Except StoreError (VerificationLease × Db) := do
  h.admissible s state check
  let (lease, _, db) ← beginCheck (h.env s) task state.revision check (h.drawn s).1 (h.drawn s).2 s.db
  .ok (lease, db)

def verify (n : Nat) (task : TaskId) (check : String) : Act Tree Unit := do
  reconcile
  let _ ← h.freeze n task
  let state ← step (loadTask task)
  match ← (locked (transact (h.prepare task check state))).attempt with
  | .error _ => pure ()
  | .ok lease => do
    let report ← step (look fun s => .ok (h.observe s lease))
    match ← (step (transact fun s => finishCheck (h.env s) lease report s.db)).attempt with
    | .error _ => pure ()
    | .ok _ => pure ()

def hasCurrentPass (state : TaskState) (check : String) : Bool :=
  (state.evidence.reverse.find? fun e => e.check = check ∧ e.generation = state.generation).any
    fun e => e.observation.status = .passed

def runChecks (n : Nat) (task : TaskId) : List String → Act Tree Unit
  | [] => pure ()
  | check :: rest => do
    let current ← step (loadTask task)
    if hasCurrentPass current check then runChecks n task rest
    else do
      h.verify n task check
      runChecks n task rest

/-! ## the delivery -/

/-- the destination is made unless it is there -/
def publishAt (target : Target) (content : Published Tree) (s : Site Tree) :
    Except HostError (Unit × Site Tree) :=
  match s.deliveries target with
  | some _ => .ok ((), s)
  | none => .ok ((), { s with deliveries := Function.update s.deliveries target (some content) })

def confirmTree (snapshot : Snapshot) (target : Target) : Act Tree Unit := do
  let exact ← step (look fun s => match s.deliveries target with
    | some (.tree tree) => h.matchesExact snapshot tree
    | _ => .error .io)
  refuse (!exact) (.invalid "delivered source no longer matches its manifest")

def confirmFile (artifact : Digest) (target : Target) : Act Tree Unit := do
  let bytes ← step (look fun s => match s.deliveries target with
    | some (.file bytes) => .ok bytes
    | _ => .error .io)
  refuse (Digest.of bytes ≠ artifact) (.invalid "delivered patch bytes changed")

def record (task : TaskId) (current : TaskState) (d : Delivery) : Act Tree Unit := do
  let _ ← locked (transact fun s => recordDelivery (h.env s) task current.revision d s.db)
  pure ()

/-- the content is published, compared and recorded, unless the task has changed meanwhile -/
def publishAndRecord (task : TaskId) (expected : TaskState) (target : Target)
    (content : Published Tree) (confirm : Act Tree Unit) (d : Delivery) : Act Tree (Option Delivery) := do
  let current ← step (loadTask task)
  if predicatesMatch expected current then do
    locked (publishAt target content)
    confirm
    let current ← step (loadTask task)
    if predicatesMatch expected current then do
      h.record task current d
      pure (some d)
    else pure none
  else pure none

/-- one round of the loop that delivers what the first freeze has captured -/
def deliverRound (task : TaskId) (snapshot : Snapshot) : Act Tree (Option Delivery) := do
  stopIfCancelled
  let expected ← step (loadTask task)
  let candidate ← orInvalid "candidate invalidated before delivery" expected.candidate
  let contract ← orStore expected.acceptedContract
  match contract.delivery with
  | .patch => do
    let target := Target.patch candidate.artifact
    let bytes ← step (look fun s => s.read candidate.artifact)
    let receipt ← h.put (h.receipt candidate target)
    h.publishAndRecord task expected target (.file bytes) (confirmFile candidate.artifact target)
      ⟨.patch, candidate.source, candidate.artifact, receipt⟩
  | .source => do
    let target := Target.source candidate.source
    let staged ← step (look fun s => h.materialize snapshot s.artifacts)
    let receipt ← h.put (h.receipt candidate target)
    h.publishAndRecord task expected target (.tree staged) (h.confirmTree snapshot target)
      ⟨.source, candidate.source, candidate.artifact, receipt⟩
  -- the other kinds are not admitted, and have no staging
  | _ => fail (.invalid "source staging")

/-- `try_complete` up to the record of the delivery: what the first freeze captured, and the delivery -/
def deliver (n : Nat) (task : TaskId) : Act Tree (Snapshot × Delivery) := do
  reconcile
  let snapshot ← h.freeze n task
  let state ← step (loadTask task)
  let contract ← orStore state.acceptedContract
  h.runChecks n task (contract.checks.toList.map Prod.fst)
  let d ← rounds (h.deliverRound task snapshot) n
  pure (snapshot, d)

/-- `None` when the task is not complete yet -/
def tryComplete (n : Nat) (task : TaskId) : Act Tree (Option TaskState) := do
  let _ ← h.deliver n task
  let state ← step (loadTask task)
  match ← (locked (transact fun s => complete (h.env s) task state.revision s.db)).attempt with
  | .ok state => pure (some state)
  | .error (.store (.incomplete _)) => pure none
  | .error e => fail e

end Host

end Orvek.Deliveries
