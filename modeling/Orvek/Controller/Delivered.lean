import Orvek.Controller.Delivery

/-!
# What is delivered

Between any two steps of `try_complete` the working tree and the store may change.

* `Survives`            what the steps do to a property of moments; a property with it holds after any
                        part of `try_complete`, whether that fails or not;
* `Host.Freezes`        the last capture of a freeze, and its end;
* `Settled`             the tree is still the one that was captured, and the task has a candidate of no
                        other source;
* `Confirmed`           what the delivery loop has compared still stands when the delivery is recorded;
* `delivered_exact`     what stands at the destination, and what is certified.
-/

set_option linter.unusedSectionVars false

namespace Orvek.Deliveries
open Effects Prog Workspace

variable [Sha256] [ContractCodec] [SessionCodec] [StoreCodec] [JsonReader] {Tree : Type}
  {h : Host Tree} {m t : Moment Tree}
variable {s' : Site Tree} {db : Db} {task : TaskId} {s : TaskState} {p : Moment Tree → Prop}

/-! ## single steps -/

theorem drifted_deliveries (m : Moment Tree) : m.drifted.site.deliveries = m.site.deliveries := by
  unfold Moment.drifted
  split <;> rfl

theorem driftedLocked_deliveries (m : Moment Tree) :
    m.driftedLocked.site.deliveries = m.site.deliveries := drifted_deliveries m

section
variable {α : Type} {drift : Moment Tree → Moment Tree} {p : Moment Tree → Prop}
  {f : Site Tree → Except HostError (α × Site Tree)}

theorem stepAfter_yields {g : α → Prop} (hd : ∀ m, p m → p (drift m))
    (hf : ∀ m a s, p m → f m.site = .ok (a, s) → g a ∧ p { m with site := s }) :
    Yields p g (stepAfter drift f) := by
  intro m hm
  unfold stepAfter
  split
  · exact ⟨hd m hm, fun _ ha => by cases ha⟩
  · split
    · rename_i a s hok
      obtain ⟨hgood, hs⟩ := hf _ a s (hd m hm) hok
      refine ⟨hs, fun b hb => ?_⟩
      cases hb
      exact hgood
    · exact ⟨hd m hm, fun _ ha => by cases ha⟩

theorem stepAfter_ok {a : α} (hrun : stepAfter drift f m = (.ok a, t)) :
    ∃ s, f (drift m).site = .ok (a, s) ∧ t = { drift m with site := s } := by
  unfold stepAfter at hrun
  split at hrun
  · cases hrun
  · split at hrun
    · rename_i a' s hok
      cases hrun
      exact ⟨s, hok, rfl⟩
    · cases hrun

theorem look_ok {f : Site Tree → Except HostError α} {a : α} {s s' : Site Tree}
    (hf : look f s = .ok (a, s')) : f s = .ok a ∧ s' = s := by
  unfold look at hf
  cases hs : f s with
  | error e => rw [hs] at hf; cases hf
  | ok b =>
    rw [hs] at hf
    cases hf
    exact ⟨rfl, rfl⟩

theorem transact_ok {f : Site Tree → Except StoreError (α × Db)} {a : α} {s s' : Site Tree}
    (hf : transact f s = .ok (a, s')) : ∃ db, f s = .ok (a, db) ∧ s' = { s with db := db } := by
  unfold transact at hf
  cases hs : f s with
  | error e => rw [hs] at hf; cases hf
  | ok r =>
    rw [hs] at hf
    cases hf
    exact ⟨_, rfl, rfl⟩

theorem rounds_keeps {round : Act Tree (Option α)} (hr : Keeps p round) :
    ∀ n, Keeps p (Host.rounds round n) := by
  intro n
  induction n with
  | zero => exact Keeps.fail _
  | succ n ih =>
    refine Keeps.bind hr fun r => ?_
    cases r with
    | some a => exact Keeps.pure a
    | none => exact ih

theorem rounds_ok {round : Act Tree (Option α)} (hr : Keeps p round) {n : Nat} {a : α} :
    ∀ {m : Moment Tree}, p m → Host.rounds round n m = (.ok a, t) →
      ∃ m', p m' ∧ round m' = (.ok (some a), t) := by
  induction n with
  | zero => exact fun _ hrun => (nomatch hrun)
  | succ n ih =>
    intro m hm hrun
    obtain ⟨r, u, hone, hrun⟩ := bind_inv hrun
    cases r with
    | some b =>
      cases hrun
      exact ⟨m, hm, hone⟩
    | none =>
      exact ih (hr.run hm hone) hrun

end

/-! ## single transactions -/

/-- the transaction appends one event to a task -/
structure Appends (db db' : Db) (id : TaskId) (s : TaskState) (e : TaskEvent) : Prop where
  loaded : ∃ head, loadState db id = .ok (s, head)
  written : ∀ w, Represents db w → s.id = id ∧ w.tasks id = some s ∧
    Represents db' (w.setTask (s.apply e))

theorem change_appends {env : Env} {id : TaskId} {revision : Option Nat} {allowTerminal : Bool}
    {operation : TaskState → Except StoreError (TaskEvent × Leases)} {s' : TaskState} {db' : Db}
    (hc : change env id revision allowTerminal operation db = .ok (s', db')) :
    ∃ s e leases, operation s = .ok (e, leases) ∧
      (e.isCreation = false → s' = s.apply e ∧ Appends db db' id s e) := by
  obtain ⟨s, head, e, leases, hload, hop, -, happ⟩ := change_ok hc
  refine ⟨s, e, leases, hop, fun he => ⟨(appendTaskEvent_ok happ).1, ⟨head, hload⟩, fun w hw => ?_⟩⟩
  obtain ⟨hs, rfl, hhead⟩ := hw.of_loadState hload
  obtain ⟨rfl, -, hr, -⟩ := (hw.withLeases leases).appendTask happ hs hhead rfl he
  exact ⟨rfl, hs, hr⟩

section
variable {env : Env} {task : TaskId} {revision : Nat} {s' : TaskState} {db db' : Db}

theorem selectCandidate_appends {candidate : Candidate}
    (hok : selectCandidate env task revision candidate db = .ok (s', db')) :
    ∃ s, Appends db db' task s (.candidateSelected candidate) := by
  obtain ⟨s, e, leases, hop, ha⟩ := change_appends hok
  obtain ⟨-, -, hop⟩ := Checks.bind_ok hop
  obtain ⟨-, -, hop⟩ := Checks.bind_ok hop
  obtain ⟨-, hop⟩ := Checks.refuseIf_bind hop
  cases hop
  exact ⟨s, (ha rfl).2⟩

theorem beginCheck_appends {check : String} {token job : Uuid} {lease : VerificationLease}
    (hok : beginCheck env task revision check token job db = .ok (lease, s', db')) :
    ∃ s started, Appends db db' task s (.jobStarted started) := by
  obtain ⟨⟨s₁, db₁⟩, hchange, hok⟩ := Checks.bind_ok hok
  cases hok
  obtain ⟨s, e, leases, hop, ha⟩ := change_appends hchange
  obtain ⟨-, hop⟩ := Checks.refuseIf_bind hop
  obtain ⟨-, -, hop⟩ := Checks.bind_ok hop
  obtain ⟨candidate, -, hop⟩ := Checks.bind_ok hop
  obtain ⟨contract, -, hop⟩ := Checks.bind_ok hop
  obtain ⟨definition, -, hop⟩ := Checks.bind_ok hop
  obtain ⟨leases', -, hop⟩ := Checks.bind_ok hop
  cases hop
  exact ⟨s, _, (ha rfl).2⟩

theorem finishCheck_appends {lease : VerificationLease} {report : Observation}
    (hok : finishCheck env lease report db = .ok (s', db')) :
    ∃ s evidence, Appends db db' lease.task s (.observed evidence) := by
  obtain ⟨s, e, leases, hop, ha⟩ := change_appends hok
  obtain ⟨-, hop⟩ := Checks.refuseIf_bind hop
  obtain ⟨job, -, hop⟩ := Checks.bind_ok hop
  obtain ⟨-, hop⟩ := Checks.refuseIf_bind hop
  obtain ⟨-, -, hop⟩ := Checks.bind_ok hop
  obtain ⟨check, -, hop⟩ := Checks.bind_ok hop
  obtain ⟨identity, -, hop⟩ := Checks.bind_ok hop
  cases hop
  exact ⟨s, _, (ha rfl).2⟩

theorem frozenCandidate_ok {s : TaskState} {text : String} {c : Candidate}
    (hc : frozenCandidate s text = .ok c) : s.candidate = some c := by
  unfold frozenCandidate at hc
  split at hc
  · rename_i c' hc'
    split at hc
    · cases hc
      exact hc'
    · cases hc
  · cases hc

theorem recordDelivery_appends {d : Delivery}
    (hok : recordDelivery env task revision d db = .ok (s', db')) :
    ∃ s, Appends db db' task s (.delivered d) ∧ s' = s.apply (.delivered d) ∧
      ∃ c contract, s.candidate = some c ∧ s.acceptedContract = .ok contract ∧
        d.source = c.source ∧ d.artifact = c.artifact ∧ d.kind = contract.delivery := by
  obtain ⟨s, e, leases, hop, ha⟩ := change_appends hok
  obtain ⟨c, hc, hop⟩ := Checks.bind_ok hop
  obtain ⟨contract, hcontract, hop⟩ := Checks.bind_ok hop
  obtain ⟨hsame, hop⟩ := Checks.refuseIf_bind hop
  obtain ⟨_, -, hop⟩ := Checks.bind_ok hop
  cases hop
  refine ⟨s, (ha rfl).2, (ha rfl).1, c, contract, frozenCandidate_ok hc, hcontract, ?_, ?_, ?_⟩
  · exact (not_not.mp fun hne => hsame (.inl hne)).symm
  · exact (not_not.mp fun hne => hsame (.inr (.inl hne))).symm
  · exact (not_not.mp fun hne => hsame (.inr (.inr hne))).symm

end

theorem Appends.loaded_after {db' : Db} {w : World} {id : TaskId} {u : TaskState} {e : TaskEvent}
    {head : Digest} (ha : Appends db db' id s e) (hw : Represents db w)
    (hl : loadState db' task = .ok (u, head)) :
    (task = id ∧ u = s.apply e) ∨ (task ≠ id ∧ ∃ head₀, loadState db task = .ok (u, head₀)) := by
  obtain ⟨hid, hs, hr⟩ := ha.written w hw
  obtain ⟨hstored, -, -⟩ := hr.of_loadState hl
  have hget : Function.update w.tasks (s.apply e).id (some (s.apply e)) task = some u := hstored
  rw [apply_id, hid] at hget
  by_cases he : task = id
  · rw [he, Function.update_self] at hget
    exact .inl ⟨he, (Option.some.inj hget).symm⟩
  · rw [Function.update_of_ne he] at hget
    exact .inr ⟨he, hw.loadState hget⟩

/-! ## what survives every step -/

/-- the same moment with another database -/
def Moment.withDb (m : Moment Tree) (db : Db) : Moment Tree := { m with site := { m.site with db := db } }

/-- what the steps do to a property of moments: what happens before them, the files they write, and
their transactions, of which only the selection changes the candidate; `captured` is known of what is
captured meanwhile -/
structure Survives (h : Host Tree) (captured : Snapshot → Prop) (p : Moment Tree → Prop) : Prop where
  drifted : ∀ {m}, p m → p m.drifted
  driftedLocked : ∀ {m}, p m → p m.driftedLocked
  files : ∀ {m s}, p m → s.db = m.site.db → s.working = m.site.working → p { m with site := s }
  scanned : ∀ {m found}, p m → h.scan .default m.site.working = .ok found →
    captured ⟨1, .default, found.1⟩
  select : ∀ {m candidate snapshot task s db}, p m → captured snapshot →
    candidate.source = Digest.of (h.encode snapshot) →
    Appends m.site.db db task s (.candidateSelected candidate) → p (m.withDb db)
  append : ∀ {m task s e db}, p m → (s.apply e).candidate = s.candidate →
    Appends m.site.db db task s e → p (m.withDb db)

section
variable {α : Type} {captured : Snapshot → Prop} {p : Moment Tree → Prop}
  (hp : Survives h captured p)
include hp

theorem step_yields {f : Site Tree → Except HostError (α × Site Tree)} {g : α → Prop}
    (hf : ∀ m a s, p m → f m.site = .ok (a, s) →
      g a ∧ s.db = m.site.db ∧ s.working = m.site.working) : Yields p g (step f) :=
  stepAfter_yields (fun _ hm => hp.drifted hm) fun m a s hm hok => by
    obtain ⟨hgood, hdb, hw⟩ := hf m a s hm hok
    exact ⟨hgood, hp.files hm hdb hw⟩

theorem locked_keeps {f : Site Tree → Except HostError (α × Site Tree)}
    (hf : ∀ s a s', f s = .ok (a, s') → s'.db = s.db ∧ s'.working = s.working) :
    Keeps p (locked f) :=
  (stepAfter_yields (g := fun _ => True) (fun _ hm => hp.driftedLocked hm) fun _ a s hm hok =>
    ⟨trivial, hp.files hm (hf _ a s hok).1 (hf _ a s hok).2⟩).keeps

theorem look_keeps {f : Site Tree → Except HostError α} : Keeps p (step (look f)) :=
  (step_yields hp (g := fun _ => True) fun _ a s _ hok => by
    rw [(look_ok hok).2]
    exact ⟨trivial, rfl, rfl⟩).keeps

theorem look_locked_keeps {f : Site Tree → Except HostError α} : Keeps p (locked (look f)) :=
  locked_keeps hp fun s a s' hok => by
    rw [(look_ok hok).2]
    exact ⟨rfl, rfl⟩

end

theorem transact_keeps {α : Type} {drift : Moment Tree → Moment Tree}
    {f : Site Tree → Except StoreError (α × Db)} (hd : ∀ m, p m → p (drift m))
    (hf : ∀ m a db, p m → f m.site = .ok (a, db) → p (m.withDb db)) :
    Keeps p (stepAfter drift (transact f)) :=
  (stepAfter_yields (g := fun _ => True) hd fun m a s hm hok => by
    obtain ⟨db, hdb, rfl⟩ := transact_ok hok
    exact ⟨trivial, hf m a db hm hdb⟩).keeps

theorem orStore_keeps {α : Type} (x : Except StoreError α) : Keeps p (Host.orStore x : Act Tree α) := by
  cases x with
  | ok a => exact Keeps.pure a
  | error e => exact Keeps.fail _

theorem orInvalid_keeps {α : Type} (text : String) (x : Option α) :
    Keeps p (Host.orInvalid text x : Act Tree α) := by
  cases x with
  | some a => exact Keeps.pure a
  | none => exact Keeps.fail _

theorem validated_keeps (s : Snapshot) : Keeps p (Host.validated s : Act Tree Unit) := by
  unfold Host.validated
  split
  · exact Keeps.pure ()
  · exact Keeps.fail _

theorem loadTask_ok {s : Site Tree} {u : TaskState} (hok : Host.loadTask task s = .ok (u, s')) :
    (∃ head, loadState s.db task = .ok (u, head)) ∧ s' = s := by
  unfold Host.loadTask at hok
  split at hok
  · rename_i u' head hl
    cases hok
    exact ⟨⟨head, hl⟩, rfl⟩
  · cases hok

theorem put_ok {limit : Nat} {bytes : List UInt8} {s : Site Tree} {d : Digest}
    (hok : s.put limit bytes = .ok (d, s')) :
    d = Digest.of bytes ∧ s'.db = s.db ∧ s'.working = s.working := by
  unfold Site.put at hok
  split at hok
  · cases hok
  split at hok
  · obtain ⟨_, -, hok⟩ := Checks.bind_ok hok
    cases hok
    exact ⟨rfl, rfl, rfl⟩
  · cases hok
    exact ⟨rfl, rfl, rfl⟩

theorem placeCandidate_ok {source : Digest} {tree : Tree} {s : Site Tree} {b : Bool}
    (hok : h.placeCandidate source tree s = .ok (b, s')) : s'.db = s.db ∧ s'.working = s.working := by
  unfold Host.placeCandidate at hok
  split at hok
  · cases hok
    exact ⟨rfl, rfl⟩
  · split at hok <;> cases hok <;> exact ⟨rfl, rfl⟩

theorem publishAt_ok {target : Target} {content : Published Tree} {s : Site Tree} {u : Unit}
    (hok : Host.publishAt target content s = .ok (u, s')) : s'.db = s.db ∧ s'.working = s.working := by
  unfold Host.publishAt at hok
  split at hok <;> cases hok <;> exact ⟨rfl, rfl⟩

namespace Host
section
variable {captured : Snapshot → Prop} {p : Moment Tree → Prop} (hp : Survives h captured p)
variable {snapshot : Snapshot}

include hp

theorem put_yields (bytes : List UInt8) : Yields p (· = Digest.of bytes) (h.put bytes) :=
  step_yields hp fun _ _ _ _ hok => put_ok hok

theorem putAll_keeps (contents : List (List UInt8)) : Keeps p (h.putAll contents) := by
  induction contents with
  | nil => exact Keeps.pure ()
  | cons bytes rest ih => exact Keeps.bind (put_yields hp bytes).keeps fun _ => ih

theorem loadTask_keeps (task : TaskId) : Keeps p (step (loadTask task) : Act Tree TaskState) :=
  (step_yields hp (g := fun _ => True) fun _ a s _ hok => by
    rw [(loadTask_ok hok).2]
    exact ⟨trivial, rfl, rfl⟩).keeps

theorem stopIfCancelled_keeps : Keeps p (stopIfCancelled : Act Tree Unit) :=
  Keeps.bind (look_keeps hp) fun _ => Keeps.refuse _ _

theorem capture_yields : Yields p captured h.capture := by
  have hscan : Yields p (fun found => captured ⟨1, .default, found.1⟩)
      (step (look fun s => h.scan .default s.working)) :=
    step_yields hp fun m a s hm hok => by
      obtain ⟨hread, rfl⟩ := look_ok hok
      exact ⟨hp.scanned hm hread, rfl, rfl⟩
  refine hscan.bind fun ⟨first, contents⟩ hfirst => ?_
  refine Keeps.bind_yields (putAll_keeps hp contents) fun _ => ?_
  refine Keeps.bind_yields (look_keeps hp) fun ⟨second, _⟩ => ?_
  refine Keeps.bind_yields (Keeps.refuse _ _) fun _ => ?_
  exact Keeps.bind_yields (validated_keeps _) fun _ => Yields.pure hfirst

theorem publish_yields (s : Snapshot) : Yields p (· = Digest.of (h.encode s)) (h.publish s) :=
  Keeps.bind_yields (validated_keeps s) fun _ => put_yields hp _

theorem derive_yields (state : TaskState) (snapshot : Snapshot) (source environment : Digest)
    (kind : DeliveryKind) :
    Yields p (·.source = source) (h.derive state snapshot source environment kind) := by
  unfold derive
  split
  · rename_i c hc
    have hsame := (Option.filter_eq_some_iff.mp hc).2
    exact Yields.pure (of_decide_eq_true hsame).1
  split
  · refine Keeps.bind_yields (orInvalid_keeps _ _) fun baseline => ?_
    refine Keeps.bind_yields (look_keeps hp) fun base => ?_
    refine Keeps.bind_yields (look_keeps hp) fun ⟨patch, receipt⟩ => ?_
    refine Keeps.bind_yields (put_yields hp patch).keeps fun _ => ?_
    exact Keeps.bind_yields (put_yields hp receipt).keeps fun _ => Yields.pure rfl
  · exact Yields.pure rfl

theorem select_keeps {candidate : Candidate} (hs : captured snapshot)
    (hc : candidate.source = Digest.of (h.encode snapshot)) (task : TaskId) (current : TaskState) :
    Keeps p (h.select task current candidate) := by
  unfold select
  refine Keeps.ite (Keeps.bind ?_ fun _ => Keeps.pure ()) (Keeps.pure ())
  refine transact_keeps (fun _ hm => hp.driftedLocked hm) fun _ _ _ hm hok => ?_
  obtain ⟨s, ha⟩ := selectCandidate_appends hok
  exact hp.select hm hs hc ha

theorem standsExact_keeps (snapshot : Snapshot) (source : Digest) :
    Keeps p (h.standsExact snapshot source) := look_keeps hp

theorem settleFrozen_keeps {candidate : Candidate} (hs : captured snapshot)
    (hc : candidate.source = Digest.of (h.encode snapshot)) (task : TaskId) (state : TaskState)
    (source : Digest) (staged : Tree) (exact : Bool) :
    Keeps p (h.settleFrozen task state snapshot source candidate staged exact) := by
  have hselect : ∀ current, Keeps p (do
      h.select task current candidate
      pure (some snapshot) : Act Tree (Option Snapshot)) := fun current =>
    Keeps.bind (select_keeps hp hs hc task current) fun _ => Keeps.pure _
  refine Keeps.bind (loadTask_keeps hp task) fun current => Keeps.ite ?_ (Keeps.pure _)
  refine Keeps.bind (look_locked_keeps hp) fun there => ?_
  refine Keeps.ite (Keeps.bind (Keeps.refuse _ _) fun _ => hselect current) ?_
  refine Keeps.bind (locked_keeps hp fun s _ s' hok => placeCandidate_ok hok) fun placed => ?_
  refine Keeps.ite (hselect current) ?_
  refine Keeps.bind (standsExact_keeps hp snapshot source) fun exact => ?_
  refine Keeps.bind (Keeps.refuse _ _) fun _ => Keeps.bind (loadTask_keeps hp task) fun current => ?_
  exact Keeps.ite (hselect current) (Keeps.pure _)

theorem freezeCaptured_keeps (hs : captured snapshot) (task : TaskId) (state : TaskState) :
    Keeps p (h.freezeCaptured task state snapshot) := by
  refine (publish_yields hp snapshot).then fun source hsource => ?_
  refine Keeps.bind (put_yields hp _).keeps fun environment => ?_
  refine Keeps.bind (orStore_keeps _) fun contract => ?_
  refine (derive_yields hp state snapshot source environment _).then fun candidate hc => ?_
  have hsettle := fun staged exact =>
    settleFrozen_keeps hp hs (hc.trans hsource) task state source staged exact
  refine Keeps.bind (look_keeps hp) fun staged => Keeps.bind (look_keeps hp) fun there => ?_
  refine Keeps.ite (Keeps.bind (standsExact_keeps hp snapshot source) fun exact => ?_) ?_
  · exact hsettle staged exact
  · exact hsettle staged false

theorem freezeRound_keeps (task : TaskId) : Keeps p (h.freezeRound task) := by
  refine Keeps.bind (stopIfCancelled_keeps hp) fun _ => ?_
  refine Keeps.bind (loadTask_keeps hp task) fun state => ?_
  exact (capture_yields hp).then fun snapshot hs => freezeCaptured_keeps hp hs task state

theorem freeze_keeps (n : Nat) (task : TaskId) : Keeps p (h.freeze n task) :=
  Keeps.bind (Keeps.refuse _ _) fun _ => rounds_keeps (freezeRound_keeps hp task) n

theorem reconcile_keeps : Keeps p (reconcile : Act Tree Unit) := look_keeps hp

theorem prepare_keeps {task : TaskId} {check : String} {state : TaskState} {lease : VerificationLease}
    {db : Db} (hm : p m) (hok : h.prepare task check state m.site = .ok (lease, db)) :
    p (m.withDb db) := by
  obtain ⟨_, -, hok⟩ := Checks.bind_ok hok
  obtain ⟨⟨lease', s', db'⟩, hbegin, hok⟩ := Checks.bind_ok hok
  cases hok
  obtain ⟨s, job, ha⟩ := beginCheck_appends hbegin
  exact hp.append hm rfl ha

theorem finishCheck_keeps {env : Env} {lease : VerificationLease} {report : Observation}
    {s : TaskState} {db : Db} (hm : p m) (hok : finishCheck env lease report m.site.db = .ok (s, db)) :
    p (m.withDb db) := by
  obtain ⟨s, evidence, ha⟩ := finishCheck_appends hok
  exact hp.append hm rfl ha

theorem verify_keeps (n : Nat) (task : TaskId) (check : String) : Keeps p (h.verify n task check) := by
  refine Keeps.bind (reconcile_keeps hp) fun _ => Keeps.bind (freeze_keeps hp n task) fun _ => ?_
  refine Keeps.bind (loadTask_keeps hp task) fun state => ?_
  refine Keeps.bind (Keeps.attempt (transact_keeps (fun _ hm => hp.driftedLocked hm)
    fun _ _ _ hm hok => prepare_keeps hp hm hok)) fun r => ?_
  cases r with
  | error e => exact Keeps.pure ()
  | ok lease =>
    refine Keeps.bind (look_keeps hp) fun report => ?_
    refine Keeps.bind (Keeps.attempt (transact_keeps (fun _ hm => hp.drifted hm)
      fun _ _ _ hm hok => finishCheck_keeps hp hm hok)) fun r => ?_
    cases r with
    | error e => exact Keeps.pure ()
    | ok s => exact Keeps.pure ()

theorem runChecks_keeps (n : Nat) (task : TaskId) (checks : List String) :
    Keeps p (h.runChecks n task checks) := by
  induction checks with
  | nil => exact Keeps.pure ()
  | cons check rest ih =>
    refine Keeps.bind (loadTask_keeps hp task) fun current => ?_
    exact Keeps.ite ih (Keeps.bind (verify_keeps hp n task check) fun _ => ih)

theorem confirmTree_keeps (snapshot : Snapshot) (target : Target) :
    Keeps p (h.confirmTree snapshot target) :=
  Keeps.bind (look_keeps hp) fun _ => Keeps.refuse _ _

theorem confirmFile_keeps (artifact : Digest) (target : Target) :
    Keeps p (confirmFile artifact target : Act Tree Unit) :=
  Keeps.bind (look_keeps hp) fun _ => Keeps.refuse _ _

theorem record_keeps (task : TaskId) (current : TaskState) (d : Delivery) :
    Keeps p (h.record task current d) := by
  refine Keeps.bind (transact_keeps (fun _ hm => hp.driftedLocked hm) fun _ _ _ hm hok => ?_)
    fun _ => Keeps.pure ()
  obtain ⟨s, ha, -⟩ := recordDelivery_appends hok
  exact hp.append hm rfl ha

theorem publishAndRecord_keeps {task : TaskId} {expected : TaskState} {target : Target}
    {content : Published Tree} {confirm : Act Tree Unit} {d : Delivery} (hc : Keeps p confirm) :
    Keeps p (h.publishAndRecord task expected target content confirm d) := by
  refine Keeps.bind (loadTask_keeps hp task) fun current => Keeps.ite ?_ (Keeps.pure _)
  refine Keeps.bind (locked_keeps hp fun s _ s' hok => publishAt_ok hok) fun _ => ?_
  refine Keeps.bind hc fun _ => Keeps.bind (loadTask_keeps hp task) fun current => ?_
  exact Keeps.ite (Keeps.bind (record_keeps hp task current d) fun _ => Keeps.pure _) (Keeps.pure _)

theorem deliverRound_keeps (task : TaskId) (snapshot : Snapshot) :
    Keeps p (h.deliverRound task snapshot) := by
  refine Keeps.bind (stopIfCancelled_keeps hp) fun _ => ?_
  refine Keeps.bind (loadTask_keeps hp task) fun expected => ?_
  refine Keeps.bind (orInvalid_keeps _ _) fun candidate => ?_
  refine Keeps.bind (orStore_keeps _) fun contract => ?_
  dsimp only
  cases contract.delivery with
  | patch =>
    refine Keeps.bind (look_keeps hp) fun bytes => Keeps.bind (put_yields hp _).keeps fun receipt => ?_
    exact publishAndRecord_keeps hp (confirmFile_keeps hp _ _)
  | source =>
    refine Keeps.bind (look_keeps hp) fun staged => Keeps.bind (put_yields hp _).keeps fun receipt => ?_
    exact publishAndRecord_keeps hp (confirmTree_keeps hp _ _)
  | _ => exact Keeps.fail _

end

end Host

/-! ## three properties that survive -/

/-- the database holds a world -/
def Readable (m : Moment Tree) : Prop := ∃ w, Represents m.site.db w

theorem Readable.drifted (hm : Readable m) : Readable m.drifted := by
  obtain ⟨w, hw⟩ := hm
  unfold Moment.drifted
  split
  · exact ⟨w, hw⟩
  · rename_i d rest _
    obtain ⟨w', hrun⟩ := d.runs m.site w hw
    exact ⟨w', hrun.represents hw⟩

theorem Readable.append {e : TaskEvent} (hm : Readable m) (ha : Appends m.site.db db task s e) :
    Readable (m.withDb db) := by
  obtain ⟨w, hw⟩ := hm
  exact ⟨_, (ha.written w hw).2.2⟩

theorem survives_readable (h : Host Tree) : Survives h (fun _ => True) Readable where
  drifted hm := hm.drifted
  driftedLocked hm := hm
  files := by
    rintro m s ⟨w, hw⟩ hdb -
    exact ⟨w, by rw [hdb]; exact hw⟩
  scanned _ _ := trivial
  select hm _ _ ha := hm.append ha
  append hm _ ha := hm.append ha

/-- what is still to happen has the property -/
def Ahead (q : Drift Tree → Prop) (m : Moment Tree) : Prop := ∀ drift ∈ m.script, q drift

theorem Ahead.drifted {q : Drift Tree → Prop} (hm : Ahead q m) : Ahead q m.drifted := by
  unfold Moment.drifted
  split
  · exact hm
  · rename_i d rest hscript
    exact fun drift hin => hm drift (by rw [hscript]; exact List.mem_cons_of_mem _ hin)

theorem survives_ahead (h : Host Tree) (q : Drift Tree → Prop) :
    Survives h (fun _ => True) (Ahead q) where
  drifted hm := hm.drifted
  driftedLocked hm := Ahead.drifted hm
  files hm _ _ := hm
  scanned _ _ := trivial
  select hm _ _ _ := hm
  append hm _ _ := hm

def KeepsTree (h : Host Tree) (drift : Drift Tree) : Prop :=
  ∀ s, (h.scan .default (drift.change s).working).map Prod.fst =
    (h.scan .default s.working).map Prod.fst

/-- the working tree is what was captured, and stays so -/
structure Standing (h : Host Tree) (entries : BTreeMap String Workspace.Entry) (m : Moment Tree) :
    Prop where
  found : (h.scan .default m.site.working).map Prod.fst = .ok entries
  ahead : Ahead (KeepsTree h) m

variable {entries : BTreeMap String Workspace.Entry}

theorem Standing.drifted (hm : Standing h entries m) : Standing h entries m.drifted := by
  refine ⟨?_, hm.ahead.drifted⟩
  have hfound := hm.found
  have hahead := hm.ahead
  unfold Moment.drifted
  split
  · exact hfound
  · rename_i d rest hscript
    exact (hahead d (by rw [hscript]; exact List.mem_cons_self) m.site).trans hfound

theorem survives_standing (h : Host Tree) (entries : BTreeMap String Workspace.Entry) :
    Survives h (fun snapshot => snapshot = ⟨1, .default, entries⟩) (Standing h entries) where
  drifted hm := hm.drifted
  driftedLocked hm := ⟨hm.drifted.found, hm.drifted.ahead⟩
  files := by
    rintro m s hm - hw
    exact ⟨by rw [hw]; exact hm.found, hm.ahead⟩
  scanned := by
    intro m found hm hok
    have hfound := hm.found
    rw [hok] at hfound
    rw [show found.1 = entries from Except.ok.inj hfound]
  select hm _ _ _ := ⟨hm.found, hm.ahead⟩
  append hm _ _ := ⟨hm.found, hm.ahead⟩

def KeepsCandidate (task : TaskId) (drift : Drift Tree) : Prop :=
  ∀ s u head c, loadState (drift.change s).db task = .ok (u, head) → u.candidate = some c →
    ∃ u₀ head₀ c₀, loadState s.db task = .ok (u₀, head₀) ∧ u₀.candidate = some c₀ ∧
      c.source = c₀.source

/-- a candidate of the task is of the source -/
structure Selected (task : TaskId) (source : Digest) (m : Moment Tree) : Prop where
  readable : Readable m
  candidate : ∀ u head c, loadState m.site.db task = .ok (u, head) → u.candidate = some c →
    c.source = source
  ahead : Ahead (KeepsCandidate task) m

section
variable {task : TaskId} {source : Digest}

theorem Selected.drifted (hm : Selected task source m) : Selected task source m.drifted := by
  refine ⟨hm.readable.drifted, ?_, hm.ahead.drifted⟩
  have hcandidate := hm.candidate
  have hahead := hm.ahead
  unfold Moment.drifted
  split
  · exact hcandidate
  · rename_i d rest hscript
    intro u head c hl hc
    obtain ⟨u₀, head₀, c₀, hl₀, hc₀, hsame⟩ :=
      hahead d (by rw [hscript]; exact List.mem_cons_self) m.site u head c hl hc
    exact hsame.trans (hcandidate u₀ head₀ c₀ hl₀ hc₀)

theorem Selected.append {id : TaskId} {s : TaskState} {e : TaskEvent} {db : Db}
    (hm : Selected task source m) (ha : Appends m.site.db db id s e)
    (he : ∀ c, (s.apply e).candidate = some c → s.candidate = some c ∨ c.source = source) :
    Selected task source (m.withDb db) := by
  refine ⟨hm.readable.append ha, fun u head c hl hc => ?_, hm.ahead⟩
  obtain ⟨w, hw⟩ := hm.readable
  rcases ha.loaded_after hw hl with ⟨rfl, rfl⟩ | ⟨-, head₀, hl₀⟩
  · rcases he c hc with hsame | hsource
    · obtain ⟨head₀, hl₀⟩ := ha.loaded
      exact hm.candidate s head₀ c hl₀ hsame
    · exact hsource
  · exact hm.candidate u head₀ c hl₀ hc

end

theorem survives_settled (h : Host Tree) (task : TaskId)
    (entries : BTreeMap String Workspace.Entry) :
    Survives h (fun snapshot => snapshot = ⟨1, .default, entries⟩) fun m => Standing h entries m ∧
      Selected task (Digest.of (h.encode ⟨1, .default, entries⟩)) m where
  drifted hm := ⟨hm.1.drifted, hm.2.drifted⟩
  driftedLocked hm := ⟨⟨hm.1.drifted.found, hm.1.drifted.ahead⟩,
    hm.2.readable, hm.2.candidate, hm.2.drifted.ahead⟩
  files := by
    rintro m s ⟨hstanding, hselected⟩ hdb hw
    refine ⟨(survives_standing h entries).files hstanding hdb hw,
      (survives_readable h).files hselected.readable hdb hw, ?_, hselected.ahead⟩
    rw [hdb]
    exact hselected.candidate
  scanned hm hok := (survives_standing h entries).scanned hm.1 hok
  select := by
    rintro m candidate snapshot id s db ⟨hstanding, hselected⟩ rfl hsource ha
    refine ⟨⟨hstanding.found, hstanding.ahead⟩, hselected.append ha fun c hc => .inr ?_⟩
    rw [← hsource, Option.some.inj (show some candidate = some c from hc)]
  append := by
    rintro m id s e db ⟨hstanding, hselected⟩ he ha
    refine ⟨⟨hstanding.found, hstanding.ahead⟩, hselected.append ha fun c hc => .inl ?_⟩
    rw [← he]
    exact hc

/-! ## the first freeze -/

/-- the freeze of `m` captures for the last time just before `captured`, and ends at `frozen` -/
inductive Host.Freezes (h : Host Tree) (task : TaskId) :
    Moment Tree → Snapshot → Moment Tree → Moment Tree → Prop
  | last {m m₁ m₂ captured frozen : Moment Tree} {state : TaskState} {snapshot s : Snapshot}
      (hstop : Host.stopIfCancelled m = (.ok (), m₁))
      (hload : step (Host.loadTask task) m₁ = (.ok state, m₂))
      (hcapture : h.capture m₂ = (.ok snapshot, captured))
      (hsettle : h.freezeCaptured task state snapshot captured = (.ok (some s), frozen)) :
      Freezes h task m s captured frozen
  | again {m m' captured frozen : Moment Tree} {s : Snapshot}
      (hround : h.freezeRound task m = (.ok none, m'))
      (hrest : Freezes h task m' s captured frozen) : Freezes h task m s captured frozen

namespace Host

variable {s : Snapshot}

theorem freeze_freezes {n : Nat} {task : TaskId} (hrun : h.freeze n task m = (.ok s, t)) :
    ∃ captured, h.Freezes task m s captured t := by
  obtain ⟨_, m₁, hrefuse, hloop⟩ := bind_inv hrun
  rw [(refuse_inv hrefuse).2] at hloop
  clear hrun hrefuse
  induction n generalizing m with
  | zero => cases hloop
  | succ n ih =>
    obtain ⟨r, m₂, hround, hrest⟩ := bind_inv hloop
    cases r with
    | none =>
      obtain ⟨captured, hf⟩ := ih hrest
      exact ⟨captured, .again hround hf⟩
    | some s' =>
      cases hrest
      obtain ⟨_, m₃, hstop, hround⟩ := bind_inv hround
      obtain ⟨state, m₄, hload, hround⟩ := bind_inv hround
      obtain ⟨snapshot, captured, hcapture, hsettle⟩ := bind_inv hround
      exact ⟨captured, .last hstop hload hcapture hsettle⟩

theorem validated_inv {u : Unit} (hrun : (validated s : Act Tree Unit) m = (.ok u, t)) : t = m := by
  unfold validated at hrun
  cases hv : s.validate with
  | ok _ =>
    rw [hv] at hrun
    cases hrun
    rfl
  | error e =>
    rw [hv] at hrun
    cases hrun

theorem capture_ok (hrun : h.capture m = (.ok s, t)) :
    (h.scan .default t.site.working).map Prod.fst = .ok s.entries ∧
      s = ⟨1, .default, s.entries⟩ := by
  obtain ⟨⟨first, contents⟩, m₁, -, hrun⟩ := bind_inv hrun
  obtain ⟨_, m₂, -, hrun⟩ := bind_inv hrun
  obtain ⟨⟨second, _⟩, m₃, hscan, hrun⟩ := bind_inv hrun
  obtain ⟨_, m₄, hrefuse, hrun⟩ := bind_inv hrun
  obtain ⟨_, m₅, hvalid, hrun⟩ := bind_inv hrun
  cases hrun
  obtain ⟨hsame, hm₄⟩ := refuse_inv hrefuse
  have hfirst : first = second := by simpa using hsame
  obtain ⟨site, hok, hm₃⟩ := stepAfter_ok hscan
  obtain ⟨hread, hsite⟩ := look_ok hok
  refine ⟨?_, rfl⟩
  rw [validated_inv hvalid, hm₄, hm₃, hfirst]
  show (h.scan .default site.working).map Prod.fst = _
  rw [hsite, hread]
  rfl

variable {task : TaskId}

theorem select_selects {current : TaskState} {candidate : Candidate} {u : Unit} (hm : Readable m)
    (hcurrent : ∃ head, loadState m.site.db task = .ok (current, head))
    (hrun : h.select task current candidate m = (.ok u, t)) :
    ∀ s head, loadState t.site.db task = .ok (s, head) → s.candidate = some candidate := by
  intro s head hl
  unfold select at hrun
  by_cases hsame : current.candidate = some candidate
  · rw [if_neg (not_not.mpr hsame)] at hrun
    cases hrun
    obtain ⟨head₀, hcurrent⟩ := hcurrent
    cases hcurrent.symm.trans hl
    exact hsame
  · rw [if_pos hsame] at hrun
    obtain ⟨_, m₁, hone, hrun⟩ := bind_inv hrun
    cases hrun
    obtain ⟨site, hok, rfl⟩ := stepAfter_ok hone
    obtain ⟨db, hdb, rfl⟩ := transact_ok hok
    obtain ⟨s₀, ha⟩ := selectCandidate_appends hdb
    obtain ⟨w, hw⟩ := hm
    rcases ha.loaded_after hw hl with ⟨-, rfl⟩ | ⟨hne, -⟩
    · rfl
    · exact absurd rfl hne

theorem loadTask_current {current : TaskState}
    (hrun : (step (loadTask task) : Act Tree TaskState) m = (.ok current, t)) :
    ∃ head, loadState t.site.db task = .ok (current, head) := by
  obtain ⟨site, hok, rfl⟩ := stepAfter_ok hrun
  obtain ⟨hload, rfl⟩ := loadTask_ok hok
  exact hload

theorem locked_db {α : Type} {f : Site Tree → Except HostError (α × Site Tree)} {a : α}
    (hf : ∀ s a s', f s = .ok (a, s') → s'.db = s.db) (hrun : locked f m = (.ok a, t)) :
    t.site.db = m.site.db := by
  obtain ⟨site, hok, rfl⟩ := stepAfter_ok hrun
  exact hf m.driftedLocked.site a site hok

theorem settleFrozen_selects {state : TaskState} {snapshot : Snapshot} {source : Digest}
    {candidate : Candidate} {staged : Tree} {exact : Bool} (hm : Readable m)
    (hrun : h.settleFrozen task state snapshot source candidate staged exact m = (.ok (some s), t)) :
    s = snapshot ∧
      ∀ u head, loadState t.site.db task = .ok (u, head) → u.candidate = some candidate := by
  have hp := survives_readable h
  have hselect : ∀ {current : TaskState} {m : Moment Tree}, Readable m →
      (∃ head, loadState m.site.db task = .ok (current, head)) → (do
        h.select task current candidate
        pure (some snapshot) : Act Tree (Option Snapshot)) m = (.ok (some s), t) → s = snapshot ∧
      ∀ u head, loadState t.site.db task = .ok (u, head) → u.candidate = some candidate := by
    intro current m hm hcurrent hrun
    obtain ⟨_, m₁, hone, hrun⟩ := bind_inv hrun
    cases hrun
    exact ⟨rfl, select_selects hm hcurrent hone⟩
  obtain ⟨current, m₁, hload, hrun⟩ := bind_inv hrun
  have hm₁ := Keeps.run (loadTask_keeps hp task) hm hload
  have hcurrent := loadTask_current hload
  split at hrun
  · obtain ⟨there, m₂, hthere, hrun⟩ := bind_inv hrun
    have hm₂ := Keeps.run (look_locked_keeps hp) hm₁ hthere
    rw [← locked_db (fun s _ s' hok => by rw [(look_ok hok).2]) hthere] at hcurrent
    split at hrun
    · obtain ⟨_, m₃, hrefuse, hrun⟩ := bind_inv hrun
      rw [(refuse_inv hrefuse).2] at hrun
      exact hselect hm₂ hcurrent hrun
    · obtain ⟨placed, m₃, hplaced, hrun⟩ := bind_inv hrun
      have hm₃ := Keeps.run (locked_keeps hp fun s _ s' hok => placeCandidate_ok hok) hm₂ hplaced
      rw [← locked_db (fun s _ s' hok => (placeCandidate_ok hok).1) hplaced] at hcurrent
      split at hrun
      · exact hselect hm₃ hcurrent hrun
      · -- the lock was released while the directory was compared, so the task is loaded again
        obtain ⟨_, m₄, hexact, hrun⟩ := bind_inv hrun
        have hm₄ := Keeps.run (standsExact_keeps hp snapshot source) hm₃ hexact
        obtain ⟨_, m₅, hrefuse, hrun⟩ := bind_inv hrun
        rw [(refuse_inv hrefuse).2] at hrun
        obtain ⟨current', m₆, hload', hrun⟩ := bind_inv hrun
        split at hrun
        · exact hselect (Keeps.run (loadTask_keeps hp task) hm₄ hload') (loadTask_current hload') hrun
        · cases hrun
  · cases hrun

theorem freezeCaptured_selects {state : TaskState} {snapshot : Snapshot} (hm : Readable m)
    (hrun : h.freezeCaptured task state snapshot m = (.ok (some s), t)) :
    s = snapshot ∧ ∀ u head c, loadState t.site.db task = .ok (u, head) → u.candidate = some c →
      c.source = Digest.of (h.encode snapshot) := by
  have hp := survives_readable h
  obtain ⟨source, m₁, hone, hrun⟩ := bind_inv hrun
  obtain ⟨hm₁, hsource⟩ := (publish_yields hp snapshot).run hm hone
  obtain ⟨environment, m₂, hone, hrun⟩ := bind_inv hrun
  have hm₂ := Keeps.run (put_yields hp _).keeps hm₁ hone
  obtain ⟨contract, m₃, hone, hrun⟩ := bind_inv hrun
  have hm₃ := Keeps.run (orStore_keeps _) hm₂ hone
  obtain ⟨candidate, m₄, hone, hrun⟩ := bind_inv hrun
  obtain ⟨hm₄, hcandidate⟩ := (derive_yields hp state snapshot source environment _).run hm₃ hone
  obtain ⟨staged, m₅, hone, hrun⟩ := bind_inv hrun
  have hm₅ := Keeps.run (look_keeps hp) hm₄ hone
  obtain ⟨there, m₆, hone, hrun⟩ := bind_inv hrun
  have hm₆ := Keeps.run (look_keeps hp) hm₅ hone
  have hend : s = snapshot ∧
      ∀ u head, loadState t.site.db task = .ok (u, head) → u.candidate = some candidate := by
    split at hrun
    · obtain ⟨exact, m₇, hone, hrun⟩ := bind_inv hrun
      exact settleFrozen_selects (Keeps.run (standsExact_keeps hp snapshot source) hm₆ hone) hrun
    · exact settleFrozen_selects hm₆ hrun
  refine ⟨hend.1, fun u head c hl hc => ?_⟩
  rw [← hsource, ← hcandidate, Option.some.inj (hc.symm.trans (hend.2 u head hl))]

/-- **When nobody changes the tree after the capture, or selects after the freeze, the task and its
tree are settled.** -/
theorem Freezes.settled {s : Snapshot} {captured : Moment Tree}
    (hf : h.Freezes task m s captured t) (hm : Readable m) :
    s = ⟨1, .default, s.entries⟩ ∧
      (Ahead (KeepsTree h) captured → Ahead (KeepsCandidate task) t → Standing h s.entries t ∧
        Selected task (Digest.of (h.encode ⟨1, .default, s.entries⟩)) t) := by
  have hp := survives_readable h
  induction hf with
  | again hround _ ih => exact ih (Keeps.run (freezeRound_keeps hp task) hm hround)
  | @last m m₁ m₂ captured frozen state snapshot s hstop hload hcapture hsettle =>
    have hm₁ := Keeps.run (stopIfCancelled_keeps hp) hm hstop
    have hm₂ := Keeps.run (loadTask_keeps hp task) hm₁ hload
    have hm₃ := Keeps.run (capture_yields hp).keeps hm₂ hcapture
    obtain ⟨hfound, hshape⟩ := capture_ok hcapture
    obtain ⟨rfl, hselected⟩ := freezeCaptured_selects hm₃ hsettle
    refine ⟨hshape, fun htree hcandidate => ?_⟩
    rw [← hshape]
    have hstanding := Keeps.run
      (freezeCaptured_keeps (survives_standing h s.entries) hshape task state)
      ⟨hfound, htree⟩ hsettle
    exact ⟨hstanding, Keeps.run (freezeCaptured_keeps hp trivial task state) hm₃ hsettle, hselected,
      hcandidate⟩

theorem Freezes.ahead {captured : Moment Tree} {q : Drift Tree → Prop} (hf : h.Freezes task m s captured t)
    (hm : Ahead q m) : Ahead q captured ∧ Ahead q t := by
  have hp := survives_ahead h q
  induction hf with
  | again hround _ ih => exact ih (Keeps.run (freezeRound_keeps hp task) hm hround)
  | @last m m₁ m₂ captured frozen state snapshot s hstop hload hcapture hsettle =>
    have hm₁ := Keeps.run (stopIfCancelled_keeps hp) hm hstop
    have hm₂ := Keeps.run (loadTask_keeps hp task) hm₁ hload
    have hm₃ := Keeps.run (capture_yields hp).keeps hm₂ hcapture
    exact ⟨hm₃, Keeps.run (freezeCaptured_keeps hp trivial task state) hm₃ hsettle⟩

end Host

/-! ## the record of a delivery -/

/-- the task in the database has the delivery, which is of its candidate and of the kind that its
contract asks for -/
structure Recorded (db : Db) (task : TaskId) (d : Delivery) (w : World) (u : TaskState)
    (c : Candidate) : Prop where
  represents : Represents db w
  stored : w.tasks task = some u
  delivered : u.delivery = some d
  selected : u.candidate = some c
  source : d.source = c.source
  artifact : d.artifact = c.artifact
  kind : ∃ contract, u.acceptedContract = .ok contract ∧ d.kind = contract.delivery

theorem recordDelivery_recorded {env : Env} {db' : Db} {w : World} {revision : Nat} {d : Delivery}
    (hw : Represents db w) (hok : recordDelivery env task revision d db = .ok (s, db')) :
    ∃ w' c, Recorded db' task d w' s c := by
  obtain ⟨u, ha, rfl, c, contract, hc, hcontract, hsource, hartifact, hkind⟩ :=
    recordDelivery_appends hok
  obtain ⟨rfl, -, hr⟩ := ha.written w hw
  refine ⟨_, c, hr, ?_, rfl, hc, hsource, hartifact, contract, hcontract, hkind⟩
  rw [← apply_id u (.delivered d)]
  exact World.setTask_get w _

/-- reading with nothing excluded -/
def whole : SnapshotPolicy := { SnapshotPolicy.default with excludedRoots := [] }

/-- what the loop compared: the file with its digest, the tree with what the first freeze captured -/
def Confirmed (h : Host Tree) (snapshot : Snapshot) (d : Delivery)
    (deliveries : Target → Option (Published Tree)) : Prop :=
  match d.kind with
  | .patch => ∃ bytes, deliveries (.patch d.artifact) = some (.file bytes) ∧ Digest.of bytes = d.artifact
  | _ => ∃ tree found, deliveries (.source d.source) = some (.tree tree) ∧ h.scan whole tree = .ok found ∧
      found.1 = snapshot.entries

section
variable {α : Type} {f : Site Tree → Except HostError (α × Site Tree)} {a : α}

theorem step_deliveries (hf : ∀ s a s', f s = .ok (a, s') → s'.deliveries = s.deliveries)
    (hrun : step f m = (.ok a, t)) : t.site.deliveries = m.site.deliveries := by
  obtain ⟨s, hok, rfl⟩ := stepAfter_ok hrun
  exact (hf _ a s hok).trans (drifted_deliveries m)

theorem locked_deliveries (hf : ∀ s a s', f s = .ok (a, s') → s'.deliveries = s.deliveries)
    (hrun : locked f m = (.ok a, t)) : t.site.deliveries = m.site.deliveries := by
  obtain ⟨s, hok, rfl⟩ := stepAfter_ok hrun
  exact (hf _ a s hok).trans (driftedLocked_deliveries m)

end

namespace Host

variable {snapshot : Snapshot}

theorem confirmTree_ok {target : Target} {u : Unit} (hdefault : snapshot.policy = .default)
    (hrun : h.confirmTree snapshot target m = (.ok u, t)) :
    ∃ tree found, t.site.deliveries target = some (.tree tree) ∧ h.scan whole tree = .ok found ∧
      found.1 = snapshot.entries := by
  obtain ⟨exact, m₁, hlook, hrun⟩ := bind_inv hrun
  obtain ⟨hexact, rfl⟩ := refuse_inv hrun
  obtain ⟨s, hok, rfl⟩ := stepAfter_ok hlook
  obtain ⟨hread, rfl⟩ := look_ok hok
  split at hread
  · rename_i tree htree
    unfold matchesExact at hread
    rw [hdefault] at hread
    cases hscan : h.scan whole tree with
    | error e =>
      rw [show h.scan { SnapshotPolicy.default with excludedRoots := [] } tree = _ from hscan] at hread
      cases hread
    | ok found =>
      rw [show h.scan { SnapshotPolicy.default with excludedRoots := [] } tree = _ from hscan] at hread
      cases hread
      exact ⟨tree, found, htree, hscan, by simpa using hexact⟩
  · cases hread

theorem confirmFile_ok {artifact : Digest} {target : Target} {u : Unit}
    (hrun : (confirmFile artifact target : Act Tree Unit) m = (.ok u, t)) :
    ∃ bytes, t.site.deliveries target = some (.file bytes) ∧ Digest.of bytes = artifact := by
  obtain ⟨bytes, m₁, hlook, hrun⟩ := bind_inv hrun
  obtain ⟨hsame, rfl⟩ := refuse_inv hrun
  obtain ⟨s, hok, rfl⟩ := stepAfter_ok hlook
  obtain ⟨hread, rfl⟩ := look_ok hok
  split at hread
  · rename_i bytes' hfile
    cases hread
    exact ⟨bytes, hfile, by simpa using hsame⟩
  · cases hread

theorem record_ok {task : TaskId} {current : TaskState} {d : Delivery} {u : Unit} (hm : Readable m)
    (hrun : h.record task current d m = (.ok u, t)) :
    (∃ w s c, Recorded t.site.db task d w s c) ∧ t.site.deliveries = m.site.deliveries := by
  obtain ⟨s, m₁, hone, hrun⟩ := bind_inv hrun
  cases hrun
  refine ⟨?_, locked_deliveries (fun s a s' hok => ?_) hone⟩
  · obtain ⟨w, hw⟩ := hm
    obtain ⟨site, hok, rfl⟩ := stepAfter_ok hone
    obtain ⟨db, hdb, rfl⟩ := transact_ok hok
    obtain ⟨w', c, hrecorded⟩ := recordDelivery_recorded hw hdb
    exact ⟨w', s, c, hrecorded⟩
  · obtain ⟨db, -, rfl⟩ := transact_ok hok
    rfl

section
variable {task : TaskId} {expected : TaskState} {target : Target} {content : Published Tree}
  {confirm : Act Tree Unit} {d d' : Delivery}

theorem publishAndRecord_ok {p : (Target → Option (Published Tree)) → Prop}
    (hk : Keeps Readable confirm) (hc : ∀ {m t u}, confirm m = (.ok u, t) → p t.site.deliveries)
    (hm : Readable m)
    (hrun : h.publishAndRecord task expected target content confirm d m = (.ok (some d'), t)) :
    d' = d ∧ p t.site.deliveries ∧ ∃ w u c, Recorded t.site.db task d w u c := by
  have hp := survives_readable h
  obtain ⟨current, m₁, hload, hrun⟩ := bind_inv hrun
  have hm₁ := Keeps.run (loadTask_keeps hp task) hm hload
  split at hrun
  · obtain ⟨_, m₂, hpublish, hrun⟩ := bind_inv hrun
    have hm₂ := Keeps.run (locked_keeps hp fun s _ s' hok => publishAt_ok hok) hm₁ hpublish
    obtain ⟨_, m₃, hconfirm, hrun⟩ := bind_inv hrun
    have hm₃ := Keeps.run (hk) hm₂ hconfirm
    obtain ⟨current', m₄, hload', hrun⟩ := bind_inv hrun
    have hm₄ := Keeps.run (loadTask_keeps hp task) hm₃ hload'
    have hsame := step_deliveries (fun s _ s' hok => by rw [(loadTask_ok hok).2]) hload'
    split at hrun
    · obtain ⟨_, m₅, hrecord, hrun⟩ := bind_inv hrun
      cases hrun
      obtain ⟨hrecorded, hkept⟩ := record_ok hm₄ hrecord
      refine ⟨rfl, ?_, hrecorded⟩
      rw [hkept, hsame]
      exact hc hconfirm
    · cases hrun
  · cases hrun

end

/-- **What a round has confirmed stands when its delivery is recorded.** -/
theorem deliverRound_ok {task : TaskId} {d : Delivery} (hdefault : snapshot.policy = .default)
    (hm : Readable m) (hrun : h.deliverRound task snapshot m = (.ok (some d), t)) :
    Confirmed h snapshot d t.site.deliveries ∧ ∃ w u c, Recorded t.site.db task d w u c := by
  have hp := survives_readable h
  obtain ⟨_, m₁, hone, hrun⟩ := bind_inv hrun
  have hm₁ := Keeps.run (stopIfCancelled_keeps hp) hm hone
  obtain ⟨expected, m₂, hone, hrun⟩ := bind_inv hrun
  have hm₂ := Keeps.run (loadTask_keeps hp task) hm₁ hone
  obtain ⟨candidate, m₃, hone, hrun⟩ := bind_inv hrun
  have hm₃ := Keeps.run (orInvalid_keeps _ _) hm₂ hone
  obtain ⟨contract, m₄, hone, hrun⟩ := bind_inv hrun
  have hm₄ := Keeps.run (orStore_keeps _) hm₃ hone
  cases hkind : contract.delivery with
  | patch =>
    rw [hkind] at hrun
    obtain ⟨bytes, m₅, hone, hrun⟩ := bind_inv hrun
    have hm₅ := Keeps.run (look_keeps hp) hm₄ hone
    obtain ⟨receipt, m₆, hone, hrun⟩ := bind_inv hrun
    have hm₆ := Keeps.run (put_yields hp _).keeps hm₅ hone
    obtain ⟨rfl, hstands, hrecorded⟩ := publishAndRecord_ok (confirmFile_keeps hp _ _)
      (p := fun deliveries => ∃ bytes, deliveries (.patch candidate.artifact) = some (.file bytes) ∧
        Digest.of bytes = candidate.artifact) confirmFile_ok hm₆ hrun
    exact ⟨hstands, hrecorded⟩
  | source =>
    rw [hkind] at hrun
    obtain ⟨staged, m₅, hone, hrun⟩ := bind_inv hrun
    have hm₅ := Keeps.run (look_keeps hp) hm₄ hone
    obtain ⟨receipt, m₆, hone, hrun⟩ := bind_inv hrun
    have hm₆ := Keeps.run (put_yields hp _).keeps hm₅ hone
    obtain ⟨rfl, hstands, hrecorded⟩ := publishAndRecord_ok (confirmTree_keeps hp _ _)
      (p := fun deliveries => ∃ tree found, deliveries (.source candidate.source) = some (.tree tree) ∧
        h.scan whole tree = .ok found ∧ found.1 = snapshot.entries) (confirmTree_ok hdefault) hm₆ hrun
    exact ⟨hstands, hrecorded⟩
  | _ =>
    rw [hkind] at hrun
    cases hrun

/-- **A delivery that was recorded stands as it was confirmed; when the tree stood and nobody else
selected, it is of the source that the first freeze captured.** -/
theorem deliver_ok {n : Nat} {task : TaskId} {d : Delivery} (hm : Readable m)
    (hrun : h.deliver n task m = (.ok (snapshot, d), t)) :
    Confirmed h snapshot d t.site.deliveries ∧ (∃ w u c, Recorded t.site.db task d w u c) ∧
      ∃ begun captured frozen, reconcile m = (.ok (), begun) ∧
        h.Freezes task begun snapshot captured frozen ∧ snapshot = ⟨1, .default, snapshot.entries⟩ ∧
        (Ahead (KeepsTree h) captured → Ahead (KeepsCandidate task) frozen →
          Selected task (Digest.of (h.encode snapshot)) t) := by
  have hp := survives_readable h
  obtain ⟨_, m₁, hreconcile, hrun⟩ := bind_inv hrun
  have hm₁ := Keeps.run (reconcile_keeps hp) hm hreconcile
  obtain ⟨snapshot', m₂, hfreeze, hrun⟩ := bind_inv hrun
  obtain ⟨captured, hf⟩ := freeze_freezes hfreeze
  obtain ⟨state, m₃, hload, hrun⟩ := bind_inv hrun
  obtain ⟨contract, m₄, hcontract, hrun⟩ := bind_inv hrun
  obtain ⟨_, m₅, hchecks, hrun⟩ := bind_inv hrun
  obtain ⟨d', m₆, hloop, hrun⟩ := bind_inv hrun
  cases hrun
  obtain ⟨hshape, hsettled⟩ := hf.settled hm₁
  -- one way through the checks and the loop, for each property that survives
  have hkeeps : ∀ {known : Snapshot → Prop} {p : Moment Tree → Prop}, Survives h known p →
      p m₂ → p m₅ ∧ p t := by
    intro known p hq hm₂
    have hm₃ := Keeps.run (loadTask_keeps hq task) hm₂ hload
    have hm₄ := Keeps.run (orStore_keeps _) hm₃ hcontract
    have hm₅ := Keeps.run (runChecks_keeps hq n task _) hm₄ hchecks
    exact ⟨hm₅, Keeps.run (rounds_keeps (deliverRound_keeps hq task snapshot) n) hm₅ hloop⟩
  have hm₅ := (hkeeps hp (Keeps.run (freeze_keeps hp n task) hm₁ hfreeze)).1
  obtain ⟨m₇, hm₇, hround⟩ := rounds_ok (deliverRound_keeps hp task snapshot) hm₅ hloop
  have hdefault : snapshot.policy = .default := by rw [hshape]
  obtain ⟨hconfirmed, hrecorded⟩ := deliverRound_ok hdefault hm₇ hround
  refine ⟨hconfirmed, hrecorded, m₁, captured, m₂, hreconcile, hf, hshape, fun htree hcandidate => ?_⟩
  have hend := (hkeeps (survives_settled h task snapshot.entries) (hsettled htree hcandidate)).2
  rw [← hshape] at hend
  exact hend.2

end Host

/-! ## what is certified -/

theorem complete_delivery {env : Env} {db' : Db} {w : World} {revision : Nat} (hw : Represents db w)
    (hok : complete env task revision db = .ok (s, db')) :
    ∃ u d c, w.tasks task = some u ∧ u.delivery = some d ∧ s.certificates.getLast? = some c ∧
      c.source = d.source ∧ c.artifact = d.artifact := by
  obtain ⟨u, head, e, leases, hl, hop, -, happ⟩ := change_ok hok
  obtain ⟨c, hc, hop⟩ := Checks.bind_ok hop
  obtain ⟨_, -, hop⟩ := Checks.bind_ok hop
  obtain ⟨_, -, hop⟩ := Checks.bind_ok hop
  cases hop
  obtain ⟨d, hd, hsource, hartifact⟩ := Completion.evaluate_delivery (Checks.mapError_ok hc)
  obtain ⟨hu, rfl, hhead⟩ := hw.of_loadState hl
  obtain ⟨rfl, -⟩ := (hw.withLeases db.leases).appendTask happ hu hhead rfl rfl
  exact ⟨u, d, c, hu, hd, List.getLast?_concat, hsource, hartifact⟩

/-- transactions none of which gives the task another delivery -/
inductive Apart (task : TaskId) (d : Delivery) (db : Db) (w : World) : Db → World → Prop
  | refl : Apart task d db w db w
  | step {db₁ db₂ : Db} {w₁ : World} {written : Option TaskState} {session : Option SessionState}
      (h : Apart task d db w db₁ w₁) (hs : Orvek.Step anyDraw db₁ written session db₂)
      (hd : ∀ s, written = some s → s.id = task → ∀ d', s.delivery = some d' → d' = d) :
      Apart task d db w db₂ (w₁.write written session)

section
variable {task : TaskId} {d : Delivery} {db db' : Db} {w w' : World}

theorem Apart.run (h : Apart task d db w db' w') : Run anyDraw db w db' w' := by
  induction h with
  | refl => exact .refl
  | step _ hs _ ih => exact ih.step hs

theorem Apart.delivery (h : Apart task d db w db' w')
    (hd : ∀ s, w.tasks task = some s → ∀ d', s.delivery = some d' → d' = d) :
    ∀ s, w'.tasks task = some s → ∀ d', s.delivery = some d' → d' = d := by
  induction h with
  | refl => exact hd
  | @step db₁ db₂ w₁ written session hrun hs hone ih =>
    intro s hstored
    rw [World.write_tasks] at hstored
    cases written with
    | none => exact ih s hstored
    | some u =>
      have hget : Function.update w₁.tasks u.id (some u) task = some s := hstored
      by_cases he : task = u.id
      · rw [he, Function.update_self] at hget
        rw [← Option.some.inj hget]
        exact hone u rfl he.symm
      · rw [Function.update_of_ne he] at hget
        exact ih s hget

end

/-! ## the delivery and the certificate -/

/-- what stands at the destination is what the delivery names: the bytes of its artifact, or a tree
whose snapshot is the source -/
def Exact (h : Host Tree) (s : Site Tree) (d : Delivery) : Prop :=
  match d.kind with
  | .patch => ∃ bytes, s.deliveries (.patch d.artifact) = some (.file bytes) ∧ Digest.of bytes = d.artifact
  | _ => ∃ tree found, s.deliveries (.source d.source) = some (.tree tree) ∧
      h.scan whole tree = .ok found ∧ Digest.of (h.encode ⟨1, .default, found.1⟩) = d.source

/-- after the capture of the first freeze nobody changes what a scan of the working tree finds, and
after its end nobody else gives the task a candidate of another source -/
structure Steady (h : Host Tree) (task : TaskId) (captured frozen : Moment Tree) : Prop where
  tree : Ahead (KeepsTree h) captured
  candidate : Ahead (KeepsCandidate task) frozen

/-- **What is delivered, and what is certified**: when `try_complete` has recorded a delivery, it is of
the candidate that the task has.  What stands at its destination is what it names, for a patch in
every run, and for a tree in every run that is steady.  A completion that follows, whatever else the
store does but record another delivery, certifies its source and artifact. -/
theorem delivered_exact {n : Nat} {task : TaskId} {snapshot : Snapshot} {d : Delivery} (hm : Readable m)
    (hrun : h.deliver n task m = (.ok (snapshot, d), t)) :
    ∃ begun captured frozen w u c, Host.reconcile m = (.ok (), begun) ∧
      h.Freezes task begun snapshot captured frozen ∧ Recorded t.site.db task d w u c ∧
      (d.kind = .patch ∨ Steady h task captured frozen → Exact h t.site d) ∧
      ∀ db w' env revision s db', Apart task d t.site.db w db w' →
        complete env task revision db = .ok (s, db') →
        ∃ certificate, s.certificates.getLast? = some certificate ∧
          certificate.source = d.source ∧ certificate.artifact = d.artifact := by
  obtain ⟨hconfirmed, ⟨w, u, c, hrecorded⟩, begun, captured, frozen, hbegun, hf, hshape, hselected⟩ :=
    Host.deliver_ok hm hrun
  refine ⟨begun, captured, frozen, w, u, c, hbegun, hf, hrecorded, fun hwhen => ?_,
    fun db w' env revision s db' hapart hok => ?_⟩
  · unfold Confirmed at hconfirmed
    unfold Exact
    split at hconfirmed
    · exact hconfirmed
    · rename_i hkind
      rcases hwhen with hpatch | ⟨htree, hcandidate⟩
      · exact absurd hpatch hkind
      · obtain ⟨tree, found, hplaced, hscan, hfound⟩ := hconfirmed
        obtain ⟨head, hload⟩ := hrecorded.represents.loadState hrecorded.stored
        have hsource := (hselected htree hcandidate).candidate u head c hload hrecorded.selected
        refine ⟨tree, found, hplaced, hscan, ?_⟩
        rw [hrecorded.source, hsource, hfound, ← hshape]
  · have hown : ∀ s, w.tasks task = some s → ∀ d', s.delivery = some d' → d' = d := by
      intro s hs d' hd'
      rw [hrecorded.stored] at hs
      cases hs
      rw [hrecorded.delivered] at hd'
      exact (Option.some.inj hd').symm
    obtain ⟨u', d', certificate, hu', hd', hlast, hsource, hartifact⟩ :=
      complete_delivery (hapart.run.represents hrecorded.represents) hok
    rw [hapart.delivery hown u' hu' d' hd'] at hsource hartifact
    exact ⟨certificate, hlast, hsource, hartifact⟩

/-- a task that `try_complete` completes is certified after its delivery, and after what others did
meanwhile -/
theorem Host.tryComplete_completed {n : Nat} (hm : Readable m)
    (hrun : h.tryComplete n task m = (.ok (some s), t)) :
    ∃ snapshot d m₁ w db w' env revision db', h.deliver n task m = (.ok (snapshot, d), m₁) ∧
      Represents m₁.site.db w ∧ Run anyDraw m₁.site.db w db w' ∧
      complete env task revision db = .ok (s, db') := by
  obtain ⟨⟨snapshot, d⟩, m₁, hdeliver, hrun⟩ := bind_inv hrun
  obtain ⟨-, ⟨w, u, c, hrecorded⟩, -⟩ := Host.deliver_ok hm hdeliver
  obtain ⟨state, m₂, hload, hrun⟩ := bind_inv hrun
  obtain ⟨r, m₃, hattempt, hrun⟩ := bind_inv hrun
  -- the transaction runs in the database that the last look at the task has seen
  have hdb : m₂.site.db = m₁.drifted.site.db := by
    obtain ⟨site, hok, rfl⟩ := stepAfter_ok hload
    rw [(loadTask_ok hok).2]
  have hdrift : ∃ w', Run anyDraw m₁.site.db w m₁.drifted.site.db w' := by
    unfold Moment.drifted
    split
    · exact ⟨w, .refl⟩
    · rename_i drift _ _
      exact drift.runs m₁.site w hrecorded.represents
  obtain ⟨w', hothers⟩ := hdrift
  cases r with
  | error e =>
    cases e with
    | store e => cases e <;> cases hrun
    | _ => cases hrun
  | ok s' =>
    cases hrun
    have hone : locked (transact fun s => complete (h.env s) task state.revision s.db) m₂ =
        (.ok s, t) := by
      rw [attempt_apply] at hattempt
      obtain ⟨hresult, hend⟩ := Prod.mk.inj hattempt
      exact Prod.ext (Except.ok.inj hresult) hend
    obtain ⟨site, hok, -⟩ := stepAfter_ok hone
    obtain ⟨db', hcomplete, -⟩ := transact_ok hok
    have hlocked : m₂.driftedLocked.site.db = m₁.drifted.site.db := hdb
    rw [hlocked] at hcomplete
    exact ⟨snapshot, d, m₁, w, _, w', _, _, db', hdeliver, hrecorded.represents, hothers, hcomplete⟩

end Orvek.Deliveries

/-! ## a tree that changes after the first freeze -/

namespace Orvek.Deliveries
open Effects Prog Workspace Orvek.Sample

namespace EntryTrees

abbrev Entries := BTreeMap String Workspace.Entry

def oneDirectory : Entries := (∅ : Entries).insert "d" (.directory 0o755)

/-- trees are the entries that a scan finds, a snapshot is stored as the number of its entries, and no
check can be prepared -/
def plain : Host Entries where
  scan _ tree := .ok (tree, [])
  materialize snapshot _ := .ok snapshot.entries
  clash _ := .ok false
  encode snapshot := [UInt8.ofNat snapshot.entries.size]
  decode
    | [0] => some ⟨1, .default, ∅⟩
    | [1] => some ⟨1, .default, oneDirectory⟩
    | _ => none
  artifactLimit := 1000
  executor := true
  environment := []
  patch _ _ := .error .io
  receipt _ _ := []
  env _ := Orvek.Sample.env
  admissible _ _ _ := .error .cancelled
  drawn _ := (⟨1⟩, ⟨2⟩)
  observe _ _ := ⟨.passed, ⟨0⟩, 0, none, 0, none, none, none, true, [], []⟩

/-- the store of the example task -/
def startDb : Db :=
  match create Orvek.Sample.env taskId contract Db.empty with
  | .ok (_, db) => db
  | .error _ => Db.empty

def idle : Drift Entries := ⟨id, none, fun _ w _ => ⟨w, .refl⟩⟩

/-- the working tree becomes another one -/
def edit : Drift Entries := ⟨fun s => { s with working := oneDirectory }, none, fun _ w _ => ⟨w, .refl⟩⟩

/-- another artifact is stored -/
def note : Drift Entries :=
  ⟨fun s => { s with artifacts := Function.update s.artifacts ⟨0⟩ (some [2]) }, none,
    fun _ w _ => ⟨w, .refl⟩⟩

def start (script : List (Drift Entries)) : Moment Entries :=
  ⟨⟨startDb, fun _ => none, ∅, fun _ => none, fun _ => none, false⟩, script⟩

theorem start_readable (script : List (Drift Entries)) : Readable (start script) := by
  show ∃ w, Represents startDb w
  unfold startDb
  split
  · rename_i s db hc
    have hone : Run anyDraw Db.empty World.empty db _ := Run.step .refl (.create hc)
    exact ⟨_, hone.represents represents_empty⟩
  · exact ⟨_, represents_empty⟩

theorem delivers {m : Moment Entries} {found : Snapshot × Delivery → Site Entries → Bool}
    (hrun : (match plain.deliver 1 taskId m with
      | (.ok r, t) => found r t.site
      | _ => false) = true) :
    ∃ snapshot d t, plain.deliver 1 taskId m = (.ok (snapshot, d), t) ∧ found (snapshot, d) t.site = true := by
  split at hrun
  · rename_i r t hr
    exact ⟨r.1, r.2, t, hr, hrun⟩
  · cases hrun

def deliveredTree (d : Delivery) (s : Site Entries) : Option Entries :=
  match s.deliveries (.source d.source) with
  | some (.tree tree) => some tree
  | _ => none

def stale (r : Snapshot × Delivery) (s : Site Entries) : Bool :=
  decide (r.2.kind = .source ∧ (deliveredTree r.2 s).map (·.size) = some 0 ∧
    r.2.source = Digest.of [1])

def faithful (r : Snapshot × Delivery) (s : Site Entries) : Bool :=
  decide ((deliveredTree r.2 s).map (·.size) = some 1)

theorem names_differ : Digest.of [0] ≠ Digest.of [1] := by decide +kernel

end EntryTrees

open EntryTrees in
theorem delivered_stale : ∃ m snapshot d t, Readable m ∧
    plain.deliver 1 taskId m = (.ok (snapshot, d), t) ∧ ¬ Exact plain t.site d := by
  obtain ⟨snapshot, d, t, hrun, hfound⟩ :=
    @delivers (start (List.replicate 13 idle ++ [edit])) stale (by decide +kernel)
  obtain ⟨hkind, hsize, hsource⟩ := of_decide_eq_true hfound
  refine ⟨_, snapshot, d, t, start_readable _, hrun, fun hexact => ?_⟩
  unfold Exact at hexact
  rw [show d.kind = .source from hkind] at hexact
  obtain ⟨tree, found, htree, hscan, hsame⟩ := hexact
  cases hscan
  unfold deliveredTree at hsize
  rw [htree] at hsize
  have hencode : plain.encode ⟨1, .default, tree⟩ = [0] := by
    show [UInt8.ofNat tree.size] = [0]
    rw [show tree.size = 0 from Option.some.inj hsize]
    rfl
  rw [hencode] at hsame
  exact names_differ (hsame.trans hsource)

/-- the tree changes before the first freeze, and afterwards only an artifact is stored -/
def EntryTrees.noted : Moment EntryTrees.Entries :=
  EntryTrees.start (EntryTrees.edit :: (List.replicate 12 EntryTrees.idle ++ [EntryTrees.note]))

open EntryTrees in
theorem EntryTrees.noted_delivers : ∃ snapshot d t,
    plain.deliver 1 taskId noted = (.ok (snapshot, d), t) ∧
      (deliveredTree d t.site).map (·.size) = some 1 := by
  obtain ⟨snapshot, d, t, hrun, hfound⟩ := @delivers noted faithful (by decide +kernel)
  exact ⟨snapshot, d, t, hrun, of_decide_eq_true hfound⟩

open EntryTrees in
theorem EntryTrees.noted_ahead {begun : Moment Entries} (hbegun : Host.reconcile noted = (.ok (), begun))
    {q : Drift Entries → Prop} (hidle : q idle) (hnote : q note) : Ahead q begun := by
  have hscript : begun.script = List.replicate 12 idle ++ [note] := by
    cases hbegun
    rfl
  intro drift hin
  rw [hscript, List.mem_append, List.mem_singleton] at hin
  rcases hin with hin | rfl
  · rw [List.eq_of_mem_replicate hin]
    exact hidle
  · exact hnote

open EntryTrees in
theorem delivered_exact_steady : ∃ snapshot d t captured frozen w u c,
    plain.deliver 1 taskId noted = (.ok (snapshot, d), t) ∧
    Steady plain taskId captured frozen ∧ Recorded t.site.db taskId d w u c ∧
    Exact plain t.site d ∧ (deliveredTree d t.site).map (·.size) = some 1 ∧
    ∀ db w' env revision s db', Apart taskId d t.site.db w db w' →
      complete env taskId revision db = .ok (s, db') →
      ∃ certificate, s.certificates.getLast? = some certificate ∧
        certificate.source = d.source ∧ certificate.artifact = d.artifact := by
  obtain ⟨snapshot, d, t, hrun, hfound⟩ := noted_delivers
  obtain ⟨begun, captured, frozen, w, u, c, hbegun, hf, hrecorded, hexact, hcertified⟩ :=
    delivered_exact (start_readable _) hrun
  have hsteady : Steady plain taskId captured frozen :=
    ⟨(hf.ahead (noted_ahead hbegun (fun _ => rfl) fun _ => rfl)).1,
      (hf.ahead (noted_ahead hbegun (fun _ u head c hl hc => ⟨u, head, c, hl, hc, rfl⟩)
        fun _ u head c hl hc => ⟨u, head, c, hl, hc, rfl⟩)).2⟩
  exact ⟨snapshot, d, t, captured, frozen, w, u, c, hrun, hsteady, hrecorded, hexact (.inr hsteady),
    hfound, hcertified⟩

end Orvek.Deliveries
