import Orvek.Store.Runs

/-!
# Verification leases

A check runs outside the store for as long as it takes, while other operations go on.  Its result
becomes evidence only when the lease of the check is still good.  What makes that safe:

* `Orderly`            what every appended event does to the jobs and the evidence of a task;
* `Continues`          the generation only grows, and a job stays what it was when it began;
* `Ledger`             the evidence of a task, entry by entry, is that of jobs that have ended;
* `stale_never_evidence`   the three guarantees over all runs.

The identifiers that are drawn for jobs are new to the task.
-/

set_option linter.unusedSectionVars false

namespace Orvek
open Checks Completion

section
variable [Sha256] [ContractCodec] [SessionCodec] [StoreCodec] [JsonReader]
variable {s : TaskState} {e : TaskEvent}

def fresh (s : TaskState) (job : Uuid) : Prop := s.jobs[job]? = none

/-! ## one event -/

def Orderly (s : TaskState) : TaskEvent → Prop
  | .manualStarted job => fresh s job.id
  | .jobStarted job => fresh s job.id
  | .jobSettled _ status _ => status ≠ .running
  | .observed e => ∃ (k : Uuid) (job : Job), s.jobs[k]? = some job ∧ job.id = e.jobId ∧
      job.status = .running ∧ e.generation = job.generation ∧ job.check = some e.check ∧
      job.identity = some e.identity
  | _ => True

theorem Allowed.orderly (h : Allowed fresh s e) : Orderly s e := by
  cases e with
  | manualStarted job => exact h.1
  | jobStarted job => exact h.2.1
  | jobSettled id status receipt => exact h.2
  | observed evidence =>
    obtain ⟨-, k, job, hget, hid, hrun, -, hgen, hcheck, hident⟩ := h
    exact ⟨k, job, hget, hid, hrun, hgen, hcheck, hident⟩
  | _ => trivial

/-- a job later on: only its status may have changed, and an ended job stays ended -/
structure SameJob (a b : Job) : Prop where
  id : b.id = a.id
  generation : b.generation = a.generation
  check : b.check = a.check
  identity : b.identity = a.identity
  ended : a.status ≠ .running → b.status ≠ .running

theorem SameJob.refl (a : Job) : SameJob a a := ⟨rfl, rfl, rfl, rfl, fun h => h⟩

theorem SameJob.trans {a b c : Job} (h : SameJob a b) (h' : SameJob b c) : SameJob a c :=
  ⟨h'.id.trans h.id, h'.generation.trans h.generation, h'.check.trans h.check,
    h'.identity.trans h.identity, fun ha => h'.ended (h.ended ha)⟩

def KeepsJobs (jobs jobs' : BTreeMap Uuid Job) : Prop :=
  ∀ (k : Uuid) (job : Job), jobs[k]? = some job → ∃ job', jobs'[k]? = some job' ∧ SameJob job job'

theorem KeepsJobs.refl (jobs : BTreeMap Uuid Job) : KeepsJobs jobs jobs :=
  fun _ job hk => ⟨job, hk, .refl job⟩

theorem KeepsJobs.insert {jobs : BTreeMap Uuid Job} {job : Job} (h : jobs[job.id]? = none) :
    KeepsJobs jobs (jobs.insert job.id job) := by
  intro k old hk
  refine ⟨old, ?_, .refl old⟩
  rw [Std.ExtTreeMap.getElem?_insert]
  split
  · rename_i he
    rw [Std.LawfulEqOrd.compare_eq_iff_eq] at he
    rw [he, hk] at h
    cases h
  · exact hk

theorem KeepsJobs.modify {jobs : BTreeMap Uuid Job} {id : Uuid} {f : Job → Job}
    (hf : ∀ job, SameJob job (f job)) : KeepsJobs jobs (jobs.modify id f) := by
  intro k job hk
  rw [Std.ExtTreeMap.getElem?_modify]
  split
  · rename_i he
    rw [Std.LawfulEqOrd.compare_eq_iff_eq] at he
    rw [he, hk]
    exact ⟨f job, rfl, hf job⟩
  · exact ⟨job, hk, .refl job⟩

theorem KeepsJobs.interrupt (jobs : BTreeMap Uuid Job) :
    KeepsJobs jobs (jobs.map fun _ job => TaskState.interruptJob job) := by
  intro k job hk
  rw [Std.ExtTreeMap.getElem?_map, hk]
  refine ⟨TaskState.interruptJob job, rfl, ?_⟩
  unfold TaskState.interruptJob
  split
  · exact ⟨rfl, rfl, rfl, rfl, fun _ => JobStatus.noConfusion⟩
  · exact .refl job

theorem observedStatus_ne_running (o : Observation) : TaskState.observedStatus o ≠ .running := by
  unfold TaskState.observedStatus
  split
  · exact JobStatus.noConfusion
  · split <;> exact JobStatus.noConfusion

/-- what time does to a task -/
structure Continues (s t : TaskState) : Prop where
  generation : s.generation ≤ t.generation
  jobs : KeepsJobs s.jobs t.jobs

theorem Continues.refl (s : TaskState) : Continues s s := ⟨Nat.le_refl _, .refl _⟩

theorem Continues.trans {t u : TaskState} (h : Continues s t) (h' : Continues t u) : Continues s u := by
  refine ⟨Nat.le_trans h.generation h'.generation, fun k job hk => ?_⟩
  obtain ⟨job', hk', hsame⟩ := h.jobs k job hk
  obtain ⟨job'', hk'', hsame'⟩ := h'.jobs k job' hk'
  exact ⟨job'', hk'', hsame.trans hsame'⟩

theorem Orderly.jobs (h : Orderly s e) : KeepsJobs s.jobs (s.apply e).jobs := by
  cases e with
  | manualStarted job => exact .insert h
  | jobStarted job => exact .insert h
  | jobSettled id status receipt => exact .modify fun job => ⟨rfl, rfl, rfl, rfl, fun _ => h⟩
  | jobFenced id receipt =>
    exact .modify fun job => ⟨rfl, rfl, rfl, rfl, fun _ => JobStatus.noConfusion⟩
  | observed evidence =>
    exact .modify fun job => ⟨rfl, rfl, rfl, rfl, fun _ => observedStatus_ne_running _⟩
  | interrupted reason => exact .interrupt s.jobs
  | modelCallRecorded operation receipt =>
    simp only [TaskState.apply, TaskState.update]
    split <;> exact .refl _
  | usageCharged operation usage =>
    simp only [TaskState.apply, TaskState.update]
    split <;> exact .refl _
  | _ => exact .refl _

theorem Orderly.continues (h : Orderly s e) : Continues s (s.apply e) :=
  ⟨apply_generation s e, h.jobs⟩

/-! ## evidence -/

def Leased (jobs : BTreeMap Uuid Job) (e : Evidence) : Prop :=
  ∃ job, jobs[e.jobId]? = some job ∧ job.id = e.jobId ∧ job.status ≠ .running ∧
    job.check = some e.check ∧ job.generation = e.generation ∧ job.identity = some e.identity

theorem Leased.keep {jobs jobs' : BTreeMap Uuid Job} {e : Evidence} (h : Leased jobs e)
    (hk : KeepsJobs jobs jobs') : Leased jobs' e := by
  obtain ⟨job, hget, hid, hrun, hcheck, hgen, hident⟩ := h
  obtain ⟨job', hget', hsame⟩ := hk _ job hget
  exact ⟨job', hget', hsame.id.trans hid, hsame.ended hrun, hsame.check.trans hcheck,
    hsame.generation.trans hgen, hsame.identity.trans hident⟩

structure Ledger (s : TaskState) : Prop where
  keyed : ∀ (k : Uuid) (job : Job), s.jobs[k]? = some job → job.id = k
  distinct : (s.evidence.map Evidence.jobId).Nodup
  leased : ∀ e ∈ s.evidence, Leased s.jobs e

theorem Initial.ledger (h : Initial s) : Ledger s := by
  cases h <;> exact ⟨fun _ _ hk => by simp [TaskState.created, TaskState.requested] at hk, List.nodup_nil,
    fun _ he => (nomatch he)⟩

/-- new jobs come in under their own identifier -/
theorem Orderly.keyed (hs : ∀ (k : Uuid) (job : Job), s.jobs[k]? = some job → job.id = k) :
    ∀ (k : Uuid) (job : Job), (s.apply e).jobs[k]? = some job → job.id = k := by
  have hinsert : ∀ (new : Job) (k : Uuid) (job : Job), (s.jobs.insert new.id new)[k]? = some job →
      job.id = k := by
    intro new k job hk
    rw [Std.ExtTreeMap.getElem?_insert] at hk
    split at hk
    · rename_i he
      rw [Std.LawfulEqOrd.compare_eq_iff_eq] at he
      cases hk
      exact he
    · exact hs k job hk
  have hmodify : ∀ (id : Uuid) (f : Job → Job), (∀ job, (f job).id = job.id) → ∀ (k : Uuid) (job : Job),
      (s.jobs.modify id f)[k]? = some job → job.id = k := by
    intro id f hf k job hk
    rw [Std.ExtTreeMap.getElem?_modify] at hk
    split at hk
    · rename_i he
      rw [Std.LawfulEqOrd.compare_eq_iff_eq] at he
      obtain ⟨old, hold, rfl⟩ := Option.map_eq_some_iff.mp hk
      rw [hf, hs id old hold, he]
    · exact hs k job hk
  cases e with
  | manualStarted job => exact hinsert job
  | jobStarted job => exact hinsert job
  | jobSettled id status receipt => exact hmodify id _ fun _ => rfl
  | jobFenced id receipt => exact hmodify id _ fun _ => rfl
  | observed evidence => exact hmodify evidence.jobId _ fun _ => rfl
  | interrupted reason =>
    intro k job hk
    have hmap : (s.jobs.map fun _ job => TaskState.interruptJob job)[k]? = some job := hk
    rw [Std.ExtTreeMap.getElem?_map] at hmap
    obtain ⟨old, hold, rfl⟩ := Option.map_eq_some_iff.mp hmap
    rw [← hs k old hold]
    unfold TaskState.interruptJob
    split <;> rfl
  | modelCallRecorded operation receipt =>
    simp only [TaskState.apply, TaskState.update]
    split <;> exact hs
  | usageCharged operation usage =>
    simp only [TaskState.apply, TaskState.update]
    split <;> exact hs
  | _ => exact hs

theorem apply_evidence (s : TaskState) (e : TaskEvent) :
    (s.apply e).evidence = s.evidence ∨ ∃ evidence, e = .observed evidence := by
  cases e with
  | observed evidence => exact .inr ⟨evidence, rfl⟩
  | modelCallRecorded operation receipt =>
    simp only [TaskState.apply, TaskState.update]
    split <;> exact .inl rfl
  | usageCharged operation usage =>
    simp only [TaskState.apply, TaskState.update]
    split <;> exact .inl rfl
  | _ => exact .inl rfl

/-- **Every event keeps the ledger**: an observation ends a running job, so that its entry is new. -/
theorem Orderly.ledger (he : Orderly s e) (h : Ledger s) : Ledger (s.apply e) := by
  have hkept : ∀ x ∈ s.evidence, Leased (s.apply e).jobs x := fun x hx => (h.leased x hx).keep he.jobs
  refine ⟨Orderly.keyed h.keyed, ?_, ?_⟩
  · rcases apply_evidence s e with hsame | ⟨evidence, rfl⟩
    · rw [hsame]
      exact h.distinct
    · obtain ⟨k, job, hget, hid, hrun, -⟩ := he
      have hk := h.keyed k job hget
      show ((s.evidence ++ [evidence]).map Evidence.jobId).Nodup
      rw [List.map_append, List.map_singleton, List.nodup_append]
      refine ⟨h.distinct, List.nodup_singleton _, ?_⟩
      rintro x hx y hy rfl
      cases List.mem_singleton.mp hy
      obtain ⟨old, hold, hjob⟩ := List.mem_map.mp hx
      obtain ⟨job', hget', -, hended, -⟩ := h.leased old hold
      rw [hjob, ← hid, hk, hget] at hget'
      cases hget'
      exact hended hrun
  · rcases apply_evidence s e with hsame | ⟨evidence, rfl⟩
    · rw [hsame]
      exact hkept
    · intro x hx
      have hx' : x ∈ s.evidence ++ [evidence] := hx
      rcases List.mem_append.mp hx' with hold | hnew
      · exact hkept x hold
      · cases List.mem_singleton.mp hnew
        obtain ⟨k, job, hget, hid, hrun, hgen, hcheck, hident⟩ := he
        have hk := h.keyed k job hget
        refine ⟨{ job with status := TaskState.observedStatus evidence.observation }, ?_, hid,
          observedStatus_ne_running _, hcheck, hgen.symm, hident⟩
        have hjob : s.jobs[evidence.jobId]? = some job := by rw [← hid, hk, hget]
        show (s.jobs.modify evidence.jobId _)[evidence.jobId]? = _
        rw [Std.ExtTreeMap.getElem?_modify_self, hjob]
        rfl

/-! ## runs -/

section
variable {db db' : Db} {w w' : World}

theorem Appends.orderly {s : TaskState} {e : TaskEvent} (h : Appends fresh s e) : Orderly s e := by
  cases h with
  | allowed he => exact he.orderly
  | adopted candidate origin => trivial
  | recorded request status => trivial
  | blocked reason => trivial

theorem Run.continues (h : Run fresh db w db' w') (hr : Represents db w) {id : TaskId} {s : TaskState}
    (hs : w.tasks id = some s) : ∃ t, w'.tasks id = some t ∧ Continues s t :=
  h.task_relation Continues.refl Continues.trans (fun he => he.orderly.continues) hr hs

theorem Reachable.ledger (h : Reachable fresh db w) {id : TaskId} {s : TaskState}
    (hs : w.tasks id = some s) : Ledger s :=
  h.event_invariant (fun _ hi => hi.ledger) (fun he => he.orderly.ledger) hs

/-! ## the two ends of a lease -/

theorem beginCheck_ok (h : Represents db w) {env : Env} {id : TaskId} {revision : Nat} {check : String}
    {token jobId : Uuid} {lease : VerificationLease} {s₁ : TaskState}
    (hc : beginCheck env id revision check token jobId db = .ok (lease, s₁, db')) :
    lease.task = id ∧ lease.job = jobId ∧ s₁.id = id ∧ ∃ (s : TaskState) (contract : Contract)
      (candidate : Candidate) (definition : CheckDefinition), s.contract = some contract ∧
      s.candidate = some candidate ∧ contract.checks[check]? = some definition ∧
      s₁ = s.apply (.jobStarted (checkJob s contract candidate check definition jobId (env.now 1))) := by
  obtain ⟨⟨t, db₁⟩, hc, hret⟩ := bind_ok hc
  cases hret
  obtain ⟨s, head, e, leases, hl, hop, -, happ⟩ := change_ok hc
  obtain ⟨-, contract, candidate, definition, hcon, hcand, hdef, rfl⟩ := beginCheckOperation_ok hop
  obtain ⟨rfl, -⟩ := appendTaskEvent_ok happ
  refine ⟨rfl, rfl, ?_, s, contract, candidate, definition, hcon, hcand, hdef, rfl⟩
  rw [apply_id]
  exact (h.of_loadState hl).2.1

theorem finishCheck_ok (h : Represents db w) {env : Env} {lease : VerificationLease}
    {observation : Observation} {s₃ : TaskState}
    (hc : finishCheck env lease observation db = .ok (s₃, db')) :
    ∃ s job evidence, w.tasks lease.task = some s ∧ s.jobs[lease.job]? = some job ∧
      job.status = .running ∧ job.generation = s.generation ∧ evidence.jobId = job.id ∧
      evidence.generation = job.generation ∧ job.check = some evidence.check ∧
      job.identity = some evidence.identity ∧ s₃ = s.apply (.observed evidence) := by
  obtain ⟨s, head, e, leases, hl, hop, -, happ⟩ := change_ok hc
  obtain ⟨job, evidence, hget, hrun, hgen, hid, hgen', hcheck, hident, rfl⟩ :=
    finishCheckOperation_ok hop
  obtain ⟨rfl, -⟩ := appendTaskEvent_ok happ
  exact ⟨s, job, evidence, (h.of_loadState hl).1, hget, hrun, hgen, hid, hgen', hcheck, hident, rfl⟩

end

/-- every entry of the evidence is that of the job it was leased for, and no job has two -/
structure EvidenceOfJobs (s : TaskState) : Prop where
  distinct : (s.evidence.map Evidence.jobId).Nodup
  leased : ∀ e ∈ s.evidence, ∃ job, s.jobs[e.jobId]? = some job ∧ job.id = e.jobId ∧
    job.check = some e.check ∧ job.generation = e.generation ∧ job.identity = some e.identity

/-- a lease that was given in `s₁`, at `db₁` and `w₁`, for a check under the name `jobId`, and then
exchanged in `w₂`, which left `s₃` and `db₃` -/
structure Exchanged (id : TaskId) (check : String) (jobId : Uuid) (s₁ : TaskState) (db₁ : Db)
    (w₁ : World) (db₂ : Db) (w₂ : World) (s₃ : TaskState) (db₃ : Db) : Prop where
  /-- one entry is added, with what the contract and the candidate were when the lease was given -/
  entry : ∃ s₂ evidence contract candidate definition, w₂.tasks id = some s₂ ∧
    s₃.evidence = s₂.evidence ++ [evidence] ∧ evidence.jobId = jobId ∧ evidence.check = check ∧
    evidence.generation = s₁.generation ∧ s₁.contract = some contract ∧
    s₁.candidate = some candidate ∧ contract.checks[check]? = some definition ∧
    evidence.identity = identityOf contract candidate definition
  /-- nothing that was committed in between advanced the generation -/
  current : ∀ db w s, Run fresh db₁ w₁ db w → Run fresh db w db₂ w₂ → w.tasks id = some s →
    s.generation = s₁.generation
  /-- the lease is used up -/
  spent : ∀ db w, Run fresh db₃ (w₂.write (some s₃) none) db w → ∀ env lease observation,
    lease.task = id → lease.job = jobId → ∀ r, finishCheck env lease observation db ≠ .ok r

section
variable {db : Db} {w : World}

theorem Ledger.evidenceOfJobs {s : TaskState} (h : Ledger s) : EvidenceOfJobs s := by
  refine ⟨h.distinct, fun e he => ?_⟩
  obtain ⟨job, hget, hid, -, hcheck, hgen, hident⟩ := h.leased e he
  exact ⟨job, hget, hid, hcheck, hgen, hident⟩

theorem finishCheck_ended (h : Represents db w) {id : TaskId} {s : TaskState} {jobId : Uuid} {job : Job}
    (hs : w.tasks id = some s) (hjob : s.jobs[jobId]? = some job) (hended : job.status ≠ .running)
    {env : Env} {lease : VerificationLease} {observation : Observation} (htask : lease.task = id)
    (hlease : lease.job = jobId) (r : TaskState × Db) : finishCheck env lease observation db ≠ .ok r := by
  intro hc
  obtain ⟨t, job', evidence, ht, hget, hrun, -⟩ := finishCheck_ok h hc
  rw [htask, hs] at ht
  cases ht
  rw [hlease, hjob] at hget
  cases hget
  exact hended hrun

theorem beginCheck_exchanged (h : Reachable fresh db w) {env : Env} {id : TaskId} {revision : Nat}
    {check : String} {token jobId : Uuid} {lease : VerificationLease} {s₁ : TaskState} {db₁ : Db}
    (hb : beginCheck env id revision check token jobId db = .ok (lease, s₁, db₁))
    (hd : ∀ s head, loadState db id = .ok (s, head) → fresh s jobId) {db₂ : Db} {w₂ : World}
    (hrun : Run fresh db₁ (w.write (some s₁) none) db₂ w₂) {env' : Env} {observation : Observation}
    {s₃ : TaskState} {db₃ : Db} (hf : finishCheck env' lease observation db₂ = .ok (s₃, db₃)) :
    Exchanged id check jobId s₁ db₁ (w.write (some s₁) none) db₂ w₂ s₃ db₃ := by
  have hreach₁ : Reachable fresh db₁ (w.write (some s₁) none) := Run.step h (.beginCheck hb hd)
  have hrep₁ := hreach₁.represents
  have hreach₂ : Reachable fresh db₂ w₂ := Run.trans hreach₁ hrun
  have hrep₂ := hreach₂.represents
  obtain ⟨htask, hjobid, hid₁, s, contract, candidate, definition, hcon, hcand, hdef, heq⟩ :=
    beginCheck_ok h.represents hb
  obtain ⟨s₂, job, evidence, hs₂, hget, hrunning, hgen, hevid, hevgen, hcheck, hident, rfl⟩ :=
    finishCheck_ok hrep₂ hf
  rw [htask] at hs₂
  rw [hjobid] at hget
  -- the job of the lease, from its beginning to its end
  have hs₁ : (w.write (some s₁) none).tasks id = some s₁ := by
    rw [← hid₁]
    exact World.setTask_get w s₁
  have hbegun : s₁.jobs[jobId]? =
      some (checkJob s contract candidate check definition jobId (env.now 1)) := by
    rw [heq]
    exact Std.ExtTreeMap.getElem?_insert_self
  have hgen₁ : s₁.generation = s.generation := by rw [heq]; rfl
  have hsame : SameJob (checkJob s contract candidate check definition jobId (env.now 1)) job ∧
      s₁.generation ≤ s₂.generation := by
    obtain ⟨t, ht, hcont⟩ := hrun.continues hrep₁ hs₁
    rw [hs₂] at ht
    cases ht
    obtain ⟨job', hjob', hsame⟩ := hcont.jobs jobId _ hbegun
    rw [hget] at hjob'
    cases hjob'
    exact ⟨hsame, hcont.generation⟩
  have hnow : s₂.generation = s₁.generation := by
    rw [← hgen, hsame.1.generation, hgen₁]
    rfl
  refine ⟨?_, ?_, ?_⟩
  · refine ⟨s₂, evidence, contract, candidate, definition, hs₂, rfl, hevid.trans hsame.1.id, ?_,
      hevgen.trans (hgen.trans hnow), by rw [heq]; exact hcon, by rw [heq]; exact hcand, hdef, ?_⟩
    · exact Option.some.inj (hcheck.symm.trans hsame.1.check)
    · exact Option.some.inj (hident.symm.trans hsame.1.identity)
  · intro db' w' s' hbefore hafter hs'
    obtain ⟨t, ht, hcont⟩ := hbefore.continues hrep₁ hs₁
    rw [hs'] at ht
    cases ht
    obtain ⟨u, hu, hcont'⟩ := hafter.continues (hbefore.represents hrep₁) hs'
    rw [hs₂] at hu
    cases hu
    have := hcont.generation
    have := hcont'.generation
    omega
  · intro db' w' hlater env'' lease' observation' htask' hlease' r
    have hreach₃ : Reachable fresh db₃ (w₂.write (some (s₂.apply (.observed evidence))) none) :=
      Run.step hreach₂ (.finishCheck hf)
    have hid₂ : (s₂.apply (.observed evidence)).id = id := by
      obtain ⟨head, hl⟩ := hrep₂.loadState hs₂
      rw [apply_id]
      exact (hrep₂.of_loadState hl).2.1
    have hs₃ : (w₂.write (some (s₂.apply (.observed evidence))) none).tasks id =
        some (s₂.apply (.observed evidence)) := by
      rw [← hid₂]
      exact World.setTask_get _ _
    have hspent : (s₂.apply (.observed evidence)).jobs[jobId]? =
        some { job with status := TaskState.observedStatus evidence.observation } := by
      have hkey : evidence.jobId = jobId := hevid.trans hsame.1.id
      show (s₂.jobs.modify evidence.jobId _)[jobId]? = _
      rw [hkey, Std.ExtTreeMap.getElem?_modify_self, hget]
      rfl
    obtain ⟨t, ht, hcont⟩ := hlater.continues hreach₃.represents hs₃
    obtain ⟨job', hjob', hended⟩ := hcont.jobs jobId _ hspent
    exact finishCheck_ended (hlater.represents hreach₃.represents) ht hjob'
      (hended.ended (observedStatus_ne_running _)) htask' hlease' r

/-- **Stale verification never becomes evidence.**  In every reachable state the evidence is that of
distinct jobs, each with the identity it was leased for; and a lease is exchanged at most once, and
only when nothing advanced the generation since it was given, whatever ran in between. -/
theorem stale_never_evidence (h : Reachable fresh db w) :
    (∀ id s, w.tasks id = some s → EvidenceOfJobs s) ∧
    (∀ env id revision check token jobId lease s₁ db₁,
      beginCheck env id revision check token jobId db = .ok (lease, s₁, db₁) →
      (∀ s head, loadState db id = .ok (s, head) → fresh s jobId) →
      ∀ db₂ w₂, Run fresh db₁ (w.write (some s₁) none) db₂ w₂ →
      ∀ env' observation s₃ db₃, finishCheck env' lease observation db₂ = .ok (s₃, db₃) →
        Exchanged id check jobId s₁ db₁ (w.write (some s₁) none) db₂ w₂ s₃ db₃) :=
  ⟨fun _ _ hs => (h.ledger hs).evidenceOfJobs,
    fun _ _ _ _ _ _ _ _ _ hb hd _ _ hrun _ _ _ _ hf => beginCheck_exchanged h hb hd hrun hf⟩

end

end

open Sample in
theorem stale_never_evidence_checked : ∃ (db₁ : Db) (w₁ : World) (db₃ : Db),
    Exchanged taskId "c" job checkBegun db₁ w₁ db₁ w₁ checked db₃ := by
  obtain ⟨db, w, hr, hs, hl⟩ := @reachable_selected fresh
  obtain ⟨db₁, hb, hl₁⟩ := begins hr.represents hs hl
  have hd : ∀ s head, loadState db taskId = .ok (s, head) → fresh s job := by
    intro s head hload
    have := (hr.represents.of_loadState hload).1
    rw [hs] at this
    cases this
    rfl
  have hr₁ : Reachable fresh db₁ (w.write (some checkBegun) none) := Run.step hr (.beginCheck hb hd)
  obtain ⟨db₃, hf⟩ := finishes hr₁.represents (World.setTask_get w checkBegun) hl₁
  exact ⟨db₁, _, db₃, (stale_never_evidence hr).2 Sample.env taskId 2 "c" token job lease checkBegun db₁
    hb hd db₁ _ .refl Sample.env observation checked db₃ hf⟩

end Orvek
