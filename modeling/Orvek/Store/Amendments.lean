import Orvek.Store.Runs

/-!
# Follow-ups that no contract covers

A directive of the user enlarges the scope of a task.  Until a contract is accepted that covers it,
the amendment is pending, and what the task would be certified against is obsolete:

* `Scoped`            the flag is set exactly while a directive is newer than the admitted scope;
* `Fenced`            a check that began before the directive belongs to an older generation;
* `Gated`             what no event does while the flag is set;
* `amendment_gate`    both, over all runs and for every operation.
-/

set_option linter.unusedSectionVars false

namespace Orvek
open Checks Completion

def TaskState.outstanding (s : TaskState) : Prop :=
  ∃ (request : Uuid) (scope : Nat), s.directiveScopes[request]? = some scope ∧
    s.admittedScopeRevision < scope

structure Scoped (s : TaskState) : Prop where
  scopes : ∀ (request : Uuid) (scope : Nat), s.directiveScopes[request]? = some scope →
    scope ≤ s.scopeRevision
  admitted : s.admittedScopeRevision ≤ s.scopeRevision
  pending : s.amendmentPending = true ↔ s.outstanding

/-- the generations of the jobs -/
structure Fenced (s : TaskState) : Prop where
  jobs : ∀ (k : Uuid) (job : Job), s.jobs[k]? = some job → job.generation ≤ s.generation
  checks : s.amendmentPending = true → ∀ (k : Uuid) (job : Job), s.jobs[k]? = some job →
    job.check.isSome = true → job.generation < s.generation

/-- what stays as it was: no check began, none was exchanged for evidence, no certificate was issued,
and the task is in the phase it was in or in one before admission -/
structure Gated (s t : TaskState) : Prop where
  evidence : t.evidence = s.evidence
  certificates : t.certificates = s.certificates
  outcome : t.outcome = some .complete → s.outcome = some .complete
  phase : t.phase = s.phase ∨ t.phase = .understand ∨ t.phase = .baseline
  checks : ∀ (k : Uuid) (job : Job), t.jobs[k]? = some job → job.check.isSome = true →
    ∃ old : Job, s.jobs[k]? = some old ∧ old.check = job.check ∧ old.generation = job.generation ∧
      (job.status = .running → old.status = .running)

theorem Gated.refl (s : TaskState) : Gated s s :=
  ⟨rfl, rfl, fun h => h, .inl rfl, fun _ job hk _ => ⟨job, hk, rfl, rfl, fun h => h⟩⟩

theorem Gated.trans {s t u : TaskState} (h : Gated s t) (h' : Gated t u) : Gated s u := by
  refine ⟨h'.evidence.trans h.evidence, h'.certificates.trans h.certificates,
    fun hc => h.outcome (h'.outcome hc), ?_, fun k job hk hcheck => ?_⟩
  · rcases h'.phase with hsame | hearly
    · rw [hsame]
      exact h.phase
    · exact .inr hearly
  · obtain ⟨mid, hmid, hcheck', hgen', hrun'⟩ := h'.checks k job hk hcheck
    obtain ⟨old, hold, hcheck'', hgen'', hrun''⟩ := h.checks k mid hmid (by rw [hcheck']; exact hcheck)
    exact ⟨old, hold, hcheck''.trans hcheck', hgen''.trans hgen', fun hr => hrun'' (hrun' hr)⟩

section
variable [Sha256] [ContractCodec] [SessionCodec] [StoreCodec] [JsonReader]
variable {s : TaskState} {draws : TaskState → Uuid → Prop}
variable {e : TaskEvent}

/-! ## the scope -/

/-- the three events that change what is outstanding -/
def TaskEvent.rescopes : TaskEvent → Bool
  | .directiveReplaced .. => true
  | .directiveReceived .. => true
  | .additiveContractAccepted .. => true
  | _ => false

theorem apply_scope (h : e.rescopes = false) :
    (s.apply e).directiveScopes = s.directiveScopes ∧
    (s.apply e).admittedScopeRevision = s.admittedScopeRevision ∧
    (s.apply e).amendmentPending = s.amendmentPending ∧
    s.scopeRevision ≤ (s.apply e).scopeRevision := by
  cases e with
  | directiveReplaced request input => cases h
  | directiveReceived request input => cases h
  | additiveContractAccepted contract receipt scope => cases h
  | manualStarted job => exact ⟨rfl, rfl, rfl, Nat.le_succ _⟩
  | modelCallRecorded operation receipt =>
    simp only [TaskState.apply, TaskState.update]
    split <;> exact ⟨rfl, rfl, rfl, Nat.le_refl _⟩
  | usageCharged operation usage =>
    simp only [TaskState.apply, TaskState.update]
    split <;> exact ⟨rfl, rfl, rfl, Nat.le_refl _⟩
  | _ => exact ⟨rfl, rfl, rfl, Nat.le_refl _⟩

theorem Scoped.enlarge (h : Scoped s) (request : Uuid) : Scoped (s.enlargeScope request) := by
  have hself : (s.enlargeScope request).directiveScopes[request]? = some (s.scopeRevision + 1) := by
    show (s.directiveScopes.insert request (s.scopeRevision + 1))[request]? = _
    rw [Std.ExtTreeMap.getElem?_insert_self]
  refine ⟨fun k scope hk => ?_, Nat.le_succ_of_le h.admitted, fun _ => ?_, fun _ => rfl⟩
  · have hk' : (s.directiveScopes.insert request (s.scopeRevision + 1))[k]? = some scope := hk
    show scope ≤ s.scopeRevision + 1
    rw [Std.ExtTreeMap.getElem?_insert] at hk'
    split at hk'
    · cases hk'
      exact Nat.le_refl _
    · exact Nat.le_succ_of_le (h.scopes k scope hk')
  · exact ⟨request, s.scopeRevision + 1, hself, Nat.lt_succ_of_le h.admitted⟩

theorem Scoped.accept (h : Scoped s) (contract : Contract) (receipt : Digest) (scope : Nat) :
    Scoped (s.apply (.additiveContractAccepted contract receipt scope)) := by
  refine ⟨h.scopes, Nat.le_refl _, fun hp => (nomatch hp), ?_⟩
  rintro ⟨request, scope', hk, hlt⟩
  exact absurd (h.scopes request scope' hk) (Nat.not_le.mpr hlt)

/-- **Every event keeps the flag true to the scopes.** -/
theorem Scoped.apply (h : Scoped s) (e : TaskEvent) : Scoped (s.apply e) := by
  by_cases hre : e.rescopes = true
  · cases e with
    | directiveReplaced request input =>
      exact ⟨(h.enlarge request).scopes, (h.enlarge request).admitted, (h.enlarge request).pending⟩
    | directiveReceived request input =>
      exact ⟨(h.enlarge request).scopes, (h.enlarge request).admitted, (h.enlarge request).pending⟩
    | additiveContractAccepted contract receipt scope => exact h.accept contract receipt scope
    | _ => cases hre
  · obtain ⟨hscopes, hadmitted, hpending, hle⟩ := apply_scope (s := s) (e := e) (by simpa using hre)
    refine ⟨fun k scope hk => ?_, ?_, ?_⟩
    · rw [hscopes] at hk
      exact Nat.le_trans (h.scopes k scope hk) hle
    · rw [hadmitted]
      exact Nat.le_trans h.admitted hle
    · rw [hpending, h.pending, TaskState.outstanding, TaskState.outstanding, hscopes, hadmitted]

theorem Initial.scoped (h : Initial s) : Scoped s := by
  cases h <;> exact ⟨fun _ _ hk => by simp [TaskState.created, TaskState.requested] at hk, Nat.le_refl _,
    fun hp => (nomatch hp), by
      rintro ⟨k, scope, hk, -⟩
      simp [TaskState.created, TaskState.requested] at hk⟩

/-! ## the jobs -/

/-- a job and what it was before an event -/
def SameCheck (old job : Job) : Prop :=
  old.check = job.check ∧ old.generation = job.generation ∧ (job.status = .running → old.status = .running)

theorem modify_jobs {jobs : BTreeMap Uuid Job} {id k : Uuid} {f : Job → Job} {job : Job}
    (hk : (jobs.modify id f)[k]? = some job) (hf : ∀ old, SameCheck old (f old)) :
    ∃ old, jobs[k]? = some old ∧ SameCheck old job := by
  rw [Std.ExtTreeMap.getElem?_modify] at hk
  split at hk
  · rename_i he
    rw [Std.LawfulEqOrd.compare_eq_iff_eq] at he
    obtain ⟨old, hold, rfl⟩ := Option.map_eq_some_iff.mp hk
    exact ⟨old, he ▸ hold, hf old⟩
  · exact ⟨job, hk, rfl, rfl, fun h => h⟩

theorem insert_jobs {jobs : BTreeMap Uuid Job} {new job : Job} {k : Uuid}
    (hk : (jobs.insert new.id new)[k]? = some job) : job = new ∨ jobs[k]? = some job := by
  rw [Std.ExtTreeMap.getElem?_insert] at hk
  split at hk
  · cases hk
    exact .inl rfl
  · exact .inr hk

theorem Appends.jobs (he : Appends draws s e) {k : Uuid} {job : Job} (hk : (s.apply e).jobs[k]? = some job)
    :
    (∃ old, s.jobs[k]? = some old ∧ SameCheck old job) ∨ e = .manualStarted job ∨ e = .jobStarted job := by
  have hsame : s.jobs[k]? = some job → ∃ old, s.jobs[k]? = some old ∧ SameCheck old job :=
    fun hk => ⟨job, hk, rfl, rfl, fun h => h⟩
  cases e with
  | manualStarted new =>
    rcases insert_jobs hk with rfl | hk
    · exact .inr (.inl rfl)
    · exact .inl (hsame hk)
  | jobStarted new =>
    rcases insert_jobs hk with rfl | hk
    · exact .inr (.inr rfl)
    · exact .inl (hsame hk)
  | jobSettled id status receipt =>
    have hstatus : status ≠ .running := by
      cases he with
      | allowed h => exact h.2
    exact .inl (modify_jobs hk fun _ => ⟨rfl, rfl, fun h => absurd h hstatus⟩)
  | jobFenced id receipt => exact .inl (modify_jobs hk fun _ => ⟨rfl, rfl, fun h => (nomatch h)⟩)
  | observed evidence =>
    refine .inl (modify_jobs hk fun _ => ⟨rfl, rfl, fun h => absurd h ?_⟩)
    unfold TaskState.observedStatus
    split
    · exact JobStatus.noConfusion
    · split <;> exact JobStatus.noConfusion
  | interrupted reason =>
    have hmap : (s.jobs.map fun _ job => TaskState.interruptJob job)[k]? = some job := hk
    rw [Std.ExtTreeMap.getElem?_map] at hmap
    obtain ⟨old, hold, rfl⟩ := Option.map_eq_some_iff.mp hmap
    refine .inl ⟨old, hold, ?_⟩
    unfold TaskState.interruptJob
    split
    · exact ⟨rfl, rfl, fun h => (nomatch h)⟩
    · exact ⟨rfl, rfl, fun h => h⟩
  | modelCallRecorded operation receipt =>
    simp only [TaskState.apply, TaskState.update] at hk
    split at hk <;> exact .inl (hsame hk)
  | usageCharged operation usage =>
    simp only [TaskState.apply, TaskState.update] at hk
    split at hk <;> exact .inl (hsame hk)
  | _ => exact .inl (hsame hk)

theorem apply_pending (h : (s.apply e).amendmentPending = true) :
    s.amendmentPending = true ∨ (s.apply e).generation = s.generation + 1 := by
  by_cases hre : e.rescopes = true
  · cases e with
    | directiveReplaced request input => exact .inr rfl
    | directiveReceived request input => exact .inr rfl
    | additiveContractAccepted contract receipt scope => cases h
    | _ => cases hre
  · rw [(apply_scope (s := s) (e := e) (by simpa using hre)).2.2.1] at h
    exact .inl h

/-- **Every event keeps the checks of a pending amendment behind its generation.** -/
theorem Appends.fenced (he : Appends draws s e) (h : Fenced s) : Fenced (s.apply e) := by
  have hle := apply_generation s e
  refine ⟨fun k job hk => ?_, fun hpending k job hk hcheck => ?_⟩
  · rcases he.jobs hk with ⟨old, hold, -, hgen, -⟩ | rfl | rfl
    · rw [← hgen]
      exact Nat.le_trans (h.jobs k old hold) hle
    · cases he with
      | allowed ha => exact Nat.le_of_eq ha.2.1
    · cases he with
      | allowed ha => exact Nat.le_of_eq ha.2.2.1
  · rcases he.jobs hk with ⟨old, hold, hsame, hgen, -⟩ | rfl | rfl
    · rw [← hgen]
      rcases apply_pending hpending with hbefore | hnext
      · exact Nat.lt_of_lt_of_le (h.checks hbefore k old hold (by rw [hsame]; exact hcheck)) hle
      · rw [hnext]
        exact Nat.lt_succ_of_le (h.jobs k old hold)
    · cases he with
      | allowed ha =>
        rw [ha.2.2] at hcheck
        cases hcheck
    · cases he with
      | allowed ha =>
        rw [ha.2.2.2 hpending] at hcheck
        cases hcheck

theorem Initial.fenced (h : Initial s) : Fenced s := by
  cases h <;> exact ⟨fun _ _ hk => by simp [TaskState.created, TaskState.requested] at hk,
    fun hp => (nomatch hp)⟩

/-! ## the gate -/

/-- the events that a pending amendment keeps out -/
def TaskEvent.certifies : TaskEvent → Bool
  | .observed _ => true
  | .completed _ => true
  | _ => false

theorem Appends.not_certifies (he : Appends draws s e) (h : Fenced s) (hpending : s.amendmentPending = true) :
    e.certifies = false := by
  cases e with
  | observed evidence =>
    cases he with
    | allowed ha =>
      obtain ⟨-, k, job, hget, -, -, hgen, -, hcheck, -⟩ := ha
      have := h.checks hpending k job hget (by rw [hcheck]; rfl)
      omega
  | completed certificate =>
    cases he with
    | allowed ha =>
      obtain ⟨atMs, hev⟩ := ha
      obtain ⟨contract, candidate, -, -, -, -, hquiet, -⟩ := evaluate_ok hev
      rw [hquiet.amendment] at hpending
      cases hpending
  | _ => rfl

theorem apply_records (h : e.certifies = false) :
    (s.apply e).evidence = s.evidence ∧ (s.apply e).certificates = s.certificates := by
  cases e with
  | observed evidence => cases h
  | completed certificate => cases h
  | modelCallRecorded operation receipt =>
    simp only [TaskState.apply, TaskState.update]
    split <;> exact ⟨rfl, rfl⟩
  | usageCharged operation usage =>
    simp only [TaskState.apply, TaskState.update]
    split <;> exact ⟨rfl, rfl⟩
  | _ => exact ⟨rfl, rfl⟩

/-- only a certificate completes a task -/
theorem Appends.outcome (he : Appends draws s e) (h : e.certifies = false)
    (hc : (s.apply e).outcome = some .complete) : s.outcome = some .complete := by
  cases e with
  | completed certificate => cases h
  | manualStarted job => cases hc
  | directiveReplaced request input => cases hc
  | directiveReceived request input => cases hc
  | evidenceInvalidated reason => cases hc
  | reopened reason => cases hc
  | stopped outcome reason =>
    have hout : some outcome = some Outcome.complete := hc
    cases hout
    cases he with
    | allowed ha => exact absurd rfl ha.2
  | interrupted reason =>
    simp only [TaskState.apply, TaskState.update] at hc
    split at hc <;> cases hc
  | modelCallRecorded operation receipt =>
    simp only [TaskState.apply, TaskState.update] at hc
    split at hc
    · cases hc
    · exact hc
  | usageCharged operation usage =>
    simp only [TaskState.apply, TaskState.update] at hc
    split at hc
    · cases hc
    · exact hc
  | _ => exact hc

theorem Appends.phase (he : Appends draws s e) (hpending : s.amendmentPending = true) :
    (s.apply e).phase = s.phase ∨ (s.apply e).phase = .understand ∨ (s.apply e).phase = .baseline := by
  cases e with
  | phaseChanged phase =>
    cases he with
    | allowed ha => exact .inr (ha.2 hpending)
  | modelCallRecorded operation receipt =>
    simp only [TaskState.apply, TaskState.update]
    split <;> exact .inl rfl
  | usageCharged operation usage =>
    simp only [TaskState.apply, TaskState.update]
    split <;> exact .inl rfl
  | _ => exact .inl rfl

/-- **No event passes the gate while an amendment is pending.** -/
theorem Appends.gated (he : Appends draws s e) (h : Fenced s) (hpending : s.amendmentPending = true) :
    Gated s (s.apply e) := by
  have hcert := he.not_certifies h hpending
  obtain ⟨hevidence, hcertificates⟩ := apply_records (s := s) hcert
  refine ⟨hevidence, hcertificates, he.outcome hcert, he.phase hpending, fun k job hk hcheck => ?_⟩
  rcases he.jobs hk with ⟨old, hold, hsame, hgen, hrun⟩ | rfl | rfl
  · exact ⟨old, hold, hsame, hgen, hrun⟩
  · cases he with
    | allowed ha =>
      rw [ha.2.2] at hcheck
      cases hcheck
  · cases he with
    | allowed ha =>
      rw [ha.2.2.2 hpending] at hcheck
      cases hcheck

/-- an event that leaves the flag set is followed by events that find the gate closed -/
def Held (s t : TaskState) : Prop :=
  Fenced s → s.amendmentPending = true → Gated s t ∧ Fenced t ∧ t.amendmentPending = true

theorem Held.trans {s t u : TaskState} (h : Held s t) (h' : Held t u) : Held s u := by
  intro hf hp
  obtain ⟨hgate, hf', hp'⟩ := h hf hp
  obtain ⟨hgate', hf'', hp''⟩ := h' hf' hp'
  exact ⟨hgate.trans hgate', hf'', hp''⟩

theorem Appends.held (he : Appends draws s e)
    (hkeep : s.amendmentPending = true → (s.apply e).amendmentPending = true) : Held s (s.apply e) :=
  fun hf hp => ⟨he.gated hf hp, he.fenced hf, hkeep hp⟩

theorem Commit.gated {events : List TaskEvent} (hc : Commit draws s events) (h : Fenced s)
    (hpending : s.amendmentPending = true) : Gated s (events.foldl TaskState.apply s) := by
  cases hc with
  | none => exact .refl s
  | one he => exact (Appends.allowed he).gated h hpending
  | two he he' hkeep =>
    obtain ⟨hgate, hf, hp⟩ := (Appends.allowed he).held hkeep h hpending
    exact hgate.trans ((Appends.allowed he').gated hf hp)
  | @shell job request status receipt j adopted effect reason hjob hrun hstatus =>
    -- none of these events is about the scope
    have hadopt : ∀ t, Held t ((adopted.map fun a => TaskEvent.manualWorkspace a.1 a.2).foldl
        TaskState.apply t) := by
      induction adopted with
      | nil => exact fun t hf hp => ⟨.refl t, hf, hp⟩
      | cons a adopted ih =>
        exact fun t => ((Appends.adopted a.1 a.2 : Appends draws t _).held fun h => h).trans (ih _)
    have hsettled : Allowed draws s (.jobSettled job status receipt) :=
      ⟨⟨j, hjob, by rw [hrun]; rfl⟩, hstatus⟩
    rw [List.foldl_append, List.foldl_append]
    have hfirst := (Appends.allowed hsettled).held fun h => h
    have hlast := fun t => ((Appends.recorded request effect : Appends draws t _).held fun h => h).trans
      ((Appends.blocked reason : Appends draws _ _).held fun h => h)
    exact ((hfirst.trans (hadopt _)).trans (hlast _) h hpending).1

/-! ## runs -/

variable {db db' : Db} {w : World} {id : TaskId}

theorem Reachable.scoped (h : Reachable draws db w) (hs : w.tasks id = some s) : Scoped s :=
  h.event_invariant (fun _ hi => hi.scoped) (fun {_ e} _ hp => hp.apply e) hs

theorem Reachable.fenced (h : Reachable draws db w) (hs : w.tasks id = some s) : Fenced s :=
  h.event_invariant (fun _ hi => hi.fenced) (fun he => he.fenced) hs

theorem Reachable.gated (h : Reachable draws db w) (hs : w.tasks id = some s)
    (hpending : s.amendmentPending = true) {t : TaskState} {session : Option SessionState}
    (hstep : Step draws db (some t) session db') (hid : t.id = id) : Gated s t := by
  have hmoves := (Step.sound h.represents hstep).moves t rfl
  rw [hid, hs] at hmoves
  obtain ⟨events, hcommit, rfl⟩ := hmoves
  exact hcommit.gated (h.fenced hs) hpending

/-- the refusals of the four operations that the gate is made of -/
structure Refuses (db : Db) (id : TaskId) : Prop where
  beginCheck : ∀ (env : Env) (revision : Nat) (check : String) (token job : Uuid)
    (r : VerificationLease × TaskState × Db),
    beginCheck env id revision check token job db ≠ .ok r
  finishCheck : ∀ (env : Env) (lease : VerificationLease) (observation : Observation)
    (r : TaskState × Db), lease.task = id → finishCheck env lease observation db ≠ .ok r
  complete : ∀ (env : Env) (revision : Nat) (r : TaskState × Db), complete env id revision db ≠ .ok r
  setPhase : ∀ (env : Env) (revision : Nat) (phase : Phase) (r : TaskState × Db),
    setPhase env id revision phase db = .ok r → phase = .understand ∨ phase = .baseline

theorem Fenced.refuses (h : Fenced s) (hr : Represents db w) (hs : w.tasks id = some s)
    (hpending : s.amendmentPending = true) : Refuses db id := by
  obtain ⟨head, hl⟩ := hr.loadState hs
  have hloaded : ∀ {t head'}, loadState db id = .ok (t, head') → t = s := by
    intro t head' hl'
    rw [hl] at hl'
    cases hl'
    rfl
  refine ⟨?_, ?_, ?_, ?_⟩
  · intro env revision check token job r hc
    obtain ⟨⟨t, db₁⟩, hc, -⟩ := bind_ok hc
    obtain ⟨t, head', e, leases, hl', hop, -, -⟩ := change_ok hc
    obtain ⟨hclear, -⟩ := beginCheckOperation_ok hop
    rw [hloaded hl', hpending] at hclear
    cases hclear
  · rintro env lease observation ⟨t, db₁⟩ rfl hc
    obtain ⟨t, head', e, leases, hl', hop, -, -⟩ := change_ok hc
    obtain ⟨job, evidence, hget, -, hgen, -, -, hcheck, -⟩ := finishCheckOperation_ok hop
    rw [hloaded hl'] at hget hgen
    have := h.checks hpending lease.job job hget (by rw [hcheck]; rfl)
    omega
  · rintro env revision ⟨t, db₁⟩ hc
    obtain ⟨t, head', e, leases, hl', hop, -, -⟩ := change_ok hc
    obtain ⟨certificate, hcert, -⟩ := bind_ok hop
    obtain ⟨contract, candidate, -, -, -, -, hquiet, -⟩ := evaluate_ok (mapError_ok hcert)
    have hclear := hquiet.amendment
    rw [hloaded hl', hpending] at hclear
    cases hclear
  · rintro env revision phase ⟨t, db₁⟩ hc
    obtain ⟨t, head', e, leases, hl', hop, -, -⟩ := change_ok hc
    obtain ⟨_, hadmitted, -⟩ := bind_ok hop
    exact admitPhase_ok hadmitted (by rw [hloaded hl']; exact hpending)

/-- **The gate of an amendment**: in every state of every run the flag is set exactly while some
directive is newer than the admitted scope, and while it is set no transaction starts or finishes a
check, completes the task or takes it past admission. -/
theorem amendment_gate (h : Reachable draws db w) (hs : w.tasks id = some s) :
    (s.amendmentPending = true ↔ ∃ (request : Uuid) (scope : Nat),
      s.directiveScopes[request]? = some scope ∧ s.admittedScopeRevision < scope) ∧
    (s.amendmentPending = true → Refuses db id ∧
      ∀ (t : TaskState) (session : Option SessionState) (db' : Db),
        Step draws db (some t) session db' → t.id = id → Gated s t) :=
  ⟨(h.scoped hs).pending, fun hpending => ⟨(h.fenced hs).refuses h.represents hs hpending,
    fun _ _ _ hstep hid => h.gated hs hpending hstep hid⟩⟩

end

/-! ## the task of the example, with a follow-up -/

namespace Sample

def followUp : Uuid := ⟨8⟩

/-- a follow-up that steers the task -/
def steering : Submission where
  manualJob := none
  id := followUp
  input := ⟨0⟩
  initialInput := ⟨0⟩
  records := []
  result := none
  intent := .continue taskId 0 .steer
  status := .queued
  submittedRevision := linked.revision + 1
  submittedMs := 0

def steered : TaskState := begun.apply (.directiveReceived followUp ⟨0⟩)

def steeredSession : SessionState := after linked (followUp.named "submitted") (.submitted steering)

theorem steers {db : Db} {w : World} (h : Represents db w)
    (hkeys : db.sessions.map Prod.fst = [sessionId]) (hs : w.sessions sessionId = some linked)
    (ht : w.tasks taskId = some begun) :
    ∃ db', submit env sessionId followUp ⟨0⟩ (.continue taskId 0 .steer) db =
      .ok (steering, steeredSession, some steered, db') := by
  obtain ⟨head, hload⟩ := h.loadSession hs
  obtain ⟨taskHead, htask⟩ := h.loadState ht
  obtain ⟨db₁, happ, -⟩ := h.appends (s := begun) ht taskHead
    (fits db (.directiveReceived followUp ⟨0⟩) (by decide))
  have hdirect : directTask env taskId begun taskHead (.directiveReceived followUp ⟨0⟩) db =
      .ok (steered, { db₁ with leases := Leases.dropTask db₁.leases taskId }) := by
    rw [directTask, happ]
    rfl
  have hallowed : Allowed (fun _ _ => True) begun (.directiveReceived followUp ⟨0⟩) := trivial
  have hpart : TaskPart (fun _ _ => True) db w (some steered) _ :=
    (directTask_part h htask hallowed hdirect).part (.one hallowed)
  have hqueue : linked.apply (followUp.named "submitted") (.submitted steering) = .ok steeredSession := rfl
  obtain ⟨g, db₂, hsub, -⟩ := commands hpart.represents ((SessionLoaded.of_load h hload).1.after hpart)
    (env.appendClock 0) hqueue (by decide) trivial
  have hcapacity : admitCapacity linked followUp db = .ok () := by
    rw [admitCapacity, if_neg (by decide +kernel), pendingSubmissions_one h hkeys hs]
    rfl
  refine ⟨db₂, ?_⟩
  rw [submit, hload, ok_bind]
  simp only
  rw [hcapacity, ok_bind]
  show (submitContinuation env linked followUp ⟨0⟩ db (.continue taskId 0 .steer) >>= _) = _
  rw [submitContinuation, refuseIf_of_not _ (by decide +kernel), ok_bind, htask, ok_bind]
  show (directTask env taskId begun taskHead (.directiveReceived followUp ⟨0⟩) db >>= _) >>= _ = _
  rw [hdirect, ok_bind]
  show (appendSessionCommand linked head (followUp.named "submitted") (.submitted steering)
    (env.appendClock 0) _ >>= _) = _
  rw [hsub]
  rfl

end Sample

open Sample in
theorem amendment_gate_steered : ∃ db : Db, steered.amendmentPending = true ∧ Refuses db taskId := by
  obtain ⟨db, w, hr, hs, ht, hkeys⟩ := @reachable_linked fun _ _ => True
  obtain ⟨db₁, hsub⟩ := steers hr.represents hkeys hs ht
  have hs₁ : (w.write (some steered) (some steeredSession)).tasks taskId = some steered :=
    World.setTask_get w steered
  exact ⟨db₁, rfl, ((amendment_gate (Run.step hr (.submit hsub)) hs₁).2 rfl).1⟩

end Orvek
