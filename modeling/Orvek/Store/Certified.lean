import Orvek.Store.Runs

/-!
# A completed task stays certified

A task is complete when the evaluator issued a certificate for it.  Accounting, settlements,
directives and audits go on after that.  Each of them leaves the certificate true, or takes the
outcome away:

* `Certified`             the certificate of a complete task describes its state;
* `Allowed.certified`     one event;
* `complete_certified`    every state that a run of the store reaches.
-/

set_option linter.unusedSectionVars false

namespace Orvek
open Checks Completion

section
variable [Sha256] [ContractCodec] [SessionCodec] [StoreCodec] [JsonReader]

/-- what the certificate of a complete task says about it -/
structure Certificated (s : TaskState) (contract : Contract) (candidate : Candidate)
    (c : Certificate) : Prop where
  agreed : s.contract = some contract
  selected : s.candidate = some candidate
  last : s.certificates.getLast? = some c
  certifies : Certifies s contract candidate c
  quiet : Quiet s contract.limits

def Certified (s : TaskState) : Prop :=
  s.outcome = some .complete → ∃ contract candidate c, Certificated s contract candidate c

variable {s : TaskState} {draws : TaskState → Uuid → Prop}

theorem Certified.of_ne (h : s.outcome ≠ some .complete) : Certified s := fun hc => absurd hc h

theorem Certified.of_none (h : s.outcome = none) : Certified s := .of_ne (by rw [h]; exact nofun)

theorem Certified.no_pending (h : Certified s) {job : Uuid} (hp : Pending s job) :
    s.outcome ≠ some .complete := by
  intro hc
  obtain ⟨contract, candidate, c, hcert⟩ := h hc
  obtain ⟨j, hj, hun⟩ := hp
  have := hcert.quiet.jobs j (mem_valuesOf.mpr ⟨job, hj⟩)
  rw [hun] at this
  cases this

theorem Certified.no_effect (h : Certified s) {operation : Uuid} {effect : Effect}
    (he : s.effects[operation]? = some effect) (hun : unreconciled effect = true) :
    s.outcome ≠ some .complete := by
  intro hc
  obtain ⟨contract, candidate, c, hcert⟩ := h hc
  have := hcert.quiet.effects effect (mem_valuesOf.mpr ⟨operation, he⟩)
  rw [hun] at this
  cases this

theorem Certified.no_call (h : Certified s) {operation : Uuid} (hr : operation ∈ s.modelReservations)
    (hun : settledCall s.modelReceipts operation = false) : s.outcome ≠ some .complete := by
  intro hc
  obtain ⟨contract, candidate, c, hcert⟩ := h hc
  have := hcert.quiet.calls operation hr
  rw [hun] at this
  cases this

theorem Certified.keep {e : TaskEvent} (hne : s.outcome ≠ some .complete)
    (hk : (s.apply e).outcome = s.outcome) : Certified (s.apply e) := .of_ne (by rw [hk]; exact hne)

theorem Certified.usageCharged (h : Certified s) (operation : Uuid) (usage : Usage) :
    Certified (s.apply (.usageCharged operation usage)) := by
  unfold TaskState.apply
  simp only [TaskState.update]
  split
  · exact .of_ne (by simp)
  · rename_i hwithin
    intro hc
    obtain ⟨contract, candidate, c, hcert⟩ := h hc
    have hout : s.outcome = some .complete := hc
    simp only [TaskState.limits, hcert.agreed, hout, true_and, not_or, Nat.not_lt] at hwithin
    exact ⟨contract, candidate, c, hcert.agreed, hcert.selected, hcert.last,
      hcert.certifies.transfer rfl rfl rfl, hcert.quiet.amendment, hcert.quiet.jobs,
      hcert.quiet.effects, hcert.quiet.calls, hwithin.2, hwithin.1⟩

theorem certified_completed {atMs : Nat} {c : Certificate} (h : evaluate s atMs = .ok c) :
    Certified (s.apply (.completed c)) := by
  obtain ⟨contract, candidate, hcon, hcand, -, -, hquiet, hcert⟩ := evaluate_ok h
  exact fun _ => ⟨contract, candidate, c, hcon, hcand, by simp [TaskState.apply, TaskState.update],
    hcert.transfer rfl rfl rfl, hquiet.amendment, hquiet.jobs, hquiet.effects, hquiet.calls,
    hquiet.usage⟩

/-- **No event that the operations allow makes the certificate of a complete task untrue.** -/
theorem Allowed.certified {e : TaskEvent} (he : Allowed draws s e) (h : Certified s) :
    Certified (s.apply e) := by
  cases e with
  | manualWorkspace candidate origin => cases he
  | requested request limits intake input atMs => cases he
  | created contract atMs => cases he
  -- these six decide the outcome themselves
  | manualStarted job => exact .of_none rfl
  | directiveReplaced request input => exact .of_none rfl
  | directiveReceived request input => exact .of_none rfl
  | evidenceInvalidated reason => exact .of_ne (by simp [TaskState.apply, TaskState.update])
  | reopened reason => exact .of_none rfl
  | stopped outcome reason =>
    refine .of_ne fun hc => he.2 ?_
    simpa [TaskState.apply, TaskState.update] using hc
  | interrupted reason =>
    refine .of_ne ?_
    simp only [TaskState.apply, TaskState.update]
    split <;> simp
  -- a complete task has nothing left to settle
  | jobSettled id status receipt => exact .keep (h.no_pending he.1) rfl
  | jobFenced id receipt => exact .keep (h.no_pending he) rfl
  | effectRecorded effect =>
    rcases he with hnone | ⟨previous, hprev, hun⟩
    · exact .of_none hnone
    · exact .keep (h.no_effect hprev hun) rfl
  | modelCallRecorded operation receipt =>
    have hne := h.no_call he.1 he.2.1
    refine .of_ne ?_
    simp only [TaskState.apply, TaskState.update]
    split
    · simp
    · exact hne
  | usageCharged operation usage => exact h.usageCharged operation usage
  | completed c =>
    obtain ⟨atMs, hev⟩ := he
    exact certified_completed hev
  -- the rest needs a task without an outcome, and leaves it so
  | jobStarted job => exact .of_none he.1
  | observed evidence => exact .of_none he.1
  | workspaceRestored source => exact .of_none he
  | originCaptured source => exact .of_none he
  | additiveContractAccepted contract receipt scope => exact .of_none he.1
  | contractAdmitted contract basis receipt => exact .of_none he
  | contractAmended contract reason => exact .of_none he
  | candidateSelected candidate => exact .of_none he
  | workspaceChanged reason => exact .of_none he
  | cancellationRequested => exact .of_none he
  | baselineEstablished candidate => exact .of_none he
  | phaseChanged phase => exact .of_none he.1
  | findingRecorded finding => exact .of_none he
  | modelCallReserved operation => exact .of_none he.1
  | delivered delivery => exact .of_none he

theorem Commit.certified {events : List TaskEvent} (hc : Commit draws s events) (h : Certified s) :
    Certified (events.foldl TaskState.apply s) := by
  cases hc with
  | none => exact h
  | one he => exact he.certified h
  | two he he' _ => exact he'.certified (he.certified h)
  | shell hjob hrun hstatus =>
    rw [List.foldl_append]
    exact .of_ne (by simp [TaskState.apply, TaskState.update])

theorem Initial.certified (h : Initial s) : Certified s := by
  cases h <;> exact .of_none rfl

/-- **A completed task stays truthfully certified**, in every state that any run of the store
reaches: the last certificate is of this generation, contract and candidate, every check of every
requirement is accepted on evidence that it lists, and nothing is open. -/
theorem complete_certified {db : Db} {w : World} (h : Reachable draws db w) {id : TaskId}
    {s : TaskState} (hs : w.tasks id = some s) (hc : s.outcome = some .complete) :
    ∃ contract candidate c, s.contract = some contract ∧ s.candidate = some candidate ∧
      s.certificates.getLast? = some c ∧ Certifies s contract candidate c ∧ Quiet s contract.limits := by
  obtain ⟨contract, candidate, c, hcert⟩ :=
    h.task_invariant (fun _ hi => hi.certified) (fun _ _ hp hcommit => hcommit.certified hp) hs hc
  exact ⟨contract, candidate, c, hcert.agreed, hcert.selected, hcert.last, hcert.certifies,
    hcert.quiet⟩

end

/-! ## the task of the example, completed -/

namespace Sample

def delivery : Delivery := ⟨.source, ⟨0⟩, ⟨0⟩, ⟨0⟩⟩

def delivered : TaskState := checked.apply (.delivered delivery)

def certificate : Certificate where
  task := taskId
  contract := contract.digest
  source := ⟨0⟩
  artifact := ⟨0⟩
  environment := ⟨0⟩
  generation := 2
  evaluatedRevision := 5
  evidence := (∅ : BTreeMap String Uuid).insert "c" job
  deliveryReceipt := ⟨0⟩

def completed : TaskState := delivered.apply (.completed certificate)

theorem reachable_completed : ∃ db w, Reachable (fun _ _ => True) db w ∧
    w.tasks taskId = some completed := by
  obtain ⟨db, w, hr, hs, hl⟩ := @reachable_selected fun _ _ => True
  obtain ⟨db₁, hb, hl₁⟩ := begins hr.represents hs hl
  have hr₁ : Reachable (fun _ _ => True) db₁ (w.write (some checkBegun) none) :=
    Run.step hr (.beginCheck hb fun _ _ _ => trivial)
  obtain ⟨db₂, hf⟩ := finishes hr₁.represents (World.setTask_get w checkBegun) hl₁
  have hr₂ := Run.step hr₁ (.finishCheck hf)
  have hd : ∃ db₃, recordDelivery env taskId 4 delivery db₂ = .ok (delivered, db₃) ∧ _ :=
    (Reachable.represents hr₂).changes (World.setTask_get _ checked) rfl (by decide) rfl
      (fits _ _ (by decide))
  obtain ⟨db₃, hd, -⟩ := hd
  have hr₃ := Run.step hr₂ (.recordDelivery hd)
  have hc : ∃ db₄, complete env taskId 5 db₃ = .ok (completed, db₄) ∧ _ :=
    (Reachable.represents hr₃).changes (World.setTask_get _ delivered) rfl (by decide) rfl
      (fits _ _ (by decide))
  obtain ⟨db₄, hc, -⟩ := hc
  exact ⟨db₄, _, Run.step hr₃ (.complete hc), World.setTask_get _ completed⟩

end Sample

open Sample in
theorem complete_certified_completed : ∃ contract candidate c, completed.contract = some contract ∧
    completed.candidate = some candidate ∧ completed.certificates.getLast? = some c ∧
    Certifies completed contract candidate c ∧ Quiet completed contract.limits := by
  obtain ⟨db, w, hr, hs⟩ := reachable_completed
  exact complete_certified hr hs rfl

end Orvek
