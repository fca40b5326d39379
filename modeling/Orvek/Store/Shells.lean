import Orvek.Store.Quiescence
import Orvek.Store.Restarts

/-!
# Commands of the user that are interrupted

A command of the user marks its session when it starts, and the session takes no other work on its
source while the mark is there.  The end of the command takes the mark away when its status is known,
and it can be recorded only while the command is the active request.

* `Beneath`          what the commands of a session other than the start and the end of a shell leave;
* `ShellsOwned`      the mark belongs to a submission that has a job, and an active one has the mark;
* `Locked`           the mark belongs to a command that is not active any more: no call takes it away;
* `shell_released`   after a crash and a recovery, or after an end, some run takes the mark away exactly
                     when it is gone already.
-/

set_option linter.unusedSectionVars false

namespace Orvek
open Checks Json Sweep

section
variable [Sha256] [ContractCodec] [SessionCodec] [StoreCodec] [JsonReader]
variable {db db' : Db} {w w' : World} {env : Env} {s t u : SessionState} {request : Uuid}
variable {c : SessionCommand ContextView} {operation : Uuid} {frames : List Frame} {id session : SessionId}
  {head : Digest} {task : Option TaskState} {report : ShellReport} {seed : Option WorkspaceSeed}
  {call : HostCall}

/-! ## what a command leaves of the mark -/

def Claimed (s : SessionState) (request : Uuid) : Prop :=
  ∃ x job, s.submissions[request]? = some x ∧ x.manualJob = some job

/-- the commands that set or clear the mark, and the one that adds a submission -/
def SessionCommand.shell {V : Type} : SessionCommand V → Bool
  | .shellStarted .. | .shellPublished .. | .submitted .. => true
  | _ => false

/-- the commands that make their operation the active request -/
def SessionCommand.opens {V : Type} : SessionCommand V → Bool
  | .auxiliaryStarted | .input .. | .shellStarted .. => true
  | _ => false

theorem reserved_shell (h : c.reserved = false) : c.shell = false := by
  cases c <;> first | rfl | cases h

theorem logical_shell (h : c.logical = false) : c.shell = false ∧ c.opens = false := by
  cases c <;> first | exact ⟨rfl, rfl⟩ | cases h

theorem edited_manualJob (hc : c.shell = false) (id : Uuid) (x : Submission) :
    (edited (c.edit operation) id x).manualJob = x.manualJob := by
  cases c with
  | shellStarted => cases hc
  | shellPublished => cases hc
  | auxiliaryRecorded request record =>
    show (if id = request then _ else x).manualJob = _
    split <;> rfl
  | auxiliaryPublished request report text =>
    show (if id = request then _ else x).manualJob = _
    split <;> rfl
  | submissionChanged request status =>
    show (if id = request then _ else x).manualJob = _
    split <;> rfl
  | queueEdited request expected input =>
    cases input with
    | none => rfl
    | some digest =>
      show (if id = request then _ else x).manualJob = _
      split <;> rfl
  | _ => rfl

theorem claimed_of_edit (hsubs : ∀ id : Uuid, ∃ f : Submission → Submission,
    t.submissions[id]? = s.submissions[id]?.map f ∧ ∀ x, (f x).manualJob = x.manualJob) (request :
      Uuid) :
    Claimed t request ↔ Claimed s request := by
  obtain ⟨f, hmap, hjob⟩ := hsubs request
  unfold Claimed
  rw [hmap]
  constructor
  · rintro ⟨y, job, hy, hyjob⟩
    obtain ⟨x, hx, rfl⟩ := Option.map_eq_some_iff.mp hy
    exact ⟨x, job, hx, (hjob x).symm.trans hyjob⟩
  · rintro ⟨x, job, hx, hxjob⟩
    exact ⟨f x, job, by rw [hx]; rfl, (hjob x).trans hxjob⟩

/-- what is left of the mark, of the jobs and of the active request -/
structure Beneath (s t : SessionState) : Prop where
  pending : t.branch.pendingShell = s.branch.pendingShell
  claims : ∀ request, Claimed t request ↔ Claimed s request
  intents : ∀ request, Claimed s request → intentOf t request = intentOf s request
  recorded : ∀ id ∈ s.operations, id ∈ t.operations
  active : ∀ request, t.activeRequest = some request →
    s.activeRequest = some request ∨ ¬ Claimed s request

theorem Beneath.refl (s : SessionState) : Beneath s s :=
  ⟨rfl, fun _ => Iff.rfl, fun _ _ => rfl, fun _ h => h, fun _ h => .inl h⟩

theorem Beneath.trans (h : Beneath s t) (h' : Beneath t u) : Beneath s u where
  pending := h'.pending.trans h.pending
  claims request := (h'.claims request).trans (h.claims request)
  intents request hc := (h'.intents request ((h.claims request).mpr hc)).trans
    (h.intents request hc)
  recorded id hid := h'.recorded id (h.recorded id hid)
  active request ha := by
    rcases h'.active request ha with ha | hn
    · exact h.active request ha
    · exact .inr fun hc => hn ((h.claims request).mpr hc)

/-- **A command that is none of a shell leaves it alone**, unless it opens the request of one. -/
theorem apply_beneath (h : s.apply operation c = .ok t) (hc : c.shell = false)
    (hopens : c.opens = true → ¬ Claimed s operation) : Beneath s t := by
  have hsubmitted : ∀ x, c ≠ .submitted x := by
    rintro x rfl
    cases hc
  have hkept : t.branch.pendingShell = s.branch.pendingShell ∧
      (t.activeRequest = s.activeRequest ∨ t.activeRequest = none ∨
        c.opens = true ∧ t.activeRequest = some operation) := by
    obtain ⟨v, _, hv, rfl, -⟩ := apply_applied h
    cases hv with
    | shellStarted | shellPublished => cases hc
    | auxiliaryStarted | input => exact ⟨rfl, .inr (.inr ⟨rfl, rfl⟩)⟩
    | turnSettled => exact ⟨rfl, .inr (.inl rfl)⟩
    | _ => exact ⟨rfl, .inl rfl⟩
  refine ⟨hkept.1, fun request => ?_, fun request _ => ?_, fun id hid => ?_, fun request ha => ?_⟩
  · exact claimed_of_edit (fun id => ⟨_, apply_submissions h hsubmitted id,
      edited_manualJob hc id⟩) request
  · exact apply_intent h fun x hx => absurd hx (hsubmitted x)
  · exact (mem_operations h).mpr (.inr hid)
  · rcases hkept.2 with he | he | ⟨hop, he⟩
    · exact .inl (he ▸ ha)
    · rw [he] at ha
      cases ha
    · rw [he] at ha
      cases ha
      exact .inr (hopens hop)

theorem applyAll_beneath (hc : ∀ f ∈ frames, f.2.shell = false)
    (hopens : ∀ f ∈ frames, f.2.opens = true → ¬ Claimed s f.1) (h : s.applyAll frames = .ok t) :
    Beneath s t := by
  induction frames generalizing s with
  | nil =>
    cases h
    exact .refl _
  | cons f frames ih =>
    obtain ⟨v, hv, h⟩ := applyAll_cons h
    have hfirst := apply_beneath hv (hc f List.mem_cons_self) (hopens f List.mem_cons_self)
    refine hfirst.trans (ih (fun g hg => hc g (List.mem_cons_of_mem f hg))
      (fun g hg hop hclaim => ?_) h)
    exact hopens g (List.mem_cons_of_mem f hg) hop ((hfirst.claims g.1).mp hclaim)

/-! ## the session and its mark -/

/-- the mark and the jobs of a session belong together -/
structure ShellsOwned (s : SessionState) : Prop where
  recorded : ∀ request, Claimed s request → request ∈ s.operations
  shell : ∀ request, Claimed s request → ∃ spec, intentOf s request = some (.shell spec)
  marked : ∀ request, s.branch.pendingShell = some request → Claimed s request
  active : ∀ request, Claimed s request → s.activeRequest = some request →
    s.branch.pendingShell = some request

/-- the mark belongs to a command that is not active any more -/
def Locked (s : SessionState) : Prop :=
  ∃ request, s.branch.pendingShell = some request ∧ s.activeRequest ≠ some request

theorem ShellsOwned.beneath (h : ShellsOwned s) (hb : Beneath s t) : ShellsOwned t where
  recorded request hc := hb.recorded request (h.recorded request ((hb.claims request).mp hc))
  shell request hc := by
    have hold := (hb.claims request).mp hc
    rw [hb.intents request hold]
    exact h.shell request hold
  marked request hm := (hb.claims request).mpr (h.marked request (hb.pending ▸ hm))
  active request hc ha := by
    have hold := (hb.claims request).mp hc
    rcases hb.active request ha with ha | hn
    · rw [hb.pending]
      exact h.active request hold ha
    · exact absurd hold hn

theorem Locked.beneath (h : Locked s) (ho : ShellsOwned s) (hb : Beneath s t) :
    Locked t ∧ t.branch.pendingShell = s.branch.pendingShell := by
  obtain ⟨request, hmark, hidle⟩ := h
  refine ⟨⟨request, hb.pending.trans hmark, fun ha => ?_⟩, hb.pending⟩
  rcases hb.active request ha with ha | hn
  · exact hidle ha
  · exact hn (ho.marked request hmark)

theorem claimed_create (id : SessionId) (creation : SessionCreation) :
    ¬ Claimed (SessionState.create id creation) request := by
  rintro ⟨x, job, hx, -⟩
  rw [show (SessionState.create id creation).submissions[request]? = none
    from Std.ExtTreeMap.getElem?_empty] at hx
  cases hx

/-! ## calls -/

theorem admitStart_claimed {r : StartRequest} (ho : ShellsOwned s)
    (h : admitStart s request r = .ok ()) : ¬ Claimed s request := by
  intro hclaim
  obtain ⟨spec, hspec⟩ := ho.shell request hclaim
  obtain ⟨x, hx, hintent⟩ := Option.map_eq_some_iff.mp hspec
  obtain ⟨-, h⟩ := refuseIf_bind h
  obtain ⟨-, h⟩ := refuseIf_bind h
  have hguard := refuseIf_ok h
  rw [hx] at hguard
  have hrefused : r.accepted x.intent = false := by
    rw [hintent]
    rfl
  simp [hrefused] at hguard

theorem startRecord_admitted {r : StartRequest} {id : TaskId} {out : SessionState × TaskState × Bool × Db}
    (h : startRecord env session operation r id db = .ok out)
    (hl : loadSessionState db session none = .ok (s, head)) :
    out.1 = s ∨ admitStart s operation r = .ok () := by
  rw [startRecord, hl, ok_bind] at h
  simp only at h
  split at h
  · obtain ⟨_, -, h⟩ := bind_ok h
    obtain ⟨_, -, h⟩ := bind_ok h
    obtain ⟨-, h⟩ := refuseIf_bind h
    cases h
    exact .inl rfl
  · obtain ⟨_, hadmitted, h⟩ := bind_ok h
    exact .inr hadmitted

theorem Leaves.start {call : HostCall} {operation : Uuid} {task : TaskId}
    (hstarts : call.starts = some (operation, task)) (h : call.Leaves s t) :
    t = s ∨ ∃ r, admitStart s operation r = .ok () := by
  obtain ⟨env, db, head, task', db', hl, hc⟩ := h
  have hrecord : ∀ {r : StartRequest} {out : SessionState × TaskState × Bool × Db},
      startRecord env call.session operation r task db = .ok out → out.1 = t →
      t = s ∨ ∃ r, admitStart s operation r = .ok () := by
    intro r out hstart hout
    rcases startRecord_admitted hstart hl with he | hadmitted
    · exact .inl (hout.symm.trans he)
    · exact .inr ⟨r, hadmitted⟩
  cases call with
  | startTask session operation' contract task' =>
    cases hstarts
    obtain ⟨out, h, he⟩ := bind_ok hc
    cases he
    obtain ⟨-, -, h⟩ := bind_ok h
    exact hrecord h rfl
  | startRequest session operation' text limits intake task' =>
    cases hstarts
    obtain ⟨out, h, he⟩ := bind_ok hc
    cases he
    obtain ⟨-, h⟩ := refuseIf_bind h
    obtain ⟨-, -, h⟩ := bind_ok h
    obtain ⟨-, -, h⟩ := bind_ok h
    exact hrecord h rfl
  | startPreparedRequest session operation' input limits intake task' =>
    cases hstarts
    obtain ⟨out, h, he⟩ := bind_ok hc
    cases he
    obtain ⟨-, h⟩ := refuseIf_bind h
    obtain ⟨-, -, h⟩ := bind_ok h
    obtain ⟨-, -, h⟩ := bind_ok h
    obtain ⟨_, -, h⟩ := bind_ok h
    obtain ⟨-, h⟩ := refuseIf_bind h
    exact hrecord h rfl
  | _ => cases hstarts

theorem Leaves.submit {session : SessionId} {id : Uuid} {input : Digest} {intent : WorkIntent}
    (h : (HostCall.submit session id input intent).Leaves s t) : t = s ∨
      ∃ x : Submission, x.id = id ∧ x.manualJob = none ∧ s.submissions[id]? = none ∧
        s.apply (id.named "submitted") (.submitted x) = .ok t := by
  obtain ⟨env, db, head, task, db', hl, hc⟩ := h
  obtain ⟨out, h, he⟩ := bind_ok hc
  cases he
  rw [Orvek.submit, show loadSessionState db session none = .ok (s, head) from hl, ok_bind] at h
  obtain ⟨-, -, h⟩ := bind_ok h
  obtain ⟨_, -, h⟩ := bind_ok h
  obtain ⟨-, -, h⟩ := bind_ok h
  simp only at h
  split at h
  · obtain ⟨-, h⟩ := refuseIf_bind h
    cases h
    exact .inl rfl
  · rename_i hfree
    obtain ⟨-, h⟩ := refuseIf_bind h
    obtain ⟨-, h⟩ := refuseIf_bind h
    obtain ⟨_, -, h⟩ := bind_ok h
    obtain ⟨⟨u, g, db₂⟩, happ, h⟩ := bind_ok h
    cases h
    exact .inr ⟨_, rfl, rfl, hfree, applyAll_one.mp (append_one happ rfl)⟩

theorem beginShell_ok {job : ManualJob} (hl : loadSessionState db session none = .ok (s, head))
    (h : beginShell env session request job db = .ok (t, task, db')) :
    (∃ x spec, s.submissions[request]? = some x ∧ x.intent = .shell spec) ∧
      s.activeRequest = none ∧ s.branch.pendingShell = none ∧ request ∉ s.operations ∧
      s.apply request (.shellStarted job) = .ok t := by
  rw [beginShell, hl, ok_bind] at h
  obtain ⟨x, hx, h⟩ := bind_ok h
  obtain ⟨spec, hspec, h⟩ := bind_ok h
  obtain ⟨-, -, h⟩ := bind_ok h
  obtain ⟨hguard, h⟩ := refuseIf_bind h
  obtain ⟨-, h⟩ := refuseIf_bind h
  obtain ⟨-, -, h⟩ := bind_ok h
  obtain ⟨-, -, h⟩ := bind_ok h
  obtain ⟨_, -, h⟩ := bind_ok h
  obtain ⟨⟨u, g, db₂⟩, happ, h⟩ := bind_ok h
  cases h
  simp only [not_or, not_not] at hguard
  refine ⟨⟨x, spec, orInvalid_ok hx, ?_⟩, by simpa using hguard.2.1, by simpa using hguard.2.2.2.2,
    hguard.2.2.1, applyAll_one.mp (append_one happ rfl)⟩
  unfold shellSpec at hspec
  split at hspec
  · rename_i he
    cases hspec
    exact he
  · cases hspec

theorem settleShells_seed {report' : ShellReport} {seed' : Option WorkspaceSeed}
    (h : settleShells env request report seed db = .ok (task, report', seed', db')) (hseed : seed = none) :
    seed' = none := by
  subst hseed
  unfold settleShells at h
  split at h
  · cases h
    rfl
  · obtain ⟨⟨t, r, seed₁, db₁⟩, hone, h⟩ := bind_ok h
    cases h
    obtain ⟨_, -, hone⟩ := bind_ok hone
    obtain ⟨-, -, hone⟩ := bind_ok hone
    obtain ⟨_, -, hone⟩ := bind_ok hone
    simp only [ite_self] at hone
    obtain ⟨_, -, hone⟩ := bind_ok hone
    obtain ⟨_, -, hone⟩ := bind_ok hone
    obtain ⟨_, -, hone⟩ := bind_ok hone
    cases hone
    rfl

theorem settleShells_status {report' : ShellReport} {seed' : Option WorkspaceSeed}
    (h : settleShells env request report seed db = .ok (task, report', seed', db')) :
    report'.status = report.status := by
  unfold settleShells at h
  split at h
  · cases h
    rfl
  · obtain ⟨⟨t, r, seed₁, db₁⟩, hone, h⟩ := bind_ok h
    cases h
    obtain ⟨_, -, hone⟩ := bind_ok hone
    obtain ⟨-, -, hone⟩ := bind_ok hone
    obtain ⟨_, -, hone⟩ := bind_ok hone
    obtain ⟨_, -, hone⟩ := bind_ok hone
    obtain ⟨_, -, hone⟩ := bind_ok hone
    obtain ⟨_, -, hone⟩ := bind_ok hone
    cases hone
    show (if _ then _ else _ : ShellReport).status = _
    split <;> rfl

theorem shellSeed_unknown (h : shellSeed env report = .ok seed)
    (hunknown : report.status.jobStatus = .unknown) : seed = none := by
  unfold shellSeed at h
  split at h
  · rw [if_pos hunknown] at h
    cases h
    rfl
  · cases h
    rfl

theorem finishShell_ok {digest : Digest} (hl : loadSessionState db session none = .ok (s, head))
    (h : finishShell env session request report db = .ok (digest, t, task, db')) :
    Claimed s request ∧ s.activeRequest = some request ∧ ∃ seed error v,
      (report.status.jobStatus = .unknown → seed = none) ∧
      s.apply (request.named "shell-published")
        (.shellPublished request digest seed (report.status.jobStatus ≠ .unknown)) = .ok v ∧
      v.apply (request.named "shell-settled") (.turnSettled request none error) = .ok t := by
  rw [finishShell, hl, ok_bind] at h
  obtain ⟨x, hx, h⟩ := bind_ok h
  obtain ⟨hguard, h⟩ := refuseIf_bind h
  obtain ⟨-, -, h⟩ := bind_ok h
  obtain ⟨seed, hseed, h⟩ := bind_ok h
  obtain ⟨⟨_, report', seed', db₁⟩, hsettle, h⟩ := bind_ok h
  obtain ⟨_, -, h⟩ := bind_ok h
  obtain ⟨⟨v, g, db₂⟩, hpub, h⟩ := bind_ok h
  obtain ⟨⟨_, k, db₃⟩, hturn, h⟩ := bind_ok h
  cases h
  rw [not_or, not_not, not_not] at hguard
  have hpublished := applyAll_one.mp (append_one hpub rfl)
  rw [settleShells_status hsettle] at hpublished
  exact ⟨⟨x, report.job, orInvalid_ok hx, hguard.2⟩, hguard.1, seed', _, v,
    fun hunknown => settleShells_seed hsettle (shellSeed_unknown hseed hunknown), hpublished,
    applyAll_one.mp (append_one hturn rfl)⟩

theorem shellPublished_apply {report : Digest} {settled : Bool}
    (h : s.apply operation (.shellPublished request report seed settled) = .ok t) :
    t.branch.pendingShell = (if settled = true ∨
      seed.isSome = true then none else s.branch.pendingShell) ∧
      t.activeRequest = s.activeRequest ∧ (∀ id, Claimed t id ↔ Claimed s id) ∧
      (∀ id, intentOf t id = intentOf s id) ∧ ∀ id ∈ s.operations, id ∈ t.operations := by
  have hsubs := apply_submissions h fun _ h => nomatch h
  refine ⟨?_, ?_, fun id => claimed_of_edit (fun k => ⟨_, hsubs k, fun x => ?_⟩) id,
    fun id => apply_intent h fun _ h => (nomatch h), fun id hid => (mem_operations h).mpr
      (.inr hid)⟩
  · cases h
    show (s.shellPublished request report seed settled).branch.pendingShell = _
    unfold SessionState.shellPublished
    cases seed <;> cases settled <;> rfl
  · cases h
    rfl
  · show (if k = request then _ else x).manualJob = _
    split <;> rfl

/-! ## what every call leaves -/

/-- what a session is after the end of a command -/
structure Finished (s t : SessionState) (request : Uuid) (status : JobStatus) : Prop where
  was : Claimed s request ∧ s.activeRequest = some request
  rests : t.activeRequest = none
  mark : t.branch.pendingShell = if status = .unknown then s.branch.pendingShell else none
  claims : ∀ id, Claimed t id ↔ Claimed s id
  intents : ∀ id, intentOf t id = intentOf s id
  recorded : ∀ id ∈ s.operations, id ∈ t.operations

theorem finishShell_finished {digest : Digest} (hl : loadSessionState db session none = .ok (s, head))
    (h : finishShell env session request report db = .ok (digest, t, task, db')) :
    Finished s t request report.status.jobStatus := by
  obtain ⟨hclaim, hactive, seed, error, v, hseed, hpub, hturn⟩ := finishShell_ok hl h
  obtain ⟨hmark, -, hclaims, hintents, hrecorded⟩ := shellPublished_apply hpub
  have hbeneath : Beneath v t := apply_beneath hturn rfl fun h => nomatch h
  refine ⟨⟨hclaim, hactive⟩, ?_, ?_, fun id => (hbeneath.claims id).trans (hclaims id),
    fun id => ?_,
    fun id hid => hbeneath.recorded id (hrecorded id hid)⟩
  · cases hturn
    rfl
  · rw [hbeneath.pending, hmark]
    by_cases hunknown : report.status.jobStatus = .unknown
    · rw [if_pos hunknown, if_neg]
      simp [hunknown, hseed hunknown]
    · rw [if_neg hunknown, if_pos (.inl (by simpa using hunknown))]
  · exact (apply_intent hturn fun _ h => nomatch h).trans (hintents id)

theorem Finished.owned {status : JobStatus} (h : Finished s t request status) (ho : ShellsOwned s) :
    ShellsOwned t where
  recorded id hc := h.recorded id (ho.recorded id ((h.claims id).mp hc))
  shell id hc := by
    rw [h.intents id]
    exact ho.shell id ((h.claims id).mp hc)
  marked id hm := by
    rw [h.mark] at hm
    split at hm
    · exact (h.claims id).mpr (ho.marked id hm)
    · cases hm
  active id _ ha := by
    rw [h.rests] at ha
    cases ha

theorem Finished.marked {status : JobStatus} (h : Finished s t request status)
    (ho : ShellsOwned s) :
    s.branch.pendingShell = some request :=
  ho.active request h.was.1 h.was.2

/-- what a session is after the start of a command -/
structure Begun (s t : SessionState) (request : Uuid) : Prop where
  free : s.branch.pendingShell = none
  new : request ∉ s.operations
  mark : t.branch.pendingShell = some request
  active : t.activeRequest = some request
  claims : ∀ id, Claimed t id → id = request ∨ Claimed s id
  claimed : Claimed t request
  intents : ∀ id, intentOf t id = intentOf s id
  shell : ∃ spec, intentOf s request = some (.shell spec)
  recorded : ∀ id, id ∈ t.operations ↔ id = request ∨ id ∈ s.operations

theorem beginShell_begun {job : ManualJob} (hl : loadSessionState db session none = .ok (s, head))
    (h : beginShell env session request job db = .ok (t, task, db')) : Begun s t request := by
  obtain ⟨⟨x, spec, hx, hintent⟩, -, hfree, hnew, hap⟩ := beginShell_ok hl h
  have hsubs := apply_submissions hap fun _ h => nomatch h
  have hget : t.submissions[request]? = some { x with manualJob := some job } := by
    rw [hsubs request, hx]
    exact congrArg some (if_pos rfl)
  refine ⟨hfree, hnew, ?_, ?_, fun id hc => ?_, ⟨_, job, hget, rfl⟩,
    fun id => apply_intent hap fun _ h => (nomatch h), ⟨spec, ?_⟩, fun id => ?_⟩
  · cases hap
    show (s.shellStarted request job).branch.pendingShell = _
    unfold SessionState.shellStarted
    cases job.task <;> rfl
  · cases hap
    show (s.shellStarted request job).activeRequest = _
    unfold SessionState.shellStarted
    cases job.task <;> rfl
  · obtain ⟨y, other, hy, hother⟩ := hc
    by_cases he : id = request
    · exact .inl he
    · rw [hsubs id] at hy
      obtain ⟨z, hz, rfl⟩ := Option.map_eq_some_iff.mp hy
      have hsame : edited (SessionCommand.edit request (.shellStarted job)) id z = z := if_neg he
      rw [hsame] at hother
      exact .inr ⟨z, other, hz, hother⟩
  · rw [intentOf, hx, ← hintent]
    rfl
  · rw [mem_operations hap, eq_comm]

theorem Begun.owned (h : Begun s t request) (ho : ShellsOwned s) : ShellsOwned t where
  recorded id hc := (h.recorded id).mpr ((h.claims id hc).imp_right (ho.recorded id))
  shell id hc := by
    rw [h.intents id]
    rcases h.claims id hc with rfl | hold
    · exact h.shell
    · exact ho.shell id hold
  marked id hm := by
    rw [h.mark] at hm
    cases hm
    exact h.claimed
  active id _ ha := by
    rw [h.active] at ha
    rw [h.mark]
    exact ha

/-- what one call makes of a session: it starts a command, it ends one, or it does neither -/
inductive ShellStep (s t : SessionState) : HostCall → Prop
  | beneath {call : HostCall} (h : Beneath s t) : ShellStep s t call
  | begun {session : SessionId} {request : Uuid} {job : ManualJob} (h : Begun s t request) :
      ShellStep s t (.beginShell session request job)
  | finished {session : SessionId} {request : Uuid} {report : ShellReport}
      (h : Finished s t request report.status.jobStatus) :
      ShellStep s t (.finishShell session request report)

theorem linkFrames_beneath {content : List Value} {task : TaskId} (hfree : ¬ Claimed s operation)
    (hap : s.applyAll (linkFrames operation content task) = .ok t) : Beneath s t := by
  refine applyAll_beneath (fun f hf => ?_) (fun f hf hopens => ?_) hap
  · simp only [linkFrames, List.mem_cons, List.not_mem_nil, or_false] at hf
    rcases hf with rfl | rfl <;> rfl
  · simp only [linkFrames, List.mem_cons, List.not_mem_nil, or_false] at hf
    rcases hf with rfl | rfl
    · exact hfree
    · cases hopens

theorem framed_beneath (hframed : Framed operation c frames) (hc : c.reserved = false)
    (hfree : ¬ Claimed s operation) (hap : s.applyAll frames = .ok t) : Beneath s t := by
  cases hframed with
  | one c =>
    refine applyAll_beneath (fun f hf => ?_) (fun f hf _ => ?_) hap
    · cases List.mem_singleton.mp hf
      exact reserved_shell hc
    · cases List.mem_singleton.mp hf
      exact hfree
  | many request callId output hlong hend =>
    have hframed : Framed operation _ _ := .many request callId output hlong hend
    have hall := hframed.all
      (q := fun c => c.shell = false ∧ c.opens = false) ⟨rfl, rfl⟩ fun _ => logical_shell
    refine applyAll_beneath (fun f hf => (hall f hf).1) (fun f hf hopens => ?_) hap
    rw [(hall f hf).2] at hopens
    cases hopens

theorem submitted_beneath {x : Submission} (hjob : x.manualJob = none) (hfree : s.submissions[x.id]? = none)
    (hap : s.apply operation (.submitted x) = .ok t) : Beneath s t := by
  have hsubs := apply_submitted hap
  refine ⟨by cases hap; rfl, fun id => ?_, fun id hc => ?_,
    fun id hid => (mem_operations hap).mpr (.inr hid), fun id ha => .inl (by cases hap; exact ha)⟩
  · unfold Claimed
    rw [hsubs id]
    split
    · rename_i he
      rw [he, hfree]
      constructor
      · rintro ⟨y, job, hy, hyjob⟩
        cases hy
        rw [hjob] at hyjob
        cases hyjob
      · rintro ⟨y, job, hy, -⟩
        cases hy
    · rfl
  · refine apply_intent hap fun y hy => ?_
    cases hy
    rintro rfl
    obtain ⟨y, job, hy, -⟩ := hc
    rw [hfree] at hy
    cases hy

/-- **What a call makes of the mark of a session.** -/
theorem CallPlan.shellStep (ho : ShellsOwned s) (hdirect : call.direct = true)
    (hplan : CallPlan s call frames) (hap : s.applyAll frames = .ok t) (hleaves : call.Leaves s t) :
    ShellStep s t call := by
  have hfree : ∀ {operation : Uuid}, operation ∉ s.operations → ¬ Claimed s operation :=
    fun hnew hclaim => hnew (ho.recorded _ hclaim)
  have hsingle : ∀ {f : Frame}, frames = [f] → f.2.shell = false → f.2.opens = false →
      Beneath s t := by
    intro f hf hshell hopens
    subst hf
    refine apply_beneath (applyAll_one.mp hap) hshell fun h => ?_
    rw [hopens] at h
    cases h
  cases hplan with
  | nothing =>
    cases hap
    exact .beneath (.refl _)
  | command hnew hframed =>
    exact .beneath (framed_beneath hframed (by simpa [HostCall.direct] using hdirect) (hfree hnew)
      hap)
  | start content hstarts =>
    rcases Leaves.start hstarts hleaves with rfl | ⟨r, hadmitted⟩
    · exact .beneath (.refl _)
    · exact .beneath (linkFrames_beneath (admitStart_claimed ho hadmitted) hap)
  | resume _ hnew => exact .beneath (linkFrames_beneath (hfree hnew) hap)
  | edit => exact .beneath (hsingle rfl rfl rfl)
  | submit =>
    rcases Leaves.submit hleaves with rfl | ⟨x, rfl, hjob, hnone, happ⟩
    · exact .beneath (.refl _)
    · exact .beneath (submitted_beneath hjob hnone happ)
  | @«continue» session request x task content hx hrunning htask hcurrent hother =>
    refine .beneath (linkFrames_beneath (fun hclaim => ?_) hap)
    obtain ⟨spec, hspec⟩ := ho.shell request hclaim
    rw [intentOf, hx] at hspec
    rw [Option.some.inj hspec] at htask
    cases htask
  | beginShell =>
    obtain ⟨env, db, head, task, db', hl, hc⟩ := hleaves
    obtain ⟨out, h, he⟩ := bind_ok hc
    cases he
    exact .begun (beginShell_begun hl h)
  | finishShell =>
    obtain ⟨env, db, head, task, db', hl, hc⟩ := hleaves
    obtain ⟨out, h, he⟩ := bind_ok hc
    cases he
    exact .finished (finishShell_finished hl h)
  | move => exact .beneath (hsingle rfl rfl rfl)
  | setStatus => exact .beneath (hsingle rfl rfl rfl)

theorem ShellStep.owned (h : ShellStep s t call) (ho : ShellsOwned s) : ShellsOwned t := by
  cases h with
  | beneath h => exact ho.beneath h
  | begun h => exact h.owned ho
  | finished h => exact h.owned ho

theorem ShellStep.locked (h : ShellStep s t call) (ho : ShellsOwned s) (hlocked : Locked s) :
    Locked t ∧ t.branch.pendingShell = s.branch.pendingShell := by
  cases h with
  | beneath h => exact hlocked.beneath ho h
  | begun h =>
    obtain ⟨request, hmark, -⟩ := hlocked
    rw [h.free] at hmark
    cases hmark
  | finished h =>
    obtain ⟨request, hmark, hidle⟩ := hlocked
    cases (h.marked ho).symm.trans hmark
    exact absurd h.was.2 hidle

/-- the end of the command of this request is not recorded -/
def Unfinished (request : Uuid) (_ : SessionState) (call : HostCall) : Prop :=
  ∀ session report, call ≠ .finishShell session request report

theorem ShellStep.keeps (h : ShellStep s t call) (ho : ShellsOwned s)
    (hunfinished : Unfinished request s call) (hmark : s.branch.pendingShell = some request) :
    t.branch.pendingShell = some request := by
  cases h with
  | beneath h => exact h.pending.trans hmark
  | begun h =>
    rw [h.free] at hmark
    cases hmark
  | finished h =>
    cases (h.marked ho).symm.trans hmark
    exact absurd rfl (hunfinished _ _)

/-! ## runs -/

variable {admits : SessionState → HostCall → Prop}

theorem shellsOwned_create (id : SessionId) (creation : SessionCreation)
    (h : creation.branch.pendingShell = none) : ShellsOwned (SessionState.create id creation) where
  recorded _ hc := absurd hc (claimed_create id creation)
  shell _ hc := absurd hc (claimed_create id creation)
  marked request hm := by
    cases h.symm.trans (show creation.branch.pendingShell = some request from hm)
  active _ hc := absurd hc (claimed_create id creation)

theorem HostReachable.shellsOwned (h : HostReachable admits db w) :
    ∀ id s, w.sessions id = some s → ShellsOwned s :=
  (HostRun.unmarked_course (R := fun _ _ => True) shellsOwned_create (fun _ => trivial)
    (fun _ _ => trivial)
    (fun ho _ hd hplan hap hl => ⟨(hplan.shellStep ho hd hap hl).owned ho, trivial⟩) h
    represents_empty
    fun _ _ h => nomatch h).1

/-- **A locked session stays locked**, whatever the host does. -/
theorem HostRun.locked (h : HostRun admits db w db' w') (hr : Represents db w)
    (ho : ∀ id s, w.sessions id = some s → ShellsOwned s) (hs : w.sessions id = some s) (hlocked : Locked s) :
    ∃ t, w'.sessions id = some t ∧ Locked t ∧
      t.branch.pendingShell = s.branch.pendingShell := by
  obtain ⟨t, ht, hkept⟩ := (HostRun.unmarked_course (P := ShellsOwned)
    (R := fun s t => Locked s → Locked t ∧ t.branch.pendingShell = s.branch.pendingShell)
    shellsOwned_create (fun _ h => ⟨h, rfl⟩)
    (fun h h' hl => ⟨(h' (h hl).1).1, (h' (h hl).1).2.trans (h hl).2⟩)
    (fun ho _ hd hplan hap hl => ⟨(hplan.shellStep ho hd hap hl).owned ho,
      (hplan.shellStep ho hd hap hl).locked ho⟩) h hr ho).2 id s hs
  exact ⟨t, ht, hkept hlocked⟩

theorem HostRun.keeps_mark (h : HostRun (Unfinished request) db w db' w') (hr : Represents db w)
    (ho : ∀ id s, w.sessions id = some s → ShellsOwned s) (hs : w.sessions id = some s)
    (hmark : s.branch.pendingShell = some request) :
    ∃ t, w'.sessions id = some t ∧ t.branch.pendingShell = some request := by
  obtain ⟨t, ht, hkept⟩ := (HostRun.unmarked_course (P := ShellsOwned)
    (R := fun s t => s.branch.pendingShell = some request → t.branch.pendingShell = some request)
    shellsOwned_create (fun _ h => h) (fun h h' hm => h' (h hm))
    (fun ho ha hd hplan hap hl => ⟨(hplan.shellStep ho hd hap hl).owned ho,
      (hplan.shellStep ho hd hap hl).keeps ho ha⟩) h hr ho).2 id s hs
  exact ⟨t, ht, hkept hmark⟩

theorem HostRun.trans {db₁ db₂ : Db} {w₁ w₂ : World} (h : HostRun admits db w db₁ w₁)
    (h' : HostRun admits db₁ w₁ db₂ w₂) : HostRun admits db w db₂ w₂ := by
  induction h' with
  | refl => exact h
  | step _ hs ih => exact ih.step hs

/-! ## a recovery is a run -/

def Recovering (_ : SessionState) : HostCall → Prop
  | .command _ _ _ (.turnSettled ..) => True
  | .setSubmissionStatus .. => True
  | _ => False

/-- some run of a recovery goes from one database to the other -/
def Recovered (db : Db) (w : World) (db' : Db) : Prop := ∃ w', HostRun Recovering db w db' w'

variable {r : Restart}

theorem Recovered.step {db₁ : Db} {task : Option TaskState} {session : Option SessionState}
    (h : Recovered db w db₁) (hs : HostStep Recovering db₁ task session db') :
    Recovered db w db' := by
  obtain ⟨w₁, h⟩ := h
  exact ⟨_, h.step hs⟩

theorem recoverTask_recovered (id : TaskId) (done : List TaskId) {db₁ : Db}
    (h : Recovered db w db₁) :
    Meets True (recoverTask r (done, db₁) id) fun x => Recovered db w x.2 := by
  cases hc : recoverTask r (done, db₁) id with
  | error e => trivial
  | ok x =>
    obtain ⟨⟨t, head⟩, -, hc⟩ := bind_ok hc
    simp only at hc
    split at hc
    · cases hc
      exact h
    · obtain ⟨⟨t', db₂⟩, hint, hc⟩ := bind_ok hc
      cases hc
      exact h.step (.task (.interruptTask hint))

theorem settleActive_recovered (s : SessionState) {db₁ : Db} (h : Recovered db w db₁) :
    Meets True (settleActive r db₁ s) (Recovered db w) := by
  cases hc : settleActive r db₁ s with
  | error e => trivial
  | ok db₂ =>
    unfold settleActive at hc
    split at hc
    · cases hc
      exact h
    · rename_i request _
      obtain ⟨outcome, -, hc⟩ := bind_ok hc
      obtain ⟨⟨t, db₂⟩, hcommand, hc⟩ := bind_ok hc
      cases hc
      have hcall : (HostCall.command s.id s.revision (recoveredId request)
          (.turnSettled request outcome (some hostInterrupted))).run (r.settling s.id) db₁ =
            .ok (none, t, db₂) := by
        rw [HostCall.run, hcommand, ok_bind]
      exact h.step (.call hcall rfl fun _ _ _ => trivial)

theorem recoverSubmission_recovered (s : SessionState) (x : Submission) {db₁ : Db}
    (h : Recovered db w db₁) :
    Meets True (recoverSubmission r s db₁ x) (Recovered db w) := by
  cases hc : recoverSubmission r s db₁ x with
  | error e => trivial
  | ok db₂ =>
    obtain ⟨⟨y, t, db₂⟩, hset, hc⟩ := bind_ok hc
    cases hc
    have hcall : (HostCall.setSubmissionStatus s.id x.id (recoveredStatus s x)
      (r.drawn s.id x.id)).run
        (r.changing s.id x.id) db₁ = .ok (none, t, db₂) := by
      rw [HostCall.run, hset, ok_bind]
    exact h.step (.call hcall rfl fun _ _ _ => trivial)

/-- **A recovery that succeeds is a run of the host.** -/
theorem recover_recovered {recovered : List TaskId} (h : recover r db = .ok (recovered, db')) :
    Recovered db w db' := by
  have hbegin : Recovered db w db := ⟨w, .refl⟩
  have hsession : ∀ {db₁ : Db} (s : SessionState), Recovered db w db₁ →
      Meets True (recoverSession r db₁ s) (Recovered db w) := fun s h₁ =>
    foldlM_meets (recoverSubmission r s) (runningOf s) (I := fun _ db₂ => Recovered db w db₂)
      (fun _ x _ _ _ h₂ => recoverSubmission_recovered s x h₂) [] _ _ rfl h₁
  have hmeets : Meets True (recover r db) fun x => Recovered db w x.2 := by
    unfold recover recoverInterrupted
    refine Meets.bind (P := fun x => Recovered db w x.2) ?_ fun x hx => ?_
    · refine Meets.bind (P := fun x => Recovered db w x.2) ?_ fun x hx => ?_
      · exact foldlM_meets (recoverTask r) (listTasks db)
          (I := fun _ (x : List TaskId × Db) => Recovered db w x.2)
          (fun _ id _ x _ h₁ => recoverTask_recovered id x.1 h₁) [] _ _ rfl hbegin
      · exact Meets.bind (sweep_keeps _ _ _ (fun _ s h₁ => settleActive_recovered s h₁) _ _ hx)
          fun _ h₁ => h₁
    · exact Meets.bind (sweep_keeps _ _ _ (fun _ s h₁ => hsession s h₁) _ _ hx) fun _ h₁ => h₁
  rw [h] at hmeets
  exact hmeets

theorem HostRun.recovering_mark (h : HostRun Recovering db w db' w') (hr : Represents db w)
    (ho : ∀ id s, w.sessions id = some s → ShellsOwned s) (hs : w.sessions id = some s) :
    ∃ t, w'.sessions id = some t ∧ t.branch.pendingShell = s.branch.pendingShell := by
  refine (HostRun.unmarked_course (P := ShellsOwned)
    (R := fun s t => t.branch.pendingShell = s.branch.pendingShell) shellsOwned_create
    (fun _ => rfl)
    (fun h h' => h'.trans h) (fun ho ha hd hplan hap hl => ?_) h hr ho).2 id s hs
  have hstep := hplan.shellStep ho hd hap hl
  refine ⟨hstep.owned ho, ?_⟩
  cases hstep with
  | beneath h => exact h.pending
  | begun => cases ha
  | finished => cases ha

/-! ## the mark is released, or it is not -/

def Releases (db : Db) (w : World) (id : SessionId) : Prop :=
  ∃ db' w' s, HostRun (fun _ _ => True) db w db' w' ∧ w'.sessions id = some s ∧
    s.branch.pendingShell = none

theorem releases_of_free (hs : w.sessions id = some s) (h : s.branch.pendingShell = none) :
    Releases db w id := ⟨db, w, s, .refl, hs, h⟩

/-- **A session that works on nothing releases its mark exactly when it has none.** -/
theorem HostReachable.releases_iff (h : HostReachable (fun _ _ => True) db w) (hs : w.sessions id = some s)
    (hidle : s.activeRequest = none) : Releases db w id ↔ s.branch.pendingShell = none := by
  refine ⟨fun ⟨db', w', t, hrun, ht, hnone⟩ => ?_, releases_of_free hs⟩
  cases hmark : s.branch.pendingShell with
  | none => rfl
  | some request =>
    have hlocked : Locked s := ⟨request, hmark, by rw [hidle]; exact nofun⟩
    obtain ⟨u, hu, -, hkept⟩ := hrun.locked h.represents h.shellsOwned hs hlocked
    cases ht.symm.trans hu
    rw [hnone, hmark] at hkept
    cases hkept

theorem HostRun.recorded (h : HostRun (fun _ _ => True) db w db' w') (hr : Represents db w)
    (hs : w.sessions id = some s) (hrec : request ∈ s.operations) :
    ∃ t, w'.sessions id = some t ∧ request ∈ t.operations := by
  obtain ⟨t, ht, hkept⟩ := (h.session_relation (P := fun _ => True)
    (R := fun s t => ∀ id ∈ s.operations, id ∈ t.operations) (fun _ _ => trivial) (fun _ _ h => h)
    (fun h h' id hid => h' id (h id hid))
    (fun _ _ _ _ hap => ⟨trivial, applyAll_operations hap⟩) hr fun _ _ _ => trivial).2 id s hs
  exact ⟨t, ht, hkept request hrec⟩

/-- **When the mark of a command is released.**  A command that has been begun is not begun again. 
After a crash and a recovery that brings the store to rest, some run releases the mark exactly when
the database had none at the crash: none before the command is begun, and its own from then until
its end is recorded.  After the end of a command, some run releases the mark exactly when the status
of the command is known. -/
theorem shell_released (h : HostReachable (fun _ _ => True) db w) {id : SessionId}
    (hs : w.sessions id = some s) :
    (∀ request ∈ s.operations, ∀ db' w', HostRun (fun _ _ => True) db w db' w' → ∀ env job,
      ∃ e, beginShell env id request job db' = .error e) ∧
    (∀ r recovered db', recover r db = .ok (recovered, db') → Quiescent db' →
      ∃ w', HostRun (fun _ _ => True) db w db' w' ∧
        (Releases db' w' id ↔ s.branch.pendingShell = none)) ∧
    (∀ env request job t task db₁, beginShell env id request job db = .ok (t, task, db₁) →
      s.branch.pendingShell = none ∧ ∀ db₂ w₂,
        HostRun (Unfinished request) db₁ (w.write task (some t)) db₂ w₂ →
          ∃ u, w₂.sessions id = some u ∧ u.branch.pendingShell = some request) ∧
    ∀ env request report digest t task db₁,
      finishShell env id request report db = .ok (digest, t, task, db₁) →
        (t.branch.pendingShell = none ↔ report.status.jobStatus ≠ .unknown) ∧
        (Releases db₁ (w.write task (some t)) id ↔ report.status.jobStatus ≠ .unknown) := by
  have hr := h.represents
  have ho := h.shellsOwned
  obtain ⟨head, hl⟩ := hr.loadSession hs
  -- the session of the world after a call
  have hwritten : ∀ {task : Option TaskState} {t : SessionState}, t.id = s.id →
      (w.write task (some t)).sessions id = some t := by
    intro task t hid
    rw [World.write_sessions, hid, hr.session_id hs]
    exact Function.update_self ..
  refine ⟨fun request hrec db' w' hrun env job => ?_, fun r recovered db' hrecover hrest => ?_,
    fun env request job t task db₁ hc => ?_, fun env request report digest t task db₁ hc => ?_⟩
  · obtain ⟨t, ht, hrec'⟩ := hrun.recorded hr hs hrec
    exact beginShell_recorded (hrun.represents hr) ht hrec' job
  · obtain ⟨w', hrun⟩ := recover_recovered (w := w) hrecover
    obtain ⟨t, ht, hmark⟩ := hrun.recovering_mark hr ho hs
    have hany : HostRun (fun _ _ => True) _ _ db' w' := hrun.mono fun _ _ _ => trivial
    have hr' := hany.represents hr
    -- the session works on nothing
    obtain ⟨u, head', hl', hidle, -⟩ := hrest.sessions id (hr'.keyed ht)
    cases ht.symm.trans (hr'.of_loadSession hl').1
    exact ⟨w', hany, by
      rw [HostReachable.releases_iff (HostRun.trans h hany) ht hidle, hmark]⟩
  · have hcall : (HostCall.beginShell id request job).run env db = .ok (task, t, db₁) := by
      rw [HostCall.run, hc, ok_bind]
    have hstep : HostReachable (fun _ _ => True) db₁ (w.write task (some t)) :=
      HostRun.step h (.call hcall rfl fun _ _ _ => trivial)
    have hbegun := beginShell_begun hl hc
    obtain ⟨-, -, -, -, hap⟩ := beginShell_ok hl hc
    exact ⟨hbegun.free, fun db₂ w₂ hrun => hrun.keeps_mark hstep.represents hstep.shellsOwned
      (hwritten (apply_keeps hap).1) hbegun.mark⟩
  · have hcall : (HostCall.finishShell id request report).run env db = .ok (task, t, db₁) := by
      rw [HostCall.run, hc, ok_bind]
    have hstep : HostReachable (fun _ _ => True) db₁ (w.write task (some t)) :=
      HostRun.step h (.call hcall rfl fun _ _ _ => trivial)
    have hfinished := finishShell_finished hl hc
    obtain ⟨-, -, _, _, v, -, hpub, hturn⟩ := finishShell_ok hl hc
    have hid := (apply_keeps hturn).1.trans (apply_keeps hpub).1
    have hmark : t.branch.pendingShell = none ↔ report.status.jobStatus ≠ .unknown := by
      rw [hfinished.mark, hfinished.marked (ho id s hs)]
      split
      · rename_i he
        exact ⟨fun h => (by cases h), fun hn => absurd he hn⟩
      · rename_i hn
        exact ⟨fun _ => hn, fun _ => rfl⟩
    exact ⟨hmark, by rw [hstep.releases_iff (hwritten hid) hfinished.rests, hmark]⟩

end

/-! ## a command in the example store -/

namespace Sample

/-- the command is the first request of the session -/
def loneShell : Submission := { shellSubmission with submittedRevision := opened.revision + 1 }

def loneWaiting : SessionState := after opened (shellId.named "submitted") (.submitted loneShell)

def loneActive : Submission := { loneShell with status := .running }

def loneClaimed : SessionState := after loneWaiting claimId (.submissionChanged shellId .running)

def loneJob : ManualJob := ⟨⟨21⟩, none, ⟨0⟩, ⟨0⟩, ⟨0⟩, 0, none⟩

def loneRunning : SessionState := after loneClaimed shellId (.shellStarted loneJob)

theorem reaches_loneClaimed : ∃ db w, HostReachable (fun _ _ => True) db w ∧
    w.sessions sessionId = some loneClaimed ∧ db.tasks = [] ∧
    db.sessions.map Prod.fst = [sessionId] := by
  obtain ⟨db, hopen, ht, -, hkeys⟩ := opens
  have hr : HostReachable (fun _ _ => True) db (World.empty.setSession opened) :=
    HostRun.step .refl (.create hopen)
  have hs : (World.empty.setSession opened).sessions sessionId = some opened :=
    World.setSession_get World.empty opened
  obtain ⟨head, hload⟩ := hr.represents.loadSession hs
  have hap : opened.apply (shellId.named "submitted") (.submitted loneShell) = .ok loneWaiting :=
    rfl
  obtain ⟨hash, db₁, happ, ht₁, hk₁, -⟩ := commands hr.represents
    (SessionLoaded.of_load hr.represents hload).1 (commanding.appendClock 0) hap (by decide) trivial
  have hcapacity : admitCapacity opened shellId db = .ok () := by
    rw [admitCapacity, if_neg (by decide +kernel), pendingSubmissions_one hr.represents hkeys hs]
    rfl
  have hsubmit : submit commanding sessionId shellId ⟨0⟩ loneShell.intent db =
      .ok (loneShell, loneWaiting, none, db₁) := by
    rw [submit, hload, ok_bind]
    simp only [hcapacity, ok_bind]
    show ((appendSessionCommand opened head (shellId.named "submitted") (.submitted loneShell)
      (commanding.appendClock 0) db) >>= _) = _
    rw [happ]
    rfl
  have hcall : (HostCall.submit sessionId shellId ⟨0⟩ loneShell.intent).run commanding db =
      .ok (none, loneWaiting, db₁) := by
    rw [HostCall.run, hsubmit, ok_bind]
  have hr₁ : HostReachable (fun _ _ => True) db₁
    ((World.empty.setSession opened).setSession loneWaiting) :=
    HostRun.step hr (.call hcall rfl fun _ _ _ => trivial)
  obtain ⟨db₂, hsets, ht₂, hk₂⟩ := sets hr₁.represents (World.setSession_get _ loneWaiting) shellId
    (show _ = some loneShell from rfl) (show _ ≠ SubmissionStatus.running by decide) rfl
    (show loneWaiting.apply claimId (.submissionChanged shellId .running) = .ok loneClaimed from
    rfl)
    (by decide) (by decide) (show _ = some loneActive from rfl)
  exact ⟨db₂, _, HostRun.step hr₁ (.call hsets rfl fun _ _ _ => trivial),
    World.setSession_get _ loneClaimed, ht₂.trans (ht₁.trans ht), hk₂.trans (hk₁.trans hkeys)⟩

/-- the command is begun, and the host stops -/
theorem reaches_loneRunning : ∃ db w, HostReachable (fun _ _ => True) db w ∧
    w.sessions sessionId = some loneRunning ∧ db.tasks = [] ∧
    db.sessions.map Prod.fst = [sessionId] := by
  obtain ⟨db, w, hr, hs, ht, hkeys⟩ := reaches_loneClaimed
  obtain ⟨head, hload⟩ := hr.represents.loadSession hs
  obtain ⟨hash, db₁, happ, ht₁, hk₁, -⟩ := commands hr.represents
    (SessionLoaded.of_load hr.represents hload).1 (env.appendClock 0)
    (show loneClaimed.apply shellId (.shellStarted loneJob) = .ok loneRunning from rfl)
    (by decide) trivial
  have hbegin : beginShell env sessionId shellId loneJob db = .ok (loneRunning, none, db₁) := by
    rw [beginShell, hload, ok_bind]
    simp only
    rw [show loneClaimed.submissions[shellId]? = some loneActive from rfl,
      show orInvalid "unknown shell submission" (some loneActive) = .ok loneActive from rfl,
        ok_bind,
      show shellSpec loneActive.intent = .ok listing from rfl, ok_bind,
      show listing.validate = .ok () from rfl, ok_bind, refuseIf_of_not _ (by decide +kernel),
        ok_bind,
      refuseIf_of_not _ (by decide +kernel), ok_bind]
    show (appendSessionCommand loneClaimed head shellId (.shellStarted loneJob) (env.appendClock 0)
      db
      >>= _) = _
    rw [happ]
    rfl
  have hcall : (HostCall.beginShell sessionId shellId loneJob).run env db =
      .ok (none, loneRunning, db₁) := by
    rw [HostCall.run, hbegin, ok_bind]
  exact ⟨db₁, _, HostRun.step hr (.call hcall rfl fun _ _ _ => trivial),
    World.setSession_get w loneRunning, ht₁.trans ht, hk₁.trans hkeys⟩

/-- a recovery of this store brings it to rest -/
theorem loneRunning_recovers {db : Db} {w : World} (hr : HostReachable (fun _ _ => True) db w)
    (hs : w.sessions sessionId = some loneRunning) (ht : db.tasks = [])
    (hkeys : db.sessions.map Prod.fst = [sessionId]) :
    ∃ recovered db', recover restart db = .ok (recovered, db') ∧ Quiescent db' := by
  have hroom : Room db w := room hr.represents hkeys hs (by decide) fun id t htask => by
    have hmem := hr.represents.keyed_task htask
    rw [listTasks, ht] at hmem
    cases hmem
  have hfresh : restart.Fresh w :=
    drawsFresh (x := { loneActive with manualJob := some loneJob }) hr.represents
      hkeys hs rfl (by decide) fun request hrequest => by
        cases hrequest
        decide
  have hfree : ∀ id s, w.sessions id = some s → ¬ Stuck s := by
    rintro id s hs' ⟨request, hactive, hmem⟩
    rw [only_session hr.represents hkeys hs id s hs'] at hactive hmem
    cases hactive
    exact absurd hmem (by decide)
  obtain ⟨⟨recovered, db'⟩, hrecover, w', hw'⟩ := (hr.recovers_as hroom smallEvents hfresh).total (by
    rintro ⟨id, s, hs, hstuck⟩
    exact hfree id s hs hstuck)
  exact ⟨recovered, db', hrecover, (hw'.atRest hfree).quiescent hw'.represents⟩

end Sample

open Sample in
theorem shell_locks_session : ∃ db w, HostReachable (fun _ _ => True) db w ∧
    w.sessions sessionId = some loneRunning ∧
    ∃ recovered db' w', recover restart db = .ok (recovered, db') ∧
      HostRun (fun _ _ => True) db w db' w' ∧ ¬ Releases db' w' sessionId := by
  obtain ⟨db, w, hr, hs, ht, hkeys⟩ := reaches_loneRunning
  obtain ⟨recovered, db', hrecover, hrest⟩ := loneRunning_recovers hr hs ht hkeys
  obtain ⟨w', hrun⟩ := recover_recovered (w := w) hrecover
  obtain ⟨t, ht', hmark⟩ := hrun.recovering_mark hr.represents hr.shellsOwned hs
  have hany : HostRun (fun _ _ => True) _ _ db' w' := hrun.mono fun _ _ _ => trivial
  have hr' : HostReachable (fun _ _ => True) db' w' := HostRun.trans hr hany
  obtain ⟨u, head, hl, hidle, -⟩ := hrest.sessions sessionId (hr'.represents.keyed ht')
  cases ht'.symm.trans (hr'.represents.of_loadSession hl).1
  refine ⟨db, w, hr, hs, recovered, db', w', hrecover, hany, fun hreleases => ?_⟩
  rw [hr'.releases_iff ht' hidle, hmark] at hreleases
  cases hreleases

open Sample in
theorem shell_released_begun : ∃ db w db' w', HostReachable (fun _ _ => True) db w ∧
    w.sessions sessionId = some loneRunning ∧ HostRun (fun _ _ => True) db w db' w' ∧
    (Releases db' w' sessionId ↔ loneRunning.branch.pendingShell = none) ∧
    ∀ env job, ∃ e, beginShell env sessionId shellId job db' = .error e := by
  obtain ⟨db, w, hr, hs, ht, hkeys⟩ := reaches_loneRunning
  obtain ⟨recovered, db', hrecover, hrest⟩ := loneRunning_recovers hr hs ht hkeys
  obtain ⟨honce, hcrash, -⟩ := shell_released hr hs
  obtain ⟨w', hrun, hiff⟩ := hcrash restart recovered db' hrecover hrest
  exact ⟨db, w, db', w', hr, hs, hrun, hiff, honce shellId (by decide) db' w' hrun⟩

end Orvek
