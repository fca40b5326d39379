import Orvek.Store.TaskLinks

/-!
# Repeated starts

`TaskStart` is a call that begins a task or takes it up again.  The first one that is made for a
request links it; a repetition finds the link and is compared with what made it:

* a start of any kind      with the first event of the linked task;
* a resumption             with the linked task and with what is recorded under the request;
* a continuation           with the linked task alone.

`one_task_per_request` puts this together over runs of the host.  A command of the user is not
repeated at all.
-/

set_option linter.unusedSectionVars false

namespace Orvek
open Checks Json

/-- a call that begins a task, or takes it up again -/
inductive TaskStart where
  | task (contract : Contract)
  | request (request : String) (limits : Limits) (intake : Digest)
  | prepared (input : PreparedInput) (limits : Limits) (intake : Digest)
  | resume (task : TaskId) (revision : Nat) (reason : String)
  | continuation

namespace TaskStart

def call (session : SessionId) (operation : Uuid) (id : TaskId) : TaskStart → HostCall
  | task contract => .startTask session operation contract id
  | request text limits intake => .startRequest session operation text limits intake id
  | prepared input limits intake => .startPreparedRequest session operation input limits intake id
  | resume id revision reason => .resumeTask session operation id revision reason
  | continuation => .continueSubmission session operation

def asks : TaskStart → Option StartRequest
  | task contract => some ⟨contract.request, contract.limits, some contract, none, none⟩
  | request text limits intake => some ⟨text, limits, none, some intake, none⟩
  | prepared input limits intake => some ⟨input.text, limits, none, some intake, some input⟩
  | _ => none

/-- the artifacts that a start needs can be read -/
def readable (env : Env) : TaskStart → Prop
  | request _ _ intake => env.policy intake = .ok ()
  | prepared input _ intake =>
    env.policy intake = .ok () ∧ env.messages input.artifact = .ok input.messages
  | _ => True

end TaskStart

/-- the content by which a start is known again -/
def StartRequest.key (r : StartRequest) :
    Option Contract × String × Limits × Option Digest × Option Digest :=
  (r.contract, r.request, r.limits, r.intake, r.artifact)

section
variable [Sha256] [ContractCodec] [SessionCodec] [StoreCodec] [JsonReader]
variable {t : SessionState} {e : TaskEvent} {reason : String} {r r' : StartRequest}

/-- what a start does: the session, the task, and whether it was made now -/
def TaskStart.run (env : Env) (session : SessionId) (operation : Uuid) (id : TaskId) (db : Db) :
    TaskStart → Except StoreError (SessionState × TaskState × Bool × Db)
  | .task contract => startTask env session operation contract id db
  | .request text limits intake => startRequest env session operation text limits intake id db
  | .prepared input limits intake => startPreparedRequest env session operation input limits intake id db
  | .resume id revision reason => resumeTask env session operation id revision reason db
  | .continuation => continueSubmission env session operation db

/-- the same content once more -/
def TaskStart.same : TaskStart → TaskStart → Prop
  | .resume id _ reason, .resume id' _ reason' => id' = id ∧ reason' = reason
  | .continuation, .continuation => True
  | a, b => ∃ r r', a.asks = some r ∧ b.asks = some r' ∧ r'.key = r.key

def TaskStart.differs : TaskStart → TaskStart → Prop
  | .resume id _ reason, .resume id' _ reason' => id' ≠ id ∨
      SessionCommand.digest (.input .task [userItem reason']) ≠
        SessionCommand.digest (.input .task [userItem reason])
  | a, .resume _ _ reason => ∃ r, a.asks = some r ∧
      SessionCommand.digest (.input .task [userItem reason]) ≠
        SessionCommand.digest (.input .task r.content)
  | a, b => ∃ r r', a.asks = some r ∧ b.asks = some r' ∧ r'.key ≠ r.key

variable {db db' : Db} {w w' : World} {env : Env} {s s' : SessionState} {sessionId : SessionId}
  {request : Uuid} {id : TaskId} {task : TaskState}

/-! ## what a run keeps -/

/-- the links of a session with what is recorded under them, and the intents of its submissions -/
structure KeptOn (s t : SessionState) : Prop where
  links : ∀ request ∈ s.tasksByRequest, t.tasksByRequest[request]? = s.tasksByRequest[request]?
  records : ∀ request ∈ s.tasksByRequest, t.operations[request]? = s.operations[request]?
  intents : ∀ id, (s.submissions[id]?).isSome = true → intentOf t id = intentOf s id

theorem KeptOn.refl (s : SessionState) : KeptOn s s := ⟨fun _ _ => rfl, fun _ _ => rfl, fun _ _ => rfl⟩

theorem mem_kept {s : SessionState} {request : Uuid} (hr : request ∈ s.tasksByRequest)
    (h : t.tasksByRequest[request]? = s.tasksByRequest[request]?) : request ∈ t.tasksByRequest := by
  rw [Std.ExtTreeMap.mem_iff_isSome_getElem?, h]
  exact Std.ExtTreeMap.mem_iff_isSome_getElem?.mp hr

theorem KeptOn.trans {a b c : SessionState} (h : KeptOn a b) (h' : KeptOn b c) : KeptOn a c := by
  have hmem : ∀ {request}, request ∈ a.tasksByRequest → request ∈ b.tasksByRequest :=
    fun hr => mem_kept hr (h.links _ hr)
  refine ⟨fun request hr => (h'.links request (hmem hr)).trans (h.links request hr),
    fun request hr => (h'.records request (hmem hr)).trans (h.records request hr), fun id hid => ?_⟩
  have hab := h.intents id hid
  refine (h'.intents id ?_).trans hab
  have hsome : (intentOf b id).isSome = true := by
    rw [hab, intentOf, Option.isSome_map]
    exact hid
  rwa [intentOf, Option.isSome_map] at hsome

theorem HostRun.keptOn (h : HostRun KeepsLinks db w db' w') (hr : Represents db w)
    (hP : ∀ id s, w.sessions id = some s → LinksRecorded s) {id : SessionId}
    (hs : w.sessions id = some s) : ∃ s', w'.sessions id = some s' ∧ KeptOn s s' :=
  (h.session_relation (P := LinksRecorded) linksRecorded_create KeptOn.refl KeptOn.trans
    (fun hP hkeeps hd hplan hap => ⟨hplan.linksRecorded hP hd hap,
      fun _ hr => hplan.keeps_link hP hkeeps.continues hd hap hr,
      fun _ hr => hplan.keeps_record hP hkeeps hap hr, fun _ hid => hplan.intent hd hap hid⟩)
    hr hP).2 id s hs

/-- **A link stays** in a run that continues no other task. -/
theorem HostRun.keeps_link (h : HostRun ContinuesLinked db w db' w') (hr : Represents db w)
    (hP : ∀ id s, w.sessions id = some s → LinksRecorded s) {k : SessionId}
    (hs : w.sessions k = some s) (hlink : s.tasksByRequest[request]? = some id) :
    ∃ s', w'.sessions k = some s' ∧ s'.tasksByRequest[request]? = some id := by
  obtain ⟨s', hs', hkept⟩ := (h.session_relation (P := LinksRecorded)
    (R := fun s t => ∀ request ∈ s.tasksByRequest,
      t.tasksByRequest[request]? = s.tasksByRequest[request]?)
    linksRecorded_create (fun _ _ _ => rfl)
    (fun h h' request hr => (h' request (mem_kept hr (h request hr))).trans (h request hr))
    (fun hP hcontinues hd hplan hap => ⟨hplan.linksRecorded hP hd hap,
      fun _ hr => hplan.keeps_link hP hcontinues hd hap hr⟩) hr hP).2 k s hs
  exact ⟨s', hs', (hkept request (mem_links hlink)).trans hlink⟩

theorem HostReachable.linksRecorded {admits : SessionState → HostCall → Prop}
    (h : HostReachable admits db w) : ∀ id s, w.sessions id = some s → LinksRecorded s :=
  fun _ _ hs => h.session_invariant linksRecorded_create
    (fun hP _ hd hplan hap => hplan.linksRecorded hP hd hap) hs

theorem Longer.firstEvent (h : Longer db.tasks db'.tasks) (hf : firstEvent db id = .ok e) :
    Orvek.firstEvent db' id = .ok e := by
  obtain ⟨row, hrow, hread⟩ := bind_ok hf
  obtain ⟨a, ha, hfind⟩ := Option.bind_eq_some_iff.mp (orSql_ok hrow)
  obtain ⟨b, hb, rest, hrest⟩ := h.rows id a ha
  rw [Orvek.firstEvent, hb]
  show (orSql (b.events.find? _) >>= _) = _
  rw [← hrest, List.find?_append, hfind]
  exact hread

theorem Longer.still_there (h : Longer db.tasks db'.tasks) (hr : Represents db w) (hr' : Represents db' w')
    (ht : w.tasks id = some task) : ∃ task', w'.tasks id = some task' := by
  obtain ⟨a, ha, -⟩ := hr.task_row ht
  obtain ⟨b, hb, -⟩ := h.rows id a ha
  have hrel := hr'.tasks id
  rw [hb] at hrel
  generalize w'.tasks id = x at hrel
  cases hrel with
  | some => exact ⟨_, rfl⟩

/-! ## a request that is linked -/

theorem startRecord_linked (h : Represents db w) (hs : w.sessions sessionId = some s)
    (hlink : s.tasksByRequest[request]? = some id) (ht : w.tasks id = some task)
    (hfirst : firstEvent db id = .ok e) (r : StartRequest) (fresh : TaskId) :
    startRecord env sessionId request r fresh db = if r.made e = true then .ok (s, task, false, db)
      else .error (.invalid "request ID reused with different task input") := by
  obtain ⟨head, hload⟩ := h.loadSession hs
  obtain ⟨thead, htload⟩ := h.loadState ht
  rw [startRecord, hload, ok_bind]
  simp only
  rw [hlink]
  simp only
  rw [htload, ok_bind, hfirst, ok_bind]
  cases hm : r.made e with
  | true => rfl
  | false => rfl

theorem resumeTask_linked (h : Represents db w) (hs : w.sessions sessionId = some s)
    (hlink : s.tasksByRequest[request]? = some id) (ht : w.tasks id = some task)
    (hreason : blank reason = false)
    (hrec : s.operations[request]? = some (SessionCommand.digest (.input .task [userItem reason])))
    (revision : Nat) : resumeTask env sessionId request id revision reason db =
      .ok (s, task, false, db) := by
  obtain ⟨head, hload⟩ := h.loadSession hs
  obtain ⟨thead, htload⟩ := h.loadState ht
  rw [resumeTask, refuseIf_of_not _ (by rw [hreason]; decide), ok_bind, hload, ok_bind]
  simp only
  rw [htload, ok_bind]
  simp only
  rw [hlink]
  simp only
  rw [refuseIf_of_not _ (by rw [hrec]; simp), ok_bind]

theorem resumeTask_differs (h : Represents db w) (hs : w.sessions sessionId = some s)
    (hlink : s.tasksByRequest[request]? = some id) {other : TaskId} (hdiffers : other ≠ id ∨
      s.operations[request]? ≠ some (SessionCommand.digest (.input .task [userItem reason])))
    (revision : Nat) : ∃ e, resumeTask env sessionId request other revision reason db = .error e := by
  obtain ⟨head, hload⟩ := h.loadSession hs
  cases hc : resumeTask env sessionId request other revision reason db with
  | error e => exact ⟨e, rfl⟩
  | ok r =>
    exfalso
    obtain ⟨-, hc⟩ := refuseIf_bind hc
    rw [hload, ok_bind] at hc
    obtain ⟨⟨t, thead⟩, -, hc⟩ := bind_ok hc
    simp only at hc
    rw [hlink] at hc
    obtain ⟨hguard, -⟩ := refuseIf_bind hc
    rcases hdiffers with hne | hne
    · exact hguard (.inl (Ne.symm hne))
    · exact hguard (.inr hne)

theorem continueSubmission_linked (h : Represents db w) (hs : w.sessions sessionId = some s)
    (hlink : s.tasksByRequest[request]? = some id) (ht : w.tasks id = some task) {x : Submission}
    (hx : s.submissions[request]? = some x) (htask : continuedTask s x.intent = .ok id)
    {prepared : PreparedInput} (hread : env.input x.input = .ok prepared)
    (hshell : s.branch.pendingShell = none) :
    continueSubmission env sessionId request db = .ok (s, task, false, db) := by
  obtain ⟨head, hload⟩ := h.loadSession hs
  obtain ⟨thead, htload⟩ := h.loadState ht
  rw [continueSubmission, hload, ok_bind]
  simp only
  rw [hx]
  show (continuedTask s x.intent >>= _) = _
  rw [htask, ok_bind, hread, ok_bind, refuseIf_of_not _ (by rw [hshell]; simp), ok_bind, htload,
    ok_bind]
  simp only
  rw [if_pos hlink]

theorem beginShell_recorded (h : Represents db w) (hs : w.sessions sessionId = some s)
    (hrec : request ∈ s.operations) (job : ManualJob) :
    ∃ e, beginShell env sessionId request job db = .error e := by
  obtain ⟨head, hload⟩ := h.loadSession hs
  cases hc : beginShell env sessionId request job db with
  | error e => exact ⟨e, rfl⟩
  | ok r =>
    exfalso
    rw [beginShell, hload, ok_bind] at hc
    obtain ⟨x, -, hc⟩ := bind_ok hc
    obtain ⟨spec, -, hc⟩ := bind_ok hc
    obtain ⟨-, -, hc⟩ := bind_ok hc
    obtain ⟨hguard, -⟩ := refuseIf_bind hc
    exact hguard (.inr (.inr (.inl hrec)))

/-! ## starts of a task -/

variable {a : TaskStart}

theorem TaskStart.asks_ok (ha : a.asks = some r) {out : SessionState × TaskState × Bool × Db}
    (hc : a.run env sessionId request id db = .ok out) :
    r.Checked ∧ startRecord env sessionId request r id db = .ok out := by
  cases a with
  | task contract =>
    cases ha
    obtain ⟨u, hvalid, hc⟩ := bind_ok hc
    exact ⟨mapError_ok hvalid, hc⟩
  | request text limits intake =>
    cases ha
    obtain ⟨hblank, hc⟩ := refuseIf_bind hc
    obtain ⟨u, hvalid, hc⟩ := bind_ok hc
    obtain ⟨-, -, hc⟩ := bind_ok hc
    exact ⟨⟨mapError_ok hvalid, by simpa using hblank⟩, hc⟩
  | prepared input limits intake =>
    cases ha
    obtain ⟨hblank, hc⟩ := refuseIf_bind hc
    obtain ⟨u, hvalid, hc⟩ := bind_ok hc
    obtain ⟨-, -, hc⟩ := bind_ok hc
    obtain ⟨_, -, hc⟩ := bind_ok hc
    obtain ⟨-, hc⟩ := refuseIf_bind hc
    exact ⟨⟨mapError_ok hvalid, by simpa using hblank⟩, hc⟩
  | resume => cases ha
  | continuation => cases ha

/-- a start whose checks pass and whose artifacts can be read -/
theorem TaskStart.asks_run (ha : a.asks = some r) (hr : r.Checked) (hread : a.readable env) :
    a.run env sessionId request id db = startRecord env sessionId request r id db := by
  cases a with
  | task contract =>
    cases ha
    show (contract.validate.mapError StoreError.contract >>= _) = _
    rw [show contract.validate = .ok () from hr]
    rfl
  | request text limits intake =>
    cases ha
    obtain ⟨hvalid, hblank⟩ := hr
    show (refuseIf (blank text = true) _ >>= _) = _
    rw [refuseIf_of_not _ (by rw [show blank text = false from hblank]; decide), ok_bind,
      show limits.validate = .ok () from hvalid]
    show (env.policy intake >>= _) = _
    rw [show env.policy intake = .ok () from hread]
    rfl
  | prepared input limits intake =>
    cases ha
    obtain ⟨hvalid, hblank⟩ := hr
    show (refuseIf (blank input.text = true) _ >>= _) = _
    rw [refuseIf_of_not _ (by rw [show blank input.text = false from hblank]; decide), ok_bind,
      show limits.validate = .ok () from hvalid]
    show (env.policy intake >>= _) = _
    rw [show env.policy intake = .ok () from hread.1, ok_bind, hread.2, ok_bind,
      refuseIf_of_not _ (by simp), ok_bind]
  | resume => cases ha
  | continuation => cases ha

theorem TaskStart.asks_error (ha : a.asks = some r) {e : StoreError}
    (he : startRecord env sessionId request r id db = .error e) :
    ∃ e, a.run env sessionId request id db = .error e := by
  cases hc : a.run env sessionId request id db with
  | error e => exact ⟨e, rfl⟩
  | ok out => cases he.symm.trans (TaskStart.asks_ok ha hc).2

theorem StartRequest.Checked.of_key (h : r.Checked) (hkey : r'.key = r.key) : r'.Checked := by
  obtain ⟨hcontract, hrest⟩ := Prod.mk.inj hkey
  obtain ⟨hrequest, hrest⟩ := Prod.mk.inj hrest
  obtain ⟨hlimits, -⟩ := Prod.mk.inj hrest
  unfold StartRequest.Checked at h ⊢
  rw [hcontract, hrequest, hlimits]
  exact h

theorem StartRequest.made_created {contract : Contract} {atMs : Nat} :
    r.made (.created contract atMs) = true ↔ r.contract = some contract := by
  simp [StartRequest.made]

theorem StartRequest.made_requested {text : String} {limits : Limits} {intake : Digest}
    {input : Option Digest} {atMs : Nat} :
    r.made (.requested text limits intake input atMs) = true ↔ r.contract = none ∧ text = r.request ∧
      limits = r.limits ∧ some intake = r.intake ∧ input = r.artifact := by
  simp [StartRequest.made, and_assoc]

variable {b : TaskStart}

theorem TaskStart.asks_contract (ha : a.asks = some r) (hb : b.asks = some r') {contract : Contract}
    (hr : r.contract = some contract) (hr' : r'.contract = some contract) : r'.key = r.key := by
  cases a <;> cases ha <;> cases hr
  cases b <;> cases hb <;> cases hr'
  rfl

/-- **The first event of a task knows its content again**, and no other. -/
theorem TaskStart.asks_made (ha : a.asks = some r) (hb : b.asks = some r') {fresh : TaskId} {atMs : Nat}
    (h : r.begin fresh atMs = .ok (e, task)) : r'.made e = true ↔ r'.key = r.key := by
  unfold StartRequest.begin at h
  split at h
  · rename_i contract _ hcontract
    cases h
    rw [StartRequest.made_created]
    constructor
    · intro hr'
      exact TaskStart.asks_contract ha hb hcontract hr'
    · intro hkey
      exact (Prod.mk.inj hkey).1.trans hcontract
  · rename_i intake hcontract hintake
    cases h
    rw [StartRequest.made_requested]
    unfold StartRequest.key
    rw [hcontract, hintake]
    constructor
    · rintro ⟨hc, ht, hl, hi, hinput⟩
      rw [hc, ht, hl, hi, hinput]
    · intro hkey
      obtain ⟨hc, hkey⟩ := Prod.mk.inj hkey
      obtain ⟨ht, hkey⟩ := Prod.mk.inj hkey
      obtain ⟨hl, hkey⟩ := Prod.mk.inj hkey
      obtain ⟨hi, hinput⟩ := Prod.mk.inj hkey
      exact ⟨hc, ht.symm, hl.symm, hi.symm, hinput.symm⟩
  · cases h

/-! ## the call that links a request -/

theorem appendNext_id {t t' : TaskState} (h : appendNext env t id e db = .ok (t', db')) : t'.id = t.id := by
  obtain ⟨_, -, h⟩ := bind_ok h
  obtain ⟨rfl, -⟩ := appendTaskEvent_ok h
  exact apply_id t e

theorem reopenContinuation_id {t t' : TaskState} {head input : Digest}
    (h : reopenContinuation env id t head request input db = .ok (t', db')) : t'.id = t.id := by
  unfold reopenContinuation at h
  split at h
  · obtain ⟨rfl, -⟩ := appendTaskEvent_ok h
    exact apply_id t _
  · obtain ⟨⟨u, db₁⟩, hdirect, h⟩ := bind_ok h
    obtain ⟨⟨v, db₂⟩, happ, hdirect⟩ := bind_ok hdirect
    cases hdirect
    obtain ⟨rfl, -⟩ := appendTaskEvent_ok happ
    exact (appendNext_id h).trans (apply_id t _)

/-- what a call has found and left that linked its request to a task -/
structure Links (db : Db) (sessionId : SessionId) (request : Uuid) (content : List Value)
    (s s' : SessionState) (id : TaskId) : Prop where
  loaded : ∃ head, loadSessionState db sessionId none = .ok (s, head)
  frames : s.applyAll (linkFrames request content id) = .ok s'

theorem firstEvent_created (hc : createTask env id e task db = .ok db') : firstEvent db' id = .ok e := by
  obtain ⟨-, -, hc⟩ := bind_ok hc
  obtain ⟨bytes, -, hc⟩ := bind_ok hc
  obtain ⟨tasks, ht, hc⟩ := bind_ok hc
  cases hc
  rw [firstEvent, show Table.get tasks id = some _ from
    ((Table.get_insert (orSql_ok ht) id).2.trans (if_pos rfl))]
  rfl

theorem startRecord_created (h : Represents db w) (hr : r.Checked)
    (hc : startRecord env sessionId request r id db = .ok (s', task, true, db')) :
    task.id = id ∧ ∃ s e atMs, Links db sessionId request r.content s s' id ∧
      s.tasksByRequest[request]? = none ∧ r.begin id atMs = .ok (e, task) ∧
      firstEvent db' id = .ok e := by
  obtain ⟨⟨s, head⟩, hl, hc⟩ := bind_ok hc
  have hs := (SessionLoaded.of_load h hl).1
  simp only at hc
  split at hc
  · obtain ⟨_, -, hc⟩ := bind_ok hc
    obtain ⟨_, -, hc⟩ := bind_ok hc
    obtain ⟨-, hc⟩ := refuseIf_bind hc
    cases hc
  · rename_i hfree
    obtain ⟨-, -, hc⟩ := bind_ok hc
    obtain ⟨⟨e, t⟩, hbegin, hc⟩ := bind_ok hc
    obtain ⟨db₁, hins, hc⟩ := bind_ok hc
    obtain ⟨⟨u, db₂⟩, hlink, hc⟩ := bind_ok hc
    cases hc
    obtain ⟨hread, hid, hone, hinit⟩ := StartRequest.begin_ok hr hbegin
    have hpart : TaskPart anyDraw db w (some t) db₁ := TaskPart.created h hins hread hid hone hinit
    obtain ⟨hash, happended⟩ := (hs.after hpart).link hpart.represents hlink
    exact ⟨hid, s, e, _, ⟨⟨head, hl⟩, linkTask_frames hlink⟩, hfree, hbegin,
      happended.grows.tasks.firstEvent (firstEvent_created hins)⟩

theorem resumeTask_created (h : Represents db w) {revision : Nat}
    (hc : resumeTask env sessionId request id revision reason db = .ok (s', task, true, db')) :
    task.id = id ∧ blank reason = false ∧ ∃ s, Links db sessionId request [userItem reason] s s' id ∧
      s.tasksByRequest[request]? = none := by
  obtain ⟨hblank, hc⟩ := refuseIf_bind hc
  obtain ⟨⟨s, head⟩, hl, hc⟩ := bind_ok hc
  obtain ⟨⟨t, thead⟩, htl, hc⟩ := bind_ok hc
  simp only at hc
  split at hc
  · obtain ⟨-, hc⟩ := refuseIf_bind hc
    cases hc
  · rename_i hfree
    obtain ⟨-, hc⟩ := refuseIf_bind hc
    obtain ⟨-, hc⟩ := refuseIf_bind hc
    obtain ⟨-, -, hc⟩ := bind_ok hc
    obtain ⟨-, -, hc⟩ := bind_ok hc
    obtain ⟨-, -, hc⟩ := bind_ok hc
    obtain ⟨⟨t', db₁⟩, happ, hc⟩ := bind_ok hc
    obtain ⟨⟨u, db₂⟩, hlink, hc⟩ := bind_ok hc
    cases hc
    have hid := (Appended.reset h htl rfl rfl happ rfl).id.trans (h.of_loadState htl).2.1
    exact ⟨hid, by simpa using hblank, s, ⟨⟨head, hl⟩, linkTask_frames hlink⟩, hfree⟩

theorem continueSubmission_created (h : Represents db w)
    (hc : continueSubmission env sessionId request db = .ok (s', task, true, db')) :
    ∃ s x content, Links db sessionId request content s s' task.id ∧
      s.submissions[request]? = some x ∧ continuedTask s x.intent = .ok task.id ∧
      s.tasksByRequest[request]? ≠ some task.id := by
  obtain ⟨⟨s, head⟩, hl, hc⟩ := bind_ok hc
  obtain ⟨x, hx, hc⟩ := bind_ok hc
  obtain ⟨k, htask, hc⟩ := bind_ok hc
  obtain ⟨prepared, -, hc⟩ := bind_ok hc
  obtain ⟨-, hc⟩ := refuseIf_bind hc
  obtain ⟨⟨t, thead⟩, htl, hc⟩ := bind_ok hc
  simp only at hc
  split at hc
  · cases hc
  · rename_i hother
    obtain ⟨-, -, hc⟩ := bind_ok hc
    obtain ⟨⟨t', db₁⟩, hreopen, hc⟩ := bind_ok hc
    obtain ⟨-, -, hc⟩ := bind_ok hc
    obtain ⟨⟨u, db₂⟩, hlink, hc⟩ := bind_ok hc
    cases hc
    have hid : t'.id = k := (reopenContinuation_id hreopen).trans (h.of_loadState htl).2.1
    rw [hid]
    exact ⟨s, x, prepared.messages, ⟨⟨head, hl⟩, linkTask_frames hlink⟩, orInvalid_ok hx, htask, hother⟩

/-! ## repetitions -/

theorem TaskStart.call_session (a : TaskStart) : (a.call sessionId request id).session = sessionId := by
  cases a <;> rfl

theorem TaskStart.call_direct (a : TaskStart) : (a.call sessionId request id).direct = true := by
  cases a <;> rfl

theorem TaskStart.call_derived (a : TaskStart) (sessionId : SessionId) (request : Uuid) (id : TaskId) :
    (a.call sessionId request id).own = request ∧
      request.named "task-link" ∈ (a.call sessionId request id).derived := by
  cases a <;> exact ⟨rfl, List.mem_cons_self⟩

theorem TaskStart.call_run {fresh : Bool}
    (h : a.run env sessionId request id db = .ok (s', task, fresh, db')) :
    (a.call sessionId request id).run env db = .ok (some task, s', db') := by
  cases a with
  | task contract =>
    show (startTask env sessionId request contract id db >>= _) = _
    rw [show startTask env sessionId request contract id db = _ from h]
    rfl
  | request text limits intake =>
    show (startRequest env sessionId request text limits intake id db >>= _) = _
    rw [show startRequest env sessionId request text limits intake id db = _ from h]
    rfl
  | prepared input limits intake =>
    show (startPreparedRequest env sessionId request input limits intake id db >>= _) = _
    rw [show startPreparedRequest env sessionId request input limits intake id db = _ from h]
    rfl
  | resume k revision reason =>
    show (resumeTask env sessionId request k revision reason db >>= _) = _
    rw [show resumeTask env sessionId request k revision reason db = _ from h]
    rfl
  | continuation =>
    show (continueSubmission env sessionId request db >>= _) = _
    rw [show continueSubmission env sessionId request db = _ from h]
    rfl

/-- what a continuation needs to find its task again: no command of the user is pending, its input
can be read, and the linked task is still the current one when the request names none -/
structure Continuable (env : Env) (s : SessionState) (request : Uuid) (id : TaskId) : Prop where
  shell : s.branch.pendingShell = none
  input : ∀ x, s.submissions[request]? = some x → ∃ prepared, env.input x.input = .ok prepared
  current : ∀ x, s.submissions[request]? = some x → x.intent.isOrdinary = true → s.currentTask = some id

theorem continuedTask_kept {intent : WorkIntent} (h : continuedTask s intent = .ok id)
    (hcurrent : intent.isOrdinary = true → t.currentTask = some id) : continuedTask t intent = .ok id := by
  cases intent with
  | «continue» k => exact h
  | ordinary limits policy schedule =>
    show orInvalid _ t.currentTask = _
    rw [hcurrent rfl]
    rfl
  | newTask => cases h
  | shell => cases h
  | auxiliary => cases h

/-- what the call that linked a request leaves for its repetitions -/
structure LinkMade (db₁ : Db) (a : TaskStart) (request : Uuid) (s s₁ : SessionState) (id : TaskId) :
    Prop where
  free : s.tasksByRequest[request]? = none
  linked : s₁.tasksByRequest[request]? = some id
  kept : s₁.id = s.id
  asked : ∀ r, a.asks = some r →
    r.Checked ∧ s₁.operations[request]? = some (SessionCommand.digest (.input .task r.content)) ∧
      ∃ e, firstEvent db₁ id = .ok e ∧
        ∀ b r', TaskStart.asks b = some r' → (r'.made e = true ↔ r'.key = r.key)
  resumed : ∀ k revision reason, a = .resume k revision reason → k = id ∧ blank reason = false ∧
    s₁.operations[request]? = some (SessionCommand.digest (.input .task [userItem reason]))
  continued : a = .continuation → ∃ x, s₁.submissions[request]? = some x ∧
    ∀ t : SessionState, (x.intent.isOrdinary = true → t.currentTask = some id) →
      continuedTask t x.intent = .ok id

theorem linkFrames_intent {content : List Value}
    (hap : s.applyAll (linkFrames request content id) = .ok s') (k : Uuid) :
    intentOf s' k = intentOf s k := by
  obtain ⟨u, hinput, hlink⟩ := linkFrames_apply hap
  exact (apply_intent hlink fun x hx => (nomatch hx)).trans
    (apply_intent hinput fun x hx => (nomatch hx))

theorem intentOf_some {x : Submission} (h : intentOf s request = some x.intent) :
    ∃ y, s.submissions[request]? = some y ∧ y.intent = x.intent := by
  obtain ⟨y, hy, he⟩ := Option.map_eq_some_iff.mp h
  exact ⟨y, hy, he⟩

theorem Links.same {content : List Value} (h : Represents db w) (hs : w.sessions sessionId = some s)
    (hl : Links db sessionId request content t s' id) : t = s := by
  obtain ⟨head, hload⟩ := hl.loaded
  obtain ⟨g, hload'⟩ := h.loadSession hs
  cases hload.symm.trans hload'
  rfl

/-- **A call that links a request** finds it free, and leaves what its repetitions are compared with. -/
theorem TaskStart.linkMade (h : Represents db w) (hs : w.sessions sessionId = some s) {fresh : TaskId}
    (hc : a.run env sessionId request fresh db = .ok (s', task, true, db'))
    (hkeeps : KeepsLinks s (a.call sessionId request fresh)) : LinkMade db' a request s s' task.id := by
  have hne : request.named "task-link" ≠ request := by
    obtain ⟨hown, hderived⟩ := a.call_derived sessionId request fresh
    have := (hkeeps.derives _ hderived).1
    rwa [hown] at this
  cases ha : a.asks with
  | some r =>
    obtain ⟨hr, hc⟩ := TaskStart.asks_ok ha hc
    obtain ⟨rfl, t, e, atMs, hl, hfree, hbegin, hfirst⟩ := startRecord_created h hr hc
    obtain rfl := hl.same h hs
    refine ⟨hfree, linkFrames_linked hl.frames, applyAll_id hl.frames, fun r' hr' => ?_, ?_, ?_⟩
    · cases ha.symm.trans hr'
      exact ⟨hr, linkFrames_recorded hl.frames hne, e, hfirst,
        fun b r' hb => TaskStart.asks_made ha hb hbegin⟩
    · rintro k revision reason rfl
      cases ha
    · rintro rfl
      cases ha
  | none =>
    cases a with
    | task => cases ha
    | request => cases ha
    | prepared => cases ha
    | resume k revision reason =>
      obtain ⟨rfl, hblank, t, hl, hfree⟩ := resumeTask_created h hc
      obtain rfl := hl.same h hs
      refine ⟨hfree, linkFrames_linked hl.frames, applyAll_id hl.frames,
        fun r hr => (nomatch hr), fun k' revision' reason' he => ?_, fun he => (nomatch he)⟩
      cases he
      exact ⟨rfl, hblank, linkFrames_recorded hl.frames hne⟩
    | continuation =>
      obtain ⟨t, x, content, hl, hx, htask, hother⟩ := continueSubmission_created h hc
      obtain rfl := hl.same h hs
      have hfree : t.tasksByRequest[request]? = none := by
        cases hlinked : t.tasksByRequest[request]? with
        | none => rfl
        | some linked =>
          have := hkeeps.continues sessionId request x task.id linked rfl hx htask hlinked
          exact absurd (this ▸ hlinked) hother
      refine ⟨hfree, linkFrames_linked hl.frames, applyAll_id hl.frames,
        fun r hr => (nomatch hr), fun k revision reason he => (nomatch he), fun _ => ?_⟩
      obtain ⟨y, hy, he⟩ := intentOf_some (s := s') (x := x) (by
        rw [linkFrames_intent hl.frames, intentOf, hx]
        rfl)
      refine ⟨y, hy, fun u hcurrent => ?_⟩
      rw [he] at hcurrent ⊢
      exact continuedTask_kept htask hcurrent

theorem TaskStart.same_cases (h : a.same b) :
    (∃ r r', a.asks = some r ∧ b.asks = some r' ∧ r'.key = r.key) ∨
    (∃ k n m reason, a = .resume k n reason ∧ b = .resume k m reason) ∨
    (a = .continuation ∧ b = .continuation) := by
  cases a with
  | resume k n reason =>
    cases b with
    | resume k' m reason' =>
      obtain ⟨rfl, rfl⟩ := h
      exact .inr (.inl ⟨k', n, m, reason', rfl, rfl⟩)
    | _ => exact .inl h
  | continuation =>
    cases b with
    | continuation => exact .inr (.inr ⟨rfl, rfl⟩)
    | _ => exact .inl h
  | _ => cases b <;> exact .inl h

theorem TaskStart.differs_cases (h : a.differs b) :
    (∃ r r', a.asks = some r ∧ b.asks = some r' ∧ r'.key ≠ r.key) ∨
    (∃ k n reason k' m reason', a = .resume k n reason ∧ b = .resume k' m reason' ∧ (k' ≠ k ∨
      SessionCommand.digest (.input .task [userItem reason']) ≠
        SessionCommand.digest (.input .task [userItem reason]))) ∨
    (∃ r k m reason, a.asks = some r ∧ b = .resume k m reason ∧
      SessionCommand.digest (.input .task [userItem reason]) ≠
        SessionCommand.digest (.input .task r.content)) := by
  cases b with
  | resume k' m reason' =>
    cases a with
    | resume k n reason => exact .inr (.inl ⟨k, n, reason, k', m, reason', rfl, rfl, h⟩)
    | _ =>
      obtain ⟨r, hr, hne⟩ := h
      exact .inr (.inr ⟨r, k', m, reason', hr, rfl, hne⟩)
  | _ => cases a <;> exact .inl h

section
variable {a : TaskStart} {s₁ : SessionState} {db₁ : Db}

/-- **A repetition with the same content finds the task of the request**, and changes nothing. -/
theorem LinkMade.same (hm : LinkMade db₁ a request s s₁ id) (hr : Represents db w)
    (hs : w.sessions sessionId = some s') (ht : w.tasks id = some task) (hkept : KeptOn s₁ s')
    (hlonger : Longer db₁.tasks db.tasks) {b : TaskStart} (hsame : a.same b) (hread : b.readable env)
    (hcontinues : b = .continuation → Continuable env s' request id) (fresh : TaskId) :
    b.run env sessionId request fresh db = .ok (s', task, false, db) := by
  have hlink := (hkept.links request (mem_links hm.linked)).trans hm.linked
  have hops := hkept.records request (mem_links hm.linked)
  rcases TaskStart.same_cases hsame with ⟨r, r', ha, hb, hkey⟩ | ⟨k, n, m, reason, rfl, rfl⟩ | ⟨rfl, rfl⟩
  · obtain ⟨hchecked, -, e, hfirst, hmade⟩ := hm.asked r ha
    rw [TaskStart.asks_run hb (hchecked.of_key hkey) hread,
      startRecord_linked hr hs hlink ht (hlonger.firstEvent hfirst), if_pos ((hmade b r' hb).mpr hkey)]
  · obtain ⟨rfl, hblank, hrec⟩ := hm.resumed k n reason rfl
    exact resumeTask_linked hr hs hlink ht hblank (hops.trans hrec) m
  · obtain ⟨x, hx, htask⟩ := hm.continued rfl
    obtain ⟨y, hy, he⟩ := intentOf_some (s := s') (x := x) (by
      rw [hkept.intents request (by rw [hx]; rfl), intentOf, hx]
      rfl)
    obtain ⟨hshell, hinput, hcurrent⟩ := hcontinues rfl
    obtain ⟨prepared, hprepared⟩ := hinput y hy
    refine continueSubmission_linked hr hs hlink ht hy ?_ hprepared hshell
    rw [he]
    exact htask s' (by rw [← he]; exact hcurrent y hy)

/-- **A repetition with other content is refused.** -/
theorem LinkMade.differs (hm : LinkMade db₁ a request s s₁ id) (hr : Represents db w)
    (hs : w.sessions sessionId = some s') (ht : w.tasks id = some task) (hkept : KeptOn s₁ s')
    (hlonger : Longer db₁.tasks db.tasks) {b : TaskStart} (hdiffers : a.differs b) (fresh : TaskId) :
    ∃ e, b.run env sessionId request fresh db = .error e := by
  have hlink := (hkept.links request (mem_links hm.linked)).trans hm.linked
  have hops := hkept.records request (mem_links hm.linked)
  rcases TaskStart.differs_cases hdiffers with ⟨r, r', ha, hb, hkey⟩ |
    ⟨k, n, reason, k', m, reason', rfl, rfl, hne⟩ | ⟨r, k, m, reason, ha, rfl, hne⟩
  · obtain ⟨-, -, e, hfirst, hmade⟩ := hm.asked r ha
    refine TaskStart.asks_error (e := .invalid "request ID reused with different task input") hb ?_
    rw [startRecord_linked hr hs hlink ht (hlonger.firstEvent hfirst),
      if_neg fun h => hkey ((hmade b r' hb).mp h)]
  · obtain ⟨rfl, -, hrec⟩ := hm.resumed k n reason rfl
    refine resumeTask_differs hr hs hlink (hne.imp_right fun hne => ?_) m
    rw [hops, hrec]
    exact fun he => hne (Option.some.inj he).symm
  · obtain ⟨-, hrec, -⟩ := hm.asked r ha
    refine resumeTask_differs hr hs hlink (.inr ?_) m
    rw [hops, hrec]
    exact fun he => hne (Option.some.inj he).symm

end

/-- **One task per request**: in a run that continues no linked request with another task, a linked
request is recorded and stays linked to its task.  A call that links a request finds it free; whenever
it is repeated later, with the same content it reports that task as not made and leaves the store as
it is, and with other content it is refused.  A command of the user is never begun twice. -/
theorem one_task_per_request (h : HostReachable ContinuesLinked db w) (hs : w.sessions sessionId = some s) :
    (∀ request id, s.tasksByRequest[request]? = some id → request ∈ s.operations ∧
      ∀ db' w', HostRun ContinuesLinked db w db' w' →
        ∃ s', w'.sessions sessionId = some s' ∧ s'.tasksByRequest[request]? = some id) ∧
    (∀ env request fresh (a : TaskStart) s₁ task db₁,
      a.run env sessionId request fresh db = .ok (s₁, task, true, db₁) →
      KeepsLinks s (a.call sessionId request fresh) → s.tasksByRequest[request]? = none ∧
      ∀ db₂ w₂, HostRun KeepsLinks db₁ (w.write (some task) (some s₁)) db₂ w₂ →
        ∃ s₂ task₂, w₂.sessions sessionId = some s₂ ∧ w₂.tasks task.id = some task₂ ∧
          s₂.tasksByRequest[request]? = some task.id ∧
          (∀ (b : TaskStart) env' fresh', a.same b → b.readable env' →
            (b = .continuation → Continuable env' s₂ request task.id) →
            b.run env' sessionId request fresh' db₂ = .ok (s₂, task₂, false, db₂)) ∧
          ∀ (b : TaskStart) env' fresh', a.differs b →
            ∃ e, b.run env' sessionId request fresh' db₂ = .error e) ∧
    ∀ env request job, request ∈ s.operations →
      ∃ e, beginShell env sessionId request job db = .error e := by
  have hr := h.represents
  refine ⟨fun request id hlink => ⟨h.linksRecorded sessionId s hs request (mem_links hlink),
    fun db' w' hrun => hrun.keeps_link hr h.linksRecorded hs hlink⟩, ?_,
    fun env request job hrec => beginShell_recorded hr hs hrec job⟩
  · intro env request fresh a s₁ task db₁ hc hkeeps
    have hm := a.linkMade hr hs hc hkeeps
    refine ⟨hm.free, fun db₂ w₂ hrun => ?_⟩
    -- the call is a step of the run
    have hload : ∀ t head, loadSessionState db (a.call sessionId request fresh).session none =
        .ok (t, head) → ContinuesLinked t (a.call sessionId request fresh) := by
      intro t head hl
      rw [a.call_session] at hl
      obtain ⟨g, hload⟩ := hr.loadSession hs
      cases hload.symm.trans hl
      exact hkeeps.continues
    have hstep : HostReachable ContinuesLinked db₁ (w.write (some task) (some s₁)) :=
      HostRun.step h (.call (TaskStart.call_run hc) a.call_direct hload)
    have hr₁ := hstep.represents
    have hr₂ := hrun.represents hr₁
    have hs₁ : (w.write (some task) (some s₁)).sessions sessionId = some s₁ := by
      have hid : s.id = sessionId := (hr.session_row hs).choose_spec.2.good.1
      rw [World.write_sessions, ← hid, ← hm.kept]
      exact Function.update_self ..
    have hlonger := ((hrun.run hr₁).lengthens hr₁).tasks
    obtain ⟨s₂, hs₂, hkept⟩ := hrun.keptOn hr₁ hstep.linksRecorded hs₁
    obtain ⟨task₂, ht₂⟩ := hlonger.still_there hr₁ hr₂ (World.setTask_get w task)
    refine ⟨s₂, task₂, hs₂, ht₂, (hkept.links request (mem_links hm.linked)).trans hm.linked,
      fun b env' fresh' hsame hread hcontinues =>
        hm.same hr₂ hs₂ ht₂ hkept hlonger hsame hread hcontinues fresh',
      fun b env' fresh' hdiffers => hm.differs hr₂ hs₂ ht₂ hkept hlonger hdiffers fresh'⟩

end

open Sample in
theorem one_task_per_request_started : ∃ db, ∀ env fresh,
    startTask env sessionId firstRequest contract fresh db = .ok (linked, begun, false, db) ∧
    ∃ e, startTask env sessionId firstRequest { contract with request := "other" } fresh db = .error e := by
  obtain ⟨db, hopen, ht, -⟩ := opens
  have hr : HostReachable ContinuesLinked db (World.empty.setSession opened) :=
    HostRun.step .refl (.create hopen)
  have hs := World.setSession_get World.empty opened
  obtain ⟨db₁, hstart, -⟩ := starts hr.represents hs ht
  have hkeeps : KeepsLinks opened (.startTask sessionId firstRequest contract taskId) := by
    refine ⟨fun _ _ _ _ _ he => (nomatch he), fun id hid => ?_⟩
    cases List.mem_singleton.mp hid
    exact ⟨by decide, not_mem_links rfl⟩
  obtain ⟨-, hlater⟩ := (one_task_per_request hr hs).2.1 Sample.env firstRequest taskId (.task contract)
    linked begun db₁ hstart hkeeps
  obtain ⟨s₂, task₂, hs₂, ht₂, -, hsame, hdiffers⟩ := hlater db₁ _ .refl
  cases (World.setSession_get _ linked).symm.trans hs₂
  cases (World.setTask_get (World.empty.setSession opened) begun).symm.trans ht₂
  refine ⟨db₁, fun env fresh => ⟨?_, ?_⟩⟩
  · exact hsame (.task contract) env fresh ⟨_, _, rfl, rfl, rfl⟩ trivial fun h => nomatch h
  · refine hdiffers (.task { contract with request := "other" }) env fresh ⟨_, _, rfl, rfl, ?_⟩
    decide

namespace Sample

/-! ### a command of the user beside a task -/

def Comes (s : SessionState) (t : TaskState) : Prop :=
  ∃ db w, HostReachable (fun _ _ => True) db w ∧ w.sessions sessionId = some s ∧
    w.tasks taskId = some t ∧ db.sessions.map Prod.fst = [sessionId]

theorem comes_linked : Comes linked begun := by
  obtain ⟨db, hopen, ht, -, hkeys⟩ := opens
  have hr : HostReachable (fun _ _ => True) db (World.empty.setSession opened) :=
    HostRun.step .refl (.create hopen)
  obtain ⟨db₁, hstart, hkeys₁⟩ := starts hr.represents (World.setSession_get World.empty opened) ht
  exact ⟨db₁, _, HostRun.step hr (.call (TaskStart.call_run (a := .task contract) hstart) rfl
    fun _ _ _ => trivial), World.setSession_get _ linked,
    World.setTask_get (World.empty.setSession opened) begun, hkeys₁.trans hkeys⟩

theorem Comes.step {s : SessionState} {t t' : TaskState} (h : Comes s t) (hid : t'.id = taskId)
    (hstep : ∀ db w, Represents db w → w.tasks taskId = some t →
      ∃ db', Step anyDraw db (some t') none db' ∧ db'.sessions = db.sessions) : Comes s t' := by
  obtain ⟨db, w, hr, hs, ht, hkeys⟩ := h
  obtain ⟨db', hone, hsessions⟩ := hstep db w hr.represents ht
  refine ⟨db', _, HostRun.step hr (.task hone), ?_, ?_, by rw [hsessions]; exact hkeys⟩
  · exact hs
  · rw [← hid]
    exact World.setTask_get w t'

theorem Comes.command {s s' : SessionState} {t : TaskState} (h : Comes s t) {operation : Uuid}
    {c : SessionCommand ContextView} (hap : s.apply operation c = .ok s') (hid : s'.id = sessionId)
    (hr : s.revision + 1 < 2 ^ 63) (howned : c.ownedBy s) (hnew : s.operations[operation]? = none)
    (hanswers : (c.answers.any fun request => s.activeRequest != some request) = false)
    (hdirect : c.reserved = false)
    (hadmitted : ∀ db w, Represents db w → w.tasks taskId = some t → admitCommand env s db c = .ok ()) :
    Comes s' t := by
  obtain ⟨db, w, hreach, hs, ht, hkeys⟩ := h
  obtain ⟨db', hc, -, hkeys'⟩ := issues hreach.represents hs hap hr howned hnew hanswers
    (hadmitted db w hreach.represents ht)
  have hcall : (HostCall.command sessionId s.revision operation c).run env db = .ok (none, s', db') := by
    rw [HostCall.run, hc, ok_bind]
  refine ⟨db', _, HostRun.step hreach (.call hcall (by rw [HostCall.direct, hdirect]; rfl)
    fun _ _ _ => trivial), ?_, ht, hkeys'.trans hkeys⟩
  rw [← hid]
  exact World.setSession_get w s'

/-- the task with its workspace, and with a frozen source -/
def placed : TaskState := (begun.apply (.originCaptured ⟨0⟩)).apply (.baselineEstablished candidate)

def chosen : TaskState := placed.apply (.candidateSelected candidate)

theorem comes_placed : Comes linked placed := by
  refine comes_linked.step rfl fun db w h ht => ?_
  obtain ⟨head, hl⟩ := h.loadState ht
  obtain ⟨db₁, happ, -, hs₁⟩ := h.appends (s := begun) ht head
    (fits db (.originCaptured ⟨0⟩) (by decide))
  have hfirst := Appended.first h hl happ rfl
  have ht₁ := World.setTask_get w (begun.apply (.originCaptured ⟨0⟩))
  obtain ⟨head', hl'⟩ := hfirst.represents.loadState ht₁
  obtain ⟨db₂, happ', -, hs₂⟩ := hfirst.represents.appends ht₁ head'
    (fits db₁ (.baselineEstablished candidate) (by decide))
  have hc : establishWorkspace env taskId 1 ⟨0⟩ candidate db = .ok (placed, db₂) := by
    rw [establishWorkspace, hl, ok_bind]
    show (appendTaskEvent env begun head (.originCaptured ⟨0⟩) db >>= _) = _
    rw [happ, ok_bind]
    show (loadState db₁ taskId >>= _) = _
    rw [show loadState db₁ taskId = _ from hl', ok_bind]
    exact happ'
  exact ⟨db₂, .establishWorkspace hc, hs₂.trans hs₁⟩

theorem comes_chosen : Comes linked chosen := by
  refine comes_placed.step rfl fun db w h ht => ?_
  have hc : ∃ db', selectCandidate env taskId 3 candidate db = .ok (chosen, db') ∧ _ ∧
      db'.sessions = db.sessions :=
    h.changes ht rfl (by decide) rfl (fits _ _ (by decide))
  obtain ⟨db', hc, -, hsessions⟩ := hc
  exact ⟨db', .selectCandidate hc, hsessions⟩

def settleId : Uuid := ⟨13⟩
def saveId : Uuid := ⟨14⟩

def saved : SessionState := after linked saveId (.workspaceSaved firstRequest ⟨⟨0⟩, ⟨0⟩, some taskId⟩)

def quiet : SessionState := after saved settleId (.turnSettled firstRequest none none)

theorem comes_quiet : Comes quiet chosen := by
  have hsaved : Comes saved chosen := by
    refine comes_chosen.command (show linked.apply saveId
      (.workspaceSaved firstRequest ⟨⟨0⟩, ⟨0⟩, some taskId⟩) = .ok saved from rfl) rfl
      (by decide) trivial (by decide) rfl rfl fun db w h ht => ?_
    obtain ⟨head, hl⟩ := h.loadState ht
    show admitSaved env linked firstRequest ⟨⟨0⟩, ⟨0⟩, some taskId⟩ db = _
    rw [admitSaved, show linked.tasksByRequest[firstRequest]? = some taskId from rfl]
    show (loadState db taskId >>= _) = _
    rw [hl, ok_bind]
    simp only
    rw [refuseIf_of_not _ (by decide +kernel), ok_bind]
    rfl
  exact hsaved.command
    (show saved.apply settleId (.turnSettled firstRequest none none) = .ok quiet from rfl) rfl
    (by decide) trivial (by decide) rfl rfl fun _ _ _ _ => rfl

/-- the user types a command -/
def commanding : Env := { env with input := fun d => .ok ⟨"! ls", d, []⟩ }

def shellId : Uuid := ⟨20⟩

def listing : ShellSpec := ⟨"ls", none, none, 1000, 1024⟩

def shellSubmission : Submission where
  manualJob := none
  id := shellId
  input := ⟨0⟩
  initialInput := ⟨0⟩
  records := []
  result := none
  intent := .shell listing
  status := .queued
  submittedRevision := quiet.revision + 1
  submittedMs := 0

def shellActive : Submission := { shellSubmission with status := .running }

def shellWaiting : SessionState := after quiet (shellId.named "submitted") (.submitted shellSubmission)

def shellClaimed : SessionState := after shellWaiting claimId (.submissionChanged shellId .running)

theorem comes_shellWaiting : Comes shellWaiting chosen := by
  obtain ⟨db, w, hr, hs, ht, hkeys⟩ := comes_quiet
  obtain ⟨head, hload⟩ := hr.represents.loadSession hs
  have hap : quiet.apply (shellId.named "submitted") (.submitted shellSubmission) = .ok shellWaiting := rfl
  obtain ⟨hash, db', happ, -, hkeys', -⟩ := commands hr.represents
    (SessionLoaded.of_load hr.represents hload).1 (commanding.appendClock 0) hap (by decide) trivial
  have hcapacity : admitCapacity quiet shellId db = .ok () := by
    rw [admitCapacity, if_neg (by decide +kernel), pendingSubmissions_one hr.represents hkeys hs]
    rfl
  have hcall : (HostCall.submit sessionId shellId ⟨0⟩ shellSubmission.intent).run commanding db =
      .ok (none, shellWaiting, db') := by
    have hsubmit : submit commanding sessionId shellId ⟨0⟩ shellSubmission.intent db =
        .ok (shellSubmission, shellWaiting, none, db') := by
      rw [submit, hload, ok_bind]
      simp only [hcapacity, ok_bind]
      show ((appendSessionCommand quiet head (shellId.named "submitted") (.submitted shellSubmission)
        (commanding.appendClock 0) db) >>= _) = _
      rw [happ]
      rfl
    rw [HostCall.run, hsubmit, ok_bind]
  exact ⟨db', _, HostRun.step hr (.call hcall rfl fun _ _ _ => trivial), World.setSession_get w shellWaiting,
    ht, hkeys'.trans hkeys⟩

theorem comes_shellClaimed : ∃ db w, HostReachable (fun _ _ => True) db w ∧
    w.sessions sessionId = some shellClaimed ∧ w.tasks taskId = some chosen := by
  obtain ⟨db, w, hr, hs, ht, -⟩ := comes_shellWaiting
  obtain ⟨db', hsets, -⟩ := sets hr.represents hs shellId (show _ = some shellSubmission from rfl)
    (show _ ≠ SubmissionStatus.running by decide) rfl
    (show shellWaiting.apply claimId (.submissionChanged shellId .running) = .ok shellClaimed from rfl)
    (by decide) (by decide) (show _ = some shellActive from rfl)
  exact ⟨db', _, HostRun.step hr (.call hsets rfl fun _ _ _ => trivial),
    World.setSession_get w shellClaimed, ht⟩

def manual : ManualJob := ⟨⟨21⟩, some taskId, ⟨0⟩, ⟨0⟩, ⟨0⟩, 0, some (chosen.scopeRevision + 1)⟩

def shellBegun : TaskState := chosen.apply
  (.manualStarted (shellJob sessionId shellId ⟨0⟩ listing manual chosen))

def shellRecorded : TaskState := shellBegun.apply (.effectRecorded (adoption shellId .intended))

def shellRunning : SessionState := after shellClaimed shellId (.shellStarted manual)

theorem beginsShell {db : Db} {w : World} (h : Represents db w)
    (hs : w.sessions sessionId = some shellClaimed) (ht : w.tasks taskId = some chosen) :
    ∃ db', beginShell env sessionId shellId manual db = .ok (shellRunning, some shellRecorded, db') := by
  obtain ⟨head, hload⟩ := h.loadSession hs
  obtain ⟨thead, htload⟩ := h.loadState ht
  obtain ⟨db₁, hstart, -⟩ := h.appends (s := chosen) ht thead (fits db (.manualStarted
    (shellJob sessionId shellId ⟨0⟩ listing manual chosen)) (by decide))
  have hfirst := Appended.first h htload hstart rfl
  have ht₁ := World.setTask_get w shellBegun
  obtain ⟨head', hl'⟩ := hfirst.represents.loadState ht₁
  obtain ⟨db₂, heffect, -⟩ := hfirst.represents.appends ht₁ head'
    (fits db₁ (.effectRecorded (adoption shellId .intended)) (by decide))
  have hnext : appendNext env shellBegun taskId (.effectRecorded (adoption shellId .intended)) db₁ =
      .ok (shellRecorded, db₂) := by
    rw [appendNext, show loadState db₁ taskId = _ from hl', ok_bind]
    exact heffect
  have hshell : beginTaskShell env sessionId shellId ⟨0⟩ listing manual taskId db =
      .ok (shellRecorded, db₂) := by
    rw [beginTaskShell, htload, ok_bind]
    simp only
    rw [refuseIf_of_not _ (by decide), ok_bind, refuseIf_of_not _ (by decide +kernel), ok_bind, hstart,
      ok_bind]
    exact hnext
  have hshells : beginShells env sessionId shellId ⟨0⟩ listing manual db =
      .ok (some shellRecorded, db₂) := by
    show (beginTaskShell env sessionId shellId ⟨0⟩ listing manual taskId db >>= _) = _
    rw [hshell]
    rfl
  have hpart : TaskPart anyDraw db w (some shellRecorded) db₂ :=
    beginShells_part h hshells fun _ _ _ _ _ => trivial
  obtain ⟨hash, db₃, happ, -⟩ := commands hpart.represents
    ((SessionLoaded.of_load h hload).1.after hpart) (env.appendClock 0)
    (show shellClaimed.apply shellId (.shellStarted manual) = .ok shellRunning from rfl)
    (by decide) trivial
  refine ⟨db₃, ?_⟩
  rw [beginShell, hload, ok_bind]
  simp only
  rw [show shellClaimed.submissions[shellId]? = some shellActive from rfl,
    show orInvalid "unknown shell submission" (some shellActive) = .ok shellActive from rfl, ok_bind,
    show shellSpec shellActive.intent = .ok listing from rfl, ok_bind,
    show listing.validate = .ok () from rfl, ok_bind, refuseIf_of_not _ (by decide +kernel), ok_bind,
    refuseIf_of_not _ (by decide +kernel), ok_bind]
  show (beginShells env sessionId shellId ⟨0⟩ listing manual db >>= _) = _
  rw [hshells, ok_bind]
  simp only
  rw [happ]
  rfl

end Sample

open Sample in
theorem shell_start_repeated_refused : ∃ db w db', HostReachable (fun _ _ => True) db w ∧
    beginShell Sample.env sessionId shellId manual db = .ok (shellRunning, some shellRecorded, db') ∧
    shellRunning.tasksByRequest[shellId]? = some taskId ∧
    ∃ e, beginShell Sample.env sessionId shellId manual db' = .error e := by
  obtain ⟨db, w, hr, hs, ht⟩ := comes_shellClaimed
  obtain ⟨db', hbegin⟩ := beginsShell hr.represents hs ht
  have hcall : (HostCall.beginShell sessionId shellId manual).run Sample.env db =
      .ok (some shellRecorded, shellRunning, db') := by
    rw [HostCall.run, hbegin, ok_bind]
  have hr' : HostReachable (fun _ _ => True) db' (w.write (some shellRecorded) (some shellRunning)) :=
    HostRun.step hr (.call hcall rfl fun _ _ _ => trivial)
  exact ⟨db, w, db', hr, hbegin, rfl, beginShell_recorded hr'.represents
    (World.setSession_get _ shellRunning) (by decide) manual⟩

end Orvek
