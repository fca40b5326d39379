import Orvek.Store.Frames
import Orvek.Store.Runs

/-!
# Repeated commands

A session records the digest of every command under the operation it came with, so that a command
that is sent again is answered from the record:

* `Framed.recorded`          a command leaves its digest, in whatever frames it was journaled;
* `replay_operations`        the digest stays while no other event is journaled under the operation;
* `sessionCommand_known`     a known operation is answered or refused, and nothing is written.

The host itself journals twice under one operation: the input of an ordinary request comes after the
record that its classification began.
-/

set_option linter.unusedSectionVars false

namespace Orvek
open Checks Json Journal

section
variable [Sha256] [ContractCodec] [SessionCodec] [StoreCodec] [JsonReader]
variable {draws : TaskState → Uuid → Prop} {db db₁ db₂ : Db} {w w₂ : World}

/-- the operation of a journaled event -/
def SessionDocument.operation (d : SessionDocument) : Option Uuid :=
  match d.value with
  | .ok (.command operation _ _) => some operation
  | _ => none

def NotRepeated (db : Db) (id : SessionId) (operation : Uuid) (revision : Nat) : Prop :=
  ∀ a, db.sessions.get id = some a → ∀ r ∈ a.events.drop revision, r.event.operation ≠ some operation

theorem replay_operations {id : SessionId} {rows : List (Row SessionDocument Digest)}
    {s t : SessionState} {g head : Option Digest} {n m : Nat} {operation : Uuid}
    (h : (sessionFormat id).replay ⟨some s, g, n⟩ rows = .ok ⟨some t, head, m⟩)
    (hrows : ∀ r ∈ rows, r.event.operation ≠ some operation) :
    t.operations[operation]? = s.operations[operation]? := by
  obtain ⟨u, hu, hP⟩ := Format.replay_invariant
    (P := fun _ u => u.operations[operation]? = s.operations[operation]?)
    (fun {n u r u'} hr hP hstep => by
      obtain ⟨other, c, atMs, v, operations, hvalue, hap, rfl, hops⟩ := sessionStep_ok hstep
      have hne : other ≠ operation := by
        intro he
        refine hrows r hr ?_
        rw [SessionDocument.operation, hvalue, he]
      obtain ⟨digest, hv, -⟩ := apply_operations hap
      have hkeep : v.operations[operation]? = u.operations[operation]? := by
        rw [hv, Std.ExtTreeMap.getElem?_insert, if_neg (by simpa using hne)]
      rcases hops with rfl | ⟨legacy, rfl⟩
      · exact hkeep.trans hP
      · show (v.operations.insert other legacy)[operation]? = _
        rw [Std.ExtTreeMap.getElem?_insert, if_neg (by simpa using hne), hkeep, hP]) h rfl rfl
  cases hu
  exact hP

theorem sessionCommand_recorded {env : Env} {id : SessionId} {revision : Nat} {operation : Uuid}
    {c : SessionCommand ContextView} {s : SessionState} (hends : EndsLonger) (hlogical : c.logical = true)
    (hc : sessionCommand env id revision operation c db = .ok (s, db₁)) :
    s.operations[operation]? = some c.digest := by
  obtain ⟨t, head, hl, ⟨rfl, rfl, hknown⟩ | ⟨-, -, -, -, hash, happ⟩⟩ := sessionCommand_ok hc
  · exact hknown
  · obtain ⟨frames, hframed, hap⟩ := appendSessionCommand_frames happ
    exact hframed.recorded hlogical hends hap

/-- **A command is accepted once**: in every later state, while nothing else is journaled under its
operation, the command is answered with the current state and every other command under that
operation is refused, at any revision, and nothing is written. -/
theorem command_once (h : Reachable draws db w) (hends : EndsLonger) {env : Env} {id : SessionId}
    {revision : Nat} {operation : Uuid} {c : SessionCommand ContextView} {s₁ : SessionState}
    (hlogical : c.logical = true)
    (hc : sessionCommand env id revision operation c db = .ok (s₁, db₁))
    (hrun : Run draws db₁ (w.setSession s₁) db₂ w₂)
    (hlater : NotRepeated db₂ id operation s₁.revision) :
    ∃ s₂, w₂.sessions id = some s₂ ∧ ∀ (env' : Env) (revision' : Nat) (c' : SessionCommand ContextView),
      (c'.digest = c.digest → sessionCommand env' id revision' operation c' db₂ = .ok (s₂, db₂)) ∧
      (c'.digest ≠ c.digest → sessionCommand env' id revision' operation c' db₂ =
        .error (.invalid "command ID reused with different input")) := by
  obtain ⟨hmoved, hid⟩ := sessionCommand_represents h.represents hc
  have hr₂ := hrun.represents hmoved.represents
  have hs₁ : (w.setSession s₁).sessions id = some s₁ := by
    rw [← hid]
    exact World.setSession_get w s₁
  obtain ⟨s₂, a, head, hs₂, ha, -, -, hreplay⟩ :=
    (hrun.lengthens hmoved.represents).resumes hmoved.represents hr₂ hs₁
  have hknown : s₂.operations[operation]? = some c.digest := by
    rw [replay_operations hreplay (hlater a ha)]
    exact sessionCommand_recorded hends hlogical hc
  obtain ⟨head₂, hload⟩ := hr₂.loadSession hs₂
  refine ⟨s₂, hs₂, fun env' revision' c' => ⟨fun he => ?_, fun hne => ?_⟩⟩
  · rw [sessionCommand_known hload hknown, if_pos he.symm]
  · rw [sessionCommand_known hload hknown, if_neg (Ne.symm hne)]

end

/-! ## an ordinary request of the example store -/

namespace Sample
variable {draws : TaskState → Uuid → Prop} {db : Db} {w : World}

theorem endsLonger : EndsLonger := fun _ _ _ _ _ => Nat.le_refl _

def typed : PreparedInput := ⟨"build", ⟨0⟩, [userItem "build"]⟩

def requested : TaskState := TaskState.requested taskId "build" Limits.default 0 (some ⟨0⟩) (some ⟨0⟩)

/-- the request is an action: its input comes after the record of its classification -/
def acted : SessionState := after classifying ordinaryId (.input .task typed.messages)

def underWay : SessionState :=
  after acted (ordinaryId.named "task-link") (.taskLinked ordinaryId taskId)

def ordinaryStart : StartRequest := ⟨typed.text, Limits.default, none, some ⟨0⟩, some typed⟩

theorem acts (h : Represents db w) {s t u : SessionState} (hs : w.sessions sessionId = some s)
    (hfree : db.tasks = []) (hnone : s.tasksByRequest[ordinaryId]? = none)
    (hadmitted : admitStart s ordinaryId ordinaryStart = .ok ())
    (hone : s.apply ordinaryId (.input .task typed.messages) = .ok t)
    (htwo : t.apply (ordinaryId.named "task-link") (.taskLinked ordinaryId taskId) = .ok u)
    (hr : s.revision + 2 < 2 ^ 63) :
    ∃ db', startPreparedRequest typing sessionId ordinaryId typed Limits.default ⟨0⟩ taskId db =
      .ok (u, requested, true, db') ∧ db'.tasks.map Prod.fst = [taskId] ∧
      db'.sessions.map Prod.fst = db.sessions.map Prod.fst := by
  obtain ⟨head, hload⟩ := h.loadSession hs
  have hread : taskCreate taskId (TaskEvent.requested "build" Limits.default ⟨0⟩ (some ⟨0⟩) 0).document =
      .ok requested := by
    rw [taskCreate, show (TaskEvent.requested "build" Limits.default ⟨0⟩ (some ⟨0⟩) 0).document.read =
      .ok (.requested "build" Limits.default ⟨0⟩ (some ⟨0⟩) 0) from rfl, ok_bind]
    simp only
    rw [Limits.default_validate]
    rfl
  obtain ⟨db₁, hcreate, hrows⟩ : ∃ db₁, createTask typing taskId
      (.requested "build" Limits.default ⟨0⟩ (some ⟨0⟩) 0) requested db = .ok db₁ ∧
      db₁.tasks.map Prod.fst = [taskId] := by
    refine ⟨{ db with tasks := [(taskId, Orvek.created
      (TaskEvent.requested "build" Limits.default ⟨0⟩ (some ⟨0⟩) 0).document requested.document
      (aggregateHash "task" taskId.uuid 1 none []))] }, ?_, rfl⟩
    rw [createTask, hfree]
    rfl
  have hpart : TaskPart (fun _ _ => True) db w (some requested) db₁ :=
    TaskPart.created h hcreate hread rfl rfl (.requested taskId "build" Limits.default 0 (some ⟨0⟩) (some ⟨0⟩))
  obtain ⟨db₂, hlink, htasks, hkeys⟩ := links typing hpart.represents
    ((SessionLoaded.of_load h hload).1.after hpart) hone htwo hr
  refine ⟨db₂, ?_, by rw [htasks, hrows], by rw [hkeys, hpart.sessions]⟩
  rw [startPreparedRequest, refuseIf_of_not _ (by decide), ok_bind, Limits.default_validate]
  show startRecord typing sessionId ordinaryId ordinaryStart taskId db = _
  rw [startRecord, hload, ok_bind]
  simp only
  rw [hnone]
  simp only
  rw [hadmitted, ok_bind]
  show (createTask typing taskId (.requested "build" Limits.default ⟨0⟩ (some ⟨0⟩) 0) requested db >>= _) = _
  rw [hcreate, ok_bind, show StartRequest.content _ = typed.messages from rfl, hlink]
  rfl

theorem digest_started_ne : SessionCommand.digest (.input .task typed.messages) ≠
    SessionCommand.digest .auxiliaryStarted := by decide +kernel

end Sample

open Sample in
theorem command_repeated_refused : ∃ db w db₁ db₂ w₂, Reachable (fun _ _ => True) db w ∧
    sessionCommand Sample.env sessionId 3 ordinaryId .auxiliaryStarted db = .ok (classifying, db₁) ∧
    Run (fun _ _ => True) db₁ (w.setSession classifying) db₂ w₂ ∧
    ∀ revision, sessionCommand Sample.env sessionId revision ordinaryId .auxiliaryStarted db₂ =
      .error (.invalid "command ID reused with different input") := by
  obtain ⟨db, w, hr, hs, hfree⟩ := @reachable_claimed fun _ _ => True
  obtain ⟨db₁, hclassify, htasks, -⟩ := classifies hr.represents hs
  have hr₁ := (sessionCommand_represents hr.represents hclassify).1.represents
  obtain ⟨db₂, hact, -⟩ := acts (u := underWay) hr₁ (World.setSession_get w classifying)
    (htasks.trans hfree) rfl rfl rfl rfl (by decide)
  have hrun : Run (fun _ _ => True) db₁ (w.setSession classifying) db₂ _ :=
    Run.step .refl (.startPreparedRequest hact)
  obtain ⟨head, hload⟩ : ∃ head, loadSessionState db₂ sessionId none = .ok (underWay, head) :=
    (hrun.represents hr₁).loadSession
      (World.setSession_get ((w.setSession classifying).setTask requested) underWay)
  refine ⟨db, w, db₁, db₂, _, hr, hclassify, hrun, fun revision => ?_⟩
  have hknown : underWay.operations[ordinaryId]? =
      some (SessionCommand.digest (.input .task typed.messages)) := rfl
  rw [sessionCommand_known hload hknown, if_neg digest_started_ne]

open Sample in
theorem command_once_classifying : ∃ db, ∀ revision,
    sessionCommand Sample.env sessionId revision ordinaryId .auxiliaryStarted db = .ok (classifying, db) ∧
    sessionCommand Sample.env sessionId revision ordinaryId (.input .task typed.messages) db =
      .error (.invalid "command ID reused with different input") := by
  obtain ⟨db, w, hr, hs, -⟩ := @reachable_claimed fun _ _ => True
  obtain ⟨db₁, hclassify, -⟩ := classifies hr.represents hs
  have hnone : NotRepeated db₁ sessionId ordinaryId classifying.revision := by
    intro a ha r hm
    obtain ⟨b, hb, hholds⟩ := (sessionCommand_represents hr.represents hclassify).1.represents.session_row
      (World.setSession_get w classifying)
    cases ha.symm.trans hb
    rw [show classifying.revision = a.revision from hholds.numbered, hholds.length,
      List.drop_length] at hm
    cases hm
  obtain ⟨s, hs₂, hrepeat⟩ := command_once hr endsLonger rfl hclassify .refl hnone
  cases (World.setSession_get w classifying).symm.trans hs₂
  exact ⟨db₁, fun revision => ⟨(hrepeat Sample.env revision _).1 rfl,
    (hrepeat Sample.env revision _).2 digest_started_ne⟩⟩

end Orvek
