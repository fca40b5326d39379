import Orvek.Store.Restarts

/-!
# Linked tasks are there

A session names tasks by their identifiers, and the tasks are stored beside it.  A request is linked
in the transaction that has just made or read its task:

* `startRecord_links`, `resumeTask_links`, `continueSubmission_links`
                             the task that a call returns is the one its request is linked to;
* `HostRun.linkedTasks`      in every run of the host, each linked task is stored.
-/

set_option linter.unusedSectionVars false

namespace Orvek
open Checks Json

def LinkedTasks (w : World) : Prop :=
  ∀ k s, w.sessions k = some s → ∀ (request : Uuid) (id : TaskId),
    s.tasksByRequest[request]? = some id → ∃ t, w.tasks id = some t

section
variable [Sha256] [ContractCodec] [SessionCodec] [StoreCodec] [JsonReader]
variable {db db' : Db} {w w' : World} {env : Env} {s s' : SessionState} {sessionId : SessionId}
  {request : Uuid} {id : TaskId} {task : TaskState} {fresh : Bool}

/-! ## the task of a call -/

theorem StartRequest.begin_id {r : StartRequest} {atMs : Nat} {e : TaskEvent}
    (h : r.begin id atMs = .ok (e, task)) : task.id = id := by
  unfold StartRequest.begin at h
  split at h
  · cases h
    rfl
  · cases h
    rfl
  · cases h

theorem startRecord_links (h : Represents db w) {r : StartRequest}
    (hc : startRecord env sessionId request r id db = .ok (s', task, fresh, db')) :
    s'.tasksByRequest[request]? = some task.id := by
  obtain ⟨⟨s, head⟩, hl, hc⟩ := bind_ok hc
  simp only at hc
  split at hc
  · rename_i k hlink
    obtain ⟨⟨t, thead⟩, htl, hc⟩ := bind_ok hc
    obtain ⟨_, -, hc⟩ := bind_ok hc
    obtain ⟨-, hc⟩ := refuseIf_bind hc
    cases hc
    rw [(h.of_loadState htl).2.1]
    exact hlink
  · obtain ⟨-, -, hc⟩ := bind_ok hc
    obtain ⟨⟨e, t⟩, hbegin, hc⟩ := bind_ok hc
    obtain ⟨db₁, -, hc⟩ := bind_ok hc
    obtain ⟨⟨u, db₂⟩, hlink, hc⟩ := bind_ok hc
    cases hc
    rw [StartRequest.begin_id hbegin]
    exact linkFrames_linked (linkTask_frames hlink)

theorem resumeTask_links (h : Represents db w) {revision : Nat} {reason : String}
    (hc : resumeTask env sessionId request id revision reason db = .ok (s', task, fresh, db')) :
    s'.tasksByRequest[request]? = some task.id := by
  have hcreated := hc
  obtain ⟨-, hc⟩ := refuseIf_bind hc
  obtain ⟨⟨s, head⟩, hl, hc⟩ := bind_ok hc
  obtain ⟨⟨t, thead⟩, htl, hc⟩ := bind_ok hc
  simp only at hc
  split at hc
  · rename_i k hlink
    obtain ⟨hsame, hc⟩ := refuseIf_bind hc
    cases hc
    rw [not_or, not_not] at hsame
    rw [(h.of_loadState htl).2.1, ← hsame.1]
    exact hlink
  · obtain ⟨-, hc⟩ := refuseIf_bind hc
    obtain ⟨-, hc⟩ := refuseIf_bind hc
    obtain ⟨-, -, hc⟩ := bind_ok hc
    obtain ⟨-, -, hc⟩ := bind_ok hc
    obtain ⟨-, -, hc⟩ := bind_ok hc
    obtain ⟨⟨t', db₁⟩, -, hc⟩ := bind_ok hc
    obtain ⟨⟨u, db₂⟩, hlink, hc⟩ := bind_ok hc
    cases hc
    rw [(resumeTask_created h hcreated).1]
    exact linkFrames_linked (linkTask_frames hlink)

theorem continueSubmission_links (h : Represents db w)
    (hc : continueSubmission env sessionId request db = .ok (s', task, fresh, db')) :
    s'.tasksByRequest[request]? = some task.id := by
  have hcreated := hc
  obtain ⟨⟨s, head⟩, hl, hc⟩ := bind_ok hc
  obtain ⟨x, -, hc⟩ := bind_ok hc
  obtain ⟨k, -, hc⟩ := bind_ok hc
  obtain ⟨prepared, -, hc⟩ := bind_ok hc
  obtain ⟨-, hc⟩ := refuseIf_bind hc
  obtain ⟨⟨t, thead⟩, htl, hc⟩ := bind_ok hc
  simp only at hc
  split at hc
  · rename_i hlink
    cases hc
    rw [(h.of_loadState htl).2.1]
    exact hlink
  · obtain ⟨-, -, hc⟩ := bind_ok hc
    obtain ⟨⟨t', db₁⟩, -, hc⟩ := bind_ok hc
    obtain ⟨-, -, hc⟩ := bind_ok hc
    obtain ⟨⟨u, db₂⟩, -, hc⟩ := bind_ok hc
    cases hc
    obtain ⟨_, _, _, hlinks, -⟩ := continueSubmission_created h hcreated
    exact linkFrames_linked hlinks.frames

theorem beginShell_found (h : Represents db w) {job : ManualJob} {t : Option TaskState}
    (hc : beginShell env sessionId request job db = .ok (s', t, db')) (hid : job.task = some id) :
    ∃ t, w.tasks id = some t := by
  obtain ⟨⟨s, head⟩, -, hc⟩ := bind_ok hc
  obtain ⟨_, -, hc⟩ := bind_ok hc
  obtain ⟨_, -, hc⟩ := bind_ok hc
  obtain ⟨-, -, hc⟩ := bind_ok hc
  obtain ⟨-, hc⟩ := refuseIf_bind hc
  obtain ⟨-, hc⟩ := refuseIf_bind hc
  obtain ⟨-, -, hc⟩ := bind_ok hc
  obtain ⟨-, -, hc⟩ := bind_ok hc
  obtain ⟨⟨t, db₁⟩, hbegin, -⟩ := bind_ok hc
  rw [beginShells, hid] at hbegin
  obtain ⟨_, hbegin, -⟩ := bind_ok hbegin
  obtain ⟨⟨u, uhead⟩, hl, -⟩ := bind_ok hbegin
  exact ⟨u, (h.of_loadState hl).1⟩

theorem World.write_still_there (task : Option TaskState) (session : Option SessionState)
    (h : ∃ t, w.tasks id = some t) : ∃ t, (w.write task session).tasks id = some t := by
  rw [World.write_tasks]
  cases task with
  | none => exact h
  | some u =>
    show ∃ t, Function.update w.tasks u.id (some u) id = some t
    rw [Function.update_apply]
    split
    · exact ⟨u, rfl⟩
    · exact h

theorem World.write_there (w : World) (t : TaskState) (session : Option SessionState) :
    ∃ u, (w.write (some t) session).tasks t.id = some u := by
  rw [World.write_tasks]
  exact ⟨t, World.setTask_get w t⟩

/-- **A call that links its request leaves the task of the link in the store.** -/
theorem HostCall.links_there (h : Represents db w) {call : HostCall} {t : Option TaskState}
    {frames : List Frame} (hc : call.run env db = .ok (t, s', db')) (hdirect : call.direct = true)
    (hplan : CallPlan s call frames) (hap : s.applyAll frames = .ok s') :
    ∀ f ∈ frames, ∀ r id, f.2.links f.1 = some (r, id) →
      ∃ u, (w.write t (some s')).tasks id = some u := by
  intro f hf r id hl
  -- the call returned the task that its request is linked to now
  have hreturned : ∀ {operation : Uuid} {content : List Value} {k : TaskId} {u : TaskState},
      f ∈ linkFrames operation content k → s.applyAll (linkFrames operation content k) = .ok s' →
      s'.tasksByRequest[operation]? = some u.id →
      ∃ v, (w.write (some u) (some s')).tasks id = some v := by
    intro operation content k u hf hap hu
    have hk := (linkFrames_linked hap).symm.trans hu
    simp only [linkFrames, List.mem_cons, List.not_mem_nil, or_false] at hf
    rcases hf with rfl | rfl <;> cases hl
    cases hk
    exact World.write_there w u _
  cases hplan with
  | nothing => cases hf
  | @command session revision operation c _ hnew hframed =>
    have hreserved : c.reserved = false := by simpa [HostCall.direct] using hdirect
    rw [links_of_not_linking (hframed.all (q := fun c => c.linking = false)
      (reserved_linking hreserved) (fun _ => logical_linking) f hf)] at hl
    cases hl
  | start content hstarts =>
    cases call with
    | startTask =>
      cases hstarts
      obtain ⟨_, hrun, he⟩ := bind_ok hc
      cases he
      obtain ⟨-, -, hrun⟩ := bind_ok hrun
      exact hreturned hf hap (startRecord_links h hrun)
    | startRequest =>
      cases hstarts
      obtain ⟨_, hrun, he⟩ := bind_ok hc
      cases he
      obtain ⟨-, hrun⟩ := refuseIf_bind hrun
      obtain ⟨-, -, hrun⟩ := bind_ok hrun
      obtain ⟨-, -, hrun⟩ := bind_ok hrun
      exact hreturned hf hap (startRecord_links h hrun)
    | startPreparedRequest =>
      cases hstarts
      obtain ⟨_, hrun, he⟩ := bind_ok hc
      cases he
      obtain ⟨-, hrun⟩ := refuseIf_bind hrun
      obtain ⟨-, -, hrun⟩ := bind_ok hrun
      obtain ⟨-, -, hrun⟩ := bind_ok hrun
      obtain ⟨_, -, hrun⟩ := bind_ok hrun
      obtain ⟨-, hrun⟩ := refuseIf_bind hrun
      exact hreturned hf hap (startRecord_links h hrun)
    | _ => cases hstarts
  | resume =>
    obtain ⟨_, hrun, he⟩ := bind_ok hc
    cases he
    exact hreturned hf hap (resumeTask_links h hrun)
  | «continue» =>
    obtain ⟨_, hrun, he⟩ := bind_ok hc
    cases he
    exact hreturned hf hap (continueSubmission_links h hrun)
  | beginShell =>
    obtain ⟨_, hrun, he⟩ := bind_ok hc
    cases he
    cases List.mem_singleton.mp hf
    obtain ⟨k, hk, he⟩ := Option.map_eq_some_iff.mp hl
    cases he
    exact World.write_still_there _ _ (beginShell_found h hrun hk)
  | finishShell =>
    simp only [List.mem_cons, List.not_mem_nil, or_false] at hf
    rcases hf with rfl | rfl <;> cases hl
  | _ =>
    cases List.mem_singleton.mp hf
    cases hl

/-! ## over runs -/

theorem applyAll_links {frames : List Frame} (h : s.applyAll frames = .ok s')
    (hlink : s'.tasksByRequest[request]? = some id) : s.tasksByRequest[request]? = some id ∨
      ∃ f ∈ frames, f.2.links f.1 = some (request, id) := by
  refine applyAll_relation (R := fun s t => t.tasksByRequest[request]? = some id →
    s.tasksByRequest[request]? = some id ∨ ∃ f ∈ frames, f.2.links f.1 = some (request, id))
    (fun _ h => .inl h) (fun hab hbc h => (hbc h).elim hab .inr) (fun f hm u v hap hv => ?_) h hlink
  rw [apply_links hap] at hv
  cases hl : f.2.links f.1 with
  | none =>
    rw [hl] at hv
    exact .inl hv
  | some link =>
    rw [hl] at hv
    have hinsert : (u.tasksByRequest.insert link.1 link.2)[request]? = some id := hv
    rw [Std.ExtTreeMap.getElem?_insert] at hinsert
    split at hinsert
    · rename_i he
      cases hinsert
      cases Std.LawfulEqOrd.compare_eq_iff_eq.mp he
      exact .inr ⟨f, hm, hl⟩
    · exact .inl hinsert

theorem LinkedTasks.write (h : LinkedTasks w) (task : Option TaskState) {u : SessionState}
    (hu : ∀ (request : Uuid) (id : TaskId), u.tasksByRequest[request]? = some id →
      ∃ t, (w.write task (some u)).tasks id = some t) : LinkedTasks (w.write task (some u)) := by
  intro k s hs request id hlink
  rw [World.write_sessions, Function.update_apply] at hs
  split at hs
  · cases hs
    exact hu request id hlink
  · exact World.write_still_there task _ (h k s hs request id hlink)

/-- **Every task that a session names is there**, in every run of the host. -/
theorem HostRun.linkedTasks {admits : SessionState → HostCall → Prop} (h : HostRun admits db w db' w')
    (hr : Represents db w) (hlinked : LinkedTasks w) : LinkedTasks w' := by
  induction h with
  | refl => exact hlinked
  | @step db₁ db₂ w₁ task session hrun hs ih =>
    have hr₁ := hrun.represents hr
    cases hs with
    | task h =>
      intro k s hs request id hlink
      rw [World.write_task_sessions] at hs
      exact World.write_still_there task none (ih k s hs request id hlink)
    | @create _ _ _ _ _ _ _ u _ h =>
      refine LinkedTasks.write ih none fun request id hlink => ?_
      rcases createSessionSeeded_created hr₁ h with hold | ⟨-, creation, -, rfl⟩
      · exact World.write_still_there none _ (ih _ u hold request id hlink)
      · cases hlink.symm.trans Std.ExtTreeMap.getElem?_empty
    | @call env call task u _ h hdirect hadmits =>
      obtain ⟨s, head, frames, hl, hplan, hap⟩ := call.plan h
      obtain ⟨hs, -⟩ := SessionLoaded.of_load hr₁ hl
      refine LinkedTasks.write ih task fun request id hlink => ?_
      rcases applyAll_links hap hlink with hold | ⟨f, hf, hmade⟩
      · exact World.write_still_there task _ (ih _ s hs.state request id hold)
      · exact HostCall.links_there hr₁ h hdirect hplan hap f hf request id hmade

theorem HostReachable.linkedTasks {admits : SessionState → HostCall → Prop}
    (h : HostReachable admits db w) : LinkedTasks w :=
  HostRun.linkedTasks h represents_empty fun _ _ hs => (nomatch hs)

end

end Orvek
