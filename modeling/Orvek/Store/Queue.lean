import Orvek.Lib.Tally
import Orvek.Store.Host

/-!
# The queue of a session

The submissions of a session are a map, and the order in which they wait is a list beside it.
`InQueue` says that the two agree.  Four commands change them:

* `InQueue.submitted`, `InQueue.moved`, `InQueue.changed`   each keeps the two in step, because of
                                                            what its call has checked;
* `apply_sameQueue`                                         every other command leaves both alone.
-/

set_option linter.unusedSectionVars false

namespace Orvek
open Checks Json

variable {s t : SessionState}

/-! ## lists of identifiers -/

theorem insertBefore_perm (queue : List Uuid) (before : Option Uuid) (request : Uuid) :
    (insertBefore queue before request).Perm (request :: queue) := by
  unfold insertBefore
  exact List.perm_middle.trans (by rw [List.take_append_drop])

theorem without_perm {queue : List Uuid} {request : Uuid} (hnodup : queue.Nodup)
    (h : request ∈ queue) : (request :: without queue request).Perm queue := by
  have herase : without queue request = queue.erase request := by
    rw [hnodup.erase_eq_filter, without]
    refine List.filter_congr fun x _ => ?_
    by_cases he : x = request <;> simp [he]
  rw [herase]
  exact (List.perm_cons_erase h).symm

def Submission.brief (x : Submission) : Uuid × SubmissionStatus := (x.id, x.status)

/-- the submissions as the queue sees them -/
def briefs (s : SessionState) (id : Uuid) : Option (Uuid × SubmissionStatus) :=
  s.submissions[id]?.map Submission.brief

def SessionCommand.queues {V : Type} : SessionCommand V → Bool
  | .submitted _ => true
  | .queueMoved .. => true
  | .queueEdited .. => true
  | .submissionChanged .. => true
  | _ => false

/-- the same queue, with the same submissions in it -/
structure SameQueue (s t : SessionState) : Prop where
  order : t.queueOrder = s.queueOrder
  briefs : ∀ id, briefs t id = briefs s id

theorem SameQueue.refl (s : SessionState) : SameQueue s s := ⟨rfl, fun _ => rfl⟩

theorem SameQueue.trans {u : SessionState} (h : SameQueue s t) (h' : SameQueue t u) :
    SameQueue s u := ⟨h'.order.trans h.order, fun id => (h'.briefs id).trans (h.briefs id)⟩

attribute [grind =] briefs

theorem SameQueue.modify {request : Uuid} {f : Submission → Submission}
    (horder : t.queueOrder = s.queueOrder) (hsubs : t.submissions = s.submissions.modify request f)
    (hf : ∀ x, (f x).brief = x.brief) : SameQueue s t := by
  refine ⟨horder, fun id => ?_⟩
  unfold Orvek.briefs
  rw [hsubs, Std.ExtTreeMap.getElem?_modify]
  split
  · rename_i he
    rw [Std.LawfulEqOrd.compare_eq_iff_eq.mp he, Option.map_map]
    exact congrFun (congrArg Option.map (funext hf)) _
  · rfl

theorem SameQueue.same (horder : t.queueOrder = s.queueOrder) (hsubs : t.submissions = s.submissions) :
    SameQueue s t :=
  ⟨horder, fun id => by unfold Orvek.briefs; rw [hsubs]⟩

section
variable [Sha256] [ContractCodec] [SessionCodec] [StoreCodec] [JsonReader]
variable {s t : SessionState}
variable {operation request : Uuid} {c : SessionCommand ContextView} {x : Submission} {expected : Digest}

/-- **Every other command leaves the queue alone.** -/
theorem apply_sameQueue (hc : c.queues = false) (h : s.apply operation c = .ok t) : SameQueue s t := by
  obtain ⟨u, _, hu, rfl, -⟩ := apply_applied h
  cases hu with
  | submitted | queueMoved | inputEdited | requeued | editedNone | submissionChanged => cases hc
  | shellStarted job =>
    unfold SessionState.shellStarted
    cases job.task <;> exact .modify rfl rfl fun _ => rfl
  | shellPublished | auxiliaryRecorded | auxiliaryPublished => exact .modify rfl rfl fun _ => rfl
  | _ => exact .same rfl rfl

theorem applyAll_sameQueue {frames : List Frame} (hf : ∀ f ∈ frames, f.2.queues = false)
    (h : s.applyAll frames = .ok t) : SameQueue s t :=
  applyAll_relation SameQueue.refl SameQueue.trans (fun f hm _ _ hap => apply_sameQueue (hf f hm) hap) h

/-! ## the queue and the submissions agree -/

/-- a submission waits or runs -/
def waits (s : SessionState) (id : Uuid) : Prop :=
  ∃ status, briefs s id = some (id, status) ∧ status.pending = true

/-- the queue lists every submission that waits or runs, once, and there are at most 16 -/
structure InQueue (s : SessionState) : Prop where
  named : ∀ id b, briefs s id = some b → b.1 = id
  nodup : s.queueOrder.Nodup
  exact : ∀ id, id ∈ s.queueOrder ↔ waits s id
  room : s.queueOrder.length ≤ 16

attribute [grind =] waits

theorem InQueue.same (h : InQueue s) (hsame : SameQueue s t) : InQueue t where
  named id b hb := h.named id b (by rw [← hsame.briefs]; exact hb)
  nodup := by rw [hsame.order]; exact h.nodup
  exact id := by
    rw [hsame.order, h.exact id]
    unfold waits
    rw [hsame.briefs]
  room := by rw [hsame.order]; exact h.room

theorem InQueue.reorder (h : InQueue s) (hbriefs : ∀ id, briefs t id = briefs s id)
    (hperm : t.queueOrder.Perm s.queueOrder) : InQueue t where
  named id b hb := h.named id b (by rw [← hbriefs]; exact hb)
  nodup := hperm.nodup_iff.mpr h.nodup
  exact id := by
    rw [hperm.mem_iff, h.exact id]
    unfold waits
    rw [hbriefs]
  room := by rw [hperm.length_eq]; exact h.room

theorem briefs_of {id : Uuid} (hx : s.submissions[id]? = some x) :
    briefs s id = some x.brief := by rw [briefs, hx]; rfl

theorem InQueue.mem (h : InQueue s) {id : Uuid} (hx : s.submissions[id]? = some x)
    (hpending : x.status.pending = true) : id ∈ s.queueOrder := by
  have hid : x.id = id := h.named id x.brief (briefs_of hx)
  refine (h.exact id).mpr ⟨x.status, ?_, hpending⟩
  rw [briefs_of hx, Submission.brief, hid]

theorem InQueue.count (h : InQueue s) : (pendingOf s).length = s.queueOrder.length := by
  refine Tally.length_filter_values h.nodup fun id => ?_
  rw [h.exact id]
  constructor
  · rintro ⟨status, hb, hp⟩
    obtain ⟨x, hx, hbrief⟩ := Option.map_eq_some_iff.mp hb
    refine ⟨x, hx, ?_⟩
    rw [show x.status = status from (Prod.mk.inj hbrief).2]
    exact hp
  · rintro ⟨x, hx, hp⟩
    exact (h.exact id).mp (h.mem hx hp)

/-! ## the commands of the queue -/

theorem update_eq (hend : c.logical = true) (h : s.apply operation c = .ok t) :
    ∃ u, s.update operation c = .ok u ∧ t = u.record operation c.digest := by
  rcases apply_cases h with ⟨-, hu⟩ | ⟨request, callId, output, u, rfl, -⟩
  · exact hu
  · cases hend

theorem submitted_briefs (hap : s.apply operation (.submitted x) = .ok t) :
    t.queueOrder = s.queueOrder ++ [x.id] ∧
      ∀ id, briefs t id = if x.id = id then some x.brief else briefs s id := by
  obtain ⟨u, hu, rfl⟩ := update_eq rfl hap
  cases hu
  refine ⟨rfl, fun id => ?_⟩
  show (s.submissions.insert x.id x)[id]?.map Submission.brief = _
  rw [Std.ExtTreeMap.getElem?_insert]
  by_cases he : x.id = id
  · rw [if_pos (by simpa using he), if_pos he]
    rfl
  · rw [if_neg (by simpa using he), if_neg he]
    rfl

theorem moved_briefs {before : Option Uuid}
    (hap : s.apply operation (.queueMoved request expected before) = .ok t) :
    t.queueOrder = insertBefore (without s.queueOrder request) before request ∧
      ∀ id, briefs t id = briefs s id := by
  obtain ⟨u, hu, rfl⟩ := update_eq rfl hap
  cases hu
  exact ⟨rfl, fun _ => rfl⟩

theorem edited_briefs {input : Option Digest}
    (hap : s.apply operation (.queueEdited request expected input) = .ok t) :
    (t.queueOrder = s.queueOrder ∨ t.queueOrder = request :: without s.queueOrder request) ∧
      ∀ id, briefs t id = briefs s id := by
  obtain ⟨u, hu, rfl⟩ := update_eq rfl hap
  simp only [SessionState.update] at hu
  split at hu
  · cases input with
    | some input =>
      cases hu
      have hmodify : SameQueue s { s with submissions := s.submissions.modify request fun x =>
          { x with input := input } } := .modify rfl rfl fun _ => rfl
      exact ⟨.inl rfl, hmodify.briefs⟩
    | none =>
      cases hu
      exact ⟨.inr rfl, fun _ => rfl⟩
  · cases hu
    exact ⟨.inl rfl, fun _ => rfl⟩

theorem changed_briefs {status : SubmissionStatus} (hx : s.submissions[request]? = some x)
    (hap : s.apply operation (.submissionChanged request status) = .ok t) :
    t.queueOrder = (if status.pending then s.queueOrder else without s.queueOrder request) ∧
      ∀ id, briefs t id = if request = id then some (x.id, status) else briefs s id := by
  obtain ⟨u, hu, rfl⟩ := update_eq rfl hap
  cases hu
  refine ⟨rfl, fun id => ?_⟩
  show ((s.submissions.modify request fun x => { x with status := status })[id]?).map
    Submission.brief = _
  rw [Std.ExtTreeMap.getElem?_modify]
  by_cases he : request = id
  · rw [if_pos (Std.LawfulEqOrd.compare_eq_iff_eq.mpr he), if_pos he, hx]
    rfl
  · rw [if_neg (fun hc => he (Std.LawfulEqOrd.compare_eq_iff_eq.mp hc)), if_neg he]
    rfl

theorem InQueue.submitted (h : InQueue s) (hfree : s.submissions[x.id]? = none)
    (hqueued : x.status = .queued) (hroom : (pendingOf s).length < 16)
    (hap : s.apply operation (.submitted x) = .ok t) : InQueue t := by
  obtain ⟨horder, hbriefs⟩ := submitted_briefs hap
  have hnew : x.id ∉ s.queueOrder := by
    rw [h.exact]
    rintro ⟨status, hb, -⟩
    rw [briefs, hfree] at hb
    cases hb
  refine ⟨fun id b hb => ?_, ?_, fun id => ?_, ?_⟩
  · rw [hbriefs] at hb
    split at hb
    · cases hb
      assumption
    · exact h.named id b hb
  · rw [horder]
    exact List.nodup_append.mpr ⟨h.nodup, List.nodup_singleton _, fun a ha b hb => by
      rw [List.mem_singleton.mp hb]
      rintro rfl
      exact hnew ha⟩
  · unfold waits
    rw [horder, List.mem_append, h.exact, hbriefs]
    by_cases he : x.id = id
    · subst he
      simp [Submission.brief, hqueued, SubmissionStatus.pending]
    · rw [if_neg he, List.mem_singleton]
      constructor
      · rintro (hw | rfl)
        · exact hw
        · exact absurd rfl he
      · exact .inl
  · rw [h.count] at hroom
    rw [horder, List.length_append, List.length_singleton]
    omega

theorem InQueue.moved (h : InQueue s) {before : Option Uuid} (hx : s.submissions[request]? = some x)
    (hpending : x.status.pending = true)
    (hap : s.apply operation (.queueMoved request expected before) = .ok t) : InQueue t := by
  obtain ⟨horder, hbriefs⟩ := moved_briefs hap
  refine h.reorder hbriefs ?_
  rw [horder]
  exact (insertBefore_perm _ before request).trans (without_perm h.nodup (h.mem hx hpending))

theorem InQueue.edited (h : InQueue s) {input : Option Digest} (hx : s.submissions[request]? = some x)
    (hpending : x.status.pending = true)
    (hap : s.apply operation (.queueEdited request expected input) = .ok t) : InQueue t := by
  obtain ⟨horder | horder, hbriefs⟩ := edited_briefs hap
  · exact h.reorder hbriefs (by rw [horder])
  · refine h.reorder hbriefs ?_
    rw [horder]
    exact without_perm h.nodup (h.mem hx hpending)

theorem transitions_pending {old new : SubmissionStatus} (h : transitions s request old new = true) :
    old.pending = true := by
  cases old <;> first | rfl | cases h

theorem InQueue.changed (h : InQueue s) {status : SubmissionStatus} (hx : s.submissions[request]? = some x)
    (hpending : x.status.pending = true)
    (hap : s.apply operation (.submissionChanged request status) = .ok t) : InQueue t := by
  obtain ⟨horder, hbriefs⟩ := changed_briefs hx hap
  have hid : x.id = request := h.named request x.brief (briefs_of hx)
  have hin := h.mem hx hpending
  rw [hid] at hbriefs
  refine ⟨fun id b hb => ?_, ?_, fun id => ?_, ?_⟩
  · rw [hbriefs] at hb
    split at hb
    · cases hb
      assumption
    · exact h.named id b hb
  · rw [horder]
    split
    · exact h.nodup
    · exact h.nodup.filter _
  · unfold waits
    rw [horder, hbriefs]
    by_cases hp : status.pending = true
    · rw [if_pos hp]
      by_cases he : request = id
      · subst he
        simp [hin, hp]
      · rw [if_neg he, h.exact]
        rfl
    · rw [if_neg hp, without, List.mem_filter, h.exact]
      by_cases he : request = id
      · subst he
        simp [hp]
      · rw [if_neg he]
        simp [waits, Ne.symm he]
  · rw [horder]
    split
    · exact h.room
    · exact Nat.le_trans (List.length_filter_le _ _) h.room

/-! ## every call -/

theorem linkFrames_queues {content : List Value} {task : TaskId} :
    ∀ f ∈ linkFrames operation content task, f.2.queues = false :=
  two_frames rfl rfl

theorem logical_queues (h : c.logical = false) : c.queues = false := by
  cases c <;> first | rfl | cases h

theorem reserved_queues (h : c.reserved = false) : c.queues = false := by
  cases c <;> first | rfl | cases h

/-- **A call of the host keeps the queue in step with the submissions.** -/
theorem CallPlan.inQueue {call : HostCall} {frames : List Frame} (h : InQueue s)
    (hdirect : call.direct = true) (hplan : CallPlan s call frames) (hap : s.applyAll frames = .ok t) :
    InQueue t := by
  cases hplan with
  | nothing =>
    cases hap
    exact h
  | @command session revision operation c _ hnew hframed =>
    have hreserved : c.reserved = false := by simpa [HostCall.direct] using hdirect
    exact h.same (applyAll_sameQueue (hframed.all (reserved_queues hreserved) fun _ => logical_queues) hap)
  | start => exact h.same (applyAll_sameQueue linkFrames_queues hap)
  | resume => exact h.same (applyAll_sameQueue linkFrames_queues hap)
  | edit hnew hx hqueued => exact h.edited hx (by rw [hqueued]; rfl) (applyAll_one.mp hap)
  | submit hfree hnew hroom hid hqueued =>
    exact h.submitted (by rw [hid]; exact hfree) hqueued hroom (applyAll_one.mp hap)
  | «continue» => exact h.same (applyAll_sameQueue linkFrames_queues hap)
  | beginShell =>
    refine h.same (applyAll_sameQueue (fun f hf => ?_) hap)
    cases List.mem_singleton.mp hf
    rfl
  | finishShell => exact h.same (applyAll_sameQueue (two_frames rfl rfl) hap)
  | move hnew hx hqueued => exact h.moved hx (by rw [hqueued]; rfl) (applyAll_one.mp hap)
  | setStatus hnew hx hmoves => exact h.changed hx (transitions_pending hmoves) (applyAll_one.mp hap)

theorem inQueue_create (id : SessionId) (creation : SessionCreation) :
    InQueue (SessionState.create id creation) := by
  refine ⟨fun k b hb => ?_, List.nodup_nil, fun k => ⟨fun h => (nomatch h), ?_⟩, Nat.zero_le _⟩
  · rw [briefs, show (SessionState.create id creation).submissions[k]? = none from
      Std.ExtTreeMap.getElem?_empty] at hb
    cases hb
  · rintro ⟨status, hb, -⟩
    rw [briefs, show (SessionState.create id creation).submissions[k]? = none from
      Std.ExtTreeMap.getElem?_empty] at hb
    cases hb

variable {admits : SessionState → HostCall → Prop} {db : Db} {w : World}

theorem HostReachable.inQueue (h : HostReachable admits db w) {id : SessionId}
    (hs : w.sessions id = some s) : InQueue s :=
  h.session_invariant inQueue_create (fun hP _ hdirect hplan hap => hplan.inQueue hP hdirect hap) hs

/-- **The queue is exact**: after every run of the host, the queue of a session has no duplicate,
lists exactly the submissions that wait or run, and there are at most 16 of them. -/
theorem queue_exact (h : HostReachable (fun _ _ => True) db w) {id : SessionId}
    (hs : w.sessions id = some s) :
    s.queueOrder.Nodup ∧ (∀ request, request ∈ s.queueOrder ↔ ∃ x ∈ pendingOf s, x.id = request) ∧
      (pendingOf s).length ≤ 16 := by
  have hq := h.inQueue hs
  refine ⟨hq.nodup, fun request => ?_, by rw [hq.count]; exact hq.room⟩
  rw [hq.exact request]
  constructor
  · rintro ⟨status, hb, hp⟩
    obtain ⟨x, hx, hbrief⟩ := Option.map_eq_some_iff.mp hb
    obtain ⟨hid, rfl⟩ := Prod.mk.inj hbrief
    exact ⟨x, List.mem_filter.mpr ⟨mem_valuesOf.mpr ⟨request, hx⟩, hp⟩, hid⟩
  · rintro ⟨x, hx, rfl⟩
    obtain ⟨hm, hp⟩ := List.mem_filter.mp hx
    obtain ⟨k, hk⟩ := mem_valuesOf.mp hm
    rw [show x.id = k from hq.named k x.brief (briefs_of hk)]
    exact (hq.exact k).mp (hq.mem hk hp)

end

open Sample in
theorem queue_exact_claimed : ∃ db w, HostReachable (fun _ _ => True) db w ∧
    w.sessions sessionId = some claimed ∧ ordinaryId ∈ claimed.queueOrder ∧
    ∃ x ∈ pendingOf claimed, x.id = ordinaryId := by
  obtain ⟨db, w, hr, hs, -⟩ := @hostReachable_claimed (fun _ _ => True) trivial trivial
  have hin : ordinaryId ∈ claimed.queueOrder := by decide
  exact ⟨db, w, hr, hs, hin, ((queue_exact hr hs).2.1 ordinaryId).mp hin⟩

end Orvek
