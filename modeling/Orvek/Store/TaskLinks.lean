import Orvek.Store.Started

/-!
# The task of a request

A request is linked to its task by the call that begins it, and every call that begins or takes up a
task asks first whether its request is linked already.

* `LinksRecorded`     a linked request is among the operations of its session;
* `ContinuesLinked`   what a call must meet so that the links stay: a request that is linked is
                      continued with its own task (`CallPlan.keeps_link`);
* `KeepsLinks`        and so that what is recorded under a link stays: what a call derives from its
                      own identifier is not the identifier of a linked request;
* `CallPlan.intent`   every call keeps what a submission asks for.
-/

set_option linter.unusedSectionVars false

namespace Orvek
open Checks Json

def SessionCommand.links {V : Type} (operation : Uuid) : SessionCommand V → Option (Uuid × TaskId)
  | .taskLinked request task => some (request, task)
  | .shellStarted job => job.task.map fun task => (operation, task)
  | _ => none

def SessionCommand.linking {V : Type} : SessionCommand V → Bool
  | .taskLinked .. => true
  | .shellStarted .. => true
  | _ => false

theorem links_of_not_linking {V : Type} {c : SessionCommand V} (h : c.linking = false)
    (operation : Uuid) : c.links operation = none := by
  cases c <;> first | rfl | cases h

/-- the links after a command -/
def linkedBy (links : BTreeMap Uuid TaskId) : Option (Uuid × TaskId) → BTreeMap Uuid TaskId
  | some (request, task) => links.insert request task
  | none => links

section
variable [Sha256] [ContractCodec] [SessionCodec] [StoreCodec] [JsonReader]
variable {s t : SessionState}
variable {operation request : Uuid} {c : SessionCommand ContextView} {content : List Value} {task : TaskId}
  {call : HostCall}

/-- **A command changes the links as it says.** -/
theorem apply_links (h : s.apply operation c = .ok t) :
    t.tasksByRequest = linkedBy s.tasksByRequest (c.links operation) := by
  obtain ⟨u, _, hu, rfl, -⟩ := apply_applied h
  show u.tasksByRequest = _
  cases hu with
  | shellStarted job =>
    show _ = linkedBy s.tasksByRequest (job.task.map fun task => (operation, task))
    unfold SessionState.shellStarted
    cases job.task <;> rfl
  | _ => rfl

/-! ## frames -/

theorem applyAll_link {frames : List Frame}
    (hf : ∀ f ∈ frames, ∀ r task, f.2.links f.1 = some (r, task) → r ≠ request)
    (h : s.applyAll frames = .ok t) : t.tasksByRequest[request]? = s.tasksByRequest[request]? := by
  refine applyAll_relation (R := fun s t => t.tasksByRequest[request]? = s.tasksByRequest[request]?)
    (fun _ => rfl) (fun h h' => h'.trans h) (fun f hm u v hap => ?_) h
  rw [apply_links hap]
  cases hl : f.2.links f.1 with
  | none => rfl
  | some link =>
    have hne := hf f hm link.1 link.2 hl
    show (u.tasksByRequest.insert link.1 link.2)[request]? = _
    rw [Std.ExtTreeMap.getElem?_insert, if_neg (by simpa using hne)]

theorem applyAll_recorded {frames : List Frame} (hf : ∀ f ∈ frames, f.1 ≠ request)
    (h : s.applyAll frames = .ok t) : t.operations[request]? = s.operations[request]? := by
  refine applyAll_relation (R := fun s t => t.operations[request]? = s.operations[request]?)
    (fun _ => rfl) (fun h h' => h'.trans h) (fun f hm u v hap => ?_) h
  obtain ⟨digest, hops, -⟩ := apply_operations hap
  rw [hops, Std.ExtTreeMap.getElem?_insert, if_neg (by simpa using hf f hm)]

def LinksRecorded (s : SessionState) : Prop := ∀ request ∈ s.tasksByRequest, request ∈ s.operations

theorem LinksRecorded.frame (h : LinksRecorded s) {f : Frame} (hap : s.apply f.1 f.2 = .ok t)
    (hlink : ∀ r task, f.2.links f.1 = some (r, task) → r ∈ t.operations) : LinksRecorded t := by
  intro request hr
  rw [apply_links hap] at hr
  have hold : ∀ r ∈ s.tasksByRequest, r ∈ t.operations :=
    fun r hm => (mem_operations hap).mpr (.inr (h r hm))
  cases hl : f.2.links f.1 with
  | none =>
    rw [hl] at hr
    exact hold request hr
  | some link =>
    rw [hl] at hr
    have hr' : request ∈ s.tasksByRequest.insert link.1 link.2 := hr
    rw [Std.ExtTreeMap.mem_insert] at hr'
    rcases hr' with he | hm
    · rw [← show link.1 = request by simpa using he]
      exact hlink link.1 link.2 hl
    · exact hold request hm

theorem LinksRecorded.frames (h : LinksRecorded s) {frames : List Frame}
    (hf : ∀ f ∈ frames, f.2.linking = false) (hap : s.applyAll frames = .ok t) : LinksRecorded t := by
  induction frames generalizing s with
  | nil =>
    cases hap
    exact h
  | cons f frames ih =>
    obtain ⟨u, hu, hap⟩ := applyAll_cons hap
    refine ih (h.frame hu fun r task hl => ?_) (fun g hg => hf g (List.mem_cons_of_mem f hg)) hap
    rw [links_of_not_linking (hf f List.mem_cons_self)] at hl
    cases hl

theorem linkFrames_apply (hap : s.applyAll (linkFrames operation content task) = .ok t) :
    ∃ u, s.apply operation (.input .task content) = .ok u ∧
      u.apply (operation.named "task-link") (.taskLinked operation task) = .ok t := by
  obtain ⟨u, hu, hap⟩ := applyAll_cons hap
  exact ⟨u, hu, applyAll_one.mp hap⟩

theorem linkFrames_linked (hap : s.applyAll (linkFrames operation content task) = .ok t) :
    t.tasksByRequest[operation]? = some task := by
  obtain ⟨u, -, hlink⟩ := linkFrames_apply hap
  rw [apply_links hlink]
  exact Std.ExtTreeMap.getElem?_insert_self

theorem linkFrames_recorded (hap : s.applyAll (linkFrames operation content task) = .ok t)
    (hne : operation.named "task-link" ≠ operation) :
    t.operations[operation]? = some (SessionCommand.digest (.input .task content)) := by
  obtain ⟨u, hinput, hlink⟩ := linkFrames_apply hap
  obtain ⟨d, hops, hd⟩ := apply_operations hinput
  obtain ⟨d', hops', -⟩ := apply_operations hlink
  rw [hops', Std.ExtTreeMap.getElem?_insert, if_neg (by simpa using hne), hops,
    Std.ExtTreeMap.getElem?_insert_self, hd fun _ _ _ h => (nomatch h)]

theorem LinksRecorded.link (h : LinksRecorded s)
    (hap : s.applyAll (linkFrames operation content task) = .ok t) : LinksRecorded t := by
  obtain ⟨u, hinput, hlink⟩ := linkFrames_apply hap
  have hu : LinksRecorded u := h.frame (f := (operation, .input .task content)) hinput
    fun r task hl => (nomatch hl)
  refine hu.frame (f := (operation.named "task-link", .taskLinked operation task)) hlink fun r k hl => ?_
  cases hl
  exact (mem_operations hlink).mpr (.inr ((mem_operations hinput).mpr (.inl rfl)))

/-! ## calls -/

/-- the identifier that a call is made with -/
def HostCall.own : HostCall → Uuid
  | .command _ _ operation _ | .startTask _ operation .. | .startRequest _ operation ..
  | .startPreparedRequest _ operation .. | .resumeTask _ operation .. | .editSubmission _ operation ..
  | .moveSubmission _ operation .. | .setSubmissionStatus _ _ _ operation => operation
  | .submit _ id .. => id
  | .continueSubmission _ request | .beginShell _ request _ | .finishShell _ request _ => request

def HostCall.derived : HostCall → List Uuid
  | .command _ _ operation (.toolResult request callId output) =>
    (partFrames operation request callId 0 (textParts output.toList.length output.toList)).map Prod.fst
  | .startTask _ operation .. | .startRequest _ operation .. | .startPreparedRequest _ operation ..
  | .resumeTask _ operation .. | .continueSubmission _ operation => [operation.named "task-link"]
  | .submit _ id .. => [id.named "submitted"]
  | .finishShell _ request _ => [request.named "shell-published", request.named "shell-settled"]
  | _ => []

theorem ids_own_derived : ∀ id ∈ call.ids, id = call.own ∨ id ∈ call.derived := by
  intro id hid
  cases call with
  | command session revision operation c => cases c <;> exact List.mem_cons.mp hid
  | submit => exact .inr hid
  | finishShell => exact .inr hid
  | _ => exact List.mem_cons.mp hid

def ContinuesLinked (s : SessionState) (call : HostCall) : Prop :=
  ∀ session request x task linked, call = .continueSubmission session request →
    s.submissions[request]? = some x → continuedTask s x.intent = .ok task →
    s.tasksByRequest[request]? = some linked → task = linked

/-- and what the call derives from its own identifier is not the identifier of a linked request -/
structure KeepsLinks (s : SessionState) (call : HostCall) : Prop where
  continues : ContinuesLinked s call
  derives : ∀ id ∈ call.derived, id ≠ call.own ∧ id ∉ s.tasksByRequest

theorem mem_links (h : s.tasksByRequest[request]? = some task) : request ∈ s.tasksByRequest := by
  rw [Std.ExtTreeMap.mem_iff_isSome_getElem?, h]
  rfl

theorem not_mem_links (h : s.tasksByRequest[request]? = none) : request ∉ s.tasksByRequest := by
  rw [Std.ExtTreeMap.mem_iff_isSome_getElem?, h]
  simp

theorem reserved_linking (h : c.reserved = false) : c.linking = false := by
  cases c <;> first | rfl | cases h

theorem logical_linking (h : c.logical = false) : c.linking = false := by
  cases c <;> first | rfl | cases h

theorem starts_own (h : call.starts = some (operation, task)) : call.own = operation := by
  cases call <;> first | cases h; rfl | cases h

theorem linkFrames_links {f : Frame} (hf : f ∈ linkFrames operation content task) {r : Uuid} {k : TaskId}
    (hl : f.2.links f.1 = some (r, k)) : r = operation := by
  simp only [linkFrames, List.mem_cons, List.not_mem_nil, or_false] at hf
  rcases hf with rfl | rfl <;> cases hl
  rfl

theorem CallPlan.links_own {frames : List Frame} (hdirect : call.direct = true)
    (hplan : CallPlan s call frames) : ∀ f ∈ frames, ∀ r task, f.2.links f.1 = some (r, task) →
      r = call.own := by
  intro f hf r task hl
  cases hplan with
  | nothing => cases hf
  | @command session revision operation c _ hnew hframed =>
    have hreserved : c.reserved = false := by simpa [HostCall.direct] using hdirect
    rw [links_of_not_linking (hframed.all (q := fun c => c.linking = false)
      (reserved_linking hreserved) (fun _ => logical_linking) f hf)] at hl
    cases hl
  | start content hstarts =>
    rw [starts_own hstarts]
    exact linkFrames_links hf hl
  | resume => exact linkFrames_links hf hl
  | «continue» => exact linkFrames_links hf hl
  | beginShell =>
    cases List.mem_singleton.mp hf
    obtain ⟨k, -, he⟩ := Option.map_eq_some_iff.mp hl
    exact (Prod.mk.inj he).1.symm
  | finishShell =>
    simp only [List.mem_cons, List.not_mem_nil, or_false] at hf
    rcases hf with rfl | rfl <;> cases hl
  | _ =>
    cases List.mem_singleton.mp hf
    cases hl

theorem CallPlan.own_free {frames : List Frame} (h : LinksRecorded s) (hcontinues : ContinuesLinked s call)
    (hplan : CallPlan s call frames) :
    call.own ∉ s.tasksByRequest ∨
      ∀ f ∈ frames, f.1 ∈ call.derived ∧ ∀ r task, f.2.links f.1 ≠ some (r, task) := by
  cases hplan with
  | nothing => exact .inr fun f hf => nomatch hf
  | command hnew hframed => exact .inl fun hm => hnew (h _ hm)
  | start content hstarts hfree =>
    rw [starts_own hstarts]
    exact .inl (not_mem_links hfree)
  | resume hfree hnew => exact .inl (not_mem_links hfree)
  | edit hnew => exact .inl fun hm => hnew (h _ hm)
  | submit hfree hnew => exact .inl fun hm => hnew (h _ hm)
  | @«continue» session request x task content hx hrunning htask hcurrent hother =>
    refine .inl fun hm => ?_
    obtain ⟨linked, hlinked⟩ := Option.isSome_iff_exists.mp
      (Std.ExtTreeMap.mem_iff_isSome_getElem?.mp hm)
    have hlinked' : s.tasksByRequest[request]? = some linked := hlinked
    rw [hcontinues session request x task linked rfl hx htask hlinked'] at hother
    exact hother hlinked'
  | beginShell hx hrunning hnew => exact .inl fun hm => hnew (h _ hm)
  | finishShell =>
    exact .inr (two_frames ⟨List.mem_cons_self, fun r task hl => nomatch hl⟩
      ⟨List.mem_cons_of_mem _ List.mem_cons_self, fun r task hl => nomatch hl⟩)
  | move hnew => exact .inl fun hm => hnew (h _ hm)
  | setStatus hnew => exact .inl fun hm => hnew (h _ hm)

/-- **A call that continues no other task keeps every link.** -/
theorem CallPlan.keeps_link {frames : List Frame} (h : LinksRecorded s)
    (hcontinues : ContinuesLinked s call) (hdirect : call.direct = true) (hplan : CallPlan s call frames)
    (hap : s.applyAll frames = .ok t) (hr : request ∈ s.tasksByRequest) :
    t.tasksByRequest[request]? = s.tasksByRequest[request]? := by
  refine applyAll_link (fun f hf r task hl he => ?_) hap
  rcases hplan.own_free h hcontinues with hfree | hderived
  · rw [← hplan.links_own hdirect f hf r task hl, he] at hfree
    exact hfree hr
  · exact (hderived f hf).2 r task hl

/-- **What is recorded under a linked request stays** when no identifier is derived twice. -/
theorem CallPlan.keeps_record {frames : List Frame} (h : LinksRecorded s) (hkeeps : KeepsLinks s call)
    (hplan : CallPlan s call frames) (hap : s.applyAll frames = .ok t) (hr : request ∈ s.tasksByRequest) :
    t.operations[request]? = s.operations[request]? := by
  refine applyAll_recorded (fun f hf he => ?_) hap
  have hderived : f.1 ∉ call.derived := fun hid => (hkeeps.derives f.1 hid).2 (he ▸ hr)
  rcases hplan.own_free h hkeeps.continues with hfree | hall
  · rcases ids_own_derived f.1 (hplan.ids f hf) with hown | hid
    · rw [← hown, he] at hfree
      exact hfree hr
    · exact hderived hid
  · exact hderived (hall f hf).1

theorem CallPlan.linksRecorded {frames : List Frame} (h : LinksRecorded s) (hdirect : call.direct = true)
    (hplan : CallPlan s call frames) (hap : s.applyAll frames = .ok t) : LinksRecorded t := by
  cases hplan with
  | nothing =>
    cases hap
    exact h
  | @command session revision operation c _ hnew hframed =>
    have hreserved : c.reserved = false := by simpa [HostCall.direct] using hdirect
    exact h.frames (hframed.all (reserved_linking hreserved) fun _ => logical_linking) hap
  | start => exact h.link hap
  | resume => exact h.link hap
  | «continue» => exact h.link hap
  | @beginShell session request job x hx hrunning hnew =>
    have hone := applyAll_one.mp hap
    refine h.frame hone fun r task hl => ?_
    obtain ⟨k, -, he⟩ := Option.map_eq_some_iff.mp hl
    rw [← (Prod.mk.inj he).1]
    exact (mem_operations hone).mpr (.inl rfl)
  | finishShell => exact h.frames (two_frames rfl rfl) hap
  | _ =>
    refine h.frames (fun f hf => ?_) hap
    cases List.mem_singleton.mp hf
    rfl

theorem linksRecorded_create (id : SessionId) (creation : SessionCreation) :
    LinksRecorded (SessionState.create id creation) := by
  intro request hr
  exact absurd hr (not_mem_links (show (SessionState.create id creation).tasksByRequest[request]? = none
    from Std.ExtTreeMap.getElem?_empty))

/-! ## what a submission asks for -/

def intentOf (s : SessionState) (id : Uuid) : Option WorkIntent :=
  s.submissions[id]?.map Submission.intent

theorem intentOf_modify {f : Submission → Submission}
    (hsubs : t.submissions = s.submissions.modify request f) (hf : ∀ x, (f x).intent = x.intent) (id : Uuid) :
    intentOf t id = intentOf s id := by
  unfold intentOf
  rw [hsubs, Std.ExtTreeMap.getElem?_modify]
  split
  · rename_i he
    rw [Std.LawfulEqOrd.compare_eq_iff_eq.mp he, Option.map_map]
    exact congrFun (congrArg Option.map (funext hf)) _
  · rfl

theorem apply_intent (h : s.apply operation c = .ok t) {id : Uuid} (hc : ∀ x, c = .submitted x → x.id ≠ id)
    :
    intentOf t id = intentOf s id := by
  obtain ⟨u, _, hu, rfl, -⟩ := apply_applied h
  show intentOf u id = _
  cases hu with
  | shellStarted job =>
    unfold SessionState.shellStarted
    cases job.task <;> exact intentOf_modify rfl (by intro x; rfl) id
  | shellPublished | auxiliaryRecorded | auxiliaryPublished | submissionChanged | inputEdited =>
    exact intentOf_modify rfl (by intro x; rfl) id
  | submitted x =>
    show (s.submissions.insert x.id x)[id]?.map Submission.intent = _
    rw [Std.ExtTreeMap.getElem?_insert, if_neg (by simpa using hc x rfl)]
    rfl
  | _ => rfl

theorem queues_submitted (h : c.queues = false) {x : Submission} : c ≠ .submitted x := by
  rintro rfl
  cases h

/-- **A submission that is there keeps its intent.** -/
theorem CallPlan.intent {frames : List Frame} (hdirect : call.direct = true)
    (hplan : CallPlan s call frames) (hap : s.applyAll frames = .ok t) {id : Uuid}
    (hid : (s.submissions[id]?).isSome = true) : intentOf t id = intentOf s id := by
  have hframes : ∀ f ∈ frames, ∀ x, f.2 = .submitted x → x.id ≠ id := by
    intro f hf x hx
    cases hplan with
    | nothing => cases hf
    | @command session revision operation c _ hnew hframed =>
      have hreserved : c.reserved = false := by simpa [HostCall.direct] using hdirect
      exact absurd hx (queues_submitted (hframed.all (q := fun c => c.queues = false)
        (reserved_queues hreserved) (fun _ => logical_queues) f hf))
    | start => exact absurd hx (queues_submitted (linkFrames_queues f hf))
    | resume => exact absurd hx (queues_submitted (linkFrames_queues f hf))
    | «continue» => exact absurd hx (queues_submitted (linkFrames_queues f hf))
    | finishShell =>
      simp only [List.mem_cons, List.not_mem_nil, or_false] at hf
      rcases hf with rfl | rfl <;> cases hx
    | submit hfree hnew hroom hname hqueued =>
      cases List.mem_singleton.mp hf
      cases hx
      rintro rfl
      rw [← hname] at hfree
      rw [hfree] at hid
      cases hid
    | _ =>
      cases List.mem_singleton.mp hf
      cases hx
  clear hplan hdirect hid
  induction frames generalizing s with
  | nil =>
    cases hap
    rfl
  | cons f frames ih =>
    obtain ⟨u, hu, hap⟩ := applyAll_cons hap
    exact (ih hap fun g hg => hframes g (List.mem_cons_of_mem f hg)).trans
      (apply_intent hu (hframes f List.mem_cons_self))

end

end Orvek
