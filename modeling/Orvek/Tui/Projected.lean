import Orvek.Tui.HostProjection
import Orvek.Lib.Fifo

/-!
# What a projection shows

* `Core`, `moved`            what decides what is shown of later frames, and how a command moves it;
* `apply_cases`              a frame leaves the core as it is, or is a command of the session;
* `Bounded`                  few auxiliaries, few tasks, each task once;
* `projection_bounded`       **over any frames;**
* `task_followed`            **a task is followed until as many others as there is room for are linked after it;**
* `confirmed_silent`         **a confirmed item has no more previews, as long as its request does not begin again;**
* `hidden_silent`            **a request that is hidden neither begins nor has previews, whatever else is forgotten.**
-/

set_option linter.unusedSectionVars false

namespace Orvek.Tui
open Json Inference Fifo

/-- the part of a projection that decides what is shown of later frames -/
structure Core where
  session : SessionId
  activeRequest : Option Uuid
  confirmedItems : BTreeSet String
  auxiliary : BTreeMap Uuid Bool
  tasks : BTreeSet TaskId
  taskOrder : List TaskId

namespace HostProjection

def core (p : HostProjection) : Core :=
  ⟨p.session, p.activeRequest, p.confirmedItems, p.auxiliary, p.tasks, p.taskOrder⟩

/-- how a command moves the core -/
def moved (p : HostProjection) (operation : Uuid) : SessionCommand StoredView → HostProjection
  | .auxiliaryStarted => if p.auxiliary[operation]? = some true then p.begin operation else p
  | .auxiliaryPublished request .. => p.finish request
  | .submitted submission =>
    match previewVisible submission.intent with
    | some visible => p.classifyAuxiliary submission.id visible
    | none => p
  | .input .. => p.begin operation
  | .response request items => p.confirm request items
  | .taskLinked _ task => p.link task
  | .turnSettled request .. =>
    let settled := { p with auxiliary := p.auxiliary.erase request }
    if p.auxiliary[request]? = some false then settled else settled.finish request
  | _ => p

section
variable [Sha256] [EventReader] {p q : HostProjection}
variable {r : JournalRecord} {operation : Uuid} {c : SessionCommand StoredView}

def recorded (session : SessionId) : WatchFrame → Option (Uuid × SessionCommand StoredView)
  | .journal r =>
    if r.kind = "session" ∧ r.aggregate = session.display then
      match EventReader.session r.event with
      | .ok (.command operation command _) => some (operation, command)
      | _ => none
    else none
  | _ => none

/-! ## one frame -/

theorem core_command (p : HostProjection) (operation : Uuid) (c : SessionCommand StoredView) :
    (p.command operation c).2.core = (p.moved operation c).core := by
  cases c with
  | auxiliaryStarted =>
    rw [command, moved]
    split <;> rfl
  | toolResultPart request callId offset output =>
    show (p.command operation (.toolResultPart request callId offset output)).2.core = p.core
    rw [command]
    split <;> rfl
  | toolResultEnd request callId digest =>
    show (p.command operation (.toolResultEnd request callId digest)).2.core = p.core
    rw [command]
    split <;> rfl
  | turnSettled request outcome error =>
    simp only [command, moved]
    split <;> rfl
  | _ => rfl

/-- a core is moved in the same way, whatever the rest of the projection is -/
theorem core_moved (h : q.core = p.core) (operation : Uuid) (c : SessionCommand StoredView) :
    (q.moved operation c).core = (p.moved operation c).core := by
  obtain ⟨_, _, _, _, _, _, _, _, _, _, _⟩ := p
  obtain ⟨_, _, _, _, _, _, _, _, _, _, _⟩ := q
  simp only [core, Core.mk.injEq] at h
  obtain ⟨rfl, rfl, rfl, rfl, rfl, rfl⟩ := h
  cases c with
  | auxiliaryStarted =>
    simp only [moved]
    split <;> rfl
  | auxiliaryPublished request report text =>
    simp only [moved, finish]
    split <;> rfl
  | submitted submission =>
    simp only [moved]
    split <;> rfl
  | response request items =>
    simp only [moved, confirm]
    split <;> rfl
  | taskLinked request task =>
    simp only [moved, link]
    split
    · rfl
    · split
      · split <;> rfl
      · rfl
  | turnSettled request outcome error =>
    simp only [moved, finish]
    split
    · rfl
    · split <;> rfl
  | _ => rfl

theorem apply_recorded (hnew : p.sequence < r.sequence)
    (h : recorded p.session (.journal r) = some (operation, c)) :
    (p.apply (.journal r)).2.core = (p.moved operation c).core := by
  rw [apply, journal, if_neg (by omega)]
  show (p.record r).2.core = _
  rw [record]
  rw [recorded] at h
  split at h
  · rename_i hsession
    rw [if_pos hsession]
    split at h
    · rename_i op command atMs hevent
      obtain ⟨rfl, rfl⟩ := Prod.mk.inj (Option.some.inj h)
      simp only [hevent]
      have hcore : ({ p with revision := r.revision, recordedMs := atMs } : HostProjection).core = p.core := rfl
      exact (core_command _ op command).trans (core_moved hcore op command)
    · cases h
  · cases h

/-- **A frame leaves the core as it is, or records a command of the session.** -/
theorem apply_cases (p : HostProjection) (f : WatchFrame) : (p.apply f).2.core = p.core ∨
    ∃ operation c, recorded p.session f = some (operation, c) ∧ (p.apply f).2.core = (p.moved operation c).core := by
  cases f with
  | journal r =>
    by_cases hnew : p.sequence < r.sequence
    · cases hrecorded : recorded p.session (.journal r) with
      | some command => exact .inr ⟨command.1, command.2, rfl, apply_recorded hnew hrecorded⟩
      | none =>
        refine .inl ?_
        rw [apply, journal, if_neg (by omega)]
        show (p.record r).2.core = _
        rw [record]
        rw [recorded] at hrecorded
        split
        · rename_i hsession
          rw [if_pos hsession] at hrecorded
          split
          · rename_i event hevent
            rw [hevent] at hrecorded
            cases event with
            | created creation => rfl
            | command operation c atMs => cases hrecorded
          · rfl
        · split
          · split
            · split <;> rfl
            · rfl
          · rfl
    · refine .inl ?_
      rw [apply, journal, if_pos (by omega)]
  | preview session request delta =>
    rw [apply]
    split <;> exact .inl rfl
  | warnings | previewGap | subagent | ready => exact .inl rfl

@[simp] theorem session_finish (p : HostProjection) (request : Uuid) : (p.finish request).session = p.session := by
  rw [finish]
  split <;> rfl

theorem session_moved (p : HostProjection) (operation : Uuid) (c : SessionCommand StoredView) :
    (p.moved operation c).session = p.session := by
  cases c with
  | auxiliaryStarted =>
    rw [moved]
    split <;> rfl
  | auxiliaryPublished request report text => exact session_finish p request
  | submitted submission =>
    rw [moved]
    split <;> rfl
  | response request items =>
    rw [moved, confirm]
    split <;> rfl
  | taskLinked request task =>
    rw [moved, link]
    split
    · rfl
    · dsimp only
      split
      · split <;> rfl
      · rfl
  | turnSettled request outcome error =>
    simp only [moved]
    split
    · rfl
    · exact session_finish _ request
  | _ => rfl

@[simp] theorem session_apply (p : HostProjection) (f : WatchFrame) : (p.apply f).2.session = p.session := by
  rcases apply_cases p f with hcore | ⟨operation, c, -, hcore⟩
  · exact congrArg Core.session hcore
  · exact (congrArg Core.session hcore).trans (session_moved p operation c)

theorem run_cons (p : HostProjection) (f : WatchFrame) (frames : List WatchFrame) :
    (p.run (f :: frames)).2 = ((p.apply f).2.run frames).2 := rfl

@[simp] theorem session_run (p : HostProjection) (frames : List WatchFrame) : (p.run frames).2.session = p.session := by
  induction frames generalizing p with
  | nil => rfl
  | cons f frames ih => exact (ih _).trans (session_apply p f)

theorem run_core {I : Core → Prop} {frames : List WatchFrame}
    (hstep : ∀ (p : HostProjection) (operation : Uuid) (c : SessionCommand StoredView), I p.core → p.session = q.session →
      (∃ f ∈ frames, recorded q.session f = some (operation, c)) → I (p.moved operation c).core)
    (h : I q.core) : I (q.run frames).2.core := by
  induction frames generalizing q with
  | nil => exact h
  | cons f frames ih =>
    have hfirst : I (q.apply f).2.core := by
      rcases apply_cases q f with hcore | ⟨operation, c, hrecorded, hcore⟩
      · exact hcore ▸ h
      · exact hcore ▸ hstep q operation c h rfl ⟨f, List.mem_cons_self, hrecorded⟩
    rw [run_cons]
    refine ih (q := (q.apply f).2) (fun p operation c hp hsession hmem => ?_) hfirst
    obtain ⟨g, hg, hrecorded⟩ := hmem
    rw [session_apply] at hsession hrecorded
    exact hstep p operation c hp hsession ⟨g, List.mem_cons_of_mem f hg, hrecorded⟩

/-! ## bounds -/

/-- few auxiliaries, few tasks, and each task once -/
structure Bounded (c : Core) : Prop where
  auxiliary : c.auxiliary.size ≤ maxAuxiliary
  tasks : ∀ t, t ∈ c.tasks ↔ t ∈ c.taskOrder
  nodup : c.taskOrder.Nodup
  order : c.taskOrder.length ≤ maxTasks

theorem size_trimAuxiliary : ∀ (fuel : Nat) (auxiliary : BTreeMap Uuid Bool), auxiliary.size ≤ maxAuxiliary + fuel →
    (trimAuxiliary fuel auxiliary).size ≤ maxAuxiliary
  | 0, auxiliary, h => h
  | fuel + 1, auxiliary, h => by
    rw [trimAuxiliary]
    split
    · rename_i hmany
      split
      · rename_i key hkey
        have hmem : key ∈ auxiliary := Std.ExtTreeMap.minKey?_mem hkey
        refine size_trimAuxiliary fuel _ ?_
        rw [Std.ExtTreeMap.size_erase, if_pos (Std.ExtTreeMap.contains_iff_mem.mpr hmem)]
        omega
      · rename_i hkey
        have hempty := Std.ExtTreeMap.minKey?_eq_none_iff.mp hkey
        rw [Std.ExtTreeMap.eq_empty_iff_size_eq_zero.mp hempty]
        exact Nat.zero_le _
    · omega

theorem trimAuxiliary_getElem? (request : Uuid) : ∀ (fuel : Nat) (auxiliary : BTreeMap Uuid Bool),
    (trimAuxiliary fuel auxiliary)[request]? = none ∨ (trimAuxiliary fuel auxiliary)[request]? = auxiliary[request]?
  | 0, auxiliary => .inr rfl
  | fuel + 1, auxiliary => by
    rw [trimAuxiliary]
    split
    · split
      · rename_i key hkey
        rcases trimAuxiliary_getElem? request fuel (auxiliary.erase key) with h | h
        · exact .inl h
        · rw [h, Std.ExtTreeMap.getElem?_erase]
          split
          · exact .inl rfl
          · exact .inr rfl
      · exact .inr rfl
    · exact .inr rfl

theorem taskOrder_link (h : Bounded p.core) (task : TaskId) : (p.link task).taskOrder = push maxTasks task p.taskOrder := by
  have hmem : task ∈ p.tasks ↔ task ∈ p.taskOrder := h.tasks task
  rw [link, push]
  by_cases hknown : task ∈ p.tasks
  · rw [if_pos hknown, if_pos (hmem.mp hknown)]
  · rw [if_neg hknown, if_neg (fun hin => hknown (hmem.mpr hin))]
    dsimp only
    split
    · split
      · rename_i oldest order heq
        rw [heq]
        rfl
      · rename_i heq
        rw [heq]
        rfl
    · rfl

theorem mem_tasks_link (h : Bounded p.core) (task t : TaskId) : t ∈ (p.link task).tasks ↔ t ∈ (p.link task).taskOrder := by
  have hmem : ∀ t, t ∈ p.tasks ↔ t ∈ p.taskOrder := h.tasks
  have hnodup : p.taskOrder.Nodup := h.nodup
  rw [link]
  by_cases hknown : task ∈ p.tasks
  · rw [if_pos hknown]
    exact hmem t
  · have hinsert : t ∈ p.tasks.insert task ↔ t ∈ p.taskOrder ++ [task] := by
      rw [Std.ExtTreeSet.mem_insert, Std.LawfulEqCmp.compare_eq_iff_eq, List.mem_append, List.mem_singleton, hmem]
      exact ⟨fun h => h.symm.imp_right Eq.symm, fun h => h.symm.imp_left Eq.symm⟩
    have hdistinct : (p.taskOrder ++ [task]).Nodup :=
      List.Nodup.append hnodup (List.nodup_singleton task) fun x hx hxt =>
        hknown ((hmem task).mpr (List.mem_singleton.mp hxt ▸ hx))
    rw [if_neg hknown]
    dsimp only
    split
    · split
      · rename_i oldest order heq
        rw [heq] at hinsert hdistinct
        have hgone : oldest ∉ order := (List.nodup_cons.mp hdistinct).1
        show t ∈ (p.tasks.insert task).erase oldest ↔ t ∈ order
        rw [Std.ExtTreeSet.mem_erase, hinsert, List.mem_cons, ne_eq, Std.LawfulEqCmp.compare_eq_iff_eq]
        constructor
        · rintro ⟨hne, rfl | ht⟩
          · exact (hne rfl).elim
          · exact ht
        · exact fun ht => ⟨fun heq => hgone (heq ▸ ht), .inr ht⟩
      · exact hinsert
    · exact hinsert

@[simp] theorem auxiliary_link (p : HostProjection) (task : TaskId) : (p.link task).auxiliary = p.auxiliary := by
  rw [link]
  split
  · rfl
  · dsimp only
    split
    · split <;> rfl
    · rfl

@[simp] theorem auxiliary_finish (p : HostProjection) (request : Uuid) : (p.finish request).auxiliary = p.auxiliary := by
  rw [finish]
  split <;> rfl

theorem bounded_link (h : Bounded p.core) (task : TaskId) : Bounded (p.link task).core where
  auxiliary := by
    show (p.link task).auxiliary.size ≤ maxAuxiliary
    rw [auxiliary_link]
    exact h.auxiliary
  tasks := mem_tasks_link h task
  nodup := by
    show (p.link task).taskOrder.Nodup
    rw [taskOrder_link h]
    exact push_nodup h.nodup
  order := by
    show (p.link task).taskOrder.length ≤ maxTasks
    rw [taskOrder_link h]
    exact length_push h.order

theorem Bounded.tasks_of (h : Bounded p.core) (hauxiliary : q.auxiliary.size ≤ maxAuxiliary) (htasks : q.tasks = p.tasks)
    (horder : q.taskOrder = p.taskOrder) : Bounded q.core where
  auxiliary := hauxiliary
  tasks t := by
    show t ∈ q.tasks ↔ t ∈ q.taskOrder
    rw [htasks, horder]
    exact h.tasks t
  nodup := by
    show q.taskOrder.Nodup
    rw [horder]
    exact h.nodup
  order := by
    show q.taskOrder.length ≤ maxTasks
    rw [horder]
    exact h.order

theorem bounded_classify (h : Bounded p.core) (request : Uuid) (visible : Bool) :
    Bounded (p.classifyAuxiliary request visible).core := by
  refine h.tasks_of ?_ rfl rfl
  exact size_trimAuxiliary _ _ (Nat.le_add_left _ _)

theorem bounded_finish (h : Bounded p.core) (request : Uuid) : Bounded (p.finish request).core := by
  rw [finish]
  split
  · exact h.tasks_of h.auxiliary rfl rfl
  · exact h

theorem bounded_moved (h : Bounded p.core) (operation : Uuid) (c : SessionCommand StoredView) :
    Bounded (p.moved operation c).core := by
  cases c with
  | auxiliaryStarted =>
    rw [moved]
    split
    · exact h.tasks_of h.auxiliary rfl rfl
    · exact h
  | auxiliaryPublished request report text => exact bounded_finish h request
  | submitted submission =>
    rw [moved]
    split
    · exact bounded_classify h _ _
    · exact h
  | input => exact h.tasks_of h.auxiliary rfl rfl
  | response request items =>
    rw [moved, confirm]
    split
    · exact h.tasks_of h.auxiliary rfl rfl
    · exact h
  | taskLinked request task => exact bounded_link h task
  | turnSettled request outcome error =>
    have hsettled : Bounded ({ p with auxiliary := p.auxiliary.erase request } : HostProjection).core :=
      h.tasks_of (Std.ExtTreeMap.size_erase_le.trans h.auxiliary) rfl rfl
    simp only [moved]
    split
    · exact hsettled
    · exact bounded_finish hsettled request
  | _ => exact h

theorem bounded_atSnapshot (id : SessionId) (journalSequence revision : Nat) (activeRequest : Option Uuid)
    (currentTask : Option TaskId) : Bounded (atSnapshot id journalSequence revision activeRequest currentTask).core := by
  have hsize : (∅ : BTreeMap Uuid Bool).size ≤ maxAuxiliary := by simp
  cases currentTask with
  | none => exact ⟨hsize, fun t => by simp [core, atSnapshot, new], List.nodup_nil, Nat.zero_le _⟩
  | some task =>
    refine ⟨hsize, fun t => ?_, List.nodup_singleton task, Nat.le_of_lt_succ (by decide : 1 < 257)⟩
    show t ∈ (∅ : BTreeSet TaskId).insert task ↔ t ∈ [task]
    rw [Std.ExtTreeSet.mem_insert, Std.LawfulEqCmp.compare_eq_iff_eq, List.mem_singleton]
    simp [eq_comm]

theorem bounded_prepareInstall (id : SessionId) (journalSequence revision : Nat) (activeRequest : Option Uuid)
    (currentTask : Option TaskId) (activeAuxiliary : Option (Uuid × Bool)) :
    Bounded (prepareInstall id journalSequence revision activeRequest currentTask activeAuxiliary).core := by
  have hstart := bounded_atSnapshot id journalSequence revision activeRequest currentTask
  cases activeAuxiliary with
  | none => exact hstart
  | some auxiliary => exact bounded_classify hstart auxiliary.1 auxiliary.2

/-- **A projection stays bounded, over any frames.** -/
theorem projection_bounded (id : SessionId) (journalSequence revision : Nat) (activeRequest : Option Uuid)
    (currentTask : Option TaskId) (activeAuxiliary : Option (Uuid × Bool)) (frames : List WatchFrame) :
    Bounded ((prepareInstall id journalSequence revision activeRequest currentTask activeAuxiliary).run frames).2.core :=
  run_core (fun _ operation c h _ _ => bounded_moved h operation c) (bounded_prepareInstall ..)

/-! ## tasks -/

def links (session : SessionId) (f : WatchFrame) : Option TaskId :=
  match recorded session f with
  | some (_, .taskLinked _ task) => some task
  | _ => none

theorem links_of_recorded {session : SessionId} {f : WatchFrame} {request : Uuid} {task : TaskId}
    (h : recorded session f = some (operation, .taskLinked request task)) :
    links session f = some task := by
  rw [links, h]

theorem taskOrder_finish (p : HostProjection) (request : Uuid) : (p.finish request).taskOrder = p.taskOrder := by
  rw [finish]
  split <;> rfl

theorem taskOrder_moved (p : HostProjection) (operation : Uuid) (c : SessionCommand StoredView) :
    (p.moved operation c).taskOrder = p.taskOrder ∨
      ∃ request task, c = .taskLinked request task ∧ p.moved operation c = p.link task := by
  cases c with
  | auxiliaryStarted =>
    rw [moved]
    split <;> exact .inl rfl
  | auxiliaryPublished request report text => exact .inl (taskOrder_finish p request)
  | submitted submission =>
    rw [moved]
    split <;> exact .inl rfl
  | response request items =>
    rw [moved, confirm]
    split <;> exact .inl rfl
  | taskLinked request task => exact .inr ⟨request, task, rfl, rfl⟩
  | turnSettled request outcome error =>
    simp only [moved]
    split
    · exact .inl rfl
    · exact .inl (taskOrder_finish _ request)
  | _ => exact .inl rfl

theorem bounded_apply (h : Bounded p.core) (f : WatchFrame) : Bounded (p.apply f).2.core := by
  rcases apply_cases p f with hcore | ⟨operation, c, -, hcore⟩
  · exact hcore ▸ h
  · exact hcore ▸ bounded_moved h operation c

theorem behind_apply {since : List TaskId} {task : TaskId} (hbounded : Bounded p.core)
    (h : Behind since task p.taskOrder) (f : WatchFrame)
    (hroom : others task (since ++ (links p.session f).toList) < maxTasks) :
    Behind (since ++ (links p.session f).toList) task (p.apply f).2.taskOrder := by
  have hkept : Behind (since ++ (links p.session f).toList) task p.taskOrder :=
    h.mono fun _ hc => List.mem_append_left _ hc
  rcases apply_cases p f with hcore | ⟨operation, c, hrecorded, hcore⟩
  · have horder : (p.apply f).2.taskOrder = p.taskOrder := congrArg Core.taskOrder hcore
    rw [horder]
    exact hkept
  · have horder : (p.apply f).2.taskOrder = (p.moved operation c).taskOrder := congrArg Core.taskOrder hcore
    rw [horder]
    rcases taskOrder_moved p operation c with hsame | ⟨request, added, rfl, hlink⟩
    · rw [hsame]
      exact hkept
    · rw [links_of_recorded hrecorded] at hroom ⊢
      rw [hlink, taskOrder_link hbounded]
      exact h.push added hroom

theorem behind_run {task : TaskId} : ∀ {frames : List WatchFrame} {p : HostProjection} {since : List TaskId},
    Bounded p.core → Behind since task p.taskOrder →
    others task (since ++ frames.filterMap (links p.session)) < maxTasks → task ∈ (p.run frames).2.taskOrder
  | [], _, _, _, h, _ => h.mem
  | f :: frames, p, since, hbounded, h, hroom => by
    have hlinks : since ++ List.filterMap (links p.session) (f :: frames) =
        since ++ (links p.session f).toList ++ frames.filterMap (links p.session) := by
      rw [List.append_assoc, List.filterMap_cons]
      cases links p.session f with
      | none => rfl
      | some task => rfl
    rw [hlinks] at hroom
    have hfirst := behind_apply hbounded h f (Nat.lt_of_le_of_lt (others_le_append ..) hroom)
    rw [run_cons]
    refine behind_run (bounded_apply hbounded f) hfirst ?_
    rw [session_apply]
    exact hroom

theorem record_task {task : TaskId} {event : TaskEvent} (hnew : p.sequence < r.sequence)
    (hkind : r.kind = "task") (huuid : EventReader.uuid r.aggregate = some task.uuid)
    (hevent : EventReader.task r.event = .ok event) (hfollowed : task ∈ p.tasks) :
    (p.apply (.journal r)).1 = p.taskEvent task event := by
  have hother : ¬ (r.kind = "session" ∧ r.aggregate = p.session.display) := fun h => by
    rw [hkind] at h
    exact absurd h.1 (by decide)
  rw [apply, journal, if_neg (by omega)]
  show (p.record r).1 = _
  rw [record, if_neg hother, if_pos hkind, huuid]
  simp only [Option.map_some, Option.filter_some, hfollowed, decide_true, if_true, hevent]

/-- **A task is followed from its link on, until as many others as there is room for are linked after it.** -/
theorem task_followed (id : SessionId) (journalSequence revision : Nat) (activeRequest : Option Uuid)
    (currentTask : Option TaskId) (activeAuxiliary : Option (Uuid × Bool)) (earlier later : List WatchFrame)
    {r s : JournalRecord} {operation request : Uuid} {task : TaskId} {event : TaskEvent} {p q : HostProjection}
    (hp : p = ((prepareInstall id journalSequence revision activeRequest currentTask activeAuxiliary).run earlier).2)
    (hlinked : recorded id (.journal r) = some (operation, .taskLinked request task)) (hr : p.sequence < r.sequence)
    (hnew : task ∉ p.tasks) (hfew : others task (later.filterMap (links id)) < maxTasks)
    (hq : q = ((p.apply (.journal r)).2.run later).2) (hs : q.sequence < s.sequence) (hkind : s.kind = "task")
    (huuid : EventReader.uuid s.aggregate = some task.uuid) (hevent : EventReader.task s.event = .ok event) :
    (q.apply (.journal s)).1 = q.taskEvent task event := by
  have hstart : (prepareInstall id journalSequence revision activeRequest currentTask activeAuxiliary).session = id := by
    cases currentTask <;> cases activeAuxiliary <;> rfl
  have hsession : p.session = id := by rw [hp, session_run, hstart]
  have hbounded : Bounded p.core := hp ▸ projection_bounded ..
  have hcore := apply_recorded hr (hsession.symm ▸ hlinked)
  have horder : (p.apply (.journal r)).2.taskOrder = push maxTasks task p.taskOrder :=
    (congrArg Core.taskOrder hcore).trans (taskOrder_link hbounded task)
  have hbehind : Behind [] task (p.apply (.journal r)).2.taskOrder := by
    rw [horder]
    exact behind_push (by decide) fun hmem => hnew ((hbounded.tasks task).mpr hmem)
  have hnext := bounded_apply hbounded (.journal r)
  have hmem : task ∈ q.taskOrder := by
    rw [hq]
    refine behind_run hnext hbehind ?_
    rw [session_apply, hsession, List.nil_append]
    exact hfew
  have hlast : Bounded q.core := by
    rw [hq]
    exact run_core (fun _ operation c h _ _ => bounded_moved h operation c) hnext
  exact record_task hs hkind huuid hevent ((hlast.tasks task).mpr hmem)

/-! ## confirmed items -/

def begins : SessionCommand StoredView → Bool
  | .input .. | .auxiliaryStarted => true
  | _ => false

/-- no more previews of the item are shown -/
def Confirmed (request : Uuid) (item : String) (c : Core) : Prop :=
  c.activeRequest = some request → item ∈ c.confirmedItems

theorem confirmed_moved {request : Uuid} {item : String} (h : Confirmed request item p.core)
    (hbegins : begins c = true → operation ≠ request) :
    Confirmed request item (p.moved operation c).core := by
  have hfinish : ∀ {p : HostProjection} (r : Uuid), Confirmed request item p.core →
      Confirmed request item (p.finish r).core := by
    intro p r h
    rw [finish]
    split
    · exact fun hnone => nomatch hnone
    · exact h
  cases c with
  | auxiliaryStarted =>
    rw [moved]
    split
    · exact fun hactive => absurd (Option.some.inj hactive) (hbegins rfl)
    · exact h
  | auxiliaryPublished r report text => exact hfinish r h
  | submitted submission =>
    rw [moved]
    split
    · intro hactive
      refine h ?_
      show p.activeRequest = some request
      have hkept : (if _ then none else p.activeRequest) = some request := hactive
      split at hkept
      · cases hkept
      · exact hkept
    · exact h
  | input => exact fun hactive => absurd (Option.some.inj hactive) (hbegins rfl)
  | response r items =>
    rw [moved, confirm]
    split
    · exact fun hactive => Std.ExtTreeSet.mem_insertMany_list.mpr (.inl (h hactive))
    · exact h
  | taskLinked r task =>
    rw [moved, link]
    split
    · exact h
    · dsimp only
      split
      · split <;> exact h
      · exact h
  | turnSettled r outcome error =>
    simp only [moved]
    split
    · exact h
    · exact hfinish (p := { p with auxiliary := p.auxiliary.erase r }) r h
  | _ => exact h

/-- **A confirmed item has no more previews, as long as its request does not begin again.** -/
theorem confirmed_silent {r : JournalRecord} {operation request : Uuid} {items : List Value} {x : Value} {item : String}
    (hr : p.sequence < r.sequence) (hresponse : recorded p.session (.journal r) = some (operation, .response request items))
    (hx : x ∈ items) (hitem : (x.index "id").asStr = some item) (frames : List WatchFrame)
    (hbegins : ∀ f ∈ frames, ∀ c, recorded p.session f = some (request, c) → begins c = false)
    (session : SessionId) {delta : Delta} (hdelta : deltaItem delta = some item) :
    ((((p.apply (.journal r)).2.run frames).2).apply (.preview session request delta)).1 = [] := by
  have hfirst : Confirmed request item (p.apply (.journal r)).2.core := by
    rw [apply_recorded hr hresponse, moved, confirm]
    split
    · refine fun _ => Std.ExtTreeSet.mem_insertMany_list.mpr (.inr ?_)
      exact List.contains_iff_mem.mpr (List.mem_filterMap.mpr ⟨x, hx, hitem⟩)
    · rename_i hother
      exact fun hactive => absurd hactive hother
  have hlast : Confirmed request item ((p.apply (.journal r)).2.run frames).2.core := by
    refine run_core (fun q operation c hq hsession hmem => confirmed_moved hq fun hb heq => ?_) hfirst
    obtain ⟨f, hf, hrecorded⟩ := hmem
    rw [session_apply, heq] at hrecorded
    rw [hbegins f hf c hrecorded] at hb
    cases hb
  generalize ((p.apply (.journal r)).2.run frames).2 = q at hlast ⊢
  rw [apply]
  split
  · rename_i hactive
    have hconfirmed : item ∈ q.confirmedItems := hlast hactive.2
    unfold preview
    rw [hdelta, if_pos]
    simpa using hconfirmed
  · rfl

/-! ## hidden requests -/

def shows (request operation : Uuid) : SessionCommand StoredView → Bool
  | .input .. => operation = request
  | .submitted submission => submission.id = request ∧ previewVisible submission.intent = some true
  | _ => false

/-- neither shown nor about to be -/
def Hidden (request : Uuid) (c : Core) : Prop := c.auxiliary[request]? ≠ some true ∧ c.activeRequest ≠ some request

theorem hidden_classify {request other : Uuid} {visible : Bool} (h : other ≠ request → Hidden request p.core)
    (hvisible : other = request → visible = false) : Hidden request (p.classifyAuxiliary other visible).core := by
  constructor
  · show (trimAuxiliary _ (p.auxiliary.insert other visible))[request]? ≠ some true
    rcases trimAuxiliary_getElem? request (p.auxiliary.insert other visible).size (p.auxiliary.insert other visible) with
      hnone | hsame
    · rw [hnone]
      exact nofun
    · rw [hsame, Std.ExtTreeMap.getElem?_insert]
      split
      · rename_i heq
        rw [hvisible (Std.LawfulEqCmp.eq_of_compare heq)]
        exact nofun
      · rename_i hne
        exact (h fun heq => hne (heq ▸ Std.ReflOrd.compare_self)).1
  · show (if visible = false ∧ p.activeRequest = some other then none else p.activeRequest) ≠ some request
    split
    · exact nofun
    · rename_i hkept
      by_cases heq : other = request
      · exact fun hactive => hkept ⟨hvisible heq, heq ▸ hactive⟩
      · exact (h heq).2

theorem hidden_finish {request : Uuid} (h : Hidden request p.core) (other : Uuid) :
    Hidden request (p.finish other).core := by
  rw [finish]
  split
  · exact ⟨h.1, nofun⟩
  · exact h

theorem hidden_moved {request : Uuid} (h : Hidden request p.core)
    (hshows : shows request operation c = false) : Hidden request (p.moved operation c).core := by
  cases c with
  | auxiliaryStarted =>
    rw [moved]
    split
    · rename_i hvisible
      refine ⟨h.1, fun hactive => h.1 ?_⟩
      rw [← Option.some.inj hactive]
      exact hvisible
    · exact h
  | auxiliaryPublished other report text => exact hidden_finish h other
  | submitted submission =>
    rw [moved]
    split
    · rename_i visible hvisible
      refine hidden_classify (fun _ => h) fun hid => ?_
      cases visible with
      | false => rfl
      | true =>
        rw [shows, hvisible, hid] at hshows
        simp at hshows
    · exact h
  | input =>
    refine ⟨h.1, fun hactive => ?_⟩
    rw [shows, Option.some.inj hactive] at hshows
    simp at hshows
  | response other items =>
    rw [moved, confirm]
    split <;> exact h
  | taskLinked other task =>
    rw [moved, link]
    split
    · exact h
    · dsimp only
      split
      · split <;> exact h
      · exact h
  | turnSettled other outcome error =>
    have hsettled : Hidden request ({ p with auxiliary := p.auxiliary.erase other } : HostProjection).core := by
      refine ⟨?_, h.2⟩
      show (p.auxiliary.erase other)[request]? ≠ some true
      rw [Std.ExtTreeMap.getElem?_erase]
      split
      · exact nofun
      · exact h.1
    simp only [moved]
    split
    · exact hsettled
    · exact hidden_finish hsettled other
  | _ => exact h

theorem requestStarted_not_projected (request : Uuid) (of : Option Uuid) (items : List Value) (final : Bool) :
    ViewChange.requestStarted request ∉ projectItems of items final := by
  intro hmem
  obtain ⟨item, -, h⟩ := List.mem_filterMap.mp hmem
  simp only [projectItem] at h
  split at h
  · split at h
    · split at h
      · cases h
      · split at h
        · cases h
        · split at h
          · cases h
          · cases h
    · cases h
  · split at h
    · simp [Option.bind_eq_some_iff] at h
    · split at h
      · simp [Option.bind_eq_some_iff] at h
      · split at h
        · cases h
        · cases h

theorem starts_command {request : Uuid} (h : ViewChange.requestStarted request ∈ (p.command operation c).1)
    :
    shows request operation c = true ∨ p.auxiliary[request]? = some true := by
  cases c with
  | auxiliaryStarted =>
    rw [command] at h
    split at h
    · rename_i hvisible
      cases List.mem_singleton.mp h
      exact .inr hvisible
    · cases h
  | input kind content =>
    rcases List.mem_cons.mp h with heq | hmem
    · cases heq
      exact .inl (by simp [shows])
    · exact (requestStarted_not_projected _ _ _ _ hmem).elim
  | response other items => exact (requestStarted_not_projected _ _ _ _ h).elim
  | auxiliaryPublished other report text =>
    rw [command] at h
    cases text with
    | none => cases h
    | some text => cases List.mem_singleton.mp h
  | toolResultPart other callId offset output =>
    rw [command] at h
    split at h
    · cases h
    · cases List.mem_singleton.mp h
  | toolResultEnd other callId digest =>
    rw [command] at h
    split at h <;> cases List.mem_singleton.mp h
  | turnSettled other outcome error =>
    simp only [command] at h
    split at h
    · cases h
    · cases List.mem_singleton.mp h
  | traceRecorded | childLifecycle | contextTransition | admissionPinned | legacyImportBound | completionHook
  | auxiliaryRecorded | contextPrepared => cases h
  | _ => cases List.mem_singleton.mp h

theorem starts_apply {request : Uuid} {f : WatchFrame} (h : ViewChange.requestStarted request ∈ (p.apply f).1) :
    ∃ operation c, recorded p.session f = some (operation, c) ∧
      (shows request operation c = true ∨ p.auxiliary[request]? = some true) := by
  cases f with
  | journal r =>
    rw [apply, journal] at h
    split at h
    · cases h
    · have h : ViewChange.requestStarted request ∈ (p.record r).1 := h
      rw [record] at h
      split at h
      · rename_i hsession
        split at h
        · rename_i event hevent
          cases event with
          | created creation =>
            simp only [sessionEvent, List.mem_cons, List.mem_append] at h
            rcases h with h | h | h
            · cases h
            · cases himported : creation.imported <;> rw [himported] at h <;> simp at h
            · exact (requestStarted_not_projected _ _ _ _ h).elim
          | command operation c atMs =>
            refine ⟨operation, c, by rw [recorded, if_pos hsession, hevent], ?_⟩
            exact starts_command (p := { p with revision := r.revision, recordedMs := atMs }) h
        · cases List.mem_singleton.mp h
      · split at h
        · split at h
          · split at h
            · rename_i event hevent
              unfold taskEvent at h
              split at h
              · split at h
                · cases h
                · cases List.mem_singleton.mp h
              · cases List.mem_singleton.mp h
            · cases List.mem_singleton.mp h
          · cases h
        · cases h
  | preview session other delta =>
    rw [apply] at h
    split at h
    · unfold preview at h
      split at h
      · cases h
      · split at h <;> simp at h
    · cases h
  | warnings warnings =>
    obtain ⟨w, -, heq⟩ := List.mem_map.mp h
    cases heq
  | previewGap => cases List.mem_singleton.mp h
  | subagent | ready => cases h

/-- **A request that was submitted to stay hidden neither begins nor has previews, whatever else is forgotten.** -/
theorem hidden_silent {r : JournalRecord} {operation : Uuid} {submission : Orvek.Submission} (hr : p.sequence < r.sequence)
    (hsubmitted : recorded p.session (.journal r) = some (operation, .submitted submission))
    (hhidden : previewVisible submission.intent = some false) (frames : List WatchFrame) {f : WatchFrame}
    (hshows : ∀ g ∈ frames ++ [f], ∀ operation c, recorded p.session g = some (operation, c) →
      shows submission.id operation c = false) :
    let q := ((p.apply (.journal r)).2.run frames).2
    ViewChange.requestStarted submission.id ∉ (q.apply f).1 ∧
      ∀ session delta, q.apply (.preview session submission.id delta) = ([], q) := by
  intro q
  have hsession : q.session = p.session := by rw [session_run, session_apply]
  have hfirst : Hidden submission.id (p.apply (.journal r)).2.core := by
    rw [apply_recorded hr hsubmitted, moved, hhidden]
    exact hidden_classify (fun hother => absurd rfl hother) fun _ => rfl
  have hlast : Hidden submission.id q.core := by
    refine run_core (fun p' operation c h _ hmem => hidden_moved h ?_) hfirst
    obtain ⟨g, hg, hrecorded⟩ := hmem
    rw [session_apply] at hrecorded
    exact hshows g (List.mem_append_left _ hg) operation c hrecorded
  constructor
  · intro hstarts
    obtain ⟨operation, c, hrecorded, hshown | hvisible⟩ := starts_apply hstarts
    · rw [hsession] at hrecorded
      rw [hshows f (List.mem_append_right _ (List.mem_singleton_self f)) operation c hrecorded] at hshown
      cases hshown
    · exact hlast.1 hvisible
  · intro session delta
    rw [apply, if_neg]
    exact fun h => hlast.2 h.2

theorem sequence_journal (hnew : p.sequence < r.sequence) :
    (p.apply (.journal r)).2.sequence = r.sequence := by
  rw [apply, journal, if_neg (by omega)]

end

/-! ## three commands and an event of a task -/

namespace ProjectionSample

scoped instance sha256 : Sha256 := Sha256.standard

def pane : SessionId := ⟨⟨1⟩⟩
def request : Uuid := ⟨2⟩
def question : Uuid := ⟨3⟩
def task : TaskId := ⟨⟨4⟩⟩

def item : Value :=
  .object [("type", .string "message"), ("id", .string "item"), ("role", .string "assistant"),
    ("content", .string "text")]

def submission : Orvek.Submission where
  manualJob := none
  id := question
  input := ⟨0⟩
  initialInput := ⟨0⟩
  records := []
  result := none
  intent := .auxiliary ⟨.question, .clean, none, ⟨1, 1000, 1000⟩⟩
  status := .queued
  submittedRevision := 1
  submittedMs := 0

def document (operation : Uuid) (command data : Value) : Value :=
  .object [("type", .string "command"), ("data", .object [("operation", .string operation.display),
    ("command", .object [("type", command), ("data", data)]), ("at_ms", .number "0")])]

def responseDocument : Value :=
  document request (.string "response") (.object [("request", .string request.display), ("items", .array [item])])

def linkDocument : Value :=
  document request (.string "task_linked")
    (.object [("request", .string request.display), ("task", .string task.display)])

def digest : Value := .string (Digest.display ⟨0⟩)

def submittedDocument : Value :=
  document question (.string "submitted") (.object [("manual_job", .null), ("id", .string question.display),
    ("input", digest), ("initial_input", digest), ("records", .array []), ("result", .null),
    ("intent", .object [("kind", .string "auxiliary"), ("spec", .object [("kind", .string "question"),
      ("context", .string "clean"), ("review", .null), ("limits", .object [("model_calls", .number "1"),
      ("tokens", .number "1000"), ("elapsed_ms", .number "1000")])])]),
    ("status", .object [("state", .string "queued")]), ("submitted_revision", .number "1"), ("submitted_ms", .number "0")])

def taskDocument : Value :=
  .object [("type", .string "workspace_changed"), ("data", .object [("reason", .string "edit")])]

/-- reads the documents of the example -/
scoped instance eventReader : EventReader where
  session v :=
    if v = responseDocument then .ok (.command request (.response request [item]) 0)
    else if v = linkDocument then .ok (.command request (.taskLinked request task) 0)
    else if v = submittedDocument then .ok (.command question (.submitted submission) 0)
    else .error "unknown variant"
  task v := if v = taskDocument then .ok (.workspaceChanged "edit") else .error "unknown variant"
  uuid text := if text = task.display then some task.uuid else none

def sessionRecord (event : Value) : JournalRecord := ⟨1, pane.display, "session", 2, event⟩

def taskRecord : JournalRecord := ⟨2, task.display, "task", 1, taskDocument⟩

theorem reads_response : recorded pane (.journal (sessionRecord responseDocument)) =
    some (request, .response request [item]) := by
  have hevent : EventReader.session responseDocument = .ok (.command request (.response request [item]) 0) := if_pos rfl
  rw [recorded, if_pos ⟨rfl, rfl⟩, sessionRecord, hevent]

theorem reads_link : recorded pane (.journal (sessionRecord linkDocument)) =
    some (request, .taskLinked request task) := by
  have hother : linkDocument ≠ responseDocument := by decide +kernel
  have hevent : EventReader.session linkDocument = .ok (.command request (.taskLinked request task) 0) :=
    (if_neg hother).trans (if_pos rfl)
  rw [recorded, if_pos ⟨rfl, rfl⟩, sessionRecord, hevent]

theorem reads_submitted : recorded pane (.journal (sessionRecord submittedDocument)) =
    some (question, .submitted submission) := by
  have hresponse : submittedDocument ≠ responseDocument := by decide +kernel
  have hlink : submittedDocument ≠ linkDocument := by decide +kernel
  have hevent : EventReader.session submittedDocument = .ok (.command question (.submitted submission) 0) :=
    (if_neg hresponse).trans ((if_neg hlink).trans (if_pos rfl))
  rw [recorded, if_pos ⟨rfl, rfl⟩, sessionRecord, hevent]

end ProjectionSample

open ProjectionSample

theorem task_followed_linked :
    ((((prepareInstall pane 0 1 none none none).apply (.journal (sessionRecord linkDocument))).2.run
      [.previewGap 1]).2.apply (.journal taskRecord)).1 = [.task task (.workspaceChanged "edit")] := by
  have hfirst : (prepareInstall pane 0 1 none none none).sequence < (sessionRecord linkDocument).sequence := Nat.one_pos
  have hsequence : (((prepareInstall pane 0 1 none none none).apply (.journal (sessionRecord linkDocument))).2.run
      [.previewGap 1]).2.sequence = 1 := sequence_journal hfirst
  have hnext : (((prepareInstall pane 0 1 none none none).apply (.journal (sessionRecord linkDocument))).2.run
      [.previewGap 1]).2.sequence < taskRecord.sequence := by
    rw [hsequence]
    exact Nat.lt_succ_self 1
  have hnew : task ∉ (prepareInstall pane 0 1 none none none).tasks := Std.ExtTreeSet.not_mem_empty
  have huuid : EventReader.uuid taskRecord.aggregate = some task.uuid := if_pos rfl
  have hevent : EventReader.task taskRecord.event = .ok (.workspaceChanged "edit") := if_pos rfl
  exact task_followed pane 0 1 none none none [] [.previewGap 1] rfl reads_link hfirst hnew
    (Nat.zero_lt_succ 255) rfl hnext rfl huuid hevent

theorem confirmed_silent_response :
    ((((atSnapshot pane 0 1 (some request) none).apply (.journal (sessionRecord responseDocument))).2.run
      [.previewGap 1]).2.apply (.preview pane request (.text "item" "late"))).1 = [] := by
  have hfirst : (atSnapshot pane 0 1 (some request) none).sequence < (sessionRecord responseDocument).sequence :=
    Nat.one_pos
  have hitem : (item.index "id").asStr = some "item" := rfl
  refine confirmed_silent hfirst reads_response List.mem_cons_self hitem [.previewGap 1] ?_ pane rfl
  intro f hf c hc
  cases List.mem_singleton.mp hf
  cases hc

/-- a task is linked and a response comes in between -/
theorem hidden_silent_question :
    let q := (((new pane 0).apply (.journal (sessionRecord submittedDocument))).2.run
      [.journal { sessionRecord linkDocument with sequence := 2 }, .previewGap 1,
        .journal { sessionRecord responseDocument with sequence := 3 }]).2
    q.apply (.preview pane question (.text "item" "text")) = ([], q) := by
  have hfirst : (new pane 0).sequence < (sessionRecord submittedDocument).sequence := Nat.one_pos
  refine (hidden_silent (f := .previewGap 1) hfirst reads_submitted rfl
    [.journal { sessionRecord linkDocument with sequence := 2 }, .previewGap 1,
      .journal { sessionRecord responseDocument with sequence := 3 }] ?_).2 pane _
  intro g hg operation c hc
  rcases List.mem_cons.mp hg with rfl | hg
  · cases reads_link.symm.trans hc
    rfl
  · rcases List.mem_cons.mp hg with rfl | hg
    · cases hc
    · rcases List.mem_cons.mp hg with rfl | hg
      · cases reads_response.symm.trans hc
        rfl
      · cases List.mem_singleton.mp hg
        cases hc

end HostProjection

end Orvek.Tui
