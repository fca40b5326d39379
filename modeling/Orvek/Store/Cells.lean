import Orvek.Store.Started

/-!
# The cells of the interpreter

A cell begins in a request, calls the host under numbers of its own, and is settled; a turn that is
settled before it interrupts it.  Its calls are kept beside the cells, by name:

* `InterpreterState.Owned`    every pending call is named after a cell that has begun and was not
                              settled, and after the number of the call;
* `CellProgress`                  no cell is forgotten, and one that is settled or interrupted stays so;
* `admitInterpreter_progress` an event that is admitted keeps both;
* `calls_owned`               so does every run, and no run starts one number of a cell twice.

The calls of an interrupted cell stay where they are.  They are not admitted to anything any more:
each use of a pending call asks for a cell that is pending.
-/

set_option linter.unusedSectionVars false

namespace Orvek
open Checks Json Journal

/-! ## one state -/

def InterpreterState.Owns (s : InterpreterState) (callId : String) (cell : Uuid) : Prop :=
  ∃ c ordinal, s.cells[cell]? = some c ∧ 0 < ordinal ∧ callId = nestedCall cell ordinal ∧
    (c.status = .pending ∨ c.status = .interrupted)

def InterpreterState.Owned (s : InterpreterState) : Prop :=
  ∀ callId cell, s.pendingCalls[callId]? = some cell → s.Owns callId cell

/-- what becomes of a cell: it stays in its request and its task, and what has ended has ended -/
structure CellState.Becomes (c c' : CellState) : Prop where
  request : c'.request = c.request
  task : c'.task = c.task
  ended : c.status ≠ .pending → c'.status = c.status

theorem CellState.Becomes.refl (c : CellState) : c.Becomes c := ⟨rfl, rfl, fun _ => rfl⟩

theorem CellState.Becomes.trans {a b c : CellState} (h : a.Becomes b) (h' : b.Becomes c) :
    a.Becomes c where
  request := h'.request.trans h.request
  task := h'.task.trans h.task
  ended ha := by
    have hb := h.ended ha
    rw [← hb] at ha
    exact (h'.ended ha).trans hb

/-- what a run does to an interpreter -/
structure CellProgress (s t : InterpreterState) : Prop where
  stays : ∀ (cell : Uuid) (c : CellState), s.cells[cell]? = some c → ∃ c', t.cells[cell]? = some c' ∧ c.Becomes c'
  owned : s.Owned → t.Owned

theorem CellProgress.refl (s : InterpreterState) : CellProgress s s :=
  ⟨fun _ c hc => ⟨c, hc, .refl c⟩, fun h => h⟩

theorem CellProgress.trans {s t u : InterpreterState} (h : CellProgress s t) (h' : CellProgress t u) :
    CellProgress s u where
  stays cell c hc := by
    obtain ⟨c', hc', hb⟩ := h.stays cell c hc
    obtain ⟨c'', hc'', hb'⟩ := h'.stays cell c' hc'
    exact ⟨c'', hc'', hb.trans hb'⟩
  owned ho := h'.owned (h.owned ho)

/-! ## the events of an interpreter -/

theorem interrupt_cell {s : InterpreterState} {request cell : Uuid} {c : CellState}
    (hc : s.cells[cell]? = some c) : ∃ c', (s.interrupt request).cells[cell]? = some c' ∧
      c.Becomes c' ∧ (c'.status = c.status ∨ c'.status = .interrupted) := by
  refine ⟨_, by
    rw [InterpreterState.interrupt, Std.ExtTreeMap.getElem?_map, hc, Option.map_some], ?_⟩
  split
  · rename_i hpending
    exact ⟨⟨rfl, rfl, fun hne => absurd hpending.2 hne⟩, .inr rfl⟩
  · exact ⟨.refl c, .inl rfl⟩

theorem interrupt_progress (s : InterpreterState) (request : Uuid) : CellProgress s (s.interrupt request) where
  stays cell c hc := by
    obtain ⟨c', hc', hb, -⟩ := interrupt_cell hc
    exact ⟨c', hc', hb⟩
  owned h callId cell hcall := by
    obtain ⟨c, ordinal, hc, hpos, hname, hstatus⟩ := h callId cell hcall
    obtain ⟨c', hc', -, hstatus'⟩ : ∃ c', (s.interrupt request).cells[cell]? = some c' ∧ _ :=
      interrupt_cell hc
    obtain hsame | hint := hstatus'
    · exact ⟨c', ordinal, hc', hpos, hname, by rw [hsame]; exact hstatus⟩
    · exact ⟨c', ordinal, hc', hpos, hname, .inr hint⟩

section
variable {s : InterpreterState} {request cell : Uuid}
variable {c : CellState}

theorem interrupt_origin (h : (s.interrupt request).cells[cell]? = some c) :
    s.cells[cell]? = some c ∨ c.request = request := by
  rw [InterpreterState.interrupt, Std.ExtTreeMap.getElem?_map] at h
  obtain ⟨old, hold, he⟩ := Option.map_eq_some_iff.mp h
  split at he
  · rename_i hpending
    rw [← he]
    exact .inr hpending.1
  · rw [← he]
    exact .inl hold

theorem apply_interrupted {event : InterpreterEvent} (h : (s.apply request event).cells[cell]? = some c)
    (hint : c.status = .interrupted) : s.cells[cell]? = some c := by
  cases event with
  | started other task outerCall source runtime generation environment =>
    rw [InterpreterState.apply, Std.ExtTreeMap.getElem?_insert] at h
    split at h
    · cases h
      cases hint
    · exact h
  | settled other result checkpoint stateLost =>
    rw [InterpreterState.apply, Std.ExtTreeMap.getElem?_modify] at h
    split at h
    · obtain ⟨old, -, rfl⟩ := Option.map_eq_some_iff.mp h
      cases hint
    · exact h
  | callStarted other ordinal callId name arguments => exact h
  | callSettled other ordinal result => exact h

theorem started_progress (task : TaskId) (outerCall : String) (source runtime : Digest)
    (generation : Nat) (environment : Digest) (hnew : cell ∉ s.cells) :
    CellProgress s (s.apply request (.started cell task outerCall source runtime generation environment)) := by
  have hother : ∀ (k : Uuid) (c : CellState), s.cells[k]? = some c →
      (s.cells.insert cell ⟨request, task, .pending⟩)[k]? = some c := by
    intro k c hc
    have hne : ¬ compare cell k = .eq := fun he => hnew (by
      rw [Std.LawfulEqOrd.compare_eq_iff_eq.mp he, Std.ExtTreeMap.mem_iff_isSome_getElem?, hc]
      rfl)
    rw [Std.ExtTreeMap.getElem?_insert, if_neg hne, hc]
  refine ⟨fun k c hc => ⟨c, hother k c hc, .refl c⟩, fun h callId k hcall => ?_⟩
  obtain ⟨c, ordinal, hc, hrest⟩ := h callId k hcall
  exact ⟨c, ordinal, hother k c hc, hrest⟩

theorem callStarted_progress {ordinal : Nat} (name : String) (arguments : Digest) (hpos : 0 < ordinal)
    (hc : s.cells[cell]? = some c) (hpending : c.status = .pending) :
    CellProgress s (s.apply request
      (.callStarted cell ordinal (nestedCall cell ordinal) name arguments)) := by
  refine ⟨fun k c hc => ⟨c, hc, .refl c⟩, fun h callId k hcall => ?_⟩
  rw [InterpreterState.apply, Std.ExtTreeMap.getElem?_insert] at hcall
  split at hcall
  · rename_i he
    cases hcall
    exact ⟨c, ordinal, hc, hpos, (Std.LawfulEqOrd.compare_eq_iff_eq.mp he).symm, .inl hpending⟩
  · exact h callId k hcall

theorem callSettled_progress (ordinal : Nat) (result : Digest) :
    CellProgress s (s.apply request (.callSettled cell ordinal result)) := by
  refine ⟨fun k c hc => ⟨c, hc, .refl c⟩, fun h callId k hcall => ?_⟩
  rw [InterpreterState.apply, Std.ExtTreeMap.getElem?_erase] at hcall
  split at hcall
  · cases hcall
  · exact h callId k hcall

theorem settled_progress (result : Digest) (checkpoint : Option CheckpointRef) (stateLost : Bool)
    (hc : s.cells[cell]? = some c) (hpending : c.status = .pending) :
    CellProgress s (s.apply request (.settled cell result checkpoint stateLost)) := by
  have hother : ∀ k : Uuid, k ≠ cell →
      (s.cells.modify cell fun state => { state with status := .settled result })[k]? = s.cells[k]? := by
    intro k hk
    rw [Std.ExtTreeMap.getElem?_modify, if_neg fun he =>
      hk (Std.LawfulEqOrd.compare_eq_iff_eq.mp he).symm]
  refine ⟨fun k d hd => ?_, fun h callId k hcall => ?_⟩
  · by_cases hk : k = cell
    · subst hk
      cases hc.symm.trans hd
      refine ⟨{ c with status := .settled result }, ?_, rfl, rfl, fun hne => absurd hpending hne⟩
      rw [InterpreterState.apply, Std.ExtTreeMap.getElem?_modify_self, hc]
      rfl
    · exact ⟨d, (hother k hk).trans hd, .refl d⟩
  · rw [InterpreterState.apply, Std.ExtTreeMap.getElem?_filter'] at hcall
    obtain ⟨hcall, hne⟩ := Option.filter_eq_some_iff.mp hcall
    obtain ⟨d, ordinal, hd, hrest⟩ := h callId k hcall
    exact ⟨d, ordinal, (hother k (by simpa using hne)).trans hd, hrest⟩

end

section
variable [Sha256] [ContractCodec] [SessionCodec] [StoreCodec] [JsonReader]
variable {env : Env} {s t : SessionState}
variable {request operation : Uuid} {c : SessionCommand ContextView} {call : HostCall}

theorem ownsPending_cell {cell : Uuid} (h : ownsPending s request cell = true) :
    ∃ c, s.interpreter.cells[cell]? = some c ∧ c.request = request ∧ c.status = .pending := by
  rw [ownsPending, Option.any_eq_true] at h
  obtain ⟨c, hc, hpending⟩ := h
  rw [Bool.and_eq_true, beq_iff_eq, beq_iff_eq] at hpending
  exact ⟨c, hc, hpending⟩

/-- **An event that is admitted keeps every cell, and every call with its cell.** -/
theorem admitInterpreter_progress {event : InterpreterEvent} {u : Unit}
    (h : admitInterpreter env s request event = .ok u) :
    CellProgress s.interpreter (s.interpreter.apply request event) := by
  cases event with
  | started cell task outerCall source runtime generation environment =>
    obtain ⟨hguard, -⟩ := refuseIf_bind h
    exact started_progress task outerCall source runtime generation environment
      fun hmem => hguard (.inl hmem)
  | callStarted cell ordinal callId name arguments =>
    obtain ⟨hguard, -⟩ := refuseIf_bind h
    simp only [not_or, not_not] at hguard
    obtain ⟨hzero, rfl, -, howns⟩ := hguard
    obtain ⟨c, hc, -, hpending⟩ := ownsPending_cell (by simpa using howns)
    exact callStarted_progress name arguments (Nat.pos_of_ne_zero hzero) hc hpending
  | callSettled cell ordinal result => exact callSettled_progress ordinal result
  | settled cell result checkpoint stateLost =>
    obtain ⟨hguard, -⟩ := refuseIf_bind h
    rw [not_or] at hguard
    obtain ⟨c, hc, -, hpending⟩ := ownsPending_cell (by simpa using hguard.1)
    exact settled_progress result checkpoint stateLost hc hpending

/-! ## commands and calls -/

def SessionCommand.computes {V : Type} : SessionCommand V → Bool
  | .interpreter .. => true
  | _ => false

theorem apply_move (h : s.apply operation c = .ok t) : InterpreterMove s c t.interpreter := by
  obtain ⟨u, _, hu, rfl, -⟩ := apply_keeps_parts h
  exact hu.interpreter

theorem apply_progress (hc : c.computes = false) (h : s.apply operation c = .ok t) :
    CellProgress s.interpreter t.interpreter := by
  have hmove := apply_move h
  generalize t.interpreter = i at hmove
  cases hmove with
  | none => exact .refl _
  | event request event => cases hc
  | interrupt request outcome error => exact interrupt_progress _ request

theorem frames_progress {frames : List Frame} (hframes : ∀ f ∈ frames, f.2.computes = false)
    (h : s.applyAll frames = .ok t) : CellProgress s.interpreter t.interpreter :=
  applyAll_relation (R := fun s t => CellProgress s.interpreter t.interpreter)
    (fun s => .refl s.interpreter) (fun h h' => h.trans h')
    (fun f hf _ _ hone => apply_progress (hframes f hf) hone) h

theorem linkFrames_computes {content : List Value} {task : TaskId} :
    ∀ f ∈ linkFrames request content task, f.2.computes = false :=
  two_frames rfl rfl

theorem logical_computes (h : c.logical = false) : c.computes = false := by
  cases c <;> first | rfl | cases h

theorem interpreter_leaves {session : SessionId} {revision : Nat} {event : InterpreterEvent}
    (h : (HostCall.command session revision operation (.interpreter request event)).Leaves s t) :
    t = s ∨ ∃ env, admitInterpreter env s request event = .ok () ∧
      s.apply operation (.interpreter request event) = .ok t := by
  obtain ⟨env, db, head, task, db', hl, hrun⟩ := h
  obtain ⟨_, hc, hrun⟩ := bind_ok hrun
  cases hrun
  obtain ⟨u, g, hl', ⟨rfl, -, -⟩ | ⟨-, -, -, hadmitted, hash, happ⟩⟩ := sessionCommand_ok hc
  · cases hl.symm.trans hl'
    exact .inl rfl
  · cases hl.symm.trans hl'
    exact .inr ⟨env, hadmitted, applyAll_one.mp (append_one happ rfl)⟩

/-- **Every call keeps the cells, and every call of a cell with its cell.** -/
theorem CallPlan.progress {frames : List Frame} (hplan : CallPlan s call frames)
    (hap : s.applyAll frames = .ok t) (hleaves : call.Leaves s t) :
    CellProgress s.interpreter t.interpreter := by
  have hone : ∀ {operation : Uuid} {c : SessionCommand ContextView}, c.computes = false →
      ∀ f ∈ [((operation, c) : Frame)], f.2.computes = false := by
    intro operation c hc f hf
    rw [List.mem_singleton.mp hf]
    exact hc
  cases hplan with
  | nothing =>
    cases hap
    exact .refl _
  | @command session revision operation c _ hnew hframed =>
    cases hc : c.computes with
    | true =>
      cases c with
      | interpreter request event =>
        rcases interpreter_leaves hleaves with rfl | ⟨env, hadmitted, hone⟩
        · exact .refl _
        · obtain ⟨u, hu, rfl⟩ := applyPlain_ok hone
          cases hu
          exact admitInterpreter_progress hadmitted
      | _ => cases hc
    | false =>
      exact frames_progress (hframed.all (q := fun c => c.computes = false) hc
        fun _ => logical_computes) hap
  | start => exact frames_progress linkFrames_computes hap
  | resume => exact frames_progress linkFrames_computes hap
  | «continue» => exact frames_progress linkFrames_computes hap
  | edit => exact frames_progress (hone rfl) hap
  | submit => exact frames_progress (hone rfl) hap
  | beginShell => exact frames_progress (hone rfl) hap
  | finishShell => exact frames_progress (two_frames rfl rfl) hap
  | move => exact frames_progress (hone rfl) hap
  | setStatus => exact frames_progress (hone rfl) hap

/-! ## the journal -/

def TurnSettled (db : Db) (id : SessionId) (request : Uuid) : Prop :=
  ∃ a, db.sessions.get id = some a ∧ ∃ r ∈ a.events, ∃ operation outcome error atMs,
    r.event.value = .ok (.command operation (.turnSettled request outcome error) atMs)

theorem interrupted_settled {db : Db} {w : World} (h : Represents db w) {id : SessionId}
    (hs : w.sessions id = some s) {cell : Uuid} {c : CellState}
    (hc : s.interpreter.cells[cell]? = some c) (hint : c.status = .interrupted) :
    TurnSettled db id c.request := by
  obtain ⟨a, ha, hholds⟩ := h.session_row hs
  suffices hall : ∀ (cell : Uuid) (c : CellState), s.interpreter.cells[cell]? = some c →
      c.status = .interrupted → ∃ r ∈ a.events, ∃ operation outcome error atMs,
        r.event.value = .ok (.command operation (.turnSettled c.request outcome error) atMs) from
    ⟨a, ha, hall cell c hc hint⟩
  refine Format.Holds.course (P := fun _ (u : SessionState) => ∀ (cell : Uuid) (c : CellState),
    u.interpreter.cells[cell]? = some c → c.status = .interrupted → ∃ r ∈ a.events,
      ∃ operation outcome error atMs,
        r.event.value = .ok (.command operation (.turnSettled c.request outcome error) atMs))
    (fun {d u} hcreate => ?_) (fun {n u r u'} hr hP hstep => ?_) hholds.events
  · obtain ⟨event, -, hcreate⟩ := bind_ok hcreate
    cases event with
    | created creation =>
      cases hcreate
      intro cell c hc
      cases (show (none : Option CellState) = some c from hc)
    | command operation c atMs => cases hcreate
  · obtain ⟨operation, c, atMs, v, operations, hvalue, hap, rfl, -⟩ := sessionStep_ok hstep
    intro cell d hd hint
    have hmove := apply_move hap
    change v.interpreter.cells[cell]? = some d at hd
    generalize hc : c.loaded = loaded at hmove
    generalize v.interpreter = i at hmove hd
    cases hmove with
    | none => exact hP cell d hd hint
    | event request event => exact hP cell d (apply_interrupted hd hint) hint
    | interrupt request outcome error =>
      rcases interrupt_origin hd with hold | hrequest
      · exact hP cell d hold hint
      · refine ⟨r, hr, operation, outcome, error, atMs, hvalue.trans ?_⟩
        rw [hrequest]
        cases c <;> first | rfl | cases hc
        rfl

/-! ## runs -/

/-- the operation under which the host records that a call of a cell begins -/
def callOperation (cell : Uuid) (ordinal : Nat) : Uuid :=
  cell.named ("call:" ++ showUsize ordinal ++ ":start")

def HostCall.begins : HostCall → Option (Uuid × Nat)
  | .command _ _ _ (.interpreter _ (.callStarted cell ordinal ..)) => some (cell, ordinal)
  | _ => none

def HostCall.Numbered (_ : SessionState) : HostCall → Prop
  | .command _ _ operation (.interpreter _ (.callStarted cell ordinal ..)) =>
    operation = callOperation cell ordinal
  | _ => True

variable {db db' : Db} {w w' : World} {id : SessionId}

theorem HostCall.begins_command {cell : Uuid} {ordinal : Nat} (hbegins : call.begins = some (cell, ordinal))
    (hnumbered : call.Numbered s) :
    ∃ revision request callId name arguments, call = .command call.session revision
      (callOperation cell ordinal) (.interpreter request
        (.callStarted cell ordinal callId name arguments)) := by
  unfold HostCall.begins at hbegins
  split at hbegins
  · rename_i session revision operation request other number callId name arguments
    cases hbegins
    cases (show operation = callOperation cell ordinal from hnumbered)
    exact ⟨revision, request, callId, name, arguments, rfl⟩
  · cases hbegins

theorem begins_recorded {cell : Uuid} {ordinal : Nat} {task : Option TaskState}
    (hbegins : call.begins = some (cell, ordinal)) (hnumbered : call.Numbered s)
    (hc : call.run env db = .ok (task, t, db')) :
    task = none ∧ callOperation cell ordinal ∈ t.operations := by
  obtain ⟨revision, request, callId, name, arguments, he⟩ := HostCall.begins_command hbegins hnumbered
  rw [he] at hc
  obtain ⟨_, hcommand, hc⟩ := bind_ok hc
  cases hc
  refine ⟨rfl, ?_⟩
  obtain ⟨u, g, -, ⟨rfl, -, hknown⟩ | ⟨-, -, -, -, hash, happ⟩⟩ := sessionCommand_ok hcommand
  · rw [Std.ExtTreeMap.mem_iff_isSome_getElem?, hknown]
    rfl
  · exact (mem_operations (applyAll_one.mp (append_one happ rfl))).mpr (.inl rfl)

/-- **A call of the host at a number that is recorded writes nothing.** -/
theorem begins_known (h : Represents db w) {cell : Uuid} {ordinal : Nat} {task : Option TaskState}
    (hs : w.sessions call.session = some s) (hknown : callOperation cell ordinal ∈ s.operations)
    (hbegins : call.begins = some (cell, ordinal)) (hnumbered : call.Numbered s)
    (hc : call.run env db = .ok (task, t, db')) : db' = db := by
  obtain ⟨revision, request, callId, name, arguments, he⟩ := HostCall.begins_command hbegins hnumbered
  rw [he] at hc
  obtain ⟨_, hcommand, hc⟩ := bind_ok hc
  cases hc
  obtain ⟨u, g, hl, ⟨-, hsame, -⟩ | ⟨hnew, -⟩⟩ := sessionCommand_ok hcommand
  · exact hsame
  · obtain ⟨hu, hid⟩ := SessionLoaded.of_load h hl
    have hstate := hu.state
    rw [hid, hs] at hstate
    cases hstate
    exact absurd hknown (not_mem_operations hnew)

theorem HostRun.cells {admits : SessionState → HostCall → Prop} (h : HostRun admits db w db' w')
    (hr : Represents db w) (howned : ∀ id s, w.sessions id = some s → s.interpreter.Owned) :
    (∀ id s, w'.sessions id = some s → s.interpreter.Owned) ∧
      ∀ id s, w.sessions id = some s → ∃ s', w'.sessions id = some s' ∧
        CellProgress s.interpreter s'.interpreter ∧ ∀ o ∈ s.operations, o ∈ s'.operations :=
  HostRun.session_course (P := fun s => s.interpreter.Owned)
    (R := fun s t => CellProgress s.interpreter t.interpreter ∧ ∀ o ∈ s.operations, o ∈ t.operations)
    (fun _ _ callId cell hcall => by
      cases (show (none : Option Uuid) = some cell from hcall))
    (fun s => ⟨.refl _, fun _ ho => ho⟩)
    (fun h h' => ⟨h.1.trans h'.1, fun o ho => h'.2 o (h.2 o ho)⟩)
    (fun hP _ _ hplan hap hleaves =>
      have hprogress := hplan.progress hap hleaves
      ⟨hprogress.owned hP, hprogress, applyAll_operations hap⟩) h hr howned

def NumberSpent (db : Db) (id : SessionId) (cell : Uuid) (ordinal : Nat) : Prop :=
  ∀ (env : Env) (call : HostCall) (s : SessionState) (task : Option TaskState) (db' : Db),
    call.session = id → call.begins = some (cell, ordinal) → call.Numbered s →
    call.run env db = .ok (task, s, db') → db' = db

/-- **The pending calls of an interpreter have their cells**, in every reachable state: a call is
named after its cell and its number, and the cell is pending, or it was interrupted when the turn of
its request was settled.  Cells are never forgotten, and what has ended stays as it ended.  Once a
number of a cell was begun under the operation of its number, no call of this kind begins it again. -/
theorem calls_owned {admits : SessionState → HostCall → Prop} (h : HostReachable admits db w)
    (hs : w.sessions id = some s) :
    (∀ callId cell, s.interpreter.pendingCalls[callId]? = some cell →
      ∃ c ordinal, s.interpreter.cells[cell]? = some c ∧ 0 < ordinal ∧
        callId = nestedCall cell ordinal ∧
        (c.status = .pending ∨ c.status = .interrupted ∧ TurnSettled db id c.request)) ∧
    (∀ db' w', HostRun admits db w db' w' → ∃ s', w'.sessions id = some s' ∧
      ∀ (cell : Uuid) (c : CellState), s.interpreter.cells[cell]? = some c →
        ∃ c', s'.interpreter.cells[cell]? = some c' ∧ c.Becomes c') ∧
    ∀ (env : Env) (call : HostCall) task t db₁ cell ordinal, call.session = id → call.begins = some (cell, ordinal) →
      call.Numbered s → call.run env db = .ok (task, t, db₁) →
      ∀ db₂ w₂, HostRun HostCall.Numbered db₁ (w.write task (some t)) db₂ w₂ →
        NumberSpent db₂ id cell ordinal := by
  have hr := h.represents
  have howned := (HostRun.cells h represents_empty fun _ _ h => nomatch h).1
  refine ⟨fun callId cell hcall => ?_, fun db' w' hrun => ?_, ?_⟩
  · obtain ⟨c, ordinal, hc, hpos, hname, hpending | hint⟩ := howned id s hs callId cell hcall
    · exact ⟨c, ordinal, hc, hpos, hname, .inl hpending⟩
    · exact ⟨c, ordinal, hc, hpos, hname, .inr ⟨hint, interrupted_settled hr hs hc hint⟩⟩
  · obtain ⟨s', hs', hprogress, -⟩ := (hrun.cells hr howned).2 id s hs
    exact ⟨s', hs', hprogress.stays⟩
  · intro env call task t db₁ cell ordinal hid hbegins hnumbered hc db₂ w₂ hrun
    obtain ⟨rfl, hknown⟩ := begins_recorded hbegins hnumbered hc
    -- the session after the call has recorded the number, and keeps it
    have hdirect : call.direct = true := by
      obtain ⟨_, _, _, _, _, he⟩ := HostCall.begins_command hbegins hnumbered
      rw [he]
      rfl
    have hrun₁ : HostRun (fun _ _ => True) db w db₁ (w.write none (some t)) :=
      .step .refl (.call hc hdirect fun _ _ _ => trivial)
    have hr₁ := hrun₁.represents hr
    have howned₁ := (hrun₁.cells hr howned).1
    have ht : (w.write none (some t)).sessions id = some t := by
      obtain ⟨u, head, frames, hl, -, hap⟩ := call.plan hc
      have hloaded := (SessionLoaded.of_load hr hl).2
      rw [← hid, ← hloaded, ← applyAll_id hap]
      exact World.setSession_get w t
    obtain ⟨s₂, hs₂, -, hkept⟩ := (hrun.cells hr₁ howned₁).2 id t ht
    intro env' call' s' task' db' hid' hbegins' hnumbered' hc'
    exact begins_known (hrun.represents hr₁) (by rw [hid']; exact hs₂)
      (hkept _ hknown) hbegins' hnumbered' hc'

end

/-! ## a turn that is settled while a cell calls the host -/

namespace Sample

variable {admits : SessionState → HostCall → Prop} {db : Db} {w : World}

theorem issued (h : HostReachable admits db w) {s s' : SessionState}
    (hs : w.sessions sessionId = some s) {operation : Uuid} {c : SessionCommand ContextView}
    (hap : s.apply operation c = .ok s') (hr : s.revision + 1 < 2 ^ 63) (howned : c.ownedBy s)
    (hnew : s.operations[operation]? = none)
    (hanswers : (c.answers.any fun request => s.activeRequest != some request) = false)
    (hadmitted : admitCommand env s db c = .ok ()) (hdirect : c.reserved = false)
    (ha : admits s (.command sessionId s.revision operation c)) :
    ∃ db', (HostCall.command sessionId s.revision operation c).run env db = .ok (none, s', db') ∧
      HostReachable admits db' (w.setSession s') := by
  obtain ⟨db', hc, -⟩ := issues h.represents hs hap hr howned hnew hanswers hadmitted
  have hcall : (HostCall.command sessionId s.revision operation c).run env db =
      .ok (none, s', db') := by
    rw [HostCall.run, hc, ok_bind]
  exact ⟨db', hcall, HostRun.step h (.call hcall (by rw [HostCall.direct, hdirect]; rfl)
    (admitted h.represents hs rfl ha))⟩

def cell : Uuid := ⟨20⟩

/-- the call of the model that runs the cell -/
def outerCall : Value := .object [("arguments", .string "{}"), ("call_id", .string "outer"),
  ("name", .string "interpreter_eval"), ("type", .string "function_call")]

def responseId : Uuid := ⟨21⟩

def proposed : SessionState := after linked responseId (.response firstRequest [outerCall])

def cellBegun : InterpreterEvent := .started cell taskId "outer" ⟨0⟩ ⟨0⟩ 1 ⟨0⟩

def computing : SessionState :=
  after proposed (cell.named "start") (.interpreter firstRequest cellBegun)

def innerCall : InterpreterEvent := .callStarted cell 1 (nestedCall cell 1) "read_file" ⟨0⟩

def calling : SessionState :=
  after computing (callOperation cell 1) (.interpreter firstRequest innerCall)

def innerResult : InterpreterEvent := .callSettled cell 1 ⟨0⟩

def answeredId : Uuid := ⟨23⟩

def answered : SessionState := after calling answeredId (.interpreter firstRequest innerResult)

/-- the same number once more, under another operation -/
def repeatId : Uuid := ⟨24⟩

def callingAgain : SessionState := after answered repeatId (.interpreter firstRequest innerCall)

def settledId : Uuid := ⟨22⟩

def abandoned : SessionState := after calling settledId (.turnSettled firstRequest none none)

theorem hostReachable_linked
    (hstart : admits opened (.startTask sessionId firstRequest contract taskId)) :
    ∃ db w, HostReachable admits db w ∧ w.sessions sessionId = some linked := by
  obtain ⟨db, hopen, ht, -⟩ := opens
  have hr : HostReachable admits db (World.empty.setSession opened) :=
    HostRun.step .refl (.create hopen)
  have hs := World.setSession_get World.empty opened
  obtain ⟨db₁, hstarts, -⟩ := starts hr.represents hs ht
  have hcall : (HostCall.startTask sessionId firstRequest contract taskId).run env db =
      .ok (some begun, linked, db₁) := by
    rw [HostCall.run, hstarts, ok_bind]
  exact ⟨db₁, _, HostRun.step hr (.call hcall rfl (admitted hr.represents hs rfl hstart)),
    World.setSession_get _ linked⟩

theorem cell_admitted : admitResponse linked [outerCall] = .ok () ∧
    proposed.operations[cell.named "start"]? = none ∧
    admitInterpreter env proposed firstRequest cellBegun = .ok () ∧
    computing.operations[callOperation cell 1]? = none ∧
    admitInterpreter env computing firstRequest innerCall = .ok () ∧
    calling.interpreter.pendingCalls[nestedCall cell 1]? = some cell ∧
    calling.operations[settledId]? = none ∧
    abandoned.interpreter.pendingCalls[nestedCall cell 1]? = some cell := by
  decide +kernel

theorem repeat_admitted : calling.operations[answeredId]? = none ∧
    admitInterpreter env calling firstRequest innerResult = .ok () ∧
    answered.operations[repeatId]? = none ∧
    admitInterpreter env answered firstRequest innerCall = .ok () ∧
    (answered.operations[callOperation cell 1]?).isSome = true ∧
    callingAgain.interpreter.pendingCalls[nestedCall cell 1]? = some cell := by
  decide +kernel

theorem reachable_computing :
    ∃ db w, HostReachable HostCall.Numbered db w ∧ w.sessions sessionId = some computing := by
  obtain ⟨hresponse, hnew, hbegun, -⟩ := cell_admitted
  obtain ⟨db, w, hr, hs⟩ := @hostReachable_linked HostCall.Numbered trivial
  obtain ⟨db₁, -, hr₁⟩ := issued hr hs
    (show linked.apply responseId (.response firstRequest [outerCall]) = .ok proposed from rfl)
    (by decide) trivial rfl (by decide)
    hresponse rfl trivial
  obtain ⟨db₂, -, hr₂⟩ := issued hr₁ (World.setSession_get w proposed)
    (show proposed.apply (cell.named "start") (.interpreter firstRequest cellBegun) = .ok computing from rfl)
    (by decide) trivial hnew (by decide) hbegun rfl trivial
  exact ⟨db₂, _, hr₂, World.setSession_get _ computing⟩

theorem calls (h : HostReachable HostCall.Numbered db w) (hs : w.sessions sessionId = some computing) :
    ∃ db', (HostCall.command sessionId 5 (callOperation cell 1)
      (.interpreter firstRequest innerCall)).run env db = .ok (none, calling, db') ∧ HostReachable HostCall.Numbered db' (w.setSession calling) := by
  obtain ⟨-, -, -, hnew, hcalled, -⟩ := cell_admitted
  exact issued h hs (show computing.apply (callOperation cell 1) (.interpreter firstRequest innerCall) =
      .ok calling from rfl) (by decide) (show computing.interpreter.cells ≠ ∅ from Std.ExtTreeMap.insert_ne_empty)
    hnew (by decide) hcalled rfl rfl

end Sample

open Sample in
theorem calls_owned_calling : ∃ db w, HostReachable HostCall.Numbered db w ∧
    w.sessions sessionId = some calling ∧
    (∃ c ordinal, calling.interpreter.cells[cell]? = some c ∧ 0 < ordinal ∧
      nestedCall cell 1 = nestedCall cell ordinal ∧
      (c.status = .pending ∨ c.status = .interrupted ∧ TurnSettled db sessionId c.request)) ∧
    NumberSpent db sessionId cell 1 := by
  obtain ⟨db, w, hr, hs⟩ := reachable_computing
  obtain ⟨db₁, hcall, hr₁⟩ := Sample.calls hr hs
  obtain ⟨-, -, -, -, -, hpending, -⟩ := cell_admitted
  have hs₁ := World.setSession_get w calling
  exact ⟨db₁, _, hr₁, hs₁, (calls_owned hr₁ hs₁).1 _ cell hpending,
    (calls_owned hr hs).2.2 env (.command sessionId 5 (callOperation cell 1)
      (.interpreter firstRequest innerCall)) none calling db₁ cell 1 rfl rfl rfl hcall _ _ .refl⟩

open Sample in
/-- a call outlives the turn of its cell, and a number is begun again under another operation -/
theorem calls_owned_interrupted :
    (∃ db w s c, HostReachable HostCall.Numbered db w ∧
      w.sessions sessionId = some s ∧ s.interpreter.pendingCalls[nestedCall cell 1]? = some cell ∧
      s.interpreter.cells[cell]? = some c ∧ c.status = .interrupted) ∧
    ∃ db w db', HostReachable (fun _ _ => True) db w ∧ w.sessions sessionId = some answered ∧
      callOperation cell 1 ∈ answered.operations ∧
      (HostCall.command sessionId 7 repeatId (.interpreter firstRequest innerCall)).run env db =
        .ok (none, callingAgain, db') ∧
      callingAgain.interpreter.pendingCalls[nestedCall cell 1]? = some cell := by
  obtain ⟨db, w, hr, hs⟩ := reachable_computing
  obtain ⟨-, -, -, -, -, -, hnew, hpending⟩ := cell_admitted
  obtain ⟨hnew₁, hadmitted₁, hnew₂, hadmitted₂, hknown, hagain⟩ := repeat_admitted
  obtain ⟨db₁, -, hr₁⟩ := calls hr hs
  have hs₁ := World.setSession_get w calling
  refine ⟨?_, ?_⟩
  · obtain ⟨db₂, -, hr₂⟩ := issued hr₁ hs₁
      (show calling.apply settledId (.turnSettled firstRequest none none) = .ok abandoned from rfl)
      (by decide) trivial hnew (by decide) rfl rfl trivial
    exact ⟨db₂, _, abandoned, _, hr₂, World.setSession_get _ abandoned, hpending, rfl, rfl⟩
  · obtain ⟨db₂, -, hr₂⟩ := issued (HostRun.mono hr₁ fun _ _ _ => trivial) hs₁
      (show calling.apply answeredId (.interpreter firstRequest innerResult) = .ok answered from rfl)
      (by decide) trivial hnew₁ (by decide) hadmitted₁ rfl trivial
    have hs₂ := World.setSession_get (w.setSession calling) answered
    obtain ⟨db₃, hcall, -⟩ := issued hr₂ hs₂
      (show answered.apply repeatId (.interpreter firstRequest innerCall) = .ok callingAgain from rfl)
      (by decide) (show answered.interpreter.cells ≠ ∅ from Std.ExtTreeMap.insert_ne_empty) hnew₂
      (by decide) hadmitted₂ rfl trivial
    exact ⟨db₂, _, db₃, hr₂, hs₂, Std.ExtTreeMap.mem_iff_isSome_getElem?.mpr hknown, hcall, hagain⟩

end Orvek
