import Orvek.Store.Journal
import Mathlib.Data.Option.Basic
import Mathlib.Logic.Function.Basic

/-!
# Reading back what was written

The store is meant to be a map from identifiers to states, the `World`.  `Represents` says that a
database is such a map in journal form: every row replays to its state, from the first event and
from every checkpoint.

* `Represents.loadState`, `Represents.loadSession`   a represented state is what loading returns;
* `Represents.appendTask`                            an event that was appended to the state a task
                                                     is in leaves the task in the state it leads to;
* `Represents.appendSession`                         the same for a command, in one event or in parts.
-/

set_option linter.unusedSectionVars false

namespace Orvek
open Checks Journal

/-- the states that the store is to remember -/
@[ext]
structure World where
  tasks : TaskId → Option TaskState
  sessions : SessionId → Option SessionState

def World.empty : World := ⟨fun _ => none, fun _ => none⟩

def World.setTask (w : World) (s : TaskState) : World :=
  { w with tasks := Function.update w.tasks s.id (some s) }

def World.setSession (w : World) (s : SessionState) : World :=
  { w with sessions := Function.update w.sessions s.id (some s) }

theorem World.setTask_self {w : World} {s : TaskState} (h : w.tasks s.id = some s) : w.setTask s = w := by
  rw [setTask, ← h, Function.update_eq_self]

theorem World.setSession_self {w : World} {s : SessionState} (h : w.sessions s.id = some s) :
    w.setSession s = w := by
  rw [setSession, ← h, Function.update_eq_self]

section
variable [Sha256] [ContractCodec] [SessionCodec] [StoreCodec]
variable {id : SessionId} {a : SessionAggregate} {s s' t : SessionState} {operation : Uuid}
  {c : SessionCommand ContextView}

/-! ## an aggregate in journal form -/

/-- the rows of an aggregate replay to the state `s`, from the beginning and from every checkpoint;
`document` is how a state is stored, and `revision` the number a state carries -/
structure Replays {σ τ δ : Type} (F : Format σ δ Digest StoreError) (document : σ → τ)
    (revision : σ → Nat) (Good : σ → Prop) (a : Aggregate τ δ Digest) (s : σ) : Prop where
  events : F.Holds a.events s a.head
  length : a.revision = a.events.length
  state : a.state = document s
  numbered : revision s = a.revision
  good : Good s
  checkpoints : ∀ c ∈ a.checkpoints, 0 < c.revision ∧ c.revision ≤ a.events.length ∧
    ∃ t, c.state = document t ∧ revision t = c.revision ∧ Good t ∧
      F.Holds (a.events.take c.revision) t c.head

section
variable {σ τ δ : Type} {F : Format σ δ Digest StoreError} {document : σ → τ} {revision : σ → Nat}
  {Good : σ → Prop} {a : Aggregate τ δ Digest} {s : σ}

theorem Replays.pos (h : Replays F document revision Good a s) : 0 < a.events.length := by
  rcases Nat.eq_zero_or_pos a.events.length with h0 | h0
  · have := h.events
    rw [List.length_eq_zero_iff.mp h0] at this
    cases this
  · exact h0

theorem Replays.created {d : δ} (hcreate : F.create d = .ok s) (hsize : F.size d ≤ F.maxBytes)
    (hone : revision s = 1) (hgood : Good s) :
    Replays F document revision Good (created d (document s) (F.hash 1 none d)) s where
  events := Format.Holds.create hcreate hsize
  length := rfl
  state := rfl
  numbered := hone
  good := hgood
  checkpoints c hc := by
    cases List.mem_singleton.mp hc
    exact ⟨Nat.one_pos, Nat.le_refl 1, s, rfl, hone, hgood, Format.Holds.create hcreate hsize⟩

theorem Replays.kept (h : Replays F document revision Good a s) (r : Row δ Digest) :
    ∀ c ∈ a.checkpoints, 0 < c.revision ∧ c.revision ≤ (a.events ++ [r]).length ∧
      ∃ t, c.state = document t ∧ revision t = c.revision ∧ Good t ∧
        F.Holds ((a.events ++ [r]).take c.revision) t c.head := by
  intro c hc
  obtain ⟨hpos, hle, t, ht⟩ := h.checkpoints c hc
  rw [List.length_append, List.take_append_of_le_length hle]
  exact ⟨hpos, Nat.le_add_right_of_le hle, t, ht⟩

theorem Replays.extend (h : Replays F document revision Good a s) {d : δ} {s' : σ}
    (hstep : F.step s d = .ok s') (hsize : F.size d ≤ F.maxBytes)
    (hnext : revision s' = revision s + 1) (hgood : Good s') {b : Aggregate τ δ Digest}
    (hb : extend a (revision s') d (document s') (F.hash (revision s') (some a.head) d) = some b) :
    Replays F document revision Good b s' := by
  have hrev : revision s' = a.events.length + 1 := by rw [hnext, h.numbered, h.length]
  unfold Orvek.extend at hb
  rw [hrev, insertRow_last fun r hr => Nat.lt_succ_of_le (h.events.numbered r hr).2] at hb
  cases hb
  have happ := h.events.append hstep hsize
  refine ⟨happ, by simp, rfl, hrev, hgood, fun c hc => ?_⟩
  simp only at hc ⊢
  split at hc
  · rcases mem_putCheckpoint hc with rfl | hc
    · refine ⟨Nat.succ_pos _, by simp, s', rfl, hrev, hgood, ?_⟩
      rw [List.take_of_length_le (by simp)]
      exact happ
    · exact h.kept _ c hc
  · exact h.kept _ c hc

theorem Replays.resume (h : Replays F document revision Good a s) {c : Checkpoint τ Digest}
    (hc : c ∈ a.checkpoints) : ∃ t, c.state = document t ∧ revision t = c.revision ∧ Good t ∧
      F.replay ⟨some t, some c.head, c.revision⟩ (a.events.drop c.revision) =
        .ok ⟨some s, some a.head, a.events.length⟩ := by
  obtain ⟨-, hle, t, hdoc, hrev, hgood, hholds⟩ := h.checkpoints c hc
  exact ⟨t, hdoc, hrev, hgood, h.events.resume hle hholds⟩

end

/-! ## tasks -/

/-- a task in journal form -/
abbrev TaskHolds (id : TaskId) : TaskAggregate → TaskState → Prop :=
  Replays (taskFormat id) TaskState.document TaskState.revision fun s => s.id = id

theorem taskCursor_ok {id : TaskId} {a : TaskAggregate} {s : TaskState} (h : TaskHolds id a s) :
    ∃ c, taskCursor id a = .ok c ∧
      (taskFormat id).replay c (a.events.filter fun r => c.sequence < r.revision) =
        .ok ⟨some s, some a.head, a.events.length⟩ := by
  unfold taskCursor
  split
  · refine ⟨start, rfl, ?_⟩
    rw [h.events.after]
    exact h.events
  · rename_i c hc
    obtain ⟨t, hdoc, hrev, hid, hresume⟩ := h.resume (latest_mem hc).1
    refine ⟨⟨some t, some c.head, c.revision⟩, ?_, by rw [h.events.after]; exact hresume⟩
    rw [hdoc]
    show (refuseIf (t.id ≠ id ∨ t.revision ≠ c.revision) _ >>= _) = _
    rw [refuseIf_of_not _ (by simp [hid, hrev])]
    rfl

theorem TaskHolds.load {id : TaskId} {a : TaskAggregate} {s : TaskState} (h : TaskHolds id a s) :
    loadAggregate id a = .ok (s, a.head) := by
  obtain ⟨c, hc, hreplay⟩ := taskCursor_ok h
  rw [loadAggregate, hc, ok_bind, hreplay, ok_bind]
  show (refuseIf (_ ≠ a.revision ∨ a.head ≠ a.head ∨ StoreCodec.taskState s ≠ a.state.bytes) _ >>= _) = _
  rw [refuseIf_of_not _ (by simp [h.length, h.state, TaskState.document])]
  rfl

/-- the two events that only begin a journal -/
def TaskEvent.isCreation : TaskEvent → Bool
  | .requested .. => true
  | .created .. => true
  | _ => false

theorem taskStep_document (s : TaskState) {e : TaskEvent} (h : e.isCreation = false) :
    taskStep s e.document = .ok (s.apply e) := by
  cases e <;> first | rfl | cases h

theorem apply_revision (s : TaskState) (e : TaskEvent) : (s.apply e).revision = s.revision + 1 := by
  have hupdate : (s.update e).revision = s.revision := by
    cases e <;> simp only [TaskState.update] <;> first | rfl | (split <;> rfl)
  rw [TaskState.apply, hupdate]

theorem apply_id (s : TaskState) (e : TaskEvent) : (s.apply e).id = s.id := by
  show (s.update e).id = s.id
  cases e <;> simp only [TaskState.update] <;> first | rfl | (split <;> rfl)

/-! ## sessions -/

/-- the calls of an interpreter belong to cells, so that writing the state loses none of them -/
def SessionState.OwnsCalls (s : SessionState) : Prop :=
  s.interpreter.cells = ∅ → s.interpreter.pendingCalls = ∅

theorem SessionState.OwnsCalls.reread (h : s.OwnsCalls) : s.reread = s := by
  unfold SessionState.reread
  split
  · rename_i hempty
    rw [InterpreterState.isEmpty, Bool.and_eq_true, Std.ExtTreeMap.isEmpty_iff,
      Option.isNone_iff_eq_none] at hempty
    obtain ⟨hcells, hcheck⟩ := hempty
    have hint : s.interpreter = InterpreterState.empty := by
      cases hi : s.interpreter with
      | mk checkpoint cells pendingCalls =>
        rw [hi] at hcells hcheck
        have hcalls := h (by rw [hi]; exact hcells)
        rw [hi] at hcalls
        simp only at hcells hcheck hcalls
        rw [hcells, hcheck, hcalls]
        rfl
    rw [← hint]
  · rfl

/-- a session in journal form -/
abbrev SessionHolds (id : SessionId) : SessionAggregate → SessionState → Prop :=
  Replays (sessionFormat id) SessionState.document SessionState.revision
    fun s => s.id = id ∧ s.OwnsCalls

theorem apply_stored (s : SessionState) (operation : Uuid) (c : SessionCommand ContextView) :
    s.apply operation c.stored.loaded = s.apply operation c := by
  cases c with
  | contextProjected revision view projection =>
    cases view with
    | none => rfl
    | some view => rfl
  | _ => rfl

theorem sessionStep_document (s : SessionState) (operation : Uuid) (c : SessionCommand ContextView)
    (atMs : Nat) :
    sessionStep s (SessionEvent.command operation c.stored atMs).document =
      (s.apply operation c).mapError StoreError.json := by
  have hlegacy : legacyContextCommand (SessionEvent.command operation c.stored atMs).document = none := by
    cases c with
    | contextProjected revision view projection =>
      cases view with
      | none => rfl
      | some view => rfl
    | _ => rfl
  show ((s.apply operation c.stored.loaded).mapError StoreError.json >>= fun s =>
    restoreLegacy s operation (legacyContextCommand _)) = _
  rw [hlegacy, apply_stored]
  cases s.apply operation c <;> rfl

/-! ## what a command keeps -/

/-- what a command can do to the interpreter of a session -/
inductive InterpreterMove (s : SessionState) : SessionCommand ContextView → InterpreterState → Prop
  | none {c : SessionCommand ContextView} : InterpreterMove s c s.interpreter
  | event (request : Uuid) (event : InterpreterEvent) :
      InterpreterMove s (.interpreter request event) (s.interpreter.apply request event)
  | interrupt (request : Uuid) (outcome : Option Outcome) (error : Option String) :
      InterpreterMove s (.turnSettled request outcome error) (s.interpreter.interrupt request)

/-- the identity, the number, the origin and the operations of a session are not the command's to
change -/
structure UpdateKeeps (s : SessionState) (c : SessionCommand ContextView) (t : SessionState) : Prop where
  id : t.id = s.id
  revision : t.revision = s.revision
  parent : t.parent = s.parent
  operations : t.operations = s.operations
  interpreter : InterpreterMove s c t.interpreter

theorem apply_keeps_parts (h : s.apply operation c = .ok s') :
    ∃ t digest, UpdateKeeps s c t ∧ s' = t.record operation digest ∧
      ((∀ request callId d, c ≠ .toolResultEnd request callId d) → digest = c.digest) := by
  obtain ⟨t, digest, ht, rfl, hdigest⟩ := apply_applied h
  refine ⟨t, digest, ?_, rfl, hdigest⟩
  cases ht with
  | interpreter request event => exact ⟨rfl, rfl, rfl, rfl, .event request event⟩
  | turnSettled request outcome error => exact ⟨rfl, rfl, rfl, rfl, .interrupt request outcome error⟩
  | shellStarted job =>
    unfold SessionState.shellStarted
    cases job.task <;> exact ⟨rfl, rfl, rfl, rfl, .none⟩
  | _ => exact ⟨rfl, rfl, rfl, rfl, .none⟩

def SessionCommand.ownedBy (s : SessionState) : SessionCommand ContextView → Prop
  | .interpreter _ (.callStarted ..) => s.interpreter.cells ≠ ∅
  | _ => True

theorem InterpreterMove.owns {i : InterpreterState} (h : InterpreterMove s c i) (hs : s.OwnsCalls)
    (hc : c.ownedBy s) : i.cells = ∅ → i.pendingCalls = ∅ := by
  cases h with
  | none => exact hs
  | event request event =>
    cases event with
    | started cell task outerCall source runtime generation environment =>
      intro h0
      exact absurd h0 (Std.ExtTreeMap.insert_ne_empty)
    | callStarted cell ordinal callId name arguments => exact fun h0 => absurd h0 hc
    | callSettled cell ordinal result =>
      intro h0
      have := hs h0
      simp [InterpreterState.apply, this]
    | settled cell result checkpoint stateLost =>
      intro h0
      have hcells : s.interpreter.cells = ∅ := Std.ExtTreeMap.modify_eq_empty_iff.mp h0
      have := hs hcells
      simp [InterpreterState.apply, this, Std.ExtTreeMap.filter_eq_empty_iff]
  | interrupt request outcome error =>
    intro h0
    exact hs (Std.ExtTreeMap.map_eq_empty_iff.mp h0)

/-- **A command advances the number of its session by one** and keeps its identity. -/
theorem apply_keeps (h : s.apply operation c = .ok s') : s'.id = s.id ∧ s'.revision = s.revision + 1 ∧
      (s.OwnsCalls → c.ownedBy s → s'.OwnsCalls) := by
  obtain ⟨t, _, hk, rfl, -⟩ := apply_keeps_parts h
  refine ⟨hk.id, ?_, hk.interpreter.owns⟩
  show t.revision + 1 = s.revision + 1
  rw [hk.revision]

theorem apply_parent (h : s.apply operation c = .ok s') : s'.parent = s.parent := by
  obtain ⟨t, _, hk, rfl, -⟩ := apply_keeps_parts h
  exact hk.parent

theorem apply_operations (h : s.apply operation c = .ok s') :
    ∃ digest, s'.operations = s.operations.insert operation digest ∧
      ((∀ request callId d, c ≠ .toolResultEnd request callId d) → digest = c.digest) := by
  obtain ⟨t, digest, hk, rfl, hdigest⟩ := apply_keeps_parts h
  refine ⟨digest, ?_, hdigest⟩
  show t.operations.insert operation digest = _
  rw [hk.operations]

/-! ## reading a session back -/

/-- an event of a journal that is applied to a state -/
theorem sessionStep_ok {d : SessionDocument} (h : sessionStep s d = .ok s') :
    ∃ operation c atMs t operations, d.value = .ok (.command operation c atMs) ∧
      s.apply operation c.loaded = .ok t ∧ s' = { t with operations := operations } ∧
      (operations = t.operations ∨ ∃ digest, operations = t.operations.insert operation digest) := by
  obtain ⟨event, hread, h⟩ := bind_ok h
  have hvalue : d.value = .ok event := by
    unfold SessionDocument.read at hread
    cases hd : d.value with
    | error e => rw [hd] at hread; cases hread
    | ok x => rw [hd] at hread; cases hread; rfl
  cases event with
  | created creation => cases h
  | command operation c atMs =>
    obtain ⟨t, ht, h⟩ := bind_ok h
    have hap : s.apply operation c.loaded = .ok t := by
      cases hc : s.apply operation c.loaded with
      | error e => rw [hc] at ht; cases ht
      | ok u => rw [hc] at ht; cases ht; rfl
    unfold restoreLegacy at h
    split at h
    · cases h
      exact ⟨operation, c, atMs, s', s'.operations, hvalue, hap, rfl, .inl rfl⟩
    · obtain ⟨-, h⟩ := refuseIf_bind h
      cases h
      exact ⟨operation, c, atMs, t, _, hvalue, hap, rfl, .inr ⟨_, rfl⟩⟩

theorem sessionHolds_numbered {rows : List (Row SessionDocument Digest)} {head : Digest}
    (h : (sessionFormat id).Holds rows s head) : s.id = id ∧ s.revision = rows.length := by
  refine h.invariant (P := fun n s => s.id = id ∧ s.revision = n) (fun {d s} hc => ?_)
    fun {n s d s'} hP hstep => ?_
  · obtain ⟨event, -, hc⟩ := bind_ok hc
    cases event with
    | created creation =>
      cases hc
      exact ⟨rfl, rfl⟩
    | command operation c atMs => cases hc
  · obtain ⟨operation, c, atMs, t, operations, -, hap, rfl, -⟩ := sessionStep_ok hstep
    obtain ⟨hid, hrev, -⟩ := apply_keeps hap
    exact ⟨hid.trans hP.1, by rw [← hP.2]; exact hrev⟩

theorem replay_parent {rows : List (Row SessionDocument Digest)} {g head : Option Digest} {n m : Nat}
    (h : (sessionFormat id).replay ⟨some s, g, n⟩ rows = .ok ⟨some t, head, m⟩) : t.parent = s.parent := by
  obtain ⟨u, hu, hP⟩ := Format.replay_invariant (P := fun _ u => u.parent = s.parent)
    (fun {n u r u'} _ hP hstep => by
      obtain ⟨operation, c, atMs, v, operations, -, hap, rfl, -⟩ := sessionStep_ok hstep
      exact (apply_parent hap).trans hP) h rfl rfl
  cases hu
  exact hP

/-- the rows of a session up to a revision, from the last checkpoint before it -/
theorem sessionCursor_ok {head : Digest} (h : SessionHolds id a s) {k : Nat} (hk : k ≤ a.events.length)
    (ht : (sessionFormat id).Holds (a.events.take k) t head) :
    ∃ c, sessionCursor id a k = .ok c ∧
      (sessionFormat id).replay c (a.events.filter fun r => c.sequence < r.revision ∧ r.revision ≤ k) =
        .ok ⟨some t, some head, k⟩ := by
  have hlen : (a.events.take k).length = k := List.length_take_of_le hk
  have hall : ∀ j, (a.events.filter fun r => j < r.revision ∧ r.revision ≤ k) =
      (a.events.take k).drop j := fun j => by
    rw [← ht.after, ← h.events.upTo, List.filter_filter]
    refine List.filter_congr fun r _ => ?_
    simp
  unfold sessionCursor
  split
  · refine ⟨start, rfl, ?_⟩
    rw [hall]
    have := ht
    unfold Format.Holds at this
    rw [hlen] at this
    exact this
  · rename_i c hc
    obtain ⟨hmem, hle⟩ := latest_mem hc
    obtain ⟨-, -, u, hdoc, hrev, hgood, hholds⟩ := h.checkpoints c hmem
    refine ⟨⟨some u, some c.head, c.revision⟩, ?_, ?_⟩
    · rw [hdoc]
      show (Except.ok u.reread >>= fun s => refuseIf (s.id ≠ id ∨ s.revision ≠ c.revision) _ >>= _) = _
      rw [hgood.2.reread, ok_bind, refuseIf_of_not _ (by simp [hgood.1, hrev])]
      rfl
    · rw [hall]
      have := ht.resume (k := c.revision) (by omega) (t := u) (g := c.head)
        (by rw [List.take_take, Nat.min_eq_left hle]; exact hholds)
      rw [hlen] at this
      exact this

theorem sessionCacheMatches_document (s : SessionState) :
    sessionCacheMatches s s.document = .ok true := if_pos rfl

/-- **A session is read at a revision as its first events leave it**, whatever came after them and
wherever the reading begins. -/
theorem SessionHolds.load_at {head : Digest} (h : SessionHolds id a s) {k : Nat} (hpos : 0 < k)
    (hk : k ≤ a.events.length) (ht : (sessionFormat id).Holds (a.events.take k) t head) :
    loadSessionAggregate id a (some k) = .ok (t, head) := by
  obtain ⟨c, hc, hreplay⟩ := sessionCursor_ok h hk ht
  have hrev : t.revision = k := (sessionHolds_numbered ht).2.trans (List.length_take_of_le hk)
  have hlast : k ≤ a.revision := by rw [h.length]; exact hk
  unfold loadSessionAggregate
  simp only [Option.getD_some]
  rw [refuseIf_of_not _ (by omega), ok_bind, hc, ok_bind, hreplay, ok_bind]
  show (refuseIf (t.revision ≠ k) _ >>= _) = _
  rw [refuseIf_of_not _ (by simp [hrev]), ok_bind]
  split
  · rename_i heq
    -- the last revision: the rows are all of them
    rw [heq, h.length, List.take_length] at ht
    have hsame := h.events.symm.trans ht
    cases hsame
    show (refuseIf (a.head ≠ a.head) _ >>= _) = _
    rw [refuseIf_of_not _ (by simp), ok_bind, h.state, sessionCacheMatches_document, ok_bind]
    rfl
  · rfl

theorem SessionHolds.load (h : SessionHolds id a s) : loadSessionAggregate id a none = .ok (s, a.head) := by
  show loadSessionAggregate id a (some a.revision) = _
  have hpos := h.pos
  refine h.load_at (by rw [h.length]; exact hpos) (Nat.le_of_eq h.length) ?_
  rw [h.length, List.take_length]
  exact h.events

/-! ## the whole database -/

/-- every row of the database is the journal of a state of the world, and every state has its row -/
structure Represents (db : Db) (w : World) : Prop where
  tasks : ∀ id, Option.Rel (TaskHolds id) (db.tasks.get id) (w.tasks id)
  sessions : ∀ id, Option.Rel (SessionHolds id) (db.sessions.get id) (w.sessions id)

theorem represents_empty : Represents Db.empty World.empty := ⟨fun _ => .none, fun _ => .none⟩

section
variable {db db' : Db} {w : World}
variable {id : SessionId} {s t s' : SessionState} {head hash : Digest} {operation : Uuid}
  {c : SessionCommand ContextView}

theorem Represents.task_row (h : Represents db w) {id : TaskId} {s : TaskState}
    (hs : w.tasks id = some s) : ∃ a, db.tasks.get id = some a ∧ TaskHolds id a s := by
  have hr := h.tasks id
  rw [hs] at hr
  cases ha : db.tasks.get id with
  | none => rw [ha] at hr; cases hr
  | some a =>
    rw [ha] at hr
    cases hr with
    | some hr => exact ⟨a, rfl, hr⟩

theorem Represents.session_row (h : Represents db w) (hs : w.sessions id = some s) :
    ∃ a, db.sessions.get id = some a ∧ SessionHolds id a s := by
  have hr := h.sessions id
  rw [hs] at hr
  cases ha : db.sessions.get id with
  | none => rw [ha] at hr; cases hr
  | some a =>
    rw [ha] at hr
    cases hr with
    | some hr => exact ⟨a, rfl, hr⟩

/-- the row of a task or session whose state and head were loaded -/
def TaskHead (db : Db) (id : TaskId) (head : Digest) : Prop :=
  ∃ a, db.tasks.get id = some a ∧ a.head = head

def SessionHead (db : Db) (id : SessionId) (head : Digest) : Prop :=
  ∃ a, db.sessions.get id = some a ∧ a.head = head

theorem Represents.loadState (h : Represents db w) {id : TaskId} {s : TaskState}
    (hs : w.tasks id = some s) : ∃ head, loadState db id = .ok (s, head) := by
  obtain ⟨a, ha, hholds⟩ := h.task_row hs
  refine ⟨a.head, ?_⟩
  rw [Orvek.loadState, ha]
  exact hholds.load

theorem Represents.of_loadState (h : Represents db w) {id : TaskId} {s : TaskState}
    (hl : Orvek.loadState db id = .ok (s, head)) :
    w.tasks id = some s ∧ s.id = id ∧ TaskHead db id head := by
  have hr := h.tasks id
  rw [Orvek.loadState] at hl
  cases ha : db.tasks.get id with
  | none => rw [ha] at hl; cases hl
  | some a =>
    rw [ha] at hl hr
    generalize hw : w.tasks id = t at hr
    cases hr with
    | some hholds =>
      have he := hholds.load.symm.trans hl
      cases he
      exact ⟨rfl, hholds.good, a, ha, rfl⟩

theorem Represents.loadSession (h : Represents db w) (hs : w.sessions id = some s) :
    ∃ head, loadSessionState db id none = .ok (s, head) := by
  obtain ⟨a, ha, hholds⟩ := h.session_row hs
  refine ⟨a.head, ?_⟩
  rw [loadSessionState, ha]
  exact hholds.load

theorem Represents.of_loadSession (h : Represents db w) (hl : loadSessionState db id none = .ok (s, head)) :
    w.sessions id = some s ∧ s.id = id ∧ SessionHead db id head := by
  have hr := h.sessions id
  rw [loadSessionState] at hl
  cases ha : db.sessions.get id with
  | none => rw [ha] at hl; cases hl
  | some a =>
    rw [ha] at hl hr
    generalize hw : w.sessions id = t at hr
    cases hr with
    | some hholds =>
      have he := hholds.load.symm.trans hl
      cases he
      exact ⟨rfl, hholds.good.1, a, ha, rfl⟩

theorem Represents.loadSession_now (h : Represents db w) (hs : w.sessions id = some s) :
    ∃ head, loadSessionState db id (some s.revision) = .ok (s, head) := by
  obtain ⟨a, ha, hholds⟩ := h.session_row hs
  refine ⟨a.head, ?_⟩
  rw [loadSessionState, ha, show s.revision = a.revision from hholds.numbered]
  exact hholds.load

theorem Represents.missingSession (h : Represents db w) (hs : w.sessions id = none) :
    db.sessions.get id = none := by
  have hr := h.sessions id
  rw [hs] at hr
  generalize db.sessions.get id = x at hr
  cases hr
  rfl

theorem Represents.loadSession_none (h : Represents db w) (hs : w.sessions id = none) :
    loadSessionState db id none = .error (.missingSession id) := by
  rw [loadSessionState, h.missingSession hs]

theorem Represents.of_loadSession_at (h : Represents db w) {k : Nat}
    (hl : loadSessionState db id (some k) = .ok (t, head)) :
    ∃ s, w.sessions id = some s ∧ (t.id = id ∧ t.revision = k ∧ t.parent = s.parent) ∧ k ≤ s.revision := by
  have hr := h.sessions id
  rw [loadSessionState] at hl
  cases ha : db.sessions.get id with
  | none => rw [ha] at hl; cases hl
  | some a =>
    rw [ha] at hl hr
    generalize w.sessions id = x at hr
    cases hr with
    | @some _ s hholds =>
      obtain ⟨hrange, -⟩ := refuseIf_bind hl
      simp only [Option.getD_some] at hrange
      have hk : k ≤ a.events.length := by rw [← hholds.length]; omega
      obtain ⟨u, g, hu⟩ := hholds.events.take (k := k) (by omega) hk
      cases (hholds.load_at (by omega) hk hu).symm.trans hl
      obtain ⟨hid, hrev⟩ := sessionHolds_numbered hu
      rw [List.length_take_of_le hk] at hrev
      refine ⟨s, rfl, ⟨hid, hrev, ?_⟩, ?_⟩
      · exact (replay_parent (hholds.events.resume hk hu)).symm
      · rw [show s.revision = a.revision from hholds.numbered, hholds.length]
        exact hk

omit [Sha256] [ContractCodec] [SessionCodec] [StoreCodec] in
theorem orSql_ok {α : Type} {x : Option α} {a : α} (h : orSql x = .ok a) : x = some a := by
  cases x with
  | none => cases h
  | some b =>
    cases h
    rfl

theorem Represents.updateTask (h : Represents db w) {s : TaskState} {b : TaskAggregate}
    (hb : TaskHolds s.id b s) (hrow : (db.tasks.get s.id).isSome = true) :
    Represents { db with tasks := db.tasks.update s.id fun _ => b } (w.setTask s) := by
  refine ⟨fun id => ?_, h.sessions⟩
  show Option.Rel _ ((db.tasks.update s.id fun _ => b).get id) (Function.update w.tasks s.id (some s) id)
  rw [Table.get_update, Function.update_apply]
  split
  · rename_i he
    rw [he]
    obtain ⟨a, ha⟩ := Option.isSome_iff_exists.mp hrow
    rw [ha]
    exact .some hb
  · exact h.tasks id

theorem Represents.updateSession (h : Represents db w) {b : SessionAggregate} (hb : SessionHolds s.id b s)
    (hrow : (db.sessions.get s.id).isSome = true) :
    Represents { db with sessions := db.sessions.update s.id fun _ => b } (w.setSession s) := by
  refine ⟨h.tasks, fun id => ?_⟩
  show Option.Rel _ ((db.sessions.update s.id fun _ => b).get id)
    (Function.update w.sessions s.id (some s) id)
  rw [Table.get_update, Function.update_apply]
  split
  · rename_i he
    rw [he]
    obtain ⟨a, ha⟩ := Option.isSome_iff_exists.mp hrow
    rw [ha]
    exact .some hb
  · exact h.sessions id

theorem appendTaskEvent_ok {env : Env} {s s' : TaskState} {e : TaskEvent}
    (h : appendTaskEvent env s head e db = .ok (s', db')) :
    s' = s.apply e ∧ (StoreCodec.taskEvent e).length ≤ maxEventBytes ∧ ∃ a b,
      db.tasks.get s.id = some a ∧
      extend a s'.revision e.document s'.document
        (aggregateHash "task" s.id.uuid s'.revision (some head) (StoreCodec.taskEvent e)) = some b ∧
      db' = { db with tasks := db.tasks.update s.id fun _ => b } := by
  obtain ⟨-, -, h⟩ := bind_ok h
  obtain ⟨bytes, hbytes, h⟩ := bind_ok h
  obtain ⟨hsize, hbytes⟩ := refuseIf_bind hbytes
  cases hbytes
  obtain ⟨-, h⟩ := refuseIf_bind h
  obtain ⟨a, ha, h⟩ := bind_ok h
  obtain ⟨b, hb, h⟩ := bind_ok h
  cases h
  exact ⟨rfl, Nat.not_lt.mp hsize, a, b, orSql_ok ha, orSql_ok hb, rfl⟩

/-- the journals of a table only grow, and its keys stay distinct -/
structure Longer {κ τ δ : Type} [DecidableEq κ] (t t' : Table κ (Journal.Aggregate τ δ Digest)) :
    Prop where
  rows : ∀ id a, t.get id = some a → ∃ a', t'.get id = some a' ∧ a.events <+: a'.events
  nodup : (t.map Prod.fst).Nodup → (t'.map Prod.fst).Nodup

section
variable {κ τ δ : Type} [DecidableEq κ] {t t' t'' : Table κ (Journal.Aggregate τ δ Digest)}

theorem Longer.refl (t : Table κ (Journal.Aggregate τ δ Digest)) : Longer t t :=
  ⟨fun _ a ha => ⟨a, ha, List.prefix_refl _⟩, fun h => h⟩

theorem Longer.trans (h : Longer t t') (h' : Longer t' t'') : Longer t t'' := by
  refine ⟨fun id a ha => ?_, fun hn => h'.nodup (h.nodup hn)⟩
  obtain ⟨b, hb, hab⟩ := h.rows id a ha
  obtain ⟨c, hc, hbc⟩ := h'.rows id b hb
  exact ⟨c, hc, hab.trans hbc⟩

theorem Longer.insert {key : κ} {b : Journal.Aggregate τ δ Digest} (h : t.insert key b = some t') :
    Longer t t' := by
  refine ⟨fun id a ha => ?_, Table.nodup_insert h⟩
  obtain ⟨hnone, hget⟩ := Table.get_insert h id
  refine ⟨a, ?_, List.prefix_refl _⟩
  rw [hget, if_neg]
  · exact ha
  · rintro rfl
    rw [hnone] at ha
    cases ha

theorem Longer.update {key : κ} {a b : Journal.Aggregate τ δ Digest} (ha : t.get key = some a)
    (hab : a.events <+: b.events) : Longer t (t.update key fun _ => b) := by
  refine ⟨fun id x hx => ?_, fun hn => by rwa [Table.keys_update]⟩
  rw [Table.get_update]
  split
  · rename_i he
    rw [he, ha] at hx
    cases hx
    rw [he, ha]
    exact ⟨b, rfl, hab⟩
  · exact ⟨x, hx, List.prefix_refl _⟩

end

/-- the journals of the store only grow -/
structure Lengthens (db db' : Db) : Prop where
  tasks : Longer db.tasks db'.tasks
  sessions : Longer db.sessions db'.sessions

theorem Lengthens.refl (db : Db) : Lengthens db db := ⟨.refl _, .refl _⟩

theorem Lengthens.trans {db₁ db₂ : Db} (h : Lengthens db db₁) (h' : Lengthens db₁ db₂) : Lengthens db db₂ :=
  ⟨h.tasks.trans h'.tasks, h.sessions.trans h'.sessions⟩

theorem extend_events {τ δ : Type} {a b : Aggregate τ δ Digest} {revision : Nat} {event : δ} {state : τ}
    (hb : extend a revision event state head = some b) (h : ∀ r ∈ a.events, r.revision < revision) :
    b.events = a.events ++ [⟨revision, event, head⟩] := by
  unfold extend at hb
  rw [insertRow_last h] at hb
  cases hb
  rfl

/-- **An event that is appended to the state a task is in leaves it in the state that follows.** -/
theorem Represents.appendTask (h : Represents db w) {env : Env} {s s₀ s' : TaskState} {e : TaskEvent}
    (happ : appendTaskEvent env s head e db = .ok (s', db')) (hs : w.tasks s.id = some s₀)
    (hhead : TaskHead db s.id head) (heq : s.apply e = s₀.apply e) (he : e.isCreation = false) :
    s' = s₀.apply e ∧ s'.id = s.id ∧ Represents db' (w.setTask s') ∧
      Lengthens db db' := by
  obtain ⟨rfl, hsize, a, b, ha, hb, rfl⟩ := appendTaskEvent_ok happ
  obtain ⟨a', ha', hholds⟩ := h.task_row hs
  obtain ⟨a'', ha'', rfl⟩ := hhead
  cases ha.symm.trans ha'
  cases ha.symm.trans ha''
  have hid := apply_id s e
  have hevents := extend_events hb fun r hr => by
    have hnumber : s₀.revision = a.events.length := (show s₀.revision = a.revision from
      hholds.numbered).trans hholds.length
    have := (hholds.events.numbered r hr).2
    rw [heq, apply_revision]
    omega
  refine ⟨heq, hid, ?_, .update ha (hevents ▸ List.prefix_append _ _), .refl _⟩
  have hnext : TaskHolds s.id b (s.apply e) := by
    refine hholds.extend (d := e.document) ?_ hsize ?_ hid hb
    · rw [heq]
      exact taskStep_document s₀ he
    · rw [heq, apply_revision]
  have := h.updateTask (s := s.apply e) (b := b) (by rw [hid]; exact hnext) (by rw [hid, ha]; rfl)
  rwa [hid] at this

theorem appendSmall_ok {atMs : Nat} (h : appendSmall s head operation c atMs db = .ok (s', hash, db')) :
    s.apply operation c = .ok s' ∧
    (SessionEvent.command operation c.stored atMs).document.bytes.length ≤ maxEventBytes ∧
    hash = aggregateHash "session" s'.id.uuid s'.revision (some head)
      (SessionEvent.command operation c.stored atMs).document.bytes ∧ ∃ a b,
      db.sessions.get s'.id = some a ∧
      extend a s'.revision (SessionEvent.command operation c.stored atMs).document s'.document hash =
        some b ∧
      db' = { db with sessions := db.sessions.update s'.id fun _ => b } := by
  obtain ⟨hsize, h⟩ := refuseIf_bind h
  obtain ⟨t, ht, h⟩ := bind_ok h
  obtain ⟨-, h⟩ := refuseIf_bind h
  obtain ⟨a, ha, h⟩ := bind_ok h
  obtain ⟨b, hb, h⟩ := bind_ok h
  cases h
  refine ⟨?_, Nat.not_lt.mp hsize, rfl, a, b, orSql_ok ha, orSql_ok hb, rfl⟩
  cases hap : s.apply operation c with
  | error e => rw [hap] at ht; cases ht
  | ok u =>
    rw [hap] at ht
    cases ht
    rfl

theorem Lengthens.resumes {w' : World} (h : Lengthens db db') (hr : Represents db w)
    (hr' : Represents db' w') (hs : w.sessions id = some s) :
    ∃ s' a head, w'.sessions id = some s' ∧ db'.sessions.get id = some a ∧
      s.revision ≤ a.events.length ∧ s'.revision = a.events.length ∧
      (sessionFormat id).replay ⟨some s, head, s.revision⟩ (a.events.drop s.revision) =
        .ok ⟨some s', some a.head, a.events.length⟩ := by
  obtain ⟨a, ha, hholds⟩ := hr.session_row hs
  obtain ⟨b, hb, hprefix⟩ := h.sessions.rows id a ha
  have hrow := hr'.sessions id
  rw [hb] at hrow
  generalize w'.sessions id = x at hrow
  cases hrow with
  | @some _ s' hholds' =>
    have hle := hprefix.length_le
    have htake : b.events.take a.events.length = a.events := (List.prefix_iff_eq_take.mp hprefix).symm
    have hresume := hholds'.events.resume hle (by rw [htake]; exact hholds.events)
    have hrev : s.revision = a.events.length :=
      (show s.revision = a.revision from hholds.numbered).trans hholds.length
    refine ⟨s', b, some a.head, rfl, hb, by rw [hrev]; exact hle, ?_, by rw [hrev]; exact hresume⟩
    exact (show s'.revision = b.revision from hholds'.numbered).trans hholds'.length

/-- what an append of session events establishes: the state is the one in the journal now -/
structure SessionAppended (db₀ db : Db) (w : World) (s s' : SessionState) (head : Digest) : Prop where
  id : s'.id = s.id
  represents : Represents db (w.setSession s')
  head : SessionHead db s'.id head
  grows : Lengthens db₀ db

theorem Represents.appendSmall (h : Represents db w) {atMs : Nat}
    (happ : appendSmall s head operation c atMs db = .ok (s', hash, db')) (hs : w.sessions s.id = some s)
    (hhead : SessionHead db s.id head) (howned : c.ownedBy s) :
    s.apply operation c = .ok s' ∧ SessionAppended db db' w s s' hash := by
  obtain ⟨hap, hsize, hhash, a, b, ha, hb, rfl⟩ := appendSmall_ok happ
  obtain ⟨hid, hrev, howns⟩ := apply_keeps hap
  rw [hid] at ha
  obtain ⟨a', ha', hholds⟩ := h.session_row hs
  obtain ⟨a'', ha'', rfl⟩ := hhead
  cases ha.symm.trans ha'
  cases ha.symm.trans ha''
  rw [hid] at hhash
  have hnext : SessionHolds s.id b s' := by
    refine hholds.extend (d := (SessionEvent.command operation c.stored atMs).document) ?_ hsize hrev
      ⟨hid, howns hholds.good.2 howned⟩ (by rw [← hb, hhash]; rfl)
    show sessionStep s _ = _
    rw [sessionStep_document, hap]
    rfl
  have hrow : (db.sessions.get s'.id).isSome = true := by rw [hid, ha]; rfl
  have hevents := extend_events hb fun r hr => by
    have hnumber : s.revision = a.events.length := (show s.revision = a.revision from
      hholds.numbered).trans hholds.length
    have := (hholds.events.numbered r hr).2
    omega
  refine ⟨hap, hid, h.updateSession (by rw [hid]; exact hnext) hrow, ⟨b, ?_, ?_⟩, .refl _, ?_⟩
  · show (db.sessions.update s'.id fun _ => b).get s'.id = some b
    rw [Table.get_update, if_pos rfl, hid, ha]
    rfl
  · unfold extend at hb
    obtain ⟨events, -, rfl⟩ := Option.map_eq_some_iff.mp hb
    rfl
  · exact .update (by rw [hid]; exact ha) (hevents ▸ List.prefix_append _ _)

theorem World.setSession_setSession {w : World} (h : t.id = s.id) :
    (w.setSession s).setSession t = w.setSession t := by
  unfold World.setSession
  simp only [h, Function.update_idem]

theorem World.setSession_get (w : World) (s : SessionState) : (w.setSession s).sessions s.id = some s :=
  Function.update_self ..

theorem World.setTask_setTask {w : World} {s t : TaskState} (h : t.id = s.id) :
    (w.setTask s).setTask t = w.setTask t := by
  unfold World.setTask
  simp only [h, Function.update_idem]

theorem World.setTask_get (w : World) (s : TaskState) : (w.setTask s).tasks s.id = some s :=
  Function.update_self ..

theorem SessionAppended.trans {db₁ : Db} {u : SessionState} {g k : Digest}
    (h : SessionAppended db db₁ w s t g) (h' : SessionAppended db₁ db' (w.setSession t) t u k) :
    SessionAppended db db' w s u k where
  id := h'.id.trans h.id
  represents := by
    have := h'.represents
    rwa [World.setSession_setSession h'.id] at this
  head := h'.head
  grows := h.grows.trans h'.grows

theorem Represents.appendParts (h : Represents db w) {request : Uuid} {callId : String} {clock : Nat → Nat}
    {n offset : Nat} {parts : List String}
    (happ : appendParts operation request callId clock (s, head, db) n offset parts =
      .ok (s', hash, db')) (hs : w.sessions s.id = some s) (hhead : SessionHead db s.id head) :
    SessionAppended db db' w s s' hash := by
  induction parts generalizing s head db w n offset with
  | nil =>
    cases happ
    exact ⟨rfl, by rwa [World.setSession_self hs], hhead, .refl _⟩
  | cons part parts ih =>
    rw [Orvek.appendParts] at happ
    obtain ⟨⟨t, g, db₁⟩, hone, happ⟩ := bind_ok happ
    have hfirst := (h.appendSmall hone hs hhead trivial).2
    exact hfirst.trans (ih hfirst.represents happ (World.setSession_get w t) hfirst.head)

/-- **A command that is appended to the state a session is in leaves it in a state that loading
returns**, whether it takes one event or many. -/
theorem Represents.appendSession (h : Represents db w) {clock : Nat → Nat}
    (happ : appendSessionCommand s head operation c clock db = .ok (s', hash, db'))
    (hs : w.sessions s.id = some s) (hhead : SessionHead db s.id head) (howned : c.ownedBy s) :
    SessionAppended db db' w s s' hash := by
  unfold appendSessionCommand at happ
  simp only at happ
  split at happ
  · split at happ
    · obtain ⟨⟨t, g, db₁⟩, hparts, happ⟩ := bind_ok happ
      have hfirst := h.appendParts hparts hs hhead
      exact hfirst.trans
        (hfirst.represents.appendSmall happ (World.setSession_get w t) hfirst.head trivial).2
    · cases happ
  · exact (h.appendSmall happ hs hhead howned).2

/-! ## creation -/

theorem Represents.createTask (h : Represents db w) {env : Env} {id : TaskId} {e : TaskEvent}
    {s : TaskState} (hc : createTask env id e s db = .ok db')
    (hcreate : taskCreate id e.document = .ok s) (hid : s.id = id) (hone : s.revision = 1) :
    w.tasks id = none ∧ Represents db' (w.setTask s) := by
  obtain ⟨-, -, hc⟩ := bind_ok hc
  obtain ⟨bytes, hbytes, hc⟩ := bind_ok hc
  obtain ⟨hsize, hbytes⟩ := refuseIf_bind hbytes
  cases hbytes
  obtain ⟨tasks, ht, hc⟩ := bind_ok hc
  cases hc
  have hget := Table.get_insert (orSql_ok ht)
  have hnone : w.tasks id = none := by
    have := h.tasks id
    rw [(hget id).1] at this
    generalize w.tasks id = x at this
    cases this
    rfl
  refine ⟨hnone, fun k => ?_, h.sessions⟩
  show Option.Rel _ (Table.get tasks k) (Function.update w.tasks s.id (some s) k)
  rw [(hget k).2, Function.update_apply, hid]
  split
  · rename_i he
    subst he
    exact .some (Replays.created hcreate (Nat.not_lt.mp hsize) hone hid)
  · exact h.tasks k

theorem Represents.insertSession (h : Represents db w) {creation : SessionCreation}
    (hc : insertSession id creation db = .ok (s, db')) :
    s = SessionState.create id creation ∧ w.sessions id = none ∧ Represents db' (w.setSession s) := by
  obtain ⟨hsize, hc⟩ := refuseIf_bind hc
  obtain ⟨sessions, ht, hc⟩ := bind_ok hc
  cases hc
  have hget := Table.get_insert (orSql_ok ht)
  have hnone : w.sessions id = none := by
    have := h.sessions id
    rw [(hget id).1] at this
    generalize w.sessions id = x at this
    cases this
    rfl
  refine ⟨rfl, hnone, h.tasks, fun k => ?_⟩
  show Option.Rel _ (Table.get sessions k)
    (Function.update w.sessions id (some (SessionState.create id creation)) k)
  rw [(hget k).2, Function.update_apply]
  split
  · rename_i he
    subst he
    exact .some (Replays.created rfl (Nat.not_lt.mp hsize) rfl ⟨rfl, fun _ => rfl⟩)
  · exact h.sessions k

end

end

end Orvek
