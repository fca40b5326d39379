import Orvek.Store.Recovery
import Orvek.Store.Repeats

/-!
# Recovery brings the store to rest

`Recovers` is what a recovery is for: it ends, it leaves nothing open, active or running, it takes
every right from the tasks it has interrupted, and a second one finds nothing to do.

* `recover_meets`       what a recovery makes of the world it finds;
* `recovery_quiesces`   it recovers the store exactly when no session works on a request that an
                        earlier recovery has settled.

A request that was settled by a recovery may become active again, and is settled under the same
operation by the next one: the command is then refused, or taken for a repetition.
-/

set_option linter.unusedSectionVars false

namespace Orvek
open Checks Json Sweep

section
variable [Sha256] [ContractCodec] [SessionCodec] [StoreCodec] [JsonReader]

/-- nothing is open, active or running -/
structure Quiescent (db : Db) : Prop where
  tasks : ∀ id ∈ listTasks db, ∃ t head, loadState db id = .ok (t, head) ∧ t.outcome.isSome = true
  sessions : ∀ id ∈ listSessions db, ∃ s head, loadSessionState db id none = .ok (s, head) ∧
    s.activeRequest = none ∧
    ∀ (k : Uuid) (x : Submission), s.submissions[k]? = some x → x.status ≠ .running

def Disarmed (db db' : Db) : Prop :=
  ∀ id t head, loadState db id = .ok (t, head) → t.outcome = none →
    ∃ t' head', loadState db' id = .ok (t', head') ∧
      (∀ (k : Uuid) (job : Job), t'.jobs[k]? = some job → job.status ≠ .running) ∧
      (∀ (k : Uuid) (effect : Effect), t'.effects[k]? = some effect → effect.status ≠ .intended) ∧
      ∀ token, db'.leases.get (id, token) = none

/-- a recovery ends, brings the store to rest, and leaves nothing to another one -/
def Recovers (r : Restart) (db : Db) : Prop :=
  ∃ recovered db', recover r db = .ok (recovered, db') ∧ Quiescent db' ∧ Disarmed db db' ∧
    ∀ r', recover r' db' = .ok ([], db')

/-- the identifiers that a recovery draws are new: none is recorded, or recorded by the recovery
itself -/
structure Restart.Fresh (r : Restart) (w : World) : Prop where
  new : ∀ id s, w.sessions id = some s → ∀ x ∈ runningOf s, r.drawn s.id x.id ∉ s.operations ∧
    ∀ request, s.activeRequest = some request → r.drawn s.id x.id ≠ recoveredId request
  distinct : ∀ id s, w.sessions id = some s → ∀ x ∈ runningOf s, ∀ y ∈ runningOf s,
    r.drawn s.id x.id = r.drawn s.id y.id → x.id = y.id

variable {db db' : Db} {w w' : World} {r : Restart}

/-! ## what a recovery does -/

/-- what a recovery makes of the world, where `R` is what it makes of a session -/
structure RecoveredAs (R : SessionState → SessionState → Prop) (db : Db) (w : World) (db' : Db)
    (w' : World) : Prop where
  represents : Represents db' w'
  taskKeys : db'.tasks.map Prod.fst = db.tasks.map Prod.fst
  sessionKeys : db'.sessions.map Prod.fst = db.sessions.map Prod.fst
  tasks : ∀ id, Option.Rel Ends (w.tasks id) (w'.tasks id)
  sessions : ∀ id, Option.Rel R (w.sessions id) (w'.sessions id)
  leases : ∀ id t, w.tasks id = some t → t.outcome = none → ∀ token, db'.leases.get (id, token) = none

/-- a session is settled, and then its submissions are taken out of execution -/
def Rests (s t : SessionState) : Prop := ∃ u, Settles s u ∧ u.id = s.id ∧ Requeues u t

theorem rel_some {α β : Type} {R : α → β → Prop} {x : Option α} {y : Option β} {a : α}
    (h : Option.Rel R x y) (hx : x = some a) : ∃ b, y = some b ∧ R a b := by
  subst hx
  cases h with
  | some h => exact ⟨_, rfl, h⟩

theorem rel_of_some {α β : Type} {R : α → β → Prop} {x : Option α} {y : Option β} {b : β}
    (h : Option.Rel R x y) (hy : y = some b) : ∃ a, x = some a ∧ R a b := by
  subst hy
  cases h with
  | some h => exact ⟨_, rfl, h⟩

theorem rel_trans {α β γ : Type} {R : α → β → Prop} {S : β → γ → Prop} {x : Option α} {y : Option β}
    {z : Option γ} (h : Option.Rel R x y) (h' : Option.Rel S y z) :
    Option.Rel (fun a c => ∃ b, R a b ∧ S b c) x z := by
  cases h with
  | none =>
    cases h'
    exact .none
  | some h =>
    cases h' with
    | some h' => exact .some ⟨_, h, h'⟩

theorem TasksSwept.ended {db₁ : Db} {w₁ : World} (h : TasksSwept db w (listTasks db) db₁ w₁)
    (hr : Represents db w) (id : TaskId) : Option.Rel Ends (w.tasks id) (w₁.tasks id) := by
  have hrel := h.tasks id
  generalize hx : w.tasks id = x at hrel
  generalize w₁.tasks id = y at hrel
  cases hrel with
  | none => exact .none
  | some hrel => exact .some (hrel.1 (hr.keyed_task hx))

theorem Settles.draws {s u : SessionState} (h : Settles s u) (hid : u.id = s.id) {id : SessionId}
    (hs : w.sessions id = some s) (hfresh : r.Fresh w) : DrawsNew r u := by
  have hrunning : runningOf u = runningOf s := by rw [runningOf, runningOf, h.submissions]
  refine ⟨fun x hx hmem => ?_, fun x hx y hy he => ?_⟩
  · rw [hrunning] at hx
    rw [hid] at hmem
    obtain ⟨hnew, hother⟩ := hfresh.new id s hs x hx
    rcases h.operations _ hmem with hold | ⟨request, hactive, he⟩
    · exact hnew hold
    · exact hother request hactive he
  · rw [hrunning] at hx hy
    rw [hid] at he
    exact hfresh.distinct id s hs x hx y hy he

section
variable (h : Represents db w) (hlinked : LinkedTasks w)
  (hnamed : ∀ id s, w.sessions id = some s → Named s)
  (htasks : (db.tasks.map Prod.fst).Nodup) (hsessions : (db.sessions.map Prod.fst).Nodup)
  (hroom : Room db w) (hsmall : SmallEvents)
include h hlinked htasks hsessions hroom hsmall

theorem recoverInterrupted_meets : Meets (∃ id s, w.sessions id = some s ∧ Stuck s)
    (recoverInterrupted r db) fun x =>
      ∃ w₁, RecoveredAs (fun s u => Settles s u ∧ u.id = s.id) db w x.2 w₁ := by
  unfold recoverInterrupted
  refine Meets.bind (recoverTasks_meets h htasks hsmall hroom.tasks) ?_
  rintro ⟨recovered, db₁⟩ ⟨w₁, hw₁⟩
  have hended := hw₁.ended h
  have hsweep := sweepSessions_meets (E := ∃ id s, w.sessions id = some s ∧ Stuck s)
    (R := fun s u => Settles s u ∧ u.id = s.id) (settleActive r) List.isEmpty rfl
    (fun page hp => by rw [List.isEmpty_iff.mp hp]; decide) hw₁.represents
    (by rw [hw₁.rows]; exact hsessions) (by rw [hw₁.rows]; exact hroom.rows) ?_
  · refine hsweep.bind ?_
    rintro db₂ ⟨w₂, hr₂, ht₂, hbeside, hrel⟩
    refine ⟨w₂, hr₂, ?_, ?_, fun id => ?_, fun id => ?_, fun id t ht hopen token => ?_⟩
    · rw [hbeside.tasks, hw₁.keys]
    · rw [hbeside.keys, hw₁.rows]
    · rw [ht₂]
      exact hended id
    · rw [← hw₁.sessions]
      exact hrel id
    · rw [hbeside.leases]
      exact hw₁.leases id (h.keyed_task ht) t ht hopen token
  · intro db₂ w₂ s hr₂ ht₂ hs hs₁
    rw [hw₁.sessions] at hs₁
    have hone := settleActive_meets (r := r) hr₂ hs (fun request id hlink => by
      obtain ⟨t, ht⟩ := hlinked s.id s hs₁ request id hlink
      obtain ⟨t', ht', -⟩ := rel_some (hended id) ht
      exact ⟨t', by rw [ht₂]; exact ht'⟩) hsmall (by have := hroom.sessions s.id s hs₁; omega)
    refine (hone.weaken fun hstuck => ⟨s.id, s, hs₁, hstuck⟩).mono ?_
    rintro db₃ ⟨t, ht⟩
    exact ⟨t, ht.id, ⟨ht.made, ht.id⟩, ht.represents, ht.beside⟩

include hnamed

/-- **What a recovery makes of the world**, unless a session is stuck and it fails. -/
theorem recover_meets (hfresh : r.Fresh w) : Meets (∃ id s, w.sessions id = some s ∧ Stuck s)
    (recover r db) fun x => ∃ w', RecoveredAs Rests db w x.2 w' := by
  unfold recover
  refine Meets.bind (recoverInterrupted_meets (r := r) h hlinked htasks hsessions hroom hsmall) ?_
  rintro ⟨recovered, db₁⟩ ⟨w₁, hw₁⟩
  unfold recoverSubmissions
  have hsweep := sweepSessions_meets (E := ∃ id s, w.sessions id = some s ∧ Stuck s)
    (R := Requeues) (recoverSession r) (fun page => page.length < 64) (by decide)
    (fun page hp => by simpa using hp) hw₁.represents (by rw [hw₁.sessionKeys]; exact hsessions)
    (by rw [← List.length_map Prod.fst, hw₁.sessionKeys, List.length_map]; exact hroom.rows) ?_
  · refine hsweep.bind ?_
    rintro db₂ ⟨w₂, hr₂, ht₂, hbeside, hrel⟩
    refine ⟨w₂, hr₂, ?_, ?_, fun id => ?_, fun id => ?_, fun id t ht hopen token => ?_⟩
    · rw [hbeside.tasks, hw₁.taskKeys]
    · rw [hbeside.keys, hw₁.sessionKeys]
    · rw [ht₂]
      exact hw₁.tasks id
    · have hboth := rel_trans (hw₁.sessions id) (hrel id)
      generalize w.sessions id = x at hboth
      generalize w₂.sessions id = y at hboth
      cases hboth with
      | none => exact .none
      | some hboth =>
        obtain ⟨u, ⟨hsettles, hid⟩, hrequeues⟩ := hboth
        exact .some ⟨u, hsettles, hid, hrequeues⟩
    · rw [hbeside.leases]
      exact hw₁.leases id t ht hopen token
  · intro db₂ w₂ u hr₂ _ hu hu₁
    obtain ⟨s, hs, hsettles, hid⟩ := rel_of_some (hw₁.sessions u.id) hu₁
    have hrunning : runningOf u = runningOf s := by rw [runningOf, runningOf, hsettles.submissions]
    refine recoverSession_meets hr₂ hu ?_ (hsettles.draws hid hs hfresh) hsmall ?_
    · intro k x hx
      rw [hsettles.submissions] at hx
      exact hnamed u.id s hs k x hx
    · have := hroom.sessions u.id s hs
      have := hsettles.revision
      rw [hrunning]
      omega

end

/-! ## a store at rest -/

/-- nothing in the world is open, active or running -/
structure AtRest (w : World) : Prop where
  tasks : ∀ id t, w.tasks id = some t → t.outcome.isSome = true
  active : ∀ id s, w.sessions id = some s → s.activeRequest = none
  running : ∀ id s, w.sessions id = some s → runningOf s = []

/-- a sweep that finds nothing to do does nothing -/
theorem sweep_idle (h : Represents db w) (hbound : db.sessions.length < 2 ^ 63)
    (body : Db → SessionState → Except StoreError Db) (last : List SessionState → Bool)
    (hempty : last [] = true) (hshort : ∀ page, last page = true → page.length < 64)
    (hbody : ∀ id s, w.sessions id = some s → body db s = .ok db) :
    sweep (fun db offset => sessionsPage db offset 64) body last (db.sessions.length + 1) 0 db = .ok db := by
  obtain ⟨rows, hkeys, hstates⟩ := h.rows
  have hlen : rows.length = db.sessions.length := by
    have := congrArg List.length hkeys
    simpa [listSessions] using this
  have hsweep := sweep_meets (E := False) (fun db offset => sessionsPage db offset 64) body last
    rows (n := 64) (I := fun _ x => x = db) hempty hshort ?_ ?_ (db.sessions.length + 1) (by omega) rfl
  · obtain ⟨x, hx, rfl⟩ := hsweep.total id
    exact hx
  · rintro done todo x hsplit rfl
    refine sessionsPage_ok h done todo (by rw [hsplit]; exact hkeys) (fun s hs => ?_) ?_
    · exact hstates s (by rw [← hsplit]; exact List.mem_append_right _ hs)
    · have := congrArg List.length hsplit
      rw [List.length_append] at this
      omega
  · rintro done s rest x hsplit rfl
    exact Meets.of_ok (hbody s.id s (hstates s (by rw [← hsplit]; simp))) rfl

/-- **A recovery of a store at rest changes nothing.** -/
theorem recover_idle (h : Represents db w) (hrest : AtRest w) (hbound : db.sessions.length < 2 ^ 63) :
    recover r db = .ok ([], db) := by
  have htasks : (listTasks db).foldlM (recoverTask r) ([], db) = .ok ([], db) := by
    have hfold := foldlM_meets (E := False) (recoverTask r) (listTasks db)
      (I := fun _ x => x = ([], db)) ?_ [] (listTasks db) ([], db) rfl rfl
    · obtain ⟨x, hx, rfl⟩ := hfold.total id
      exact hx
    · rintro done id rest x hsplit rfl
      have hlisted : id ∈ listTasks db := by rw [← hsplit]; simp
      obtain ⟨t, ht, -⟩ := h.listed_task hlisted
      obtain ⟨head, hl⟩ := h.loadState ht
      refine Meets.of_ok ?_ rfl
      rw [recoverTask, hl, ok_bind]
      exact if_pos (hrest.tasks id t ht)
  have hsettle := sweep_idle h hbound (settleActive r) List.isEmpty rfl
    (fun page hp => by rw [List.isEmpty_iff.mp hp]; decide) fun id s hs => by
      rw [settleActive, hrest.active id s hs]
  have hsubmissions := sweep_idle h hbound (recoverSession r) (fun page => page.length < 64)
    (by decide) (fun page hp => by simpa using hp) fun id s hs => by
      rw [recoverSession, hrest.running id s hs]
      rfl
  rw [recover, recoverInterrupted, htasks, ok_bind]
  simp only
  rw [hsettle, ok_bind, ok_bind]
  simp only
  rw [recoverSubmissions, hsubmissions]
  rfl

/-! ## recovery after any run -/

theorem Ends.outcome {t t' : TaskState} (h : Ends t t') : t'.outcome.isSome = true := by
  cases ho : t.outcome with
  | none =>
    rw [h.interrupted ho]
    rfl
  | some outcome =>
    rw [h.kept (by rw [ho]; rfl), ho]
    rfl

theorem interrupted_jobs (t : TaskState) (k : Uuid) (job : Job)
    (h : (t.apply (.interrupted restartReason)).jobs[k]? = some job) : job.status ≠ .running := by
  have hmap : (t.jobs.map fun _ job => TaskState.interruptJob job)[k]? = some job := h
  rw [Std.ExtTreeMap.getElem?_map] at hmap
  obtain ⟨old, -, rfl⟩ := Option.map_eq_some_iff.mp hmap
  unfold TaskState.interruptJob
  split
  · simp
  · assumption

theorem interrupted_effects (t : TaskState) (k : Uuid) (effect : Effect)
    (h : (t.apply (.interrupted restartReason)).effects[k]? = some effect) :
    effect.status ≠ .intended := by
  have hmap : (t.effects.map fun _ effect => TaskState.interruptEffect effect)[k]? = some effect := h
  rw [Std.ExtTreeMap.getElem?_map] at hmap
  obtain ⟨old, -, rfl⟩ := Option.map_eq_some_iff.mp hmap
  unfold TaskState.interruptEffect
  split
  · simp
  · assumption

theorem RecoveredAs.disarmed (h : RecoveredAs Rests db w db' w') (hr : Represents db w) :
    Disarmed db db' := by
  intro id t head hl hopen
  have ht := (hr.of_loadState hl).1
  obtain ⟨t', ht', hends⟩ := rel_some (h.tasks id) ht
  obtain ⟨head', hl'⟩ := h.represents.loadState ht'
  have hint := hends.interrupted hopen
  subst hint
  exact ⟨_, head', hl', interrupted_jobs t, interrupted_effects t, h.leases id t ht hopen⟩

theorem RecoveredAs.atRest (h : RecoveredAs Rests db w db' w')
    (hfree : ∀ id s, w.sessions id = some s → ¬ Stuck s) : AtRest w' := by
  refine ⟨fun id t ht => ?_, fun id t ht => ?_, fun id t ht => ?_⟩
  · obtain ⟨_, -, hends⟩ := rel_of_some (h.tasks id) ht
    exact hends.outcome
  · obtain ⟨s, hs, u, hsettles, -, hrequeues⟩ := rel_of_some (h.sessions id) ht
    exact hrequeues.active.trans (hsettles.rests (hfree id s hs))
  · obtain ⟨s, -, u, -, -, hrequeues⟩ := rel_of_some (h.sessions id) ht
    refine List.eq_nil_iff_forall_not_mem.mpr fun x hx => ?_
    obtain ⟨⟨k, hk⟩, hrun⟩ := mem_runningOf.mp hx
    exact hrequeues.rests k x hk hrun

theorem AtRest.quiescent (h : AtRest w) (hr : Represents db w) : Quiescent db := by
  refine ⟨fun id hid => ?_, fun id hid => ?_⟩
  · obtain ⟨t, ht, -⟩ := hr.listed_task hid
    obtain ⟨head, hl⟩ := hr.loadState ht
    exact ⟨t, head, hl, h.tasks id t ht⟩
  · obtain ⟨s, hs, -⟩ := hr.listed hid
    obtain ⟨head, hl⟩ := hr.loadSession hs
    refine ⟨s, head, hl, h.active id s hs, fun k x hx hrun => ?_⟩
    have hmem := mem_runningOf.mpr ⟨⟨k, hx⟩, hrun⟩
    rw [h.running id s hs] at hmem
    cases hmem

theorem RecoveredAs.stuck (h : RecoveredAs Rests db w db' w') {id : SessionId} {s : SessionState}
    (hs : w.sessions id = some s) (hstuck : Stuck s) : ¬ Quiescent db' := by
  intro hquiescent
  obtain ⟨t, ht, u, hsettles, -, hrequeues⟩ := rel_some (h.sessions id) hs
  obtain ⟨v, head, hl, hnone, -⟩ := hquiescent.sessions id (h.represents.keyed ht)
  have hv := (h.represents.of_loadSession hl).1
  rw [ht] at hv
  cases hv
  rw [hrequeues.active, hsettles.stuck hstuck] at hnone
  obtain ⟨request, hactive, -⟩ := hstuck
  rw [hactive] at hnone
  cases hnone

section
variable {admits : SessionState → HostCall → Prop}

theorem HostReachable.nodup (h : HostReachable admits db w) :
    (db.tasks.map Prod.fst).Nodup ∧ (db.sessions.map Prod.fst).Nodup := by
  have hlonger := (HostRun.run h represents_empty).lengthens represents_empty
  exact ⟨hlonger.tasks.nodup List.nodup_nil, hlonger.sessions.nodup List.nodup_nil⟩

theorem HostReachable.named (h : HostReachable admits db w) (id : SessionId) (s : SessionState)
    (hs : w.sessions id = some s) : Named s :=
  fun k x hx => (HostReachable.inQueue h hs).named k x.brief (briefs_of hx)

theorem HostReachable.recovers_as (h : HostReachable admits db w) (hroom : Room db w)
    (hsmall : SmallEvents) (hfresh : r.Fresh w) :
    Meets (∃ id s, w.sessions id = some s ∧ Stuck s) (recover r db) fun x =>
      ∃ w', RecoveredAs Rests db w x.2 w' :=
  recover_meets h.represents h.linkedTasks h.named h.nodup.1 h.nodup.2 hroom hsmall hfresh

theorem HostReachable.not_recovers (h : HostReachable admits db w) (hroom : Room db w)
    (hsmall : SmallEvents) (hfresh : r.Fresh w) {id : SessionId} {s : SessionState}
    (hs : w.sessions id = some s) (hstuck : Stuck s) : ¬ Recovers r db := by
  rintro ⟨recovered, db', hrecover, hquiescent, -, -⟩
  have hmeets := h.recovers_as hroom hsmall hfresh
  rw [hrecover] at hmeets
  obtain ⟨w', hw'⟩ := hmeets
  exact hw'.stuck hs hstuck hquiescent

end

/-- **Recovery brings the store to rest, and a second recovery changes nothing, exactly when no
session works on a request that an earlier recovery has settled.** -/
theorem recovery_quiesces (h : HostReachable (fun _ _ => True) db w) (hroom : Room db w)
    (hsmall : SmallEvents) (hfresh : r.Fresh w) :
    Recovers r db ↔ ∀ id s, w.sessions id = some s → ¬ Stuck s := by
  constructor
  · exact fun hrecovers id s hs hstuck => h.not_recovers hroom hsmall hfresh hs hstuck hrecovers
  · intro hfree
    obtain ⟨⟨recovered, db'⟩, hrecover, w', hw'⟩ := (h.recovers_as hroom hsmall hfresh).total
      fun ⟨id, s, hs, hstuck⟩ => hfree id s hs hstuck
    have hrest := hw'.atRest hfree
    have hbound : db'.sessions.length < 2 ^ 63 := by
      rw [← List.length_map Prod.fst, hw'.sessionKeys, List.length_map]
      exact hroom.rows
    exact ⟨recovered, db', hrecover, hrest.quiescent hw'.represents, hw'.disarmed h.represents,
      fun r' => recover_idle hw'.represents hrest hbound⟩

end

/-! ## the ordinary request of the example store -/

namespace Sample

/-- the identifier that a recovery draws, and the one of the second claim -/
def drawnId : Uuid := ⟨16⟩
def reclaimId : Uuid := ⟨15⟩

def restart : Restart := ⟨fun _ => env, fun _ => env, fun _ _ => env, fun _ _ => drawnId⟩

theorem smallEvents : SmallEvents :=
  ⟨Nat.zero_le _, fun _ _ _ _ => Nat.zero_le _, fun _ _ _ _ _ => Nat.zero_le _⟩

section
variable {db : Db} {w : World} {s : SessionState} (h : Represents db w)
  (hkeys : db.sessions.map Prod.fst = [sessionId]) (hs : w.sessions sessionId = some s)
include h hkeys hs

theorem only_session (id : SessionId) (t : SessionState) (ht : w.sessions id = some t) : t = s := by
  have hmem := h.keyed ht
  rw [listSessions, hkeys] at hmem
  cases List.mem_singleton.mp hmem
  cases hs.symm.trans ht
  rfl

theorem room (hr : s.revision + 1 + (runningOf s).length < 2 ^ 63)
    (htasks : ∀ id t, w.tasks id = some t → t.revision + 1 < 2 ^ 63) : Room db w := by
  refine ⟨?_, fun id t ht _ => htasks id t ht, fun id t ht => ?_⟩
  · rw [← List.length_map Prod.fst, hkeys]
    decide
  · rw [only_session h hkeys hs id t ht]
    exact hr

theorem drawsFresh {x : Submission} (hrunning : runningOf s = [x]) (hnew : drawnId ∉ s.operations)
    (hother : ∀ request, s.activeRequest = some request → drawnId ≠ recoveredId request) :
    restart.Fresh w := by
  refine ⟨fun id t ht y hy => ?_, fun id t ht y hy z hz _ => ?_⟩
  · rw [only_session h hkeys hs id t ht]
    exact ⟨hnew, hother⟩
  · rw [only_session h hkeys hs id t ht, hrunning] at hy hz
    rw [List.mem_singleton.mp hy, List.mem_singleton.mp hz]

end

/-- the request after the first recovery: it waits, and it is settled -/
def putBack : SessionState :=
  after requeued (recoveredId ordinaryId) (.turnSettled ordinaryId none (some hostInterrupted))

def reclaimed : SessionState := after putBack reclaimId (.submissionChanged ordinaryId .running)

/-- the request has begun its task -/
def restarted : SessionState :=
  after (after reclaimed ordinaryId (.input .task typed.messages)) (ordinaryId.named "task-link")
    (.taskLinked ordinaryId taskId)

theorem restarted_stuck : Stuck restarted := ⟨ordinaryId, rfl, by decide⟩

end Sample

open Sample in
theorem recovery_refused : ∃ db w, HostReachable (fun _ _ => True) db w ∧
    w.sessions sessionId = some restarted ∧ ¬ Recovers restart db := by
  obtain ⟨db, w, hr, hs, ht, hkeys⟩ := @hostReachable_classifying (fun _ _ => True) trivial trivial trivial
  -- the host is busy, and the request is put back
  obtain ⟨db₁, hset₁, ht₁, hk₁⟩ := sets hr.represents hs ordinaryId
    (show _ = some { ordinary with status := .running } from rfl)
    (show _ ≠ SubmissionStatus.queued by decide) rfl
    (show classifying.apply requeueId (.submissionChanged ordinaryId .queued) = .ok requeued from rfl)
    (by decide) (by decide) (show _ = some ordinary from rfl)
  have hr₁ : HostReachable (fun _ _ => True) db₁ (w.setSession requeued) :=
    HostRun.step hr (.call hset₁ rfl fun _ _ _ => trivial)
  -- a crash: the recovery settles the request
  obtain ⟨db₂, hset₂, ht₂, hk₂⟩ := issues hr₁.represents (World.setSession_get w requeued)
    (show requeued.apply (recoveredId ordinaryId)
      (.turnSettled ordinaryId none (some hostInterrupted)) = .ok putBack from rfl)
    (by decide) trivial (by decide) rfl rfl
  have hcall₂ : (HostCall.command sessionId requeued.revision (recoveredId ordinaryId)
      (.turnSettled ordinaryId none (some hostInterrupted))).run Sample.env db₁ =
        .ok (none, putBack, db₂) := by
    rw [HostCall.run, hset₂, ok_bind]
  have hr₂ : HostReachable (fun _ _ => True) db₂ ((w.setSession requeued).setSession putBack) :=
    HostRun.step hr₁ (.call hcall₂ rfl fun _ _ _ => trivial)
  -- the request is claimed again, and begins its task
  obtain ⟨db₃, hset₃, ht₃, hk₃⟩ := sets hr₂.represents (World.setSession_get _ putBack) ordinaryId
    (show _ = some ordinary from rfl) (show _ ≠ SubmissionStatus.running by decide) rfl
    (show putBack.apply reclaimId (.submissionChanged ordinaryId .running) = .ok reclaimed from rfl)
    (by decide) (by decide) (show _ = some { ordinary with status := .running } from rfl)
  have hr₃ : HostReachable (fun _ _ => True) db₃ (((w.setSession requeued).setSession
      putBack).setSession reclaimed) := HostRun.step hr₂ (.call hset₃ rfl fun _ _ _ => trivial)
  obtain ⟨db₄, hact, ht₄, hk₄⟩ := acts (u := restarted) hr₃.represents
    (World.setSession_get _ reclaimed) (ht₃.trans (ht₂.trans (ht₁.trans ht))) rfl rfl rfl rfl (by decide)
  have hcall₄ : (HostCall.startPreparedRequest sessionId ordinaryId typed Limits.default ⟨0⟩
      taskId).run typing db₃ = .ok (some requested, restarted, db₄) := by
    rw [HostCall.run, hact, ok_bind]
  have hr₄ : HostReachable (fun _ _ => True) db₄ ((((w.setSession requeued).setSession
      putBack).setSession reclaimed).write (some requested) (some restarted)) :=
    HostRun.step hr₃ (.call hcall₄ rfl fun _ _ _ => trivial)
  have hs₄ := World.setSession_get ((((w.setSession requeued).setSession putBack).setSession
    reclaimed).setTask requested) restarted
  have hkeys₄ : db₄.sessions.map Prod.fst = [sessionId] :=
    hk₄.trans (hk₃.trans (hk₂.trans (hk₁.trans hkeys)))
  refine ⟨db₄, _, hr₄, hs₄, hr₄.not_recovers (room hr₄.represents hkeys₄ hs₄ (by decide) ?_)
    smallEvents (drawsFresh (x := { ordinary with status := .running }) hr₄.represents hkeys₄ hs₄ rfl
      (by decide) ?_) hs₄ restarted_stuck⟩
  · intro id t htask
    have hmem := hr₄.represents.keyed_task htask
    rw [listTasks, ht₄] at hmem
    cases List.mem_singleton.mp hmem
    have hrequested := World.setTask_get (((w.setSession requeued).setSession putBack).setSession
      reclaimed) requested
    cases hrequested.symm.trans htask
    decide
  · rintro request hrequest
    cases hrequest
    decide

open Sample in
theorem recovery_quiesces_classifying : ∃ db w, HostReachable (fun _ _ => True) db w ∧
    w.sessions sessionId = some classifying ∧ classifying.activeRequest = some ordinaryId ∧
    Recovers restart db := by
  obtain ⟨db, w, hr, hs, ht, hkeys⟩ := @hostReachable_classifying (fun _ _ => True) trivial trivial trivial
  refine ⟨db, w, hr, hs, rfl, (recovery_quiesces hr (room hr.represents hkeys hs (by decide) ?_)
    smallEvents (drawsFresh (x := { ordinary with status := .running }) hr.represents hkeys hs rfl
      (by decide) ?_)).mpr ?_⟩
  · intro id t htask
    have hmem := hr.represents.keyed_task htask
    rw [listTasks, ht] at hmem
    cases hmem
  · rintro request hrequest
    cases hrequest
    decide
  · rintro id s hs' ⟨request, hactive, hmem⟩
    rw [only_session hr.represents hkeys hs id s hs'] at hactive hmem
    cases hactive
    exact absurd hmem (by decide)

end Orvek
