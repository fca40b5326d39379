import Orvek.Store.Runs

/-!
# History across branches

A session that was forked may read the history of the sessions it comes from.  `scopedHistory` walks
from the actor through the cursors that the forks recorded, and reads the source at a revision up to
the one where the walk met it:

* `Lineage`              what a cursor lets see of every session above it;
* `Forest`               the sessions of a store are a forest, and every branch begins at a revision
                         that its parent has reached;
* `scopedFrom_confined`  the walk finds only what the lineage lets see;
* `scopedFrom_agrees`    the walk depends only on the events before the branches.
-/

set_option linter.unusedSectionVars false

namespace Orvek
open Checks Json

section
variable [Sha256] [ContractCodec] [SessionCodec] [StoreCodec] [JsonReader]
variable {source id actor : SessionId} {cutoff : Nat} {t : SessionState}

/-- the walk from a scope to the source, for at most so many sessions -/
def scopedFrom (db : Db) (source : SessionId) (revision : Option Nat) :
    Nat → SessionState → Except StoreError SessionState
  | 0, _ => .error (.invalid "history lineage exceeds its traversal bound")
  | steps + 1, scope =>
    if scope.id = source then do
      let revision := revision.getD scope.revision
      refuseIf (scope.revision < revision)
        (StoreError.invalid "history lies beyond the branch cutoff")
      loadSessionCursor ⟨1, source, revision⟩ db
    else do
      let parent ← orInvalid "history source is outside this branch" scope.parent
      let scope ← loadSessionCursor parent db
      scopedFrom db source revision steps scope

def scopedHistory (db : Db) (actor source : SessionId) (revision : Option Nat) :
    Except StoreError SessionState := do
  let (scope, _) ← loadSessionState db actor none
  scopedFrom db source revision 128 scope

variable {draws : TaskState → Uuid → Prop} {db db' : Db} {w w' : World}

/-! ## lineages -/

/-- a cursor lets see its own session up to its revision, and of the sessions above it what the
cursor of its fork lets see -/
inductive Lineage (w : World) : SessionCursor → SessionId → Nat → Prop
  | here (cursor : SessionCursor) : Lineage w cursor cursor.session cursor.revision
  | above {cursor parent : SessionCursor} {s : SessionState} {source : SessionId} {cutoff : Nat}
      (hs : w.sessions cursor.session = some s) (hp : s.parent = some parent)
      (h : Lineage w parent source cutoff) : Lineage w cursor source cutoff

/-- every session comes from one of a smaller rank, which had reached the revision of the branch -/
def Ranked (w : World) (rank : SessionId → Nat) : Prop :=
  ∀ id s cursor, w.sessions id = some s → s.parent = some cursor →
    rank cursor.session < rank id ∧
      ∃ p, w.sessions cursor.session = some p ∧ cursor.revision ≤ p.revision

def Forest (w : World) : Prop := ∃ rank, Ranked w rank

theorem Ranked.lineage {rank : SessionId → Nat} (h : Ranked w rank) {cursor : SessionCursor}
    (hl : Lineage w cursor source cutoff) :
    (source = cursor.session ∧ cutoff = cursor.revision) ∨ rank source < rank cursor.session := by
  induction hl with
  | here cursor => exact .inl ⟨rfl, rfl⟩
  | above hs hp _ ih =>
    have hrank := (h _ _ _ hs hp).1
    rcases ih with ⟨rfl, -⟩ | hlt
    · exact .inr hrank
    · exact .inr (Nat.lt_trans hlt hrank)

theorem Forest.lineage_unique (h : Forest w) {cursor : SessionCursor} {k m : Nat}
    (hk : Lineage w cursor source k) (hm : Lineage w cursor source m) : m = k := by
  obtain ⟨rank, hr⟩ := h
  induction hk with
  | here cursor =>
    cases hm with
    | here => rfl
    | above hs hp hm =>
      -- a second way to the same session would lead below its own rank
      have hrank := (hr _ _ _ hs hp).1
      rcases hr.lineage hm with ⟨he, -⟩ | hlt
      · rw [← he] at hrank
        exact absurd hrank (Nat.lt_irrefl _)
      · omega
  | @above cursor parent s source k hs hp hk ih =>
    cases hm with
    | here =>
      have hrank := (hr _ _ _ hs hp).1
      rcases hr.lineage hk with ⟨he, -⟩ | hlt
      · rw [← he] at hrank
        exact absurd hrank (Nat.lt_irrefl _)
      · omega
    | above hs' hp' hm =>
      cases hs.symm.trans hs'
      cases hp.symm.trans hp'
      exact ih hm

theorem Lengthens.session (h : Lengthens db db') (hr : Represents db w) (hr' : Represents db' w')
    {s : SessionState} (hs : w.sessions id = some s) :
    ∃ s', w'.sessions id = some s' ∧ s'.parent = s.parent ∧ s.revision ≤ s'.revision := by
  obtain ⟨s', a, head, hs', -, hle, hlast, hreplay⟩ := h.resumes hr hr' hs
  exact ⟨s', hs', replay_parent hreplay, by rw [hlast]; exact hle⟩

theorem Sound.forest {task : Option TaskState} {session : Option SessionState}
    (h : Sound draws db w task session db') (hr : Represents db w) (hf : Forest w) :
    Forest (w.write task session) := by
  cases session with
  | none =>
    obtain ⟨rank, hrank⟩ := hf
    refine ⟨rank, fun id s cursor hs hp => ?_⟩
    rw [World.write_task_sessions] at hs ⊢
    exact hrank id s cursor hs hp
  | some u =>
    have hkept : ∀ {id s}, w.sessions id = some s → ∃ s', (w.write task (some u)).sessions id = some s' ∧
        s'.parent = s.parent ∧ s.revision ≤ s'.revision :=
      fun hs => h.grows.session hr h.represents hs
    have hbranch : ∀ {cursor : SessionCursor},
        (∃ p, w.sessions cursor.session = some p ∧ cursor.revision ≤ p.revision) →
        ∃ p, (w.write task (some u)).sessions cursor.session = some p ∧ cursor.revision ≤ p.revision := by
      rintro cursor ⟨p, hs, hle⟩
      obtain ⟨p', hs', -, hle'⟩ := hkept hs
      exact ⟨p', hs', Nat.le_trans hle hle'⟩
    obtain ⟨rank, hrank⟩ := hf
    cases hold : w.sessions u.id with
    | some s =>
      refine ⟨rank, fun id t cursor ht hp => ?_⟩
      by_cases he : id = u.id
      · obtain ⟨t', ht', hparent, -⟩ := hkept hold
        rw [← he] at ht' hold
        cases ht.symm.trans ht'
        obtain ⟨hlt, hb⟩ := hrank id s cursor hold (hparent ▸ hp)
        exact ⟨hlt, hbranch hb⟩
      · rw [World.write_sessions, Function.update_of_ne he] at ht
        obtain ⟨hlt, hb⟩ := hrank id t cursor ht hp
        exact ⟨hlt, hbranch hb⟩
    | none =>
      have hopens : ∀ cursor, u.parent = some cursor →
          ∃ p, w.sessions cursor.session = some p ∧ cursor.revision ≤ p.revision := by
        rcases h.opens u rfl with hsome | hopens
        · rw [hold] at hsome
          cases hsome
        · exact hopens
      have hne : ∀ {cursor : SessionCursor} {p}, w.sessions cursor.session = some p →
          cursor.session ≠ u.id := by
        intro cursor p hs he
        rw [he, hold] at hs
        cases hs
      -- the new session is one above the session it comes from
      refine ⟨Function.update rank u.id ((u.parent.elim 0 fun cursor => rank cursor.session) + 1),
        fun id t cursor ht hp => ?_⟩
      by_cases he : id = u.id
      · rw [World.write_sessions, he, Function.update_self] at ht
        cases ht
        obtain ⟨p, hs, hle⟩ := hopens cursor hp
        rw [he, Function.update_self, Function.update_of_ne (hne hs), hp]
        exact ⟨Nat.lt_succ_self _, hbranch ⟨p, hs, hle⟩⟩
      · rw [World.write_sessions, Function.update_of_ne he] at ht
        obtain ⟨hlt, p, hs, hle⟩ := hrank id t cursor ht hp
        rw [Function.update_of_ne he, Function.update_of_ne (hne hs)]
        exact ⟨hlt, hbranch ⟨p, hs, hle⟩⟩

theorem Reachable.forest (h : Reachable draws db w) : Forest w := by
  unfold Reachable at h
  induction h with
  | refl => exact ⟨fun _ => 0, fun _ _ _ hs _ => nomatch hs⟩
  | step hrun hone ih =>
    have hr := Reachable.represents hrun
    exact (Step.sound hr hone).forest hr ih

/-! ## the walk -/

/-- a scope is the state of a session at a cursor -/
structure AtCursor (w : World) (cursor : SessionCursor) (scope : SessionState) : Prop where
  id : scope.id = cursor.session
  revision : scope.revision = cursor.revision
  parent : ∃ s, w.sessions cursor.session = some s ∧ s.parent = scope.parent

theorem loadSessionCursor_ok {cursor : SessionCursor} (h : loadSessionCursor cursor db = .ok t) :
    ∃ head, loadSessionState db cursor.session (some cursor.revision) = .ok (t, head) := by
  obtain ⟨-, h⟩ := refuseIf_bind h
  obtain ⟨⟨s, head⟩, hl, h⟩ := bind_ok h
  obtain ⟨-, h⟩ := refuseIf_bind h
  cases h
  exact ⟨head, hl⟩

theorem Represents.atCursor (h : Represents db w) {cursor : SessionCursor}
    (hl : loadSessionCursor cursor db = .ok t) : AtCursor w cursor t := by
  obtain ⟨head, hl⟩ := loadSessionCursor_ok hl
  obtain ⟨s, hs, ⟨hid, hrev, hparent⟩, -⟩ := h.of_loadSession_at hl
  exact ⟨hid, hrev, s, hs, hparent.symm⟩

/-- what the walk may return: the source at a revision up to the cutoff -/
structure Confined (db : Db) (source : SessionId) (revision : Option Nat) (cutoff : Nat)
    (t : SessionState) : Prop where
  id : t.id = source
  revision : t.revision = revision.getD cutoff
  cutoff : t.revision ≤ cutoff
  loads : ∃ head, loadSessionState db source (some t.revision) = .ok (t, head)

/-- **The walk finds only what the lineage lets see.** -/
theorem scopedFrom_confined (h : Represents db w) {revision : Option Nat} {steps : Nat}
    {cursor : SessionCursor} {scope : SessionState} (hscope : AtCursor w cursor scope)
    (hc : scopedFrom db source revision steps scope = .ok t) :
    ∃ cutoff, Lineage w cursor source cutoff ∧ Confined db source revision cutoff t := by
  induction steps generalizing cursor scope with
  | zero => cases hc
  | succ steps ih =>
    rw [scopedFrom] at hc
    by_cases he : scope.id = source
    · rw [if_pos he] at hc
      obtain ⟨hle, hc⟩ := refuseIf_bind hc
      obtain ⟨head, hl⟩ := loadSessionCursor_ok hc
      have hat := h.atCursor hc
      have hrev : t.revision = revision.getD scope.revision := hat.revision
      refine ⟨cursor.revision, ?_, hat.id, ?_, ?_, head, by rw [hrev]; exact hl⟩
      · rw [← he, hscope.id]
        exact .here cursor
      · rw [hrev, hscope.revision]
      · rw [hrev, ← hscope.revision]
        exact Nat.not_lt.mp hle
    · rw [if_neg he] at hc
      obtain ⟨parent, hp, hc⟩ := bind_ok hc
      obtain ⟨next, hl, hc⟩ := bind_ok hc
      obtain ⟨s, hs, hparent⟩ := hscope.parent
      have hsome : scope.parent = some parent := by
        cases hx : scope.parent with
        | none => rw [hx] at hp; cases hp
        | some x => rw [hx] at hp; cases hp; rfl
      obtain ⟨cutoff, hlineage, hconfined⟩ := ih (h.atCursor hl) hc
      exact ⟨cutoff, .above hs (hparent.trans hsome) hlineage, hconfined⟩

/-! ## what the walk depends on -/

/-- two stores have the same events of a session up to a revision -/
def Agree (db db' : Db) (id : SessionId) (cutoff : Nat) : Prop :=
  ∃ a a', db.sessions.get id = some a ∧ db'.sessions.get id = some a' ∧
    cutoff ≤ a.events.length ∧ cutoff ≤ a'.events.length ∧
    a.events.take cutoff = a'.events.take cutoff

theorem Agree.load {k : Nat} (h : Agree db db' id cutoff) (hr : Represents db w) (hr' : Represents db' w')
    (hk : k ≤ cutoff) : loadSessionState db' id (some k) = loadSessionState db id (some k) := by
  obtain ⟨a, a', ha, ha', hlen, hlen', htake⟩ := h
  have hrow := hr.sessions id
  have hrow' := hr'.sessions id
  rw [ha] at hrow
  rw [ha'] at hrow'
  generalize w.sessions id = x at hrow
  generalize w'.sessions id = x' at hrow'
  rw [loadSessionState, loadSessionState, ha, ha']
  cases hrow with
  | some hholds =>
    cases hrow' with
    | some hholds' =>
      rcases Nat.eq_zero_or_pos k with rfl | hpos
      · rfl
      · obtain ⟨t, head, ht⟩ := hholds.events.take hpos (Nat.le_trans hk hlen)
        have hsame : a'.events.take k = a.events.take k := by
          have := congrArg (List.take k) htake
          rw [List.take_take, List.take_take, Nat.min_eq_left hk] at this
          exact this.symm
        show loadSessionAggregate id a' (some k) = loadSessionAggregate id a (some k)
        rw [hholds.load_at hpos (Nat.le_trans hk hlen) ht,
          hholds'.load_at hpos (Nat.le_trans hk hlen') (by rw [hsame]; exact ht)]

theorem Agree.cursor {k version : Nat} (h : Agree db db' id cutoff) (hr : Represents db w)
    (hr' : Represents db' w') (hk : k ≤ cutoff) :
    loadSessionCursor ⟨version, id, k⟩ db' = loadSessionCursor ⟨version, id, k⟩ db := by
  rw [loadSessionCursor, loadSessionCursor, h.load hr hr' hk]

/-- **The walk depends only on the events before the branches.** -/
theorem scopedFrom_agrees (hr : Represents db w) (hr' : Represents db' w') {revision : Option Nat}
    {steps : Nat} {cursor : SessionCursor} {scope : SessionState} (hscope : AtCursor w cursor scope)
    (h : ∀ id cutoff, Lineage w cursor id cutoff → Agree db db' id cutoff) :
    scopedFrom db' source revision steps scope = scopedFrom db source revision steps scope := by
  induction steps generalizing cursor scope with
  | zero => rfl
  | succ steps ih =>
    rw [scopedFrom, scopedFrom]
    by_cases he : scope.id = source
    · rw [if_pos he, if_pos he]
      by_cases hle : scope.revision < revision.getD scope.revision
      · simp only [refuseIf, if_pos hle]
        rfl
      · have hread : loadSessionCursor ⟨1, source, revision.getD scope.revision⟩ db' =
            loadSessionCursor ⟨1, source, revision.getD scope.revision⟩ db := by
          rw [← he, hscope.id]
          refine (h _ _ (.here cursor)).cursor hr hr' ?_
          rw [← hscope.revision]
          exact Nat.not_lt.mp hle
        simp only [hread]
    · rw [if_neg he, if_neg he]
      obtain ⟨s, hs, hparent⟩ := hscope.parent
      cases hp : scope.parent with
      | none => rfl
      | some parent =>
        have habove : ∀ id cutoff, Lineage w parent id cutoff → Agree db db' id cutoff :=
          fun id cutoff hl => h id cutoff (.above hs (hparent.trans hp) hl)
        have hload : loadSessionCursor parent db' = loadSessionCursor parent db :=
          (habove _ _ (.here parent)).cursor hr hr' (Nat.le_refl _)
        show (loadSessionCursor parent db' >>= _) = (loadSessionCursor parent db >>= _)
        rw [hload]
        cases hnext : loadSessionCursor parent db with
        | error e => rfl
        | ok next => exact ih (hr.atCursor hnext) habove

/-- two stores in which an actor is the same, and so is everything before the branches to it -/
structure SameBranch (db db' : Db) (w w' : World) (actor : SessionId) : Prop where
  same : w'.sessions actor = w.sessions actor
  before : ∀ s, w.sessions actor = some s →
    ∀ id cutoff, Lineage w ⟨1, actor, s.revision⟩ id cutoff → Agree db db' id cutoff

theorem Represents.atActor (h : Represents db w) {s : SessionState} (hs : w.sessions actor = some s) :
    AtCursor w ⟨1, actor, s.revision⟩ s := by
  obtain ⟨head, hl⟩ := h.loadSession hs
  exact ⟨(h.of_loadSession hl).2.1, rfl, s, hs, rfl⟩

theorem SameBranch.history (h : SameBranch db db' w w' actor) (hr : Represents db w)
    (hr' : Represents db' w') (source : SessionId) (revision : Option Nat) :
    scopedHistory db' actor source revision = scopedHistory db actor source revision := by
  have hactor := h.same
  rw [scopedHistory, scopedHistory]
  cases hs : w.sessions actor with
  | none =>
    rw [hs] at hactor
    rw [hr.loadSession_none hs, hr'.loadSession_none hactor, error_bind, error_bind]
  | some s =>
    rw [hs] at hactor
    obtain ⟨head, hl⟩ := hr.loadSession hs
    obtain ⟨head', hl'⟩ := hr'.loadSession hactor
    rw [hl, hl', ok_bind, ok_bind]
    exact scopedFrom_agrees hr hr' (hr.atActor hs) (h.before s hs)

theorem Forest.committed (h : Forest w) {cursor : SessionCursor} (hl : Lineage w cursor id cutoff)
    (hc : ∃ p, w.sessions cursor.session = some p ∧ cursor.revision ≤ p.revision) :
    ∃ p, w.sessions id = some p ∧ cutoff ≤ p.revision := by
  obtain ⟨rank, hrank⟩ := h
  induction hl with
  | here cursor => exact hc
  | above hs hp _ ih => exact ih (hrank _ _ _ hs hp).2

theorem Lengthens.agree (h : Lengthens db db') (hr : Represents db w) {p : SessionState}
    (hs : w.sessions id = some p) (hk : cutoff ≤ p.revision) : Agree db db' id cutoff := by
  obtain ⟨a, ha, hholds⟩ := hr.session_row hs
  obtain ⟨b, hb, rest, hrest⟩ := h.sessions.rows id a ha
  rw [show p.revision = a.revision from hholds.numbered, hholds.length] at hk
  refine ⟨a, b, ha, hb, hk, ?_, ?_⟩
  · rw [← hrest, List.length_append]
    exact Nat.le_add_right_of_le hk
  · rw [← hrest, List.take_append_of_le_length hk]

theorem Run.sameBranch (h : Run draws db w db' w') (hr : Represents db w) (hf : Forest w)
    (hactor : w'.sessions actor = w.sessions actor) : SameBranch db db' w w' actor := by
  refine ⟨hactor, fun s hs id cutoff hl => ?_⟩
  obtain ⟨p, hp, hle⟩ := hf.committed hl ⟨s, hs, Nat.le_refl _⟩
  exact (h.lengthens hr).agree hr hp hle

/-- **History is confined to the branch**: what `scopedHistory` returns is a state of the actor or
of a session above it, at a revision up to the one where the way to the actor branched off; two
stores with the same events before the branches give the same answers, and so does every later
store in which the actor is the same. -/
theorem history_confined (h : Reachable draws db w) (actor source : SessionId) (revision : Option Nat) :
    (∀ t, scopedHistory db actor source revision = .ok t → ∃ s cutoff, w.sessions actor = some s ∧
      Lineage w ⟨1, actor, s.revision⟩ source cutoff ∧
      (∀ other, Lineage w ⟨1, actor, s.revision⟩ source other → other = cutoff) ∧
      Confined db source revision cutoff t) ∧
    (∀ db' w', Reachable draws db' w' → SameBranch db db' w w' actor →
      scopedHistory db' actor source revision = scopedHistory db actor source revision) ∧
    (∀ db' w', Run draws db w db' w' → w'.sessions actor = w.sessions actor →
      scopedHistory db' actor source revision = scopedHistory db actor source revision) := by
  have hr := h.represents
  refine ⟨fun t ht => ?_, fun db' w' h' hsame => hsame.history hr h'.represents source revision,
    fun db' w' hrun hactor => (hrun.sameBranch hr h.forest hactor).history hr (hrun.represents hr)
      source revision⟩
  obtain ⟨⟨s, head⟩, hl, ht⟩ := bind_ok ht
  obtain ⟨hs, -, -⟩ := hr.of_loadSession hl
  obtain ⟨cutoff, hlineage, hconfined⟩ := scopedFrom_confined hr (hr.atActor hs) ht
  exact ⟨s, cutoff, hs, hlineage, fun other ho => h.forest.lineage_unique hlineage ho, hconfined⟩

end

/-! ## a fork of the session of the example -/

namespace Sample
variable {draws : TaskState → Uuid → Prop} {db : Db} {w : World}

def forkId : SessionId := ⟨⟨9⟩⟩

def forkCursor : SessionCursor := ⟨1, sessionId, 1⟩

def forked : SessionState := SessionState.create forkId { creation with parent := some forkCursor }

theorem forks (h : Represents db w) (hs : w.sessions sessionId = some opened)
    (hfree : w.sessions forkId = none) :
    ∃ db', createSessionSeeded env forkId config profile (some forkCursor) none false db =
      .ok (forked, db') := by
  obtain ⟨head, hload⟩ := h.loadSession_now hs
  have hnone := h.loadSession_none hfree
  have hins : ∀ a, db.sessions.insert forkId a = some (db.sessions ++ [(forkId, a)]) := by
    intro a
    rw [Table.insert, h.missingSession hfree]
    rfl
  refine ⟨{ db with sessions := db.sessions ++ [(forkId, Orvek.created
    (SessionEvent.created { creation with parent := some forkCursor }).document forked.document
    (aggregateHash "session" forkId.uuid 1 none []))] }, ?_⟩
  rw [createSessionSeeded, refuseIf_of_not _ (by decide), ok_bind, hnone]
  show (inheritFrom forkCursor profile false db >>= _) = _
  rw [inheritFrom, show loadSessionState db forkCursor.session (some forkCursor.revision) = .ok (opened, head)
    from hload]
  show (insertSession forkId { creation with parent := some forkCursor } db) = _
  rw [insertSession, refuseIf_of_not _ (by decide), ok_bind]
  simp only [hins]
  rfl

/-- the parent after the fork -/
def advised : SessionState := after opened firstRequest (.feedback "later")

theorem advises (h : Represents db w) (hs : w.sessions sessionId = some opened) :
    ∃ db', sessionCommand env sessionId 1 firstRequest (.feedback "later") db = .ok (advised, db') := by
  obtain ⟨db', hc, -⟩ := issues h hs
    (show opened.apply firstRequest (.feedback "later") = .ok advised from rfl) (by decide) trivial
    rfl rfl rfl
  exact ⟨db', hc⟩

end Sample

open Sample in
theorem history_confined_forked : ∃ db, scopedHistory db forkId sessionId none = .ok opened ∧
    ∃ head, loadSessionState db sessionId none = .ok (advised, head) := by
  obtain ⟨db, hr, -⟩ := @reachable_opened fun _ _ => True
  obtain ⟨db₁, hfork⟩ := forks hr.represents (World.setSession_get World.empty opened) rfl
  have hr₁ := Run.step hr (.createSession hfork)
  have hs₁ : ((World.empty.setSession opened).write none (some forked)).sessions sessionId = some opened :=
    rfl
  obtain ⟨db₂, hadvise⟩ := advises (Reachable.represents hr₁) hs₁
  have hrun : Run (fun _ _ => True) db₁ ((World.empty.setSession opened).setSession forked) db₂ _ :=
    Run.step .refl (.sessionCommand hadvise)
  have hsame := (history_confined hr₁ forkId sessionId none).2.2 db₂ _ hrun rfl
  obtain ⟨head, hload⟩ := (hrun.represents (Reachable.represents hr₁)).loadSession
    (World.setSession_get _ advised)
  refine ⟨db₂, ?_, head, hload⟩
  rw [hsame]
  obtain ⟨_, hfork⟩ := (Reachable.represents hr₁).loadSession
    (World.setSession_get (World.empty.setSession opened) forked)
  obtain ⟨_, hnow⟩ := (Reachable.represents hr₁).loadSession_now hs₁
  rw [scopedHistory, show loadSessionState db₁ forkId none = _ from hfork, ok_bind]
  show (loadSessionCursor forkCursor db₁ >>= _) = _
  have hcursor : loadSessionCursor forkCursor db₁ = .ok opened := by
    rw [loadSessionCursor, show loadSessionState db₁ forkCursor.session (some forkCursor.revision) = _
      from hnow]
    rfl
  rw [hcursor, ok_bind]
  exact hcursor

end Orvek
