import Orvek.Memory.Lessons
import Mathlib.Data.List.Perm.Subperm

/-!
# The outcome of lessons

Finalisations and proposals on one store, in any order of their operations.

* `Bound`              what stays known of a row, as long as there is one under its identifier;
* `FinalizeStep`       all that one operation of a finalisation can do;
* `Settles`            it changes versions that are pending for its run, and drops what has expired;
* `Finalizing.rank`    falls with each operation of a finalisation, and rises by as much as the
                       `Lessons.weight` of another client falls;
* `Left`               what a finalisation has before it, while nothing else writes;
* `lessons_finalized`  all of it together.
-/

set_option linter.unusedSectionVars false

namespace Orvek
open Checks

namespace Memory

section
variable [Sha256] [MemoryText] {limits : MemoryLimits} {env : MemoryEnv} {db db' : MemoryDb}
  {trace : TraceReference} {now : Int} {m : Move}
variable {key : Option MemoryKey} {f : Finalizing} (after : Int)

/-! ## what is known of a row -/

structure Bound (id : Int) (p : MemoryRow → Prop) (db : MemoryDb) : Prop where
  next : id < db.nextId
  row : ∀ b ∈ db.rows, b.id = id → p b

theorem Bound.follows {id : Int} {p : MemoryRow → Prop} (h : Bound id p db) (hf : Follows db db')
    (hp : ∀ {a b}, p a → Continues a b → p b) : Bound id p db' where
  next := lt_of_lt_of_le h.next hf.next
  row := fun b hb hid => by
    rcases hf.rows b hb with hnew | ⟨a, ha, hab⟩
    · have := h.next
      omega
    · exact hp (h.row a ha (hab.1.trans hid)) hab

def Passed (key : MemoryKey) : MemoryDb → Prop := Bound key.id fun b => key.version < b.version

theorem Passed.follows {key : MemoryKey} (h : Passed key db) (hf : Follows db db') :
    Passed key db' :=
  Bound.follows h hf fun hp hab => by
    rcases hab.2 with hlt | ⟨heq, -⟩
    · exact Nat.lt_trans hp hlt
    · exact heq ▸ hp

def Seen (e : MemoryRecord) : MemoryDb → Prop :=
  Bound e.key.id fun b => e.key.version < b.version ∨
    e.key.version = b.version ∧ b.content = e.content ∧ b.metadata = e.metadata

theorem Seen.follows {e : MemoryRecord} (h : Seen e db) (hf : Follows db db') : Seen e db' := by
  refine Bound.follows h hf fun {a b} hp hab => ?_
  rcases hab.2 with hlt | ⟨hv, hc, hm⟩
  · rcases hp with hp | ⟨hp, -⟩
    · exact .inl (Nat.lt_trans hp hlt)
    · exact .inl (hp ▸ hlt)
  · rw [← hv, ← hc, ← hm]
    exact hp

theorem seen_of_mem {r : MemoryRow} (hids : (db.rows.map MemoryRow.id).Nodup) (hr : r ∈ db.rows)
    (hnext : r.id < db.nextId) : Seen r.record db := by
  refine ⟨hnext, fun b hb hid => ?_⟩
  rw [row_unique hids hb hr hid]
  exact .inr ⟨rfl, rfl, rfl⟩

def Pends (trace : TraceReference) (m : MemoryMetadata) : Prop :=
  m.pendingRun = some trace ∧ m.kind.isPending = true

theorem isLesson_of_isPending {k : MemoryKind} (h : k.isPending = true) : k.isLesson = true := by
  cases k with
  | lessonProposal test state => rfl
  | _ => cases h

theorem matches_pending {r : MemoryRecord} :
    LessonQuery.matches (.pending trace) r = true ↔ Pends trace r.metadata := by
  unfold LessonQuery.matches Pends
  rw [Bool.and_eq_true, Bool.and_eq_true, decide_eq_true_eq]
  exact ⟨And.right, fun h => ⟨isLesson_of_isPending h.2, h⟩⟩

theorem not_pends_finalized {m : MemoryMetadata} (h : m.kind.isLesson = true) :
    ¬ Pends trace (finalized m) := by
  intro hp
  unfold finalized at hp
  cases hkind : m.kind with
  | lessonProposal test state =>
    rw [hkind] at hp
    cases hp.1
  | _ =>
    rw [hkind] at h
    cases h

/-- the records that a finalisation holds -/
structure Listed (trace : TraceReference) (db : MemoryDb) (records : List MemoryRecord) : Prop where
  sorted : records.Pairwise fun a b => a.key.id < b.key.id
  pends : ∀ e ∈ records, Pends trace e.metadata
  keyed : ∀ e ∈ records, e.key.nameSpace = none
  seen : ∀ e ∈ records, Seen e db

theorem Listed.follows {records : List MemoryRecord} (h : Listed trace db records)
    (hf : Follows db db') : Listed trace db' records :=
  ⟨h.sorted, h.pends, h.keyed, fun e he => (h.seen e he).follows hf⟩

theorem Listed.tail {e : MemoryRecord} {records : List MemoryRecord}
    (h : Listed trace db (e :: records)) : Listed trace db records :=
  ⟨(List.pairwise_cons.mp h.sorted).2, fun a ha => h.pends a (List.mem_cons_of_mem e ha),
    fun a ha => h.keyed a (List.mem_cons_of_mem e ha),
    fun a ha => h.seen a (List.mem_cons_of_mem e ha)⟩

/-! ## one operation -/

theorem lessonPage_db (limits : MemoryLimits) (env : MemoryEnv) (query : LessonQuery)
    (after now : Int) (db : MemoryDb) :
    (lessonPage limits env query after now db).2 = (list limits env now db).2 := by
  unfold lessonPage
  rcases hlist : list limits env now db with ⟨e | records, db'⟩ <;> rfl

/-- a page of the lessons that are pending for a run -/
structure PendingPage (limits : MemoryLimits) (trace : TraceReference) (now after : Int)
    (db : MemoryDb)
    (records : List MemoryRecord) (db' : MemoryDb) : Prop where
  rows : db'.rows = unexpired now db
  listed : Listed trace db' records
  valid : ∀ r ∈ db'.rows, r.record.validate .local limits = .ok ()
  stored : ∀ e ∈ records, after < e.key.id ∧ ∃ r ∈ db'.rows, r.record = e
  /-- what is not on the page comes after it -/
  rest : ∀ r ∈ db'.rows, visible none r = true → Pends trace r.metadata → after < r.id →
    r.record ∈ records ∨ records ≠ [] ∧ ∀ e ∈ records, e.key.id < r.id

theorem lessonPage_ok {after : Int} {records : List MemoryRecord}
    (hids : (db.rows.map MemoryRow.id).Nodup)
    (h : lessonPage limits env (.pending trace) after now db = (.ok records, db')) :
    PendingPage limits trace now after db records db' := by
  unfold lessonPage at h
  rcases hlist : list limits env now db with ⟨e | all, listed⟩
  · rw [hlist] at h
    cases h
  · rw [hlist] at h
    cases h
    obtain ⟨hrows, hnext, hvalid, hsorted, hmem⟩ := list_ok hids hlist
    have hids' : (db'.rows.map MemoryRow.id).Nodup := by
      rw [hrows]
      exact hids.sublist (List.filter_sublist.map _)
    have hof : ∀ e ∈ (all.filter fun r => after < r.key.id && LessonQuery.matches (.pending trace)
      r).take
        maxExportPageRecords, after < e.key.id ∧ Pends trace e.metadata ∧ ∃ r ∈ db'.rows,
          r.record = e := by
      intro e he
      obtain ⟨he, hcond⟩ := List.mem_filter.mp (List.mem_of_mem_take he)
      rw [Bool.and_eq_true, decide_eq_true_eq] at hcond
      obtain ⟨r, hr, -, hre⟩ := (hmem e).mp he
      exact ⟨hcond.1, matches_pending.mp hcond.2, r, hr, hre⟩
    refine ⟨hrows, ⟨?_, ?_, ?_, ?_⟩, hvalid, ?_, ?_⟩
    · exact (hsorted.filter _).sublist (List.take_sublist _ _)
    · exact fun e he => (hof e he).2.1
    · intro e he
      obtain ⟨-, -, r, -, rfl⟩ := hof e he
      rfl
    · intro e he
      obtain ⟨-, -, r, hr, rfl⟩ := hof e he
      exact seen_of_mem hids' hr (hnext r hr)
    · exact fun e he => ⟨(hof e he).1, (hof e he).2.2⟩
    · intro r hr hvisible hpends hafter
      have hin : r.record ∈ all.filter fun r => after < r.key.id &&
          LessonQuery.matches (.pending trace) r := by
        refine List.mem_filter.mpr ⟨(hmem _).mpr ⟨r, hr, hvisible, rfl⟩, ?_⟩
        rw [Bool.and_eq_true, decide_eq_true_eq]
        exact ⟨hafter, matches_pending.mpr hpends⟩
      have hsplit := hsorted.filter fun r => after < r.key.id && LessonQuery.matches
        (.pending trace) r
      revert hin hsplit
      generalize (all.filter fun r => after < r.key.id && LessonQuery.matches (.pending trace) r) =
        l
      intro hin hsplit
      rw [← List.take_append_drop maxExportPageRecords l] at hin hsplit
      rcases List.mem_append.mp hin with hin | hin
      · exact .inl hin
      · refine .inr ⟨fun hnil => ?_, fun e he => ?_⟩
        · rcases List.take_eq_nil_iff.mp hnil with hzero | hzero
          · cases hzero
          · rw [hzero] at hin
            cases List.mem_of_mem_drop hin
        · exact (List.pairwise_append.mp hsplit).2.2 e he r.record hin

/-- the version that comes after a lesson with its outcome -/
structure Outcome (old new : MemoryRow) : Prop where
  id : new.id = old.id
  version : new.version = old.version + 1
  content : new.content = old.content
  metadata : new.metadata = finalized old.metadata

def Finalizing.isDone : Finalizing → Bool
  | .done _ => true
  | _ => false

/-- one operation of a finalisation; the last argument is the version that gets its outcome -/
inductive FinalizeStep (limits : MemoryLimits) (trace : TraceReference) (now : Int)
    (db : MemoryDb) :
    Finalizing → Finalizing → MemoryDb → Option MemoryKey → Prop
  | finished (result : Except LessonError Nat) :
      FinalizeStep limits trace now db (.done result) (.done result) db none
  | failed {f : Finalizing} {db' : MemoryDb} (e : LessonError) (hf : f.isDone = false)
      (hrows : db'.rows = db.rows ∨ db'.rows = unexpired now db) :
      FinalizeStep limits trace now db f (.done (.error e)) db' none
  | ended {after : Int} {count : Nat} {db' : MemoryDb}
      (hpage : PendingPage limits trace now after db [] db') :
      FinalizeStep limits trace now db (.page after count) (.done (.ok count)) db' none
  | paged {after : Int} {count : Nat} {db' : MemoryDb} {record : MemoryRecord}
      {rest : List MemoryRecord} (hpage : PendingPage limits trace now after db (record :: rest)
        db') :
      FinalizeStep limits trace now db (.page after count) (.settling record rest count) db' none
  | settled {record : MemoryRecord} {rest : List MemoryRecord} {count : Nat} {db' : MemoryDb}
      {old new : MemoryRow} (hold : old ∈ unexpired now db) (hid : old.id = record.key.id)
      (hversion : old.version = record.key.version) (hpends : Pends trace old.metadata)
      (hnew : Outcome old new)
      (hrows : db'.rows = (unexpired now db).map fun r => if r.id = old.id then new else r) :
      FinalizeStep limits trace now db (.settling record rest count)
        (.next record.key.id rest (count + 1)) db' (some record.key)
  | stale {record : MemoryRecord} {rest : List MemoryRecord} {count : Nat} {db' : MemoryDb}
      (hrows : db'.rows = db.rows) (hgone : ∀ r ∈ db.rows, ¬ Replaceable now record.key r) :
      FinalizeStep limits trace now db (.settling record rest count)
        (.next record.key.id rest count) db' none

/-- the records of a finalisation are lessons of its run -/
def Finalizing.Sound (trace : TraceReference) (db : MemoryDb) : Finalizing → Prop
  | .settling record rest _ => Listed trace db (record :: rest)
  | _ => True

theorem finalized_owner {m : MemoryMetadata} {owner : String} (h : m.ownershipId = some owner) :
    { finalized m with ownershipId := some owner } = finalized m := by
  unfold finalized
  cases hkind : m.kind with
  | lessonProposal test state => simp only [h]
  | _ => simp only [← h]

theorem finalize_step (limits : MemoryLimits) (m : Move) (hkeyed : Keyed db) (hf : f.Sound trace db) :
    FinalizeStep limits trace m.now db f (finalizeLessons limits m.env m.now trace db f).1
      (finalizeLessons limits m.env m.now trace db f).2
      (LessonClient.outcome limits m db (.finalization trace f)) := by
  cases f with
  | done result => exact .finished result
  | page after count =>
    have hdb := lessonPage_db limits m.env (.pending trace) after m.now db
    rcases hpage : lessonPage limits m.env (.pending trace) after m.now db with ⟨e | records, db'⟩
    · simp only [finalizeLessons, hpage]
      refine .failed _ rfl (.inl ?_)
      rw [hpage] at hdb
      rcases hlist : list limits m.env m.now db with ⟨e' | all, listed⟩
      · rw [hlist] at hdb
        rw [show db' = listed from hdb]
        exact list_error hlist
      · unfold lessonPage at hpage
        rw [hlist] at hpage
        cases hpage
    · have hfacts := lessonPage_ok hkeyed.ids hpage
      simp only [finalizeLessons, hpage]
      cases hvalid : validatePage (.pending trace) after records with
      | error e =>
        simp only
        exact .failed _ rfl (.inr hfacts.rows)
      | ok u =>
        cases records with
        | nil => exact .ended hfacts
        | cons record rest => exact .paged hfacts
  | settling record rest count =>
    have hlisted : Listed trace db (record :: rest) := hf
    have hpends := hlisted.pends record List.mem_cons_self
    have hlesson := isLesson_of_isPending hpends.2
    simp only [finalizeLessons, LessonClient.outcome, hlesson, if_true]
    rcases hput : finalizeRecord limits m.env m.now record db with ⟨e | memory, db'⟩
    · have hrows := put_error hput
      by_cases he : e = .conflict ∨ e = .notFound
      · simp only [he, if_true]
        have hfirst : (finalizeRecord limits m.env m.now record db).1 = .error e := by rw [hput]
        exact .stale hrows (put_refused hkeyed.ids (hlisted.keyed record List.mem_cons_self) hfirst
          he)
      · simp only [he, if_false]
        exact .failed _ rfl (.inl hrows)
    · obtain ⟨old, hold, new, hid, hversion, hnew, hrows⟩ := put_replaced hkeyed.ids hput
      have hmem := (mem_unexpired.mp hold).1
      obtain ⟨hc, hm⟩ : old.content = record.content ∧ old.metadata = record.metadata := by
        rcases (hlisted.seen record List.mem_cons_self).row old hmem hid with hlt | ⟨-, h⟩
        · omega
        · exact h
      refine .settled hold hid hversion (hm ▸ hpends)
        ⟨hnew.id, hnew.version, hnew.content.trans hc.symm, ?_⟩
        hrows
      obtain ⟨owner, howner, hmetadata⟩ := hnew.metadata
      obtain ⟨o, ho⟩ := Option.ne_none_iff_exists'.mp (hkeyed.owned old hmem)
      rw [hmetadata, howner o ho, ← hm]
      exact finalized_owner ho

/-- what an operation of a finalisation leaves of the rows -/
structure Settles (trace : TraceReference) (now : Int) (db db' : MemoryDb) : Prop where
  before : ∀ r ∈ db.rows, r ∈ db'.rows ∨ expired now r = true ∨
    Pends trace r.metadata ∧ ∃ r' ∈ db'.rows, Outcome r r'
  after : ∀ r' ∈ db'.rows, r' ∈ db.rows ∨ ∃ r ∈ db.rows, Pends trace r.metadata ∧ Outcome r r'

theorem Settles.same (h : db'.rows = db.rows) : Settles trace now db db' :=
  ⟨fun _ hr => .inl (h ▸ hr), fun _ hr => .inl (h ▸ hr)⟩

theorem Settles.prune (h : db'.rows = unexpired now db) : Settles trace now db db' := by
  refine ⟨fun r hr => ?_, fun r hr => .inl (mem_unexpired.mp (h ▸ hr)).1⟩
  cases hexpired : expired now r with
  | true => exact .inr (.inl rfl)
  | false => exact .inl (h ▸ mem_unexpired.mpr ⟨hr, hexpired⟩)

theorem FinalizeStep.settles {f' : Finalizing} (hkeyed : Keyed db)
    (h : FinalizeStep limits trace now db f f' db' key) : Settles trace now db db' := by
  cases h with
  | finished result => exact .same rfl
  | failed e hf hrows => exact hrows.elim .same .prune
  | ended hpage => exact .prune hpage.rows
  | paged hpage => exact .prune hpage.rows
  | stale hrows => exact .same hrows
  | @settled record rest count db' old new hold hid hversion hpends hnew hrows =>
    have hold' := (mem_unexpired.mp hold).1
    have hthere : new ∈ db'.rows := by
      rw [hrows]
      exact List.mem_map.mpr ⟨old, hold, if_pos rfl⟩
    refine ⟨fun r hr => ?_, fun r' hr' => ?_⟩
    · cases hexpired : expired now r with
      | true => exact .inr (.inl rfl)
      | false =>
        by_cases hr' : r.id = old.id
        · rw [row_unique hkeyed.ids hr hold' hr']
          exact .inr (.inr ⟨hpends, new, hthere, hnew⟩)
        · refine .inl ?_
          rw [hrows]
          exact List.mem_map.mpr ⟨r, mem_unexpired.mpr ⟨hr, hexpired⟩, if_neg hr'⟩
    · rw [hrows] at hr'
      obtain ⟨r, hr, rfl⟩ := List.mem_map.mp hr'
      split
      · exact .inr ⟨old, hold', hpends, hnew⟩
      · exact .inl (mem_unexpired.mp hr).1

/-! ## the clients of a store -/

theorem proposeLesson_db (content : String) (metadata : MemoryMetadata) (p : Proposing) :
    (proposeLesson limits env now content metadata db p).2 = db ∨
      (proposeLesson limits env now content metadata db p).2 = (list limits env now db).2 ∨
      ∃ m key, p = .found m key ∧
        (proposeLesson limits env now content metadata db p).2 =
          (put limits env content m key now db).2 := by
  cases p with
  | done result => exact .inl rfl
  | found m key =>
    refine .inr (.inr ⟨m, key, rfl, ?_⟩)
    simp only [proposeLesson]
    rcases put limits env content m key now db with ⟨e | record, db'⟩ <;> rfl
  | ready =>
    simp only [proposeLesson]
    split
    · exact .inl rfl
    · have hdb := lessonPage_db limits env
        (.matching metadata.scope (normalizeIdentity content)) 0 now db
      refine .inr (.inl ?_)
      rw [← hdb]
      rcases lessonPage limits env (.matching metadata.scope (normalizeIdentity content)) 0 now db
        with
        ⟨e | records, db'⟩
      · rfl
      · simp only
        split
        · rfl
        · split <;> rfl

theorem finalizeLessons_db (f : Finalizing) :
    (finalizeLessons limits env now trace db f).2 = db ∨
      (finalizeLessons limits env now trace db f).2 = (list limits env now db).2 ∨
      ∃ content m key, (finalizeLessons limits env now trace db f).2 =
        (put limits env content m (some key) now db).2 := by
  cases f with
  | done result => exact .inl rfl
  | page after count =>
    refine .inr (.inl ?_)
    rw [← lessonPage_db limits env (.pending trace) after now db]
    simp only [finalizeLessons]
    rcases lessonPage limits env (.pending trace) after now db with ⟨e | records, db'⟩
    · rfl
    · simp only
      split
      · rfl
      · split <;> rfl
  | settling record rest count =>
    simp only [finalizeLessons]
    split
    · refine .inr (.inr ⟨record.content, finalized record.metadata, record.key, ?_⟩)
      rw [finalizeRecord]
      rcases put limits env record.content (finalized record.metadata) (some record.key) now db with
        ⟨e | memory, db'⟩
      · simp only
        split <;> rfl
      · rfl
    · exact .inl rfl

theorem step_keeps {p : MemoryDb → Prop} (c : LessonClient) (hsame : p db)
    (hlist : p (list limits m.env m.now db).2)
    (hput : ∀ content metadata key, p (put limits m.env content metadata key m.now db).2) :
    p (c.step limits m db).2 := by
  cases c with
  | proposal content metadata at' =>
    show p (proposeLesson limits m.env m.now content metadata db at').2
    rcases @proposeLesson_db _ _ limits m.env db m.now content metadata at' with h | h |
      ⟨_, _, -, h⟩
    · rw [h]
      exact hsame
    · rw [h]
      exact hlist
    · rw [h]
      exact hput _ _ _
  | finalization trace at' =>
    show p (finalizeLessons limits m.env m.now trace db at').2
    rcases @finalizeLessons_db _ _ limits m.env db trace m.now at' with h | h | ⟨_, _, _, h⟩
    · rw [h]
      exact hsame
    · rw [h]
      exact hlist
    · rw [h]
      exact hput _ _ _

theorem step_keyed (hkeyed : Keyed db) (c : LessonClient) : Keyed (c.step limits m db).2 :=
  step_keeps c hkeyed ((MemoryCall.list m.env m.now).run_keyed hkeyed) fun content metadata key =>
    (MemoryCall.put m.env content metadata key m.now).run_keyed hkeyed

theorem step_follows (hkeyed : Keyed db) (c : LessonClient) : Follows db (c.step limits m db).2 :=
  step_keeps c (Follows.refl db) (list_follows m.env m.now db) fun content metadata key =>
    put_follows hkeyed.ids m.env content metadata key m.now

def LessonClient.Sound (db : MemoryDb) : LessonClient → Prop
  | .proposal _ _ _ => True
  | .finalization trace f => f.Sound trace db

/-- a store whose finalisations hold lessons of their runs -/
structure Lessons.Sound (s : Lessons) : Prop where
  keyed : Keyed s.db
  clients : ∀ c ∈ s.clients, c.Sound s.db

theorem LessonClient.Sound.follows {c : LessonClient} (h : c.Sound db) (hf : Follows db db') :
    c.Sound db' := by
  cases c with
  | proposal content metadata at' => trivial
  | finalization trace f =>
    cases f with
    | settling record rest count => exact Listed.follows h hf
    | _ => trivial

theorem Finalizing.Sound.next {after : Int} {e : MemoryRecord} {rest : List MemoryRecord}
    {count : Nat}
    (h : Listed trace db (e :: rest)) : (Finalizing.next after rest count).Sound trace db := by
  cases rest with
  | nil => trivial
  | cons record rest => exact h.tail

theorem FinalizeStep.sound {f' : Finalizing} (hf : f.Sound trace db) (hfollows : Follows db db')
    (h : FinalizeStep limits trace now db f f' db' key) : f'.Sound trace db' := by
  cases h with
  | finished result => trivial
  | failed e _ _ => trivial
  | ended hpage => trivial
  | paged hpage => exact hpage.listed
  | settled _ _ _ _ _ _ => exact .next (Listed.follows hf hfollows)
  | stale _ _ => exact .next (Listed.follows hf hfollows)

theorem step_sound (hkeyed : Keyed db) {c : LessonClient} (hc : c.Sound db) :
    (c.step limits m db).1.Sound (c.step limits m db).2 := by
  cases c with
  | proposal content metadata at' => trivial
  | finalization trace f =>
    exact (finalize_step limits m hkeyed hc).sound hc (step_follows hkeyed (.finalization trace f))

variable {s : Lessons} {i : Nat} {c : LessonClient} {f f' : Finalizing} {moves : List Move}

theorem move_of_some (limits : MemoryLimits) (h : s.clients[m.client]? = some c) :
    s.move limits m = ⟨(c.step limits m s.db).2,
      s.clients.set m.client (c.step limits m s.db).1⟩ := by
  rw [Lessons.move, h]

theorem move_of_none (limits : MemoryLimits) (h : s.clients[m.client]? = none) :
    s.move limits m = s := by
  rw [Lessons.move, h]

theorem move_follows (limits : MemoryLimits) (hs : s.Sound) (m : Move) :
    Follows s.db (s.move limits m).db := by
  cases h : s.clients[m.client]? with
  | none =>
    rw [move_of_none limits h]
    exact Follows.refl s.db
  | some c =>
    rw [move_of_some limits h]
    exact step_follows hs.keyed c

theorem move_sound (limits : MemoryLimits) (hs : s.Sound) (m : Move) : (s.move limits m).Sound := by
  cases h : s.clients[m.client]? with
  | none =>
    rw [move_of_none limits h]
    exact hs
  | some c =>
    have hfollows := move_follows limits hs m
    rw [move_of_some limits h] at hfollows ⊢
    refine ⟨step_keyed hs.keyed c, fun d hd => ?_⟩
    rcases List.mem_or_eq_of_mem_set hd with hd | rfl
    · exact (hs.clients d hd).follows hfollows
    · exact step_sound hs.keyed (hs.clients c (List.mem_of_getElem? h))

theorem run_sound (hs : s.Sound) (moves : List Move) : (s.run limits moves).Sound := by
  induction moves generalizing s with
  | nil => exact hs
  | cons m moves ih => exact ih (move_sound limits hs m)

theorem start_sound (hkeyed : Keyed db) (requests : List LessonRequest) :
    (Lessons.start db requests).Sound := by
  refine ⟨hkeyed, fun c hc => ?_⟩
  obtain ⟨request, -, rfl⟩ := List.mem_map.mp hc
  cases request <;> trivial

theorem move_client (limits : MemoryLimits) (m : Move) (h : s.clients[i]? = some c) :
    (s.move limits m).clients[i]? = some (if m.client = i then (c.step limits m s.db).1 else
    c) := by
  by_cases hi : m.client = i
  · subst hi
    rw [move_of_some limits h, if_pos rfl]
    exact List.getElem?_set_self (List.getElem?_eq_some_iff.mp h).1
  · rw [if_neg hi]
    cases hm : s.clients[m.client]? with
    | none =>
      rw [move_of_none limits hm]
      exact h
    | some d =>
      rw [move_of_some limits hm]
      show (s.clients.set _ _)[i]? = _
      rw [List.getElem?_set_ne hi]
      exact h

/-! ## each version once -/

def Lessons.outcome (limits : MemoryLimits) (s : Lessons) (m : Move) : Option MemoryKey :=
  (s.clients[m.client]?).bind (LessonClient.outcome limits m s.db)

theorem outcomes_cons (s : Lessons) (m : Move) (moves : List Move) :
    s.outcomes limits (m :: moves) =
      ((s.outcome limits m).map fun key => (m.client, key)).toList ++
        (s.move limits m).outcomes limits moves := rfl

/-- the version was there, and it is over -/
theorem outcome_passed (hs : s.Sound) {key : MemoryKey} (h : s.outcome limits m = some key) :
    ¬ Passed key s.db ∧ Passed key (s.move limits m).db := by
  obtain ⟨c, hc, hkey⟩ := Option.bind_eq_some_iff.mp h
  have hsound := hs.clients c (List.mem_of_getElem? hc)
  have hmove := move_of_some limits hc
  have hfollows := move_follows limits hs m
  rw [hmove] at hfollows ⊢
  cases c with
  | proposal content metadata at' => cases hkey
  | finalization trace f =>
    have hstep := finalize_step limits m hs.keyed hsound
    rw [hkey] at hstep
    cases f with
    | done result => cases hkey
    | page after count => cases hkey
    | settling record rest count =>
      generalize hfst : (finalizeLessons limits m.env m.now trace s.db
        (.settling record rest count)).1 =
        f' at hstep
      generalize hsnd : (finalizeLessons limits m.env m.now trace s.db
        (.settling record rest count)).2 =
        db' at hstep
      have hdb : (LessonClient.step limits m s.db
        (.finalization trace (.settling record rest count))).2 =
        db' := hsnd
      rw [hdb] at hfollows ⊢
      cases hstep with
      | @settled _ _ _ _ old new hold hid hversion hpends hnew hrows =>
        have hold' := (mem_unexpired.mp hold).1
        have hseen := (hsound : Listed trace s.db (record :: rest)).seen record List.mem_cons_self
        constructor
        · intro hpassed
          have := hpassed.row old hold' hid
          omega
        · refine ⟨lt_of_lt_of_le hseen.next hfollows.next, fun b hb hb' => ?_⟩
          rw [hrows] at hb
          obtain ⟨r, hr, rfl⟩ := List.mem_map.mp hb
          by_cases hr' : r.id = old.id
          · rw [if_pos hr', hnew.version, hversion]
            exact Nat.lt_succ_self _
          · rw [if_neg hr'] at hb'
            exact absurd (hb'.trans hid.symm) hr'

theorem outcomes_fresh (hs : s.Sound) {e : Nat × MemoryKey} (he : e ∈ s.outcomes limits moves) :
    ¬ Passed e.2 s.db := by
  induction moves generalizing s with
  | nil => cases he
  | cons m moves ih =>
    rw [outcomes_cons] at he
    rcases List.mem_append.mp he with he | he
    · obtain ⟨key, hkey, rfl⟩ := Option.map_eq_some_iff.mp (Option.mem_toList.mp he)
      exact (outcome_passed hs hkey).1
    · exact fun hpassed => ih (move_sound limits hs m) he
        (hpassed.follows (move_follows limits hs m))

/-- **No version gets its outcome twice.** -/
theorem outcomes_nodup (hs : s.Sound) (moves : List Move) :
    ((s.outcomes limits moves).map Prod.snd).Nodup := by
  induction moves generalizing s with
  | nil => exact List.nodup_nil
  | cons m moves ih =>
    rw [outcomes_cons, List.map_append]
    have hrest := ih (move_sound limits hs m)
    cases hkey : s.outcome limits m with
    | none => exact hrest
    | some key =>
      refine List.nodup_cons.mpr ⟨fun hin => ?_, hrest⟩
      obtain ⟨e, he, heq⟩ := List.mem_map.mp hin
      exact outcomes_fresh (move_sound limits hs m) he (heq ▸ (outcome_passed hs hkey).2)

/-! ## the count -/

def Finalizing.count : Finalizing → Option Nat
  | .page _ count => some count
  | .settling _ _ count => some count
  | .done (.ok count) => some count
  | .done (.error _) => none

theorem count_next (rest : List MemoryRecord) (count : Nat) :
    (Finalizing.next after rest count).count = some count := by
  cases rest <;> rfl

theorem FinalizeStep.counted (h : FinalizeStep limits trace now db f f' db' key) {n : Nat}
    (hn : f'.count = some n) : ∃ k, f.count = some k ∧ n = k + key.toList.length := by
  cases h with
  | finished result => exact ⟨n, hn, rfl⟩
  | failed e _ _ => cases hn
  | ended hpage => exact ⟨n, hn, rfl⟩
  | paged hpage => exact ⟨n, hn, rfl⟩
  | settled _ _ _ _ _ _ =>
    rw [count_next] at hn
    cases hn
    exact ⟨_, rfl, rfl⟩
  | stale _ _ =>
    rw [count_next] at hn
    cases hn
    exact ⟨_, rfl, rfl⟩

theorem move_finalization (limits : MemoryLimits) (m : Move)
    (h : s.clients[i]? = some (.finalization trace f)) :
    ∃ f', (s.move limits m).clients[i]? = some (.finalization trace f') ∧
      (m.client ≠ i → f' = f) ∧
      (m.client = i → f' = (finalizeLessons limits m.env m.now trace s.db f).1 ∧
        (s.move limits m).db = (finalizeLessons limits m.env m.now trace s.db f).2 ∧
        s.outcome limits m = LessonClient.outcome limits m s.db (.finalization trace f)) := by
  have hclient := move_client limits m h
  by_cases hi : m.client = i
  · rw [if_pos hi] at hclient
    refine ⟨_, hclient, fun hne => absurd hi hne, fun _ => ⟨rfl, ?_, ?_⟩⟩
    · subst hi
      rw [move_of_some limits h]
      rfl
    · rw [Lessons.outcome, hi, h]
      rfl
  · rw [if_neg hi] at hclient
    exact ⟨f, hclient, fun _ => rfl, fun h => absurd h hi⟩

theorem filter_outcome (key : Option MemoryKey) (a i : Nat) :
    (((key.map fun k => (a, k)).toList).filter fun e => e.1 = i).length =
      if a = i then key.toList.length else 0 := by
  cases key with
  | none => by_cases h : a = i <;> simp [h]
  | some key => by_cases h : a = i <;> simp [h]

/-- **A finalisation counts the versions that it gave their outcome.** -/
theorem run_counted (hs : s.Sound) (h : s.clients[i]? = some (.finalization trace f))
    (h' : (s.run limits moves).clients[i]? = some (.finalization trace f')) {n : Nat}
    (hn : f'.count = some n) : ∃ k, f.count = some k ∧
      n = k + ((s.outcomes limits moves).filter fun e => e.1 = i).length := by
  induction moves generalizing s f with
  | nil =>
    have heq : some (LessonClient.finalization trace f) = some (.finalization trace f') :=
      h.symm.trans h'
    cases heq
    exact ⟨n, hn, rfl⟩
  | cons m moves ih =>
    obtain ⟨g, hg, hother, hown⟩ := move_finalization limits m h
    obtain ⟨k, hk, hcount⟩ := ih (move_sound limits hs m) hg h'
    rw [outcomes_cons, List.filter_append, List.length_append, filter_outcome]
    by_cases hi : m.client = i
    · obtain ⟨rfl, -, hkey⟩ := hown hi
      have hstep := finalize_step limits m hs.keyed
        (hs.clients _ (List.mem_of_getElem? h))
      rw [← hkey] at hstep
      obtain ⟨k', hk', rfl⟩ := hstep.counted hk
      refine ⟨k', hk', ?_⟩
      rw [if_pos hi, hcount, Nat.add_assoc]
    · rw [hother hi] at hk
      refine ⟨k, hk, ?_⟩
      rw [if_neg hi, hcount, Nat.zero_add]

/-! ## a finalisation comes to its end -/

def ahead (after : Int) (db : MemoryDb) : Nat := db.rows.countP fun r => after < r.id

theorem ahead_le_rows (db : MemoryDb) : ahead after db ≤ db.rows.length :=
  List.countP_le_length

attribute [grind =] ahead

theorem ahead_unexpired (h : db'.rows = unexpired now db) : ahead after db' ≤ ahead after db := by
  unfold ahead
  rw [h]
  exact List.Sublist.countP_le List.filter_sublist

theorem ahead_rows (h : db'.rows = db.rows) : ahead after db' = ahead after db := by
  unfold ahead
  rw [h]

theorem ahead_replaced {old new : MemoryRow} (hid : new.id = old.id)
    (h : db'.rows = (unexpired now db).map fun r => if r.id = old.id then new else r) :
    ahead after db' ≤ ahead after db := by
  have hsame : ahead after db' = (unexpired now db).countP fun r => after < r.id := by
    unfold ahead
    rw [h, List.countP_map]
    refine List.countP_congr fun r _ => ?_
    rw [Function.comp_apply]
    by_cases hr : r.id = old.id
    · rw [if_pos hr, hid, hr]
    · rw [if_neg hr]
  rw [hsame]
  exact List.Sublist.countP_le List.filter_sublist

def lastId (record : MemoryRecord) (rest : List MemoryRecord) : Int :=
  ((record :: rest).getLast (List.cons_ne_nil _ _)).key.id

def Finalizing.rank (db : MemoryDb) : Finalizing → Nat
  | .page after _ => 2 * ahead after db + 1
  | .settling record rest _ => 2 * ahead (lastId record rest) db + 1 + (rest.length + 1)
  | .done _ => 0

theorem rank_next (record : MemoryRecord) (rest : List MemoryRecord) (count : Nat) (db : MemoryDb) :
    (Finalizing.next record.key.id rest count).rank db + 1 =
      2 * ahead (lastId record rest) db + 1 + (rest.length + 1) := by
  cases rest with
  | nil => rfl
  | cons e rest =>
    show 2 * ahead (lastId e rest) db + 1 + (rest.length + 1) + 1 = _
    have hlast : lastId record (e :: rest) = lastId e rest := by
      unfold lastId
      rw [List.getLast_cons (List.cons_ne_nil _ _)]
    rw [hlast, List.length_cons]
    omega

theorem page_ahead {after : Int} {record : MemoryRecord} {rest : List MemoryRecord}
    (hkeyed : Keyed db) (h : PendingPage limits trace now after db (record :: rest) db') :
    rest.length + 1 + ahead (lastId record rest) db' ≤ ahead after db' := by
  have hle : ∀ e ∈ record :: rest, e.key.id ≤ lastId record rest := fun e he =>
    @Paging.Sorted.le_last _ _ _ (fun e : MemoryRecord => e.key.id) _ _ h.listed.sorted
      (List.getLast?_eq_getLast_of_ne_nil (List.cons_ne_nil record rest)) _ he
  have hids : (db'.rows.map MemoryRow.id).Nodup := by
    rw [h.rows]
    exact hkeyed.ids.sublist (List.filter_sublist.map _)
  have hlast : after < lastId record rest :=
    lt_of_lt_of_le (h.stored record List.mem_cons_self).1 (hle record List.mem_cons_self)
  have hsplit : ahead after db' = (db'.rows.filter fun r => after < r.id && r.id ≤ lastId record
    rest).length +
      ahead (lastId record rest) db' := by
    unfold ahead
    generalize db'.rows = rows
    induction rows with
    | nil => rfl
    | cons r rows ih =>
      rw [List.countP_cons, List.countP_cons, List.filter_cons, ih]
      by_cases hr : after < r.id <;> by_cases hr' : r.id ≤ lastId record rest
      · simp [hr, hr', not_lt.mpr hr']
        omega
      · simp [hr, hr', not_le.mp hr']
        omega
      · simp [hr, hr', not_lt.mpr hr']
      · omega
  have hcount : (record :: rest).length ≤
      (db'.rows.filter fun r => after < r.id && r.id ≤ lastId record rest).length := by
    have hnodup : ((record :: rest).map fun e => e.key.id).Nodup := by
      rw [List.Nodup, List.pairwise_map]
      exact h.listed.sorted.imp fun hlt => hlt.ne
    have hsub : (record :: rest).map (fun e => e.key.id) ⊆
        (db'.rows.filter fun r => after < r.id && r.id ≤ lastId record rest).map MemoryRow.id := by
      intro id hid
      obtain ⟨e, he, rfl⟩ := List.mem_map.mp hid
      obtain ⟨hafter, r, hr, rfl⟩ := h.stored e he
      refine List.mem_map.mpr ⟨r, List.mem_filter.mpr ⟨hr, ?_⟩, rfl⟩
      rw [Bool.and_eq_true, decide_eq_true_eq, decide_eq_true_eq]
      exact ⟨hafter, hle _ he⟩
    have hlength := (List.subperm_of_subset hnodup hsub).length_le
    rw [List.length_map, List.length_map] at hlength
    exact hlength
  rw [List.length_cons] at hcount
  omega

/-- its own operations bring a finalisation nearer to its end -/
theorem FinalizeStep.nearer (hkeyed : Keyed db) (h : FinalizeStep limits trace now db f f' db' key)
    (hf : f.isDone = false) : f'.rank db' < f.rank db := by
  cases h with
  | finished result => cases hf
  | failed e _ _ =>
    cases f with
    | done result => cases hf
    | page after count => exact Nat.succ_pos _
    | settling record rest count => exact Nat.succ_pos _
  | ended hpage => exact Nat.succ_pos _
  | @paged after count db' record rest hpage =>
    have hpage' := page_ahead hkeyed hpage
    have hle := ahead_unexpired after hpage.rows
    show 2 * ahead (lastId record rest) db' + 1 + (rest.length + 1) < 2 * ahead after db + 1
    omega
  | @settled record rest count db' old new _ _ _ _ hnew hrows =>
    have hle := ahead_replaced (lastId record rest) hnew.id hrows
    have hnext := rank_next record rest (count + 1) db'
    show _ < 2 * ahead (lastId record rest) db + 1 + (rest.length + 1)
    omega
  | @stale record rest count db' hrows =>
    have heq := ahead_rows (lastId record rest) hrows
    have hnext := rank_next record rest count db'
    show _ < 2 * ahead (lastId record rest) db + 1 + (rest.length + 1)
    omega

/-- a proposal that is not at its end may still add a row -/
def LessonClient.weight : LessonClient → Nat
  | .proposal _ _ (.done _) => 0
  | .proposal _ _ _ => 2
  | .finalization _ _ => 0

theorem weight_le_two (c : LessonClient) : c.weight ≤ 2 := by
  unfold LessonClient.weight
  split <;> omega

def Lessons.weight (s : Lessons) : Nat := (s.clients.map LessonClient.weight).sum

theorem list_ahead (hids : (db.rows.map MemoryRow.id).Nodup) (after : Int) (env : MemoryEnv)
    (now : Int) :
    ahead after (list limits env now db).2 ≤ ahead after db := by
  rcases hlist : list limits env now db with ⟨e | records, db'⟩
  · exact (ahead_rows after (list_error hlist)).le
  · exact ahead_unexpired after (list_ok hids hlist).1

theorem put_ahead (hids : (db.rows.map MemoryRow.id).Nodup) (after : Int) (env : MemoryEnv)
    (content : String) (metadata : MemoryMetadata) (replacement : Option MemoryKey) (now : Int) :
    ahead after (put limits env content metadata replacement now db).2 ≤ ahead after db + 1 := by
  rcases hput : put limits env content metadata replacement now db with ⟨e | record, db'⟩
  · exact (ahead_rows after (put_error hput)).le.trans (Nat.le_succ _)
  · cases replacement with
    | some key =>
      obtain ⟨old, -, new, -, -, hnew, hrows⟩ := put_replaced hids hput
      exact (ahead_replaced after hnew.id hrows).trans (Nat.le_succ _)
    | none =>
      obtain ⟨row, hrows⟩ := put_added hput
      show ahead after db' ≤ _
      unfold ahead
      rw [hrows, List.countP_append, List.countP_singleton]
      have hle : (unexpired now db).countP (fun r => after < r.id) ≤ db.rows.countP fun r =>
        after < r.id :=
        List.Sublist.countP_le List.filter_sublist
      split <;> omega

/-- a client that adds a row pays for it with its weight -/
theorem step_weight (hkeyed : Keyed db) (m : Move) (hc : c.Sound db) : ∃ d,
    (∀ after, ahead after (c.step limits m db).2 ≤ ahead after db + d) ∧
      (c.step limits m db).1.weight + 2 * d ≤ c.weight := by
  cases c with
  | finalization trace f =>
    refine ⟨0, fun after => ?_, le_rfl⟩
    have hstep := finalize_step limits m hkeyed hc
    show ahead after (finalizeLessons limits m.env m.now trace db f).2 ≤ _
    generalize (finalizeLessons limits m.env m.now trace db f).1 = f',
      (finalizeLessons limits m.env m.now trace db f).2 = db',
      LessonClient.outcome limits m db (.finalization trace f) = key at hstep ⊢
    cases hstep with
    | finished result => exact le_rfl
    | failed e _ hrows =>
      exact hrows.elim (fun h => (ahead_rows after h).le) (ahead_unexpired after)
    | ended hpage => exact ahead_unexpired after hpage.rows
    | paged hpage => exact ahead_unexpired after hpage.rows
    | settled _ _ _ _ hnew hrows => exact ahead_replaced after hnew.id hrows
    | stale hrows _ => exact (ahead_rows after hrows).le
  | proposal content metadata p =>
    rcases @proposeLesson_db _ _ limits m.env db m.now content metadata p with h | h |
      ⟨m', key, rfl, h⟩
    · refine ⟨0, fun after => ?_, ?_⟩
      · show ahead after (proposeLesson limits m.env m.now content metadata db p).2 ≤ _
        rw [h]
        exact le_rfl
      · cases p with
        | done result => exact le_rfl
        | _ => exact weight_le_two _
    · refine ⟨0, fun after => ?_, ?_⟩
      · show ahead after (proposeLesson limits m.env m.now content metadata db p).2 ≤ _
        rw [h]
        exact list_ahead hkeyed.ids after m.env m.now
      · cases p with
        | done result => exact le_rfl
        | _ => exact weight_le_two _
    · refine ⟨1, fun after => ?_, ?_⟩
      · show ahead after (proposeLesson limits m.env m.now content metadata db (.found m' key)).2 ≤
          _
        rw [h]
        exact put_ahead hkeyed.ids after m.env content m' key m.now
      · show (LessonClient.proposal content metadata
          (proposeLesson limits m.env m.now content metadata db (.found m' key)).1).weight + 2 ≤ 2
        simp only [proposeLesson]
        rcases put limits m.env content m' key m.now db with ⟨e | record, db'⟩ <;> exact le_rfl

theorem rank_le {d : Nat} (f : Finalizing) (h : ∀ after, ahead after db' ≤ ahead after db + d) :
    f.rank db' ≤ f.rank db + 2 * d := by
  cases f with
  | done result => exact Nat.zero_le _
  | page after count =>
    have := h after
    show 2 * ahead after db' + 1 ≤ 2 * ahead after db + 1 + 2 * d
    omega
  | settling record rest count =>
    have := h (lastId record rest)
    show 2 * ahead _ db' + 1 + (rest.length + 1) ≤ 2 * ahead _ db + 1 + (rest.length + 1) + 2 * d
    omega

theorem weight_set (c' : LessonClient) {clients : List LessonClient} {j : Nat}
    (h : clients[j]? = some c) :
    ((clients.set j c').map LessonClient.weight).sum + c.weight =
      (clients.map LessonClient.weight).sum + c'.weight := by
  induction clients generalizing j with
  | nil => cases h
  | cons a clients ih =>
    cases j with
    | zero =>
      cases h
      rw [List.set_cons_zero, List.map_cons, List.map_cons, List.sum_cons, List.sum_cons]
      omega
    | succ j =>
      rw [List.getElem?_cons_succ] at h
      have := ih h
      rw [List.set_cons_succ, List.map_cons, List.map_cons, List.sum_cons, List.sum_cons]
      omega

theorem move_nearer (hs : s.Sound) (m : Move) (h : s.clients[i]? = some (.finalization trace f)) :
    ∃ f', (s.move limits m).clients[i]? = some (.finalization trace f') ∧
      (f.isDone = true → f'.isDone = true) ∧
      (f.isDone = false → f'.rank (s.move limits m).db + (s.move limits m).weight +
        (if m.client = i then 1 else 0) ≤ f.rank s.db + s.weight) := by
  obtain ⟨f', hf', hother, hown⟩ := move_finalization limits m h
  refine ⟨f', hf', ?_⟩
  by_cases hi : m.client = i
  · obtain ⟨rfl, hdb, -⟩ := hown hi
    have hstep := finalize_step limits m hs.keyed (hs.clients _ (List.mem_of_getElem? h))
    have hweight : (s.move limits m).weight = s.weight := by
      subst hi
      rw [move_of_some limits h]
      have hset := weight_set (LessonClient.step limits m s.db (.finalization trace f)).1 h
      exact Nat.add_right_cancel hset
    rw [hdb, hweight, if_pos hi]
    refine ⟨fun hdone => ?_, fun hdone => ?_⟩
    · cases f with
      | done result => rfl
      | _ => cases hdone
    · have := hstep.nearer hs.keyed hdone
      omega
  · rw [hother hi, if_neg hi]
    refine ⟨id, fun _ => ?_⟩
    cases hm : s.clients[m.client]? with
    | none =>
      rw [move_of_none limits hm]
      exact le_rfl
    | some c =>
      obtain ⟨d, hahead, hweight⟩ := @step_weight _ _ limits _ _ hs.keyed m
        (hs.clients c (List.mem_of_getElem? hm))
      have hset := weight_set (c.step limits m s.db).1 hm
      have hrank := rank_le f hahead
      rw [move_of_some limits hm]
      show f.rank (c.step limits m s.db).2 + ((s.clients.set _ _).map LessonClient.weight).sum + 0 ≤
        f.rank s.db + (s.clients.map LessonClient.weight).sum
      omega

/-- a finalisation was one before -/
theorem move_origin (h : (s.move limits m).clients[i]? = some (.finalization trace f)) :
    ∃ g, s.clients[i]? = some (.finalization trace g) := by
  cases hc : s.clients[i]? with
  | none =>
    have hlength : (s.move limits m).clients.length = s.clients.length := by
      cases hm : s.clients[m.client]? with
      | none => rw [move_of_none limits hm]
      | some c =>
        rw [move_of_some limits hm]
        exact List.length_set
    rw [List.getElem?_eq_none_iff] at hc
    rw [List.getElem?_eq_none (hlength ▸ hc)] at h
    cases h
  | some c =>
    have hclient := move_client limits m hc
    rw [h] at hclient
    cases c with
    | proposal content metadata at' =>
      split at hclient <;> cases hclient
    | finalization trace' g =>
      refine ⟨g, ?_⟩
      split at hclient <;> cases hclient <;> rfl

theorem start_client {requests : List LessonRequest}
    (h : ((Lessons.start db requests).run limits moves).clients[i]? = some (.finalization trace f))
    :
    (Lessons.start db requests).clients[i]? = some (.finalization trace (.page 0 0)) := by
  have horigin : ∀ (moves : List Move) (s : Lessons) (f : Finalizing),
      (s.run limits moves).clients[i]? = some (.finalization trace f) →
      ∃ g, s.clients[i]? = some (.finalization trace g) := by
    intro moves
    induction moves with
    | nil => exact fun s f h => ⟨f, h⟩
    | cons m moves ih =>
      intro s f h
      obtain ⟨g, hg⟩ := ih (s.move limits m) f h
      exact move_origin hg
  obtain ⟨g, hg⟩ := horigin moves _ f h
  have hmap : (Lessons.start db requests).clients[i]? = (requests[i]?).map LessonRequest.client :=
    List.getElem?_map
  rw [hg] at hmap ⊢
  obtain ⟨request, -, hrequest⟩ := Option.map_eq_some_iff.mp hmap.symm
  cases request with
  | propose content metadata => cases hrequest
  | finalize trace' =>
    cases hrequest
    rfl

/-- **However the others move, a finalisation that is not at its end has made few moves.** -/
theorem run_nearer (hs : s.Sound) (h : s.clients[i]? = some (.finalization trace f))
    (h' : (s.run limits moves).clients[i]? = some (.finalization trace f'))
    (hf' : f'.isDone = false) :
    moves.countP (fun m => m.client = i) + f'.rank
      (s.run limits moves).db ≤ f.rank s.db + s.weight ∧
      f.isDone = false := by
  induction moves generalizing s f with
  | nil =>
    have heq : some (LessonClient.finalization trace f) = some (.finalization trace f') :=
      h.symm.trans h'
    cases heq
    refine ⟨?_, hf'⟩
    rw [List.countP_nil, Nat.zero_add]
    exact Nat.le_add_right _ _
  | cons m moves ih =>
    obtain ⟨g, hg, hstays, hnearer⟩ := @move_nearer _ _ limits _ _ _ _ hs m h
    obtain ⟨hbound, hdone⟩ := ih (move_sound limits hs m) hg h'
    have hf : f.isDone = false := by
      cases hf : f.isDone with
      | false => rfl
      | true => exact absurd (hstays hf) (by rw [hdone]; decide)
    refine ⟨?_, hf⟩
    have := hnearer hf
    rw [List.countP_cons]
    show _ + (f'.rank ((s.move limits m).run limits moves).db) ≤ _
    by_cases hi : m.client = i
    · simp only [hi, decide_true, if_true] at this ⊢
      omega
    · simp only [hi, decide_false, if_false, Bool.false_eq_true] at this ⊢
      omega

theorem sum_weight_le (clients : List LessonClient) :
    (clients.map LessonClient.weight).sum ≤ 2 * clients.length := by
  induction clients with
  | nil => exact le_rfl
  | cons c clients ih =>
    have := weight_le_two c
    rw [List.map_cons, List.sum_cons, List.length_cons]
    omega

theorem sum_weight_finalization {clients : List LessonClient} {i : Nat}
    (h : clients[i]? = some (.finalization trace f)) :
    (clients.map LessonClient.weight).sum + 2 ≤ 2 * clients.length := by
  induction clients generalizing i with
  | nil => cases h
  | cons c clients ih =>
    rw [List.map_cons, List.sum_cons, List.length_cons]
    cases i with
    | zero =>
      cases h
      have := sum_weight_le clients
      show 0 + _ + 2 ≤ _
      omega
    | succ i =>
      have := weight_le_two c
      have := ih (List.getElem?_cons_succ ▸ h)
      omega

theorem start_weight {db : MemoryDb} {requests : List LessonRequest} {i : Nat}
    (h : (Lessons.start db requests).clients[i]? = some (.finalization trace f)) :
    (Lessons.start db requests).weight + 2 ≤ 2 * requests.length :=
  (sum_weight_finalization h).trans_eq (by rw [Lessons.start, List.length_map])

/-! ## alone -/

theorem expired_le {t : Int} {r : MemoryRow} (h : expired now r = true) (hle : now ≤ t) :
    expired t r = true := by
  unfold expired at h ⊢
  rw [Bool.and_eq_true] at h ⊢
  refine ⟨?_, h.2⟩
  cases hp : r.probationUntilMs with
  | none =>
    rw [hp] at h
    cases h.1
  | some p =>
    rw [hp] at h
    exact decide_eq_true ((of_decide_eq_true h.1).trans hle)

/-- the finalisation will come to the row -/
def Finalizing.Awaits (b : MemoryRow) : Finalizing → Prop
  | .page after _ => after < b.id ∨ b.id ≤ 0
  | .settling record rest _ =>
    (∃ e ∈ record :: rest, e.key.id = b.id ∧ e.key.version = b.version) ∨ lastId record rest < b.id
  | .done (.ok _) => False
  | .done (.error _) => True

/-- the finalisation will come to every lesson that is shown as pending, unless its time is over or
no version comes after its own -/
def Left (t : Int) (trace : TraceReference) (f : Finalizing) (db : MemoryDb) : Prop :=
  ∀ b ∈ db.rows, visible none b = true → Pends trace b.metadata →
    expired t b = true ∨ 2 ^ 63 ≤ b.version + 1 ∨ f.Awaits b

theorem valid_bounds {r : MemoryRow} (h : r.record.validate .local limits = .ok ()) :
    0 < r.id ∧ r.version < 2 ^ 63 := by
  have hnot := refuseIf_ok h
  simp only [not_or] at hnot
  exact ⟨not_le.mp hnot.1, not_le.mp hnot.2.2.1⟩

theorem awaits_next {record : MemoryRecord} {rest : List MemoryRecord} {count : Nat} {b : MemoryRow}
    (h : (∃ e ∈ rest, e.key.id = b.id ∧ e.key.version = b.version) ∨ lastId record rest < b.id) :
    (Finalizing.next record.key.id rest count).Awaits b := by
  cases rest with
  | nil =>
    rcases h with ⟨e, he, -⟩ | h
    · cases he
    · exact .inl h
  | cons e rest =>
    have hlast : lastId record (e :: rest) = lastId e rest := by
      unfold lastId
      rw [List.getLast_cons (List.cons_ne_nil _ _)]
    rw [hlast] at h
    exact h

theorem FinalizeStep.left {t : Int} (ht : now ≤ t) (hf : f.Sound trace db) (hleft : Left t trace f db)
    (h : FinalizeStep limits trace now db f f' db' key) : Left t trace f' db' := by
  intro b hb hvisible hpends
  cases h with
  | finished result => exact hleft b hb hvisible hpends
  | failed e _ _ => exact .inr (.inr trivial)
  | ended hpage =>
    have hmem := (mem_unexpired.mp (hpage.rows ▸ hb)).1
    refine (hleft b hmem hvisible hpends).imp id (Or.imp id fun hawaits => ?_)
    have hpos := (valid_bounds (hpage.valid b hb)).1
    rcases hpage.rest b hb hvisible hpends (hawaits.resolve_right (not_le.mpr hpos)) with hin |
      ⟨hne, -⟩
    · cases hin
    · exact hne rfl
  | @paged after count db' record rest hpage =>
    have hmem := (mem_unexpired.mp (hpage.rows ▸ hb)).1
    refine (hleft b hmem hvisible hpends).imp id (Or.imp id fun hawaits => ?_)
    have hpos := (valid_bounds (hpage.valid b hb)).1
    rcases hpage.rest b hb hvisible hpends (hawaits.resolve_right (not_le.mpr hpos)) with hin |
      ⟨-, hlt⟩
    · exact .inl ⟨b.record, hin, rfl, rfl⟩
    · exact .inr (hlt _ (List.getLast_mem _))
  | @settled record rest count db' old new hold hid hversion hold' hnew hrows =>
    rw [hrows] at hb
    obtain ⟨r, hr, hrb⟩ := List.mem_map.mp hb
    by_cases hro : r.id = old.id
    · rw [if_pos hro] at hrb
      subst hrb
      rw [hnew.metadata] at hpends
      exact absurd hpends (not_pends_finalized (isLesson_of_isPending hold'.2))
    · rw [if_neg hro] at hrb
      subst hrb
      refine (hleft r (mem_unexpired.mp hr).1 hvisible hpends).imp id (Or.imp id fun hawaits => ?_)
      refine awaits_next (hawaits.imp (fun ⟨e, he, hkey⟩ => ⟨e, ?_, hkey⟩) id)
      refine (List.mem_cons.mp he).resolve_left fun heq => hro ?_
      rw [← hkey.1, heq, hid]
  | @stale record rest count db' hrows hgone =>
    have hmem : b ∈ db.rows := hrows ▸ hb
    rcases hleft b hmem hvisible hpends with h | h | (⟨e, he, hkey⟩ | hlt)
    · exact .inl h
    · exact .inr (.inl h)
    · rcases List.mem_cons.mp he with rfl | he
      · by_cases hexpired : expired now b = true
        · exact .inl (expired_le hexpired ht)
        · refine .inr (.inl (not_lt.mp fun hroom => hgone b hmem
            ⟨hkey.1.symm, hkey.2.symm, ?_, hroom⟩))
          exact Bool.eq_false_iff.mpr hexpired
      · exact .inr (.inr (awaits_next (.inl ⟨e, he, hkey⟩)))
    · exact .inr (.inr (awaits_next (.inr hlt)))

def Lessons.Alone (limits : MemoryLimits) (i : Nat) (s : Lessons) : List Move → Prop
  | [] => True
  | m :: moves => (m.client = i ∨ (s.move limits m).db.rows ⊆ s.db.rows) ∧
      (s.move limits m).Alone limits i moves

theorem run_left {t : Int} (hs : s.Sound) (halone : s.Alone limits i moves)
    (ht : ∀ m ∈ moves, m.now ≤ t) (h : s.clients[i]? = some (.finalization trace f))
    (hleft : Left t trace f s.db) : ∃ f', (s.run limits moves).clients[i]? =
      some (.finalization trace f') ∧ Left t trace f' (s.run limits moves).db := by
  induction moves generalizing s f with
  | nil => exact ⟨f, h, hleft⟩
  | cons m moves ih =>
    obtain ⟨hm, ht⟩ := List.forall_mem_cons.mp ht
    obtain ⟨g, hg, hother, hown⟩ := move_finalization limits m h
    refine ih (move_sound limits hs m) halone.2 ht hg ?_
    by_cases hi : m.client = i
    · obtain ⟨rfl, hdb, -⟩ := hown hi
      have hsound := hs.clients _ (List.mem_of_getElem? h)
      rw [hdb]
      exact (finalize_step limits m hs.keyed hsound).left hm hsound hleft
    · rw [hother hi]
      have hsub := halone.1.resolve_left hi
      exact fun b hb => hleft b (hsub hb)

/-! ## the claim on all interleavings -/

/-- proposals and finalisations on a store that was used before, after some of their operations -/
def lessonsAfter (limits : MemoryLimits) (calls : List MemoryCall) (requests : List LessonRequest)
    (moves : List Move) : Lessons :=
  (Lessons.start (runCalls limits calls) requests).run limits moves

/-- **An operation of a finalisation drops what has expired, as every operation does, and changes
only versions that are pending for its run; it gives the version that it holds its outcome, or
fails, or the version cannot be replaced any more.  No version gets its outcome twice, a
finalisation returns how many it gave, and it makes at most two moves for each row that was there
and each client.  Where no other client writes a row, a lesson that is shown as pending afterwards
is one that has the last version.** -/
theorem lessons_finalized (limits : MemoryLimits) (calls : List MemoryCall)
    (requests : List LessonRequest) (moves : List Move) :
    (∀ (m : Move) (trace : TraceReference) (f : Finalizing),
      (lessonsAfter limits calls requests moves).clients[m.client]? = some (.finalization trace f) →
      Settles trace m.now (lessonsAfter limits calls requests moves).db
        ((lessonsAfter limits calls requests moves).move limits m).db ∧
      ∀ record rest count, f = .settling record rest count →
        (lessonsAfter limits calls requests moves).outcome limits m = some record.key ∨
        (∃ e, ((lessonsAfter limits calls requests moves).move limits m).clients[m.client]? =
          some (.finalization trace (.done (.error e)))) ∨
        ∀ r ∈ (lessonsAfter limits calls requests moves).db.rows,
          ¬ Replaceable m.now record.key r) ∧
    (((Lessons.start (runCalls limits calls) requests).outcomes limits moves).map Prod.snd).Nodup ∧
    (∀ (i : Nat) (trace : TraceReference) (f : Finalizing),
      (lessonsAfter limits calls requests moves).clients[i]? = some (.finalization trace f) →
      (∀ n, f = .done (.ok n) → n = (((Lessons.start (runCalls limits calls) requests).outcomes
        limits
        moves).filter fun e => e.1 = i).length) ∧
      (f.isDone = false → moves.countP (fun m => m.client = i) <
        2 * ((runCalls limits calls).rows.length + requests.length))) ∧
    ∀ (i : Nat) (trace : TraceReference) (more : List Move) (n : Nat),
      (lessonsAfter limits calls requests moves).clients[i]? = some
        (.finalization trace (.page 0 0)) →
      (lessonsAfter limits calls requests moves).Alone limits i more →
      (lessonsAfter limits calls requests (moves ++ more)).clients[i]? =
        some (.finalization trace (.done (.ok n))) →
      ∀ env now records db', (∀ m ∈ more, m.now ≤ now) →
        list limits env now (lessonsAfter limits calls requests (moves ++ more)).db =
          (.ok records, db') →
        ∀ r ∈ records, Pends trace r.metadata → r.key.version + 1 = 2 ^ 63 := by
  have hstart := start_sound (runCalls_keyed limits calls) requests
  have hs : (lessonsAfter limits calls requests moves).Sound := run_sound hstart moves
  refine ⟨fun m trace f h => ⟨?_, ?_⟩, outcomes_nodup hstart moves, fun i trace f h => ⟨?_, ?_⟩, ?_⟩
  · obtain ⟨f', -, -, hown⟩ := move_finalization limits m h
    obtain ⟨-, hdb, -⟩ := hown rfl
    rw [hdb]
    exact (finalize_step limits m hs.keyed (hs.clients _ (List.mem_of_getElem? h))).settles hs.keyed
  · rintro record rest count rfl
    obtain ⟨f', hf', -, hown⟩ := move_finalization limits m h
    obtain ⟨rfl, -, hkey⟩ := hown rfl
    have hsound := hs.clients _ (List.mem_of_getElem? h)
    have hstep := finalize_step (f := .settling record rest count) limits m hs.keyed hsound
    rw [← hkey] at hstep
    generalize (finalizeLessons limits m.env m.now trace
      (lessonsAfter limits calls requests moves).db
      (.settling record rest count)).1 = g, (finalizeLessons limits m.env m.now trace
      (lessonsAfter limits calls requests moves).db (.settling record rest count)).2 = db',
      (lessonsAfter limits calls requests moves).outcome limits m = key at hstep hf' ⊢
    cases hstep with
    | failed e _ _ => exact .inr (.inl ⟨e, hf'⟩)
    | settled _ _ _ _ _ _ => exact .inl rfl
    | stale _ hgone => exact .inr (.inr hgone)
  · rintro n rfl
    obtain ⟨k, hk, hn⟩ := run_counted hstart (start_client h) h rfl
    cases hk
    rw [hn, Nat.zero_add]
  · intro hdone
    have hbound := (run_nearer hstart (start_client h) h hdone).1
    have hweight := start_weight (start_client h)
    have hrows := ahead_le_rows 0 (runCalls limits calls)
    have hrank : 0 < f.rank (lessonsAfter limits calls requests moves).db := by
      cases f with
      | done result => cases hdone
      | _ => exact Nat.succ_pos _
    have hbound : moves.countP (fun m => m.client = i) +
        f.rank (lessonsAfter limits calls requests moves).db ≤ 2 * ahead 0
          (runCalls limits calls) + 1 +
          (Lessons.start (runCalls limits calls) requests).weight := hbound
    omega
  · intro i trace more n h halone hdone env now records db' hnow hlist r hr hpends
    have hrun : lessonsAfter limits calls requests (moves ++ more) =
        (lessonsAfter limits calls requests moves).run limits more := List.foldl_append
    have hleft : Left now trace (.page 0 0) (lessonsAfter limits calls requests moves).db :=
      fun b _ _ _ => .inr (.inr (lt_or_ge 0 b.id))
    obtain ⟨f', hf', hleft⟩ := run_left hs halone hnow h hleft
    rw [hrun] at hdone hlist
    cases hf'.symm.trans hdone
    obtain ⟨hrows, -, hvalid, -, hmem⟩ := list_ok (run_sound hs more).keyed.ids hlist
    obtain ⟨b, hb, hvisible, rfl⟩ := (hmem r).mp hr
    have hunexpired := mem_unexpired.mp (hrows ▸ hb)
    rcases hleft b hunexpired.1 hvisible hpends with hexpired | hversion | hawaits
    · rw [hunexpired.2] at hexpired
      cases hexpired
    · exact Nat.le_antisymm (Nat.succ_le_of_lt (valid_bounds (hvalid b hb)).2) hversion
    · exact hawaits.elim

end

section
variable [Sha256] [MemoryText] {limits : MemoryLimits} {env : MemoryEnv} {now n : Int} {r : MemoryRow}

theorem list_single (hopen : openStore ⟨[r], n⟩ = .ok ⟨[r], n⟩) (hcommit : env.commit = .ok ())
    (hlive : expired now r = false) (hvalid : r.record.validate .local limits = .ok ())
    (hvisible : visible none r = true) : list limits env now ⟨[r], n⟩ = (.ok [r.record], ⟨[r], n⟩) := by
  have hload : validateLoaded limits r = .ok r := by rw [validateLoaded, hvalid, ok_bind]
  have hloaded : loadAll limits ⟨[r], n⟩ = .ok [r] := by
    show ([r].mergeSort _).mapM (validateLoaded limits) = _
    rw [List.mergeSort_singleton, List.mapM_cons, hload]
    rfl
  have hpruned : pruneExpired now ⟨[r], n⟩ = ⟨[r], n⟩ := by simp [pruneExpired, hlive]
  rw [list, operate, hopen]
  simp only [transaction, hpruned, hloaded, ok_bind, hcommit, List.filter_cons, hvisible, if_true, List.filter_nil,
    List.map_cons, List.map_nil]

theorem list_single_expired (hopen : openStore ⟨[r], n⟩ = .ok ⟨[r], n⟩) (hcommit : env.commit = .ok ())
    (hexpired : expired now r = true) : list limits env now ⟨[r], n⟩ = (.ok [], ⟨[], n⟩) := by
  have hloaded : loadAll limits ⟨[], n⟩ = .ok [] := by
    rw [loadAll, List.mergeSort_nil]
    rfl
  have hpruned : pruneExpired now ⟨[r], n⟩ = ⟨[], n⟩ := by simp [pruneExpired, hexpired]
  rw [list, operate, hopen]
  simp only [transaction, hpruned, hloaded, ok_bind, hcommit, List.filter_nil, List.map_nil]

theorem put_last {content : String} {metadata : MemoryMetadata} {key : MemoryKey} {owner : String}
    (hopen : openStore ⟨[r], n⟩ = .ok ⟨[r], n⟩) (hlive : expired now r = false)
    (hlocal : key.nameSpace = none) (hid : r.id = key.id) (hversion : r.version = key.version)
    (hlast : 2 ^ 63 ≤ r.version + 1) (hcontent : r.content = content)
    (hauthored : validateAuthoredContent limits content metadata = .ok ())
    (hvalid : r.record.validate .local limits = .ok ()) (howner : r.metadata.ownershipId = some owner)
    (hmetadata : { metadata with ownershipId := some owner }.validate = .ok ())
    (hcapacity : strLen content ≤ limits.totalContentBytes) :
    put limits env content metadata (some key) now ⟨[r], n⟩ = (.error .conflict, ⟨[r], n⟩) := by
  have hload : validateLoaded limits r = .ok r := by rw [validateLoaded, hvalid, ok_bind]
  have hpruned : pruneExpired now ⟨[r], n⟩ = ⟨[r], n⟩ := by simp [pruneExpired, hlive]
  have hfind : find key.id ⟨[r], n⟩ = some r := by simp [find, hid]
  have hfree : ∀ identity, identityExists identity (some key.id) ⟨[r], n⟩ = false := by simp [identityExists, hid]
  have hbytes : totalBytes [r] = strLen content := by simp [totalBytes, hcontent]
  have hfits : checkContentCapacity limits (totalBytes [r]) (strLen r.content) (strLen content) = .ok () := by
    rw [hbytes, hcontent]
    exact refuseIf_of_not _ (by omega)
  have hreplace : ∀ identity, replace limits content identity key now ⟨[r], n⟩ = .error .conflict := by
    intro identity
    rw [replace]
    simp only [hfind]
    rw [refuseIf_of_not _ (not_not.mpr hversion), ok_bind, refuseIf_of_not _ (by simp [hfree]), ok_bind, hfits, ok_bind,
      refuseIf, if_pos hlast]
    rfl
  have hfor : ownerFor limits env ⟨[r], n⟩ (some key) = .ok owner := by
    rw [ownerFor, loadOne]
    simp only [hfind]
    rw [hload]
    simp only [Except.map, ok_bind, Option.bind_some, howner, Option.getD_some]
  have hbody : putBody limits env content metadata (some key) now ⟨[r], n⟩ = .error .conflict := by
    rw [putBody, hpruned, hfor, ok_bind]
    simp only [hmetadata, ok_bind, hreplace]
    rfl
  rw [put, if_neg (by simp [hlocal]), putMetadataLocal, hauthored]
  simp only [operate, hopen]
  exact transaction_error _ hbody

end

namespace MemorySample

variable (identity : String)

def runA : TraceReference := ⟨"session", "a", "task"⟩
def runB : TraceReference := ⟨"session", "b", "task"⟩

def lesson (trace : TraceReference) : MemoryMetadata :=
  let evidence := SourceEvidence.artifact (String.ofList (List.replicate 64 'a')) "log"
  { MemoryMetadata.default with
    scope := .global
    kind := .lessonProposal evidence .pending
    origin := .model
    evidence := [evidence]
    producingTraces := [trace]
    pendingRun := some trace }

/-- the lesson, as an archive brings it with the last version -/
def lastLesson : MemoryRecord :=
  ⟨{ lesson runA with ownershipId := some (ownership 3) }, ⟨4, 2 ^ 63 - 1, none⟩, "test it", 0, 0,
    none,
    0, none, 0, none⟩

def moveAt (now : Int) : Move := ⟨0, fun n => BitVec.ofNat 128 n, none, now⟩

/-- what a finalisation that is over has returned -/
def returned : LessonClient → Option Nat
  | .finalization _ (.done (.ok n)) => some n
  | _ => none

/-- the row of the lesson of the other run -/
def pendingRow (identity : String) : MemoryRow where
  id := 1
  content := "test it"
  normalizedIdentity := identity
  createdAtMs := 0
  updatedAtMs := 0
  lastScannedAtMs := none
  scanCount := 0
  lastUsedAtMs := none
  useCount := 0
  probationUntilMs := some MemoryLimits.production.probationDurationMs
  version := 1
  metadata := { lesson runB with ownershipId := some (ownership (env.draws 0)) }

/-- the row of the lesson that an archive has brought -/
def lastRow (identity : String) : MemoryRow where
  id := 1
  content := "test it"
  normalizedIdentity := identity
  createdAtMs := 0
  updatedAtMs := 0
  lastScannedAtMs := none
  scanCount := 0
  lastUsedAtMs := none
  useCount := 0
  probationUntilMs := none
  version := 2 ^ 63 - 1
  metadata := { arriving lastLesson with ownershipId := some (ownership (env.draws 0)) }

def unnamed (r : MemoryRow) : MemoryRow := { r with normalizedIdentity := "" }

theorem stored {db : MemoryDb} {row : String → MemoryRow} (hrow : ∀ r, unnamed r = row "" → r = row r.normalizedIdentity)
    (h : db.rows.map unnamed = [row ""] ∧ db.nextId = 2) : ∃ identity, db = ⟨[row identity], 2⟩ := by
  obtain ⟨rows, n⟩ := db
  obtain ⟨hrows, rfl⟩ := h
  obtain ⟨r, hr, hsame⟩ := List.map_eq_singleton_iff.mp hrows
  exact ⟨r.normalizedIdentity, congrArg (MemoryDb.mk · 2) (hr.trans (congrArg ([·]) (hrow r hsame)))⟩

theorem lessons_stored :
    (∃ identity, runCalls MemoryLimits.production [.put env "test it" (lesson runB) none 0] =
      ⟨[pendingRow identity], 2⟩) ∧
    ∃ identity, runCalls MemoryLimits.production [.importRecords env [lastLesson] 0] = ⟨[lastRow identity], 2⟩ := by
  constructor
  · refine stored (fun r h => ?_) (by decide +kernel)
    cases r
    cases h
    rfl
  · refine stored (fun r h => ?_) (by decide +kernel)
    cases r
    cases h
    rfl

theorem lastRow_visible : visible none (lastRow identity) = true := rfl

theorem lastRow_matches : LessonQuery.matches (.pending runA) (lastRow identity).record = true := by
  change LessonQuery.matches (.pending runA) (lastRow "").record = true
  decide

theorem move_single (limits : MemoryLimits) (db : MemoryDb) (trace : TraceReference) (f : Finalizing) (now : Int) :
    Lessons.move limits ⟨db, [.finalization trace f]⟩ (moveAt now) =
      ⟨(finalizeLessons limits (moveAt now).env now trace db f).2,
        [.finalization trace (finalizeLessons limits (moveAt now).env now trace db f).1]⟩ := rfl

theorem lastRow_valid :
    (lastRow identity).record.validate .local MemoryLimits.production = .ok () ∧
      validateAuthoredContent MemoryLimits.production "test it" (finalized (lastRow identity).metadata) = .ok () ∧
      { finalized (lastRow identity).metadata with ownershipId := some (ownership (env.draws 0)) }.validate = .ok () := by
  change (lastRow "").record.validate .local MemoryLimits.production = .ok () ∧
    validateAuthoredContent MemoryLimits.production "test it" (finalized (lastRow "").metadata) = .ok () ∧
    { finalized (lastRow "").metadata with ownershipId := some (ownership (env.draws 0)) }.validate = .ok ()
  have hvalid : (finalized (lastRow "").metadata).validate = .ok () := by decide +kernel
  refine ⟨?_, ?_, hvalid⟩
  · decide +kernel
  · rw [validateAuthoredContent, hvalid]
    rfl

end MemorySample

open MemorySample

/-- a finalisation drops a lesson of another run whose probation is over, and it leaves its own
lesson pending when no version comes after the lesson's -/
theorem lessons_finalized_exceptions :
    ((runCalls MemoryLimits.production [.put env "test it" (lesson runB) none 0]).rows.map fun r =>
      r.metadata.pendingRun) = [some runB] ∧
    (lessonsAfter MemoryLimits.production [.put env "test it" (lesson runB) none 0] [.finalize runA]
      [moveAt MemoryLimits.production.probationDurationMs]).db.rows = [] ∧
    ((lessonsAfter MemoryLimits.production [.importRecords env [lastLesson] 0] [.finalize runA]
      [moveAt 1, moveAt 1, moveAt 1]).clients.map returned) = [some 0] ∧
    ((list MemoryLimits.production env 1 (lessonsAfter MemoryLimits.production
      [.importRecords env [lastLesson] 0] [.finalize runA] [moveAt 1, moveAt 1,
        moveAt 1]).db).1.toOption.map
        fun records => records.map fun r => r.metadata.pendingRun) = some [some runA] := by
  obtain ⟨⟨i, hpending⟩, j, hlast⟩ := lessons_stored
  obtain ⟨hvalid, hauthored, howned⟩ := lastRow_valid j
  have hopen : ∀ row : MemoryRow, row.id = 1 → openStore ⟨[row], 2⟩ = .ok ⟨[row], 2⟩ := by
    rintro ⟨id, _, _, _, _, _, _, _, _, _, _, _⟩ rfl
    rfl
  have hdropped : list MemoryLimits.production (moveAt MemoryLimits.production.probationDurationMs).env
      MemoryLimits.production.probationDurationMs ⟨[pendingRow i], 2⟩ = (.ok [], ⟨[], 2⟩) :=
    list_single_expired (hopen _ rfl) rfl rfl
  have hlisted : ∀ e : MemoryEnv, e.commit = .ok () →
      list MemoryLimits.production e 1 ⟨[lastRow j], 2⟩ = (.ok [(lastRow j).record], ⟨[lastRow j], 2⟩) := fun e he =>
    list_single (hopen _ rfl) he rfl hvalid (lastRow_visible j)
  have hput : finalizeRecord MemoryLimits.production (moveAt 1).env 1 (lastRow j).record ⟨[lastRow j], 2⟩ =
      (.error .conflict, ⟨[lastRow j], 2⟩) := by
    have hkey : (lastRow j).record.key = ⟨1, 2 ^ 63 - 1, none⟩ := rfl
    have hcontent : (lastRow j).record.content = "test it" := rfl
    have hmetadata : (lastRow j).record.metadata = (lastRow j).metadata := rfl
    rw [finalizeRecord, hkey, hcontent, hmetadata]
    have hnext : 2 ^ 63 ≤ (lastRow j).version + 1 := by
      change 2 ^ 63 ≤ 2 ^ 63 - 1 + 1
      decide
    refine put_last (hopen _ rfl) rfl rfl rfl rfl hnext rfl hauthored hvalid rfl howned ?_
    decide
  have hpage : ∀ after, after < 1 →
      lessonPage MemoryLimits.production (moveAt 1).env (.pending runA) after 1 ⟨[lastRow j], 2⟩ =
        (.ok [(lastRow j).record], ⟨[lastRow j], 2⟩) := by
    intro after hafter
    have hkeep : (decide (after < (lastRow j).record.key.id) &&
        LessonQuery.matches (.pending runA) (lastRow j).record) = true := by
      rw [lastRow_matches, Bool.and_true]
      exact decide_eq_true hafter
    rw [lessonPage, hlisted _ rfl]
    simp only [List.filter_cons, hkeep, if_true]
    rfl
  have hend : lessonPage MemoryLimits.production (moveAt 1).env (.pending runA) 1 1 ⟨[lastRow j], 2⟩ =
      (.ok [], ⟨[lastRow j], 2⟩) := by
    rw [lessonPage, hlisted _ rfl]
    rfl
  have hfirst : finalizeLessons MemoryLimits.production (moveAt 1).env 1 runA ⟨[lastRow j], 2⟩ (.page 0 0) =
      (.settling (lastRow j).record [] 0, ⟨[lastRow j], 2⟩) := by
    have hchecked : validatePage (.pending runA) 0 [(lastRow j).record] = .ok () := by
      have hsize : ¬maxExportPageRecords < [(lastRow j).record].length := by
        change ¬maxExportPageRecords < 1
        decide
      have hkeep : ¬((lastRow j).record.key.id ≤ 0 ∨ LessonQuery.matches (.pending runA) (lastRow j).record = false) := by
        rw [lastRow_matches]
        change ¬((1 : Int) ≤ 0 ∨ true = false)
        decide
      rw [validatePage, refuseIf_of_not _ hsize, ok_bind, List.foldlM_cons, validateRecord, refuseIf_of_not _ hkeep]
      rfl
    rw [finalizeLessons, hpage 0 (by decide)]
    simp only [hchecked]
  have hsecond : finalizeLessons MemoryLimits.production (moveAt 1).env 1 runA ⟨[lastRow j], 2⟩
      (.settling (lastRow j).record [] 0) = (.page 1 0, ⟨[lastRow j], 2⟩) := by
    rw [finalizeLessons, hput]
    rfl
  have hthird : finalizeLessons MemoryLimits.production (moveAt 1).env 1 runA ⟨[lastRow j], 2⟩ (.page 1 0) =
      (.done (.ok 0), ⟨[lastRow j], 2⟩) := by
    rw [finalizeLessons, hend]
    rfl
  have hrun : lessonsAfter MemoryLimits.production [.importRecords env [lastLesson] 0] [.finalize runA]
      [moveAt 1, moveAt 1, moveAt 1] = ⟨⟨[lastRow j], 2⟩, [.finalization runA (.done (.ok 0))]⟩ := by
    rw [lessonsAfter, hlast]
    simp only [Lessons.start, Lessons.run, List.map_cons, List.map_nil, LessonRequest.client, List.foldl_cons,
      List.foldl_nil, move_single, hfirst, hsecond, hthird]
  refine ⟨?_, ?_, ?_, ?_⟩
  · rw [hpending]
    rfl
  · rw [lessonsAfter, hpending]
    simp only [Lessons.start, Lessons.run, List.map_cons, List.map_nil, LessonRequest.client, List.foldl_cons,
      List.foldl_nil, move_single, finalizeLessons, lessonPage, hdropped]
    rfl
  · rw [hrun]
    rfl
  · rw [hrun, hlisted env rfl]
    rfl

end Memory

end Orvek
