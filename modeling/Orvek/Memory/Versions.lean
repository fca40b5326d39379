import Orvek.Memory.Operations

/-!
# Keys of memories

A key is an identifier with a version.  It is used to replace or to delete what was read under it, so
it must not come to denote something else.

* `Follows`                      how the rows of a later table go back to those of an earlier one;
* `put_fresh`                    a new memory has an identifier that no row has had;
* `put_stale`, `delete_stale`    a stale key changes no row;
* `memory_keys_denote_once`      keys along every sequence of operations.
-/

set_option linter.unusedSectionVars false

namespace Orvek
open Checks Json
namespace Memory

section
variable [Sha256] [MemoryText] {limits : MemoryLimits} {db db' db'' : MemoryDb}
variable {env : MemoryEnv} {key : MemoryKey}

/-! ## where rows come from -/

/-- what a key of the first row denotes, it still denotes in the second, or the version has grown -/
def Continues (a b : MemoryRow) : Prop :=
  a.id = b.id ∧ (a.version < b.version ∨
    a.version = b.version ∧ a.content = b.content ∧ a.metadata = b.metadata)

theorem Continues.refl (a : MemoryRow) : Continues a a := ⟨rfl, .inr ⟨rfl, rfl, rfl⟩⟩

theorem Continues.trans {a b c : MemoryRow} (hab : Continues a b) (hbc : Continues b c) :
    Continues a c := by
  obtain ⟨hid, hab⟩ := hab
  obtain ⟨hid', hbc⟩ := hbc
  refine ⟨hid.trans hid', ?_⟩
  rcases hab with hab | ⟨hv, hc, hm⟩ <;> rcases hbc with hbc | ⟨hv', hc', hm'⟩
  · exact .inl (hab.trans hbc)
  · exact .inl (hv' ▸ hab)
  · exact .inl (hv ▸ hbc)
  · exact .inr ⟨hv.trans hv', hc.trans hc', hm.trans hm'⟩

/-- every row of the later table continues one of the earlier table, or its identifier is new -/
structure Follows (db db' : MemoryDb) : Prop where
  next : db.nextId ≤ db'.nextId
  rows : ∀ b ∈ db'.rows, db.nextId ≤ b.id ∨ ∃ a ∈ db.rows, Continues a b

theorem Follows.refl (db : MemoryDb) : Follows db db :=
  ⟨le_rfl, fun b hb => .inr ⟨b, hb, Continues.refl b⟩⟩

theorem Follows.trans (h : Follows db db') (h' : Follows db' db'') : Follows db db'' := by
  refine ⟨h.next.trans h'.next, fun c hc => ?_⟩
  rcases h'.rows c hc with hnew | ⟨b, hb, hbc⟩
  · exact .inl (h.next.trans hnew)
  · rcases h.rows b hb with hnew | ⟨a, ha, hab⟩
    · exact .inl (hbc.1 ▸ hnew)
    · exact .inr ⟨a, ha, hab.trans hbc⟩

theorem Change.follows (h : Change limits db db') : Follows db db' := by
  cases h with
  | drop hrows hnext hroom =>
    exact ⟨hnext, fun b hb => .inr ⟨b, hrows.subset hb, Continues.refl b⟩⟩
  | add hid hnext =>
    refine ⟨hid.trans hnext.le, fun b hb => ?_⟩
    rcases List.mem_append.mp hb with hb | hb
    · exact .inr ⟨b, hb, Continues.refl b⟩
    · rw [List.mem_singleton.mp hb]
      exact .inl hid
  | alter hold hid hrow hfree hbytes hversion =>
    refine ⟨le_rfl, fun b hb => .inr ?_⟩
    rcases mem_modify hb with rfl | ⟨hb, -⟩
    · refine ⟨_, hold, hid.symm, ?_⟩
      rcases hversion with ⟨hv, hc, hm⟩ | hv
      · exact .inr ⟨hv.symm, hc.symm, hm.symm⟩
      · exact .inl hv
    · exact ⟨b, hb, Continues.refl b⟩

theorem Changes.follows (h : Changes limits db db') : Follows db db' := by
  induction h with
  | refl => exact Follows.refl db
  | tail _ hchange ih => exact ih.trans hchange.follows

theorem Follows.continues (h : Follows db db') (hkept : Kept limits db) {a b : MemoryRow}
    (ha : a ∈ db.rows) (hb : b ∈ db'.rows) (hid : a.id = b.id) : Continues a b := by
  rcases h.rows b hb with hnew | ⟨a', ha', hab⟩
  · exact absurd (hid ▸ hkept.next a ha) hnew.not_gt
  · rw [row_unique hkept.ids ha ha' (hid.trans hab.1.symm)]
    exact hab

theorem Follows.gone (h : Follows db db') {id : Int} (hid : id < db.nextId)
    (hgone : ∀ r ∈ db.rows, r.id ≠ id) : ∀ r ∈ db'.rows, r.id ≠ id := by
  intro b hb heq
  rcases h.rows b hb with hnew | ⟨a, ha, hab⟩
  · omega
  · exact hgone a ha (hab.1.trans heq)

/-! ## new memories -/

/-- **A new memory has an identifier that was never given away.** -/
theorem put_fresh {content : String} {metadata : MemoryMetadata} {now : Int} {memory : MemoryRecord}
    (hput : put limits env content metadata none now db = (.ok memory, db')) :
    db.nextId ≤ memory.key.id := by
  have hput : putMetadataLocal limits env content metadata none now db = (.ok memory, db') := hput
  unfold putMetadataLocal at hput
  split at hput
  · cases hput
  · unfold operate at hput
    cases hopen : openStore db with
    | error e =>
      rw [hopen] at hput
      cases hput
    | ok opened =>
      rw [hopen] at hput
      obtain ⟨n, -, hdb⟩ := bind_ok hopen
      cases hdb
      rcases transaction_cases env.commit
          (putBody limits env content metadata none now) ⟨db.rows, max db.nextId n⟩ with
        ⟨a, t, ht, heq⟩ | ⟨e, heq⟩
      · cases heq.symm.trans hput
        obtain ⟨owner, -, ht⟩ := bind_ok ht
        obtain ⟨-, -, ht⟩ := bind_ok ht
        obtain ⟨⟨row, written⟩, hwrite, ht⟩ := bind_ok ht
        obtain ⟨loaded, hload, ht⟩ := bind_ok ht
        cases ht
        obtain ⟨m, -, hid, -⟩ := insert_changes (fun r => { r with
          metadata := { metadata with ownershipId := some owner } }) (fun _ => rfl) hwrite rfl rfl rfl
          hload
        exact (le_max_left _ _).trans hid
      · cases heq.symm.trans hput

/-! ## stale keys -/

def Stale (key : MemoryKey) (db : MemoryDb) : Prop :=
  ∀ r ∈ db.rows, r.id = key.id → r.version ≠ key.version

theorem openStore_total (h : Kept limits db) : ∃ nextId, openStore db = .ok ⟨db.rows, nextId⟩ :=
  openStore_room fun r hr => (Int.add_one_le_of_lt (h.next r hr)).trans h.room

theorem operate_error {α : Type} {e : MemoryError} {body : MemoryDb → Except MemoryError (α × MemoryDb)}
    {nextId : Int} (hopen : openStore db = .ok ⟨db.rows, nextId⟩)
    (hbody : body ⟨db.rows, nextId⟩ = .error e) : operate env db body = (.error e, ⟨db.rows, nextId⟩) := by
  unfold operate
  rw [hopen]
  exact transaction_error env.commit hbody

theorem validOwnership_of_valid {m : MemoryMetadata} (h : m.validate = .ok ()) {owner : String}
    (howner : m.ownershipId = some owner) : validOwnership owner = true := by
  obtain ⟨hfirst, -⟩ := refuseIf_bind h
  simp only [not_or] at hfirst
  obtain ⟨-, -, -, -, -, -, hvalid, -⟩ := hfirst
  rw [howner] at hvalid
  simpa using hvalid

theorem ownerFor_total (h : Kept limits db) (env : MemoryEnv) (key : MemoryKey) :
    ∃ owner, ownerFor limits env db (some key) = .ok owner ∧ validOwnership owner = true := by
  have hload : loadOne limits key.id db = .ok (find key.id db) := by
    unfold loadOne
    cases hfind : find key.id db with
    | none => rfl
    | some r =>
      have hloaded : validateLoaded limits r = .ok r := by
        rw [validateLoaded, (h.rows r (find_some hfind).1).valid]
        rfl
      simp only [hloaded]
      rfl
  refine ⟨_, congrArg (· >>= _) hload, ?_⟩
  cases howner : (find key.id db).bind fun r => r.metadata.ownershipId with
  | none => exact validOwnership_ownership _
  | some owner =>
    obtain ⟨r, hfind, hr⟩ := Option.bind_eq_some_iff.mp howner
    have hold := refuseIf_ok (h.rows r (find_some hfind).1).valid
    simp only [not_or] at hold
    exact validOwnership_of_valid (not_not.mp hold.2.2.2.2.2.2.2.2.2.2.2.2.2) hr

theorem replace_stale (limits : MemoryLimits) (content : String) (now : Int) (hstale : Stale key db) :
    ∃ e, (∀ identity, replace limits content identity key now db = .error e) ∧
      (e = .conflict ∨ e = .notFound) := by
  unfold replace
  cases hfind : find key.id db with
  | none => exact ⟨_, fun _ => rfl, .inr rfl⟩
  | some current =>
    obtain ⟨hmem, hid⟩ := find_some hfind
    refine ⟨.conflict, fun identity => ?_, .inl rfl⟩
    simp only [refuseIf, if_pos (hstale current hmem hid), error_bind]

theorem putBody_stale {content : String} {metadata : MemoryMetadata} {now : Int} (h : Kept limits db)
    (hstale : Stale key db) (hmetadata : metadata.validate = .ok ()) :
    ∃ e, putBody limits env content metadata (some key) now db = .error e ∧
      (e = .conflict ∨ e = .notFound) := by
  obtain ⟨owner, howner, hvalid⟩ := ownerFor_total (h.changes (pruneExpired_changes h now)) env key
  have hmetadata := metadata.validate_withOwnership hmetadata hvalid
  have hpruned : Stale key (pruneExpired now db) := fun r hr => hstale r (List.mem_of_mem_filter hr)
  obtain ⟨e, hreplace, he⟩ := replace_stale limits content now hpruned
  refine ⟨e, ?_, he⟩
  simp only [putBody, howner, ok_bind, hmetadata, hreplace, error_bind]

/-- why a replacement under a stale key fails: the namespace of the key and the authored content are
checked before the key is looked at -/
structure StaleReplacement (limits : MemoryLimits) (key : MemoryKey) (content : String)
    (metadata : MemoryMetadata) (e : MemoryError) : Prop where
  remote : key.nameSpace.isSome = true → e = .remoteReadOnly
  authored : key.nameSpace = none → ∀ e', validateAuthoredContent limits content metadata = .error e' →
    e = e'
  stale : key.nameSpace = none → validateAuthoredContent limits content metadata = .ok () →
    e = .conflict ∨ e = .notFound

/-- **A replacement under a stale key fails and changes no row.** -/
theorem put_stale (env : MemoryEnv) (content : String) (metadata : MemoryMetadata) (now : Int)
    (h : Kept limits db) (hstale : Stale key db) :
    ∃ e, (put limits env content metadata (some key) now db).1 = .error e ∧
      (put limits env content metadata (some key) now db).2.rows = db.rows ∧
      StaleReplacement limits key content metadata e := by
  unfold put
  cases hspace : key.nameSpace with
  | some n =>
    rw [if_pos (by simp [hspace])]
    have hremote : key.nameSpace ≠ none := fun hnone => nomatch hspace.symm.trans hnone
    exact ⟨_, rfl, rfl, fun _ => rfl, fun hnone => absurd hnone hremote,
      fun hnone => absurd hnone hremote⟩
  | none =>
    rw [if_neg (by simp [hspace])]
    unfold putMetadataLocal
    cases hcontent : validateAuthoredContent limits content metadata with
    | error e =>
      refine ⟨e, rfl, rfl, fun hsome => ?_, fun _ e' he' => ?_, fun _ hok => ?_⟩
      · rw [hspace] at hsome
        cases hsome
      · rw [hcontent] at he'
        exact Except.error.inj he'
      · rw [hcontent] at hok
        cases hok
    | ok u =>
      obtain ⟨nextId, hopen⟩ := openStore_total h
      have hopened := h.changes (openStore_changes h hopen)
      obtain ⟨-, -, hrest⟩ := bind_ok hcontent
      obtain ⟨_, hmetadata, -⟩ := bind_ok hrest
      obtain ⟨e, hbody, he⟩ := putBody_stale hopened hstale hmetadata
      refine ⟨e, ?_, ?_, fun hsome => ?_, fun _ e' he' => ?_, fun _ _ => he⟩
      · rw [operate_error hopen hbody]
      · rw [operate_error hopen hbody]
      · rw [hspace] at hsome
        cases hsome
      · rw [hcontent] at he'
        cases he'

/-- **A deletion under a stale key changes no row**, and it succeeds only if nothing has the
identifier. -/
theorem delete_stale (env : MemoryEnv) (h : Kept limits db) (hstale : Stale key db) :
    (delete env key db).2.rows = db.rows ∧
      (key.nameSpace.isSome = true → (delete env key db).1 = .error .remoteReadOnly) ∧
      (key.nameSpace = none → (delete env key db).1 = .error .conflict ∨
        ∀ r ∈ db.rows, r.id ≠ key.id) ∧
      ((delete env key db).1 = .ok () → ∀ r ∈ db.rows, r.id ≠ key.id) := by
  unfold delete
  cases hspace : key.nameSpace with
  | some n =>
    rw [if_pos (by simp)]
    exact ⟨rfl, fun _ => rfl, fun hnone => (nomatch hnone), fun hok => (nomatch hok)⟩
  | none =>
    rw [if_neg (by simp)]
    obtain ⟨nextId, hopen⟩ := openStore_total h
    cases hfind : find key.id db with
    | some current =>
      obtain ⟨hmem, hid⟩ := find_some hfind
      have hbody : deleteBody key ⟨db.rows, nextId⟩ = .error .conflict := by
        have hfind : find key.id ⟨db.rows, nextId⟩ = some current := hfind
        unfold deleteBody
        rw [hfind]
        simp only [refuseIf, if_pos (hstale current hmem hid), error_bind]
      rw [operate_error hopen hbody]
      exact ⟨rfl, fun hsome => (nomatch hsome), fun _ => .inl rfl, fun hok => (nomatch hok)⟩
    | none =>
      have hgone := find_none hfind
      refine ⟨?_, fun hsome => (nomatch hsome), fun _ => .inr hgone, fun _ => hgone⟩
      have hbody : deleteBody key ⟨db.rows, nextId⟩ = .ok ((), ⟨db.rows, nextId⟩) := by
        have hfind : find key.id ⟨db.rows, nextId⟩ = none := hfind
        unfold deleteBody
        rw [hfind]
      unfold operate
      rw [hopen]
      rcases transaction_cases env.commit (deleteBody key) ⟨db.rows, nextId⟩ with
        ⟨a, t, ht, heq⟩ | ⟨e, heq⟩
      · show (transaction env.commit (deleteBody key) _).2.rows = _
        rw [heq]
        cases hbody.symm.trans ht
        rfl
      · show (transaction env.commit (deleteBody key) _).2.rows = _
        rw [heq]

/-! ## runs -/

theorem runCalls_append (limits : MemoryLimits) (calls more : List MemoryCall) :
    runCalls limits (calls ++ more) = more.foldl (MemoryCall.run limits) (runCalls limits calls) :=
  List.foldl_append

theorem foldl_changes (calls : List MemoryCall) (h : Kept limits db)
    (hcalls : ∀ call ∈ calls, call.isSync = false) :
    Changes limits db (calls.foldl (MemoryCall.run limits) db) := by
  induction calls generalizing db with
  | nil => exact .refl
  | cons call calls ih =>
    obtain ⟨hcall, hcalls⟩ := List.forall_mem_cons.mp hcalls
    have hchanges := call.run_changes h hcall
    exact hchanges.trans (ih (h.changes hchanges) hcalls)

/-- **What a key denotes, it denotes for ever.**  Along every sequence of operations without a sync:
under an identifier the version never goes back, and as long as it stays, so do content and metadata;
an identifier that is gone stays gone, and no new memory gets it; a stale key changes no row, and a
replacement under it fails for a reason that is known. -/
theorem memory_keys_denote_once (limits : MemoryLimits) (first second third : List MemoryCall)
    (h : ∀ call ∈ first ++ second ++ third, call.isSync = false) :
    (∀ a ∈ (runCalls limits first).rows, ∀ b ∈ (runCalls limits (first ++ second)).rows,
      a.id = b.id → a.version ≤ b.version ∧
        (a.version = b.version → a.content = b.content ∧ a.metadata = b.metadata)) ∧
    (∀ a ∈ (runCalls limits first).rows,
      (∀ b ∈ (runCalls limits (first ++ second)).rows, b.id ≠ a.id) →
        ∀ c ∈ (runCalls limits (first ++ second ++ third)).rows, c.id ≠ a.id) ∧
    (∀ a ∈ (runCalls limits first).rows, ∀ env content metadata now memory db,
      put limits env content metadata none now (runCalls limits (first ++ second)) = (.ok memory, db) →
        memory.key.id ≠ a.id) ∧
    ∀ key, Stale key (runCalls limits first) →
      (∀ env content metadata now, ∃ e,
        (put limits env content metadata (some key) now (runCalls limits first)).1 = .error e ∧
        (put limits env content metadata (some key) now (runCalls limits first)).2.rows =
          (runCalls limits first).rows ∧ StaleReplacement limits key content metadata e) ∧
      ∀ env, (delete env key (runCalls limits first)).2.rows = (runCalls limits first).rows ∧
        (key.nameSpace.isSome = true →
          (delete env key (runCalls limits first)).1 = .error .remoteReadOnly) ∧
        (key.nameSpace = none → (delete env key (runCalls limits first)).1 = .error .conflict ∨
          ∀ r ∈ (runCalls limits first).rows, r.id ≠ key.id) ∧
        ((delete env key (runCalls limits first)).1 = .ok () →
          ∀ r ∈ (runCalls limits first).rows, r.id ≠ key.id) := by
  obtain ⟨hcalls, hthird⟩ := List.forall_mem_append.mp h
  obtain ⟨hfirst, hsecond⟩ := List.forall_mem_append.mp hcalls
  have hkept₁ : Kept limits (runCalls limits first) :=
    (Kept.empty limits).changes (foldl_changes first (Kept.empty limits) hfirst)
  have hrun₂ : Changes limits (runCalls limits first) (runCalls limits (first ++ second)) := by
    rw [runCalls_append limits first second]
    exact foldl_changes second hkept₁ hsecond
  have hkept₂ := hkept₁.changes hrun₂
  have hrun₃ : Changes limits (runCalls limits (first ++ second))
      (runCalls limits (first ++ second ++ third)) := by
    rw [runCalls_append limits (first ++ second) third]
    exact foldl_changes third hkept₂ hthird
  have hfollows := Changes.follows hrun₂
  refine ⟨?_, ?_, ?_, ?_⟩
  · intro a ha b hb hid
    rcases (hfollows.continues hkept₁ ha hb hid).2 with hlt | ⟨hv, hsame⟩
    · exact ⟨hlt.le, fun heq => absurd heq hlt.ne⟩
    · exact ⟨hv.le, fun _ => hsame⟩
  · intro a ha hgone
    exact (Changes.follows hrun₃).gone (lt_of_lt_of_le (hkept₁.next a ha) hfollows.next) hgone
  · intro a ha env content metadata now memory db hput heq
    have hfresh := put_fresh hput
    have hlt := lt_of_lt_of_le (hkept₁.next a ha) hfollows.next
    omega
  · intro key hstale
    exact ⟨fun env content metadata now => put_stale env content metadata now hkept₁ hstale,
      fun env => delete_stale env hkept₁ hstale⟩

end

open MemorySample

theorem memory_keys_denote_once_replaced :
    (∀ call ∈ [MemoryCall.put env "note" MemoryMetadata.default none 0] ++
        [.put env "remark" MemoryMetadata.default (some ⟨1, 1, none⟩) 1] ++ [],
      call.isSync = false) ∧
    (runCalls MemoryLimits.production ([.put env "note" MemoryMetadata.default none 0] ++
        [.put env "remark" MemoryMetadata.default (some ⟨1, 1, none⟩) 1])).rows.map
      (fun r => (r.id, r.version, r.content)) = [(1, 2, "remark")] ∧
    ∀ a ∈ (runCalls MemoryLimits.production [.put env "note" MemoryMetadata.default none 0]).rows,
      ∀ b ∈ (runCalls MemoryLimits.production ([.put env "note" MemoryMetadata.default none 0] ++
        [.put env "remark" MemoryMetadata.default (some ⟨1, 1, none⟩) 1])).rows,
      a.id = b.id → a.version ≤ b.version := by
  have hcalls : ∀ call ∈ [MemoryCall.put env "note" MemoryMetadata.default none 0] ++
      [.put env "remark" MemoryMetadata.default (some ⟨1, 1, none⟩) 1] ++ [],
      call.isSync = false := by
    intro call hcall
    simp only [List.append_nil, List.cons_append, List.nil_append, List.mem_cons, List.not_mem_nil,
      or_false] at hcall
    rcases hcall with rfl | rfl
    · rfl
    · rfl
  refine ⟨hcalls, by decide +kernel, fun a ha b hb hid => ?_⟩
  exact ((memory_keys_denote_once MemoryLimits.production
    [.put env "note" MemoryMetadata.default none 0]
    [.put env "remark" MemoryMetadata.default (some ⟨1, 1, none⟩) 1] [] hcalls).1 a ha b hb hid).1

/-- a replacement by nothing is refused before the key is looked at -/
theorem put_stale_empty :
    Stale ⟨1, 7, none⟩ (runCalls MemoryLimits.production
      [.put env "note" MemoryMetadata.default none 0]) ∧
    (put MemoryLimits.production env "" MemoryMetadata.default (some ⟨1, 7, none⟩) 1
      (runCalls MemoryLimits.production [.put env "note" MemoryMetadata.default none 0])).1 =
        .error .emptyContent := by
  refine ⟨?_, by decide +kernel⟩
  have hrows : ∀ r ∈ (runCalls MemoryLimits.production
      [.put env "note" MemoryMetadata.default none 0]).rows, r.version ≠ 7 := by decide +kernel
  exact fun r hr _ => hrows r hr

end Memory

end Orvek
