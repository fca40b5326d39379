import Orvek.Memory.Invariant

/-!
# The operations on the memory store

* `scan_changes`, `read_changes`    looking changes what is counted, and no version;
* `importRecords_changes`           the loaded memories stay in step with the table;
* `sync_kept`                       a snapshot is taken over, the identity of every row must not
                                    depend on the owner that the row is given;
* `MemoryCall`, `runCalls`          a sequence of operations on a new store;
* `memory_store_kept`               the invariant along such a sequence.
-/

set_option linter.unusedSectionVars false

namespace Orvek
open Checks Json
namespace Memory

section
variable [Sha256] [MemoryText] {limits : MemoryLimits} {db db' : MemoryDb}

/-! ## looking -/

section
variable {r : MemoryRow} {now : Int}

theorem RowKept.scanned (h : RowKept limits r) (hcount : ¬ 2 ^ 63 - 1 ≤ r.scanCount) (now : Int) :
    RowKept limits (scanned now r) := by
  refine ⟨?_, h.identity⟩
  have hold := refuseIf_ok h.valid
  simp only [not_or] at hold
  obtain ⟨h₁, h₂, h₃, h₄, h₅, h₆, h₇, h₈, h₉, h₁₀, h₁₁, h₁₂, h₁₃, h₁₄⟩ := hold
  refine refuseIf_of_not _ ?_
  simp only [not_or]
  refine ⟨h₁, h₂, h₃, ?_, h₅, h₆, h₇, h₈, h₉, ?_, ?_, h₁₂, h₁₃, h₁₄⟩
  · show ¬ 2 ^ 63 ≤ r.scanCount + 1
    omega
  · simp only [MemoryRecord.timesValid, MemoryRow.record, Memory.scanned, Bool.not_eq_false,
      Bool.and_eq_true, Option.all_some] at h₁₀ ⊢
    obtain ⟨⟨⟨ht₁, ht₂⟩, ht₃⟩, ht₄⟩ := h₁₀
    refine ⟨⟨⟨ht₁, decide_eq_true ?_⟩, ht₃⟩, ht₄⟩
    show r.updatedAtMs ≤ max now (max r.updatedAtMs (r.lastScannedAtMs.getD now))
    exact (le_max_left _ _).trans (le_max_right _ _)
  · show ¬ ¬ (r.scanCount + 1 = 0 ↔ some _ = none)
    simp

theorem RowKept.used (h : RowKept limits r) (hcount : ¬ 2 ^ 63 - 1 ≤ r.useCount) (now : Int) :
    RowKept limits (used now r) := by
  refine ⟨?_, h.identity⟩
  have hold := refuseIf_ok h.valid
  simp only [not_or] at hold
  obtain ⟨h₁, h₂, h₃, h₄, h₅, h₆, h₇, h₈, h₉, h₁₀, h₁₁, h₁₂, h₁₃, h₁₄⟩ := hold
  refine refuseIf_of_not _ ?_
  simp only [not_or]
  refine ⟨h₁, h₂, h₃, h₄, ?_, h₆, h₇, h₈, h₉, ?_, h₁₁, ?_, ?_, h₁₄⟩
  · show ¬ 2 ^ 63 ≤ r.useCount + 1
    omega
  · simp only [MemoryRecord.timesValid, MemoryRow.record, Memory.used, Bool.not_eq_false,
      Bool.and_eq_true, Option.all_some, Option.all_none] at h₁₀ ⊢
    obtain ⟨⟨⟨ht₁, ht₂⟩, ht₃⟩, ht₄⟩ := h₁₀
    refine ⟨⟨⟨ht₁, ht₂⟩, decide_eq_true ?_⟩, trivial⟩
    show r.updatedAtMs ≤ max (max now r.updatedAtMs) (r.lastUsedAtMs.getD (-(2 ^ 63)))
    exact (le_max_right _ _).trans (le_max_left _ _)
  · show ¬ ¬ (r.useCount + 1 = 0 ↔ some _ = none)
    simp
  · exact fun hnot => hnot.1 rfl

theorem count_changes {f : MemoryRow → MemoryRow} (h : Kept limits db) (hr : r ∈ db.rows)
    (hrow : RowKept limits (f r)) (hid : (f r).id = r.id)
    (hidentity : (f r).normalizedIdentity = r.normalizedIdentity) (hversion : (f r).version = r.version)
    (hcontent : (f r).content = r.content) (hmetadata : (f r).metadata = r.metadata) :
    Changes limits db (modify r.id f db) := by
  rw [modify_const h.ids hr]
  refine .single (.alter hr hid hrow ?_ ?_ (.inl ⟨hversion, hcontent, hmetadata⟩))
  · intro s hs hne heq
    rw [hidentity] at heq
    exact hne (congrArg MemoryRow.id (List.inj_on_of_nodup_map h.identities hs hr heq))
  · rw [hcontent]
    exact Nat.add_le_add_right h.bytes _

theorem countScan_ok {key : MemoryKey} (h : countScan now db key = .ok db') :
    ∃ r ∈ db.rows, r.id = key.id ∧ ¬ 2 ^ 63 - 1 ≤ r.scanCount ∧ db' = modify r.id (scanned now) db := by
  unfold countScan at h
  cases hfind : find key.id db with
  | none =>
    rw [hfind] at h
    cases h
  | some r =>
    rw [hfind] at h
    obtain ⟨hcount, h⟩ := refuseIf_bind h
    cases h
    obtain ⟨hr, hid⟩ := find_some hfind
    exact ⟨r, hr, hid, hcount, by rw [hid]⟩

theorem countScan_changes {key : MemoryKey} (h : Kept limits db) (hscan : countScan now db key = .ok db') :
    Changes limits db db' := by
  obtain ⟨r, hr, -, hcount, rfl⟩ := countScan_ok hscan
  exact count_changes h hr ((h.rows r hr).scanned hcount now) rfl rfl rfl rfl rfl

theorem foldlM_changes {α σ : Type} {f : σ → α → Except MemoryError σ} (table : σ → MemoryDb)
    (hstep : ∀ {s a t}, Kept limits (table s) → f s a = .ok t → Changes limits (table s) (table t))
    {l : List α} {s t : σ} (h : Kept limits (table s)) (hrun : l.foldlM f s = .ok t) :
    Changes limits (table s) (table t) := by
  refine foldlM_rel (R := fun a b => Kept limits (table a) → Changes limits (table a) (table b))
    (fun _ _ => .refl) (fun hab hbc ha => (hab ha).trans (hbc (ha.changes (hab ha)))) ?_ hrun h
  exact fun hs hkept => hstep hkept hs

theorem scan_changes (env : MemoryEnv) (query : String) (limit : Nat) (now : Int)
    (repository : Option (Option String)) (h : Kept limits db) :
    Changes limits db (scan limits env query limit now repository db).2 := by
  unfold scan
  split
  · exact .refl
  · refine operate_changes h fun {db keys db'} hkept hbody => ?_
    obtain ⟨rows, -, hbody⟩ := bind_ok hbody
    obtain ⟨counted, hcount, hbody⟩ := bind_ok hbody
    cases hbody
    have hpruned := pruneExpired_changes hkept now
    exact hpruned.trans (foldlM_changes id (fun hk hs => countScan_changes hk hs)
      (hkept.changes hpruned) hcount)

theorem readOne_changes {repository : Option (Option String)} {reference : Int × Option Nat}
    {acc acc' : List Int × List MemoryRecord × MemoryDb} (h : Kept limits acc.2.2)
    (hread : readOne limits now repository acc reference = .ok acc') :
    Changes limits acc.2.2 acc'.2.2 := by
  obtain ⟨seen, records, db⟩ := acc
  obtain ⟨loaded, hload, hread⟩ := bind_ok hread
  have hfind := loadOne_ok hload
  cases loaded with
  | none =>
    cases hread
    exact .refl
  | some r =>
    simp only at hread
    split at hread
    · cases hread
      exact .refl
    · obtain ⟨hcount, hread⟩ := refuseIf_bind hread
      cases hread
      obtain ⟨hr, hid⟩ := find_some hfind.symm
      rw [← hid]
      exact count_changes h hr ((h.rows r hr).used hcount now) rfl rfl rfl rfl rfl

theorem read_changes (env : MemoryEnv) (references : List (Int × Option Nat)) (now : Int)
    (repository : Option (Option String)) (h : Kept limits db) :
    Changes limits db (read limits env references now repository db).2 := by
  refine operate_changes h fun {db records db'} hkept hbody => ?_
  obtain ⟨acc, hrun, hbody⟩ := bind_ok hbody
  cases hbody
  have hpruned := pruneExpired_changes hkept now
  exact hpruned.trans (foldlM_changes (fun acc => acc.2.2) (fun hk hs => readOne_changes hk hs)
    (hkept.changes hpruned) hrun)

theorem list_changes (env : MemoryEnv) (now : Int) (h : Kept limits db) :
    Changes limits db (list limits env now db).2 := by
  refine operate_changes h fun {db records db'} hkept hbody => ?_
  obtain ⟨rows, -, hbody⟩ := bind_ok hbody
  cases hbody
  exact pruneExpired_changes hkept now

end

/-! ## importing -/

section
variable {env : MemoryEnv} {now : Int} {st st' : ImportState}
variable {a : MemoryRecord}

/-- the loaded memories are rows of the table -/
structure InStep (st : ImportState) : Prop where
  ids : (st.existing.map fun e => e.key.id).Nodup
  rows : ∀ e ∈ st.existing, ∃ r ∈ st.db.rows, e = r.record

/-- the row of a known memory, after its provenance has changed -/
def mergedRow (r : MemoryRow) (m : MemoryMetadata) : MemoryRow :=
  { r with version := r.version + 1, normalizedIdentity := m.identity r.content, metadata := m }

theorem validate_merged {r : MemoryRow} {m : MemoryMetadata}
    (h : r.record.validate .local limits = .ok ()) (hm : m.validate = .ok ())
    (hv : ¬ (r.version + 1 = 0 ∨ 2 ^ 63 ≤ r.version + 1)) :
    (mergedRow r m).record.validate .local limits = .ok () := by
  have hold := refuseIf_ok h
  simp only [not_or] at hold hv
  obtain ⟨h₁, h₂, h₃, h₄, h₅, h₆, h₇, h₈, h₉, h₁₀, h₁₁, h₁₂, h₁₃, h₁₄⟩ := hold
  refine refuseIf_of_not _ ?_
  simp only [not_or]
  exact ⟨h₁, hv.1, hv.2, h₄, h₅, h₆, h₇, h₈, h₉, h₁₀, h₁₁, h₁₂, h₁₃, fun hnot => hnot hm⟩

theorem mem_replace {e b : MemoryRecord} {l : List MemoryRecord} (h : e ∈ l.replace a b) :
    e = b ∨ e ∈ l := by
  induction l with
  | nil => cases h
  | cons x l ih =>
    by_cases hx : a = x
    · rw [hx, List.replace_cons_self] at h
      rcases List.mem_cons.mp h with h | h
      · exact .inl h
      · exact .inr (List.mem_cons_of_mem _ h)
    · rw [List.replace_cons, beq_false_of_ne hx] at h
      rcases List.mem_cons.mp h with h | h
      · exact .inr (h ▸ List.mem_cons_self)
      · rcases ih h with h | h
        · exact .inl h
        · exact .inr (List.mem_cons_of_mem _ h)

theorem ids_replace {b : MemoryRecord} (l : List MemoryRecord) (h : b.key.id = a.key.id) :
    (l.replace a b).map (fun e => e.key.id) = l.map fun e => e.key.id := by
  induction l with
  | nil => rfl
  | cons x l ih =>
    by_cases hx : a = x
    · rw [hx, List.replace_cons_self, List.map_cons, List.map_cons, h, hx]
    · rw [List.replace_cons, beq_false_of_ne hx]
      exact congrArg (x.key.id :: ·) ih

theorem self_mem_replace (b : MemoryRecord) {l : List MemoryRecord} (h : a ∈ l) : b ∈ l.replace a b := by
  induction l with
  | nil => cases h
  | cons x l ih =>
    by_cases hx : a = x
    · rw [hx, List.replace_cons_self]
      exact List.mem_cons_self
    · rw [List.replace_cons, beq_false_of_ne hx]
      refine List.mem_cons_of_mem _ (ih ?_)
      exact (List.mem_cons.mp h).resolve_left hx

theorem InStep.replace (hin : InStep st) {r : MemoryRow} (new : MemoryRow) (hr : r ∈ st.db.rows)
    (hexists : r.record ∈ st.existing) (hid : new.id = r.id) (report : ImportReport) :
    InStep ⟨st.existing.replace r.record new.record, report, modify r.id (fun _ => new) st.db⟩ := by
  have hids : ((st.existing.replace r.record new.record).map fun e => e.key.id).Nodup := by
    rw [ids_replace _ hid]
    exact hin.ids
  refine ⟨hids, fun e he => ?_⟩
  by_cases heq : e.key.id = r.id
  · have hsame : e = new.record :=
      List.inj_on_of_nodup_map hids he (self_mem_replace _ hexists) (heq.trans hid.symm)
    exact ⟨new, List.mem_map.mpr ⟨r, hr, if_pos rfl⟩, hsame⟩
  · rcases mem_replace he with rfl | he
    · exact absurd hid heq
    · obtain ⟨s, hs, rfl⟩ := hin.rows e he
      exact ⟨s, List.mem_map.mpr ⟨s, hs, if_neg heq⟩, rfl⟩

theorem mergeOne_changes {current : MemoryRecord} {metadata : MemoryMetadata} (h : Kept limits st.db)
    (hin : InStep st) (hcurrent : current ∈ st.existing)
    (hmerge : mergeOne current metadata st = .ok st') :
    Changes limits st.db st'.db ∧ InStep st' := by
  obtain ⟨r, hr, rfl⟩ := hin.rows current hcurrent
  obtain ⟨_, hvalid, hmerge⟩ := bind_ok hmerge
  simp only at hmerge
  split at hmerge
  · cases hmerge
    exact ⟨.refl, hin.ids, hin.rows⟩
  · obtain ⟨-, hmerge⟩ := refuseIf_bind hmerge
    obtain ⟨hv, hmerge⟩ := refuseIf_bind hmerge
    obtain ⟨hfree, hmerge⟩ := refuseIf_bind hmerge
    have hsave : saveMetadata r.id (mergeProvenance r.metadata metadata) (modify r.id (fun s => { s with
        version := r.version + 1
        normalizedIdentity := (mergeProvenance r.metadata metadata).identity r.content }) st.db) =
        modify r.id (fun _ => mergedRow r (mergeProvenance r.metadata metadata)) st.db := by
      refine (save_modify _ h.ids hr ?_).1
      exact fun _ => rfl
    obtain rfl : ImportState.mk (st.existing.replace r.record (mergedRow r _).record) _ _ = st' :=
      (congrArg (ImportState.mk _ _) hsave).symm.trans (Except.ok.inj hmerge)
    refine ⟨.single (.alter hr rfl ⟨?_, rfl⟩ (identityExists_some hfree)
      (Nat.add_le_add_right h.bytes _) (.inr (Nat.lt_succ_self _))),
      hin.replace (mergedRow r _) hr hcurrent rfl _⟩
    exact validate_merged (h.rows r hr).valid hvalid hv

theorem admitOne_changes {memory : MemoryRecord} {metadata : MemoryMetadata} (h : Kept limits st.db)
    (hin : InStep st) (hadd : admitOne limits env memory metadata now st = .ok st') :
    Changes limits st.db st'.db ∧ InStep st' := by
  obtain ⟨-, -, hadd⟩ := bind_ok hadd
  obtain ⟨⟨r, inserted⟩, hinsert, hadd⟩ := bind_ok hadd
  obtain ⟨-, hadd⟩ := refuseIf_bind hadd
  obtain ⟨row, hload, hadd⟩ := bind_ok hadd
  cases hadd
  obtain ⟨n, hdb, hid, hchange⟩ := insert_changes (fun s => { s with
    version := memory.key.version
    createdAtMs := memory.createdAtMs
    updatedAtMs := memory.updatedAtMs
    lastScannedAtMs := memory.lastScannedAtMs
    scanCount := memory.scanCount
    lastUsedAtMs := memory.lastUsedAtMs
    useCount := memory.useCount
    probationUntilMs := memory.probationUntilMs
    metadata := { metadata with ownershipId := some (ownership (env.draws st.report.inserted)) } })
    (fun _ => rfl) hinsert rfl rfl rfl (by
      rw [saveMetadata, modify_modify] at hload
      · exact hload
      · exact fun _ => rfl)
  rw [saveMetadata, modify_modify, hdb]
  rotate_left
  · exact fun _ => rfl
  refine ⟨.single hchange, ?_, ?_⟩
  · show ((st.existing ++ [row.record]).map fun e => e.key.id).Nodup
    rw [List.map_append, List.map_singleton]
    refine List.nodup_append.mpr ⟨hin.ids, List.nodup_singleton _, ?_⟩
    intro a ha b hb
    obtain ⟨e, he, rfl⟩ := List.mem_map.mp ha
    obtain ⟨s, hs, rfl⟩ := hin.rows e he
    rw [List.mem_singleton.mp hb]
    exact (lt_of_lt_of_le (h.next s hs) hid).ne
  · intro e he
    rcases List.mem_append.mp he with he | he
    · obtain ⟨s, hs, rfl⟩ := hin.rows e he
      exact ⟨s, List.mem_append_left _ hs, rfl⟩
    · exact ⟨row, List.mem_append_right _ (List.mem_singleton_self row), List.mem_singleton.mp he⟩

theorem importOne_changes {memory : MemoryRecord} (h : Kept limits st.db) (hin : InStep st)
    (himport : importOne limits env now st memory = .ok st') :
    Changes limits st.db st'.db ∧ InStep st' := by
  unfold importOne at himport
  split at himport
  · exact mergeOne_changes h hin (List.mem_of_find?_eq_some (by assumption)) himport
  · exact admitOne_changes h hin himport

theorem importAll_changes {memories : List MemoryRecord} (h : Kept limits st.db) (hin : InStep st)
    (himport : memories.foldlM (importOne limits env now) st = .ok st') :
    Changes limits st.db st'.db := by
  induction memories generalizing st with
  | nil =>
    cases himport
    exact .refl
  | cons memory memories ih =>
    obtain ⟨mid, hone, himport⟩ := bind_ok himport
    obtain ⟨hchanges, hmid⟩ := importOne_changes h hin hone
    exact hchanges.trans (ih (h.changes hchanges) hmid himport)

theorem importRecords_changes (env : MemoryEnv) (memories : List MemoryRecord) (now : Int)
    (h : Kept limits db) : Changes limits db (importRecords limits env memories now db).2 := by
  unfold importRecords
  split
  · exact .refl
  · refine operate_changes h fun {db report db'} hkept hbody => ?_
    obtain ⟨rows, hload, hbody⟩ := bind_ok hbody
    obtain ⟨st, himport, hbody⟩ := bind_ok hbody
    cases hbody
    have hpruned := pruneExpired_changes hkept now
    have hpruned' := hkept.changes hpruned
    have hperm := loadAll_ok hload
    refine hpruned.trans (importAll_changes ?_ ⟨?_, ?_⟩ himport)
    · exact hpruned'
    · show ((rows.map MemoryRow.record).map fun e => e.key.id).Nodup
      rw [List.map_map]
      exact ((hperm.map MemoryRow.id).nodup_iff).mpr hpruned'.ids
    · intro e he
      obtain ⟨r, hr, rfl⟩ := List.mem_map.mp he
      exact ⟨r, hperm.subset hr, rfl⟩

theorem mergeRemoteExport_changes (env : MemoryEnv) (memories : List MemoryRecord) (now : Int)
    (h : Kept limits db) : Changes limits db (mergeRemoteExport limits env memories now db).2 := by
  unfold mergeRemoteExport
  split
  · exact .refl
  · split
    · exact .refl
    · exact importRecords_changes env memories now h

theorem put_changes (env : MemoryEnv) (content : String) (metadata : MemoryMetadata)
    (replacement : Option MemoryKey) (now : Int) (h : Kept limits db) :
    Changes limits db (put limits env content metadata replacement now db).2 := by
  unfold put
  split
  · exact .refl
  · unfold putMetadataLocal
    split
    · exact .refl
    · exact operate_changes h fun hkept hbody => putBody_changes hkept hbody

theorem delete_changes (env : MemoryEnv) (key : MemoryKey) (h : Kept limits db) :
    Changes limits db (delete env key db).2 := by
  unfold delete
  split
  · exact .refl
  · exact operate_changes h fun hkept hbody => deleteBody_changes hkept hbody

end

/-! ## taking over a snapshot -/

section
variable {env : MemoryEnv} {m : MemoryMetadata} {owner : String}
variable {memories : List MemoryRecord}

theorem validOwnership_ownership (bytes : BitVec 128) : validOwnership (ownership bytes) = true := by
  have hhex : ∀ n < 16, isHexDigit (hexDigit n) = true ∧ (hexDigit n).utf8Size = 1 := by decide
  have hdigits : ∀ c ∈ hexText 32 bytes.toNat, isHexDigit c = true ∧ c.utf8Size = 1 := by
    intro c hc
    obtain ⟨i, -, rfl⟩ := List.mem_map.mp hc
    exact hhex _ (Nat.mod_lt _ (by decide))
  have hlength : ∀ l : List Char, (∀ c ∈ l, isHexDigit c = true ∧ c.utf8Size = 1) →
      utf8Length l = l.length := by
    intro l hl
    induction l with
    | nil => rfl
    | cons c l ih =>
      rw [utf8Length_cons, (hl c List.mem_cons_self).2, ih fun d hd => hl d (List.mem_cons_of_mem c hd),
        List.length_cons, Nat.add_comm]
  rw [validOwnership, Bool.and_eq_true, decide_eq_true_eq, strLen_eq, List.all_eq_true, ownership,
    String.toList_ofList, hlength _ hdigits, length_hexText]
  exact ⟨rfl, fun c hc => (hdigits c hc).1⟩

theorem validate_owned (h : m.validate = .ok ()) (howner : validOwnership owner = true) :
    (owned owner m).validate = .ok () := by
  unfold owned
  split
  · exact m.validate_withOwnership h howner
  · exact h

/-- the identity of the memory names its owner, and it has none yet -/
def Ownerless (m : MemoryMetadata) : Prop :=
  m.ownershipId = none ∧ m.transferredFrom = [] ∧ m.importedFrom ≠ []

instance : Decidable (Ownerless m) := inferInstanceAs (Decidable (_ ∧ _))

theorem identity_owned (h : ¬ Ownerless m) (content : String) :
    (owned owner m).identity content = m.identity content := by
  unfold owned
  split
  case isFalse => rfl
  case isTrue hnone =>
    by_cases htransferred : m.transferredFrom = []
    · have himported : m.importedFrom = [] := by
        by_contra hne
        exact h ⟨hnone, htransferred, hne⟩
      simp only [MemoryMetadata.identity, htransferred, himported, ne_eq, not_true_eq_false, or_self,
        if_false]
    · cases hhead : m.transferredFrom with
      | nil => exact absurd hhead htransferred
      | cons source rest =>
        simp only [MemoryMetadata.identity, MemoryMetadata.transferIdentity, hhead, List.head?_cons,
          Option.map_some, Option.some_or]

/-- **The identity of such a memory changes with its owner.** -/
theorem identity_ownerless (h : Ownerless m) (content : String) :
    (owned owner m).identity content ≠ m.identity content := by
  obtain ⟨hnone, htransferred, himported⟩ := h
  have hold : m.identity content = "import:" ++ m.transferIdentity content none :=
    if_pos (.inr himported)
  have hnew : (owned owner m).identity content =
      "import:" ++ (owned owner m).transferIdentity content none := by
    rw [owned, if_pos hnone]
    exact if_pos (.inr himported)
  rw [hold, hnew]
  intro heq
  have heq := congrArg String.toList heq
  rw [String.toList_append, String.toList_append] at heq
  have heq := List.append_cancel_left heq
  rw [owned, if_pos hnone] at heq
  simp only [MemoryMetadata.transferIdentity, htransferred, hnone, List.head?_nil, Option.map_none,
    Option.none_or, jsonText, String.toList_ofList] at heq
  exact absurd (congrArg (fun l => l[1]?) heq) (by
    show ¬ (some '"' = some 'n')
    decide)

theorem validateAuthored_ok {acc acc' : List Int × List String × Nat}
    (h : memories.foldlM (validateAuthored limits) acc = .ok acc') :
    (∀ memory ∈ memories, memory.validate .local limits = .ok ()) ∧
      acc'.2.2 = acc.2.2 + (memories.map fun memory => strLen memory.content).sum := by
  induction memories generalizing acc with
  | nil =>
    cases h
    exact ⟨fun _ hm => (nomatch hm), rfl⟩
  | cons memory memories ih =>
    obtain ⟨mid, hone, h⟩ := bind_ok h
    obtain ⟨hrest, hsum⟩ := ih h
    obtain ⟨_, hvalid, hone⟩ := bind_ok hone
    obtain ⟨-, hone⟩ := refuseIf_bind hone
    obtain ⟨-, hone⟩ := refuseIf_bind hone
    obtain ⟨-, hone⟩ := refuseIf_bind hone
    obtain ⟨-, hone⟩ := refuseIf_bind hone
    cases hone
    refine ⟨List.forall_mem_cons.mpr ⟨hvalid, hrest⟩, ?_⟩
    rw [hsum, List.map_cons, List.sum_cons, Nat.add_assoc]

theorem validateAuthoredSnapshot_ok {u : Unit} (h : validateAuthoredSnapshot limits memories = .ok u) :
    memories.length ≤ limits.records ∧
      (∀ memory ∈ memories, memory.validate .local limits = .ok ()) ∧
      (memories.map fun memory => strLen memory.content).sum ≤ limits.totalContentBytes := by
  obtain ⟨hcount, h⟩ := refuseIf_bind h
  obtain ⟨acc, hrun, h⟩ := bind_ok h
  obtain ⟨hvalid, hsum⟩ := validateAuthored_ok hrun
  have hbytes := refuseIf_ok h
  refine ⟨by omega, hvalid, ?_⟩
  rw [Nat.zero_add] at hsum
  omega

def takenRow (owner : String) (memory : MemoryRecord) : MemoryRow :=
  { syncRow memory with metadata := owned owner memory.metadata }

theorem takenRow_kept {memory : MemoryRecord} (h : memory.validate .local limits = .ok ())
    (howner : validOwnership owner = true) (hnames : ¬ Ownerless memory.metadata) :
    RowKept limits (takenRow owner memory) := by
  refine ⟨?_, (identity_owned hnames _).symm⟩
  have hold := refuseIf_ok h
  simp only [not_or] at hold
  obtain ⟨h₁, h₂, h₃, h₄, h₅, -, -, h₈, h₉, h₁₀, h₁₁, h₁₂, h₁₃, h₁₄⟩ := hold
  refine refuseIf_of_not _ ?_
  simp only [not_or]
  have hlocal : ¬ (true = false) := by decide
  refine ⟨h₁, h₂, h₃, h₄, h₅, hlocal, hlocal, h₈, h₉, h₁₀, h₁₁, h₁₂, h₁₃, fun hnot => hnot ?_⟩
  exact validate_owned (not_not.mp h₁₄) howner

theorem syncOne_ok {previous : List MemoryRecord} {memory : MemoryRecord}
    {acc acc' : SyncReport × MemoryDb} (h : syncOne env previous acc memory = .ok acc') :
    memory.key.id + 1 ≤ i64Max ∧ (∀ r ∈ acc.2.rows, r.id ≠ memory.key.id) ∧
      (∀ r ∈ acc.2.rows, r.normalizedIdentity ≠ memory.metadata.identity memory.content) ∧
      ∃ bytes, acc'.2 = ⟨acc.2.rows ++ [takenRow (ownership bytes) memory],
        max acc.2.nextId (memory.key.id + 1)⟩ := by
  obtain ⟨report, db⟩ := acc
  obtain ⟨observed, hobserve, h⟩ := bind_ok h
  obtain ⟨n, hn, hobserve⟩ := bind_ok hobserve
  cases hobserve
  obtain ⟨rfl, hroom⟩ := next_ok hn
  obtain ⟨inserted, hinsert, h⟩ := bind_ok h
  cases h
  obtain ⟨rfl, hids, hfree⟩ := insertRow_ok hinsert
  refine ⟨hroom, hids, hfree, env.draws (report.inserted + report.replaced + report.unchanged), ?_⟩
  exact saveMetadata_append (syncRow memory) _ _ hids

theorem syncAll_kept {previous : List MemoryRecord} {acc acc' : SyncReport × MemoryDb}
    (h : Kept limits acc.2) (hvalid : ∀ memory ∈ memories, memory.validate .local limits = .ok ())
    (hnames : ∀ memory ∈ memories, ¬ Ownerless memory.metadata)
    (hcount : acc.2.rows.length + memories.length ≤ limits.records)
    (hbytes : totalBytes acc.2.rows + (memories.map fun memory => strLen memory.content).sum ≤
      limits.totalContentBytes) (hsync : memories.foldlM (syncOne env previous) acc = .ok acc') :
    Kept limits acc'.2 := by
  induction memories generalizing acc with
  | nil =>
    cases hsync
    exact h
  | cons memory memories ih =>
    obtain ⟨mid, hone, hsync⟩ := bind_ok hsync
    obtain ⟨hroom, hids, hfree, bytes, hmid⟩ := syncOne_ok hone
    rw [List.map_cons, List.sum_cons] at hbytes
    rw [List.length_cons] at hcount
    obtain ⟨hvalid₁, hvalid⟩ := List.forall_mem_cons.mp hvalid
    obtain ⟨hnames₁, hnames⟩ := List.forall_mem_cons.mp hnames
    have hkept : Kept limits mid.2 := by
      rw [hmid]
      refine h.add hids (le_max_left _ _) ?_ (max_le h.room hroom)
        (takenRow_kept hvalid₁ (validOwnership_ownership bytes) hnames₁) hfree (by omega) ?_
      · exact lt_of_lt_of_le (Int.lt_add_one_of_le le_rfl) (le_max_right _ _)
      · show _ + strLen memory.content ≤ _
        omega
    refine ih hkept hvalid hnames ?_ ?_ hsync
    · rw [hmid]
      show (acc.2.rows ++ [_]).length + _ ≤ _
      rw [List.length_append, List.length_singleton]
      omega
    · rw [hmid]
      show totalBytes (acc.2.rows ++ [_]) + _ ≤ _
      rw [totalBytes_append]
      show _ + strLen memory.content + _ ≤ _
      omega

theorem sync_kept (env : MemoryEnv) (now : Int) (h : Kept limits db)
    (hnames : ∀ memory ∈ memories, ¬ Ownerless memory.metadata) :
    Kept limits (syncSnapshot limits env memories now db).2 := by
  unfold syncSnapshot
  split
  · exact h
  case h_2 _ hsnapshot =>
    obtain ⟨hcount, hvalid, hbytes⟩ := validateAuthoredSnapshot_ok hsnapshot
    unfold operate
    cases hopen : openStore db with
    | error e => exact h
    | ok opened =>
      have hopened := h.changes (openStore_changes h hopen)
      rcases transaction_cases env.commit (syncBody limits env memories now) opened with
        ⟨a, t, ht, heq⟩ | ⟨e, heq⟩
      · show Kept limits (transaction env.commit _ opened).2
        rw [heq]
        obtain ⟨existing, -, ht⟩ := bind_ok ht
        have hempty : Kept limits ⟨[], opened.nextId⟩ :=
          hopened.change (.drop (List.nil_sublist _) le_rfl hopened.room)
        refine syncAll_kept ?_ hvalid hnames ?_ ?_ ht
        · exact hempty
        · show 0 + _ ≤ _
          omega
        · show 0 + _ ≤ _
          omega
      · show Kept limits (transaction env.commit _ opened).2
        rw [heq]
        exact hopened

end

/-! ## runs -/

/-- an operation on the store, with all that it is given -/
inductive MemoryCall where
  | put (env : MemoryEnv) (content : String) (metadata : MemoryMetadata)
      (replacement : Option MemoryKey) (now : Int)
  | delete (env : MemoryEnv) (key : MemoryKey)
  | scan (env : MemoryEnv) (query : String) (limit : Nat) (now : Int)
      (repository : Option (Option String))
  | read (env : MemoryEnv) (references : List (Int × Option Nat)) (now : Int)
      (repository : Option (Option String))
  | list (env : MemoryEnv) (now : Int)
  | importRecords (env : MemoryEnv) (memories : List MemoryRecord) (now : Int)
  | mergeRemoteExport (env : MemoryEnv) (memories : List MemoryRecord) (now : Int)
  | sync (env : MemoryEnv) (memories : List MemoryRecord) (now : Int)

/-- the store after the operation, whether it succeeds or not -/
def MemoryCall.run (limits : MemoryLimits) (db : MemoryDb) : MemoryCall → MemoryDb
  | .put env content metadata replacement now =>
    (Memory.put limits env content metadata replacement now db).2
  | .delete env key => (Memory.delete env key db).2
  | .scan env query limit now repository => (Memory.scan limits env query limit now repository db).2
  | .read env references now repository => (Memory.read limits env references now repository db).2
  | .list env now => (Memory.list limits env now db).2
  | .importRecords env memories now => (Memory.importRecords limits env memories now db).2
  | .mergeRemoteExport env memories now => (Memory.mergeRemoteExport limits env memories now db).2
  | .sync env memories now => (syncSnapshot limits env memories now db).2

/-- the store after a sequence of operations -/
def runCalls (limits : MemoryLimits) (calls : List MemoryCall) : MemoryDb :=
  calls.foldl (MemoryCall.run limits) MemoryDb.empty

/-- no snapshot holds a memory whose identity changes with the owner that it is given -/
def MemoryCall.NamesOwners : MemoryCall → Prop
  | .sync _ memories _ => ∀ memory ∈ memories, ¬ Ownerless memory.metadata
  | _ => True

def MemoryCall.isSync : MemoryCall → Bool
  | .sync _ _ _ => true
  | _ => false

theorem MemoryCall.run_changes (call : MemoryCall) (h : Kept limits db) (hcall : call.isSync = false) :
    Changes limits db (call.run limits db) := by
  cases call with
  | put env content metadata replacement now => exact put_changes env content metadata replacement now h
  | delete env key => exact delete_changes env key h
  | scan env query limit now repository => exact scan_changes env query limit now repository h
  | read env references now repository => exact read_changes env references now repository h
  | list env now => exact list_changes env now h
  | importRecords env memories now => exact importRecords_changes env memories now h
  | mergeRemoteExport env memories now => exact mergeRemoteExport_changes env memories now h
  | sync env memories now => cases hcall

theorem MemoryCall.run_kept (call : MemoryCall) (h : Kept limits db) (hcall : call.NamesOwners) :
    Kept limits (call.run limits db) := by
  cases hsync : call.isSync with
  | false => exact h.changes (call.run_changes h hsync)
  | true =>
    cases call with
    | sync env memories now => exact sync_kept env now h hcall
    | _ => cases hsync

/-- **The table keeps its invariant along every sequence of operations in which no sync brings an
imported memory that names neither an owner nor a transfer.** -/
theorem memory_store_kept (limits : MemoryLimits) (calls : List MemoryCall)
    (h : ∀ call ∈ calls, call.NamesOwners) : Kept limits (runCalls limits calls) := by
  have hrun : ∀ (calls : List MemoryCall) (db : MemoryDb), Kept limits db →
      (∀ call ∈ calls, call.NamesOwners) → Kept limits (calls.foldl (MemoryCall.run limits) db) := by
    intro calls
    induction calls with
    | nil => exact fun db hdb _ => hdb
    | cons call calls ih =>
      intro db hdb hcalls
      obtain ⟨hcall, hcalls⟩ := List.forall_mem_cons.mp hcalls
      exact ih _ (call.run_kept hdb hcall) hcalls
  exact hrun calls MemoryDb.empty (Kept.empty limits) h

end

namespace MemorySample

scoped instance sha256 : Sha256 := Sha256.standard

/-- no text is a secret, and nothing is found -/
scoped instance text : MemoryText := ⟨fun s => s.map Char.toLower, fun _ => false, fun _ _ _ => []⟩

def env : MemoryEnv := ⟨fun n => BitVec.ofNat 128 n, .ok ()⟩

/-- a memory that was imported before stores named their owners -/
def imported : MemoryRecord :=
  ⟨{ MemoryMetadata.default with importedFrom := [⟨7, 1, none⟩] }, ⟨1, 1, none⟩, "note", 0, 0, none, 0,
    none, 0, none⟩

/-- the same memory, with its owner -/
def transferred : MemoryRecord :=
  { imported with metadata := owned (ownership 5) imported.metadata }

end MemorySample

open MemorySample

theorem memory_store_kept_transferred :
    (∀ call ∈ [MemoryCall.put env "remark" MemoryMetadata.default none 0,
        .sync env [transferred] 1, .put env "note" MemoryMetadata.default none 2],
      call.NamesOwners) ∧
    (runCalls MemoryLimits.production [.put env "remark" MemoryMetadata.default none 0,
      .sync env [transferred] 1, .put env "note" MemoryMetadata.default none 2]).rows.length = 2 ∧
    Kept MemoryLimits.production
      (runCalls MemoryLimits.production [.put env "remark" MemoryMetadata.default none 0,
        .sync env [transferred] 1, .put env "note" MemoryMetadata.default none 2]) := by
  have hnames : ∀ call ∈ [MemoryCall.put env "remark" MemoryMetadata.default none 0,
      .sync env [transferred] 1, .put env "note" MemoryMetadata.default none 2], call.NamesOwners := by
    intro call hcall
    simp only [List.mem_cons, List.not_mem_nil, or_false] at hcall
    rcases hcall with rfl | rfl | rfl
    · trivial
    · intro memory hmemory
      rw [List.mem_singleton.mp hmemory]
      decide
    · trivial
  exact ⟨hnames, by decide +kernel, memory_store_kept _ _ hnames⟩

/-- the sync of a memory that has neither owner nor transfers leaves a row under another identity -/
theorem sync_imported_breaks :
    ¬ Kept MemoryLimits.production (runCalls MemoryLimits.production [.sync env [imported] 0]) := by
  intro h
  have hrow : ∃ r ∈ (runCalls MemoryLimits.production [.sync env [imported] 0]).rows,
      r.normalizedIdentity ≠ r.metadata.identity r.content := by decide +kernel
  obtain ⟨r, hr, hne⟩ := hrow
  exact hne (h.rows r hr).identity

end Memory

end Orvek
