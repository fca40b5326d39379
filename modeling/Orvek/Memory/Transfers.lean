import Orvek.Lib.Quoted
import Orvek.Memory.Operations

/-!
# Memories that are brought from store to store

An import knows a record by its semantic identity: the owner it first had, its text and what it says
of itself, but not where it has been since.

* `identityOf`             what an import compares a record of the store by;
* `identity_merged`, `identity_arriving`, `incomingIdentity_stored`   neither a merge nor a hop to
                           another store changes it;
* `Loaded`                 the loaded records are the table, in the order of their identifiers;
* `importOne_step`         one record of an archive is held afterwards, and adds its identity if new;
* `memory_transfers`       an import that is repeated adds nothing, and no record comes back twice.
-/

set_option linter.unusedSectionVars false

namespace Orvek
open Checks Json
namespace Memory

/-! ## pushing what is new -/

section
variable {α : Type} [DecidableEq α] {l m : List α} {a b : α}

theorem mem_pushNew : b ∈ pushNew l a ↔ b ∈ l ∨ b = a := by
  unfold pushNew
  split
  · rename_i hin
    refine ⟨.inl, fun h => ?_⟩
    rcases h with h | rfl
    · exact h
    · exact hin
  · rw [List.mem_append, List.mem_singleton]

theorem mem_foldl_pushNew : b ∈ m.foldl pushNew l ↔ b ∈ l ∨ b ∈ m := by
  induction m generalizing l with
  | nil => simp
  | cons a m ih => rw [List.foldl_cons, ih, mem_pushNew, List.mem_cons, or_assoc]

theorem foldl_pushNew_same (h : ∀ a ∈ m, a ∈ l) : m.foldl pushNew l = l := by
  induction m with
  | nil => rfl
  | cons a m ih =>
    rw [List.foldl_cons, pushNew, if_pos (h a List.mem_cons_self)]
    exact ih fun b hb => h b (List.mem_cons_of_mem a hb)

theorem head_pushNew (hl : l ≠ []) (a : α) : (pushNew l a).head? = l.head? := by
  unfold pushNew
  split
  · rfl
  · exact List.head?_append_of_ne_nil l hl

theorem pushNew_ne_nil (l : List α) (a : α) : pushNew l a ≠ [] := fun h =>
  List.not_mem_nil (h ▸ mem_pushNew.mpr (.inr rfl))

theorem head_foldl_pushNew (hl : l ≠ []) : (m.foldl pushNew l).head? = l.head? := by
  induction m generalizing l with
  | nil => rfl
  | cons a m ih => rw [List.foldl_cons, ih (pushNew_ne_nil l a), head_pushNew hl]

theorem head_foldl_pushNew_nil : (m.foldl pushNew []).head? = m.head? := by
  cases m with
  | nil => rfl
  | cons a m =>
    rw [List.foldl_cons, head_foldl_pushNew (pushNew_ne_nil [] a)]
    rfl

theorem count_pushNew_le (l : List α) (a b : α) : (pushNew l a).count b ≤ max 1 (l.count b) := by
  unfold pushNew
  split
  · exact le_max_right _ _
  · rename_i hnew
    rw [List.count_append, List.count_singleton]
    by_cases hab : a = b
    · subst hab
      rw [List.count_eq_zero_of_not_mem hnew]
      simp
    · rw [if_neg (by simpa using hab), Nat.add_zero]
      exact le_max_right _ _

theorem replace_eq_map (hl : l.Nodup) : l.replace a b = l.map fun x => if x = a then b else x := by
  induction l with
  | nil => rfl
  | cons x l ih =>
    obtain ⟨hx, hl⟩ := List.nodup_cons.mp hl
    by_cases h : a = x
    · subst h
      rw [List.replace_cons_self, List.map_cons, if_pos rfl]
      congr 1
      conv_lhs => rw [← List.map_id l]
      refine List.map_congr_left fun y hy => ?_
      rw [if_neg]
      · rfl
      · rintro rfl
        exact hx hy
    · rw [List.replace_cons, beq_false_of_ne h, List.map_cons, if_neg (Ne.symm h)]
      exact congrArg (x :: ·) (ih hl)

end

/-! ## the identity of a record -/

section
variable [Sha256] [MemoryText] {r m : MemoryRecord}

def identityOf (r : MemoryRecord) : String := r.metadata.transferIdentity r.content none

/-- a record of the store stands for one of an archive, and names where that came from -/
structure Holds (r m : MemoryRecord) : Prop where
  identity : identityOf r = incomingIdentity m
  keys : ∀ key ∈ (arriving m).importedFrom, key ∈ r.metadata.importedFrom
  sources : ∀ source ∈ (arriving m).transferredFrom, source ∈ r.metadata.transferredFrom

theorem array_prefix_inj {o o' n n' : Option String} {v v' w w' : Value}
    (h : jsonText (.array [optional Value.string o, optional Value.string n, v, w]) =
      jsonText (.array [optional Value.string o', optional Value.string n', v', w'])) :
    o = o' ∧ n = n' := by
  have htext : ∀ (o n : Option String) (v w : Value), (Value.array [optional Value.string o,
      optional Value.string n, v, w]).text = '[' :: ((optional Value.string o).text ++
        (',' :: ((optional Value.string n).text ++ (textRest [v, w] ++ [']'])))) := by
    intro o n v w
    show '[' :: (((optional Value.string o).text ++ (',' :: ((optional Value.string n).text ++
      textRest [v, w]))) ++ [']']) = _
    rw [List.append_assoc, List.cons_append, List.append_assoc]
  have hchars := String.ofList_injective h
  rw [htext, htext] at hchars
  obtain ⟨ho, hrest⟩ := optional_append_inj (List.cons.inj hchars).2
  exact ⟨ho, (optional_append_inj (List.cons.inj hrest).2).1⟩

theorem transferIdentity_eq (m : MemoryMetadata) (content : String) (nameSpace : Option String) :
    m.transferIdentity content nameSpace = jsonText (.array [
      optional Value.string ((m.transferredFrom.head?.map OwnershipReference.ownershipId).or
        m.ownershipId),
      optional Value.string ((m.transferredFrom.head?.map fun s => s.key.nameSpace).getD nameSpace),
      .string content,
      MemoryMetadata.json
        { m with ownershipId := none, transferredFrom := [], importedFrom := [] }]) := by
  unfold MemoryMetadata.transferIdentity
  cases m.transferredFrom.head? <;> rfl

theorem head_arriving (m : MemoryRecord) : ∃ source, (arriving m).transferredFrom.head? = some source ∧
    some source.ownershipId = (m.metadata.transferredFrom.head?.map OwnershipReference.ownershipId).or
      (some (sourceOwnership m)) ∧
    source.key.nameSpace =
      (m.metadata.transferredFrom.head?.map fun s => s.key.nameSpace).getD m.key.nameSpace := by
  show ∃ source, (pushNew m.metadata.transferredFrom _).head? = some source ∧ _
  cases hold : m.metadata.transferredFrom with
  | nil => exact ⟨_, rfl, rfl, rfl⟩
  | cons source rest =>
    rw [head_pushNew (List.cons_ne_nil source rest)]
    exact ⟨source, rfl, rfl, rfl⟩

theorem identity_arriving (m : MemoryRecord) (owner : String) :
    MemoryMetadata.transferIdentity { arriving m with ownershipId := some owner } m.content none =
      incomingIdentity m := by
  obtain ⟨source, hhead, howner, hspace⟩ := head_arriving m
  rw [incomingIdentity, transferIdentity_eq, transferIdentity_eq]
  show jsonText (.array [optional _ (((arriving m).transferredFrom.head?.map _).or _),
    optional _ (((arriving m).transferredFrom.head?.map _).getD none), _, _]) = _
  rw [hhead]
  show jsonText (.array [optional Value.string (some source.ownershipId),
    optional Value.string source.key.nameSpace, _, _]) = _
  rw [howner, hspace]
  rfl

attribute [grind =] identityOf

/-- **A merge of provenance does not change what a record is known by.** -/
theorem identity_merged (h : identityOf r = incomingIdentity m) :
    (mergeProvenance r.metadata (arriving m)).transferIdentity r.content none = identityOf r := by
  rw [identityOf, transferIdentity_eq, transferIdentity_eq]
  show jsonText (.array [optional _ ((((arriving m).transferredFrom.foldl pushNew
    r.metadata.transferredFrom).head?.map _).or r.metadata.ownershipId), optional _
    (((((arriving m).transferredFrom.foldl pushNew r.metadata.transferredFrom).head?).map _).getD none),
    _, _]) = _
  cases hold : r.metadata.transferredFrom with
  | cons source rest =>
    rw [head_foldl_pushNew (List.cons_ne_nil source rest)]
    rfl
  | nil =>
    -- the record is the origin of the one that arrives, which names it first
    obtain ⟨source, hhead, howner, hspace⟩ := head_arriving m
    rw [identityOf, incomingIdentity, transferIdentity_eq, transferIdentity_eq, hold] at h
    obtain ⟨ho, hn⟩ := array_prefix_inj h
    rw [head_foldl_pushNew_nil, hhead]
    show jsonText (.array [optional Value.string (some source.ownershipId),
      optional Value.string source.key.nameSpace, _, _]) =
      jsonText (.array [optional Value.string r.metadata.ownershipId, optional Value.string none, _, _])
    rw [howner, hspace]
    exact congrArg₂ (fun o n => jsonText (.array [optional Value.string o, optional Value.string n, _, _]))
      ho.symm hn.symm

theorem incomingIdentity_stored (howner : r.metadata.ownershipId ≠ none) (hlocal : r.key.nameSpace = none) :
    incomingIdentity r = identityOf r := by
  obtain ⟨owner, howner⟩ := Option.ne_none_iff_exists'.mp howner
  have hsource : sourceOwnership r = owner := by
    rw [sourceOwnership, howner]
    rfl
  rw [incomingIdentity, identityOf, hsource, hlocal, ← howner]

theorem holds_merged {r' : MemoryRecord} (h : identityOf r = incomingIdentity m)
    (hmetadata : r'.metadata = mergeProvenance r.metadata (arriving m))
    (hcontent : r'.content = r.content) : Holds r' m := by
  refine ⟨?_, fun key hkey => ?_, fun source hsource => ?_⟩
  · rw [identityOf, hmetadata, hcontent, identity_merged h]
    exact h
  · rw [hmetadata]
    exact mem_foldl_pushNew.mpr (.inr hkey)
  · rw [hmetadata]
    exact mem_foldl_pushNew.mpr (.inr hsource)

theorem Holds.merged (h : Holds r m) {m' : MemoryRecord} (hm' : identityOf r = incomingIdentity m')
    {r' : MemoryRecord} (hmetadata : r'.metadata = mergeProvenance r.metadata (arriving m'))
    (hcontent : r'.content = r.content) : Holds r' m := by
  refine ⟨?_, fun key hkey => ?_, fun source hsource => ?_⟩
  · rw [identityOf, hmetadata, hcontent, identity_merged hm']
    exact h.identity
  · rw [hmetadata]
    exact mem_foldl_pushNew.mpr (.inl (h.keys key hkey))
  · rw [hmetadata]
    exact mem_foldl_pushNew.mpr (.inl (h.sources source hsource))

theorem Holds.mergeProvenance (h : Holds r m) :
    Memory.mergeProvenance r.metadata (arriving m) = r.metadata := by
  rw [Memory.mergeProvenance, foldl_pushNew_same h.keys, foldl_pushNew_same h.sources]

end

/-! ## the loaded records -/

section
variable [Sha256] [MemoryText] {limits : MemoryLimits} {env : MemoryEnv} {t now : Int}
  {st st' : ImportState} {db db' : MemoryDb}
variable {m e : MemoryRecord}

/-- the record that an import would merge another one into -/
def first (l : List MemoryRecord) (m : MemoryRecord) : Option MemoryRecord :=
  l.find? fun r => identityOf r = incomingIdentity m

/-- the records of the table, in the order of their identifiers -/
def loaded (db : MemoryDb) : List MemoryRecord :=
  (db.rows.mergeSort fun a b => a.id ≤ b.id).map MemoryRow.record

/-- `Probation` of a record -/
def MemoryRecord.expired (now : Int) (r : MemoryRecord) : Bool :=
  r.probationUntilMs.any (· ≤ now) && r.useCount = 0

/-- the loaded records are the table, and each of them is valid -/
structure Loaded (limits : MemoryLimits) (st : ImportState) : Prop where
  rows : st.existing.Perm (st.db.rows.map MemoryRow.record)
  sorted : st.existing.Pairwise fun a b => a.key.id < b.key.id
  valid : ∀ e ∈ st.existing, e.validate .local limits = .ok ()
  room : ∀ e ∈ st.existing, e.key.id + 1 ≤ i64Max

theorem Loaded.ids (h : Loaded limits st) : (st.existing.map fun e => e.key.id).Nodup := by
  rw [List.Nodup, List.pairwise_map]
  exact h.sorted.imp fun hlt => hlt.ne

theorem Loaded.rowIds (h : Loaded limits st) : (st.db.rows.map MemoryRow.id).Nodup := by
  have hperm := h.rows.map fun e => e.key.id
  rw [List.map_map] at hperm
  exact hperm.nodup_iff.mp h.ids

theorem Loaded.nodup (h : Loaded limits st) : st.existing.Nodup :=
  h.sorted.imp fun hlt he => hlt.ne (congrArg (fun e => e.key.id) he)

theorem Loaded.row (h : Loaded limits st) {e : MemoryRecord} (he : e ∈ st.existing) :
    ∃ r ∈ st.db.rows, r.record = e := List.mem_map.mp (h.rows.subset he)

theorem sorted_unique {l l' : List MemoryRecord} (hp : l.Perm l')
    (hl : l.Pairwise fun a b => a.key.id < b.key.id) (hl' : l'.Pairwise fun a b => a.key.id < b.key.id) :
    l = l' :=
  hp.eq_of_pairwise (fun _ _ _ _ hab hba => absurd hab (lt_asymm hba)) hl hl'

theorem loaded_sorted (hids : (db.rows.map MemoryRow.id).Nodup) :
    (loaded db).Pairwise fun a b => a.key.id < b.key.id := by
  have hsorted : (db.rows.mergeSort fun a b => a.id ≤ b.id).Pairwise fun a b => a.id ≤ b.id := by
    have h : (db.rows.mergeSort fun a b => a.id ≤ b.id).Pairwise fun a b => decide (a.id ≤ b.id) = true := by
      refine List.pairwise_mergeSort (fun _ _ _ hab hbc => ?_) (fun a b => ?_) db.rows
      · exact decide_eq_true ((of_decide_eq_true hab).trans (of_decide_eq_true hbc))
      · rw [Bool.or_eq_true, decide_eq_true_eq, decide_eq_true_eq]
        exact le_total a.id b.id
    exact h.imp fun hab => of_decide_eq_true hab
  have hdistinct : ((db.rows.mergeSort fun a b => a.id ≤ b.id).map MemoryRow.id).Nodup :=
    (((List.mergeSort_perm _ _).map MemoryRow.id).nodup_iff).mpr hids
  rw [List.Nodup, List.pairwise_map] at hdistinct
  rw [loaded, List.pairwise_map]
  exact (hsorted.and hdistinct).imp fun h => lt_of_le_of_ne h.1 h.2

theorem loaded_perm (db : MemoryDb) : (loaded db).Perm (db.rows.map MemoryRow.record) :=
  (List.mergeSort_perm _ _).map _

theorem Loaded.eq (h : Loaded limits st) : st.existing = loaded st.db :=
  sorted_unique (h.rows.trans (loaded_perm st.db).symm) h.sorted (loaded_sorted h.rowIds)

/-! ### one record -/

/-- what is held stays held, and the identity of the record is there -/
structure Stepped (now : Int) (m : MemoryRecord) (st st' : ImportState) : Prop where
  identities : st'.existing.map identityOf = pushNew (st.existing.map identityOf) (incomingIdentity m)
  held : ∃ e, first st'.existing m = some e ∧ Holds e m
  keeps : ∀ m', (∃ e, first st.existing m' = some e ∧ Holds e m') →
    ∃ e, first st'.existing m' = some e ∧ Holds e m'
  /-- a record that is there does not change its probation, and a new one brings it along -/
  probation : ∀ e ∈ st'.existing, (∃ e₀ ∈ st.existing, identityOf e₀ = identityOf e ∧
    MemoryRecord.expired now e₀ = MemoryRecord.expired now e) ∨
    MemoryRecord.expired now e = MemoryRecord.expired now m
  owned : (∀ e ∈ st.existing, e.metadata.ownershipId ≠ none) →
    ∀ e ∈ st'.existing, e.metadata.ownershipId ≠ none

theorem first_map {l : List MemoryRecord} {f : MemoryRecord → MemoryRecord}
    (hf : ∀ e ∈ l, identityOf (f e) = identityOf e) (m : MemoryRecord) :
    first (l.map f) m = (first l m).map f := by
  induction l with
  | nil => rfl
  | cons e l ih =>
    have hrest := ih fun x hx => hf x (List.mem_cons_of_mem e hx)
    by_cases he : identityOf e = incomingIdentity m
    · rw [first, first, List.map_cons, List.find?_cons_of_pos (by simpa [hf e List.mem_cons_self] using he),
        List.find?_cons_of_pos (by simpa using he)]
      rfl
    · rw [first, first, List.map_cons, List.find?_cons_of_neg (by simpa [hf e List.mem_cons_self] using he),
        List.find?_cons_of_neg (by simpa using he)]
      exact hrest

theorem mergeOne_ok {r : MemoryRow} {metadata : MemoryMetadata} (h : Loaded limits st)
    (hr : r ∈ st.db.rows) (hmerge : mergeOne r.record metadata st = .ok st') :
    (mergeProvenance r.metadata metadata).validate = .ok () ∧
      st'.report = { st.report with skipped := st.report.skipped + 1 } ∧
      ((mergeProvenance r.metadata metadata = r.metadata ∧ st'.existing = st.existing ∧ st'.db = st.db) ∨
        (¬ (r.version + 1 = 0 ∨ 2 ^ 63 ≤ r.version + 1) ∧
          st'.existing = st.existing.replace r.record
            (mergedRow r (mergeProvenance r.metadata metadata)).record ∧
          st'.db = modify r.id (fun _ => mergedRow r (mergeProvenance r.metadata metadata)) st.db)) := by
  obtain ⟨_, hvalid, hmerge⟩ := bind_ok hmerge
  simp only at hmerge
  split at hmerge
  · rename_i hsame
    cases hmerge
    exact ⟨hvalid, rfl, .inl ⟨hsame, rfl, rfl⟩⟩
  · obtain ⟨-, hmerge⟩ := refuseIf_bind hmerge
    obtain ⟨hv, hmerge⟩ := refuseIf_bind hmerge
    obtain ⟨-, hmerge⟩ := refuseIf_bind hmerge
    have hsave : saveMetadata r.id (mergeProvenance r.metadata metadata) (modify r.id (fun s => { s with
        version := r.version + 1
        normalizedIdentity := (mergeProvenance r.metadata metadata).identity r.content }) st.db) =
        modify r.id (fun _ => mergedRow r (mergeProvenance r.metadata metadata)) st.db := by
      refine (save_modify _ h.rowIds hr ?_).1
      exact fun _ => rfl
    cases hmerge
    exact ⟨hvalid, rfl, .inr ⟨hv, rfl, hsave⟩⟩

theorem pushNew_known (he : e ∈ st.existing) (hidentity : identityOf e = incomingIdentity m) :
    pushNew (st.existing.map identityOf) (incomingIdentity m) = st.existing.map identityOf := by
  rw [pushNew, if_pos]
  rw [← hidentity]
  exact List.mem_map_of_mem he

theorem Stepped.same (hexisting : st'.existing = st.existing) (hfirst : first st.existing m = some e)
    (hidentity : identityOf e = incomingIdentity m) (hholds : Holds e m) : Stepped now m st st' := by
  refine ⟨?_, ?_, ?_, ?_, ?_⟩ <;> rw [hexisting]
  · exact (pushNew_known (List.mem_of_find?_eq_some hfirst) hidentity).symm
  · exact ⟨e, hfirst, hholds⟩
  · exact fun _ hm => hm
  · exact fun e he => .inl ⟨e, he, rfl, rfl⟩
  · exact fun howned => howned

/-- the record of a row is exchanged, where it is, for what it becomes with another one merged in -/
structure Exchanged (m : MemoryRecord) (st st' : ImportState) (r : MemoryRow) (merged : MemoryRecord) :
    Prop where
  row : r ∈ st.db.rows
  loaded : r.record ∈ st.existing
  identity : identityOf r.record = incomingIdentity m
  eq : merged = (mergedRow r (mergeProvenance r.metadata (arriving m))).record
  existing : st'.existing = st.existing.replace r.record merged
  db : st'.db = modify r.id (fun _ => mergedRow r (mergeProvenance r.metadata (arriving m))) st.db

section
variable {m merged : MemoryRecord} {r : MemoryRow}

theorem Exchanged.metadata (hx : Exchanged m st st' r merged) :
    merged.metadata = mergeProvenance r.record.metadata (arriving m) := by
  rw [hx.eq]
  rfl

theorem Exchanged.content (hx : Exchanged m st st' r merged) : merged.content = r.record.content := by
  rw [hx.eq]
  rfl

theorem Exchanged.id (hx : Exchanged m st st' r merged) : merged.key.id = r.record.key.id := by
  rw [hx.eq]
  rfl

theorem Exchanged.sameId (hx : Exchanged m st st' r merged) : identityOf merged = identityOf r.record := by
  rw [identityOf, hx.metadata, hx.content]
  exact identity_merged hx.identity

theorem Exchanged.keeps (hx : Exchanged m st st' r merged) (e : MemoryRecord) :
    identityOf (if e = r.record then merged else e) = identityOf e := by
  split
  · rename_i he
    rw [he, hx.sameId]
  · rfl

theorem Exchanged.map (h : Loaded limits st) (hx : Exchanged m st st' r merged) :
    st'.existing = st.existing.map fun e => if e = r.record then merged else e :=
  hx.existing.trans (replace_eq_map h.nodup)

theorem Exchanged.mem (hx : Exchanged m st st' r merged) {e : MemoryRecord} (he : e ∈ st'.existing) :
    e = merged ∨ e ∈ st.existing := by
  rw [hx.existing] at he
  exact mem_replace he

theorem Exchanged.rows (h : Loaded limits st) (hx : Exchanged m st st' r merged) :
    st'.existing.Perm (st'.db.rows.map MemoryRow.record) := by
  rw [hx.map h, hx.db]
  refine (h.rows.map _).trans (List.Perm.of_eq ?_)
  show _ = (st.db.rows.map _).map MemoryRow.record
  rw [List.map_map, List.map_map]
  refine List.map_congr_left fun s hs => ?_
  rw [Function.comp_apply, Function.comp_apply]
  by_cases hsid : s.id = r.id
  · rw [row_unique h.rowIds hs hx.row hsid, if_pos rfl, if_pos rfl, hx.eq]
  · rw [if_neg hsid, if_neg fun he => hsid (congrArg (fun e : MemoryRecord => e.key.id) he)]

theorem Exchanged.sorted (h : Loaded limits st) (hx : Exchanged m st st' r merged) :
    st'.existing.Pairwise fun a b => a.key.id < b.key.id := by
  rw [hx.map h, List.pairwise_map]
  refine h.sorted.imp fun {a b} hab => ?_
  have hkey : ∀ e : MemoryRecord, (if e = r.record then merged else e).key.id = e.key.id := by
    intro e
    split
    · rename_i he
      rw [he, hx.id]
    · rfl
  rw [hkey, hkey]
  exact hab

theorem Exchanged.kept (h : Loaded limits st) (hx : Exchanged m st st' r merged)
    (hvalid : merged.validate .local limits = .ok ()) : Loaded limits st' := by
  refine ⟨hx.rows h, hx.sorted h, fun e he => ?_, fun e he => ?_⟩
  · rcases hx.mem he with rfl | he
    · exact hvalid
    · exact h.valid e he
  · rcases hx.mem he with rfl | he
    · rw [hx.id]
      exact h.room _ hx.loaded
    · exact h.room e he

theorem Exchanged.stepped (h : Loaded limits st) (hx : Exchanged m st st' r merged)
    (hfirst : first st.existing m = some r.record) : Stepped now m st st' := by
  have hexpired : MemoryRecord.expired now merged = MemoryRecord.expired now r.record := by
    rw [hx.eq]
    rfl
  refine ⟨?_, ?_, ?_, fun e he => ?_, fun howned e he => ?_⟩
  · rw [pushNew_known hx.loaded hx.identity, hx.map h, List.map_map]
    exact List.map_congr_left fun e _ => hx.keeps e
  · refine ⟨merged, ?_, holds_merged hx.identity hx.metadata hx.content⟩
    rw [hx.map h, first_map (fun e _ => hx.keeps e), hfirst]
    exact congrArg some (if_pos rfl)
  · rintro m' ⟨e, he, hholds⟩
    refine ⟨if e = r.record then merged else e, ?_, ?_⟩
    · rw [hx.map h, first_map (fun e _ => hx.keeps e), he]
      rfl
    · split
      · rename_i her
        rw [her] at hholds
        exact hholds.merged hx.identity hx.metadata hx.content
      · exact hholds
  · rcases hx.mem he with rfl | he
    · exact .inl ⟨r.record, hx.loaded, hx.sameId.symm, hexpired.symm⟩
    · exact .inl ⟨e, he, rfl, rfl⟩
  · rcases hx.mem he with rfl | he
    · rw [hx.metadata]
      exact howned r.record hx.loaded
    · exact howned e he

end

/-- **A record that is known is merged where it is.** -/
theorem mergeOne_step (h : Loaded limits st) {current : MemoryRecord}
    (hfirst : first st.existing m = some current) (hmerge : mergeOne current (arriving m) st = .ok st') :
    Loaded limits st' ∧ Stepped now m st st' := by
  have hin : current ∈ st.existing := List.mem_of_find?_eq_some hfirst
  have hidentity : identityOf current = incomingIdentity m := by
    simpa using List.find?_some hfirst
  obtain ⟨r, hr, rfl⟩ := h.row hin
  obtain ⟨hvalid, -, ⟨hsame, hexisting, hdb⟩ | ⟨hv, hexisting, hdb⟩⟩ := mergeOne_ok h hr hmerge
  · refine ⟨⟨?_, ?_, ?_, ?_⟩, .same hexisting hfirst hidentity (holds_merged hidentity hsame.symm rfl)⟩
    · rw [hexisting, hdb]
      exact h.rows
    · rw [hexisting]
      exact h.sorted
    · rw [hexisting]
      exact h.valid
    · rw [hexisting]
      exact h.room
  · have hx : Exchanged m st st' r _ := ⟨hr, hin, hidentity, rfl, hexisting, hdb⟩
    exact ⟨hx.kept h (validate_merged (h.valid _ hin) hvalid hv), hx.stepped h hfirst⟩

theorem maxId_le {r : MemoryRow} (hr : r ∈ db.rows) : r.id ≤ maxId db := by
  have hfold : ∀ (ids : List Int) (acc : Int), acc ≤ ids.foldl max acc ∧
      ∀ id ∈ ids, id ≤ ids.foldl max acc := by
    intro ids
    induction ids with
    | nil => exact fun acc => ⟨le_rfl, fun _ h => (nomatch h)⟩
    | cons id ids ih =>
      intro acc
      obtain ⟨hacc, hids⟩ := ih (max acc id)
      refine ⟨(le_max_left _ _).trans hacc, fun i hi => ?_⟩
      rcases List.mem_cons.mp hi with rfl | hi
      · exact (le_max_right _ _).trans hacc
      · exact hids i hi
  exact (hfold _ 0).2 r.id (List.mem_map_of_mem hr)

theorem insert_above {content identity : String} {row : MemoryRow}
    (h : insert limits content identity now db = .ok (row, db')) : ∀ r ∈ db.rows, r.id < row.id := by
  obtain ⟨-, h⟩ := refuseIf_bind h
  obtain ⟨-, h⟩ := refuseIf_bind h
  obtain ⟨-, h⟩ := refuseIf_bind h
  obtain ⟨id, hid, h⟩ := bind_ok h
  obtain ⟨inserted, hinsert, h⟩ := bind_ok h
  obtain ⟨triggered, htrigger, h⟩ := bind_ok h
  obtain ⟨loaded, hload, h⟩ := bind_ok h
  cases h
  obtain ⟨n, hn, hid⟩ := bind_ok hid
  obtain ⟨_, -, hid⟩ := bind_ok hid
  cases hid
  obtain ⟨rfl, -⟩ := next_ok hn
  have hrow : row.id = max db.nextId (maxId db + 1) := (find_some (reload_ok hload).1).2
  intro r hr
  have hle := maxId_le hr
  have hmax := le_max_right db.nextId (maxId db + 1)
  omega

/-- a record that is not known gets a row of its own, after the others -/
theorem admitOne_ok {metadata : MemoryMetadata} (hadd : admitOne limits env m metadata t st = .ok st') :
    ∃ (row : MemoryRow) (n : Int), st' = ⟨st.existing ++ [row.record],
        { st.report with inserted := st.report.inserted + 1 }, ⟨st.db.rows ++ [row], n⟩⟩ ∧
      row.content = m.content ∧ row.metadata =
        { metadata with ownershipId := some (ownership (env.draws st.report.inserted)) } ∧
      (∀ r ∈ st.db.rows, r.id < row.id) ∧ row.id + 1 ≤ i64Max ∧
      row.record.validate .local limits = .ok () ∧
      ∀ now, MemoryRecord.expired now row.record = MemoryRecord.expired now m := by
  obtain ⟨-, -, hadd⟩ := bind_ok hadd
  obtain ⟨⟨r, inserted⟩, hinsert, hadd⟩ := bind_ok hadd
  obtain ⟨-, hadd⟩ := refuseIf_bind hadd
  obtain ⟨row, hload, hadd⟩ := bind_ok hadd
  cases hadd
  have habove := insert_above hinsert
  obtain ⟨⟨hcontent, -, -, hroom⟩, hids, -, -, -, rfl⟩ := insert_ok hinsert
  obtain ⟨hfind, hvalid⟩ := reload_ok hload
  rw [saveMetadata, modify_modify, modify_append hids] at hfind
  rotate_left
  · exact fun _ => rfl
  rw [saveMetadata, modify_modify, modify_append hids]
  rotate_left
  · exact fun _ => rfl
  -- the row that is loaded is the last one
  obtain ⟨hmem, hid⟩ := find_some hfind
  rcases List.mem_append.mp hmem with hold | hlast
  · exact absurd hid (hids row hold)
  · cases List.mem_singleton.mp hlast
    exact ⟨_, _, rfl, hcontent, rfl, habove, hroom, hvalid, fun _ => rfl⟩

/-- **A record that is not known is stored under its identity.** -/
theorem admitOne_step (h : Loaded limits st) (hfirst : first st.existing m = none)
    (hadd : admitOne limits env m (arriving m) t st = .ok st') :
    Loaded limits st' ∧ Stepped now m st st' := by
  obtain ⟨row, n, rfl, hcontent, hmetadata, habove, hroom, hvalid, hexpired⟩ := admitOne_ok hadd
  have hidentity : identityOf row.record = incomingIdentity m := by
    show row.metadata.transferIdentity row.content none = _
    rw [hcontent, hmetadata, identity_arriving]
  have hnew : incomingIdentity m ∉ st.existing.map identityOf := by
    intro hmem
    obtain ⟨e, he, heq⟩ := List.mem_map.mp hmem
    have hnot := List.find?_eq_none.mp hfirst e he
    exact hnot (decide_eq_true heq)
  have hfound : ∀ m', first (st.existing ++ [row.record]) m' =
      (first st.existing m').or (first [row.record] m') := fun m' => List.find?_append ..
  refine ⟨⟨?_, ?_, ?_, ?_⟩, ?_, ?_, ?_, ?_, ?_⟩
  · show (st.existing ++ [row.record]).Perm ((st.db.rows ++ [row]).map MemoryRow.record)
    rw [List.map_append]
    exact h.rows.append_right _
  · refine List.pairwise_append.mpr ⟨h.sorted, List.pairwise_singleton _ _, fun a ha b hb => ?_⟩
    obtain ⟨r, hr, rfl⟩ := h.row ha
    cases List.mem_singleton.mp hb
    exact habove r hr
  · intro e he
    rcases List.mem_append.mp he with he | he
    · exact h.valid e he
    · cases List.mem_singleton.mp he
      exact hvalid
  · intro e he
    rcases List.mem_append.mp he with he | he
    · exact h.room e he
    · cases List.mem_singleton.mp he
      exact hroom
  · show (st.existing ++ [row.record]).map identityOf = _
    rw [List.map_append, List.map_singleton, hidentity, pushNew, if_neg hnew]
  · refine ⟨row.record, ?_, hidentity, fun key hkey => ?_, fun source hsource => ?_⟩
    · rw [hfound, hfirst, Option.none_or]
      exact List.find?_cons_of_pos (decide_eq_true hidentity)
    · show key ∈ row.metadata.importedFrom
      rw [hmetadata]
      exact hkey
    · show source ∈ row.metadata.transferredFrom
      rw [hmetadata]
      exact hsource
  · rintro m' ⟨e, he, hholds⟩
    exact ⟨e, by rw [hfound, he]; rfl, hholds⟩
  · intro e he
    rcases List.mem_append.mp he with he | he
    · exact .inl ⟨e, he, rfl, rfl⟩
    · cases List.mem_singleton.mp he
      exact .inr (hexpired now)
  · intro howned e he
    rcases List.mem_append.mp he with he | he
    · exact howned e he
    · cases List.mem_singleton.mp he
      show row.metadata.ownershipId ≠ none
      rw [hmetadata]
      exact Option.some_ne_none _

theorem importOne_step (h : Loaded limits st) (hone : importOne limits env t st m = .ok st') :
    Loaded limits st' ∧ Stepped now m st st' := by
  unfold importOne at hone
  split at hone
  · rename_i current hfind
    exact mergeOne_step h hfind hone
  · rename_i hnone
    exact admitOne_step h hnone hone

/-! ### an archive -/

/-- what an import of an archive leaves -/
structure Imported (limits : MemoryLimits) (now : Int) (ms : List MemoryRecord) (st st' : ImportState) :
    Prop where
  loaded : Loaded limits st'
  identities : st'.existing.map identityOf =
    (ms.map incomingIdentity).foldl pushNew (st.existing.map identityOf)
  held : ∀ m ∈ ms, ∃ e, first st'.existing m = some e ∧ Holds e m
  keeps : ∀ m, (∃ e, first st.existing m = some e ∧ Holds e m) →
    ∃ e, first st'.existing m = some e ∧ Holds e m
  probation : ∀ e ∈ st'.existing, (∃ e₀ ∈ st.existing, identityOf e₀ = identityOf e ∧
    MemoryRecord.expired now e₀ = MemoryRecord.expired now e) ∨
    ∃ m ∈ ms, MemoryRecord.expired now e = MemoryRecord.expired now m
  owned : (∀ e ∈ st.existing, e.metadata.ownershipId ≠ none) →
    ∀ e ∈ st'.existing, e.metadata.ownershipId ≠ none

theorem importAll_imported {ms : List MemoryRecord} (h : Loaded limits st)
    (hrun : ms.foldlM (importOne limits env t) st = .ok st') : Imported limits now ms st st' := by
  induction ms generalizing st with
  | nil =>
    cases hrun
    exact ⟨h, rfl, fun _ hm => (nomatch hm), fun _ hm => hm,
      fun e he => .inl ⟨e, he, rfl, rfl⟩, fun howned => howned⟩
  | cons m ms ih =>
    obtain ⟨mid, hone, hrun⟩ := bind_ok hrun
    obtain ⟨hmid, hstep⟩ : Loaded limits mid ∧ Stepped now m st mid := importOne_step h hone
    have hrest := ih hmid hrun
    refine ⟨hrest.loaded, ?_, fun x hx => ?_, fun x hx => hrest.keeps x (hstep.keeps x hx), fun e he => ?_,
      fun howned => hrest.owned (hstep.owned howned)⟩
    · rw [hrest.identities, hstep.identities]
      rfl
    · rcases List.mem_cons.mp hx with rfl | hx
      · exact hrest.keeps x hstep.held
      · exact hrest.held x hx
    · rcases hrest.probation e he with ⟨e₁, he₁, hid₁, hex₁⟩ | ⟨x, hx, hex⟩
      · rcases hstep.probation e₁ he₁ with ⟨e₀, he₀, hid₀, hex₀⟩ | hex₀
        · exact .inl ⟨e₀, he₀, hid₀.trans hid₁, hex₀.trans hex₁⟩
        · exact .inr ⟨m, List.mem_cons_self, hex₁.symm.trans hex₀⟩
      · exact .inr ⟨x, List.mem_cons_of_mem m hx, hex⟩

/-- **Records that are held are counted, and nothing is written.** -/
theorem importOne_first {limits : MemoryLimits} {env : MemoryEnv} {t : Int} {st : ImportState}
    (he : first st.existing m = some e) : importOne limits env t st m = mergeOne e (arriving m) st := by
  have hfound : (st.existing.find? fun r =>
      r.metadata.transferIdentity r.content none = incomingIdentity m) = some e := he
  rw [importOne, hfound]

theorem importAll_held {ms : List MemoryRecord}
    (hheld : ∀ m ∈ ms, ∃ e, first st.existing m = some e ∧ Holds e m)
    (hvalid : ∀ e ∈ st.existing, e.metadata.validate = .ok ()) :
    ms.foldlM (importOne limits env t) st = .ok { st with
      report := { st.report with skipped := st.report.skipped + ms.length } } := by
  induction ms generalizing st with
  | nil => rfl
  | cons m ms ih =>
    obtain ⟨e, he, hholds⟩ := hheld m List.mem_cons_self
    have hone : importOne limits env t st m = .ok { st with
        report := { st.report with skipped := st.report.skipped + 1 } } := by
      rw [importOne_first he]
      show mergeOne e (arriving m) st = _
      rw [mergeOne, hholds.mergeProvenance, hvalid e (List.mem_of_find?_eq_some he), ok_bind]
      exact if_pos rfl
    rw [List.foldlM_cons, hone, ok_bind]
    refine (@ih ⟨st.existing, ⟨st.report.inserted, st.report.skipped + 1⟩, st.db⟩
      (fun x hx => hheld x (List.mem_cons_of_mem m hx)) hvalid).trans ?_
    show Except.ok (ImportState.mk _ ⟨_, st.report.skipped + 1 + ms.length⟩ _) =
      Except.ok (ImportState.mk _ ⟨_, st.report.skipped + (ms.length + 1)⟩ _)
    rw [Nat.add_assoc, Nat.add_comm 1]

end

/-! ## an import, from its beginning -/

section
variable [Sha256] [MemoryText] {limits : MemoryLimits} {env : MemoryEnv} {now : Int}
  {ms : List MemoryRecord} {db db' opened : MemoryDb}

theorem openStore_ok (h : openStore db = .ok opened) :
    opened.rows = db.rows ∧ ∀ r ∈ db.rows, r.id + 1 ≤ i64Max := by
  obtain ⟨n, hn, h⟩ := bind_ok h
  cases h
  obtain ⟨rfl, hroom⟩ := next_ok hn
  refine ⟨rfl, fun r hr => ?_⟩
  have hle := maxId_le hr
  omega

theorem operate_ok {α : Type} {body : MemoryDb → Except MemoryError (α × MemoryDb)} {a : α}
    (h : operate env db body = (.ok a, db')) :
    ∃ opened, openStore db = .ok opened ∧ body opened = .ok (a, db') := by
  unfold operate at h
  cases hopen : openStore db with
  | error e =>
    rw [hopen] at h
    cases h
  | ok opened =>
    rw [hopen] at h
    have h : transaction env.commit body opened = (.ok a, db') := h
    rcases transaction_cases env.commit body opened with ⟨a', t, ht, heq⟩ | ⟨e, heq⟩
    · rw [heq] at h
      cases h
      exact ⟨opened, rfl, ht⟩
    · rw [heq] at h
      cases h

theorem operate_cases {α : Type} (env : MemoryEnv) (db : MemoryDb)
    (body : MemoryDb → Except MemoryError (α × MemoryDb)) :
    (∃ a, operate env db body = (.ok a, (operate env db body).2)) ∨
      (operate env db body).2.rows = db.rows := by
  unfold operate
  cases hopen : openStore db with
  | error e => exact .inr rfl
  | ok opened =>
    show (∃ a, transaction env.commit body opened = (.ok a, (transaction env.commit body opened).2)) ∨
      (transaction env.commit body opened).2.rows = db.rows
    rcases transaction_cases env.commit body opened with ⟨a, t, ht, heq⟩ | ⟨e, heq⟩
    · rw [heq]
      exact .inl ⟨a, rfl⟩
    · rw [heq]
      exact .inr (openStore_ok hopen).1

theorem loaded_filter (p : MemoryRecord → Bool) (hids : (db.rows.map MemoryRow.id).Nodup) (n : Int) :
    loaded ⟨db.rows.filter fun r => p r.record, n⟩ = (loaded db).filter p := by
  refine sorted_unique ?_ (loaded_sorted (hids.sublist (List.filter_sublist.map _))) ?_
  · refine (loaded_perm _).trans ?_
    show ((db.rows.filter (p ∘ MemoryRow.record)).map MemoryRow.record).Perm _
    rw [← List.filter_map]
    exact ((loaded_perm db).filter p).symm
  · exact (loaded_sorted hids).filter p

theorem loaded_rows (h : db.rows = db'.rows) : loaded db = loaded db' := by
  rw [loaded, h, loaded]

theorem importBody_start (hids : (db.rows.map MemoryRow.id).Nodup) (hopen : openStore db = .ok opened)
    {rows : List MemoryRow} (hload : loadAll limits (pruneExpired now opened) = .ok rows) :
    Loaded limits ⟨rows.map MemoryRow.record, ⟨0, 0⟩, pruneExpired now opened⟩ ∧
      rows.map MemoryRow.record = (loaded db).filter fun e => !MemoryRecord.expired now e := by
  obtain ⟨hrows, hroom⟩ := openStore_ok hopen
  obtain ⟨hloaded, hvalid⟩ := mapM_validateLoaded hload
  have hids' : ((pruneExpired now opened).rows.map MemoryRow.id).Nodup := by
    show ((opened.rows.filter _).map MemoryRow.id).Nodup
    rw [hrows]
    exact hids.sublist (List.filter_sublist.map _)
  have heq : rows.map MemoryRow.record = loaded (pruneExpired now opened) := by
    rw [hloaded]
    rfl
  refine ⟨⟨?_, ?_, ?_, ?_⟩, ?_⟩
  · show (rows.map _).Perm _
    rw [heq]
    exact loaded_perm _
  · show (rows.map _).Pairwise _
    rw [heq]
    exact loaded_sorted hids'
  · intro e he
    obtain ⟨r, hr, rfl⟩ := List.mem_map.mp he
    rw [hloaded] at hr
    exact hvalid r hr
  · intro e he
    obtain ⟨r, hr, rfl⟩ := List.mem_map.mp he
    rw [hloaded] at hr
    refine hroom r ?_
    rw [← hrows]
    exact (List.mem_filter.mp ((List.mergeSort_perm _ _).subset hr)).1
  · rw [heq]
    refine (@loaded_filter _ _ opened (fun e => !MemoryRecord.expired now e) ?_ _).trans ?_
    · rw [hrows]
      exact hids
    · rw [loaded_rows hrows]

/-- **An archive that was imported is held by the table.** -/
theorem importRecords_ok (hids : (db.rows.map MemoryRow.id).Nodup) {report : ImportReport}
    (h : importRecords limits env ms now db = (.ok report, db')) :
    checkAll (checkImported limits) ms = .ok () ∧ ∃ st st', (∀ later, Imported limits later ms st st') ∧
      st.existing = ((loaded db).filter fun e => !MemoryRecord.expired now e) ∧
      st'.existing = loaded db' ∧ st'.db = db' := by
  unfold importRecords at h
  cases hcheck : checkAll (checkImported limits) ms with
  | error e =>
    rw [hcheck] at h
    cases h
  | ok u =>
    rw [hcheck] at h
    obtain ⟨opened, hopen, hbody⟩ := operate_ok h
    obtain ⟨rows, hload, hbody⟩ := bind_ok hbody
    obtain ⟨st', hrun, hbody⟩ := bind_ok hbody
    cases hbody
    obtain ⟨hstart, heq⟩ := importBody_start hids hopen hload
    refine ⟨rfl, _, st', fun later => importAll_imported hstart hrun, heq, ?_, rfl⟩
    have himported : Imported limits now ms _ st' := importAll_imported hstart hrun
    exact himported.loaded.eq

theorem importRecords_cases (env : MemoryEnv) (ms : List MemoryRecord) (now : Int) (db : MemoryDb) :
    (∃ report, importRecords limits env ms now db = (.ok report, (importRecords limits env ms now db).2)) ∨
      (importRecords limits env ms now db).2.rows = db.rows := by
  unfold importRecords
  split
  · exact .inr rfl
  · exact operate_cases env db _

end

/-! ## an import that is repeated -/

section
variable [Sha256] [MemoryText] {limits : MemoryLimits} {env env' : MemoryEnv} {now now' : Int}
  {ms : List MemoryRecord} {db db' : MemoryDb} {st st' : ImportState}

theorem first_filter {l : List MemoryRecord} {p : MemoryRecord → Bool} {m e : MemoryRecord}
    (h : first l m = some e) (he : p e = true) : first (l.filter p) m = some e := by
  induction l with
  | nil => cases h
  | cons x l ih =>
    by_cases hx : identityOf x = incomingIdentity m
    · have hxe : x = e := by
        rw [first, List.find?_cons_of_pos (by simpa using hx)] at h
        exact Option.some.inj h
      rw [hxe, List.filter_cons_of_pos he, first, List.find?_cons_of_pos]
      rw [← hxe]
      exact decide_eq_true hx
    · have hrest : first l m = some e := by
        rw [first, List.find?_cons_of_neg (by simpa using hx)] at h
        exact h
      rw [List.filter_cons]
      split
      · rw [first, List.find?_cons_of_neg (by simpa using hx)]
        exact ih hrest
      · exact ih hrest

theorem validate_metadata {scope : MemoryRecordScope} {e : MemoryRecord}
    (h : e.validate scope limits = .ok ()) : e.metadata.validate = .ok () := by
  have hold := refuseIf_ok h
  simp only [not_or] at hold
  exact not_not.mp hold.2.2.2.2.2.2.2.2.2.2.2.2.2

/-- **Records that the table holds are counted, and the rows stay.** -/
theorem importRecords_held (hst : Loaded limits st) (hcheck : checkAll (checkImported limits) ms = .ok ())
    (hcommit : env'.commit = .ok ()) (hheld : ∀ m ∈ ms, ∃ e, first st.existing m = some e ∧ Holds e m ∧
      MemoryRecord.expired now' e = false) :
    ∃ n, importRecords limits env' ms now' st.db =
      (.ok ⟨0, ms.length⟩, ⟨st.db.rows.filter fun r => !expired now' r, n⟩) := by
  have hroom : ∀ r ∈ st.db.rows, r.id + 1 ≤ i64Max := fun r hr =>
    hst.room r.record (hst.rows.symm.subset (List.mem_map_of_mem hr))
  obtain ⟨n, hopen⟩ := openStore_room hroom
  have hvalid : ∀ r ∈ st.db.rows, r.record.validate .local limits = .ok () := fun r hr =>
    hst.valid r.record (hst.rows.symm.subset (List.mem_map_of_mem hr))
  obtain ⟨kept, hkept⟩ : ∃ kept : MemoryDb, kept = ⟨st.db.rows.filter fun r => !expired now' r, n⟩ :=
    ⟨_, rfl⟩
  have hload : loadAll limits kept = .ok (kept.rows.mergeSort fun a b => a.id ≤ b.id) := by
    refine mapM_validateLoaded_ok fun r hr => hvalid r ?_
    have hr := (List.mergeSort_perm _ _).subset hr
    rw [hkept] at hr
    exact (List.mem_filter.mp hr).1
  have hexisting : loaded kept = st.existing.filter fun e => !MemoryRecord.expired now' e := by
    rw [hkept, hst.eq]
    exact loaded_filter (fun e => !MemoryRecord.expired now' e) hst.rowIds n
  have hrun : ms.foldlM (importOne limits env' now') ⟨loaded kept, ⟨0, 0⟩, kept⟩ =
      .ok ⟨loaded kept, ⟨0, 0 + ms.length⟩, kept⟩ := by
    refine importAll_held (fun m hm => ?_) fun e he => ?_
    · obtain ⟨e, he, hholds, hlives⟩ := hheld m hm
      refine ⟨e, ?_, hholds⟩
      show first (loaded kept) m = some e
      rw [hexisting]
      refine first_filter he ?_
      rw [hlives]
      rfl
    · have he : e ∈ loaded kept := he
      rw [hexisting] at he
      exact validate_metadata (hst.valid e (List.mem_filter.mp he).1)
  have hbody : importBody limits env' ms now' ⟨st.db.rows, n⟩ = .ok (⟨0, ms.length⟩, kept) := by
    have hpruned : pruneExpired now' ⟨st.db.rows, n⟩ = kept := by
      rw [hkept]
      rfl
    rw [importBody, hpruned, hload, ok_bind]
    show (ms.foldlM (importOne limits env' now') ⟨loaded kept, ⟨0, 0⟩, kept⟩ >>= fun st =>
      Except.ok (st.report, st.db)) = _
    rw [hrun, ok_bind, Nat.zero_add]
  refine ⟨n, ?_⟩
  rw [importRecords, hcheck]
  show operate env' st.db _ = _
  rw [operate, hopen]
  show transaction env'.commit _ _ = _
  rw [transaction, hbody, hcommit, ← hkept]
  rfl

/-- **An archive that is imported again adds nothing, if the rows that hold it have not expired.** -/
theorem importRecords_again (hids : (db.rows.map MemoryRow.id).Nodup) {report : ImportReport}
    (h : importRecords limits env ms now db = (.ok report, db')) (hcommit : env'.commit = .ok ())
    (hms : ∀ m ∈ ms, MemoryRecord.expired now' m = false)
    (hrows : ∀ r ∈ loaded db, identityOf r ∈ ms.map incomingIdentity →
      MemoryRecord.expired now' r = false) :
    ∃ n, importRecords limits env' ms now' db' =
      (.ok ⟨0, ms.length⟩, ⟨db'.rows.filter fun r => !expired now' r, n⟩) := by
  obtain ⟨hcheck, st, st', himported, hstart, -, rfl⟩ := importRecords_ok hids h
  have hdone := himported now'
  refine importRecords_held hdone.loaded hcheck hcommit fun m hm => ?_
  obtain ⟨e, he, hholds⟩ := hdone.held m hm
  refine ⟨e, he, hholds, ?_⟩
  rcases hdone.probation e (List.mem_of_find?_eq_some he) with ⟨e₀, he₀, hid, hex⟩ | ⟨m', hm', hex⟩
  · rw [← hex]
    rw [hstart] at he₀
    refine hrows e₀ (List.mem_filter.mp he₀).1 ?_
    rw [hid, hholds.identity]
    exact List.mem_map_of_mem hm
  · rw [hex]
    exact hms m' hm'

end

/-! ## the owners -/

section
variable [Sha256] [MemoryText] {limits : MemoryLimits} {env : MemoryEnv} {now : Int}
  {db db' : MemoryDb} {r row : MemoryRow}

/-- rows with different identifiers, each with an owner -/
structure Keyed (db : MemoryDb) : Prop where
  ids : (db.rows.map MemoryRow.id).Nodup
  owned : ∀ r ∈ db.rows, r.metadata.ownershipId ≠ none

theorem Keyed.sub (h : Keyed db) (hsub : db'.rows.Sublist db.rows) : Keyed db' where
  ids := h.ids.sublist (hsub.map _)
  owned := fun r hr => h.owned r (hsub.subset hr)

theorem Keyed.same (h : Keyed db) (hrows : db'.rows = db.rows) : Keyed db' :=
  h.sub (hrows ▸ List.Sublist.refl _)

theorem Keyed.append (h : Keyed db) (hids : ∀ r ∈ db.rows, r.id ≠ row.id)
    (howner : row.metadata.ownershipId ≠ none) (n : Int) : Keyed ⟨db.rows ++ [row], n⟩ where
  ids := by
    rw [List.map_append, List.map_singleton]
    refine List.nodup_append.mpr ⟨h.ids, List.nodup_singleton _, fun a ha b hb => ?_⟩
    obtain ⟨r, hr, rfl⟩ := List.mem_map.mp ha
    rw [List.mem_singleton.mp hb]
    exact hids r hr
  owned := fun r hr => by
    rcases List.mem_append.mp hr with hr | hr
    · exact h.owned r hr
    · rw [List.mem_singleton.mp hr]
      exact howner

theorem Keyed.modify (h : Keyed db) {id : Int} {f : MemoryRow → MemoryRow} (hf : ∀ r, (f r).id = r.id)
    (howner : ∀ r ∈ db.rows, (f r).metadata.ownershipId ≠ none) : Keyed (modify id f db) where
  ids := by
    have hmap : (Memory.modify id f db).rows.map MemoryRow.id = db.rows.map MemoryRow.id := by
      show (db.rows.map _).map _ = _
      rw [List.map_map]
      refine List.map_congr_left fun r _ => ?_
      rw [Function.comp_apply]
      split
      · exact hf r
      · rfl
    rw [hmap]
    exact h.ids
  owned := fun r hr => by
    obtain ⟨s, hs, rfl⟩ := List.mem_map.mp hr
    split
    · exact howner s hs
    · exact h.owned s hs

theorem operate_keyed {α : Type} {body : MemoryDb → Except MemoryError (α × MemoryDb)} (h : Keyed db)
    (hbody : ∀ {db a db'}, Keyed db → body db = .ok (a, db') → Keyed db') :
    Keyed (operate env db body).2 := by
  rcases operate_cases env db body with ⟨a, hrun⟩ | hrows
  · obtain ⟨opened, hopen, hrun⟩ := operate_ok hrun
    exact hbody (h.same (openStore_ok hopen).1) hrun
  · exact h.same hrows

theorem pruneExpired_keyed (h : Keyed db) (now : Int) : Keyed (pruneExpired now db) :=
  h.sub List.filter_sublist

theorem putBody_keyed {content : String} {metadata : MemoryMetadata} {replacement : Option MemoryKey}
    {m : MemoryRecord} (h : Keyed db)
    (hput : putBody limits env content metadata replacement now db = .ok (m, db')) : Keyed db' := by
  have hpruned := pruneExpired_keyed h now
  obtain ⟨owner, -, hput⟩ := bind_ok hput
  obtain ⟨-, -, hput⟩ := bind_ok hput
  cases replacement with
  | none =>
    obtain ⟨⟨row, written⟩, hwrite, hput⟩ := bind_ok hput
    obtain ⟨reloaded, -, hput⟩ := bind_ok hput
    cases hput
    obtain ⟨-, hids, -, -, -, rfl⟩ := insert_ok hwrite
    rw [saveMetadata_append row _ _ hids]
    apply hpruned.append
    · exact hids
    · exact Option.some_ne_none _
  | some key =>
    obtain ⟨⟨row, written⟩, hwrite, hput⟩ := bind_ok hput
    obtain ⟨reloaded, -, hput⟩ := bind_ok hput
    cases hput
    obtain ⟨current, hmem, hid, -, hrow, -, -, -, -, -, f, rfl, hf, rfl⟩ := replace_ok hwrite
    rw [← hid, hrow, saveMetadata, modify_modify hf]
    exact hpruned.modify (fun r => hf r) fun _ _ => Option.some_ne_none _

theorem deleteBody_keyed {key : MemoryKey} {u : Unit} (h : Keyed db)
    (hdelete : deleteBody key db = .ok (u, db')) : Keyed db' := h.sub (deleteBody_ok hdelete).1

theorem countScan_keyed {key : MemoryKey} (h : Keyed db) (hscan : countScan now db key = .ok db') :
    Keyed db' := by
  obtain ⟨r, -, -, -, rfl⟩ := countScan_ok hscan
  exact h.modify (fun _ => rfl) h.owned

theorem readOne_keyed {repository : Option (Option String)} {reference : Int × Option Nat}
    {acc acc' : List Int × List MemoryRecord × MemoryDb} (h : Keyed acc.2.2)
    (hread : readOne limits now repository acc reference = .ok acc') : Keyed acc'.2.2 := by
  obtain ⟨seen, records, db⟩ := acc
  obtain ⟨found, -, hread⟩ := bind_ok hread
  cases found with
  | none =>
    cases hread
    exact h
  | some r =>
    simp only at hread
    split at hread
    · cases hread
      exact h
    · obtain ⟨-, hread⟩ := refuseIf_bind hread
      cases hread
      exact h.modify (fun _ => rfl) h.owned

theorem foldlM_keyed {α σ : Type} {f : σ → α → Except MemoryError σ} (table : σ → MemoryDb)
    (hstep : ∀ {s a t}, Keyed (table s) → f s a = .ok t → Keyed (table t)) {l : List α} {s t : σ}
    (h : Keyed (table s)) (hrun : l.foldlM f s = .ok t) : Keyed (table t) :=
  foldlM_rel (R := fun a b => Keyed (table a) → Keyed (table b)) (fun _ ha => ha)
    (fun hab hbc ha => hbc (hab ha)) (fun hs ha => hstep ha hs) hrun h

theorem importRecords_keyed (env : MemoryEnv) (ms : List MemoryRecord) (now : Int) (h : Keyed db) :
    Keyed (importRecords limits env ms now db).2 := by
  rcases importRecords_cases env ms now db with ⟨report, hrun⟩ | hrows
  · obtain ⟨-, st, st', himported, hstart, -, hdb⟩ := importRecords_ok h.ids hrun
    have hdone := himported now
    rw [← hdb]
    refine ⟨hdone.loaded.rowIds, fun r hr => ?_⟩
    refine hdone.owned (fun e he => ?_) r.record (hdone.loaded.rows.symm.subset (List.mem_map_of_mem hr))
    rw [hstart] at he
    obtain ⟨s, hs, rfl⟩ := List.mem_map.mp ((loaded_perm db).subset (List.mem_filter.mp he).1)
    exact h.owned s hs
  · exact h.same hrows

theorem syncOne_keyed {previous : List MemoryRecord} {m : MemoryRecord}
    {acc acc' : SyncReport × MemoryDb} (h : Keyed acc.2)
    (hsync : syncOne env previous acc m = .ok acc') : Keyed acc'.2 := by
  obtain ⟨-, hids, -, bytes, hdb⟩ := syncOne_ok hsync
  rw [hdb]
  refine h.append hids ?_ _
  show (owned (ownership bytes) m.metadata).ownershipId ≠ none
  unfold owned
  split
  · exact Option.some_ne_none _
  · assumption

theorem MemoryCall.run_keyed (call : MemoryCall) (h : Keyed db) : Keyed (call.run limits db) := by
  cases call with
  | put env content metadata replacement now =>
    show Keyed (Memory.put limits env content metadata replacement now db).2
    unfold Memory.put putMetadataLocal
    split
    · exact h
    · split
      · exact h
      · exact operate_keyed h putBody_keyed
  | delete env key =>
    show Keyed (Memory.delete env key db).2
    unfold Memory.delete
    split
    · exact h
    · exact operate_keyed h deleteBody_keyed
  | scan env query limit now repository =>
    show Keyed (Memory.scan limits env query limit now repository db).2
    unfold Memory.scan
    split
    · exact h
    · refine operate_keyed h fun {db keys db'} hkeyed hbody => ?_
      obtain ⟨rows, -, hbody⟩ := bind_ok hbody
      obtain ⟨counted, hcount, hbody⟩ := bind_ok hbody
      cases hbody
      exact foldlM_keyed id countScan_keyed (pruneExpired_keyed hkeyed now) hcount
  | read env references now repository =>
    refine operate_keyed h fun {db records db'} hkeyed hbody => ?_
    obtain ⟨acc, hrun, hbody⟩ := bind_ok hbody
    cases hbody
    exact foldlM_keyed (fun acc => acc.2.2) readOne_keyed (pruneExpired_keyed hkeyed now) hrun
  | list env now =>
    refine operate_keyed h fun {db records db'} hkeyed hbody => ?_
    obtain ⟨rows, -, hbody⟩ := bind_ok hbody
    cases hbody
    exact pruneExpired_keyed hkeyed now
  | importRecords env ms now => exact importRecords_keyed env ms now h
  | mergeRemoteExport env ms now =>
    show Keyed (Memory.mergeRemoteExport limits env ms now db).2
    unfold Memory.mergeRemoteExport
    split
    · exact h
    · split
      · exact h
      · exact importRecords_keyed env ms now h
  | sync env ms now =>
    show Keyed (syncSnapshot limits env ms now db).2
    unfold syncSnapshot
    split
    · exact h
    · refine operate_keyed h fun {db report db'} hkeyed hbody => ?_
      obtain ⟨existing, -, hbody⟩ := bind_ok hbody
      refine foldlM_keyed Prod.snd syncOne_keyed ?_ hbody
      exact ⟨List.nodup_nil, fun _ hr => (nomatch hr)⟩

/-- **Every row of every store has an identifier and an owner of its own.** -/
theorem runCalls_keyed (limits : MemoryLimits) (calls : List MemoryCall) : Keyed (runCalls limits calls) := by
  have hrun : ∀ (calls : List MemoryCall) (db : MemoryDb), Keyed db →
      Keyed (calls.foldl (MemoryCall.run limits) db) := by
    intro calls
    induction calls with
    | nil => exact fun _ h => h
    | cons call calls ih => exact fun db h => ih _ (call.run_keyed h)
  exact hrun calls MemoryDb.empty ⟨List.nodup_nil, fun _ hr => (nomatch hr)⟩

end

/-! ## through other stores and back -/

section
variable [Sha256] [MemoryText] {limits : MemoryLimits} {db : MemoryDb} {r m e : MemoryRecord}

/-- an operation by which records leave the store or come to it -/
def MemoryCall.isTransfer : MemoryCall → Bool
  | .list _ _ => true
  | .importRecords _ _ _ => true
  | .mergeRemoteExport _ _ _ => true
  | _ => false

/-- a record of an archive that `r` has become, after some local stores have imported it and have
exported again what holds it -/
inductive Carried (limits : MemoryLimits) (r : MemoryRecord) : MemoryRecord → Prop
  | exported : Carried limits r r
  | hop {m e : MemoryRecord} {ms : List MemoryRecord} {env : MemoryEnv} {now : Int}
      {before after : List MemoryCall} (hcarried : Carried limits r m) (hm : m ∈ ms)
      (he : e ∈ loaded (runCalls limits (before ++ .importRecords env ms now :: after)))
      (hholds : Holds e m) : Carried limits r e

theorem incomingIdentity_loaded (h : Keyed db) (he : e ∈ loaded db) : incomingIdentity e = identityOf e := by
  obtain ⟨row, hrow, rfl⟩ := List.mem_map.mp ((loaded_perm db).subset he)
  exact incomingIdentity_stored (h.owned row hrow) rfl

/-- **However far it is carried, a record keeps its identity.** -/
theorem Carried.identity (h : Carried limits r m) (hkeyed : Keyed db) (hr : r ∈ loaded db) :
    incomingIdentity m = identityOf r := by
  induction h with
  | exported => exact incomingIdentity_loaded hkeyed hr
  | hop hcarried hm he hholds ih =>
    rw [incomingIdentity_loaded (runCalls_keyed limits _) he, hholds.identity]
    exact ih

theorem count_foldl_pushNew_le {α : Type} [DecidableEq α] (l m : List α) (b : α) :
    (m.foldl pushNew l).count b ≤ max 1 (l.count b) := by
  induction m generalizing l with
  | nil => exact le_max_right _ _
  | cons a m ih =>
    have hstep := count_pushNew_le l a b
    have hrest := ih (pushNew l a)
    rw [List.foldl_cons]
    omega

/-- how many records have the identity -/
def known (db : MemoryDb) (identity : String) : Nat := ((loaded db).map identityOf).count identity

theorem known_rows {db db' : MemoryDb} (h : db'.rows = db.rows) (identity : String) :
    known db' identity = known db identity := by
  rw [known, loaded_rows h, known]

theorem known_prune (hids : (db.rows.map MemoryRow.id).Nodup) (now : Int) (identity : String) :
    known (pruneExpired now db) identity ≤ known db identity := by
  have hloaded : loaded (pruneExpired now db) = (loaded db).filter fun e => !MemoryRecord.expired now e :=
    loaded_filter (fun e => !MemoryRecord.expired now e) hids db.nextId
  rw [known, hloaded]
  exact (List.filter_sublist.map _).count_le _

theorem known_import (hids : (db.rows.map MemoryRow.id).Nodup) (env : MemoryEnv) (ms : List MemoryRecord)
    (now : Int) (identity : String) :
    known (importRecords limits env ms now db).2 identity ≤ max 1 (known db identity) := by
  rcases importRecords_cases env ms now db with ⟨report, hrun⟩ | hrows
  · obtain ⟨-, st, st', himported, hstart, hend, -⟩ := importRecords_ok hids hrun
    have hold : (st.existing.map identityOf).count identity ≤ known db identity := by
      rw [hstart]
      exact (List.filter_sublist.map _).count_le _
    have hnew := count_foldl_pushNew_le (st.existing.map identityOf) (ms.map incomingIdentity) identity
    rw [← (himported now).identities, hend] at hnew
    exact hnew.trans (max_le (le_max_left _ _) (hold.trans (le_max_right _ _)))
  · exact (known_rows hrows identity).le.trans (le_max_right _ _)

theorem MemoryCall.known_le (call : MemoryCall) (h : Keyed db) (hcall : call.isTransfer = true)
    (identity : String) : known (call.run limits db) identity ≤ max 1 (known db identity) := by
  cases call with
  | list env now =>
    show known (operate env db _).2 identity ≤ _
    rcases operate_cases env db (fun db => do
      let db := pruneExpired now db
      let rows ← loadAll limits db
      .ok ((rows.filter (visible none)).map MemoryRow.record, db)) with ⟨a, hrun⟩ | hrows
    · obtain ⟨opened, hopen, hbody⟩ := operate_ok hrun
      obtain ⟨rows, -, hbody⟩ := bind_ok hbody
      have hdb := congrArg Prod.snd (Except.ok.inj hbody)
      have hrows := (openStore_ok hopen).1
      rw [← hdb]
      refine ((known_prune ?_ now identity).trans (known_rows hrows identity).le).trans (le_max_right _ _)
      rw [hrows]
      exact h.ids
    · exact (known_rows hrows identity).le.trans (le_max_right _ _)
  | importRecords env ms now => exact known_import h.ids env ms now identity
  | mergeRemoteExport env ms now =>
    show known (Memory.mergeRemoteExport limits env ms now db).2 identity ≤ _
    unfold Memory.mergeRemoteExport
    split
    · exact le_max_right _ _
    · split
      · exact le_max_right _ _
      · exact known_import h.ids env ms now identity
  | put env content metadata replacement now => cases hcall
  | delete env key => cases hcall
  | scan env query limit now repository => cases hcall
  | read env references now repository => cases hcall
  | sync env ms now => cases hcall

theorem known_transfers {transfers : List MemoryCall} (h : Keyed db)
    (htransfers : ∀ call ∈ transfers, call.isTransfer = true) (identity : String) :
    known (transfers.foldl (MemoryCall.run limits) db) identity ≤ max 1 (known db identity) := by
  induction transfers generalizing db with
  | nil => exact le_max_right _ _
  | cons call transfers ih =>
    obtain ⟨hcall, hrest⟩ := List.forall_mem_cons.mp htransfers
    have hone : known (call.run limits db) identity ≤ max 1 (known db identity) :=
      call.known_le h hcall identity
    have hkeyed : Keyed (call.run limits db) := call.run_keyed h
    exact (ih hkeyed hrest).trans (max_le (le_max_left _ _) hone)

/-- **An archive that is imported is held, and importing it again adds nothing and changes no row, if
the rows that hold its records have not expired.  However many local stores a record has been carried
through, it keeps its identity, and no store that it comes back to has more records of that identity
than before.** -/
theorem memory_transfers (limits : MemoryLimits) (calls : List MemoryCall) :
    (∀ env ms now report db', importRecords limits env ms now (runCalls limits calls) =
        (.ok report, db') → (∀ m ∈ ms, ∃ e ∈ loaded db', Holds e m) ∧
      ∀ env' now', env'.commit = .ok () → (∀ m ∈ ms, MemoryRecord.expired now' m = false) →
        (∀ r ∈ loaded (runCalls limits calls), identityOf r ∈ ms.map incomingIdentity →
          MemoryRecord.expired now' r = false) →
        ∃ n, importRecords limits env' ms now' db' =
          (.ok ⟨0, ms.length⟩, ⟨db'.rows.filter fun r => !expired now' r, n⟩)) ∧
    ∀ transfers : List MemoryCall, (∀ call ∈ transfers, call.isTransfer = true) →
      ∀ r ∈ loaded (runCalls limits calls),
        (∀ m, Carried limits r m → incomingIdentity m = identityOf r ∧
          ∀ e ∈ loaded (transfers.foldl (MemoryCall.run limits) (runCalls limits calls)),
            Holds e m → identityOf e = identityOf r) ∧
        known (transfers.foldl (MemoryCall.run limits) (runCalls limits calls)) (identityOf r) ≤
          known (runCalls limits calls) (identityOf r) := by
  have hkeyed := runCalls_keyed limits calls
  refine ⟨fun env ms now report db' himport => ⟨fun m hm => ?_, fun env' now' hcommit hms hrows => ?_⟩,
    fun transfers htransfers r hr => ⟨fun m hcarried => ?_, ?_⟩⟩
  · obtain ⟨-, st, st', himported, -, hend, -⟩ := importRecords_ok hkeyed.ids himport
    obtain ⟨e, he, hholds⟩ := (himported now).held m hm
    rw [hend] at he
    exact ⟨e, List.mem_of_find?_eq_some he, hholds⟩
  · exact importRecords_again hkeyed.ids himport hcommit hms hrows
  · have hidentity := hcarried.identity hkeyed hr
    exact ⟨hidentity, fun e _ hholds => hholds.identity.trans hidentity⟩
  · have hthere : 1 ≤ known (runCalls limits calls) (identityOf r) :=
      List.count_pos_iff.mpr (List.mem_map_of_mem hr)
    exact (known_transfers hkeyed htransfers (identityOf r)).trans (max_eq_right hthere).le

end

namespace MemorySample

/-- a note of the local store, as it is exported -/
def note : MemoryRecord :=
  ⟨{ MemoryMetadata.default with ownershipId := some (ownership 0) }, ⟨1, 1, none⟩, "note", 0, 0, none, 0,
    none, 0, some MemoryLimits.production.probationDurationMs⟩

/-- the note, after it was read in another store that has taken it over -/
def noteRead : MemoryRecord :=
  { note with useCount := 1, lastUsedAtMs := some 0, probationUntilMs := none }

/-- the note, as a server returns it under a name space -/
def notePulled : MemoryRecord := { note with key := ⟨1, 1, some "alice"⟩ }

def noteStore : MemoryDb := runCalls MemoryLimits.production [.put env "note" MemoryMetadata.default none 0]

end MemorySample

open MemorySample

/-- a row that expires between two imports is inserted by the second one, and a record that was pushed
under a name space is another one when it is pulled -/
theorem memory_transfers_repeat :
    loaded noteStore = [note] ∧
    (importRecords MemoryLimits.production env [noteRead] 1 noteStore).1.toOption = some ⟨0, 1⟩ ∧
    (importRecords MemoryLimits.production env [noteRead] MemoryLimits.production.probationDurationMs
      (importRecords MemoryLimits.production env [noteRead] 1 noteStore).2).1.toOption = some ⟨1, 0⟩ ∧
    ((mergeRemoteExport MemoryLimits.production env [notePulled] 1 noteStore).2.rows.map
      fun r => r.content) = ["note", "note"] := by
  decide +kernel

end Memory

end Orvek
