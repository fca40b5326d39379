import Orvek.Memory.Store
import Mathlib.Data.List.Nodup
import Mathlib.Logic.Relation
import Mathlib.Order.Lattice

/-!
# The invariant of the memory store

Every operation except a sync is a sequence of three kinds of changes: rows are dropped, a row is
added under an identifier that was never used, a row is changed in place.

* `Kept`                the invariant of the table;
* `Change`              one change, with what the operation has checked for it;
* `Kept.change`         a change keeps the invariant;
* `putBody_changes`, …  every operation is a sequence of changes.
-/

set_option linter.unusedSectionVars false

namespace Orvek
open Checks Json
namespace Memory

/-! ## looking up -/

section
variable {db : MemoryDb} {id : Int} {r old : MemoryRow} {f g : MemoryRow → MemoryRow}

theorem find_some (h : find id db = some r) : r ∈ db.rows ∧ r.id = id :=
  ⟨List.mem_of_find?_eq_some h, by simpa using List.find?_some h⟩

theorem find_none (h : find id db = none) : ∀ r ∈ db.rows, r.id ≠ id := fun r hr heq =>
  List.find?_eq_none.mp h r hr (decide_eq_true heq)

theorem row_unique (hids : (db.rows.map MemoryRow.id).Nodup) (hr : r ∈ db.rows) (hold : old ∈ db.rows)
    (h : r.id = old.id) : r = old :=
  List.inj_on_of_nodup_map hids hr hold h

theorem find_of_mem (hids : (db.rows.map MemoryRow.id).Nodup) (hr : r ∈ db.rows) :
    find r.id db = some r := by
  cases hfind : find r.id db with
  | none => exact absurd rfl (find_none hfind r hr)
  | some s =>
    obtain ⟨hs, hid⟩ := find_some hfind
    rw [row_unique hids hs hr hid]

theorem find_append {row : MemoryRow} {n : Int} (h : ∀ r ∈ db.rows, r.id ≠ row.id) :
    find row.id ⟨db.rows ++ [row], n⟩ = some row := by
  have hnone : db.rows.find? (fun r => decide (r.id = row.id)) = none := by
    rw [List.find?_eq_none]
    intro r hr hdec
    exact h r hr (of_decide_eq_true hdec)
  show (db.rows ++ [row]).find? _ = some row
  rw [List.find?_append, hnone, Option.none_or, List.find?_cons_of_pos (by simp)]

theorem find_modify (hf : ∀ r, (f r).id = r.id) : find id (modify id f db) = (find id db).map f := by
  obtain ⟨rows, n⟩ := db
  show (rows.map _).find? _ = (rows.find? _).map f
  induction rows with
  | nil => rfl
  | cons r rows ih =>
    rw [List.map_cons]
    by_cases h : r.id = id
    · rw [if_pos h, List.find?_cons_of_pos (by simpa using (hf r).trans h),
        List.find?_cons_of_pos (by simpa using h)]
      rfl
    · rw [if_neg h, List.find?_cons_of_neg (by simpa using h), List.find?_cons_of_neg (by simpa using h), ih]

theorem modify_modify (hf : ∀ r, (f r).id = r.id) :
    modify id g (modify id f db) = modify id (fun r => g (f r)) db := by
  show MemoryDb.mk ((db.rows.map _).map _) _ = MemoryDb.mk (db.rows.map _) _
  rw [List.map_map]
  congr 1
  refine List.map_congr_left fun r _ => ?_
  show (if (if r.id = id then f r else r).id = id then g (if r.id = id then f r else r)
    else if r.id = id then f r else r) = if r.id = id then g (f r) else r
  by_cases h : r.id = id
  · rw [if_pos h, if_pos ((hf r).trans h), if_pos h]
  · rw [if_neg h, if_neg h, if_neg h]

theorem modify_const (hids : (db.rows.map MemoryRow.id).Nodup) (hold : old ∈ db.rows) :
    modify old.id f db = modify old.id (fun _ => f old) db := by
  show MemoryDb.mk (db.rows.map _) _ = MemoryDb.mk (db.rows.map _) _
  congr 1
  refine List.map_congr_left fun r hr => ?_
  by_cases h : r.id = old.id
  · rw [if_pos h, if_pos h, row_unique hids hr hold h]
  · rw [if_neg h, if_neg h]

theorem modify_append {row : MemoryRow} {n : Int} (h : ∀ r ∈ db.rows, r.id ≠ row.id) :
    modify row.id f ⟨db.rows ++ [row], n⟩ = ⟨db.rows ++ [f row], n⟩ := by
  show MemoryDb.mk ((db.rows ++ [row]).map _) n = _
  rw [List.map_append, List.map_singleton, if_pos rfl]
  congr 2
  conv_rhs => rw [← List.map_id db.rows]
  exact List.map_congr_left fun r hr => if_neg (h r hr)

theorem saveMetadata_append (row : MemoryRow) (m : MemoryMetadata) (n : Int)
    (h : ∀ r ∈ db.rows, r.id ≠ row.id) :
    saveMetadata row.id m ⟨db.rows ++ [row], n⟩ = ⟨db.rows ++ [{ row with metadata := m }], n⟩ :=
  modify_append h

theorem save_modify (m : MemoryMetadata) (hids : (db.rows.map MemoryRow.id).Nodup)
    (hold : old ∈ db.rows) (hf : ∀ r, (f r).id = r.id) :
    saveMetadata old.id m (modify old.id f db) =
        modify old.id (fun _ => { f old with metadata := m }) db ∧
      find old.id (modify old.id (fun _ => { f old with metadata := m }) db) =
        some { f old with metadata := m } := by
  have hboth : saveMetadata old.id m (modify old.id f db) =
      modify old.id (fun r => { f r with metadata := m }) db := modify_modify hf
  have hconst : modify old.id (fun r => { f r with metadata := m }) db =
      modify old.id (fun _ => { f old with metadata := m }) db := modify_const hids hold
  refine ⟨hboth.trans hconst, ?_⟩
  rw [← hconst, find_modify (f := fun r => { f r with metadata := m }) hf, find_of_mem hids hold]
  rfl

theorem mem_modify {new : MemoryRow} (h : r ∈ (modify id (fun _ => new) db).rows) :
    r = new ∨ (r ∈ db.rows ∧ r.id ≠ id) := by
  obtain ⟨s, hs, rfl⟩ := List.mem_map.mp h
  by_cases hid : s.id = id
  · exact .inl (if_pos hid)
  · rw [if_neg hid]
    exact .inr ⟨hs, hid⟩

theorem identityExists_none {identity : String} (h : ¬ identityExists identity none db = true) :
    ∀ r ∈ db.rows, r.normalizedIdentity ≠ identity := by
  intro r hr heq
  refine h (List.any_eq_true.mpr ⟨r, hr, ?_⟩)
  simp [heq]

theorem identityExists_some {identity : String} (h : ¬ identityExists identity (some id) db = true) :
    ∀ r ∈ db.rows, r.id ≠ id → r.normalizedIdentity ≠ identity := by
  intro r hr hid heq
  refine h (List.any_eq_true.mpr ⟨r, hr, ?_⟩)
  simp [heq, hid]

end

/-! ## bytes -/

theorem totalBytes_append (rows : List MemoryRow) (row : MemoryRow) :
    totalBytes (rows ++ [row]) = totalBytes rows + strLen row.content := by
  simp [totalBytes]

theorem totalBytes_sublist {rows rows' : List MemoryRow} (h : rows'.Sublist rows) :
    totalBytes rows' ≤ totalBytes rows := by
  induction h with
  | slnil => exact le_rfl
  | cons r _ ih => exact ih.trans (Nat.le_add_left _ _)
  | cons_cons r _ ih => exact Nat.add_le_add_left ih _

theorem totalBytes_modify {db : MemoryDb} {old : MemoryRow} (new : MemoryRow)
    (hids : (db.rows.map MemoryRow.id).Nodup) (hold : old ∈ db.rows) :
    totalBytes (modify old.id (fun _ => new) db).rows + strLen old.content =
      totalBytes db.rows + strLen new.content := by
  obtain ⟨rows, n⟩ := db
  show totalBytes (rows.map _) + _ = totalBytes rows + _
  induction rows with
  | nil => cases hold
  | cons r rows ih =>
    obtain ⟨hfresh, hids⟩ := List.nodup_cons.mp hids
    rw [List.map_cons]
    show strLen (if r.id = old.id then new else r).content + totalBytes (rows.map _) + _ =
      strLen r.content + totalBytes rows + _
    rcases List.mem_cons.mp hold with rfl | hold
    · rw [if_pos rfl]
      have hrest : rows.map (fun r => if r.id = old.id then new else r) = rows := by
        conv_rhs => rw [← List.map_id rows]
        refine List.map_congr_left fun s hs => if_neg fun heq => hfresh ?_
        exact List.mem_map.mpr ⟨s, hs, heq⟩
      rw [hrest]
      omega
    · have hne : r.id ≠ old.id := fun heq => hfresh (List.mem_map.mpr ⟨old, hold, heq.symm⟩)
      rw [if_neg hne]
      have := ih hids hold
      omega

/-! ## the invariant -/

section
variable [Sha256] [MemoryText] {limits : MemoryLimits} {db db' : MemoryDb}

/-- a row that is valid, under the identity of what it holds -/
structure RowKept (limits : MemoryLimits) (r : MemoryRow) : Prop where
  valid : r.record.validate .local limits = .ok ()
  identity : r.normalizedIdentity = r.metadata.identity r.content

/-- the table as every operation leaves it -/
structure Kept (limits : MemoryLimits) (db : MemoryDb) : Prop where
  rows : ∀ r ∈ db.rows, RowKept limits r
  ids : (db.rows.map MemoryRow.id).Nodup
  identities : (db.rows.map MemoryRow.normalizedIdentity).Nodup
  count : db.rows.length ≤ limits.records
  bytes : totalBytes db.rows ≤ limits.totalContentBytes
  next : ∀ r ∈ db.rows, r.id < db.nextId
  room : db.nextId ≤ i64Max

theorem Kept.empty (limits : MemoryLimits) : Kept limits MemoryDb.empty where
  rows := fun _ h => nomatch h
  ids := List.nodup_nil
  identities := List.nodup_nil
  count := Nat.zero_le _
  bytes := Nat.zero_le _
  next := fun _ h => nomatch h
  room := by decide

/-- one change of the table, with what has been checked for it -/
inductive Change (limits : MemoryLimits) (db : MemoryDb) : MemoryDb → Prop
  | drop {rows : List MemoryRow} {nextId : Int} (hrows : rows.Sublist db.rows)
      (hnext : db.nextId ≤ nextId) (hroom : nextId ≤ i64Max) : Change limits db ⟨rows, nextId⟩
  | add {row : MemoryRow} {nextId : Int} (hid : db.nextId ≤ row.id) (hnext : row.id < nextId)
      (hroom : nextId ≤ i64Max) (hrow : RowKept limits row)
      (hfree : ∀ r ∈ db.rows, r.normalizedIdentity ≠ row.normalizedIdentity)
      (hcount : db.rows.length < limits.records)
      (hbytes : totalBytes db.rows + strLen row.content ≤ limits.totalContentBytes) :
      Change limits db ⟨db.rows ++ [row], nextId⟩
  /-- what a key of the row denotes stays, or the version grows -/
  | alter {old new : MemoryRow} (hold : old ∈ db.rows) (hid : new.id = old.id)
      (hrow : RowKept limits new)
      (hfree : ∀ r ∈ db.rows, r.id ≠ old.id → r.normalizedIdentity ≠ new.normalizedIdentity)
      (hbytes : totalBytes db.rows + strLen new.content ≤
        limits.totalContentBytes + strLen old.content)
      (hversion : (new.version = old.version ∧ new.content = old.content ∧
        new.metadata = old.metadata) ∨ old.version < new.version) :
      Change limits db (modify old.id (fun _ => new) db)

theorem Kept.add (h : Kept limits db) {row : MemoryRow} {nextId : Int}
    (hid : ∀ r ∈ db.rows, r.id ≠ row.id) (hle : db.nextId ≤ nextId) (hnext : row.id < nextId)
    (hroom : nextId ≤ i64Max) (hrow : RowKept limits row)
    (hfree : ∀ r ∈ db.rows, r.normalizedIdentity ≠ row.normalizedIdentity)
    (hcount : db.rows.length < limits.records)
    (hbytes : totalBytes db.rows + strLen row.content ≤ limits.totalContentBytes) :
    Kept limits ⟨db.rows ++ [row], nextId⟩ where
  rows := by
    intro r hr
    rcases List.mem_append.mp hr with hr | hr
    · exact h.rows r hr
    · rw [List.mem_singleton.mp hr]
      exact hrow
  ids := by
    rw [List.map_append, List.map_singleton]
    refine List.nodup_append.mpr ⟨h.ids, List.nodup_singleton _, ?_⟩
    intro a ha b hb
    obtain ⟨r, hr, rfl⟩ := List.mem_map.mp ha
    rw [List.mem_singleton.mp hb]
    exact hid r hr
  identities := by
    rw [List.map_append, List.map_singleton]
    refine List.nodup_append.mpr ⟨h.identities, List.nodup_singleton _, ?_⟩
    intro a ha b hb
    obtain ⟨r, hr, rfl⟩ := List.mem_map.mp ha
    rw [List.mem_singleton.mp hb]
    exact hfree r hr
  count := by
    rw [List.length_append, List.length_singleton]
    exact hcount
  bytes := (totalBytes_append db.rows row).le.trans hbytes
  next := by
    intro r hr
    rcases List.mem_append.mp hr with hr | hr
    · exact lt_of_lt_of_le (h.next r hr) hle
    · rw [List.mem_singleton.mp hr]
      exact hnext
  room := hroom

/-- **A change keeps the invariant.** -/
theorem Kept.change (h : Kept limits db) (hchange : Change limits db db') : Kept limits db' := by
  cases hchange with
  | drop hrows hnext hroom =>
    exact {
      rows := fun r hr => h.rows r (hrows.subset hr)
      ids := h.ids.sublist (hrows.map _)
      identities := h.identities.sublist (hrows.map _)
      count := hrows.length_le.trans h.count
      bytes := (totalBytes_sublist hrows).trans h.bytes
      next := fun r hr => lt_of_lt_of_le (h.next r (hrows.subset hr)) hnext
      room := hroom }
  | add hid hnext hroom hrow hfree hcount hbytes =>
    refine h.add (fun r hr => ?_) (hid.trans hnext.le) hnext hroom hrow hfree hcount hbytes
    exact (lt_of_lt_of_le (h.next r hr) hid).ne
  | @alter old new hold hid hrow hfree hbytes hversion =>
    have hmap : (modify old.id (fun _ => new) db).rows.map MemoryRow.id = db.rows.map MemoryRow.id := by
      show (db.rows.map _).map _ = _
      rw [List.map_map]
      refine List.map_congr_left fun r _ => ?_
      show (if r.id = old.id then new else r).id = r.id
      by_cases hr : r.id = old.id
      · rw [if_pos hr, hid, hr]
      · rw [if_neg hr]
    exact {
      rows := fun r hr => by
        rcases mem_modify hr with rfl | ⟨hr, -⟩
        · exact hrow
        · exact h.rows r hr
      ids := by
        rw [hmap]
        exact h.ids
      identities := by
        show ((db.rows.map _).map _).Nodup
        rw [List.map_map]
        refine List.Nodup.map_on ?_ (List.Nodup.of_map _ h.ids)
        intro r hr s hs heq
        have heq : (if r.id = old.id then new else r).normalizedIdentity =
          (if s.id = old.id then new else s).normalizedIdentity := heq
        by_cases hro : r.id = old.id <;> by_cases hso : s.id = old.id
        · exact row_unique h.ids hr hs (hro.trans hso.symm)
        · rw [if_pos hro, if_neg hso] at heq
          exact absurd heq.symm (hfree s hs hso)
        · rw [if_neg hro, if_pos hso] at heq
          exact absurd heq (hfree r hr hro)
        · rw [if_neg hro, if_neg hso] at heq
          exact List.inj_on_of_nodup_map h.identities hr hs heq
      count := by
        show (db.rows.map _).length ≤ _
        rw [List.length_map]
        exact h.count
      bytes := by
        have := totalBytes_modify new h.ids hold
        omega
      next := fun r hr => by
        rcases mem_modify hr with rfl | ⟨hr, -⟩
        · rw [hid]
          exact h.next old hold
        · exact h.next r hr
      room := h.room }

abbrev Changes (limits : MemoryLimits) : MemoryDb → MemoryDb → Prop :=
  Relation.ReflTransGen (Change limits)

theorem Kept.changes (h : Kept limits db) (hchanges : Changes limits db db') : Kept limits db' := by
  induction hchanges with
  | refl => exact h
  | tail _ hchange ih => exact ih.change hchange

/-! ## the parts of an operation -/

section
variable {r row : MemoryRow} {id : Int} {content identity : String} {now : Int}

theorem next_ok {n m : Int} (h : next n = .ok m) : m = n + 1 ∧ m ≤ i64Max := by
  unfold next at h
  split at h
  · cases h
    exact ⟨rfl, by assumption⟩
  · cases h

theorem openStore_room (h : ∀ r ∈ db.rows, r.id + 1 ≤ i64Max) : ∃ n, openStore db = .ok ⟨db.rows, n⟩ := by
  have hfold : ∀ (ids : List Int) (acc : Int), acc + 1 ≤ i64Max → (∀ id ∈ ids, id + 1 ≤ i64Max) →
      ids.foldl max acc + 1 ≤ i64Max := by
    intro ids
    induction ids with
    | nil => exact fun _ hacc _ => hacc
    | cons id ids ih =>
      intro acc hacc hids
      obtain ⟨hid, hids⟩ := List.forall_mem_cons.mp hids
      refine ih _ ?_ hids
      rcases le_total acc id with h | h
      · rw [max_eq_right h]
        exact hid
      · rw [max_eq_left h]
        exact hacc
  have hroom : maxId db + 1 ≤ i64Max := by
    refine hfold _ 0 (by decide) fun id hid => ?_
    obtain ⟨r, hr, rfl⟩ := List.mem_map.mp hid
    exact h r hr
  refine ⟨max db.nextId (maxId db + 1), ?_⟩
  rw [openStore, next, if_pos hroom]
  rfl

theorem openStore_changes (h : Kept limits db) (hopen : openStore db = .ok db') :
    Changes limits db db' := by
  obtain ⟨n, hn, hdb⟩ := bind_ok hopen
  cases hdb
  exact .single (.drop (List.Sublist.refl _) (le_max_left _ _) (max_le h.room (next_ok hn).2))

theorem pruneExpired_changes (h : Kept limits db) (now : Int) :
    Changes limits db (pruneExpired now db) :=
  .single (.drop List.filter_sublist le_rfl h.room)

theorem operate_changes {α : Type} {env : MemoryEnv}
    {body : MemoryDb → Except MemoryError (α × MemoryDb)} (h : Kept limits db)
    (hbody : ∀ {db a db'}, Kept limits db → body db = .ok (a, db') → Changes limits db db') :
    Changes limits db (operate env db body).2 := by
  unfold operate
  cases hopen : openStore db with
  | error e => exact .refl
  | ok opened =>
    have hopened := openStore_changes h hopen
    rcases transaction_cases env.commit body opened with ⟨a, t, ht, heq⟩ | ⟨e, heq⟩
    · show Changes limits db (transaction env.commit body opened).2
      rw [heq]
      exact hopened.trans (hbody (h.changes hopened) ht)
    · show Changes limits db (transaction env.commit body opened).2
      rw [heq]
      exact hopened

theorem validateLoaded_ok (h : validateLoaded limits r = .ok row) :
    row = r ∧ r.record.validate .local limits = .ok () := by
  obtain ⟨u, hu, hrow⟩ := bind_ok h
  cases hrow
  exact ⟨rfl, hu⟩

theorem reload_ok (h : reload limits id db = .ok row) :
    find id db = some row ∧ row.record.validate .local limits = .ok () := by
  obtain ⟨loaded, hload, h⟩ := bind_ok h
  unfold loadOne at hload
  cases hfind : find id db with
  | none =>
    rw [hfind] at hload
    cases hload
    cases h
  | some r =>
    rw [hfind] at hload
    cases hvalid : validateLoaded limits r with
    | error e =>
      simp only [hvalid] at hload
      cases hload
    | ok s =>
      simp only [hvalid] at hload
      cases hload
      cases h
      obtain ⟨rfl, hv⟩ := validateLoaded_ok hvalid
      exact ⟨rfl, hv⟩

theorem loadOne_ok {loaded : Option MemoryRow} (h : loadOne limits id db = .ok loaded) :
    loaded = find id db := by
  unfold loadOne at h
  cases hfind : find id db with
  | none =>
    rw [hfind] at h
    cases h
    rfl
  | some r =>
    rw [hfind] at h
    cases hvalid : validateLoaded limits r with
    | error e =>
      simp only [hvalid] at h
      cases h
    | ok s =>
      simp only [hvalid] at h
      cases h
      rw [(validateLoaded_ok hvalid).1]

theorem mapM_validateLoaded {l l' : List MemoryRow} (h : l.mapM (validateLoaded limits) = .ok l') :
    l' = l ∧ ∀ r ∈ l, r.record.validate .local limits = .ok () := by
  induction l generalizing l' with
  | nil =>
    cases h
    exact ⟨rfl, fun _ hr => (nomatch hr)⟩
  | cons r l ih =>
    rw [List.mapM_cons] at h
    obtain ⟨s, hs, h⟩ := bind_ok h
    obtain ⟨t, ht, h⟩ := bind_ok h
    cases h
    obtain ⟨rfl, hvalid⟩ := validateLoaded_ok hs
    obtain ⟨rfl, hrest⟩ := ih ht
    exact ⟨rfl, List.forall_mem_cons.mpr ⟨hvalid, hrest⟩⟩

theorem mapM_validateLoaded_ok {l : List MemoryRow}
    (h : ∀ r ∈ l, r.record.validate .local limits = .ok ()) : l.mapM (validateLoaded limits) = .ok l := by
  induction l with
  | nil => rfl
  | cons r l ih =>
    obtain ⟨hr, hl⟩ := List.forall_mem_cons.mp h
    have hone : validateLoaded limits r = .ok r := by
      rw [validateLoaded, hr]
      rfl
    rw [List.mapM_cons, hone, ok_bind, ih hl]
    rfl

theorem loadAll_ok {rows : List MemoryRow} (h : loadAll limits db = .ok rows) : rows.Perm db.rows := by
  rw [(mapM_validateLoaded h).1]
  exact List.mergeSort_perm _ _

theorem insertRow_ok (h : insertRow row db = .ok db') :
    db' = { db with rows := db.rows ++ [row] } ∧ (∀ r ∈ db.rows, r.id ≠ row.id) ∧
      ∀ r ∈ db.rows, r.normalizedIdentity ≠ row.normalizedIdentity := by
  obtain ⟨hfree, h⟩ := refuseIf_bind h
  obtain ⟨-, h⟩ := refuseIf_bind h
  cases h
  rw [not_or] at hfree
  refine ⟨rfl, find_none (Option.not_isSome_iff_eq_none.mp hfree.1), identityExists_none hfree.2⟩

theorem insert_ok (h : insert limits content identity now db = .ok (row, db')) :
    (row.content = content ∧ row.normalizedIdentity = identity ∧ db.nextId ≤ row.id ∧
      row.id + 1 ≤ i64Max) ∧ (∀ r ∈ db.rows, r.id ≠ row.id) ∧
      (∀ r ∈ db.rows, r.normalizedIdentity ≠ identity) ∧ db.rows.length < limits.records ∧
      totalBytes db.rows + strLen content ≤ limits.totalContentBytes ∧
      db' = ⟨db.rows ++ [row], row.id + 1⟩ := by
  obtain ⟨-, h⟩ := refuseIf_bind h
  obtain ⟨hcount, h⟩ := refuseIf_bind h
  obtain ⟨hbytes, h⟩ := refuseIf_bind h
  obtain ⟨id, hid, h⟩ := bind_ok h
  obtain ⟨inserted, hinsert, h⟩ := bind_ok h
  obtain ⟨triggered, htrigger, h⟩ := bind_ok h
  obtain ⟨loaded, hload, h⟩ := bind_ok h
  cases h
  obtain ⟨rfl, hids, hfree⟩ := insertRow_ok hinsert
  obtain ⟨hnot, htrigger⟩ := refuseIf_bind htrigger
  cases htrigger
  obtain ⟨n, hn, hid⟩ := bind_ok hid
  obtain ⟨m, hm, hid⟩ := bind_ok hid
  cases hid
  have hroom := (next_ok hm).1 ▸ (next_ok hm).2
  have hle : db.nextId ≤ max db.nextId n := le_max_left _ _
  have hfind := (reload_ok hload).1
  rw [if_pos hle, find_append hids] at hfind
  cases hfind
  refine ⟨⟨rfl, rfl, hle, hroom⟩, hids, hfree, by omega, by omega, ?_⟩
  rw [if_pos hle]

theorem replace_ok {key : MemoryKey} (h : replace limits content identity key now db = .ok (row, db')) :
    ∃ current ∈ db.rows, current.id = key.id ∧ current.version = key.version ∧ row.id = current.id ∧
      row.content = content ∧ row.normalizedIdentity = identity ∧ row.version = current.version + 1 ∧
      (∀ r ∈ db.rows, r.id ≠ current.id → r.normalizedIdentity ≠ identity) ∧
      totalBytes db.rows + strLen content ≤ limits.totalContentBytes + strLen current.content ∧
      ∃ f, db' = modify key.id f db ∧ (∀ r, (f r).id = r.id) ∧ row = f current := by
  unfold replace at h
  cases hfind : find key.id db with
  | none =>
    rw [hfind] at h
    cases h
  | some current =>
    rw [hfind] at h
    obtain ⟨hversion, h⟩ := refuseIf_bind h
    obtain ⟨hfree, h⟩ := refuseIf_bind h
    obtain ⟨hbytes, h⟩ := refuseIf_bind h
    obtain ⟨-, h⟩ := refuseIf_bind h
    obtain ⟨loaded, hload, h⟩ := bind_ok h
    cases h
    obtain ⟨hmem, hid⟩ := find_some hfind
    have hloaded := (reload_ok hload).1
    rw [find_modify, hfind] at hloaded
    · cases hloaded
      refine ⟨current, hmem, hid, not_not.mp hversion, rfl, rfl, rfl, rfl, ?_, by omega, _,
        rfl, fun _ => rfl, rfl⟩
      rw [hid]
      exact identityExists_some hfree
    · exact fun _ => rfl

end

/-! ## putting and deleting -/

section
variable {env : MemoryEnv} {content : String} {metadata : MemoryMetadata} {row : MemoryRow} {now : Int}

theorem insert_changes (f : MemoryRow → MemoryRow) (hf : ∀ r, (f r).id = r.id) {db₁ : MemoryDb}
    {r : MemoryRow}
    (hinsert : insert limits content (metadata.identity content) now db = .ok (r, db₁))
    (hcontent : (f r).content = r.content)
    (hidentity : (f r).normalizedIdentity = r.normalizedIdentity) (hmetadata : (f r).metadata = metadata)
    (hreload : reload limits r.id (modify r.id f db₁) = .ok row) :
    ∃ nextId, modify r.id f db₁ = ⟨db.rows ++ [row], nextId⟩ ∧ db.nextId ≤ row.id ∧
      Change limits db ⟨db.rows ++ [row], nextId⟩ := by
  obtain ⟨⟨hc, hi, hle, hroom⟩, hids, hfree, hcount, hbytes, rfl⟩ := insert_ok hinsert
  obtain ⟨hfind, hvalid⟩ := reload_ok hreload
  rw [find_modify hf, find_append hids] at hfind
  cases hfind
  have hid : db.nextId ≤ (f r).id := by
    rw [hf]
    exact hle
  refine ⟨_, modify_append hids, hid, .add hid ?_ hroom ⟨hvalid, ?_⟩ ?_ hcount ?_⟩
  · rw [hf]
    exact Int.lt_add_one_of_le le_rfl
  · rw [hidentity, hi, hmetadata, hcontent, hc]
  · rw [hidentity, hi]
    exact hfree
  · rw [hcontent, hc]
    exact hbytes

theorem putBody_changes {replacement : Option MemoryKey} {memory : MemoryRecord} (h : Kept limits db)
    (hput : putBody limits env content metadata replacement now db = .ok (memory, db')) :
    Changes limits db db' := by
  have hpruned := pruneExpired_changes h now
  have hkept := h.changes hpruned
  obtain ⟨owner, -, hput⟩ := bind_ok hput
  obtain ⟨-, -, hput⟩ := bind_ok hput
  refine hpruned.tail ?_
  cases replacement with
  | none =>
    obtain ⟨⟨row, written⟩, hwrite, hput⟩ := bind_ok hput
    obtain ⟨loaded, hload, hput⟩ := bind_ok hput
    cases hput
    obtain ⟨n, hdb, -, hchange⟩ := insert_changes (fun r => { r with
      metadata := { metadata with ownershipId := some owner } }) (fun _ => rfl) hwrite rfl rfl rfl hload
    rw [saveMetadata, hdb]
    exact hchange
  | some key =>
    obtain ⟨⟨row, written⟩, hwrite, hput⟩ := bind_ok hput
    obtain ⟨loaded, hload, hput⟩ := bind_ok hput
    cases hput
    obtain ⟨current, hmem, hid, hversion, hrow, hc, hi, hv, hfree, hbytes, f, rfl, hf, rfl⟩ :=
      replace_ok hwrite
    obtain ⟨hfind, hvalid⟩ := reload_ok hload
    obtain ⟨hsave, hfound⟩ := save_modify { metadata with ownershipId := some owner } hkept.ids hmem hf
    rw [← hid, hrow, hsave] at hfind
    rw [← hid, hrow, hsave]
    rw [hfound] at hfind
    cases hfind
    refine .alter hmem hrow ⟨hvalid, ?_⟩ ?_ ?_ (.inr ?_)
    · show (f current).normalizedIdentity = _
      rw [hi, hc]
    · show ∀ r ∈ (pruneExpired now db).rows, r.id ≠ current.id → r.normalizedIdentity ≠ (f current).normalizedIdentity
      rw [hi]
      exact hfree
    · show _ + strLen (f current).content ≤ _
      rw [hc]
      exact hbytes
    · show current.version < (f current).version
      rw [hv]
      exact Nat.lt_succ_self _

theorem deleteBody_ok {key : MemoryKey} {u : Unit} (h : deleteBody key db = .ok (u, db')) :
    db'.rows.Sublist db.rows ∧ db'.nextId = db.nextId := by
  unfold deleteBody at h
  cases hfind : find key.id db with
  | none =>
    rw [hfind] at h
    cases h
    exact ⟨List.Sublist.refl _, rfl⟩
  | some current =>
    rw [hfind] at h
    obtain ⟨-, h⟩ := refuseIf_bind h
    cases h
    exact ⟨List.filter_sublist, rfl⟩

theorem deleteBody_changes {key : MemoryKey} {u : Unit} (h : Kept limits db)
    (hdelete : deleteBody key db = .ok (u, db')) : Changes limits db db' := by
  obtain ⟨hsub, hnext⟩ := deleteBody_ok hdelete
  exact .single (.drop hsub hnext.ge (hnext.le.trans h.room))

end

end

end Memory

end Orvek
