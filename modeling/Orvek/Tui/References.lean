import Orvek.Tui.Transcript
import Mathlib.Data.List.Dedup

/-!
# The rows that the indexes name

Eight secondary indexes name rows of the transcript, and a row that goes has to be reported to the view.

* `RowKind`, `Slot`, `Refers`   what a row is, and the indexes as one relation;
* `Sound`                       the invariant: rows in order, an exact primary index, and live references;
* `Frame`, `Kept`               what an operation leaves as it is, and what it keeps;
* `Account`, `Outstanding`      where every row is: shown, waiting to be reported, or reported, and only there;
* `TranscriptCall`, `runFrom`   records and messages, in any order;
* `transcript_sound`, `transcript_reported`   the results about every run.
-/

set_option linter.unusedSectionVars false

namespace Orvek.Tui
open SecondaryIndex Json

/-- what a row is, whatever it says -/
inductive RowKind where
  | user | assistant | reasoning | tool | message | notice
  deriving DecidableEq

def EntryKind.row : EntryKind → RowKind
  | .user _ => .user
  | .assistant _ _ _ => .assistant
  | .reasoning _ => .reasoning
  | .tool _ => .tool
  | .directedMessage _ => .message
  | .forkedFrom _ | .effortChanged _ | .fastModeChanged _ | .reflectionStarted | .turnCompleted _ | .error _
  | .hostStatus _ _ | .taskStatus _ _ _ => .notice

inductive Slot where
  | users | assistants | reasoning | tools | toolItems | pendingToolPreviews | jobs | runningTools
  deriving DecidableEq

/-- the rows that an index is about -/
def Slot.row : Slot → RowKind
  | .users => .user
  | .assistants => .assistant
  | .reasoning => .reasoning
  | .tools | .toolItems | .pendingToolPreviews | .jobs | .runningTools => .tool

namespace TranscriptModel

variable {id : EntryId} {kind : EntryKind} {change : EntryKind → EntryKind} {thread : ThreadId}

def Refers (m : TranscriptModel) : Slot → EntryId → Prop
  | .users, id => Names m.users id
  | .assistants, id => Names m.assistants id
  | .reasoning, id => Names m.reasoning id
  | .tools, id => Names m.tools id
  | .toolItems, id => Names m.toolItems id
  | .pendingToolPreviews, id => id ∈ m.pendingToolPreviews
  | .jobs, id => Names m.jobs id
  | .runningTools, id => id ∈ m.runningTools

/-- the rows, without what they say -/
def shape (m : TranscriptModel) : List (EntryId × RowKind) := m.entries.map fun e => (e.id, e.kind.row)

/-- the rows that are gone, and not reported yet -/
def outgoing (m : TranscriptModel) : List EntryId := m.evicted ++ m.discardedPreviews

/-- rows in the order of their ids, and an exact primary index -/
structure Rows (m : TranscriptModel) : Prop where
  increasing : m.ids.Pairwise (· < ·)
  given : ∀ id ∈ m.ids, id < m.nextEntryId
  size : m.entries.length ≤ maxEntries
  indexed : Indexes m.entryIndices m.ids

structure Sound (m : TranscriptModel) : Prop where
  rows : m.Rows
  live : ∀ slot id, m.Refers slot id → (id, slot.row) ∈ m.shape
  preview : ∀ slot id, m.Refers .pendingToolPreviews id → m.Refers slot id →
    slot = .pendingToolPreviews ∨ slot = .toolItems
  /-- a thread may name a row that is gone, but no row of another kind -/
  threads : ∀ (t : ThreadId) (id : EntryId), m.messageThreads[t]? = some id →
    id < m.nextEntryId ∧ ∀ row, (id, row) ∈ m.shape → row = .message
  order : m.messageOrder.Nodup ∧ ∀ t : ThreadId, t ∈ m.messageOrder ↔ (m.messageThreads[t]?).isSome = true

/-- every row that was there or is new is shown, waits, or was removed -/
def Account (m m' : TranscriptModel) (removed : List EntryId) : Prop :=
  (m'.ids ++ m'.outgoing ++ removed).Perm
    (m.ids ++ m.outgoing ++ List.range' m.nextEntryId (m'.nextEntryId - m.nextEntryId))

variable {m m' m'' : TranscriptModel}

theorem map_fst_shape (m : TranscriptModel) : m.shape.map Prod.fst = m.ids := by
  rw [shape, List.map_map]
  rfl

theorem mem_ids {row : RowKind} (h : (id, row) ∈ m.shape) : id ∈ m.ids := by
  rw [← map_fst_shape]
  exact List.mem_map_of_mem h

theorem length_ids (m : TranscriptModel) : m.ids.length = m.entries.length := List.length_map _

theorem Rows.nodup (h : m.Rows) : m.ids.Nodup := h.increasing.imp fun hlt => Nat.ne_of_lt hlt

theorem Rows.row_eq (h : m.Rows) {row row' : RowKind} (hr : (id, row) ∈ m.shape)
    (hr' : (id, row') ∈ m.shape) : row = row' := by
  have hnodup : (m.shape.map Prod.fst).Nodup := by
    rw [map_fst_shape]
    exact h.nodup
  exact congrArg Prod.snd (List.inj_on_of_nodup_map hnodup hr hr' rfl)

/-! ## what an operation leaves as it is -/

structure Frame (m m' : TranscriptModel) : Prop where
  shape : m'.shape = m.shape
  indices : m'.entryIndices = m.entryIndices
  next : m'.nextEntryId = m.nextEntryId
  threads : m'.messageThreads = m.messageThreads
  order : m'.messageOrder = m.messageOrder
  evicted : m'.evicted = m.evicted
  discarded : m'.discardedPreviews = m.discardedPreviews

theorem Frame.refl (m : TranscriptModel) : Frame m m := ⟨rfl, rfl, rfl, rfl, rfl, rfl, rfl⟩

theorem Frame.trans (h : Frame m m') (h' : Frame m' m'') : Frame m m'' where
  shape := h'.shape.trans h.shape
  indices := h'.indices.trans h.indices
  next := h'.next.trans h.next
  threads := h'.threads.trans h.threads
  order := h'.order.trans h.order
  evicted := h'.evicted.trans h.evicted
  discarded := h'.discarded.trans h.discarded

theorem Frame.ids (h : Frame m m') : m'.ids = m.ids := by rw [← map_fst_shape, ← map_fst_shape, h.shape]

theorem Frame.outgoing (h : Frame m m') : m'.outgoing = m.outgoing := by
  rw [TranscriptModel.outgoing, TranscriptModel.outgoing, h.evicted, h.discarded]

theorem Frame.account (h : Frame m m') : Account m m' [] := by
  rw [Account, h.ids, h.outgoing, h.next, Nat.sub_self, List.range'_zero]

theorem Rows.frame (h : m.Rows) (hf : Frame m m') : m'.Rows where
  increasing := hf.ids ▸ h.increasing
  given := by
    rw [hf.ids, hf.next]
    exact h.given
  size := by
    rw [← length_ids, hf.ids, length_ids]
    exact h.size
  indexed := by
    rw [hf.indices, hf.ids]
    exact h.indexed

theorem Sound.frame (h : m.Sound) (hf : Frame m m')
    (hlive : ∀ slot id, m'.Refers slot id → (id, slot.row) ∈ m.shape)
    (hpreview : ∀ slot id, m'.Refers .pendingToolPreviews id → m'.Refers slot id →
      slot = .pendingToolPreviews ∨ slot = .toolItems) : m'.Sound where
  rows := h.rows.frame hf
  live slot id hr := hf.shape ▸ hlive slot id hr
  preview := hpreview
  threads := by
    rw [hf.threads, hf.next, hf.shape]
    exact h.threads
  order := by
    rw [hf.threads, hf.order]
    exact h.order

theorem Account.trans {a b : List EntryId} (h : Account m m' a) (h' : Account m' m'' b)
    (hle : m.nextEntryId ≤ m'.nextEntryId) (hle' : m'.nextEntryId ≤ m''.nextEntryId) : Account m m'' (a ++ b) := by
  have hrange : List.range' m.nextEntryId (m''.nextEntryId - m.nextEntryId) =
      List.range' m.nextEntryId (m'.nextEntryId - m.nextEntryId) ++
        List.range' m'.nextEntryId (m''.nextEntryId - m'.nextEntryId) := by
    have hstart : m.nextEntryId + (m'.nextEntryId - m.nextEntryId) = m'.nextEntryId := by omega
    have happ := List.range'_append_1 (s := m.nextEntryId) (m := m'.nextEntryId - m.nextEntryId)
      (n := m''.nextEntryId - m'.nextEntryId)
    rw [hstart] at happ
    rw [happ]
    congr 1
    omega
  rw [Account, hrange, List.perm_iff_count]
  intro x
  have hx := List.perm_iff_count.mp h x
  have hx' := List.perm_iff_count.mp h' x
  simp only [List.count_append] at hx hx' ⊢
  omega

/-- what an operation keeps, if it does not run out of ids -/
structure Kept (m m' : TranscriptModel) : Prop where
  next : m'.nextEntryId < usizeMax → m.nextEntryId ≤ m'.nextEntryId
  sound : m'.nextEntryId < usizeMax → m.Sound → m'.Sound
  account : m'.nextEntryId < usizeMax → m.Sound → Account m m' []

theorem Kept.refl (m : TranscriptModel) : Kept m m :=
  ⟨fun _ => Nat.le_refl _, fun _ h => h, fun _ _ => (Frame.refl m).account⟩

theorem Kept.trans (h : Kept m m') (h' : Kept m' m'') : Kept m m'' := by
  have hmid : m''.nextEntryId < usizeMax → m'.nextEntryId < usizeMax := fun hmax => (h'.next hmax).trans_lt hmax
  refine ⟨fun hmax => (h.next (hmid hmax)).trans (h'.next hmax),
    fun hmax hs => h'.sound hmax (h.sound (hmid hmax) hs), fun hmax hs => ?_⟩
  exact (h.account (hmid hmax) hs).trans (h'.account hmax (h.sound (hmid hmax) hs)) (h.next (hmid hmax)) (h'.next hmax)

theorem Kept.of_frame (hnext : m'.nextEntryId = m.nextEntryId) (hframe : m.Sound → Frame m m')
    (hlive : m.Sound → ∀ slot id, m'.Refers slot id → (id, slot.row) ∈ m.shape)
    (hpreview : m.Sound → ∀ slot id, m'.Refers .pendingToolPreviews id → m'.Refers slot id →
      slot = .pendingToolPreviews ∨ slot = .toolItems) : Kept m m' where
  next _ := hnext.ge
  sound _ hs := hs.frame (hframe hs) (hlive hs) (hpreview hs)
  account _ hs := (hframe hs).account

theorem Kept.fewer (hf : Frame m m') (hrefers : ∀ slot id, m'.Refers slot id → m.Refers slot id) : Kept m m' :=
  .of_frame hf.next (fun _ => hf) (fun hs slot id hr => hs.live slot id (hrefers slot id hr))
    fun hs slot id hp hr => hs.preview slot id (hrefers _ id hp) (hrefers slot id hr)

theorem Kept.index (h : Kept m m') (hf : Frame m' m'') {x : EntryId} (slots : List Slot)
    (hrefers : ∀ slot id, m''.Refers slot id → m'.Refers slot id ∨ slot ∈ slots ∧ id = x)
    (hlive : m'.nextEntryId < usizeMax → m.Sound → ∀ slot ∈ slots, (x, slot.row) ∈ m'.shape)
    (hpreview : m'.nextEntryId < usizeMax → m.Sound → ∀ slot, m''.Refers .pendingToolPreviews x → m''.Refers slot x →
      slot = .pendingToolPreviews ∨ slot = .toolItems) : Kept m m'' := by
  rw [← hf.next] at hlive hpreview
  have hmid : m''.nextEntryId < usizeMax → m'.nextEntryId < usizeMax := fun hmax => hf.next ▸ hmax
  refine ⟨fun hmax => ?_, fun hmax hs => ?_, fun hmax hs => ?_⟩
  · rw [hf.next]
    exact h.next (hmid hmax)
  · have hs' := h.sound (hmid hmax) hs
    refine hs'.frame hf (fun slot id hr => ?_) fun slot id hp hr => ?_
    · rcases hrefers slot id hr with hold | ⟨hslot, rfl⟩
      · exact hs'.live slot id hold
      · exact hlive hmax hs slot hslot
    · by_cases he : id = x
      · subst he
        exact hpreview hmax hs slot hp hr
      · have hold : ∀ slot, m''.Refers slot id → m'.Refers slot id := fun slot hr =>
          (hrefers slot id hr).resolve_right fun hnew => he hnew.2
        exact hs'.preview slot id (hold _ hp) (hold _ hr)
  · have haccount := h.account (hmid hmax) hs
    rw [Account, hf.ids, hf.outgoing, hf.next]
    exact haccount

/-! ## rows that come -/

theorem shape_spaceLast (kind : EntryKind) (entries : List TranscriptEntry) :
    (spaceLast kind entries).map (fun e => (e.id, e.kind.row)) = entries.map fun e => (e.id, e.kind.row) := by
  unfold spaceLast
  cases hlast : entries.getLast? with
  | none => rfl
  | some previous =>
    simp only
    split
    · have hne : entries ≠ [] := by
        intro hnil
        rw [hnil] at hlast
        cases hlast
      have hprevious : entries.getLast hne = previous := by
        rw [List.getLast?_eq_some_getLast hne] at hlast
        exact Option.some.inj hlast
      conv_rhs => rw [← List.dropLast_append_getLast hne, hprevious]
      rw [List.map_append, List.map_append]
      rfl
    · rfl

theorem frame_spaced (m : TranscriptModel) (kind : EntryKind) : Frame m (m.spaced kind) :=
  ⟨shape_spaceLast kind m.entries, rfl, rfl, rfl, rfl, rfl, rfl⟩

variable {slot : Slot}

theorem refers_spaced (h : (m.spaced kind).Refers slot id) : m.Refers slot id := by
  cases slot <;> exact h

theorem kept_spaced (m : TranscriptModel) (kind : EntryKind) : Kept m (m.spaced kind) :=
  .fewer (frame_spaced m kind) fun _ _ => refers_spaced

/-- what the first row leaves when it goes -/
structure Evicted (m m' : TranscriptModel) (first : EntryId) : Prop where
  ids : m.ids = first :: m'.ids
  shape : m'.shape = m.shape.tail
  indices : m'.entryIndices = positions m'.ids
  next : m'.nextEntryId = m.nextEntryId
  threads : m'.messageThreads = m.messageThreads
  order : m'.messageOrder = m.messageOrder
  evicted : m'.evicted = m.evicted ++ [first]
  discarded : m'.discardedPreviews = m.discardedPreviews

theorem evictFirst_evicted {first : TranscriptEntry} {rest : List TranscriptEntry} (he : m.entries = first :: rest) :
    Evicted m m.evictFirst first.id := by
  obtain ⟨entries, _, _, _, _, _, _, _, _, _, _, _, _, _, _, _, _, _⟩ := m
  change entries = _ at he
  subst he
  exact ⟨rfl, rfl, rfl, rfl, rfl, rfl, rfl, rfl⟩

theorem refers_evictFirst {first : TranscriptEntry} {rest : List TranscriptEntry}
    (he : m.entries = first :: rest) (hr : m.evictFirst.Refers slot id) :
    m.Refers slot id ∧ id ≠ first.id := by
  have hfilter : ∀ {κ : Type} [Ord κ] [Std.TransOrd κ] [Std.LawfulEqOrd κ] {index : BTreeMap κ EntryId},
      Names (index.filter fun _ id => decide (id ≠ first.id)) id → Names index id ∧ id ≠ first.id := by
    intro κ _ _ _ index hn
    obtain ⟨k, hk, hne⟩ := names_filter hn
    exact ⟨names_get hk, of_decide_eq_true hne⟩
  have herase : ∀ {set : BTreeSet EntryId}, id ∈ set.erase first.id → id ∈ set ∧ id ≠ first.id := by
    intro set hmem
    obtain ⟨hne, hmem⟩ := Std.ExtTreeSet.mem_erase.mp hmem
    exact ⟨hmem, fun heq => hne (by rw [heq]; exact Std.ReflCmp.compare_self)⟩
  obtain ⟨entries, _, _, _, _, _, _, _, _, _, _, _, _, _, _, _, _, _⟩ := m
  change entries = _ at he
  subst he
  cases slot with
  | users => exact hfilter hr
  | assistants => exact hfilter hr
  | reasoning => exact hfilter hr
  | tools => exact hfilter hr
  | toolItems => exact hfilter hr
  | pendingToolPreviews => exact herase hr
  | jobs => exact hfilter hr
  | runningTools => exact herase hr

theorem Sound.evicted {first : EntryId} (h : m.Sound) (he : Evicted m m' first)
    (hrefers : ∀ slot id, m'.Refers slot id → m.Refers slot id ∧ id ≠ first) : m'.Sound := by
  have hsub : m'.ids.Sublist m.ids := he.ids ▸ List.sublist_cons_self _ _
  have hshape : ∀ {id row}, (id, row) ∈ m'.shape → (id, row) ∈ m.shape := fun hmem =>
    List.mem_of_mem_tail (he.shape ▸ hmem)
  refine ⟨⟨h.rows.increasing.sublist hsub, ?_, ?_, ?_⟩, fun slot id hr => ?_, fun slot id hp hr => ?_, ?_, ?_⟩
  · rw [he.next]
    exact fun id hid => h.rows.given id (hsub.subset hid)
  · rw [← length_ids]
    refine hsub.length_le.trans ?_
    rw [length_ids]
    exact h.rows.size
  · rw [he.indices]
    exact indexes_positions (h.rows.nodup.sublist hsub)
  · obtain ⟨hold, hne⟩ := hrefers slot id hr
    have hmem := h.live slot id hold
    have hcons : m.shape = (first, m.shape.head?.elim .notice Prod.snd) :: m'.shape := by
      rw [he.shape]
      have hids := map_fst_shape m
      rw [he.ids] at hids
      cases hshape : m.shape with
      | nil =>
        rw [hshape] at hids
        cases hids
      | cons x l =>
        rw [hshape, List.map_cons] at hids
        rw [← (List.cons.inj hids).1]
        rfl
    rw [hcons] at hmem
    exact (List.mem_cons.mp hmem).resolve_left fun hfirst => hne (congrArg Prod.fst hfirst)
  · exact h.preview slot id (hrefers _ id hp).1 (hrefers slot id hr).1
  · rw [he.threads, he.next]
    exact fun t id ht => ⟨(h.threads t id ht).1, fun row hr => (h.threads t id ht).2 row (hshape hr)⟩
  · rw [he.threads, he.order]
    exact h.order

theorem Evicted.account {first : EntryId} (he : Evicted m m' first) : Account m m' [] := by
  rw [Account, outgoing, outgoing, he.ids, he.next, he.evicted, he.discarded, Nat.sub_self, List.perm_iff_count]
  intro x
  simp only [List.count_append, List.count_cons, List.count_nil, List.range'_zero]
  omega

theorem kept_evictFirst (m : TranscriptModel) : Kept m m.evictFirst := by
  cases he : m.entries with
  | nil =>
    have hsame : m.evictFirst = m := by rw [evictFirst, he]
    rw [hsame]
    exact .refl m
  | cons first rest =>
    have hevicted := evictFirst_evicted he
    exact ⟨fun _ => hevicted.next.ge, fun _ hs => hs.evicted hevicted fun _ _ => refers_evictFirst he, fun _ _ => hevicted.account⟩

theorem kept_makeRoom (m : TranscriptModel) : Kept m m.makeRoom := by
  unfold makeRoom
  split
  · exact kept_evictFirst m
  · exact .refl m

theorem makeRoom_size (h : m.entries.length ≤ maxEntries) : m.makeRoom.entries.length < maxEntries := by
  unfold makeRoom
  split
  · rename_i hfull
    cases he : m.entries with
    | nil =>
      rw [he] at hfull
      exact absurd hfull (by decide)
    | cons first rest =>
      have hids := (evictFirst_evicted he).ids
      have hlength := congrArg List.length hids
      rw [List.length_cons, length_ids, length_ids] at hlength
      omega
  · omega

theorem refers_append (h : (m.append kind).Refers slot id) : m.Refers slot id := by
  cases slot <;> exact h

theorem ids_append (m : TranscriptModel) (kind : EntryKind) : (m.append kind).ids = m.ids ++ [m.nextEntryId] :=
  List.map_append

theorem shape_append (m : TranscriptModel) (kind : EntryKind) :
    (m.append kind).shape = m.shape ++ [(m.nextEntryId, kind.row)] := List.map_append

theorem append_next (hmax : (m.append kind).nextEntryId < usizeMax) :
    (m.append kind).nextEntryId = m.nextEntryId + 1 := by
  have hmin : (m.append kind).nextEntryId = min (m.nextEntryId + 1) usizeMax := rfl
  omega

theorem Sound.fresh (h : m.Sound) (slot : Slot) : ¬m.Refers slot m.nextEntryId := fun hr =>
  Nat.lt_irrefl _ (h.rows.given _ (mem_ids (h.live slot _ hr)))

theorem Sound.append (h : m.Sound) (hmax : (m.append kind).nextEntryId < usizeMax)
    (hsize : m.entries.length < maxEntries) : (m.append kind).Sound := by
  have hnext := append_next hmax
  have hnew : m.nextEntryId ∉ m.ids := fun hmem => Nat.lt_irrefl _ (h.rows.given _ hmem)
  refine ⟨⟨?_, ?_, ?_, ?_⟩, fun slot id hr => ?_, fun slot id hp hr => ?_, fun t id ht => ?_, h.order⟩
  · rw [ids_append, List.pairwise_append]
    refine ⟨h.rows.increasing, List.pairwise_singleton _ _, fun id hid x hx => ?_⟩
    rw [List.mem_singleton.mp hx]
    exact h.rows.given id hid
  · rw [ids_append, hnext]
    intro id hid
    rcases List.mem_append.mp hid with hid | hid
    · exact Nat.lt_succ_of_lt (h.rows.given id hid)
    · rw [List.mem_singleton.mp hid]
      exact Nat.lt_succ_self _
  · rw [← length_ids, ids_append, List.length_append, length_ids]
    exact hsize
  · rw [ids_append]
    have hindexed := h.rows.indexed.append hnew
    rw [length_ids] at hindexed
    exact hindexed
  · rw [shape_append]
    exact List.mem_append_left _ (h.live slot id (refers_append hr))
  · exact h.preview slot id (refers_append hp) (refers_append hr)
  · obtain ⟨hlt, hrow⟩ := h.threads t id ht
    rw [hnext, shape_append]
    refine ⟨Nat.lt_succ_of_lt hlt, fun row hr => ?_⟩
    rcases List.mem_append.mp hr with hr | hr
    · exact hrow row hr
    · have hid : id = m.nextEntryId := congrArg Prod.fst (List.mem_singleton.mp hr)
      exact absurd hlt (hid ▸ Nat.lt_irrefl _)

theorem append_account (hmax : (m.append kind).nextEntryId < usizeMax) : Account m (m.append kind) [] := by
  have houtgoing : (m.append kind).outgoing = m.outgoing := rfl
  rw [Account, ids_append, houtgoing, append_next hmax, Nat.add_sub_cancel_left, List.range'_one, List.perm_iff_count]
  intro x
  simp only [List.count_append, List.count_nil]
  omega

theorem kept_push (m : TranscriptModel) (kind : EntryKind) : Kept m (m.push kind) := by
  have hroom : Kept m (m.spaced kind).makeRoom := (kept_spaced m kind).trans (kept_makeRoom _)
  have hsize : m.Sound → (m.spaced kind).makeRoom.entries.length < maxEntries := fun hs =>
    makeRoom_size (hs.rows.frame (frame_spaced m kind)).size
  have hmid : (m.push kind).nextEntryId < usizeMax →
      (m.spaced kind).makeRoom.nextEntryId + 1 = (m.push kind).nextEntryId := fun hmax => (append_next hmax).symm
  have hlt : (m.push kind).nextEntryId < usizeMax → (m.spaced kind).makeRoom.nextEntryId < usizeMax := fun hmax => by
    have hnext := hmid hmax
    omega
  refine ⟨fun hmax => ?_, fun hmax hs => ?_, fun hmax hs => ?_⟩
  · have hfirst := hroom.next (hlt hmax)
    have hnext := hmid hmax
    omega
  · exact (hroom.sound (hlt hmax) hs).append hmax (hsize hs)
  · refine (hroom.account (hlt hmax) hs).trans (append_account hmax) (hroom.next (hlt hmax)) ?_
    exact (Nat.le_succ _).trans (hmid hmax).le

/-- what the new row is -/
structure Pushed (m pushed : TranscriptModel) (row : RowKind) : Prop where
  sound : pushed.Sound
  mem : (m.nextEntryId, row) ∈ pushed.shape
  fresh : ∀ slot, ¬pushed.Refers slot m.nextEntryId
  next : pushed.nextEntryId = m.nextEntryId + 1
  thread : ∀ t : ThreadId, pushed.messageThreads[t]? ≠ some m.nextEntryId

theorem makeRoom_frame (m : TranscriptModel) : m.makeRoom.nextEntryId = m.nextEntryId ∧
    m.makeRoom.messageThreads = m.messageThreads ∧ m.makeRoom.messageOrder = m.messageOrder := by
  unfold makeRoom
  split
  · cases he : m.entries with
    | nil =>
      have hsame : m.evictFirst = m := by rw [evictFirst, he]
      rw [hsame]
      exact ⟨rfl, rfl, rfl⟩
    | cons first rest =>
      have hevicted := evictFirst_evicted he
      exact ⟨hevicted.next, hevicted.threads, hevicted.order⟩
  · exact ⟨rfl, rfl, rfl⟩

theorem Sound.push (h : m.Sound) (hmax : (m.push kind).nextEntryId < usizeMax) :
    Pushed m (m.push kind) kind.row := by
  obtain ⟨hnext, hthreads, -⟩ := makeRoom_frame (m.spaced kind)
  have hnext : (m.spaced kind).makeRoom.nextEntryId = m.nextEntryId := hnext
  have hpushed : (m.push kind).nextEntryId = m.nextEntryId + 1 := by
    rw [← hnext]
    exact append_next hmax
  have hroom : (m.spaced kind).makeRoom.Sound :=
    ((kept_spaced m kind).trans (kept_makeRoom _)).sound (by omega) h
  refine ⟨(kept_push m kind).sound hmax h, ?_, fun slot hr => ?_, hpushed, fun t ht => ?_⟩
  · rw [TranscriptModel.push, shape_append, hnext]
    exact List.mem_append_right _ (List.mem_singleton.mpr rfl)
  · exact hroom.fresh slot (hnext ▸ refers_append hr)
  · have ht : m.messageThreads[t]? = some m.nextEntryId := by
      rw [← ht]
      exact congrArg (fun threads : BTreeMap ThreadId EntryId => threads[t]?) hthreads.symm
    exact Nat.lt_irrefl _ (h.threads t _ ht).1

theorem Kept.pushed {k : EntryKind} (hf : Frame (m.push k) m') (slots : List Slot)
    (hrefers : ∀ slot id, m'.Refers slot id → (m.push k).Refers slot id ∨ slot ∈ slots ∧ id = m.nextEntryId)
    (hrow : ∀ slot ∈ slots, slot.row = k.row)
    (hpreview : .pendingToolPreviews ∉ slots ∨ ∀ slot ∈ slots, slot = .pendingToolPreviews ∨ slot = .toolItems) :
    Kept m m' := by
  refine (kept_push m k).index hf slots hrefers (fun hmax hs slot hslot => ?_) fun hmax hs slot hp hr => ?_
  · rw [hrow slot hslot]
    exact (hs.push hmax).mem
  · have hnew : ∀ slot, m'.Refers slot m.nextEntryId → slot ∈ slots := fun slot hr =>
      ((hrefers slot _ hr).resolve_left ((hs.push hmax).fresh slot)).1
    exact (hpreview.resolve_left fun hnot => hnot (hnew _ hp)) slot (hnew slot hr)

/-! ## changes of a row -/

theorem map_modify {α β : Type} {g : α → β} {f : α → α} {l : List α} {i : Nat} (h : ∀ a, l[i]? = some a → g (f a) = g a) :
    (l.modify i f).map g = l.map g := by
  apply List.ext_getElem?
  intro j
  rw [List.getElem?_map, List.getElem?_map, List.getElem?_modify]
  by_cases hij : i = j
  · subst hij
    cases hl : l[i]? with
    | none => rfl
    | some a => simp [h a hl]
  · simp [hij]

theorem frame_update (h : ∀ e, m.entry id = some e → (change e.kind).row = e.kind.row) :
    Frame m (m.update id change) := by
  unfold update
  cases hindex : m.indexOf id with
  | none => exact .refl m
  | some index =>
    refine ⟨map_modify fun e he => ?_, rfl, rfl, rfl, rfl, rfl, rfl⟩
    have hentry : m.entry id = some e := by rw [entry, hindex, Option.bind_some, he]
    exact Prod.ext rfl (h e hentry)

theorem refers_update {x : EntryId} (h : (m.update id change).Refers slot x) : m.Refers slot x := by
  unfold update at h
  split at h
  · cases slot <;> exact h
  · exact h

theorem kept_update (m : TranscriptModel) (id : EntryId) (h : ∀ kind, (change kind).row = kind.row) :
    Kept m (m.update id change) :=
  .fewer (frame_update fun e _ => h e.kind) fun _ _ => refers_update

theorem update_next (m : TranscriptModel) (id : EntryId) (change : EntryKind → EntryKind) :
    (m.update id change).nextEntryId = m.nextEntryId := by
  unfold update
  split <;> rfl

theorem row_mapTool (f : ToolEntry → ToolEntry) (kind : EntryKind) : (kind.mapTool f).row = kind.row := by
  cases kind <;> rfl

theorem Sound.entry {e : TranscriptEntry} (h : m.Sound) (he : m.entry id = some e) :
    (id, e.kind.row) ∈ m.shape := by
  obtain ⟨index, hindex, he⟩ := Option.bind_eq_some_iff.mp he
  have hid : m.ids[index]? = some id := (h.rows.indexed id index).mp hindex
  rw [ids, List.getElem?_map, he] at hid
  rw [← Option.some.inj hid]
  exact List.mem_map_of_mem (List.mem_of_getElem? he)

theorem Sound.frame_replaced {k : EntryKind} (hs : m.Sound) (h : (id, k.row) ∈ m.shape) :
    Frame m (m.update id fun _ => k) :=
  frame_update fun _ he => hs.rows.row_eq h (hs.entry he)

theorem Kept.replaced (h : m.Sound → (id, kind.row) ∈ m.shape) : Kept m (m.update id fun _ => kind) :=
  .of_frame (update_next m id _) (fun hs => hs.frame_replaced (h hs))
    (fun hs slot x hr => hs.live slot x (refers_update hr))
    fun hs slot x hp hr => hs.preview slot x (refers_update hp) (refers_update hr)

theorem kept_transient (m : TranscriptModel) (transient : Option TransientStatus) : Kept m { m with transient } :=
  .fewer ⟨rfl, rfl, rfl, rfl, rfl, rfl, rfl⟩ fun slot _ hr => by cases slot <;> exact hr

theorem kept_requests (m : TranscriptModel) (activeRequests : BTreeMap Uuid Nat) : Kept m { m with activeRequests } :=
  .fewer ⟨rfl, rfl, rfl, rfl, rfl, rfl, rfl⟩ fun slot _ hr => by cases slot <;> exact hr

/-! ## rows that are taken out -/

theorem mem_previews {request : Option Uuid} (h : id ∈ m.previews request) :
    m.Refers .pendingToolPreviews id := by
  obtain ⟨⟨key, id'⟩, he, rfl⟩ := List.mem_map.mp (List.mem_dedup.mp h)
  exact Std.ExtTreeSet.mem_iff_contains.mpr (Bool.and_eq_true_iff.mp (List.mem_filter.mp he).2).2

theorem refers_discard {request : Option Uuid} (h : m.Sound)
    (hr : (m.discardToolPreviews request).Refers slot id) : m.Refers slot id ∧ id ∉ m.previews request := by
  have hother : ∀ slot, slot ≠ .pendingToolPreviews → slot ≠ .toolItems → m.Refers slot id →
      m.Refers slot id ∧ id ∉ m.previews request := fun slot hp ht hr =>
    ⟨hr, fun hmem => (h.preview slot id (mem_previews hmem) hr).elim hp ht⟩
  rw [discardToolPreviews] at hr
  split at hr
  · rename_i hnone
    exact ⟨hr, by rw [hnone]; exact List.not_mem_nil⟩
  · cases slot with
    | users => exact hother .users (by decide) (by decide) hr
    | assistants => exact hother .assistants (by decide) (by decide) hr
    | reasoning => exact hother .reasoning (by decide) (by decide) hr
    | tools => exact hother .tools (by decide) (by decide) hr
    | toolItems =>
      obtain ⟨key, hkey, hne⟩ := names_filter hr
      exact ⟨names_get hkey, of_decide_eq_true hne⟩
    | pendingToolPreviews =>
      obtain ⟨hmem, hne⟩ := Std.ExtTreeSet.mem_filter.mp hr
      rw [Std.ExtTreeSet.get_eq] at hne
      exact ⟨hmem, of_decide_eq_true hne⟩
    | jobs => exact hother .jobs (by decide) (by decide) hr
    | runningTools => exact hother .runningTools (by decide) (by decide) hr

/-- rows that are taken out, with the primary index collected again -/
structure Removed (m m' : TranscriptModel) (removed : List EntryId) : Prop where
  shape : m'.shape = m.shape.filter fun r => r.1 ∉ removed
  indices : m'.entryIndices = positions m'.ids
  next : m'.nextEntryId = m.nextEntryId
  threads : m'.messageThreads = m.messageThreads
  order : m'.messageOrder = m.messageOrder
  evicted : m'.evicted = m.evicted
  discarded : m'.discardedPreviews = m.discardedPreviews ++ removed

theorem Removed.ids {removed : List EntryId} (hr : Removed m m' removed) :
    m'.ids = m.ids.filter fun id => id ∉ removed := by
  rw [← map_fst_shape, ← map_fst_shape, hr.shape, List.filter_map]
  rfl

theorem Sound.removed {removed : List EntryId} (h : m.Sound) (hr : Removed m m' removed)
    (hrefers : ∀ slot id, m'.Refers slot id → m.Refers slot id ∧ id ∉ removed) : m'.Sound := by
  have hsub : m'.ids.Sublist m.ids := hr.ids ▸ List.filter_sublist
  refine ⟨⟨h.rows.increasing.sublist hsub, ?_, ?_, ?_⟩, fun slot id href => ?_, fun slot id hp href => ?_, ?_, ?_⟩
  · rw [hr.next]
    exact fun id hid => h.rows.given id (hsub.subset hid)
  · rw [← length_ids]
    refine hsub.length_le.trans ?_
    rw [length_ids]
    exact h.rows.size
  · rw [hr.indices]
    exact indexes_positions (h.rows.nodup.sublist hsub)
  · obtain ⟨hold, hne⟩ := hrefers slot id href
    rw [hr.shape, List.mem_filter]
    exact ⟨h.live slot id hold, decide_eq_true hne⟩
  · exact h.preview slot id (hrefers _ id hp).1 (hrefers slot id href).1
  · rw [hr.threads, hr.next, hr.shape]
    exact fun t id ht => ⟨(h.threads t id ht).1, fun row hrow => (h.threads t id ht).2 row (List.mem_filter.mp hrow).1⟩
  · rw [hr.threads, hr.order]
    exact h.order

theorem Removed.account {removed : List EntryId} (hr : Removed m m' removed) (hnodup : m.ids.Nodup)
    (hremoved : removed.Nodup) (hin : ∀ id ∈ removed, id ∈ m.ids) : Account m m' [] := by
  rw [Account, outgoing, outgoing, hr.ids, hr.next, hr.evicted, hr.discarded, Nat.sub_self, List.range'_zero,
    List.append_nil, List.append_nil, List.perm_iff_count]
  intro x
  have hsplit : (m.ids.filter fun id => id ∉ removed).count x + removed.count x = m.ids.count x := by
    by_cases hx : x ∈ removed
    · rw [List.count_eq_zero.mpr (by simp [hx]), List.count_eq_one_of_mem hremoved hx,
        List.count_eq_one_of_mem hnodup (hin x hx)]
    · rw [List.count_filter (by simpa using hx), List.count_eq_zero.mpr hx, Nat.add_zero]
  simp only [List.count_append]
  omega

theorem discard_removed {request : Option Uuid} (hsome : m.previews request ≠ []) :
    Removed m (m.discardToolPreviews request) (m.previews request) := by
  rw [discardToolPreviews, if_neg hsome]
  refine ⟨?_, rfl, rfl, rfl, rfl, rfl, rfl⟩
  rw [shape, shape, List.filter_map]
  rfl

theorem kept_discard (m : TranscriptModel) (request : Option Uuid) : Kept m (m.discardToolPreviews request) := by
  by_cases hnone : m.previews request = []
  · have hsame : m.discardToolPreviews request = m := by rw [discardToolPreviews, if_pos hnone]
    rw [hsame]
    exact .refl m
  · have hremoved := discard_removed hnone
    refine ⟨fun _ => hremoved.next.ge, fun _ hs => hs.removed hremoved fun _ _ => refers_discard hs,
      fun _ hs => hremoved.account hs.rows.nodup (List.nodup_dedup _) fun id hid => ?_⟩
    exact mem_ids (hs.live .pendingToolPreviews id (mem_previews hid))

/-! ## changes of the host -/

theorem kept_onUser (m : TranscriptModel) (request : Option Uuid) (text : String) :
    Kept m (m.onUser request text).2 := by
  unfold onUser
  split
  · exact .refl m
  · cases request with
    | none => exact kept_push m _
    | some request =>
      refine .pushed (k := .user (bounded text)) ⟨rfl, rfl, rfl, rfl, rfl, rfl, rfl⟩ [.users] (fun slot id hr => ?_)
        (by simp [Slot.row, EntryKind.row]) (.inl (by simp))
      cases slot with
      | users => exact (names_insert hr).symm.imp_right fun hid => ⟨List.mem_singleton.mpr rfl, hid⟩
      | _ => exact .inl hr

/-- what a row is found or made for: the operation is kept, and the row is there with its kind -/
structure Found (m : TranscriptModel) (found : EntryId × TranscriptModel) (row : RowKind) : Prop where
  kept : Kept m found.2
  mem : found.2.nextEntryId < usizeMax → m.Sound → (found.1, row) ∈ found.2.shape

theorem found_push {k : EntryKind} (hf : Frame (m.push k) m') (slots : List Slot)
    (hrefers : ∀ slot id, m'.Refers slot id → (m.push k).Refers slot id ∨ slot ∈ slots ∧ id = m.nextEntryId)
    (hrow : ∀ slot ∈ slots, slot.row = k.row)
    (hpreview : .pendingToolPreviews ∉ slots ∨ ∀ slot ∈ slots, slot = .pendingToolPreviews ∨ slot = .toolItems) :
    Found m (m.nextEntryId, m') k.row where
  kept := .pushed hf slots hrefers hrow hpreview
  mem hmax hs := by
    rw [hf.shape]
    exact (hs.push (hf.next ▸ hmax)).mem

theorem found_assistantRow (m : TranscriptModel) (key : MessageKey) (confirmed : Bool) :
    Found m (m.assistantRow key confirmed) .assistant := by
  unfold assistantRow
  cases hkey : m.assistants[key]? with
  | some id => exact ⟨.refl m, fun _ hs => hs.live .assistants id (names_get hkey)⟩
  | none =>
    cases hsole : if confirmed = true then m.solePendingAssistant key.owner else none with
    | some preview =>
      obtain ⟨previewKey, id⟩ := preview
      have hlisted : Names m.assistants id := by
        split at hsole
        · unfold solePendingAssistant at hsole
          split at hsole
          · cases hsole
          · split at hsole
            · rename_i hpending
              cases hsole
              have hmem := List.mem_singleton_self (previewKey, id)
              rw [← hpending] at hmem
              exact ⟨previewKey, Std.ExtTreeMap.mem_toList_iff_getElem?_eq_some.mp (List.mem_filter.mp hmem).1⟩
            · cases hsole
        · cases hsole
      have hframe : Frame m { m with assistants := (m.assistants.erase previewKey).insert key id } :=
        ⟨rfl, rfl, rfl, rfl, rfl, rfl, rfl⟩
      refine ⟨.fewer hframe fun slot x hr => ?_, fun _ hs => hs.live .assistants id hlisted⟩
      cases slot with
      | assistants =>
        rcases names_insert hr with rfl | hr
        · exact hlisted
        · exact names_erase hr
      | _ => exact hr
    | none =>
      refine found_push (k := .assistant "" false false) ⟨rfl, rfl, rfl, rfl, rfl, rfl, rfl⟩ [.assistants]
        (fun slot id hr => ?_) (by simp [Slot.row, EntryKind.row]) (.inl (by simp))
      cases slot with
      | assistants => exact (names_insert hr).symm.imp_right fun hid => ⟨List.mem_singleton.mpr rfl, hid⟩
      | _ => exact .inl hr

theorem kept_onAssistant (m : TranscriptModel) (key : MessageKey) (text : String) (replace confirmed finalAnswer : Bool) :
    Kept m (m.onAssistant key text replace confirmed finalAnswer) := by
  refine ((found_assistantRow m key confirmed).kept.trans (kept_update _ _ fun kind => ?_)).trans (kept_transient _ _)
  cases kind <;> rfl

theorem found_reasoningRow (m : TranscriptModel) (key : MessageKey) : Found m (m.reasoningRow key) .reasoning := by
  unfold reasoningRow
  cases hkey : m.reasoning[key]? with
  | some id => exact ⟨.refl m, fun _ hs => hs.live .reasoning id (names_get hkey)⟩
  | none =>
    refine found_push (k := .reasoning "") ⟨rfl, rfl, rfl, rfl, rfl, rfl, rfl⟩ [.reasoning] (fun slot id hr => ?_)
      (by simp [Slot.row, EntryKind.row]) (.inl (by simp))
    cases slot with
    | reasoning => exact (names_insert hr).symm.imp_right fun hid => ⟨List.mem_singleton.mpr rfl, hid⟩
    | _ => exact .inl hr

theorem kept_onReasoning (m : TranscriptModel) (key : MessageKey) (text : String) (replace : Bool) :
    Kept m (m.onReasoning key text replace).2 := by
  unfold onReasoning
  split
  · exact .refl m
  · have hkept := (found_reasoningRow m key).kept
    cases hrow : m.reasoningRow key with
    | mk id found =>
      rw [hrow] at hkept
      refine hkept.trans ?_
      dsimp only
      exact kept_update found id fun kind => by cases kind <;> rfl

/-! ### tools -/

def confirm (m : TranscriptModel) (id : EntryId) : TranscriptModel :=
  { m with pendingToolPreviews := m.pendingToolPreviews.erase id }

theorem refers_confirm {x : EntryId} (h : (m.confirm id).Refers slot x) :
    m.Refers slot x ∧ (slot = .pendingToolPreviews → x ≠ id) := by
  cases slot with
  | pendingToolPreviews =>
    obtain ⟨hne, hmem⟩ := Std.ExtTreeSet.mem_erase.mp h
    refine ⟨hmem, fun _ he => hne ?_⟩
    rw [he]
    exact Std.ReflCmp.compare_self
  | _ => exact ⟨h, nofun⟩

theorem found_proposedRow (m : TranscriptModel) (key : Option MessageKey) (tool : ToolEntry) :
    Found m (m.proposedRow key tool) .tool ∧ ((m.proposedRow key tool).2.nextEntryId < usizeMax → m.Sound →
      ¬(m.proposedRow key tool).2.Refers .pendingToolPreviews (m.proposedRow key tool).1) := by
  unfold proposedRow
  cases hkey : key.bind fun key => m.toolItems[key]? with
  | none =>
    exact ⟨⟨kept_push m _, fun hmax hs => (hs.push hmax).mem⟩, fun hmax hs => (hs.push hmax).fresh .pendingToolPreviews⟩
  | some id =>
    obtain ⟨k, -, hk⟩ := Option.bind_eq_some_iff.mp hkey
    have hkept : Kept m (m.confirm id) :=
      .fewer ⟨rfl, rfl, rfl, rfl, rfl, rfl, rfl⟩ fun _ _ hr => (refers_confirm hr).1
    have hlive : (m.confirm id).Sound → (id, RowKind.tool) ∈ (m.confirm id).shape := fun hs =>
      hs.live .toolItems id (names_get (m := (m.confirm id).toolItems) hk)
    have hupdated : Kept (m.confirm id) ((m.confirm id).update id fun _ => .tool tool) := .replaced hlive
    refine ⟨⟨hkept.trans hupdated, fun hmax hs => ?_⟩, fun _ _ hr => ?_⟩
    · have hs' := hkept.sound (update_next (m.confirm id) id _ ▸ hmax) hs
      have hshape := (hs'.frame_replaced (k := .tool tool) (hlive hs')).shape
      exact hshape ▸ hlive hs'
    · have hr : ((m.confirm id).update id fun _ => .tool tool).Refers .pendingToolPreviews id := hr
      exact (refers_confirm (refers_update hr)).2 rfl rfl

theorem kept_onToolProposed (m : TranscriptModel) (serde : SerdeJson) (atMs : Nat) (key : Option MessageKey)
    (callId name arguments : String) : Kept m (m.onToolProposed serde atMs key callId name arguments) := by
  unfold onToolProposed
  cases hcall : m.tools[callId]? with
  | some id => exact kept_update m id (row_mapTool _)
  | none =>
    dsimp only
    obtain ⟨⟨hkept, hmem⟩, hpending⟩ := found_proposedRow m key
      (proposedTool name ((serde.fromStr (bounded arguments)).getD (.string (bounded arguments))) atMs)
    cases hrow : m.proposedRow key
      (proposedTool name ((serde.fromStr (bounded arguments)).getD (.string (bounded arguments))) atMs) with
    | mk id found =>
      rw [hrow] at hkept hmem hpending
      dsimp only at hkept hmem hpending ⊢
      cases key with
      | none =>
        refine hkept.index (x := id) ⟨rfl, rfl, rfl, rfl, rfl, rfl, rfl⟩ [.tools] (fun slot x hr => ?_)
          (fun hmax hs slot hslot => ?_) fun hmax hs slot hp => absurd hp (hpending hmax hs)
        · cases slot with
          | tools => exact (names_insert hr).symm.imp_right fun hid => ⟨List.mem_singleton.mpr rfl, hid⟩
          | _ => exact .inl hr
        · rw [List.mem_singleton.mp hslot]
          exact hmem hmax hs
      | some key =>
        refine hkept.index (x := id) ⟨rfl, rfl, rfl, rfl, rfl, rfl, rfl⟩ [.tools, .toolItems] (fun slot x hr => ?_)
          (fun hmax hs slot hslot => ?_) fun hmax hs slot hp => absurd hp (hpending hmax hs)
        · cases slot with
          | tools => exact (names_insert hr).symm.imp_right fun hid => ⟨by simp, hid⟩
          | toolItems => exact (names_insert hr).symm.imp_right fun hid => ⟨by simp, hid⟩
          | _ => exact .inl hr
        · have hrow : slot.row = .tool := by
            rcases List.mem_pair.mp hslot with rfl | rfl <;> rfl
          rw [hrow]
          exact hmem hmax hs

theorem kept_onToolArguments (m : TranscriptModel) (atMs : Nat) (key : MessageKey) (chunk : String) :
    Kept m (m.onToolArguments atMs key chunk).2 := by
  have hrow : ∀ id found, m.argumentsRow atMs key = some (id, found) → Kept m found := by
    intro id found h
    unfold argumentsRow at h
    split at h
    · split at h
      · cases h
        exact .refl m
      · cases h
    · cases h
      refine .pushed (k := .tool (proposedTool "tool" (.string "") atMs)) ⟨rfl, rfl, rfl, rfl, rfl, rfl, rfl⟩
        [.toolItems, .pendingToolPreviews] (fun slot id hr => ?_) (by simp [Slot.row, EntryKind.row]) (.inr (by simp))
      cases slot with
      | toolItems => exact (names_insert hr).symm.imp_right fun hid => ⟨by simp, hid⟩
      | pendingToolPreviews =>
        rcases Std.ExtTreeSet.mem_insert.mp hr with heq | hold
        · exact .inr ⟨by simp, (Std.LawfulEqCmp.compare_eq_iff_eq.mp heq).symm⟩
        · exact .inl hold
      | _ => exact .inl hr
  unfold onToolArguments
  split
  · exact .refl m
  · split
    · exact .refl m
    · rename_i id found hfound
      exact (hrow id found hfound).trans (kept_update found id (row_mapTool _))

theorem kept_onToolResult (m : TranscriptModel) (serde : SerdeJson) (callId output : String) :
    Kept m (m.onToolResult serde callId output) := by
  unfold onToolResult
  split
  · exact kept_update m _ (row_mapTool _)
  · exact .refl m

theorem kept_onRequestSettled (m : TranscriptModel) (atMs : Nat) (request : Uuid) (error : Option String) :
    Kept m (m.onRequestSettled atMs request error) :=
  (((kept_discard m (some request)).trans (kept_requests _ _)).trans (kept_push _ _)).trans (kept_transient _ _)

/-! ### jobs -/

theorem found_jobRow (m : TranscriptModel) (job : Job) (invocation : JobInvocation) (callId : String) :
    Found m (m.jobRow job invocation callId) .tool ∧ ((m.jobRow job invocation callId).2.nextEntryId < usizeMax →
      m.Sound → ¬(m.jobRow job invocation callId).2.Refers .pendingToolPreviews (m.jobRow job invocation callId).1) := by
  unfold jobRow
  cases hcall : m.tools[callId]? with
  | some id =>
    refine ⟨⟨.refl m, fun _ hs => hs.live .tools id (names_get hcall)⟩, fun _ hs hp => ?_⟩
    exact (hs.preview .tools id hp (names_get hcall)).elim nofun nofun
  | none =>
    refine ⟨found_push (k := .tool (runningTool job invocation)) ⟨rfl, rfl, rfl, rfl, rfl, rfl, rfl⟩ [.tools]
      (fun slot id hr => ?_) (by simp [Slot.row, EntryKind.row]) (.inl (by simp)), fun hmax hs => ?_⟩
    · cases slot with
      | tools => exact (names_insert hr).symm.imp_right fun hid => ⟨by simp, hid⟩
      | _ => exact .inl hr
    · exact (hs.push hmax).fresh .pendingToolPreviews

theorem kept_onJobStarted (m : TranscriptModel) (job : Job) : Kept m (m.onJobStarted job) := by
  unfold onJobStarted
  split
  · rename_i invocation hinvocation
    split
    · rename_i callId hcallId
      obtain ⟨⟨hkept, hmem⟩, hpending⟩ := found_jobRow m job invocation callId
      cases hrow : m.jobRow job invocation callId with
      | mk id found =>
        rw [hrow] at hkept hmem hpending
        dsimp only at hkept hmem hpending ⊢
        refine Kept.trans ?_ (kept_update _ id (row_mapTool _))
        refine hkept.index (x := id) ⟨rfl, rfl, rfl, rfl, rfl, rfl, rfl⟩ [.jobs, .runningTools] (fun slot x hr => ?_)
          (fun hmax hs slot hslot => ?_) fun hmax hs slot hp => absurd hp (hpending hmax hs)
        · cases slot with
          | jobs => exact (names_insert hr).symm.imp_right fun hid => ⟨by simp, hid⟩
          | runningTools =>
            rcases Std.ExtTreeSet.mem_insert.mp hr with heq | hold
            · exact .inr ⟨by simp, (Std.LawfulEqCmp.compare_eq_iff_eq.mp heq).symm⟩
            · exact .inl hold
          | _ => exact .inl hr
        · have hrow : slot.row = .tool := by
            rcases List.mem_pair.mp hslot with rfl | rfl <;> rfl
          rw [hrow]
          exact hmem hmax hs
    · exact .refl m
  · exact .refl m

theorem kept_finish (m : TranscriptModel) (id : EntryId) : Kept m { m with runningTools := m.runningTools.erase id } := by
  refine .fewer ⟨rfl, rfl, rfl, rfl, rfl, rfl, rfl⟩ fun slot x hr => ?_
  cases slot with
  | runningTools => exact (Std.ExtTreeSet.mem_erase.mp hr).2
  | _ => exact hr

theorem kept_onJobSettled (m : TranscriptModel) (job : Uuid) (status : JobStatus) :
    Kept m (m.onJobSettled job status) := by
  unfold onJobSettled
  split
  · rename_i id hid
    have hupdated := kept_update m id (row_mapTool fun tool => { tool with state := jobState status })
    refine (hupdated.trans ?_).trans (kept_transient _ _)
    split
    · exact kept_finish _ id
    · exact .refl _
  · exact .refl m

theorem kept_onJobFenced (m : TranscriptModel) (job : Uuid) (receipt : Digest) : Kept m (m.onJobFenced job receipt) := by
  unfold onJobFenced
  split
  · rename_i id hid
    exact (kept_update m id (row_mapTool _)).trans (kept_finish _ id)
  · exact .refl m

theorem kept_onTask (m : TranscriptModel) (id : TaskId) (event : TaskEvent) : Kept m (m.onTask id event).2 := by
  unfold onTask
  split
  · exact kept_onJobStarted m _
  · exact kept_onJobSettled m _ _
  · exact kept_onJobFenced m _ _
  · split
    · exact kept_push m _
    · exact .refl m

theorem kept_onTaskInput (m : TranscriptModel) (job : Uuid) (arguments : Value) : Kept m (m.onTaskInput job arguments) := by
  unfold onTaskInput
  split
  · exact kept_update m _ (row_mapTool _)
  · exact .refl m

theorem row_interrupted (kind : EntryKind) : (interrupted kind).row = kind.row := by
  unfold interrupted
  split <;> rfl

theorem kept_onDiscardPreviews (m : TranscriptModel) : Kept m m.onDiscardPreviews := by
  have hall : ∀ (ids : List EntryId) (m : TranscriptModel),
      Kept m (ids.foldl (fun m id => m.update id interrupted) m) := by
    intro ids
    induction ids with
    | nil => exact fun m => .refl m
    | cons id ids ih => exact fun m => (kept_update m id row_interrupted).trans (ih _)
  exact (kept_discard m none).trans (hall _ _)

theorem kept_applyHost (m : TranscriptModel) (serde : SerdeJson) (atMs : Nat) (change : ViewChange) :
    Kept m (m.applyHost serde atMs change).2 := by
  cases change with
  | historicalImport manifest sourceSession => exact kept_push m _
  | session parent =>
    cases parent with
    | some parent => exact kept_push m _
    | none => exact .refl m
  | user request text => exact kept_onUser m request text
  | requestStarted request =>
    exact (kept_requests m (m.activeRequests.insert request atMs)).trans (kept_transient _ (some .thinking))
  | assistant request item text replace confirmed finalAnswer => exact kept_onAssistant m _ _ _ _ _
  | reasoning request item text replace => exact kept_onReasoning m _ _ _
  | toolProposed request itemId callId name arguments => exact kept_onToolProposed m _ _ _ _ _ _
  | toolArguments request itemId chunk => exact kept_onToolArguments m _ _ _
  | toolResult callId output => exact kept_onToolResult m _ _ _
  | requestSettled request error => exact kept_onRequestSettled m _ _ _
  | settings settings => exact (kept_push m _).trans (kept_push _ _)
  | taskLinked task => exact kept_push m _
  | taskInput job arguments => exact kept_onTaskInput m _ _
  | task id event => exact kept_onTask m _ _
  | discardPreviews => exact kept_onDiscardPreviews m
  | warning message => exact kept_push m _
  | status text => exact kept_push m _
  | _ => exact .refl m

/-! ## records -/

theorem kept_applyChanges (serde : SerdeJson) (atMs : Nat) (changes : List ViewChange) (m : TranscriptModel) :
    Kept m (applyChanges serde atMs m changes).2 := by
  induction changes generalizing m with
  | nil => exact .refl m
  | cons change changes ih => exact (kept_applyHost m serde atMs change).trans (ih _)

theorem kept_noteTruncation (m : TranscriptModel) : Kept m m.noteTruncation := by
  unfold noteTruncation
  split
  · have hnoted : Kept m { m with historyTruncated := true } :=
      .fewer ⟨rfl, rfl, rfl, rfl, rfl, rfl, rfl⟩ fun slot _ hr => by cases slot <;> exact hr
    exact hnoted.trans (kept_push _ _)
  · exact .refl m

theorem not_refers_default (slot : Slot) (id : EntryId) : ¬default.Refers slot id := by
  intro hr
  cases slot with
  | pendingToolPreviews => exact Std.ExtTreeSet.not_mem_empty hr
  | runningTools => exact Std.ExtTreeSet.not_mem_empty hr
  | _ => exact not_names_empty id hr

theorem default_sound : default.Sound where
  rows := ⟨List.Pairwise.nil, nofun, Nat.zero_le _, fun x i => by simp [default, ids]⟩
  live slot id hr := absurd hr (not_refers_default slot id)
  preview slot id _ hr := absurd hr (not_refers_default slot id)
  threads t id ht := by simp [default] at ht
  order := ⟨List.nodup_nil, fun t => by simp [default]⟩

theorem forkSnapshot_sound (h : m.Sound) : m.forkSnapshot.Sound := by
  have hsub : m.forkSnapshot.ids.Sublist m.ids :=
    (List.filter_sublist.trans (List.take_sublist _ _)).map TranscriptEntry.id
  have hrefers : ∀ slot id, ¬m.forkSnapshot.Refers slot id := fun slot id hr =>
    not_refers_default slot id (by cases slot <;> exact hr)
  refine ⟨⟨h.rows.increasing.sublist hsub, fun id hid => h.rows.given id (hsub.subset hid), ?_,
    indexes_positions (h.rows.nodup.sublist hsub)⟩, fun slot id hr => absurd hr (hrefers slot id),
    fun slot id _ hr => absurd hr (hrefers slot id), fun t id ht => ?_, default_sound.order⟩
  · rw [← length_ids]
    refine hsub.length_le.trans ?_
    rw [length_ids]
    exact h.rows.size
  · exact absurd (default_sound.threads t id ht).1 (by simp [default])

/-! ## messages -/

/-- what a call keeps, and what it reports as removed; a fork forgets rows and reports nothing -/
structure Reports (accounted : Prop) (m : TranscriptModel) (out : ModelChange × TranscriptModel) : Prop where
  next : out.2.nextEntryId < usizeMax → m.nextEntryId ≤ out.2.nextEntryId
  sound : out.2.nextEntryId < usizeMax → m.Sound → out.2.Sound
  account : accounted → out.2.nextEntryId < usizeMax → m.Sound → Account m out.2 out.1.removed

theorem Kept.reports {out : ModelChange × TranscriptModel} {accounted : Prop} (h : Kept m m')
    (h' : Reports accounted m' out) : Reports accounted m out := by
  have hmid : out.2.nextEntryId < usizeMax → m'.nextEntryId < usizeMax := fun hmax => (h'.next hmax).trans_lt hmax
  refine ⟨fun hmax => (h.next (hmid hmax)).trans (h'.next hmax),
    fun hmax hs => h'.sound hmax (h.sound (hmid hmax) hs), fun hacc hmax hs => ?_⟩
  exact (h.account (hmid hmax) hs).trans (h'.account hacc hmax (h.sound (hmid hmax) hs)) (h.next (hmid hmax)) (h'.next hmax)

theorem Reports.same {accounted : Prop} (m : TranscriptModel) (changed : Bool) : Reports accounted m (⟨changed, []⟩, m) :=
  ⟨fun _ => Nat.le_refl _, fun _ h => h, fun _ _ _ => (Frame.refl m).account⟩

def without (m : TranscriptModel) (thread : ThreadId) (position : Nat) : TranscriptModel :=
  { m with
    messageOrder := m.messageOrder.eraseIdx position
    messageThreads := m.messageThreads.erase thread }

theorem refers_without {position : Nat} (h : (m.without thread position).Refers slot id) :
    m.Refers slot id := by
  cases slot <;> exact h

theorem Sound.without {position : Nat} (h : m.Sound) (hat : m.messageOrder[position]? = some thread) :
    (m.without thread position).Sound := by
  obtain ⟨hlt, hthread⟩ := List.getElem?_eq_some_iff.mp hat
  have horder : m.messageOrder.eraseIdx position = m.messageOrder.erase thread := by
    rw [← hthread]
    exact (h.order.1.erase_getElem position hlt).symm
  have hget : ∀ (t : ThreadId) (id : EntryId), (m.messageThreads.erase thread)[t]? = some id →
      m.messageThreads[t]? = some id := by
    intro t id ht
    rw [Std.ExtTreeMap.getElem?_erase] at ht
    split at ht
    · cases ht
    · exact ht
  refine ⟨⟨h.rows.increasing, h.rows.given, h.rows.size, h.rows.indexed⟩, fun slot id hr => h.live slot id (refers_without hr),
    fun slot id hp hr => h.preview slot id (refers_without hp) (refers_without hr), fun t id ht => h.threads t id (hget t id ht),
    ?_, fun t => ?_⟩
  · exact h.order.1.sublist (List.eraseIdx_sublist _ _)
  · show t ∈ m.messageOrder.eraseIdx position ↔ ((m.messageThreads.erase thread)[t]?).isSome = true
    rw [horder, h.order.1.mem_erase_iff, h.order.2, Std.ExtTreeMap.getElem?_erase]
    by_cases he : t = thread
    · subst he
      simp [Std.ReflCmp.compare_self]
    · have hne : ¬compare thread t = .eq := fun heq => he (Std.LawfulEqCmp.compare_eq_iff_eq.mp heq).symm
      simp [he, hne]

/-- what is left without one row -/
structure Erased (m m' : TranscriptModel) (id : EntryId) (index : Nat) : Prop where
  ids : m'.ids = m.ids.eraseIdx index
  shape : m'.shape = m.shape.eraseIdx index
  indices : m'.entryIndices = reindex (m.entryIndices.erase id) m'.ids index
  next : m'.nextEntryId = m.nextEntryId
  threads : m'.messageThreads = m.messageThreads
  order : m'.messageOrder = m.messageOrder
  outgoing : m'.outgoing = m.outgoing
  refers : ∀ slot x, m'.Refers slot x → m.Refers slot x

theorem eraseRow_erased {index : Nat} (h : m.indexOf id = some index) :
    ∃ m', m.eraseRow id = (some id, m') ∧ Erased m m' id index := by
  unfold eraseRow
  rw [h]
  refine ⟨_, rfl, (List.eraseIdx_map _ _ _).symm, (List.eraseIdx_map _ _ _).symm, rfl, rfl, rfl, rfl, rfl,
    fun slot x hr => ?_⟩
  cases slot <;> exact hr

/-- a row that is in no index can go -/
theorem Sound.erased {index : Nat} (h : m.Sound) (hat : m.ids[index]? = some id) (he : Erased m m' id index)
    (hout : ∀ slot, ¬m.Refers slot id) : m'.Sound := by
  have hsub : m'.ids.Sublist m.ids := he.ids ▸ List.eraseIdx_sublist _ _
  refine ⟨⟨h.rows.increasing.sublist hsub, ?_, ?_, ?_⟩, fun slot x hr => ?_,
    fun slot x hp hr => h.preview slot x (he.refers _ x hp) (he.refers slot x hr), fun t x ht => ?_, ?_⟩
  · rw [he.next]
    exact fun x hx => h.rows.given x (hsub.subset hx)
  · rw [← length_ids]
    refine hsub.length_le.trans ?_
    rw [length_ids]
    exact h.rows.size
  · rw [he.indices, he.ids]
    exact h.rows.indexed.eraseIdx h.rows.nodup hat
  · have hold := he.refers slot x hr
    obtain ⟨j, hj⟩ := List.mem_iff_getElem?.mp (h.live slot x hold)
    rw [he.shape]
    refine List.mem_eraseIdx_iff_getElem?.mpr ⟨j, fun hji => ?_, hj⟩
    have hx : m.ids[j]? = some x := by
      rw [← map_fst_shape, List.getElem?_map, hj]
      rfl
    rw [hji, hat] at hx
    exact hout slot (Option.some.inj hx ▸ hold)
  · obtain ⟨hlt, hrow⟩ := h.threads t x (he.threads ▸ ht)
    rw [he.next, he.shape]
    exact ⟨hlt, fun row hr => hrow row (List.eraseIdx_subset hr)⟩
  · rw [he.threads, he.order]
    exact h.order

theorem Erased.account {index : Nat} (he : Erased m m' id index) (hat : m.ids[index]? = some id) :
    Account m m' [id] := by
  obtain ⟨hlt, hid⟩ := List.getElem?_eq_some_iff.mp hat
  have hperm := List.getElem_cons_eraseIdx_perm hlt
  rw [hid] at hperm
  rw [Account, he.ids, he.outgoing, he.next, Nat.sub_self, List.range'_zero, List.append_nil, List.perm_iff_count]
  intro x
  have hx := List.perm_iff_count.mp hperm x
  simp only [List.count_append, List.count_cons, List.count_nil] at hx ⊢
  omega

theorem reports_eraseRow (changed : Bool) (hout : m.Sound → ∀ slot, ¬m.Refers slot id) :
    Reports True m (⟨changed, (m.eraseRow id).1.toList⟩, (m.eraseRow id).2) := by
  cases hindex : m.indexOf id with
  | none =>
    have hsame : m.eraseRow id = (none, m) := by rw [eraseRow, hindex]
    rw [hsame]
    exact .same m changed
  | some index =>
    obtain ⟨m', hrow, herased⟩ := eraseRow_erased hindex
    rw [hrow]
    have hat : m.Sound → m.ids[index]? = some id := fun hs => (hs.rows.indexed id index).mp hindex
    exact ⟨fun _ => herased.next.ge, fun _ hs => hs.erased (hat hs) herased (hout hs),
      fun _ _ hs => herased.account (hat hs)⟩

theorem eraseRow_next (m : TranscriptModel) (id : EntryId) : (m.eraseRow id).2.nextEntryId = m.nextEntryId := by
  unfold eraseRow
  split <;> rfl

theorem reports_trimmed (m : TranscriptModel) (changed : Bool) : Reports True m (m.trimmed changed) := by
  show Reports True m (⟨changed, m.trimMessageHistory.1.toList⟩, m.trimMessageHistory.2)
  unfold trimMessageHistory
  split
  · exact .same m changed
  · split
    · exact .same m changed
    · rename_i position hposition
      split
      · exact .same m changed
      · rename_i thread hthread
        unfold forget
        cases hid : m.messageThreads[thread]? with
        | none =>
          have hnever : ¬m.Sound := fun hs => by
            have hsome := (hs.order.2 thread).mp (List.mem_of_getElem? hthread)
            rw [hid] at hsome
            cases hsome
          exact ⟨fun _ => Nat.le_refl _, fun _ hs => absurd hs hnever, fun _ _ hs => absurd hs hnever⟩
        | some id =>
          -- a message row is in none of the other indexes
          have hout : m.Sound → ∀ slot, ¬(m.without thread position).Refers slot id := by
            intro hs slot hr
            have hrow := (hs.threads thread id hid).2 slot.row (hs.live slot id (refers_without hr))
            cases slot <;> cases hrow
          have hkept : Kept m (m.without thread position) :=
            ⟨fun _ => Nat.le_refl _, fun _ hs => hs.without hthread, fun _ _ => (Frame.refl m).account⟩
          by_cases hs : m.Sound
          · exact hkept.reports (reports_eraseRow changed fun _ => hout hs)
          · refine ⟨fun _ => ?_, fun _ hs' => absurd hs' hs, fun _ _ hs' => absurd hs' hs⟩
            exact (eraseRow_next (m.without thread position) id).ge

theorem kept_clearReasoning (m : TranscriptModel) : Kept m { m with reasoning := ∅ } := by
  refine .fewer ⟨rfl, rfl, rfl, rfl, rfl, rfl, rfl⟩ fun slot x hr => ?_
  cases slot with
  | reasoning => exact absurd hr (not_names_empty x)
  | _ => exact hr

theorem kept_thread (hrow : kind.row = .message) (hnew : m.messageThreads[thread]? = none) :
    Kept m { m.push kind with
      messageThreads := (m.push kind).messageThreads.insert thread m.nextEntryId
      messageOrder := (m.push kind).messageOrder ++ [thread] } := by
  have hkept := kept_push m kind
  obtain ⟨-, hthreads, horder⟩ := makeRoom_frame (m.spaced kind)
  have hthreads : (m.push kind).messageThreads = m.messageThreads := hthreads
  have horder : (m.push kind).messageOrder = m.messageOrder := horder
  refine ⟨hkept.next, fun hmax hs => ?_, fun hmax hs => hkept.account hmax hs⟩
  have hpushed := hs.push hmax
  have hs' := hpushed.sound
  refine ⟨⟨hs'.rows.increasing, hs'.rows.given, hs'.rows.size, hs'.rows.indexed⟩, fun slot id hr => ?_,
    fun slot id hp hr => ?_, fun t id ht => ?_, ?_, fun t => ?_⟩
  · exact hs'.live slot id (by cases slot <;> exact hr)
  · exact hs'.preview slot id hp (by cases slot <;> exact hr)
  · change ((m.push kind).messageThreads.insert thread m.nextEntryId)[t]? = some id at ht
    rw [Std.ExtTreeMap.getElem?_insert] at ht
    split at ht
    · obtain rfl := Option.some.inj ht
      refine ⟨?_, fun row hr => ?_⟩
      · show m.nextEntryId < (m.push kind).nextEntryId
        rw [hpushed.next]
        exact Nat.lt_succ_self _
      · rw [hs'.rows.row_eq hr hpushed.mem, hrow]
    · exact hs'.threads t id ht
  · show ((m.push kind).messageOrder ++ [thread]).Nodup
    rw [horder]
    refine List.nodup_append.mpr ⟨hs.order.1, List.nodup_singleton _, fun t ht x hx he => ?_⟩
    rw [List.mem_singleton.mp hx] at he
    have hsome := (hs.order.2 t).mp ht
    rw [he, hnew] at hsome
    cases hsome
  · show t ∈ (m.push kind).messageOrder ++ [thread] ↔
      (((m.push kind).messageThreads.insert thread m.nextEntryId)[t]?).isSome = true
    rw [horder, hthreads, Std.ExtTreeMap.getElem?_insert, List.mem_append, hs.order.2, List.mem_singleton]
    by_cases he : t = thread
    · subst he
      simp [Std.ReflCmp.compare_self]
    · have hne : ¬compare thread t = .eq := fun heq => he (Std.LawfulEqCmp.compare_eq_iff_eq.mp heq).symm
      simp [he, hne]

theorem reports_applyMessage (m : TranscriptModel) (perspective : MessageOrigin) (news : MessageUpdate) :
    Reports True m (m.applyMessage perspective news) := by
  unfold applyMessage
  cases hthread : m.messageThreads[news.thread.id]? with
  | none => exact (kept_thread rfl hthread).reports (reports_trimmed _ true)
  | some id =>
    dsimp only
    split
    · rename_i message _ _ _ hentry
      split
      · have hlive : ({ m with reasoning := ∅ } : TranscriptModel).Sound →
            (id, (EntryKind.directedMessage (advance message news)).row) ∈ m.shape := fun hs => hs.entry hentry
        exact ((kept_clearReasoning m).trans (.replaced hlive)).reports (reports_trimmed _ true)
      · exact .same m false
    · exact .same m false

end TranscriptModel

/-! ## every run -/

/-- a fork begins with a copy of the rows that are complete -/
def LocalEvent.forks : LocalEvent → Bool
  | .sessionStarted (some _) => true
  | _ => false

def TranscriptRecord.forks (record : TranscriptRecord) : Bool :=
  record.hostChanges.isEmpty && record.localEvent.any LocalEvent.forks

inductive TranscriptCall where
  | record (record : TranscriptRecord)
  | message (perspective : MessageOrigin) (news : MessageUpdate)
  | disconnected

def TranscriptCall.forks : TranscriptCall → Bool
  | .record r => r.forks
  | _ => false

namespace TranscriptModel

variable {m m' : TranscriptModel}

/-- `apply`, `apply_message` and `view_disconnected` -/
def call (serde : SerdeJson) (m : TranscriptModel) : TranscriptCall → ModelChange × TranscriptModel
  | .record record => m.apply serde record
  | .message perspective news => m.applyMessage perspective news
  | .disconnected => (⟨true, []⟩, { m with transient := some .reconnecting })

def runFrom (serde : SerdeJson) : TranscriptModel → List TranscriptCall → List EntryId × TranscriptModel
  | m, [] => ([], m)
  | m, c :: calls =>
    let (change, m) := m.call serde c
    let (removed, m) := runFrom serde m calls
    (change.removed ++ removed, m)

theorem kept_applyLocal (m : TranscriptModel) {event : LocalEvent} (h : event.forks = false) :
    Kept m (m.applyLocal event).2 := by
  cases event with
  | sessionStarted parent =>
    cases parent with
    | none => exact .refl m
    | some parent => cases h
  | workerStopped error =>
    cases error with
    | none => exact .refl m
    | some error => exact kept_push m _
  | userSubmitted text => exact kept_push m _
  | userSteered text => exact kept_push m _
  | effortChanged effort => exact kept_push m _
  | fastModeChanged enabled => exact kept_push m _
  | reflectionStarted => exact kept_push m _
  | workerSteerFailed error => exact kept_push m _
  | sessionEnded => exact kept_transient m _
  | _ => exact .refl m

theorem reports_applyRecord (m : TranscriptModel) (serde : SerdeJson) (record : TranscriptRecord) (changed : Bool) :
    Reports (record.forks = false) m (⟨changed, []⟩, (m.applyRecord serde record).2) := by
  unfold applyRecord
  cases hchanges : record.hostChanges with
  | cons change changes =>
    have hkept := kept_applyChanges serde record.recordedAtUnixMs (change :: changes) m
    exact ⟨hkept.next, hkept.sound, fun _ => hkept.account⟩
  | nil =>
    cases hlocal : record.localEvent with
    | none => exact .same m changed
    | some event =>
      simp only [Option.map_some, Option.getD_some]
      by_cases hforks : event.forks = false
      · have hkept := kept_applyLocal m hforks
        exact ⟨hkept.next, hkept.sound, fun _ => hkept.account⟩
      · have hrecord : record.forks ≠ false := by
          simpa [TranscriptRecord.forks, hchanges, hlocal] using hforks
        obtain ⟨parent, rfl⟩ : ∃ parent, event = .sessionStarted (some parent) := by
          cases event with
          | sessionStarted parent =>
            cases parent with
            | none => exact absurd rfl hforks
            | some parent => exact ⟨parent, rfl⟩
          | _ => exact absurd rfl hforks
        have hpush := kept_push m.forkSnapshot (.forkedFrom parent)
        exact ⟨hpush.next, fun hmax hs => hpush.sound hmax (forkSnapshot_sound hs), fun h => absurd h hrecord⟩

theorem reports_drain (m : TranscriptModel) (changed : Bool) : Reports True m (m.drain changed) := by
  refine ⟨fun _ => Nat.le_refl _, fun _ hs => ?_, fun _ _ _ => ?_⟩
  · refine ⟨⟨hs.rows.increasing, hs.rows.given, hs.rows.size, hs.rows.indexed⟩, fun slot id hr => ?_,
      fun slot id hp hr => ?_, hs.threads, hs.order⟩
    · exact hs.live slot id (by cases slot <;> exact hr)
    · exact hs.preview slot id hp (by cases slot <;> exact hr)
  · show (m.ids ++ [] ++ m.outgoing).Perm _
    rw [List.append_nil, drain, Nat.sub_self, List.range'_zero, List.append_nil]

theorem Reports.trans {accounted : Prop} {out out' : ModelChange × TranscriptModel} (h : Reports accounted m out)
    (h' : Reports accounted out.2 out') :
    Reports accounted m (⟨out'.1.changed, out.1.removed ++ out'.1.removed⟩, out'.2) := by
  have hmid : out'.2.nextEntryId < usizeMax → out.2.nextEntryId < usizeMax := fun hmax => (h'.next hmax).trans_lt hmax
  refine ⟨fun hmax => (h.next (hmid hmax)).trans (h'.next hmax),
    fun hmax hs => h'.sound hmax (h.sound (hmid hmax) hs), fun hacc hmax hs => ?_⟩
  exact (h.account hacc (hmid hmax) hs).trans (h'.account hacc hmax (h.sound (hmid hmax) hs)) (h.next (hmid hmax))
    (h'.next hmax)

theorem Reports.mono {accounted accounted' : Prop} {out : ModelChange × TranscriptModel} (h : Reports accounted m out)
    (himp : accounted' → accounted) : Reports accounted' m out :=
  ⟨h.next, h.sound, fun hacc => h.account (himp hacc)⟩

theorem reports_apply (m : TranscriptModel) (serde : SerdeJson) (record : TranscriptRecord) :
    Reports (record.forks = false) m (m.apply serde record) := by
  have hrest := (kept_noteTruncation (m.applyRecord serde record).2).reports
    (reports_drain (m.applyRecord serde record).2.noteTruncation (m.applyRecord serde record).1)
  exact (reports_applyRecord m serde record true).trans (hrest.mono fun _ => trivial)

theorem reports_call (serde : SerdeJson) (m : TranscriptModel) (c : TranscriptCall) :
    Reports (c.forks = false) m (m.call serde c) := by
  cases c with
  | record record => exact reports_apply m serde record
  | message perspective news => exact (reports_applyMessage m perspective news).mono fun _ => trivial
  | disconnected =>
    have hkept := kept_transient m (some .reconnecting)
    exact ⟨hkept.next, hkept.sound, fun _ => hkept.account⟩

theorem reports_runFrom (serde : SerdeJson) (calls : List TranscriptCall) (m : TranscriptModel) :
    Reports (∀ c ∈ calls, c.forks = false) m
      (⟨true, (runFrom serde m calls).1⟩, (runFrom serde m calls).2) := by
  induction calls generalizing m with
  | nil => exact .same m true
  | cons c calls ih =>
    exact ((reports_call serde m c).mono fun h => h c List.mem_cons_self).trans
      ((ih (m.call serde c).2).mono fun h d hd => h d (List.mem_cons_of_mem c hd))

/-! ## every row once -/

/-- a row that waits for its report is not shown any more, and waits once -/
structure Outstanding (m : TranscriptModel) : Prop where
  nodup : (m.ids ++ m.outgoing).Nodup
  given : ∀ id ∈ m.ids ++ m.outgoing, id < m.nextEntryId

theorem default_outstanding : default.Outstanding := ⟨List.nodup_nil, fun _ h => (nomatch h)⟩

theorem Sound.outstanding (h : m.Sound) (hnone : m.outgoing = []) : m.Outstanding := by
  refine ⟨?_, ?_⟩
  · rw [hnone, List.append_nil]
    exact h.rows.nodup
  · rw [hnone, List.append_nil]
    exact h.rows.given

theorem Outstanding.all (h : m.Outstanding) (n : Nat) :
    (m.ids ++ m.outgoing ++ List.range' m.nextEntryId n).Nodup := by
  refine List.nodup_append.mpr ⟨h.nodup, List.nodup_range', fun a ha b hb => ?_⟩
  exact Nat.ne_of_lt ((h.given a ha).trans_le (List.mem_range'_1.mp hb).1)

/-- **A row that is accounted for is in one place.** -/
theorem Account.once {removed : List EntryId} (h : Account m m' removed) (ho : m.Outstanding) :
    (m'.ids ++ m'.outgoing ++ removed).Nodup := h.nodup_iff.mpr (ho.all _)

theorem Account.outstanding {removed : List EntryId} (h : Account m m' removed) (ho : m.Outstanding)
    (hle : m.nextEntryId ≤ m'.nextEntryId) : m'.Outstanding := by
  refine ⟨(h.once ho).of_append_left, fun id hid => ?_⟩
  rcases List.mem_append.mp (h.subset (List.mem_append_left removed hid)) with hid | hid
  · exact (ho.given id hid).trans_le hle
  · exact (List.mem_range'_1.mp hid).2.trans_eq (Nat.add_sub_cancel' hle)

theorem outgoing_apply (m : TranscriptModel) (serde : SerdeJson) (record : TranscriptRecord) :
    (m.apply serde record).2.outgoing = [] := rfl

theorem outstanding_call (serde : SerdeJson) (c : TranscriptCall) (hs : m.Sound) (ho : m.Outstanding)
    (h : (m.call serde c).2.nextEntryId < usizeMax) : (m.call serde c).2.Outstanding := by
  have hcall := reports_call serde m c
  by_cases hforks : c.forks = false
  · exact (hcall.account hforks h hs).outstanding ho (hcall.next h)
  · cases c with
    | record record => exact (hcall.sound h hs).outstanding (outgoing_apply m serde record)
    | message perspective news => exact absurd rfl hforks
    | disconnected => exact absurd rfl hforks

theorem outstanding_runFrom (serde : SerdeJson) (calls : List TranscriptCall) (hs : m.Sound)
    (ho : m.Outstanding) (h : (runFrom serde m calls).2.nextEntryId < usizeMax) :
    (runFrom serde m calls).2.Outstanding := by
  induction calls generalizing m with
  | nil => exact ho
  | cons c calls ih =>
    have hcall := ((reports_runFrom serde calls (m.call serde c).2).next h).trans_lt h
    exact ih ((reports_call serde m c).sound hcall hs) (outstanding_call serde c hs ho hcall) h

/-! ## the results -/

/-- **In every run of records and messages that does not run out of ids, the rows are in the order of their ids, at most
`maxEntries` of them, the primary index is exact, and whatever the other indexes name is a row of their kind.** -/
theorem transcript_sound (serde : SerdeJson) (calls : List TranscriptCall)
    (h : (runFrom serde default calls).2.nextEntryId < usizeMax) : (runFrom serde default calls).2.Sound :=
  (reports_runFrom serde calls default).sound h default_sound

/-- **After any calls, as long as there is no fork, a row that was there or that was made since is in exactly one place: it
is shown, it was reported as removed, or it waits for the next record, and after a record none waits.** -/
theorem transcript_reported (serde : SerdeJson) (before calls : List TranscriptCall)
    (hforks : ∀ c ∈ calls, c.forks = false)
    (h : (runFrom serde (runFrom serde default before).2 calls).2.nextEntryId < usizeMax) :
    Account (runFrom serde default before).2 (runFrom serde (runFrom serde default before).2 calls).2
      (runFrom serde (runFrom serde default before).2 calls).1 ∧
    ((runFrom serde (runFrom serde default before).2 calls).2.ids ++
      (runFrom serde (runFrom serde default before).2 calls).2.outgoing ++
      (runFrom serde (runFrom serde default before).2 calls).1).Nodup ∧
    ∀ record, ((runFrom serde (runFrom serde default before).2 calls).2.apply serde record).2.outgoing = [] := by
  have hrun := reports_runFrom serde calls (runFrom serde default before).2
  have hmax := (hrun.next h).trans_lt h
  have hbefore := (reports_runFrom serde before default).sound hmax default_sound
  have haccount := hrun.account hforks h hbefore
  exact ⟨haccount, haccount.once (outstanding_runFrom serde before default_sound default_outstanding hmax),
    outgoing_apply _ serde⟩

namespace TranscriptSample

def serde : SerdeJson := ⟨fun _ => none, fun _ => .null⟩

def request : Uuid := ⟨1⟩

def forked : List TranscriptCall := [.record ⟨1, [], some (.sessionStarted (some "parent"))⟩]

/-- a preview that its request discards when it ends, and a lost view -/
def settled : List TranscriptCall :=
  [.record ⟨2, [.user (some request) "go", .requestStarted request, .toolArguments (some request) "item" "text"], none⟩,
    .record ⟨3, [.requestSettled request none], none⟩, .disconnected]

end TranscriptSample

open TranscriptSample

theorem transcript_sound_settled :
    (runFrom serde default (forked ++ settled)).2.nextEntryId < usizeMax ∧
      (runFrom serde default (forked ++ settled)).2.Sound := by
  have hroom : (runFrom serde default (forked ++ settled)).2.nextEntryId < usizeMax := by decide +kernel
  exact ⟨hroom, transcript_sound serde (forked ++ settled) hroom⟩

theorem transcript_reported_settled :
    (runFrom serde (runFrom serde default forked).2 settled).1 = [2] ∧
      Account (runFrom serde default forked).2 (runFrom serde (runFrom serde default forked).2 settled).2 [2] ∧
      2 ∉ (runFrom serde (runFrom serde default forked).2 settled).2.ids := by
  have hreported : (runFrom serde (runFrom serde default forked).2 settled).1 = [2] := by decide +kernel
  obtain ⟨haccount, honce, -⟩ := transcript_reported serde forked settled (by decide) (by decide +kernel)
  rw [hreported] at haccount honce
  refine ⟨hreported, haccount, fun hshown => ?_⟩
  exact (List.nodup_append.mp honce).2.2 2 (List.mem_append_left _ hshown) 2 List.mem_cons_self rfl

end TranscriptModel

end Orvek.Tui
