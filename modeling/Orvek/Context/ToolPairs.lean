import Orvek.Context.Budget

/-!
# Projection keeps tool pairs together

A projected input is a piece of the repaired history, some notices, and another piece.  When the
repaired history is a legal list of calls and outputs (`legal_repaired`) and nothing is open at
the settled boundary (`stablePart_closed`), all three cut points of the plan are closed, so that
both pieces are balanced and the input is paired.

What the result needs of a history is collected in `Protocol`.  Two of its fields are not
conventions of a well-formed history but limits of the repair itself:

* a message of the user closes all calls that are open when it arrives, so a result journaled
  after one would be a second output (`quiet`, `single`);
* the repair of a call that is open at the settled boundary lands in the stable part only when
  the user speaks next (`boundary`).
-/

set_option linter.unusedSectionVars false

namespace Orvek
open Json Pairs

/-! ## histories -/

def historyMarks (history : List Value) : List (Mark String) := history.map mark

def UniqueCalls (history : List Value) : Prop := (opened (historyMarks history)).Nodup

def OutputsFollow (history : List Value) : Prop :=
  ∀ (j : Nat) (id : String), (historyMarks history)[j]? = some (.closes id) →
    ∃ i : Nat, i < j ∧ (historyMarks history)[i]? = some (.opens id)

def SplitsNoPair (history : List Value) (settled : Nat) : Prop :=
  ∀ (i j : Nat) (id : String), (historyMarks history)[i]? = some (.opens id) →
    (historyMarks history)[j]? = some (.closes id) → (i < settled ↔ j < settled)

/-- a history with unique calls, outputs after their calls, and no pair across the boundary -/
structure WellFormed (history : List Value) (settled : Nat) : Prop where
  unique : UniqueCalls history
  follow : OutputsFollow history
  noSplit : SplitsNoPair history settled

/-- the item at `k` is a message of the user -/
def userAt (history : List Value) (k : Nat) : Prop := ∃ item, history[k]? = some item ∧ isUser item = true

/-- what the projection needs of a history to keep its pairs -/
structure Protocol (history : List Value) (settled : Nat) : Prop
    extends WellFormed history settled where
  /-- a call has at most one output -/
  single : ∀ (i j : Nat) (id : String), (historyMarks history)[i]? = some (.closes id) →
    (historyMarks history)[j]? = some (.closes id) → i = j
  /-- the user does not speak between a call and its output -/
  quiet : ∀ (i j k : Nat) (id : String), (historyMarks history)[i]? = some (.opens id) →
    (historyMarks history)[j]? = some (.closes id) → i < k → k ≤ j → ¬ userAt history k
  /-- a call that is lost before the settled boundary is repaired at the boundary or before it -/
  boundary : ∀ (i : Nat) (id : String), i < settled →
    (historyMarks history)[i]? = some (.opens id) →
    (∃ j : Nat, (historyMarks history)[j]? = some (.closes id)) ∨ settled = history.length ∨
      ∃ k : Nat, i < k ∧ k ≤ settled ∧ userAt history k

/-! ## the pending calls of the loop -/

/-- a call of the first `n` items that has met neither its output nor a message of the user -/
def Waiting (history : List Value) (n : Nat) (id : String) : Prop :=
  ∃ i : Nat, i < n ∧ (historyMarks history)[i]? = some (.opens id) ∧
    ∀ k : Nat, i < k → k < n →
      (historyMarks history)[k]? ≠ some (.closes id) ∧ ¬ userAt history k

theorem getElem?_historyMarks (history : List Value) (k : Nat) (item : Value)
    (h : history[k]? = some item) : (historyMarks history)[k]? = some (mark item) := by
  rw [historyMarks, List.getElem?_map, h]; rfl

theorem userAt_iff (history : List Value) (k : Nat) (item : Value) (h : history[k]? = some item) :
    userAt history k ↔ isUser item = true := by
  constructor
  · rintro ⟨x, hx, hu⟩
    rw [h] at hx
    rw [Option.some.inj hx]
    exact hu
  · exact fun hu => ⟨item, h, hu⟩

theorem waiting_succ (history : List Value) (n : Nat) (id : String) (item : Value)
    (h : history[n]? = some item) :
    Waiting history (n + 1) id ↔
      mark item = .opens id ∨
        ((Waiting history n id ∧ isUser item = false) ∧ mark item ≠ .closes id) := by
  have hm := getElem?_historyMarks history n item h
  have hu := userAt_iff history n item h
  constructor
  · rintro ⟨i, hi, hopen, hall⟩
    rcases Nat.lt_or_ge i n with hlt | hge
    · have hn := hall n hlt (Nat.lt_succ_self n)
      rw [hm, hu] at hn
      refine Or.inr ⟨⟨⟨i, hlt, hopen, fun k h1 h2 => hall k h1 (by omega)⟩, ?_⟩, ?_⟩
      · simpa using hn.2
      · exact fun e => hn.1 (congrArg some e)
    · obtain rfl : i = n := by omega
      rw [hm] at hopen
      exact Or.inl (Option.some.inj hopen)
  · rintro (hopen | ⟨⟨⟨i, hi, hopen, hall⟩, hnu⟩, hnc⟩)
    · exact ⟨n, Nat.lt_succ_self n, by rw [hm, hopen], fun k h1 h2 => by omega⟩
    · refine ⟨i, by omega, hopen, fun k h1 h2 => ?_⟩
      rcases Nat.lt_or_ge k n with hlt | hge
      · exact hall k h1 hlt
      · obtain rfl : k = n := by omega
        rw [hm, hu, hnu]
        exact ⟨fun e => hnc (Option.some.inj e), Bool.false_ne_true⟩

theorem mem_pending_beforeItem (settled index : Nat) (item : Value) (r : Repair) (id : String) :
    id ∈ (r.beforeItem settled index item).pending ↔ id ∈ r.pending ∧ isUser item = false := by
  unfold Repair.beforeItem
  by_cases hu : isUser item = true
  · rw [hu]
    by_cases he : r.pending.isEmpty = true
    · have : r.pending = ∅ := by simpa using he
      simp [this]
    · simp [he, Repair.close]
  · simp [hu]

/-- the pending calls of the loop are the waiting ones -/
def TracksWaiting (history : List Value) (n : Nat) (r : Repair) : Prop :=
  ∀ id, id ∈ r.pending ↔ Waiting history n id

theorem TracksWaiting.init (history : List Value) : TracksWaiting history 0 Repair.empty := by
  intro id
  constructor
  · intro h; exact absurd h (by simp [Repair.empty])
  · rintro ⟨i, hi, _⟩; omega

theorem TracksWaiting.beforeItem {history : List Value} {n : Nat} {r : Repair}
    (h : TracksWaiting history n r) (settled : Nat) (item : Value) (id : String) :
    id ∈ (r.beforeItem settled n item).pending ↔ Waiting history n id ∧ isUser item = false := by
  rw [mem_pending_beforeItem, h]

theorem TracksWaiting.step {history : List Value} {n : Nat} {r : Repair}
    (h : TracksWaiting history n r) (settled : Nat) (item : Value)
    (hget : history[n]? = some item) :
    TracksWaiting history (n + 1) ((r.beforeItem settled n item).push settled n item) := by
  intro id
  rw [waiting_succ history n id item hget, ← h.beforeItem settled item]
  exact mem_step _ _ _

theorem TracksWaiting.run {history : List Value} (settled : Nat) (l rest : List Value) (n : Nat)
    (r : Repair) (hl : history.drop n = l ++ rest) (h : TracksWaiting history n r) :
    TracksWaiting history (n + l.length) (Repair.loop settled n l r) := by
  induction l generalizing n r with
  | nil => exact h
  | cons item l ih =>
    obtain ⟨hget, hrest⟩ := drop_eq_cons hl
    have h1 := ih (n + 1) _ hrest (h.step settled item hget)
    rw [List.length_cons, Nat.add_comm l.length 1, ← Nat.add_assoc]
    exact h1

/-- the calls pending after the first `n` items -/
theorem pending_take (history : List Value) (settled n : Nat) (hn : n ≤ history.length) :
    TracksWaiting history n (Repair.loop settled 0 (history.take n) Repair.empty) := by
  have h := TracksWaiting.run settled (history.take n) (history.drop n) 0 Repair.empty
    (List.take_append_drop _ _).symm (TracksWaiting.init history)
  rwa [List.length_take, Nat.min_eq_left hn, Nat.zero_add] at h

/-! ## legality -/

theorem legal_close {r : Repair} (ht : r.Tracks) (h : Legal ∅ (marks r.items)) (stable : Bool) :
    Legal ∅ (marks (r.close stable).items) := by
  show Legal ∅ (marks (r.items ++ placeholders r.pending.toList stable))
  rw [marks_append, legal_append, ht, marks_placeholders]
  exact ⟨h, legal_closes _ _ (nodup_toList _) (fun id hid => by simpa using hid)⟩

theorem legal_beforeItem {r : Repair} (ht : r.Tracks) (h : Legal ∅ (marks r.items))
    (settled index : Nat) (item : Value) :
    Legal ∅ (marks (r.beforeItem settled index item).items) := by
  unfold Repair.beforeItem
  split
  · exact legal_close ht h _
  · exact h

section
variable {history : List Value} {settled : Nat} (hp : Protocol history settled)
include hp

theorem Protocol.mark_legal (n : Nat) (item : Value) (hget : history[n]? = some item)
    (pending : BTreeSet String)
    (hpend : ∀ id, id ∈ pending ↔ Waiting history n id ∧ isUser item = false) :
    (mark item).legal pending := by
  have hm := getElem?_historyMarks history n item hget
  cases hmark : mark item with
  | opens id =>
    intro hin
    obtain ⟨⟨i, hi, hopen, _⟩, _⟩ := (hpend id).mp hin
    rw [hmark] at hm
    have := opened_unique hp.unique i n id hopen hm
    omega
  | closes id =>
    rw [hmark] at hm
    obtain ⟨i, hi, hopen⟩ := hp.follow n id hm
    refine (hpend id).mpr ⟨⟨i, hi, hopen, fun k h1 h2 => ⟨fun hk => ?_, ?_⟩⟩, ?_⟩
    · have := hp.single k n id hk hm
      omega
    · exact hp.quiet i n k id hopen hm h1 (by omega)
    · have := hp.quiet i n n id hopen hm hi (Nat.le_refl _)
      rw [userAt_iff history n item hget] at this
      simpa using this
  | neutral => trivial

theorem legal_loop (l : List Value) (n : Nat) (r : Repair) (hl : history.drop n = l)
    (ht : r.Tracks) (hw : TracksWaiting history n r) (h : Legal ∅ (marks r.items)) :
    Legal ∅ (marks (Repair.loop settled n l r).items) := by
  induction l generalizing n r with
  | nil => exact h
  | cons item l ih =>
    obtain ⟨hget, hrest⟩ := drop_eq_cons hl
    have htracks := ht.beforeItem settled n item
    refine ih (n + 1) _ hrest (htracks.push settled n item) (hw.step settled item hget) ?_
    show Legal ∅ (marks ((r.beforeItem settled n item).items ++ [_]))
    rw [marks_append, legal_append, htracks]
    exact ⟨legal_beforeItem ht h settled n item,
      hp.mark_legal n item hget _ (hw.beforeItem settled item), trivial⟩

theorem legal_repaired : Legal ∅ (marks (repaired history settled).items) :=
  legal_close (Repair.Tracks.loop history 0 _ Repair.tracks_empty)
    (legal_loop hp history 0 Repair.empty rfl Repair.tracks_empty (TracksWaiting.init history)
      trivial) _

theorem Protocol.not_waiting (id : String) (hw : Waiting history settled id) :
    settled = history.length ∨ userAt history settled := by
  obtain ⟨i, hi, hopen, hall⟩ := hw
  rcases hp.boundary i id hi hopen with ⟨j, hj⟩ | hend | ⟨k, h1, h2, hk⟩
  · obtain ⟨i', hi', hopen'⟩ := hp.follow j id hj
    obtain rfl := opened_unique hp.unique i i' id hopen hopen'
    have hjs := (hp.noSplit i j id hopen hj).mp hi
    exact absurd hj (hall j hi' hjs).1
  · exact Or.inl hend
  · rcases Nat.lt_or_ge k settled with hlt | hge
    · exact absurd hk (hall k h1 hlt).2
    · obtain rfl : k = settled := by omega
      exact Or.inr hk

end

/-- **Nothing is open at the end of the stable part** when the calls that wait at the settled
boundary are repaired there. -/
theorem stablePart_closed (history : List Value) (settled : Nat) (h : settled ≤ history.length)
    (hw : ∀ id, Waiting history settled id → settled = history.length ∨ userAt history settled) :
    (stablePart history settled).pending = ∅ := by
  have hinv := pending_take history settled settled h
  unfold stablePart
  cases hget : history[settled]? with
  | none => rfl
  | some item =>
    have hlt : settled < history.length := (List.getElem?_eq_some_iff.mp hget).1
    apply Std.ExtTreeSet.ext_mem
    intro id
    rw [hinv.beforeItem settled item]
    constructor
    · rintro ⟨hwait, hu⟩
      rcases hw id hwait with he | hus
      · omega
      · rw [userAt_iff history settled item hget, hu] at hus
        exact absurd hus Bool.false_ne_true
    · intro hin
      exact absurd hin (by simp)

/-! ## the three cuts are closed -/

section
variable {items : List ProjectedItem} {maxBytes : Nat}
  (hlegal : Legal ∅ (marks items)) (hend : after ∅ (marks items) = ∅)
  (hstable : openAt (marks items) (stableEnd items) = ∅)
include hend hstable

theorem plan_closed {p : Plan} (h : PlanSpec items maxBytes p) :
    openAt (marks items) p.baseStart = ∅ ∧ openAt (marks items) p.epochStart = ∅ ∧
      openAt (marks items) p.liveCut = ∅ := by
  have hepoch : openAt (marks items) p.epochStart = ∅ := by
    rw [← openFrom_eq_openAt items (stableEnd items) p.epochStart h.stable_le hstable]
    exact h.epoch_closed
  refine ⟨?_, hepoch, ?_⟩
  · rcases h.base_closed with he | hb
    · rw [he]; exact hepoch
    · rw [← openFrom_eq_openAt items 0 p.baseStart (Nat.zero_le _) (openAt_zero _)]
      exact hb
  · rcases h.live_closed with he | hl
    · rw [he, ← length_marks, openAt_length]
      exact hend
    · rw [← openFrom_eq_openAt items p.epochStart p.liveCut h.epoch_le hepoch]
      exact hl

include hlegal

theorem pieces_balanced {p : Plan} (h : PlanSpec items maxBytes p) :
    (Legal ∅ (marks (slice items p.baseStart p.epochStart)) ∧
      after ∅ (marks (slice items p.baseStart p.epochStart)) = ∅) ∧
    (Legal ∅ (marks (items.drop p.liveCut)) ∧ after ∅ (marks (items.drop p.liveCut)) = ∅) := by
  obtain ⟨hb, he, hl⟩ := plan_closed hend hstable h
  have hbase := h.base_le
  have hlive := h.live_le
  constructor
  · have hs := hlegal.slice p.baseStart (p.epochStart - p.baseStart) hb
      (by rw [Nat.add_sub_cancel' hbase]; exact he)
    have heq : marks (slice items p.baseStart p.epochStart) =
        ((marks items).drop p.baseStart).take (p.epochStart - p.baseStart) := by
      rw [slice, marks, marks, List.map_drop, List.map_take, List.drop_take]
    rw [heq]
    exact hs
  · have hs := hlegal.slice p.liveCut (items.length - p.liveCut) hl (by
      rw [Nat.add_sub_cancel' hlive, ← length_marks, openAt_length]
      exact hend)
    have heq : marks (items.drop p.liveCut) =
        ((marks items).drop p.liveCut).take (items.length - p.liveCut) := by
      have hlen : ((marks items).drop p.liveCut).length = items.length - p.liveCut := by
        rw [List.length_drop, length_marks]
      rw [List.take_of_length_le (Nat.le_of_eq hlen), marks, marks, List.map_drop]
    rw [heq]
    exact hs

end

/-! ## the projected input -/

theorem mark_developerItem (content : String) : mark (developerItem content) = .neutral := by
  simp [mark, developerItem, Value.index, Value.get, lookup, Value.asStr]

section
variable [Sha256]

/-- the notices between the two pieces -/
def notices (s : SessionState) (items : List ProjectedItem) (p : Plan) : List Value :=
  olderNotices s items p ++ liveNotices s items p

theorem mark_notices (s : SessionState) (items : List ProjectedItem) (p : Plan) :
    ∀ m ∈ historyMarks (notices s items p), m = .neutral := by
  intro m hm
  obtain ⟨v, hv, rfl⟩ := List.mem_map.mp hm
  rcases List.mem_append.mp hv with hv | hv
  · unfold olderNotices at hv
    split at hv
    · rw [List.mem_singleton.mp hv]; exact mark_developerItem _
    · exact nomatch hv
  · unfold liveNotices at hv
    split at hv
    · rw [List.mem_singleton.mp hv]; exact mark_developerItem _
    · exact nomatch hv

theorem historyMarks_values (items : List ProjectedItem) :
    historyMarks (items.map (·.value)) = marks items := by
  rw [historyMarks, marks, List.map_map]; rfl

theorem historyMarks_projectedInput (s : SessionState) (items : List ProjectedItem) (p : Plan) :
    historyMarks (projectedInput s items p) =
      marks (slice items p.baseStart p.epochStart) ++
        (historyMarks (notices s items p) ++ marks (items.drop p.liveCut)) := by
  rw [← historyMarks_values, ← historyMarks_values, projectedInput, notices, stableRetained]
  simp [historyMarks]

theorem opened_neutral (l : List (Mark String)) (h : ∀ m ∈ l, m = .neutral) : opened l = [] := by
  rw [opened, List.filterMap_eq_nil_iff]
  intro m hm
  rw [h m hm]; rfl

end

theorem opened_placeholders (ids : List String) (stable : Bool) :
    opened (marks (placeholders ids stable)) = [] := by
  rw [marks_placeholders, opened, List.filterMap_eq_nil_iff]
  intro m hm
  obtain ⟨id, _, rfl⟩ := List.mem_map.mp hm
  rfl

theorem opened_loop (settled : Nat) (l : List Value) (index : Nat) (r : Repair) :
    opened (marks (Repair.loop settled index l r).items) =
      opened (marks r.items) ++ opened (historyMarks l) := by
  induction l generalizing index r with
  | nil => exact (List.append_nil _).symm
  | cons item l ih =>
    obtain ⟨ids, hids⟩ := r.beforeItem_items settled index item
    have hstep : opened (marks ((r.beforeItem settled index item).push settled index item).items) =
        opened (marks r.items) ++ opened [mark item] := by
      show opened (marks ((r.beforeItem settled index item).items ++ [_])) = _
      rw [hids, marks_append, marks_append, opened_append, opened_append, opened_placeholders,
        List.append_nil]
      rfl
    rw [Repair.loop, ih, hstep, List.append_assoc, ← opened_append]
    rfl

theorem opened_repaired (history : List Value) (settled : Nat) :
    opened (marks (repaired history settled).items) = opened (historyMarks history) := by
  show opened (marks ((Repair.loop settled 0 history Repair.empty).items ++ placeholders _ _)) = _
  rw [marks_append, opened_append, opened_placeholders, List.append_nil, opened_loop]
  rfl

/-! ## why the last three fields of `Protocol` are there -/

def lateResult : List Value := [callItem "a", messageItem "user" "wait", outputItem "a" "done"]

def repeatedResult : List Value := [callItem "a", outputItem "a" "done", outputItem "a" "done"]

/-- a call is lost before the settled boundary, and the assistant speaks after it -/
def lostResult : List Value := [callItem "a", messageItem "assistant" "hello"]

theorem not_paired_of_two {l : List (Mark String)} {i j k : Nat} {id : String}
    (hi : l[i]? = some (.opens id)) (hj : l[j]? = some (.closes id)) (hk : l[k]? = some (.closes id))
    (hij : i < j) (hjk : j < k) : ¬ Paired l := by
  intro h
  obtain ⟨_, _, huniq⟩ := h.answered i id hi
  have h1 := huniq j ⟨hij, hj⟩
  have h2 := huniq k ⟨by omega, hk⟩
  omega

theorem not_paired_of_orphan {l : List (Mark String)} {id : String} (hin : Mark.closes id ∈ l)
    (hout : Mark.opens id ∉ l) : ¬ Paired l := by
  intro h
  obtain ⟨j, hj⟩ := List.mem_iff_getElem?.mp hin
  obtain ⟨i, _, hi⟩ := h.closed j id hj
  exact hout (List.mem_of_getElem? hi)

section
variable [Sha256]

theorem projectNative_whole (s : SessionState) (maxBytes : Nat) (hs : NoActivePending s)
    (h : bytes (repaired s.history (settledItems s)).items + maxOutputTokens +
      omissionNoticeReserveBytes * 2 ≤ maxBytes) :
    ∃ view, projectNative s maxBytes = .ok view ∧
      historyMarks view.input = marks (repaired s.history (settledItems s)).items := by
  have hmax : 4096 ≤ maxBytes := by
    have : omissionNoticeReserveBytes = 2048 := rfl
    omega
  refine ⟨_, (projectNative_ok s maxBytes hs hmax).1, ?_⟩
  obtain ⟨hb, hl⟩ := plan_keeps _ maxBytes h
  show historyMarks (projectedInput _ _ _) = _
  rw [projectedInput_whole _ _ _ hb hl, historyMarks_values]

end

/-! the three histories, repaired -/

theorem repaired_lateResult : (repaired lateResult 3).items =
    [⟨callItem "a", some 0, true⟩, ⟨placeholder "a", none, true⟩,
      ⟨messageItem "user" "wait", some 1, true⟩, ⟨outputItem "a" "done", some 2, true⟩] := rfl

theorem repaired_repeatedResult : (repaired repeatedResult 3).items =
    [⟨callItem "a", some 0, true⟩, ⟨outputItem "a" "done", some 1, true⟩,
      ⟨outputItem "a" "done", some 2, true⟩] := rfl

theorem repaired_lostResult : (repaired lostResult 1).items =
    [⟨callItem "a", some 0, true⟩, ⟨messageItem "assistant" "hello", some 1, false⟩,
      ⟨placeholder "a", none, false⟩] := rfl

/-! every item of them is short -/

theorem size_callItem_a : (callItem "a").size ≤ 400 := by decide
theorem size_outputItem_a : (outputItem "a" "done").size ≤ 400 := by decide
theorem size_messageItem_wait : (messageItem "user" "wait").size ≤ 400 := by decide
theorem size_messageItem_hello : (messageItem "assistant" "hello").size ≤ 400 := by decide

theorem size_placeholder_a : (placeholder "a").size ≤ 400 := by
  have h : escapedLength "a" + 326 ≤ 400 := by decide
  exact Nat.le_trans (size_placeholder "a") h

/-- without any room everything before `stop` is cut -/
theorem suffixStart_none (items : List ProjectedItem) (stop : Nat) (hstop : stop ≤ items.length) :
    suffixStart items (sizes items) 0 stop 0 = stop := by
  have hs := suffixStart_spec items 0 stop 0 (Nat.zero_le _) hstop
  generalize suffixStart items (sizes items) 0 stop 0 = k at hs
  rcases hs.fits with h | ⟨h, _⟩
  · exact h
  · by_contra hne
    have hle := hs.le_stop
    have hlen := slice_length items k stop hstop
    refine absurd h (Nat.not_le_of_lt (bytes_pos _ fun hnil => ?_))
    rw [hnil, List.length_nil] at hlen
    omega

theorem plan_small (items : List ProjectedItem) (maxBytes : Nat)
    (happ : appendBudget maxBytes = maxBytes - omissionNoticeReserveBytes)
    (h : bytes (items.drop (stableEnd items)) ≤ appendBudget maxBytes) :
    plan items maxBytes = ⟨stableEnd items, stableEnd items, stableEnd items⟩ := by
  have hroom : maxBytes - appendBudget maxBytes - omissionNoticeReserveBytes = 0 := by
    rw [happ]
    omega
  rw [plan_of_fits items maxBytes h, hroom, suffixStart_none items _ (stableEnd_le items)]

section
variable [Sha256]

theorem projectNative_short (history : List Value) (items : List ProjectedItem)
    (hitems : (repaired history history.length).items = items)
    (hshort : ∀ x ∈ items, x.value.size ≤ 400) (hlen : items.length ≤ 4) :
    ∃ view, projectNative (sessionAt history history.length) 40000 = .ok view ∧
      historyMarks view.input = marks items := by
  have hsettled : settledItems (sessionAt history history.length) = history.length :=
    Nat.min_self _
  have hbytes : bytes items ≤ 4 * 401 :=
    Nat.le_trans (bytes_le items 400 hshort) (Nat.mul_le_mul_right 401 hlen)
  have h := projectNative_whole (sessionAt history history.length) 40000
    (noActivePending_sessionAt _ _)
  rw [hsettled] at h
  have hrep : (repaired (sessionAt history history.length).history history.length).items = items :=
    hitems
  rw [hrep] at h
  exact h (Nat.le_trans (Nat.add_le_add_right (Nat.add_le_add_right hbytes _) _) (by decide))

theorem lateResult_unpaired : ∃ view, projectNative (sessionAt lateResult 3) 40000 = .ok view ∧
    ¬ Paired (historyMarks view.input) := by
  obtain ⟨view, hview, hmarks⟩ := projectNative_short lateResult _ repaired_lateResult
    (List.forall_mem_cons.mpr ⟨size_callItem_a, List.forall_mem_cons.mpr ⟨size_placeholder_a,
      List.forall_mem_cons.mpr ⟨size_messageItem_wait, List.forall_mem_cons.mpr
        ⟨size_outputItem_a, fun _ h => nomatch h⟩⟩⟩⟩) (Nat.le_refl 4)
  have hm : historyMarks view.input = [.opens "a", .closes "a", .neutral, .closes "a"] := by
    rw [hmarks]; decide
  refine ⟨view, hview, ?_⟩
  rw [hm]
  exact @not_paired_of_two _ 0 1 3 "a" rfl rfl rfl (by decide) (by decide)

theorem repeatedResult_unpaired :
    ∃ view, projectNative (sessionAt repeatedResult 3) 40000 = .ok view ∧
      ¬ Paired (historyMarks view.input) := by
  obtain ⟨view, hview, hmarks⟩ := projectNative_short repeatedResult _ repaired_repeatedResult
    (List.forall_mem_cons.mpr ⟨size_callItem_a, List.forall_mem_cons.mpr ⟨size_outputItem_a,
      List.forall_mem_cons.mpr ⟨size_outputItem_a, fun _ h => nomatch h⟩⟩⟩) (Nat.le_succ 3)
  have hm : historyMarks view.input = [.opens "a", .closes "a", .closes "a"] := by
    rw [hmarks]; decide
  refine ⟨view, hview, ?_⟩
  rw [hm]
  exact @not_paired_of_two _ 0 1 2 "a" rfl rfl rfl (by decide) (by decide)

theorem projectNative_smallest (history : List Value) (settled : Nat) (items : List ProjectedItem)
    (hset : settled ≤ history.length) (hitems : (repaired history settled).items = items)
    (hbytes : bytes (items.drop (stableEnd items)) ≤ 2048) :
    ∃ view, projectNative (sessionAt history settled) 4096 = .ok view ∧
      ∃ ns, (∀ m ∈ ns, m = .neutral) ∧
        historyMarks view.input = ns ++ marks (items.drop (stableEnd items)) := by
  have hview := (projectNative_ok (sessionAt history settled) 4096 (noActivePending_sessionAt _ _)
    (Nat.le_refl _)).1
  have hsettled : settledItems (sessionAt history settled) = settled := Nat.min_eq_left hset
  have hrep : (repaired (sessionAt history settled).history
      (settledItems (sessionAt history settled))).items = items := by rw [hsettled]; exact hitems
  have hinput : (nativeView (sessionAt history settled) (repaired (sessionAt history settled).history
      (settledItems (sessionAt history settled))) 4096).input =
      projectedInput (sessionAt history settled) items (plan items 4096) := by
    rw [← hrep]; rfl
  refine ⟨_, hview, historyMarks (notices (sessionAt history settled) items (plan items 4096)),
    mark_notices _ _ _, ?_⟩
  rw [hinput, historyMarks_projectedInput, plan_small items 4096 (by decide)
    (Nat.le_trans hbytes (by decide)), slice_self]
  rfl

theorem lostResult_unpaired : ∃ view, projectNative (sessionAt lostResult 1) 4096 = .ok view ∧
    ¬ Paired (historyMarks view.input) := by
  have hshort : bytes [(⟨messageItem "assistant" "hello", some 1, false⟩ : ProjectedItem),
      ⟨placeholder "a", none, false⟩] ≤ 2048 :=
    Nat.le_trans (bytes_le _ 400 (List.forall_mem_cons.mpr ⟨size_messageItem_hello,
      List.forall_mem_cons.mpr ⟨size_placeholder_a, fun _ h => by cases h⟩⟩)) (by decide)
  obtain ⟨view, hview, ns, hns, hmarks⟩ := projectNative_smallest lostResult 1 _ (by decide)
    repaired_lostResult hshort
  refine ⟨view, hview, ?_⟩
  have hm : marks [(⟨messageItem "assistant" "hello", some 1, false⟩ : ProjectedItem),
      ⟨placeholder "a", none, false⟩] = [.neutral, .closes "a"] := by
    rw [marks, List.map_cons, List.map_cons, List.map_nil, ProjectedItem.mark, ProjectedItem.mark]
    exact congrArg₂ (fun x y => [x, y]) (by decide) (mark_outputItem "a" lostOutput)
  have hinput : historyMarks view.input = ns ++ [.neutral, .closes "a"] := by
    rw [hmarks, ← hm]; rfl
  rw [hinput]
  refine @not_paired_of_orphan _ "a" (by simp) fun hin => ?_
  rcases List.mem_append.mp hin with h | h
  · cases hns _ h
  · simp at h

end

/-- one call, opened by the first item: the history is well formed when no output is the first
item and all outputs are on the side of the boundary where the call is -/
theorem wellFormed_of_first (history : List Value) (settled : Nat) (rest : List (Mark String))
    (hm : historyMarks history = .opens "a" :: rest) (hrest : ∀ m ∈ rest, m.opened = none)
    (hid : ∀ (j : Nat) (id : String), rest[j]? = some (.closes id) → id = "a" ∧ j + 1 < settled) :
    WellFormed history settled := by
  have hopens : ∀ (j : Nat) (id : String), rest[j]? ≠ some (.opens id) := by
    intro j id h
    exact nomatch hrest _ (List.mem_of_getElem? h)
  have hcall : ∀ (j : Nat) (id : String), (historyMarks history)[j]? = some (.closes id) →
      id = "a" ∧ 0 < j ∧ j < settled := by
    intro j id h
    rw [hm] at h
    cases j with
    | zero => cases h
    | succ j =>
      obtain ⟨h1, h2⟩ := hid j id h
      exact ⟨h1, Nat.succ_pos j, h2⟩
  refine ⟨?_, ?_, ?_⟩
  · show (opened (historyMarks history)).Nodup
    rw [hm]
    show ("a" :: opened rest).Nodup
    rw [opened, List.filterMap_eq_nil_iff.mpr hrest]
    exact List.nodup_singleton _
  · intro j id h
    obtain ⟨rfl, hj, _⟩ := hcall j id h
    exact ⟨0, hj, by rw [hm]; rfl⟩
  · intro i j id hi hj
    obtain ⟨_, _, hjs⟩ := hcall j id hj
    rw [hm] at hi
    cases i with
    | zero => exact ⟨fun _ => hjs, fun _ => by omega⟩
    | succ i => exact absurd hi (hopens i id)

section
variable [Sha256]

end

def answeredCall : List Value := [callItem "a", outputItem "a" "done"]

theorem protocol_answeredCall : Protocol answeredCall 2 := by
  have hm : historyMarks answeredCall = [.opens "a", .closes "a"] := by decide
  have hcloses : ∀ (j : Nat) (id : String), (historyMarks answeredCall)[j]? = some (.closes id) →
      j = 1 := by
    intro j id h
    rw [hm] at h
    match j, h with
    | 1, _ => rfl
  have hwf : WellFormed answeredCall 2 := by
    refine wellFormed_of_first answeredCall 2 [.closes "a"] hm (by decide) ?_
    intro j id h
    match j, h with
    | 0, h => exact ⟨(Mark.closes.inj (Option.some.inj h)).symm, by decide⟩
  refine ⟨hwf, ?_, ?_, fun _ _ _ _ => Or.inr (Or.inl rfl)⟩
  · intro i j id hi hj
    rw [hcloses i id hi, hcloses j id hj]
  · rintro i j k id _ hj hik hkj ⟨item, hitem, hu⟩
    obtain rfl := hcloses j id hj
    obtain rfl : k = 1 := by omega
    obtain rfl : outputItem "a" "done" = item := Option.some.inj hitem
    exact absurd hu (by decide)

end Orvek
