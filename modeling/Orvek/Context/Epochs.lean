import Orvek.Context.ToolPairs

/-!
# The prompt prefix of a cache epoch

Two states of one session are compared: the history of the second extends that of the first and
the settled boundary is the same.

* `repaired_extends`      the repaired history of the second extends that of the first, when the
                          calls that wait at its end are repaired there in both;
* `epochStart_mono`       then the epoch starts no earlier;
* `take_epochStart`       two states with one epoch start agree on everything before it;
* `settledInput_congr`    and project it to the same items, unless an oversized unit takes room
                          from the base.
-/

set_option linter.unusedSectionVars false

namespace Orvek
open Json Pairs

variable {items : List ProjectedItem}

/-! ## the epoch of a session -/

/-- the calls that wait at `k` are repaired there: the history ends, or the user speaks -/
def RepairedAt (history : List Value) (k : Nat) : Prop :=
  ∀ id, Waiting history k id → k = history.length ∨ userAt history k

def projectedItems (s : SessionState) : List ProjectedItem :=
  (repaired s.history (settledItems s)).items

def epochStart (s : SessionState) (maxBytes : Nat) : Nat := (plan (projectedItems s) maxBytes).epochStart

def EpochFits (s : SessionState) (maxBytes : Nat) : Prop :=
  tailBytes (projectedItems s) (epochStart s maxBytes) ≤ appendBudget maxBytes

/-- a later state of the same session, with the same settled boundary -/
structure Extends (s s' : SessionState) : Prop where
  id : s.id = s'.id
  history : s.history <+: s'.history
  settled : settledItems s = settledItems s'

/-! ## the repaired history of a longer history -/

theorem Repair.loop_extends (settled : Nat) (l : List Value) (index : Nat) (r : Repair) :
    r.items <+: (Repair.loop settled index l r).items := by
  induction l generalizing index r with
  | nil => exact List.prefix_rfl
  | cons item l ih =>
    obtain ⟨ids, hids⟩ := r.beforeItem_items settled index item
    have hstep : r.items <+: ((r.beforeItem settled index item).push settled index item).items := by
      show r.items <+: (r.beforeItem settled index item).items ++ [_]
      rw [hids, List.append_assoc]
      exact List.prefix_append _ _
    exact hstep.trans (ih (index + 1) _)

/-- what the loop has built before the last repair -/
def loopItems (history : List Value) (settled : Nat) : List ProjectedItem :=
  (Repair.loop settled 0 history Repair.empty).items

theorem repaired_append (history ext : List Value) (settled : Nat) :
    loopItems history settled <+: (repaired (history ++ ext) settled).items := by
  have h := Repair.loop_extends settled ext (0 + history.length)
    (Repair.loop settled 0 history Repair.empty)
  rw [← Repair.loop_append] at h
  exact h.trans (List.prefix_append _ _)

theorem pending_append (history ext : List Value) (settled : Nat) :
    TracksWaiting (history ++ ext) history.length (Repair.loop settled 0 history Repair.empty) := by
  have h := pending_take (history ++ ext) settled history.length (by simp)
  rwa [List.take_left] at h

theorem RepairedAt.next {history rest : List Value} {item : Value}
    (h : RepairedAt (history ++ item :: rest) history.length) (settled : Nat) :
    (Repair.loop settled 0 history Repair.empty).pending = ∅ ∨ isUser item = true := by
  rw [or_iff_not_imp_right]
  intro hu
  apply Std.ExtTreeSet.ext_mem
  intro id
  rw [pending_append history (item :: rest) settled id]
  refine ⟨fun hw => ?_, fun hin => absurd hin (by simp)⟩
  rcases h id hw with he | hus
  · simp at he
  · rw [userAt_iff _ _ item (by simp)] at hus
    exact absurd hus hu

theorem Repair.close_of_empty {r : Repair} (h : r.pending = ∅) (stable : Bool) : r.close stable = r := by
  obtain ⟨pending, interrupted, items⟩ := r
  obtain rfl : pending = ∅ := h
  simp [Repair.close, placeholders]

theorem Repair.beforeItem_of_user {r : Repair} {item : Value} (h : isUser item = true)
    (settled index : Nat) : r.beforeItem settled index item = r.close (index ≤ settled) := by
  unfold Repair.beforeItem
  by_cases hp : r.pending = ∅
  · rw [Repair.close_of_empty hp]; simp [hp]
  · rw [if_pos]
    simpa [h] using hp

theorem beforeItem_repairedAt {history rest : List Value} {item : Value}
    (h : RepairedAt (history ++ item :: rest) history.length) (settled index : Nat) :
    (Repair.loop settled 0 history Repair.empty).beforeItem settled index item =
      (Repair.loop settled 0 history Repair.empty).close (index ≤ settled) := by
  rcases h.next settled with he | hu
  · rw [Repair.close_of_empty he]
    simp [Repair.beforeItem, he]
  · exact Repair.beforeItem_of_user hu settled index

/-- **The repaired history grows with the history** when the calls that wait at its end are
repaired there. -/
theorem repaired_extends (history ext : List Value) (settled : Nat) (hs : settled ≤ history.length)
    (h : RepairedAt (history ++ ext) history.length) :
    (repaired history settled).items <+: (repaired (history ++ ext) settled).items := by
  cases ext with
  | nil => simp
  | cons item rest =>
    have hstable : decide (history.length ≤ settled) = decide (settled = history.length) :=
      decide_eq_decide.mpr ⟨fun h => by omega, fun h => by omega⟩
    have hloop := Repair.loop_extends settled rest (history.length + 1)
      ((repaired history settled).push settled history.length item)
    have heq : Repair.loop settled 0 (history ++ item :: rest) Repair.empty =
        Repair.loop settled (history.length + 1) rest
          ((repaired history settled).push settled history.length item) := by
      rw [Repair.loop_append, Nat.zero_add, Repair.loop, beforeItem_repairedAt h, hstable]
      rfl
    rw [← heq] at hloop
    have hpush : (repaired history settled).items <+:
        ((repaired history settled).push settled history.length item).items :=
      List.prefix_append _ _
    exact (hpush.trans hloop).trans (List.prefix_append _ _)

theorem stablePart_append (history ext : List Value) (settled : Nat) (hs : settled ≤ history.length)
    (h : RepairedAt (history ++ ext) settled) :
    stablePart (history ++ ext) settled = stablePart history settled := by
  rcases Nat.lt_or_ge settled history.length with hlt | hge
  · rw [stablePart, stablePart, List.take_append_of_le_length hs,
      List.getElem?_append_left hlt]
  · obtain rfl : settled = history.length := by omega
    cases ext with
    | nil => rw [List.append_nil]
    | cons item rest =>
      rw [stablePart, stablePart, List.take_left, List.take_length,
        List.getElem?_append_right (Nat.le_refl _), Nat.sub_self, List.getElem?_cons_zero,
        List.getElem?_eq_none_iff.mpr (Nat.le_refl _)]
      have := beforeItem_repairedAt h history.length history.length
      simpa using this

theorem stableEnd_append (history ext : List Value) (settled : Nat) (hs : settled ≤ history.length)
    (h : RepairedAt (history ++ ext) settled) :
    stableEnd (repaired (history ++ ext) settled).items = stableEnd (repaired history settled).items := by
  rw [stableEnd_repaired _ _ (by rw [List.length_append]; omega), stableEnd_repaired _ _ hs,
    stablePart_append history ext settled hs h]

/-! ## the searches on a longer list -/

theorem sizeAt_take {items' : List ProjectedItem} {n : Nat} (hn : n ≤ items.length)
    (hn' : n ≤ items'.length) (h : items.take n = items'.take n) (k : Nat) (hk : k ≤ n) :
    sizeAt (sizes items) k = sizeAt (sizes items') k := by
  have htake : items.take k = items'.take k := by
    have := congrArg (List.take k) h
    rwa [List.take_take, List.take_take, Nat.min_eq_left hk] at this
  rw [sizeAt_sizes items k (by omega), sizeAt_sizes items' k (by omega), htake]

theorem suffixLoop_congr {sz sz' : List Nat} {stop : Nat}
    (h : ∀ k, k ≤ stop → sizeAt sz k = sizeAt sz' k) (budget : Nat) (l : List ProjectedItem)
    (k : Nat) (hk : k + l.length ≤ stop) (opened : BTreeSet String) :
    suffixLoop sz stop budget l k opened = suffixLoop sz' stop budget l k opened := by
  induction l generalizing k opened with
  | nil => rfl
  | cons item l ih =>
    rw [List.length_cons] at hk
    rw [suffixLoop, suffixLoop, h stop (Nat.le_refl _), h k (by omega),
      ih (k + 1) (by omega)]

/-- the suffix search before `stop` reads nothing from `stop` on -/
theorem suffixStart_congr {items' : List ProjectedItem} {stop : Nat} (hn : stop ≤ items.length)
    (hn' : stop ≤ items'.length) (h : items.take stop = items'.take stop) (start budget : Nat)
    (hs : start ≤ stop) :
    suffixStart items (sizes items) start stop budget =
      suffixStart items' (sizes items') start stop budget := by
  rw [suffixStart, suffixStart, h]
  refine suffixLoop_congr (sizeAt_take hn hn' h) budget _ start ?_ ∅
  rw [List.length_drop, List.length_take]
  omega

theorem epochLoop_append (sz : List Nat) (budget : Nat) (a b : List ProjectedItem) (index : Nat)
    (e : Epoch) :
    epochLoop sz budget index (a ++ b) e =
      epochLoop sz budget (index + a.length) b (epochLoop sz budget index a e) := by
  induction a generalizing index e with
  | nil => rfl
  | cons item a ih =>
    rw [List.cons_append, epochLoop, ih, epochLoop, List.length_cons]
    congr 1
    omega

theorem epochLoop_congr {sz : List Nat} {start : Nat}
    (h : ∀ k, k ≤ items.length → sizeAt (sizes items) k = sizeAt sz k) (budget : Nat)
    (l : List ProjectedItem) (index : Nat) (e : Epoch) (hl : items.drop index = l)
    (he : EpochInv items start index e) :
    epochLoop (sizes items) budget index l e = epochLoop sz budget index l e := by
  induction l generalizing index e with
  | nil => rfl
  | cons item l ih =>
    obtain ⟨hget, hrest⟩ := drop_eq_cons hl
    have hlt : index < items.length := (List.getElem?_eq_some_iff.mp hget).1
    have hle := he.le_index
    have hstep : epochStep (sizes items) budget index item e = epochStep sz budget index item e := by
      simp only [epochStep, h (index + 1) (by omega), h e.unitStart (by omega)]
    rw [epochLoop, ih (index + 1) _ hrest (he.step budget item hget), hstep]
    rfl

theorem epochStep_start (sz : List Nat) (budget index : Nat) (item : ProjectedItem) (e : Epoch) :
    (epochStep sz budget index item e).epochStart = e.epochStart ∨
      (epochStep sz budget index item e).epochStart = e.unitStart := by
  unfold epochStep
  dsimp only
  split
  · exact Or.inl rfl
  · split
    · exact Or.inr rfl
    · exact Or.inl rfl

theorem EpochInv.le_run {start : Nat} (budget : Nat) (l : List ProjectedItem) (index : Nat) (e : Epoch)
    (hl : items.drop index = l) (he : EpochInv items start index e) :
    e.epochStart ≤ (epochLoop (sizes items) budget index l e).epochStart := by
  induction l generalizing index e with
  | nil => exact Nat.le_refl _
  | cons item l ih =>
    obtain ⟨hget, hrest⟩ := drop_eq_cons hl
    have hunit := he.le_unit
    refine Nat.le_trans ?_ (ih (index + 1) _ hrest (he.step budget item hget))
    rcases epochStep_start (sizes items) budget index item e with h | h <;> omega

theorem EpochInv.run_lt {start : Nat} (budget : Nat) (l : List ProjectedItem) (index : Nat) (e : Epoch)
    (hl : items.drop index = l) (he : EpochInv items start index e) (hlt : index < items.length) :
    (epochLoop (sizes items) budget index l e).epochStart < items.length := by
  induction l generalizing index e with
  | nil =>
    have := List.drop_eq_nil_iff.mp hl
    omega
  | cons item l ih =>
    obtain ⟨hget, hrest⟩ := drop_eq_cons hl
    have hunit := he.le_unit
    have hle := he.le_index
    rcases Nat.lt_or_ge (index + 1) items.length with h | h
    · exact ih (index + 1) _ hrest (he.step budget item hget) h
    · obtain rfl : l = [] := by rw [← hrest]; exact List.drop_eq_nil_of_le h
      show (epochStep (sizes items) budget index item e).epochStart < _
      rcases epochStep_start (sizes items) budget index item e with h | h <;> omega

/-- **Appending never moves the epoch back.** -/
theorem lastEpoch_append (items more : List ProjectedItem) (start budget : Nat)
    (hs : start ≤ items.length) :
    (lastEpoch items start budget).epochStart ≤ (lastEpoch (items ++ more) start budget).epochStart := by
  have htake : (items ++ more).take items.length = items.take items.length := by simp
  have hsizes : ∀ k, k ≤ items.length →
      sizeAt (sizes items) k = sizeAt (sizes (items ++ more)) k :=
    sizeAt_take (Nat.le_refl _) (by simp) htake.symm
  have hrun : lastEpoch (items ++ more) start budget =
      epochLoop (sizes (items ++ more)) budget items.length more (lastEpoch items start budget) := by
    rw [lastEpoch, List.drop_append_of_le_length hs, epochLoop_append, List.length_drop,
      Nat.add_sub_cancel' hs, lastEpoch,
      epochLoop_congr hsizes budget _ start _ rfl (EpochInv.init items start)]
  have hinv : EpochInv (items ++ more) start items.length (lastEpoch items start budget) := by
    have h := (lastEpoch_inv items start budget hs)
    have hslice : ∀ a b, b ≤ items.length → slice (items ++ more) a b = slice items a b := by
      intro a b hb
      rw [slice, slice, List.take_append_of_le_length hb]
    have hopen : ∀ b, b ≤ items.length → openFrom (items ++ more) start b = openFrom items start b := by
      intro b hb
      rw [openFrom, openFrom, hslice start b hb]
    have h1 := h.le_unit
    have h2 := h.le_index
    exact
      { le_start := h.le_start
        le_unit := h.le_unit
        le_index := h.le_index
        epoch_closed := by rw [hopen _ (by omega)]; exact h.epoch_closed
        unit_closed := by rw [hopen _ h2]; exact h.unit_closed
        opened := by rw [hopen _ (Nat.le_refl _)]; exact h.opened
        unit_done := h.unit_done
        epochBytes := by rw [hslice _ _ h2]; exact h.epochBytes }
  rw [hrun]
  exact hinv.le_run budget more items.length _ (by simp)

/-! ## the epoch of a longer history -/

theorem plan_epochStart (items : List ProjectedItem) (maxBytes : Nat) :
    (plan items maxBytes).epochStart =
      (lastEpoch items (stableEnd items) (appendBudget maxBytes)).epochStart :=
  cacheEpochStart_eq _ _ _

theorem sources_stablePart (history : List Value) (settled : Nat) (hs : settled ≤ history.length) :
    (stablePart history settled).items.filterMap (·.source) = List.range settled := by
  have hloop : (Repair.loop settled 0 (history.take settled) Repair.empty).items.filterMap (·.source) =
      List.range settled := by
    rw [Repair.sources_loop, List.length_take, Nat.min_eq_left hs, List.range_eq_range']
    rfl
  unfold stablePart
  cases history[settled]? with
  | none =>
    show (_ ++ placeholders _ _).filterMap _ = _
    rw [List.filterMap_append, filterMap_placeholders, List.append_nil, hloop]
  | some item =>
    dsimp only
    obtain ⟨ids, hids⟩ := (Repair.loop settled 0 (history.take settled) Repair.empty).beforeItem_items
      settled settled item
    rw [hids, List.filterMap_append, filterMap_placeholders, List.append_nil, hloop]

theorem stableEnd_lt (history : List Value) (settled : Nat) (hlt : settled < history.length) :
    stableEnd (repaired history settled).items < (repaired history settled).items.length := by
  have hs := Nat.le_of_lt hlt
  obtain ⟨live, hsplit, _, _⟩ := repaired_split history settled hs
  rw [stableEnd_repaired history settled hs, hsplit, List.length_append]
  cases live with
  | cons x live => rw [List.length_cons]; omega
  | nil =>
    -- then the stable part would hold the whole history
    have hall := sources_repaired history settled
    rw [hsplit, List.append_nil, sources_stablePart history settled hs] at hall
    have := congrArg List.length hall
    rw [List.length_range, List.length_range] at this
    omega

theorem openAt_placeholders {r : Repair} (h : r.Tracks) (stable : Bool) (j : Nat)
    (hj : j < r.pending.toList.length) :
    openAt (marks (r.close stable).items) (r.items.length + j) ≠ ∅ := by
  intro hempty
  have hmarks : marks (r.close stable).items = marks r.items ++ r.pending.toList.map Mark.closes := by
    show marks (r.items ++ placeholders r.pending.toList stable) = _
    rw [marks_append, marks_placeholders]
  have hmem : r.pending.toList[j] ∈ openAt (marks (r.close stable).items) (r.items.length + j) := by
    rw [hmarks, openAt, ← length_marks, List.take_length_add_append, after_append, h,
      ← List.map_take, after_closes]
    refine ⟨Std.ExtTreeSet.mem_toList.mp (List.getElem_mem hj), fun hin => ?_⟩
    obtain ⟨i, hi, heq⟩ := List.mem_iff_getElem.mp hin
    rw [List.length_take] at hi
    rw [List.getElem_take] at heq
    have := (List.Nodup.getElem_inj_iff (nodup_toList r.pending)).mp heq
    omega
  rw [hempty] at hmem
  exact absurd hmem (by simp)

section
variable {history ext : List Value} {settled : Nat} (hs : settled ≤ history.length) (maxBytes : Nat)
include hs

/-- **The epoch start only moves forward.** -/
theorem epochStart_mono (h : RepairedAt (history ++ ext) history.length) :
    (plan (repaired history settled).items maxBytes).epochStart ≤
      (plan (repaired (history ++ ext) settled).items maxBytes).epochStart := by
  have hset : RepairedAt (history ++ ext) settled ∨ settled < history.length := by
    rcases Nat.lt_or_ge settled history.length with hlt | hge
    · exact Or.inr hlt
    · obtain rfl : settled = history.length := by omega
      exact Or.inl h
  have hend : stableEnd (repaired (history ++ ext) settled).items =
      stableEnd (repaired history settled).items := by
    rcases hset with hset | hlt
    · exact stableEnd_append history ext settled hs hset
    · rw [stableEnd_repaired _ _ (by rw [List.length_append]; omega), stableEnd_repaired _ _ hs,
        stablePart, stablePart, List.take_append_of_le_length hs, List.getElem?_append_left hlt]
  obtain ⟨more, hmore⟩ := repaired_extends history ext settled hs h
  rw [plan_epochStart, plan_epochStart, hend, ← hmore]
  exact lastEpoch_append _ more _ _ (stableEnd_le _)

theorem epochStart_closed (h : RepairedAt history settled) :
    openAt (marks (repaired history settled).items)
      (plan (repaired history settled).items maxBytes).epochStart = ∅ := by
  have hstable := openAt_stableEnd history settled hs
  rw [stablePart_closed history settled hs h] at hstable
  exact (plan_closed (after_marks_repaired history settled) hstable
    (plan_spec (repaired history settled).items maxBytes)).2.1

theorem epochStart_le_loop (h : RepairedAt history settled) (hlt : settled < history.length) :
    (plan (repaired history settled).items maxBytes).epochStart ≤ (loopItems history settled).length := by
  have hclosed := epochStart_closed hs maxBytes h
  have htracks : (Repair.loop settled 0 history Repair.empty).Tracks :=
    Repair.Tracks.loop history 0 _ Repair.tracks_empty
  have hbound : (plan (repaired history settled).items maxBytes).epochStart <
      (repaired history settled).items.length := by
    rw [plan_epochStart]
    exact EpochInv.run_lt _ _ _ _ rfl (EpochInv.init _ _) (stableEnd_lt history settled hlt)
  generalize (plan (repaired history settled).items maxBytes).epochStart = e at hclosed hbound
  by_contra hgt
  obtain ⟨j, rfl⟩ : ∃ j, e = (loopItems history settled).length + j :=
    ⟨e - (loopItems history settled).length, by omega⟩
  refine openAt_placeholders htracks _ j ?_ hclosed
  have hlen : (repaired history settled).items.length = (loopItems history settled).length +
      (Repair.loop settled 0 history Repair.empty).pending.toList.length := by
    show (_ ++ placeholders _ _).length = _
    rw [List.length_append, placeholders, List.length_map]
    rfl
  omega

/-- **Two states with one epoch start agree on everything before it.** -/
theorem take_epochStart (h : RepairedAt history settled) (h' : RepairedAt (history ++ ext) settled)
    (heq : (plan (repaired history settled).items maxBytes).epochStart =
      (plan (repaired (history ++ ext) settled).items maxBytes).epochStart) :
    (repaired history settled).items.take (plan (repaired history settled).items maxBytes).epochStart =
      (repaired (history ++ ext) settled).items.take
        (plan (repaired (history ++ ext) settled).items maxBytes).epochStart := by
  rw [← heq]
  rcases Nat.lt_or_ge settled history.length with hlt | hge
  · -- both start with the items of the loop, and the epoch starts among them
    have hle := epochStart_le_loop hs maxBytes h hlt
    obtain ⟨more, hmore⟩ := repaired_append history ext settled
    rw [← hmore, List.take_append_of_le_length hle]
    exact List.take_append_of_le_length hle
  · -- the whole first history is stable, and a prefix of the second
    obtain rfl : settled = history.length := by omega
    obtain ⟨more, hmore⟩ := repaired_extends history ext history.length hs h'
    have hspec := plan_spec (repaired history history.length).items maxBytes
    rw [← hmore, List.take_append_of_le_length (Nat.le_trans hspec.epoch_le hspec.live_le)]

end

/-! ## the settled part of the input -/

section
variable [Sha256]

def settledInput (s : SessionState) (maxBytes : Nat) : List Value :=
  (stableRetained (projectedItems s) (plan (projectedItems s) maxBytes)).map (·.value) ++
    olderNotices s (projectedItems s) (plan (projectedItems s) maxBytes)

theorem epochStart_le (s : SessionState) (maxBytes : Nat) :
    epochStart s maxBytes ≤ (projectedItems s).length :=
  have hspec := plan_spec (projectedItems s) maxBytes
  Nat.le_trans hspec.epoch_le hspec.live_le

theorem sourceEnd_le (history : List Value) (settled k : Nat) :
    sourceEnd ((repaired history settled).items.take k) 0 ≤ history.length := by
  unfold sourceEnd
  cases hmax : (((repaired history settled).items.take k).filterMap (·.source)).max? with
  | none => exact Nat.zero_le _
  | some m =>
    have hmem := List.max?_mem hmax
    have hsub : (((repaired history settled).items.take k).filterMap (·.source)).Sublist
        (List.range history.length) := by
      rw [← sources_repaired history settled]
      exact (List.take_sublist _ _).filterMap _
    exact List.mem_range.mp (hsub.subset hmem)

theorem projectedInput_fits {s : SessionState} {maxBytes : Nat} (h : EpochFits s maxBytes) :
    projectedInput s (projectedItems s) (plan (projectedItems s) maxBytes) =
      settledInput s maxBytes ++
        ((projectedItems s).drop (epochStart s maxBytes)).map (·.value) := by
  have hcut : (plan (projectedItems s) maxBytes).liveCut = epochStart s maxBytes := by
    show liveCut (projectedItems s) maxBytes (epochStart s maxBytes) = _
    rw [liveCut, if_neg (Nat.not_lt.mpr h)]
  have hlive : liveNotices s (projectedItems s) (plan (projectedItems s) maxBytes) = [] := by
    rw [liveNotices, hcut, if_neg]
    exact Nat.lt_irrefl _
  rw [projectedInput, hlive, hcut, List.append_nil, settledInput]

theorem baseBudget_fits {s : SessionState} {maxBytes : Nat} (h : EpochFits s maxBytes) :
    baseBudget (projectedItems s) maxBytes (epochStart s maxBytes) =
      maxBytes - appendBudget maxBytes - omissionNoticeReserveBytes := by
  have hcut : liveCut (projectedItems s) maxBytes (epochStart s maxBytes) = epochStart s maxBytes := by
    rw [liveCut, if_neg (Nat.not_lt.mpr h)]
  rw [baseBudget, hcut, if_neg (Nat.lt_irrefl _), reservedTailBytes, if_neg (Nat.not_lt.mpr h),
    Nat.mul_zero, Nat.sub_zero]

/-- the first `stable_input_items` items are the base -/
theorem take_stableInputItems (s : SessionState) (r : Repair) (maxBytes : Nat) :
    (nativeView s r maxBytes).input.take (nativeView s r maxBytes).manifest.stableInputItems =
      (stableRetained r.items (plan r.items maxBytes)).map (·.value) := by
  show (projectedInput s r.items _).take (stableRetained r.items _).length = _
  rw [projectedInput, List.append_assoc, List.append_assoc,
    List.take_append_of_le_length (by simp), List.take_of_length_le (by simp)]

section
variable {s s' : SessionState} {maxBytes : Nat} (hid : s.id = s'.id) (hext : s.history <+: s'.history)
  (hset : settledItems s = settledItems s')
  (htake : (projectedItems s).take (epochStart s maxBytes) =
    (projectedItems s').take (epochStart s' maxBytes))
  (heq : epochStart s maxBytes = epochStart s' maxBytes)
  (hfit : EpochFits s maxBytes) (hfit' : EpochFits s' maxBytes)
include htake heq hfit hfit'

theorem baseStart_congr : (plan (projectedItems s) maxBytes).baseStart =
    (plan (projectedItems s') maxBytes).baseStart := by
  have hle := epochStart_le s maxBytes
  have hle' := epochStart_le s' maxBytes
  show suffixStart _ _ 0 (epochStart s maxBytes) (baseBudget _ _ (epochStart s maxBytes)) =
    suffixStart _ _ 0 (epochStart s' maxBytes) (baseBudget _ _ (epochStart s' maxBytes))
  rw [baseBudget_fits hfit, baseBudget_fits hfit']
  rw [← heq] at htake hle' ⊢
  exact suffixStart_congr hle hle' htake 0 _ (Nat.zero_le _)

theorem stableRetained_congr :
    stableRetained (projectedItems s) (plan (projectedItems s) maxBytes) =
      stableRetained (projectedItems s') (plan (projectedItems s') maxBytes) := by
  show ((projectedItems s).take (epochStart s maxBytes)).drop _ =
    ((projectedItems s').take (epochStart s' maxBytes)).drop _
  rw [htake, baseStart_congr htake heq hfit hfit']

include hid hext

/-- **The settled part of the input depends only on what stands before the epoch.** -/
theorem settledInput_congr : settledInput s maxBytes = settledInput s' maxBytes := by
  have hbase := baseStart_congr htake heq hfit hfit'
  have hspec := plan_spec (projectedItems s) maxBytes
  have hend : epochHistoryEnd (projectedItems s) (plan (projectedItems s) maxBytes) =
      epochHistoryEnd (projectedItems s') (plan (projectedItems s') maxBytes) :=
    congrArg (sourceEnd · 0) htake
  have hle : epochHistoryEnd (projectedItems s) (plan (projectedItems s) maxBytes) ≤
      s.history.length := sourceEnd_le _ _ _
  have hhist : epochHistory s (projectedItems s) (plan (projectedItems s) maxBytes) =
      epochHistory s' (projectedItems s') (plan (projectedItems s') maxBytes) := by
    obtain ⟨ext, hext⟩ := hext
    rw [epochHistory, epochHistory, ← hend, ← hext, List.take_append_of_le_length hle]
  have homit : olderOmittedEnd (projectedItems s) (plan (projectedItems s) maxBytes) =
      olderOmittedEnd (projectedItems s') (plan (projectedItems s') maxBytes) := by
    have h := congrArg (List.take (plan (projectedItems s) maxBytes).baseStart) htake
    have hb : (plan (projectedItems s) maxBytes).baseStart ≤ epochStart s maxBytes := hspec.base_le
    rw [List.take_take, List.take_take, ← heq, Nat.min_eq_left hb] at h
    rw [olderOmittedEnd, olderOmittedEnd, h, hbase]
  rw [settledInput, settledInput, stableRetained_congr htake heq hfit hfit', olderNotices,
    olderNotices, hbase, hid, hend, hhist, homit]

end

end

/-! ## where the prefix is lost

Three ways in which two states of a session miss the result below: an oversized unit takes its
room from the base, a placeholder gives way to a shorter result, and a call is lost at the settled
boundary. -/

theorem escapedLength_le_append (a b : String) : escapedLength b ≤ escapedLength (a ++ b) := by
  rw [escapedLength_append]
  exact Nat.le_add_left _ _

/-- an oversized unit that is alone in its epoch: it is dropped, and the base gets its room -/
theorem plan_oversized (x y : ProjectedItem) (hx : x.stable = true) (hy : y.stable = false)
    (hmark : y.mark = .neutral) (hshort : x.value.size + 1 ≤ 104) (hlong : 2152 < y.value.size + 1) :
    plan [x, y] 4200 = ⟨1, 2, 0⟩ := by
  have happ : appendBudget 4200 = 2152 := by decide
  have hend : stableEnd [x, y] = 1 := by simp [stableEnd, hx, hy]
  have hs0 : sizeAt (sizes [x, y]) 0 = 0 := rfl
  have hs1 : sizeAt (sizes [x, y]) 1 = x.value.size + 1 := by
    rw [sizeAt_sizes _ _ (by simp)]; simp [bytes]
  have hs2 : sizeAt (sizes [x, y]) 2 = x.value.size + 1 + (y.value.size + 1) := by
    rw [sizeAt_sizes _ _ (by simp)]; simp [bytes]
  have hepoch : (plan [x, y] 4200).epochStart = 1 := by
    rw [plan_epochStart, hend, lastEpoch]
    simp [epochLoop, epochStep, hmark, step]
  have hcut : liveCut [x, y] 4200 1 = 2 := by
    rw [liveCut, tailBytes, happ, suffixStart]
    show (if 2152 < sizeAt _ 2 - sizeAt _ 1 then suffixLoop (sizes [x, y]) 2 104 [y] 1 ∅ else 1) = 2
    rw [suffixLoop, hs1, hs2, if_pos (by omega), if_pos (Or.inl (by omega))]
    rfl
  have hbudget : baseBudget [x, y] 4200 1 = 104 := by
    rw [baseBudget, reservedTailBytes, hcut, tailBytes, tailBytes, happ]
    show 4200 - (if 2152 < sizeAt _ 2 - sizeAt _ 1 then sizeAt _ 2 - sizeAt _ 2 else 2152) - 2048 -
      2048 * (if 1 < 2 then 1 else 0) = 104
    rw [hs1, hs2, if_pos (by omega), if_pos (by omega), Nat.sub_self]
  have hbase : suffixStart [x, y] (sizes [x, y]) 0 1 104 = 0 :=
    suffixStart_of_fits [x, y] 0 1 104 (by decide) (by simp) (by
      show bytes [x] ≤ 104
      rw [bytes_cons, bytes_nil]; omega)
  have hplan : plan [x, y] 4200 = ⟨(plan [x, y] 4200).epochStart,
    liveCut [x, y] 4200 (plan [x, y] 4200).epochStart,
    suffixStart [x, y] (sizes [x, y]) 0 (plan [x, y] 4200).epochStart
      (baseBudget [x, y] 4200 (plan [x, y] 4200).epochStart)⟩ := rfl
  rw [hplan, hepoch, hcut, hbudget, hbase]

theorem epochStart_pair (m c o : ProjectedItem) (id : String) (hm : m.mark = .neutral)
    (hc : c.mark = .opens id) (ho : o.mark = .closes id) (hstable : m.stable = false)
    (maxBytes : Nat) :
    (plan [m, c, o] maxBytes).epochStart =
      if appendBudget maxBytes < bytes [m, c, o] then 1 else 0 := by
  have hend : stableEnd [m, c, o] = 0 := by simp [stableEnd, hstable]
  have hs0 : sizeAt (sizes [m, c, o]) 0 = 0 := rfl
  have hs1 : sizeAt (sizes [m, c, o]) 1 = m.value.size + 1 := by
    rw [sizeAt_sizes _ _ (by simp)]; simp [bytes]
  have hs3 : sizeAt (sizes [m, c, o]) 3 = bytes [m, c, o] := by
    rw [sizeAt_sizes _ _ (by simp)]; rfl
  have hsum : m.value.size + 1 + (bytes [m, c, o] - (m.value.size + 1)) = bytes [m, c, o] := by
    rw [bytes_cons]; omega
  have hopen : Pairs.step ∅ (.opens id) ≠ ∅ := by
    intro h
    have : id ∈ Pairs.step ∅ (.opens id) := by simp
    rw [h] at this
    exact absurd this (by simp)
  have hclose : Pairs.step (Pairs.step ∅ (.opens id)) (.closes id) = ∅ := by
    apply Std.ExtTreeSet.ext_mem
    intro x
    simp
  -- the message is a unit, the call opens the next one, and the output ends it
  have h1 : epochStep (sizes [m, c, o]) (appendBudget maxBytes) 0 m ⟨0, 0, 0, ∅⟩ =
      ⟨0, m.value.size + 1, 1, ∅⟩ := by
    simp [epochStep, hm, Pairs.step, hs0, hs1]
  have h2 : epochStep (sizes [m, c, o]) (appendBudget maxBytes) 1 c ⟨0, m.value.size + 1, 1, ∅⟩ =
      ⟨0, m.value.size + 1, 1, Pairs.step ∅ (.opens id)⟩ := by
    rw [epochStep, hc]
    exact if_pos (by simpa using hopen)
  have h3 : (epochStep (sizes [m, c, o]) (appendBudget maxBytes) 2 o
      ⟨0, m.value.size + 1, 1, Pairs.step ∅ (.opens id)⟩).epochStart =
      if appendBudget maxBytes < bytes [m, c, o] then 1 else 0 := by
    simp only [epochStep, ho, hclose, hs1, hs3, hsum]
    rw [if_neg (by simp)]
    split
    · rw [if_pos (by omega)]
    · rw [if_neg (by omega)]
  rw [plan_epochStart, hend, lastEpoch, List.drop_zero, epochLoop, epochLoop, epochLoop, epochLoop,
    h1, h2, h3]

/-- the first session, and the same session after an oversized message -/
def shortSession : SessionState := sessionAt [messageItem "user" "hi"] 1
def oversizedSession : SessionState :=
  sessionAt [messageItem "user" "hi", messageItem "user" (longText 3000)] 1

/-- a call whose result is lost, and the same call with its result -/
def lostSession : SessionState :=
  sessionAt [messageItem "assistant" (longText 1879), callItem "a"] 0
def foundSession : SessionState :=
  sessionAt [messageItem "assistant" (longText 1879), callItem "a", outputItem "a" "ok"] 0

theorem projectedItems_oversized : projectedItems oversizedSession =
    [⟨messageItem "user" "hi", some 0, true⟩, ⟨messageItem "user" (longText 3000), some 1, false⟩] :=
  rfl

theorem projectedItems_lost : projectedItems lostSession =
    [⟨messageItem "assistant" (longText 1879), some 0, false⟩, ⟨callItem "a", some 1, false⟩,
      ⟨placeholder "a", none, false⟩] := rfl

theorem projectedItems_found : projectedItems foundSession =
    [⟨messageItem "assistant" (longText 1879), some 0, false⟩, ⟨callItem "a", some 1, false⟩,
      ⟨outputItem "a" "ok", some 2, false⟩] := rfl

/-! the cut points of the four sessions -/

theorem plan_short : plan (projectedItems shortSession) 4200 = ⟨1, 1, 1⟩ :=
  plan_small (projectedItems shortSession) 4200 (by decide) (by decide)

theorem plan_oversizedSession : plan (projectedItems oversizedSession) 4200 = ⟨1, 2, 0⟩ := by
  rw [projectedItems_oversized]
  refine plan_oversized _ _ rfl rfl (mark_messageItem _ _) (by decide) ?_
  show 2152 < (messageItem "user" (longText 3000)).size + 1
  rw [size_messageItem, escapedLength_longText]
  omega

theorem size_longMessage : (messageItem "assistant" (longText 1879)).size = 1912 := by
  have h : escapedLength "assistant" = 9 := by decide
  rw [size_messageItem, escapedLength_longText, h]

theorem size_callItem_eq : (callItem "a").size = 74 := by decide

theorem size_placeholder_ge : 67 ≤ (placeholder "a").size := by
  have hlast : 10 ≤ escapedLength "authoritative recovery state.\"\x7d" := by decide
  have h : 10 ≤ escapedLength lostOutput := Nat.le_trans hlast (escapedLength_le_append _ _)
  have ha : escapedLength "a" = 1 := by decide
  rw [placeholder, size_outputItem, ha]
  omega

theorem mark_callItem (id : String) : mark (callItem id) = .opens id := by
  simp [mark, callItem, Value.index, Value.get, lookup, Value.asStr]

attribute [grind =] epochStart

theorem epochStart_lost : epochStart lostSession 4096 = 1 := by
  have happ : appendBudget 4096 = 2048 := by decide
  have hp : 67 ≤ (⟨placeholder "a", none, false⟩ : ProjectedItem).value.size := size_placeholder_ge
  have h := epochStart_pair ⟨messageItem "assistant" (longText 1879), some 0, false⟩
    ⟨callItem "a", some 1, false⟩ ⟨placeholder "a", none, false⟩ "a" (mark_messageItem _ _)
    (mark_callItem "a") (mark_outputItem "a" lostOutput) rfl 4096
  rw [epochStart, projectedItems_lost, h, happ, if_pos]
  rw [bytes_cons, bytes_cons, bytes_cons, bytes_nil, size_longMessage, size_callItem_eq]
  omega

theorem epochStart_found : epochStart foundSession 4096 = 0 := by
  have happ : appendBudget 4096 = 2048 := by decide
  have hsize : (outputItem "a" "ok").size = 59 := by decide
  have h := epochStart_pair ⟨messageItem "assistant" (longText 1879), some 0, false⟩
    ⟨callItem "a", some 1, false⟩ ⟨outputItem "a" "ok", some 2, false⟩ "a" (mark_messageItem _ _)
    (mark_callItem "a") (mark_outputItem "a" "ok") rfl 4096
  rw [epochStart, projectedItems_found, h, happ, if_neg]
  rw [bytes_cons, bytes_cons, bytes_cons, bytes_nil, size_longMessage, size_callItem_eq, hsize]
  omega

theorem projectedItems_lostResult : projectedItems (sessionAt lostResult 1) =
    [⟨callItem "a", some 0, true⟩, ⟨messageItem "assistant" "hello", some 1, false⟩,
      ⟨placeholder "a", none, false⟩] := rfl

theorem epochStart_lostResult : epochStart (sessionAt lostResult 1) 4096 = 1 := by
  have hshort : bytes [(⟨messageItem "assistant" "hello", some 1, false⟩ : ProjectedItem),
      ⟨placeholder "a", none, false⟩] ≤ appendBudget 4096 :=
    Nat.le_trans (bytes_le _ 400 (List.forall_mem_cons.mpr ⟨size_messageItem_hello,
      List.forall_mem_cons.mpr ⟨size_placeholder_a, fun _ h => nomatch h⟩⟩)) (by decide)
  rw [epochStart, plan_small (projectedItems (sessionAt lostResult 1)) 4096 (by decide) hshort]
  rfl

section
variable [Sha256]

theorem stableInputItems_sessionAt (history : List Value) (settled maxBytes : Nat) (p : Plan)
    (hmax : 4096 ≤ maxBytes) (hp : plan (projectedItems (sessionAt history settled)) maxBytes = p) :
    ∃ view, projectNative (sessionAt history settled) maxBytes = .ok view ∧
      view.manifest.stableInputItems = p.epochStart - p.baseStart := by
  refine ⟨_, (projectNative_ok _ maxBytes (noActivePending_sessionAt _ _) hmax).1, ?_⟩
  rw [← hp]
  exact slice_length _ _ _ (epochStart_le (sessionAt history settled) maxBytes)

end

/-- **The prefix can be lost within an epoch, the epoch can move back, and it can start inside a
pair.** -/
theorem projectNative_notAppendOnly :
    (Extends shortSession oversizedSession ∧
      epochStart shortSession 4200 = epochStart oversizedSession 4200 ∧
      ∃ view view', @projectNative Sha256.standard shortSession 4200 = .ok view ∧
        @projectNative Sha256.standard oversizedSession 4200 = .ok view' ∧
        view.manifest.stableInputItems ≠ view'.manifest.stableInputItems) ∧
    (Extends lostSession foundSession ∧
      (∃ view, @projectNative Sha256.standard lostSession 4096 = .ok view) ∧
      (∃ view, @projectNative Sha256.standard foundSession 4096 = .ok view) ∧
      epochStart foundSession 4096 < epochStart lostSession 4096) ∧
    ((∃ view, @projectNative Sha256.standard (sessionAt lostResult 1) 4096 = .ok view) ∧
      Answers (marks (projectedItems (sessionAt lostResult 1))) 0 2 "a" ∧
      0 < epochStart (sessionAt lostResult 1) 4096 ∧
      epochStart (sessionAt lostResult 1) 4096 ≤ 2) := by
  refine ⟨⟨⟨rfl, ⟨_, rfl⟩, rfl⟩, ?_, ?_⟩, ⟨⟨rfl, ⟨_, rfl⟩, rfl⟩, ?_, ?_, ?_⟩, ?_, ?_, ?_⟩
  · rw [epochStart, plan_short, epochStart, plan_oversizedSession]
  · obtain ⟨view, hview, hitems⟩ := @stableInputItems_sessionAt Sha256.standard
      _ _ 4200 _ (by decide) plan_short
    obtain ⟨view', hview', hitems'⟩ := @stableInputItems_sessionAt Sha256.standard
      _ _ 4200 _ (by decide) plan_oversizedSession
    refine ⟨view, view', hview, hview', ?_⟩
    rw [hitems, hitems']
    decide
  · exact ⟨_, (@projectNative_ok Sha256.standard _ 4096 (noActivePending_sessionAt _ _)
      (Nat.le_refl _)).1⟩
  · exact ⟨_, (@projectNative_ok Sha256.standard _ 4096 (noActivePending_sessionAt _ _)
      (Nat.le_refl _)).1⟩
  · rw [epochStart_found, epochStart_lost]
    decide
  · exact ⟨_, (@projectNative_ok Sha256.standard _ 4096 (noActivePending_sessionAt _ _)
      (Nat.le_refl _)).1⟩
  · rw [projectedItems_lostResult]
    exact ⟨rfl, congrArg some (mark_outputItem "a" lostOutput), by decide, fun k h1 h2 => by
      obtain rfl : k = 1 := by omega
      exact fun h => nomatch h⟩
  · rw [epochStart_lostResult]
    exact ⟨by decide, by decide⟩

section
variable [Sha256]

/-! ## the result -/

/-- **Within a cache epoch the prompt is append-only.**  The epoch starts at the beginning of a
unit, moves only forward as the history grows, and while it stays and fits its allowance the
settled part of the input is kept to the byte. -/
theorem projectNative_appendOnly (s s' : SessionState) (maxBytes : Nat) (view view' : ContextView)
    (hext : Extends s s')
    (hrep : RepairedAt s.history (settledItems s)) (hrep' : RepairedAt s'.history (settledItems s'))
    (h : projectNative s maxBytes = .ok view) (h' : projectNative s' maxBytes = .ok view') :
    (epochStart s maxBytes = epochStart s' maxBytes → EpochFits s maxBytes → EpochFits s' maxBytes →
      view.manifest.stableInputItems = view'.manifest.stableInputItems ∧
      view.input.take view.manifest.stableInputItems <+: view'.input ∧
      settledInput s maxBytes <+: view.input ∧ settledInput s maxBytes <+: view'.input) ∧
    (RepairedAt s'.history s.history.length → epochStart s maxBytes ≤ epochStart s' maxBytes) ∧
    (∀ (i j : Nat) (id : String), Answers (marks (projectedItems s)) i j id →
      (i < epochStart s maxBytes ↔ j < epochStart s maxBytes)) := by
  obtain ⟨_, _, rfl, _⟩ := projectNative_eq s maxBytes view h
  obtain ⟨_, _, rfl, _⟩ := projectNative_eq s' maxBytes view' h'
  obtain ⟨hid, ⟨ext, hhist⟩, hset⟩ := hext
  have hs := settledItems_le s
  have hitems' : projectedItems s' = (repaired (s.history ++ ext) (settledItems s)).items := by
    rw [projectedItems, ← hset, hhist]
  rw [← hset, ← hhist] at hrep'
  refine ⟨?_, ?_, ?_⟩
  · intro heq hfit hfit'
    have htake : (projectedItems s).take (epochStart s maxBytes) =
        (projectedItems s').take (epochStart s' maxBytes) := by
      rw [epochStart, epochStart, hitems'] at heq ⊢
      exact take_epochStart hs maxBytes hrep hrep' heq
    have hkept := stableRetained_congr htake heq hfit hfit'
    have hsame := settledInput_congr hid ⟨ext, hhist⟩ htake heq hfit hfit'
    have hin : settledInput s maxBytes <+: (nativeView s (repaired s.history (settledItems s))
        maxBytes).input := ⟨_, (projectedInput_fits hfit).symm⟩
    have hin' : settledInput s maxBytes <+: (nativeView s' (repaired s'.history (settledItems s'))
        maxBytes).input := ⟨_, by rw [hsame]; exact (projectedInput_fits hfit').symm⟩
    refine ⟨congrArg List.length hkept, ?_, hin, hin'⟩
    rw [take_stableInputItems]
    exact (List.prefix_append _ _).trans hin'
  · intro hend
    rw [← hhist] at hend
    show (plan (projectedItems s) maxBytes).epochStart ≤ (plan (projectedItems s') maxBytes).epochStart
    rw [hitems']
    exact epochStart_mono hs maxBytes hend
  · intro i j id hans
    exact cut_keeps _ _ i j id (epochStart_closed hs maxBytes hrep) hans

end

/-- before `k` the history has no call, so nothing waits there -/
theorem repairedAt_of_neutral (history : List Value) (k : Nat)
    (h : ∀ m ∈ historyMarks (history.take k), m = .neutral) : RepairedAt history k := by
  rintro id ⟨i, hi, hopen, _⟩
  have hmem : (historyMarks (history.take k))[i]? = some (.opens id) := by
    rw [historyMarks, List.map_take, List.getElem?_take_of_lt hi]
    exact hopen
  have hneutral := h _ (List.mem_of_getElem? hmem)
  cases hneutral

/-- the session above its limit, and the same session after a short message -/
def overfullSession : SessionState := sessionAt overfull 2
def grownSession : SessionState := sessionAt (overfull ++ [messageItem "user" "more"]) 2

theorem plan_overfullSession : plan (projectedItems overfullSession) 40000 = ⟨2, 2, 1⟩ :=
  plan_overfull [⟨callItem "a", some 2, false⟩, ⟨outputItem "a" "done", some 3, false⟩] rfl
    (by decide)

theorem plan_grown : plan (projectedItems grownSession) 40000 = ⟨2, 2, 1⟩ :=
  plan_overfull [⟨callItem "a", some 2, false⟩, ⟨outputItem "a" "done", some 3, false⟩,
    ⟨messageItem "user" "more", some 4, false⟩] rfl (by decide)

theorem repairedAt_overfull (rest : List Value) : RepairedAt (overfull ++ rest) 2 := by
  refine repairedAt_of_neutral _ 2 fun m hm => ?_
  rw [List.take_append_of_le_length (by decide)] at hm
  have h : historyMarks (overfull.take 2) = [.neutral, .neutral] :=
    congr (congrArg _ (mark_messageItem _ _)) (congrArg (· :: []) (mark_messageItem _ _))
  rw [h] at hm
  simpa using hm

/-- the short message and the notice stay in front of the call when the session grows -/
theorem projectNative_appendOnly_grown :
    Extends overfullSession grownSession ∧
      epochStart overfullSession 40000 = epochStart grownSession 40000 ∧
      ∃ view view', @projectNative Sha256.standard overfullSession 40000 = .ok view ∧
        @projectNative Sha256.standard grownSession 40000 = .ok view' ∧
        view.manifest.stableInputItems = 1 ∧ view'.manifest.stableInputItems = 1 ∧
        view.input.take 1 <+: view'.input ∧
        @settledInput Sha256.standard overfullSession 40000 <+: view'.input := by
  have hmax : 4096 ≤ 40000 := by decide
  have hext : Extends overfullSession grownSession := ⟨rfl, ⟨_, rfl⟩, rfl⟩
  have hepoch : epochStart overfullSession 40000 = epochStart grownSession 40000 := by
    rw [epochStart, plan_overfullSession, epochStart, plan_grown]
  have hfit : EpochFits overfullSession 40000 := by
    rw [EpochFits, epochStart, plan_overfullSession, tailBytes_eq _ _ (by decide)]; decide
  have hfit' : EpochFits grownSession 40000 := by
    rw [EpochFits, epochStart, plan_grown, tailBytes_eq _ _ (by decide)]; decide
  obtain ⟨view, hview, hitems⟩ := @stableInputItems_sessionAt Sha256.standard _ _ 40000 _ hmax
    plan_overfullSession
  obtain ⟨view', hview', hitems'⟩ := @stableInputItems_sessionAt Sha256.standard _ _ 40000 _ hmax
    plan_grown
  obtain ⟨hkept, _, _⟩ := @projectNative_appendOnly Sha256.standard overfullSession grownSession
    40000 _ _ hext (repairedAt_overfull []) (repairedAt_overfull _) hview hview'
  obtain ⟨_, h2, _, h3⟩ := hkept hepoch hfit hfit'
  rw [hitems] at h2
  exact ⟨hext, hepoch, view, view', hview, hview', hitems, hitems', h2, h3⟩

end Orvek
