import Orvek.Context.Summaries

/-!
# What the segments of a view say

A manifest names, for each segment of the input, the range of the input it describes and the range
of the history it comes from.

* `Tiles`                    ranges that follow one another without gap or overlap;
* `native_describes`         the segments of a native view tile its input, and its live tail names
                             the history indices it holds;
* `transition_describes`     with transitions the segments tile the input too, but the live tail is
                             named from the settled boundary on, although its items begin where the
                             cache epoch does.  The two places are the same if and only if the
                             unsettled items are of one epoch (`OneEpoch`).
-/

set_option linter.unusedSectionVars false

namespace Orvek
open Json Pairs Checks

variable (s : SessionState)

/-! ## ranges -/

/-- ranges that lead from one place to another, each beginning where the one before it stops -/
def Tiles : Nat → Nat → List HistoryRange → Prop
  | start, stop, [] => start = stop
  | start, stop, r :: rest => r.start = start ∧ r.start < r.stop ∧ Tiles r.stop stop rest

theorem Tiles.append {a b c : Nat} {l m : List HistoryRange} (h : Tiles a b l) (h' : Tiles b c m) :
    Tiles a c (l ++ m) := by
  induction l generalizing a with
  | nil =>
    obtain rfl : a = b := h
    exact h'
  | cons r l ih => exact ⟨h.1, h.2.1, ih h.2.2⟩

theorem Tiles.mem {a b : Nat} {l : List HistoryRange} (h : Tiles a b l) {r : HistoryRange}
    (hr : r ∈ l) : r.start < r.stop ∧ r.stop ≤ b := by
  have hle : ∀ {a b : Nat} {l : List HistoryRange}, Tiles a b l → a ≤ b := by
    intro a b l h
    induction l generalizing a with
    | nil => exact Nat.le_of_eq h
    | cons r l ih =>
      obtain ⟨rfl, hlt, hrest⟩ := h
      exact Nat.le_trans (Nat.le_of_lt hlt) (ih hrest)
  induction l generalizing a with
  | nil => cases hr
  | cons x l ih =>
    rcases List.mem_cons.mp hr with rfl | hr
    · exact ⟨h.2.1, hle h.2.2⟩
    · exact ih h.2.2 hr

theorem Tiles.one {a b : Nat} (h : a < b) : Tiles a b [⟨a, b⟩] := ⟨rfl, h, rfl⟩

theorem tiles_mapIdx {α : Type} (l : List α) (start : Nat) (f : Nat → α → ContextSegment)
    (h : ∀ i x, (f i x).inputRange = ⟨start + i, start + i + 1⟩) :
    Tiles start (start + l.length) ((l.mapIdx f).map (·.inputRange)) := by
  induction l generalizing start f with
  | nil => rfl
  | cons x l ih =>
    rw [List.mapIdx_cons, List.map_cons, h 0 x, List.length_cons]
    refine ⟨rfl, Nat.lt_succ_self _, ?_⟩
    have := ih (start + 1) (fun i => f (i + 1)) fun i y => by
      rw [h (i + 1) y, Nat.add_right_comm start 1 i]
      rfl
    rwa [Nat.add_right_comm, Nat.add_assoc] at this

/-! ## what a view is to say -/

/-- **The segments describe the input**: they tile it, and the live tail, which holds the last items
of the repaired history, names the history indices of those items and no others -/
structure Describes (s : SessionState) (view : ContextView) : Prop where
  tiles : Tiles 0 view.input.length (view.manifest.segments.map (·.inputRange))
  live : ∀ seg ∈ view.manifest.segments, seg.role = .liveTail →
    ∃ tail, tail <:+ projectedItems s ∧
      slice view.input seg.inputRange.start seg.inputRange.stop = tail.map (·.value) ∧
      ∀ k, seg.range.start ≤ k ∧ k < seg.range.stop ↔ ∃ x ∈ tail, x.source = some k

/-- how many history items stand before a cut of the repaired history -/
def sourcesBefore (s : SessionState) (k : Nat) : Nat :=
  (((projectedItems s).take k).filterMap (·.source)).length

theorem sources_drop (k : Nat) :
    ((projectedItems s).drop k).filterMap (·.source) =
      List.range' (sourcesBefore s k) (s.history.length - sourcesBefore s k) := by
  have hall := sources_repaired s.history (settledItems s)
  rw [← List.take_append_drop k (repaired s.history (settledItems s)).items,
    List.filterMap_append] at hall
  have h := congrArg (List.drop (sourcesBefore s k)) hall
  rwa [List.drop_left', List.range_eq_range', List.drop_range', Nat.mul_one, Nat.zero_add] at h
  rfl

theorem sourcesBefore_le (k : Nat) : sourcesBefore s k ≤ s.history.length := by
  have hall := congrArg List.length (sources_repaired s.history (settledItems s))
  rw [← List.take_append_drop k (repaired s.history (settledItems s)).items, List.filterMap_append,
    List.length_append, List.length_range] at hall
  have : sourcesBefore s k + _ = _ := hall
  omega

theorem mem_sources_drop (k i : Nat) :
    (∃ x ∈ (projectedItems s).drop k, x.source = some i) ↔
      sourcesBefore s k ≤ i ∧ i < s.history.length := by
  have hle := sourcesBefore_le s k
  rw [← List.mem_filterMap, sources_drop, List.mem_range'_1]
  omega

theorem sourceStart_drop (k : Nat) :
    sourceStart ((projectedItems s).drop k) s.history.length = sourcesBefore s k := by
  have hle := sourcesBefore_le s k
  rw [sourceStart, sources_drop]
  generalize hd : s.history.length - sourcesBefore s k = d
  cases d with
  | zero =>
    show s.history.length = _
    omega
  | succ d =>
    have hmin : (List.range' (sourcesBefore s k) (d + 1)).min? = some (sourcesBefore s k) := by
      rw [List.min?_eq_some_iff]
      exact ⟨List.mem_range'_1.mpr (by omega), fun b hb => (List.mem_range'_1.mp hb).1⟩
    rw [hmin]
    rfl

/-! ## one epoch -/

/-- the items after the settled boundary -/
def unsettled (s : SessionState) : List ProjectedItem :=
  (projectedItems s).drop (stableEnd (projectedItems s))

/-- the unsettled items fit the allowance of an epoch, or no cut among them leaves every call with
its output -/
def OneEpoch (s : SessionState) : Prop :=
  bytes (unsettled s) ≤ maxOutputTokens ∨
    ∀ k, 0 < k → k < (unsettled s).length → after ∅ (marks ((unsettled s).take k)) ≠ ∅

/-- what the search keeps while it stays in the first epoch: the epoch fits, or it has one unit -/
def FirstEpoch (items : List ProjectedItem) (start budget : Nat) (e : Epoch) : Prop :=
  e.epochStart = start → bytes (slice items start e.unitStart) ≤ budget ∨
    ∀ k, start < k → k < e.unitStart → openFrom items start k ≠ ∅

/-- between two unit boundaries some call is open -/
def OpenSince (items : List ProjectedItem) (start index : Nat) (e : Epoch) : Prop :=
  ∀ k, e.unitStart < k → k ≤ index → openFrom items start k ≠ ∅

section
variable {items : List ProjectedItem} {start index budget : Nat} {e : Epoch}

theorem OpenSince.step (h : EpochInv items start index e) (ho : OpenSince items start index e)
    (item : ProjectedItem) (hget : items[index]? = some item) :
    OpenSince items start (index + 1) (epochStep (sizes items) budget index item e) := by
  have hinv := h.step budget item hget
  have hstart := h.le_start
  have hunit := h.le_unit
  have hle := h.le_index
  intro k hk hk'
  rcases Nat.lt_or_ge index k with hlt | hge
  · obtain rfl : k = index + 1 := by omega
    intro hempty
    have := hinv.unit_done (hinv.opened.trans hempty)
    omega
  · refine ho k ?_ hge
    have : e.unitStart ≤ (epochStep (sizes items) budget index item e).unitStart := by
      unfold epochStep
      dsimp only
      split
      · exact Nat.le_refl _
      · split <;> exact Nat.le_succ_of_le hle
    omega

theorem FirstEpoch.step (h : EpochInv items start index e) (ho : OpenSince items start index e)
    (hf : FirstEpoch items start budget e) (item : ProjectedItem) (hget : items[index]? = some item) :
    FirstEpoch items start budget (epochStep (sizes items) budget index item e) := by
  have hlt : index < items.length := (List.getElem?_eq_some_iff.mp hget).1
  have hunit := h.le_unit
  have hstart := h.le_start
  have hle := h.le_index
  have hpos : e.epochBytes = 0 → e.unitStart = e.epochStart := by
    intro h0
    rw [h.epochBytes] at h0
    by_contra hne
    have hlen : (slice items e.epochStart e.unitStart).length = e.unitStart - e.epochStart :=
      slice_length _ _ _ (by omega)
    have := bytes_pos (slice items e.epochStart e.unitStart)
      (List.ne_nil_of_length_pos (by omega))
    omega
  unfold epochStep
  simp only [sizeAt_sub items e.unitStart (index + 1) (by omega) (by omega)]
  split
  · exact hf
  · split
    · -- a fresh epoch begins after the first one
      rename_i hover
      intro heq
      have heq : e.unitStart = start := heq
      have h0 : e.epochStart = e.unitStart := by omega
      rw [h.epochBytes, h0, slice_self] at hover
      exact absurd hover.1 (Nat.lt_irrefl 0)
    · rename_i hkeep
      intro heq
      have heq : e.epochStart = start := heq
      rcases Nat.eq_zero_or_pos e.epochBytes with h0 | h0
      · -- this was the first unit
        right
        intro k hk hk'
        have hk' : k < index + 1 := hk'
        exact ho k (by rw [hpos h0, heq]; exact hk) (by omega)
      · left
        rw [h.epochBytes, heq, ← bytes_append, ← slice_append items start e.unitStart (index + 1)
          (by omega) (by omega) (by omega)] at hkeep
        have hsum : ¬ budget < bytes (slice items start (index + 1)) := fun hover =>
          hkeep ⟨by rw [← heq, ← h.epochBytes]; exact h0, hover⟩
        exact Nat.not_lt.mp hsum

theorem firstEpoch_run (l : List ProjectedItem) (hl : items.drop index = l)
    (h : EpochInv items start index e) (ho : OpenSince items start index e)
    (hf : FirstEpoch items start budget e) :
    FirstEpoch items start budget (epochLoop (sizes items) budget index l e) := by
  induction l generalizing index e with
  | nil => exact hf
  | cons item l ih =>
    obtain ⟨hget, hrest⟩ := drop_eq_cons hl
    exact ih hrest (h.step budget item hget) (ho.step h item hget) (hf.step h ho item hget)

/-- as long as some call is open the search has not ended its first unit -/
theorem epochLoop_of_open (l : List ProjectedItem) (hl : items.drop index = l)
    (h : EpochInv items start index e) (he : e.unitStart = start)
    (hopen : ∀ k, start < k → k < items.length → openFrom items start k ≠ ∅) :
    (epochLoop (sizes items) budget index l e).epochStart = start := by
  induction l generalizing index e with
  | nil => exact Nat.le_antisymm (he ▸ h.le_unit) h.le_start
  | cons item l ih =>
    obtain ⟨hget, hrest⟩ := drop_eq_cons hl
    have hinv := h.step budget item hget
    have hlt : index < items.length := (List.getElem?_eq_some_iff.mp hget).1
    have hstart := h.le_start
    have hunit := h.le_unit
    have hle := h.le_index
    have h0 : e.epochBytes = 0 := by
      rw [h.epochBytes, he, show e.epochStart = start by omega, slice_self, bytes_nil]
    have hep : (epochStep (sizes items) budget index item e).epochStart = start := by
      rcases epochStep_start (sizes items) budget index item e with hs | hs <;> omega
    cases l with
    | nil => exact hep
    | cons item' l' =>
      have hlt' : index + 1 < items.length :=
        (List.getElem?_eq_some_iff.mp (drop_eq_cons hrest).1).1
      refine ih hrest hinv ?_
      have hne : Pairs.step e.opened item.mark ≠ ∅ := by
        rw [h.opened, ← openFrom_succ items start index item (by omega) hget]
        exact hopen (index + 1) (by omega) hlt'
      unfold epochStep
      dsimp only
      rw [if_pos (by simpa using hne)]
      exact he

end

theorem openFrom_end (k : Nat) : openFrom (projectedItems s) k (projectedItems s).length = ∅ := by
  have hall := after_marks_repaired s.history (settledItems s)
  rw [← List.take_append_drop k (repaired s.history (settledItems s)).items, marks_append,
    after_append] at hall
  rw [openFrom, slice_length_right]
  refine Std.ExtTreeSet.eq_empty_iff_forall_not_mem.mpr fun x hx => ?_
  have hmem := after_mono (marks ((projectedItems s).drop k)) (t := after ∅ (marks
    ((projectedItems s).take k))) (fun x hx => absurd hx Std.ExtTreeSet.not_mem_empty) x hx
  have hempty : after (after ∅ (marks ((projectedItems s).take k)))
      (marks ((projectedItems s).drop k)) = ∅ := hall
  rw [hempty] at hmem
  exact Std.ExtTreeSet.not_mem_empty hmem

theorem after_take_unsettled (k : Nat) :
    after ∅ (marks ((unsettled s).take k)) =
      openFrom (projectedItems s) (stableEnd (projectedItems s)) (stableEnd (projectedItems s) + k) := by
  rw [openFrom, slice, unsettled, List.drop_take, Nat.add_sub_cancel_left]

/-- **The epoch of a session without a limit starts at the settled boundary if and only if its
unsettled items are of one epoch.** -/
theorem epochStart_whole : epochStart s usizeMax = stableEnd (projectedItems s) ↔ OneEpoch s := by
  have hbudget : appendBudget usizeMax = maxOutputTokens := by decide
  have hle := stableEnd_le (projectedItems s)
  have hlen : (unsettled s).length = (projectedItems s).length - stableEnd (projectedItems s) :=
    List.length_drop
  rw [epochStart, plan_epochStart, hbudget]
  constructor
  · intro heq
    have hinv := lastEpoch_inv (projectedItems s) (stableEnd (projectedItems s)) maxOutputTokens hle
    have hend : (lastEpoch (projectedItems s) (stableEnd (projectedItems s))
        maxOutputTokens).unitStart = (projectedItems s).length :=
      hinv.unit_done (hinv.opened.trans (openFrom_end s _))
    have hfirst : FirstEpoch (projectedItems s) (stableEnd (projectedItems s)) maxOutputTokens
        (lastEpoch (projectedItems s) (stableEnd (projectedItems s)) maxOutputTokens) :=
      firstEpoch_run _ rfl (EpochInv.init _ _) (fun k hk hk' => absurd hk (Nat.not_lt.mpr hk'))
        fun _ => .inl (by rw [slice_self, bytes_nil]; exact Nat.zero_le _)
    refine (hfirst heq).imp (fun h => ?_) fun h k hpos hk => ?_
    · rwa [hend, slice_length_right] at h
    · rw [after_take_unsettled]
      exact h _ (by omega) (by rw [hend]; omega)
  · rintro (hfits | hopen)
    · exact (cacheEpochStart_eq _ _ _).symm.trans (cacheEpochStart_of_fits _ _ _ hfits)
    · refine epochLoop_of_open _ rfl (EpochInv.init _ _) rfl fun k hk hk' => ?_
      have := hopen (k - stableEnd (projectedItems s)) (by omega) (by omega)
      rwa [after_take_unsettled, Nat.add_sub_cancel' (Nat.le_of_lt hk)] at this

theorem first_unsettled (hlt : settledItems s < s.history.length) :
    ∃ x, (projectedItems s)[stableEnd (projectedItems s)]? = some x ∧
      x.source = some (settledItems s) := by
  have hget : s.history[settledItems s]? = some s.history[settledItems s] :=
    List.getElem?_eq_getElem hlt
  have hsplit : s.history = s.history.take (settledItems s) ++
      s.history[settledItems s] :: s.history.drop (settledItems s + 1) := by
    rw [List.getElem_cons_drop, List.take_append_drop]
  have hpre := Repair.loop_extends (settledItems s) (s.history.drop (settledItems s + 1))
    (settledItems s + 1) ((stablePart s.history (settledItems s)).push (settledItems s)
      (settledItems s) s.history[settledItems s])
  have hloop : Repair.loop (settledItems s) 0 s.history Repair.empty =
      Repair.loop (settledItems s) (settledItems s + 1) (s.history.drop (settledItems s + 1))
        ((stablePart s.history (settledItems s)).push (settledItems s) (settledItems s)
          s.history[settledItems s]) := by
    conv_lhs => rw [hsplit]
    rw [Repair.loop_append, List.length_take, Nat.min_eq_left (Nat.le_of_lt hlt), Nat.zero_add,
      Repair.loop, stablePart, hget]
  rw [← hloop] at hpre
  have hall : (stablePart s.history (settledItems s)).items ++
      [⟨s.history[settledItems s], some (settledItems s), settledItems s < settledItems s⟩] <+:
        projectedItems s := hpre.trans (List.prefix_append _ _)
  refine ⟨⟨s.history[settledItems s], some (settledItems s), settledItems s < settledItems s⟩, ?_, rfl⟩
  obtain ⟨rest, hrest⟩ := hall
  show (projectedItems s)[stableEnd (repaired s.history (settledItems s)).items]? = _
  rw [stableEnd_repaired _ _ (Nat.le_of_lt hlt), ← hrest, List.append_assoc,
    List.getElem?_append_right (Nat.le_refl _), Nat.sub_self]
  rfl

/-! ## the native view -/

section
variable [Sha256]
variable {native : ContextView} (s : SessionState)

/-- what precedes the live tail in the native input -/
def beforeLive (s : SessionState) (items : List ProjectedItem) (p : Plan) : List Value :=
  (stableRetained items p).map (·.value) ++ olderNotices s items p ++ liveNotices s items p

theorem length_beforeLive (items : List ProjectedItem) (p : Plan) :
    (beforeLive s items p).length = (stableRetained items p).length +
      (olderNotices s items p).length + (liveNotices s items p).length := by
  rw [beforeLive, List.length_append, List.length_append, List.length_map]

theorem tiles_notice {c : Prop} [Decidable c] (range : HistoryRange) (index : Nat)
    (representation : ContextRepresentation) (input : List Value) (notice : Value) :
    Tiles index (index + (if c then [notice] else []).length)
      ((if c then [noticeSegment s range index representation input] else []).map (·.inputRange)) := by
  split
  · exact Tiles.one (Nat.lt_succ_self _)
  · rfl

theorem nativeSegments_tiles (items : List ProjectedItem) (p : Plan)
    (representation : ContextRepresentation) :
    Tiles 0 (projectedInput s items p).length
      ((nativeSegments s items p representation (projectedInput s items p)).map (·.inputRange)) := by
  have hlen : (projectedInput s items p).length =
      (beforeLive s items p).length + ((items.drop p.liveCut).map (·.value)).length := by
    rw [← List.length_append]
    rfl
  unfold nativeSegments
  simp only [List.map_append]
  refine Tiles.append (b := (beforeLive s items p).length) ?_ ?_
  · rw [length_beforeLive]
    refine ((?_ : Tiles 0 (stableRetained items p).length _).append (tiles_notice s _ _ _ _ _)).append
      (tiles_notice s _ _ _ _ _)
    have h := tiles_mapIdx (stableRetained items p) 0 (fun inputIndex item =>
      segment .stableHistory s.cursor (itemRange (epochHistoryEnd items p) item)
        ⟨inputIndex, inputIndex + 1⟩ s.history representation
        (slice (projectedInput s items p) inputIndex (inputIndex + 1))) fun i _ => by
      rw [Nat.zero_add]
      rfl
    rwa [Nat.zero_add] at h
  · rw [← length_beforeLive]
    split
    · exact Tiles.one ‹_›
    · show (beforeLive s items p).length = _
      omega

theorem nativeSegments_live {s : SessionState} {items : List ProjectedItem} {p : Plan}
    {representation : ContextRepresentation} {input : List Value} {seg : ContextSegment}
    (h : seg ∈ nativeSegments s items p representation input) (hrole : seg.role = .liveTail) :
    seg = segment .liveTail s.cursor
      ⟨sourceStart (items.drop p.liveCut) s.history.length, s.history.length⟩
      ⟨(beforeLive s items p).length, input.length⟩ s.history representation
      (input.drop (beforeLive s items p).length) := by
  unfold nativeSegments at h
  simp only [← length_beforeLive] at h
  rcases List.mem_append.mp h with h | h
  · rcases List.mem_append.mp h with h | h
    · rcases List.mem_append.mp h with h | h
      · obtain ⟨i, hi, rfl⟩ := List.mem_mapIdx.mp h
        cases hrole
      · split at h
        · cases List.mem_singleton.mp h
          cases hrole
        · cases h
    · split at h
      · cases List.mem_singleton.mp h
        cases hrole
      · cases h
  · split at h
    · exact List.mem_singleton.mp h
    · cases h

theorem native_describes {s : SessionState} {maxBytes : Nat} {view : ContextView}
    (h : projectNative s maxBytes = .ok view) : Describes s view := by
  obtain ⟨_, _, rfl, _⟩ := projectNative_eq s maxBytes view h
  refine ⟨nativeSegments_tiles _ _ _ _, fun seg hseg hrole => ?_⟩
  obtain rfl := nativeSegments_live hseg hrole
  refine ⟨(projectedItems s).drop (plan (projectedItems s) maxBytes).liveCut, List.drop_suffix _ _,
    ?_, fun k => ?_⟩
  · refine (slice_length_right _ _).trans ?_
    exact List.drop_left' rfl
  · rw [mem_sources_drop, ← sourceStart_drop]
    exact Iff.rfl

/-! ## the view with transitions -/

/-- what the loop over the native segments keeps: its segments tile the input so far, and none of
them is a live tail -/
structure Derived.Tiled (d : Derived) : Prop where
  tiles : Tiles 0 d.input.length (d.segments.map (·.inputRange))
  roles : ∀ seg ∈ d.segments, seg.role ≠ .liveTail

theorem Derived.Tiled.push {d : Derived} (h : d.Tiled) (s : SessionState)
    (representation : ContextRepresentation) (role : ContextSegmentRole) (range : HistoryRange)
    {items : List Value} (hrole : role ≠ .liveTail) (hitems : items ≠ []) :
    (d.push s representation role range items).Tiled := by
  have hpos := List.length_pos_of_ne_nil hitems
  constructor
  · unfold Derived.push
    simp only [List.map_append]
    exact h.tiles.append (Tiles.one (by rw [List.length_append]; omega))
  · intro seg hseg
    rcases List.mem_append.mp hseg with hseg | hseg
    · exact h.roles seg hseg
    · cases List.mem_singleton.mp hseg
      exact hrole

theorem Derived.Tiled.step {d : Derived} (h : d.Tiled) (s : SessionState)
    (representation : ContextRepresentation) (native : ContextView) (seg : ContextSegment)
    (hslice : slice native.input seg.inputRange.start seg.inputRange.stop ≠ []) :
    (deriveSegment s representation native d seg).Tiled := by
  unfold deriveSegment
  split
  · exact h
  · split
    · rename_i t _
      have hsum : (d.summary s representation seg.range.start t).Tiled := by
        unfold Derived.summary
        split
        · exact h.push s _ .derivedSummary _ (fun h => nomatch h) (List.cons_ne_nil _ _)
        · exact h
      dsimp only
      split
      · exact hsum.push s _ .stableHistory _ (fun h => nomatch h) hslice
      · exact ⟨hsum.tiles, hsum.roles⟩
    · exact h.push s _ .stableHistory _ (fun h => nomatch h) hslice

theorem derive_tiled (representation : ContextRepresentation) (native : ContextView)
    (h : Tiles 0 native.input.length (native.manifest.segments.map (·.inputRange))) :
    (derive s representation native).Tiled := by
  have hslice : ∀ seg ∈ native.manifest.segments,
      slice native.input seg.inputRange.start seg.inputRange.stop ≠ [] := by
    intro seg hseg
    obtain ⟨hlt, hle⟩ := h.mem (List.mem_map_of_mem hseg)
    refine List.ne_nil_of_length_pos ?_
    rw [slice_length _ _ _ hle]
    omega
  unfold derive
  have hstart : (⟨[], [], 0⟩ : Derived).Tiled := ⟨rfl, fun _ h => nomatch h⟩
  revert hslice hstart
  generalize (⟨[], [], 0⟩ : Derived) = d
  generalize native.manifest.segments = segs
  intro hslice hstart
  induction segs generalizing d with
  | nil => exact hstart
  | cons seg segs ih =>
    exact ih _ (fun x hx => hslice x (List.mem_cons_of_mem _ hx))
      (hstart.step s representation native seg (hslice seg List.mem_cons_self))

theorem transitionView_tiles (maxBytes : Nat)
    (h : Tiles 0 native.input.length (native.manifest.segments.map (·.inputRange))) :
    Tiles 0 (transitionView s maxBytes native).input.length
      ((transitionView s maxBytes native).manifest.segments.map (·.inputRange)) := by
  have hd := derive_tiled s (.nativeText transitionRenderer maxBytes) native h
  unfold transitionView
  simp only [List.map_append]
  refine hd.tiles.append ?_
  split
  · exact Tiles.one ‹_›
  · rename_i hlen
    rw [List.length_append] at hlen ⊢
    exact Nat.le_antisymm (Nat.le_add_right _ _) (Nat.not_lt.mp hlen)

theorem transitionView_live {s : SessionState} {maxBytes : Nat}
    (h : Tiles 0 native.input.length (native.manifest.segments.map (·.inputRange))) {seg : ContextSegment}
    (hseg : seg ∈ (transitionView s maxBytes native).manifest.segments) (hrole : seg.role = .liveTail) :
    seg.range = ⟨s.settledHistoryItems, s.history.length⟩ ∧ liveInput native ≠ [] ∧
      slice (transitionView s maxBytes native).input seg.inputRange.start seg.inputRange.stop =
        liveInput native := by
  have hd := derive_tiled s (.nativeText transitionRenderer maxBytes) native h
  rcases List.mem_append.mp hseg with hseg | hseg
  · exact absurd hrole (hd.roles seg hseg)
  · split at hseg
    · rename_i hlen
      cases List.mem_singleton.mp hseg
      refine ⟨rfl, fun hnil => ?_, ?_⟩
      · rw [hnil, List.append_nil] at hlen
        exact Nat.lt_irrefl _ hlen
      · refine (slice_length_right _ _).trans ?_
        exact List.drop_left' rfl
    · cases hseg

theorem transitionView_has_live (maxBytes : Nat) (native : ContextView) (h : liveInput native ≠ []) :
    ∃ seg ∈ (transitionView s maxBytes native).manifest.segments, seg.role = .liveTail := by
  have hpos := List.length_pos_of_ne_nil h
  unfold transitionView
  simp only
  rw [if_pos (by rw [List.length_append]; omega)]
  exact ⟨_, List.mem_append_right _ List.mem_cons_self, rfl⟩

/-! ## the result -/

theorem settledItems_of_lt {s : SessionState} (h : settledItems s < s.history.length) :
    settledItems s = s.settledHistoryItems := by
  unfold settledItems at h ⊢
  omega

theorem sourcesBefore_stableEnd : sourcesBefore s (stableEnd (projectedItems s)) = settledItems s := by
  obtain ⟨live, hsplit, _, _⟩ := repaired_split s.history (settledItems s) (settledItems_le s)
  have htake : (projectedItems s).take (stableEnd (projectedItems s)) =
      (stablePart s.history (settledItems s)).items := by
    show (repaired s.history (settledItems s)).items.take _ = _
    rw [show stableEnd (projectedItems s) = _ from stableEnd_repaired _ _ (settledItems_le s), hsplit,
      List.take_left]
  rw [sourcesBefore, htake, sources_stablePart _ _ (settledItems_le s), List.length_range]

theorem settledItems_lt_sourcesBefore (hlt : settledItems s < s.history.length) {k : Nat}
    (hk : stableEnd (projectedItems s) < k) : settledItems s < sourcesBefore s k := by
  obtain ⟨x, hget, hx⟩ := first_unsettled s hlt
  by_contra hle
  have hin : ∃ x ∈ (projectedItems s).drop k, x.source = some (settledItems s) :=
    (mem_sources_drop s k _).mpr ⟨Nat.not_lt.mp hle, hlt⟩
  obtain ⟨y, hy, hys⟩ := hin
  -- the index would stand on both sides of the cut
  have hmem : settledItems s ∈ ((projectedItems s).take k).filterMap (·.source) :=
    List.mem_filterMap.mpr ⟨x, List.mem_of_getElem? (by rw [List.getElem?_take_of_lt hk]; exact hget), hx⟩
  have hall := sources_repaired s.history (settledItems s)
  rw [← List.take_append_drop k (repaired s.history (settledItems s)).items,
    List.filterMap_append] at hall
  have hnd := hall ▸ List.nodup_range (n := s.history.length)
  exact (List.nodup_append.mp hnd).2.2 _ hmem _ (List.mem_filterMap.mpr ⟨y, hy, hys⟩) rfl

theorem unsettled_eq_nil (h : s.history.length ≤ settledItems s) : unsettled s = [] := by
  have hpart : stablePart s.history (settledItems s) = repaired s.history (settledItems s) := by
    have heq : settledItems s = s.history.length := Nat.le_antisymm (settledItems_le s) h
    rw [stablePart, List.getElem?_eq_none h, repaired, heq, List.take_length]
    simp
  refine List.drop_eq_nil_of_le ?_
  show _ ≤ stableEnd (repaired s.history (settledItems s)).items
  rw [stableEnd_repaired _ _ (settledItems_le s), hpart]
  exact Nat.le_refl _

/-- a view whose live tail holds the items from a cut on is described if and only if the cut is at
the settled boundary -/
theorem transitionView_describes {s : SessionState} {cut : Nat} (maxBytes : Nat)
    (htiles : Tiles 0 native.input.length (native.manifest.segments.map (·.inputRange)))
    (hlive : liveInput native = ((projectedItems s).drop cut).map (·.value))
    (hle : stableEnd (projectedItems s) ≤ cut)
    (hlt : stableEnd (projectedItems s) < cut → cut < (projectedItems s).length) :
    Describes s (transitionView s maxBytes native) ↔ cut = stableEnd (projectedItems s) := by
  have hsettled : (projectedItems s).drop cut ≠ [] → settledItems s < s.history.length := by
    intro hne
    by_contra hge
    have hnil : unsettled s = [] := unsettled_eq_nil s (Nat.not_lt.mp hge)
    have hend := List.drop_eq_nil_iff.mp hnil
    exact hne (List.drop_eq_nil_iff.mpr (Nat.le_trans hend hle))
  constructor
  · intro hd
    by_contra hne
    have hcut := Nat.lt_of_le_of_ne hle (Ne.symm hne)
    have hdrop : (projectedItems s).drop cut ≠ [] :=
      fun h => Nat.not_le.mpr (hlt hcut) (List.drop_eq_nil_iff.mp h)
    have hset := hsettled hdrop
    obtain ⟨seg, hseg, hrole⟩ := transitionView_has_live s maxBytes native
      (fun h => hdrop (List.map_eq_nil_iff.mp (hlive.symm.trans h)))
    obtain ⟨hrange, -, hslice⟩ := transitionView_live htiles hseg hrole
    obtain ⟨tail, hsuffix, hvalues, hindices⟩ := hd.live seg hseg hrole
    obtain rfl : tail = (projectedItems s).drop cut := by
      have hlen := congrArg List.length (hvalues.symm.trans (hslice.trans hlive))
      rw [List.length_map, List.length_map] at hlen
      exact (List.suffix_of_suffix_length_le hsuffix (List.drop_suffix _ _)
        (Nat.le_of_eq hlen)).eq_of_length hlen
    have hin := (hindices (settledItems s)).mp (by
      rw [hrange]
      exact ⟨Nat.le_of_eq (settledItems_of_lt hset).symm, hset⟩)
    exact Nat.not_le.mpr (settledItems_lt_sourcesBefore s hset hcut)
      ((mem_sources_drop s cut _).mp hin).1
  · rintro rfl
    refine ⟨transitionView_tiles s maxBytes htiles, fun seg hseg hrole => ?_⟩
    obtain ⟨hrange, hne, hslice⟩ := transitionView_live htiles hseg hrole
    refine ⟨_, List.drop_suffix _ _, hslice.trans hlive, fun k => ?_⟩
    have hset := hsettled fun h => hne (by rw [hlive, h]; rfl)
    rw [mem_sources_drop, sourcesBefore_stableEnd, hrange, settledItems_of_lt hset]

/-- **The live tail of a view with transitions is named exactly when the unsettled items are of one
epoch.** -/
theorem transition_describes {s : SessionState} {maxBytes : Nat} {view : ContextView}
    (hfits : bytes (projectedItems s) ≤ isizeMax) (h : projectTransitions s maxBytes = .ok view) :
    Describes s view ↔ OneEpoch s := by
  obtain ⟨_, h⟩ := refuseIf_bind h
  obtain ⟨_, _, h⟩ := bind_ok h
  obtain ⟨native, hnative, h⟩ := bind_ok h
  have htiles := (native_describes hnative).tiles
  have hwhole : native = wholeView s := (projectNative_eq s usizeMax native hnative).2.2.1
  have hlive : liveInput native = ((projectedItems s).drop (epochStart s usizeMax)).map (·.value) := by
    rw [hwhole]
    exact liveInput_whole hfits
  obtain ⟨_, h⟩ := refuseIf_bind h
  obtain rfl := Except.ok.inj h
  rw [← epochStart_whole]
  refine transitionView_describes maxBytes htiles hlive
    (plan_spec (projectedItems s) usizeMax).stable_le fun hlt => ?_
  rw [epochStart, plan_epochStart] at hlt ⊢
  refine EpochInv.run_lt _ _ _ _ rfl (EpochInv.init _ _) ?_
  by_contra hge
  have := (lastEpoch_inv (projectedItems s) (stableEnd (projectedItems s)) (appendBudget usizeMax)
    (stableEnd_le _))
  have := Nat.le_trans this.le_unit this.le_index
  omega

/-- **What the manifests say.**  The segments of a native view describe its input.  Those of a view
with transitions do so if and only if the unsettled items are of one epoch. -/
theorem segments_describe (s : SessionState) (maxBytes : Nat) (view : ContextView) :
    (projectNative s maxBytes = .ok view → Describes s view) ∧
      (bytes (projectedItems s) ≤ isizeMax → projectTransitions s maxBytes = .ok view →
        (Describes s view ↔ OneEpoch s)) :=
  ⟨native_describes, transition_describes⟩

def summarisedAnd (rest : List Value) : SessionState :=
  { sessionAt (twoMessages ++ rest) 2 with
    contextTransitions := [bothSummarised]
    activeRequest := some ⟨3⟩ }

theorem covering_summarisedAnd (rest : List Value) : Covering (summarisedAnd rest) := by
  have hb : 2 ≤ (twoMessages ++ rest).length := by
    rw [List.length_append]
    exact Nat.le_add_right 2 _
  have hgrows : Grows summarisedSession (summarisedAnd rest) :=
    ⟨List.prefix_append _ _, Nat.le_refl _, hb, Or.inl rfl⟩
  exact ((Covering.start (s := sessionAt twoMessages 2) (Nat.le_refl _) rfl).step
    grows_summarised).step hgrows

theorem validateSource_summarisedAnd (rest : List Value) :
    checkAll (fun t => t.validateSource (summarisedAnd rest)) (summarisedAnd rest).contextTransitions =
      .ok () := by
  have hlen : 2 ≤ (twoMessages ++ rest).length := by
    rw [List.length_append]
    exact Nat.le_add_right 2 _
  have h : bothSummarised.validateSource (summarisedAnd rest) = .ok () := by
    refine refuseIf_of_not _ ?_
    rintro (h | h | h | h | h | h | h | h)
    · exact h rfl
    · exact h rfl
    · exact Nat.lt_irrefl 1 h
    · exact h ⟨Nat.succ_pos 1, Nat.le_refl 2, hlen⟩
    · exact Nat.not_lt.mpr hlen h
    · exact Nat.lt_irrefl 2 h
    · exact h rfl
    · exact h rfl
  show (bothSummarised.validateSource (summarisedAnd rest) >>= fun _ => Except.ok ()) = .ok ()
  rw [h]
  rfl

theorem projectTransitions_summarisedAnd (rest : List Value)
    (hfits : bytes (projectedItems (summarisedAnd rest)) ≤ isizeMax) :
    ∃ maxBytes view, projectTransitions (summarisedAnd rest) maxBytes = .ok view := by
  have hs : NoActivePending (summarisedAnd rest) := noActivePending_sessionAt (twoMessages ++ rest) 2
  obtain ⟨view, hview⟩ := projectTransitions_succeeds hfits (covering_summarisedAnd rest) hs
    (validateSource_summarisedAnd rest) (Nat.le_add_right 4096 _) (Nat.le_add_left _ 4096)
  exact ⟨_, view, hview⟩

end

/-- two long messages of an active request -/
def longMessages : List Value :=
  [messageItem "user" (longText 20000), messageItem "assistant" (longText 20000)]

theorem not_oneEpoch_two {s : SessionState} {x y : ProjectedItem} (h : unsettled s = [x, y])
    (hbytes : maxOutputTokens < bytes [x, y]) (hx : x.mark = .neutral) : ¬ OneEpoch s := by
  rintro (hfits | hopen)
  · rw [h] at hfits
    exact Nat.not_lt.mpr hfits hbytes
  · rw [h] at hopen
    refine hopen 1 Nat.one_pos (Nat.lt_succ_self 1) ?_
    show step ∅ x.mark = ∅
    rw [hx]
    rfl

section
variable [Sha256]

theorem projectedItems_twoMore (a b : String) :
    projectedItems (summarisedAnd [messageItem "user" a, messageItem "assistant" b]) =
      [⟨messageItem "assistant" "one", some 0, true⟩, ⟨messageItem "user" "two", some 1, true⟩,
        ⟨messageItem "user" a, some 2, false⟩, ⟨messageItem "assistant" b, some 3, false⟩] := rfl

theorem unsettled_twoMore (a b : String) :
    unsettled (summarisedAnd [messageItem "user" a, messageItem "assistant" b]) =
      [⟨messageItem "user" a, some 2, false⟩, ⟨messageItem "assistant" b, some 3, false⟩] := rfl

theorem fits_twoMore (a b : String) (h : escapedLength a + escapedLength b ≤ 50000) :
    bytes (projectedItems (summarisedAnd [messageItem "user" a, messageItem "assistant" b])) ≤
      isizeMax := by
  have h1 : (messageItem "assistant" "one").size ≤ 400 := by decide
  have h2 : (messageItem "user" "two").size ≤ 400 := by decide
  have h3 : escapedLength "user" = 4 := by decide
  have h4 : escapedLength "assistant" = 9 := by decide
  have h5 : 60000 ≤ isizeMax := by decide
  simp only [projectedItems_twoMore, bytes_cons, bytes_nil, size_messageItem "user" a,
    size_messageItem "assistant" b]
  omega

theorem not_oneEpoch_twoMore (a b : String)
    (h : maxOutputTokens ≤ escapedLength a + escapedLength b) :
    ¬ OneEpoch (summarisedAnd [messageItem "user" a, messageItem "assistant" b]) := by
  refine not_oneEpoch_two (unsettled_twoMore a b) ?_ (mark_messageItem _ _)
  simp only [bytes_cons, bytes_nil, size_messageItem]
  omega

end

theorem escapedLength_longMessages :
    escapedLength (longText 20000) + escapedLength (longText 20000) = 40000 := by
  rw [escapedLength_longText]

/-- the live tail holds the last of two long messages, and its range names both -/
theorem segments_misnamed : ∃ maxBytes view,
    @projectTransitions Sha256.standard (@summarisedAnd Sha256.standard longMessages) maxBytes =
      .ok view ∧ ¬ @Describes (@summarisedAnd Sha256.standard longMessages) view := by
  have hfits := @fits_twoMore Sha256.standard _ _
    (Nat.le_trans (Nat.le_of_eq escapedLength_longMessages) (by decide))
  have hepoch := @not_oneEpoch_twoMore Sha256.standard _ _
    (Nat.le_trans (by decide) (Nat.le_of_eq escapedLength_longMessages.symm))
  obtain ⟨maxBytes, view, hview⟩ :=
    @projectTransitions_summarisedAnd Sha256.standard longMessages hfits
  exact ⟨maxBytes, view, hview, fun h => hepoch
    ((@transition_describes Sha256.standard _ _ _ hfits hview).mp h)⟩

theorem segments_describe_short : ∃ maxBytes view,
    @projectTransitions Sha256.standard
      (@summarisedAnd Sha256.standard [messageItem "user" "three"]) maxBytes = .ok view ∧
    Describes (@summarisedAnd Sha256.standard [messageItem "user" "three"]) view := by
  have hfits : bytes (projectedItems
      (@summarisedAnd Sha256.standard [messageItem "user" "three"])) ≤ isizeMax := by
    show bytes [(⟨messageItem "assistant" "one", some 0, true⟩ : ProjectedItem),
      ⟨messageItem "user" "two", some 1, true⟩, ⟨messageItem "user" "three", some 2, false⟩] ≤ isizeMax
    decide
  obtain ⟨maxBytes, view, hview⟩ := @projectTransitions_summarisedAnd Sha256.standard
    [messageItem "user" "three"] hfits
  refine ⟨maxBytes, view, hview,
    ((@segments_describe Sha256.standard _ maxBytes view).2 hfits hview).mpr (Or.inl ?_)⟩
  show bytes [(⟨messageItem "user" "three", some 2, false⟩ : ProjectedItem)] ≤ maxOutputTokens
  decide

end Orvek
