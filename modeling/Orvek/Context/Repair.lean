import Orvek.Context.Cuts

/-!
# The repaired history

The loop over the history fails only when it meets a call of the active request that waits for
its output.  Everything else it does depends on the history and the settled boundary alone:

* `repaired`            the same loop without that test;
* `repairedItems_ok`, `repairedItems_of_inactive`   how the two are related;
* `after_marks_repaired`   every call of the repaired history is closed at its end;
* `sources_repaired`, `itemOk_repaired`   it holds the items of the history, in order.
-/

set_option linter.unusedSectionVars false

namespace Orvek
open Json Pairs

variable (ids : List String) (settled : Nat) (history : List Value)

/-! ## the loop without the failure -/

def Repair.close (r : Repair) (stable : Bool) : Repair :=
  { pending := ∅
    interrupted := r.interrupted ++ r.pending.toList
    items := r.items ++ placeholders r.pending.toList stable }

def Repair.beforeItem (settled index : Nat) (item : Value) (r : Repair) : Repair :=
  if isUser item && !r.pending.isEmpty then r.close (index ≤ settled) else r

def Repair.push (settled index : Nat) (item : Value) (r : Repair) : Repair :=
  { r with
    pending := step r.pending (mark item)
    items := r.items ++ [⟨item, some index, index < settled⟩] }

def Repair.loop (settled : Nat) : Nat → List Value → Repair → Repair
  | _, [], r => r
  | index, item :: rest, r =>
    Repair.loop settled (index + 1) rest ((r.beforeItem settled index item).push settled index item)

def repaired (history : List Value) (settled : Nat) : Repair :=
  (Repair.loop settled 0 history Repair.empty).close (settled = history.length)

theorem repairPending_ok (s : SessionState) (r r' : Repair) (stable : Bool)
    (h : repairPending s r stable = .ok r') : r' = r.close stable := by
  unfold repairPending at h
  split at h
  · cases h
  · exact (Except.ok.inj h).symm

theorem projectItem_ok (s : SessionState) (settled index : Nat) (item : Value) (r r' : Repair)
    (h : projectItem s settled index item r = .ok r') :
    r' = (r.beforeItem settled index item).push settled index item := by
  unfold projectItem at h
  unfold Repair.beforeItem
  split at h
  · rename_i hc
    rw [if_pos hc]
    cases hp : repairPending s r (index ≤ settled) with
    | error e => rw [hp] at h; cases h
    | ok q =>
      rw [hp] at h
      rw [← repairPending_ok s r q _ hp]
      exact (Except.ok.inj h).symm
  · rename_i hc
    rw [if_neg hc]
    exact (Except.ok.inj h).symm

theorem projectLoop_ok (s : SessionState) (settled : Nat) (l : List Value) (index : Nat)
    (r r' : Repair) (h : projectLoop s settled index l r = .ok r') :
    r' = Repair.loop settled index l r := by
  induction l generalizing index r with
  | nil => exact (Except.ok.inj h).symm
  | cons item l ih =>
    unfold projectLoop at h
    cases hp : projectItem s settled index item r with
    | error e => rw [hp] at h; cases h
    | ok q =>
      rw [hp] at h
      rw [ih (index + 1) q h, projectItem_ok s settled index item r q hp]
      rfl

/-- **When the loop succeeds its result is `repaired`.** -/
theorem repairedItems_ok (s : SessionState) (r : Repair) (h : repairedItems s = .ok r) :
    r = repaired s.history (settledItems s) := by
  unfold repairedItems at h
  cases hp : projectLoop s (settledItems s) 0 s.history Repair.empty with
  | error e => rw [hp] at h; cases h
  | ok q =>
    rw [hp] at h
    rw [repairPending_ok s q r _ h, projectLoop_ok s _ _ _ _ q hp]
    rfl

/-- no call of the active request waits for its output -/
def NoActivePending (s : SessionState) : Prop := ∀ id, activePending s id = false

section
variable (s : SessionState) (hs : NoActivePending s)
include hs

theorem repairPending_of_inactive (r : Repair) (stable : Bool) :
    repairPending s r stable = .ok (r.close stable) := by
  unfold repairPending
  rw [if_neg]
  · rfl
  · simpa using fun id _ => hs id

theorem projectItem_of_inactive (settled index : Nat) (item : Value) (r : Repair) :
    projectItem s settled index item r =
      .ok ((r.beforeItem settled index item).push settled index item) := by
  unfold projectItem Repair.beforeItem
  split
  · rw [repairPending_of_inactive s hs]; rfl
  · rfl

theorem projectLoop_of_inactive (settled : Nat) (l : List Value) (index : Nat) (r : Repair) :
    projectLoop s settled index l r = .ok (Repair.loop settled index l r) := by
  induction l generalizing index r with
  | nil => rfl
  | cons item l ih =>
    unfold projectLoop
    rw [projectItem_of_inactive s hs]
    exact ih (index + 1) _

/-- **Without a pending call of the active request the loop succeeds.** -/
theorem repairedItems_of_inactive :
    repairedItems s = .ok (repaired s.history (settledItems s)) := by
  unfold repairedItems
  rw [projectLoop_of_inactive s hs]
  exact repairPending_of_inactive s hs _ _

end

/-! ## what a successful projection is -/

section
variable [Sha256]

theorem projectNative_eq (s : SessionState) (maxBytes : Nat) (view : ContextView)
    (h : projectNative s maxBytes = .ok view) :
    4096 ≤ maxBytes ∧ repairedItems s = .ok (repaired s.history (settledItems s)) ∧
      view = nativeView s (repaired s.history (settledItems s)) maxBytes ∧
      (toVec (.array view.input)).length ≤ maxBytes := by
  unfold projectNative at h
  split at h
  · cases h
  · cases hr : repairedItems s with
    | error e => rw [hr] at h; cases h
    | ok r =>
      rw [hr] at h
      have hv : (if maxBytes < (toVec (.array (nativeView s r maxBytes).input)).length
          then throw ContextError.limit else pure (nativeView s r maxBytes)) = Except.ok view := h
      split at hv
      · cases hv
      · obtain rfl := repairedItems_ok s r hr
        obtain rfl := Except.ok.inj hv
        exact ⟨by omega, rfl, rfl, by omega⟩

theorem settledItems_le (s : SessionState) : settledItems s ≤ s.history.length := Nat.min_le_right _ _

end

/-! ## placeholders close what is open -/

theorem mark_outputItem (id output : String) : mark (outputItem id output) = .closes id := by
  simp [mark, outputItem, Value.index, Value.get, lookup, Value.asStr]

theorem marks_placeholders (stable : Bool) : marks (placeholders ids stable) = ids.map Mark.closes := by
  rw [marks, placeholders, List.map_map]
  exact List.map_congr_left fun id _ => mark_outputItem id lostOutput

theorem after_closes (p : BTreeSet String) (x : String) :
    x ∈ after p (ids.map Mark.closes) ↔ x ∈ p ∧ x ∉ ids := by
  induction ids generalizing p with
  | nil => simp [after_nil]
  | cons id ids ih =>
    rw [List.map_cons, after_cons, ih, mem_step_closes, List.mem_cons]
    tauto

theorem after_closes_all (p : BTreeSet String) :
    after p (p.toList.map Mark.closes) = ∅ := by
  apply Std.ExtTreeSet.ext_mem
  intro x
  rw [after_closes]
  simp

theorem legal_closes (p : BTreeSet String) (hn : ids.Nodup) (h : ∀ id ∈ ids, id ∈ p) :
    Legal p (ids.map Mark.closes) := by
  induction ids generalizing p with
  | nil => trivial
  | cons id ids ih =>
    obtain ⟨hid, hn'⟩ := List.nodup_cons.mp hn
    refine (legal_cons _ _ _).mpr ⟨h id List.mem_cons_self, ih _ hn' ?_⟩
    intro x hx
    rw [mem_step_closes]
    exact ⟨fun e => hid (e ▸ hx), h x (List.mem_cons_of_mem _ hx)⟩

/-! ## one step and the whole loop -/

/-- the pending calls are the open ones of the items so far -/
def Repair.Tracks (r : Repair) : Prop := after ∅ (marks r.items) = r.pending

theorem Repair.Tracks.close {r : Repair} (h : r.Tracks) (stable : Bool) : (r.close stable).Tracks := by
  show after ∅ (marks (r.items ++ placeholders r.pending.toList stable)) = ∅
  rw [marks_append, after_append, h, marks_placeholders, after_closes_all]

theorem Repair.Tracks.beforeItem {r : Repair} (h : r.Tracks) (settled index : Nat) (item : Value) :
    (r.beforeItem settled index item).Tracks := by
  unfold Repair.beforeItem
  split
  · exact h.close _
  · exact h

theorem Repair.Tracks.push {r : Repair} (h : r.Tracks) (settled index : Nat) (item : Value) :
    (r.push settled index item).Tracks := by
  show after ∅ (marks (r.items ++ [_])) = step r.pending (Orvek.mark item)
  rw [marks_append, after_append, h]
  rfl

theorem Repair.Tracks.loop {settled : Nat} (l : List Value) (index : Nat) (r : Repair)
    (h : r.Tracks) : (Repair.loop settled index l r).Tracks := by
  induction l generalizing index r with
  | nil => exact h
  | cons item l ih => exact ih (index + 1) _ ((h.beforeItem _ _ _).push _ _ _)

theorem Repair.tracks_empty : Repair.empty.Tracks := rfl

/-- **Every call of the repaired history is closed at its end.** -/
theorem after_marks_repaired (settled : Nat) : after ∅ (marks (repaired history settled).items) = ∅ :=
  (Repair.Tracks.loop history 0 _ Repair.tracks_empty).close _

attribute [grind =] Repair.loop

theorem Repair.loop_append (a b : List Value) (index : Nat) (r : Repair) :
    Repair.loop settled index (a ++ b) r =
      Repair.loop settled (index + a.length) b (Repair.loop settled index a r) := by
  induction a generalizing index r with
  | nil => rfl
  | cons item a ih =>
    rw [List.cons_append, Repair.loop, ih, Repair.loop, List.length_cons]
    congr 1
    omega

/-! ## the items of the history are there, in order -/

theorem Repair.beforeItem_items (settled index : Nat) (item : Value) (r : Repair) :
    ∃ ids, (r.beforeItem settled index item).items = r.items ++ placeholders ids (index ≤ settled) := by
  unfold Repair.beforeItem
  split
  · exact ⟨r.pending.toList, rfl⟩
  · exact ⟨[], (List.append_nil _).symm⟩

theorem filterMap_placeholders (stable : Bool) : (placeholders ids stable).filterMap (·.source) = [] := by
  induction ids with
  | nil => rfl
  | cons id ids ih => exact ih

theorem Repair.sources_step (settled index : Nat) (item : Value) (r : Repair) :
    ((r.beforeItem settled index item).push settled index item).items.filterMap (·.source) =
      r.items.filterMap (·.source) ++ [index] := by
  obtain ⟨ids, hids⟩ := r.beforeItem_items settled index item
  show ((r.beforeItem settled index item).items ++ [_]).filterMap _ = _
  rw [hids, List.filterMap_append, List.filterMap_append, filterMap_placeholders, List.append_nil]
  rfl

theorem Repair.sources_loop (l : List Value) (index : Nat) (r : Repair) :
    (Repair.loop settled index l r).items.filterMap (·.source) =
      r.items.filterMap (·.source) ++ List.range' index l.length := by
  induction l generalizing index r with
  | nil => exact (List.append_nil _).symm
  | cons item l ih =>
    rw [Repair.loop, ih, Repair.sources_step, List.append_assoc]
    rfl

/-- **The repaired history has every index of the history once, in order.** -/
theorem sources_repaired (settled : Nat) :
    (repaired history settled).items.filterMap (·.source) = List.range history.length := by
  show ((Repair.loop settled 0 history Repair.empty).items ++ placeholders _ _).filterMap _ = _
  rw [List.filterMap_append, filterMap_placeholders, List.append_nil, Repair.sources_loop,
    List.range_eq_range']
  rfl

def ItemOk (history : List Value) (x : ProjectedItem) : Prop :=
  match x.source with
  | some k => history[k]? = some x.value
  | none => ∃ id, x.value = placeholder id

theorem itemOk_placeholders (ids : List String) (stable : Bool) (x : ProjectedItem)
    (h : x ∈ placeholders ids stable) : ItemOk history x := by
  obtain ⟨id, _, rfl⟩ := List.mem_map.mp h
  exact ⟨id, rfl⟩

theorem itemOk_loop (settled : Nat) (l : List Value) (index : Nat) (r : Repair)
    (hl : history.drop index = l) (hr : ∀ x ∈ r.items, ItemOk history x) :
    ∀ x ∈ (Repair.loop settled index l r).items, ItemOk history x := by
  induction l generalizing index r with
  | nil => exact hr
  | cons item l ih =>
    obtain ⟨hget, hrest⟩ := drop_eq_cons hl
    refine ih (index + 1) _ hrest ?_
    obtain ⟨ids, hids⟩ := r.beforeItem_items settled index item
    intro x hx
    rcases List.mem_append.mp hx with hx | hx
    · rw [hids] at hx
      rcases List.mem_append.mp hx with hx | hx
      · exact hr x hx
      · exact itemOk_placeholders history _ _ x hx
    · rw [List.mem_singleton.mp hx]
      exact hget

theorem itemOk_repaired (settled : Nat) : ∀ x ∈ (repaired history settled).items, ItemOk history x := by
  intro x hx
  rcases List.mem_append.mp hx with hx | hx
  · exact itemOk_loop history settled history 0 Repair.empty rfl (fun _ h => nomatch h) x hx
  · exact itemOk_placeholders history _ _ x hx

/-! ## the stable part -/

theorem stable_placeholders (stable : Bool) (x : ProjectedItem) (h : x ∈ placeholders ids stable) :
    x.stable = stable := by
  obtain ⟨id, _, rfl⟩ := List.mem_map.mp h
  rfl

theorem stable_beforeItem (settled index : Nat) (item : Value) (r : Repair) (hi : index ≤ settled)
    (hr : ∀ x ∈ r.items, x.stable = true) :
    ∀ x ∈ (r.beforeItem settled index item).items, x.stable = true := by
  obtain ⟨ids, hids⟩ := r.beforeItem_items settled index item
  intro x hx
  rw [hids] at hx
  rcases List.mem_append.mp hx with hx | hx
  · exact hr x hx
  · rw [stable_placeholders _ _ x hx]
    simpa using hi

theorem stable_loop (l : List Value) (index : Nat) (r : Repair) (hi : index + l.length ≤ settled)
    (hr : ∀ x ∈ r.items, x.stable = true) :
    ∀ x ∈ (Repair.loop settled index l r).items, x.stable = true := by
  induction l generalizing index r with
  | nil => exact hr
  | cons item l ih =>
    rw [List.length_cons] at hi
    refine ih (index + 1) _ (by omega) ?_
    intro x hx
    rcases List.mem_append.mp hx with hx | hx
    · exact stable_beforeItem settled index item r (by omega) hr x hx
    · rw [List.mem_singleton.mp hx]
      have : index < settled := by omega
      simpa using this

theorem live_loop (l : List Value) (index : Nat) (r : Repair) (hi : settled < index) :
    ∃ live, (Repair.loop settled index l r).items = r.items ++ live ∧
      ∀ x ∈ live, x.stable = false := by
  induction l generalizing index r with
  | nil => exact ⟨[], (List.append_nil _).symm, fun _ h => nomatch h⟩
  | cons item l ih =>
    obtain ⟨live, hlive, hall⟩ := ih (index + 1)
      ((r.beforeItem settled index item).push settled index item) (by omega)
    obtain ⟨ids, hids⟩ := r.beforeItem_items settled index item
    refine ⟨placeholders ids (index ≤ settled) ++
      ⟨item, some index, index < settled⟩ :: live, ?_, ?_⟩
    · rw [Repair.loop, hlive]
      show (r.beforeItem settled index item).items ++ [_] ++ live = _
      rw [hids]
      simp
    · intro x hx
      rcases List.mem_append.mp hx with hx | hx
      · rw [stable_placeholders _ _ x hx]
        simpa using hi
      · rcases List.mem_cons.mp hx with rfl | hx
        · have : ¬ index < settled := by omega
          simpa using this
        · exact hall x hx

/-- the loop up to the settled boundary, with the repair that happens at the boundary itself -/
def stablePart (history : List Value) (settled : Nat) : Repair :=
  let r := Repair.loop settled 0 (history.take settled) Repair.empty
  match history[settled]? with
  | some item => r.beforeItem settled settled item
  | none => r.close true

/-- **The stable items of a repaired history are a prefix of it.** -/
theorem repaired_split (settled : Nat) (h : settled ≤ history.length) :
    ∃ live, (repaired history settled).items = (stablePart history settled).items ++ live ∧
      (∀ x ∈ (stablePart history settled).items, x.stable = true) ∧
      (∀ x ∈ live, x.stable = false) := by
  have hlen : (history.take settled).length = settled := by
    rw [List.length_take, Nat.min_eq_left h]
  have hst : ∀ x ∈ (Repair.loop settled 0 (history.take settled) Repair.empty).items,
      x.stable = true :=
    stable_loop settled _ 0 _ (by omega) (fun _ h => nomatch h)
  unfold stablePart
  cases hget : history[settled]? with
  | none =>
    have hge : history.length ≤ settled := List.getElem?_eq_none_iff.mp hget
    obtain rfl : settled = history.length := by omega
    refine ⟨[], ?_, ?_, fun _ h => nomatch h⟩
    · rw [repaired, List.take_length, List.append_nil]
      simp
    · intro x hx
      rcases List.mem_append.mp hx with hx | hx
      · exact hst x hx
      · exact stable_placeholders _ _ x hx
  | some item =>
    have hlt : settled < history.length := (List.getElem?_eq_some_iff.mp hget).1
    have hsplit : history = history.take settled ++ item :: history.drop (settled + 1) := by
      rw [← (List.getElem?_eq_some_iff.mp hget).2, List.getElem_cons_drop, List.take_append_drop]
    have hloop : Repair.loop settled 0 history Repair.empty =
        Repair.loop settled (settled + 1) (history.drop (settled + 1))
          (((Repair.loop settled 0 (history.take settled) Repair.empty).beforeItem settled settled
            item).push settled settled item) := by
      conv_lhs => rw [hsplit]
      rw [Repair.loop_append, hlen, Nat.zero_add, Repair.loop]
    obtain ⟨live, hlive, hall⟩ := live_loop settled (history.drop (settled + 1)) (settled + 1)
      (((Repair.loop settled 0 (history.take settled) Repair.empty).beforeItem settled settled
        item).push settled settled item) (by omega)
    refine ⟨⟨item, some settled, settled < settled⟩ :: live ++
      placeholders (Repair.loop settled 0 history Repair.empty).pending.toList
        (settled = history.length), ?_, ?_, ?_⟩
    · show (Repair.loop settled 0 history Repair.empty).items ++ _ = _
      rw [hloop, hlive]
      show (_ ++ [_]) ++ live ++ _ = _
      simp
    · exact stable_beforeItem settled settled item _ (Nat.le_refl _) hst
    · intro x hx
      rcases List.mem_append.mp hx with hx | hx
      · rcases List.mem_cons.mp hx with rfl | hx
        · simp
        · exact hall x hx
      · rw [stable_placeholders _ _ x hx]
        have : settled ≠ history.length := by omega
        simpa using this

theorem stableEnd_repaired (settled : Nat) (h : settled ≤ history.length) :
    stableEnd (repaired history settled).items = (stablePart history settled).items.length := by
  obtain ⟨live, hsplit, hst, hlive⟩ := repaired_split history settled h
  rw [stableEnd, hsplit, List.takeWhile_append_of_pos hst]
  have hnil : live.takeWhile (·.stable) = [] := by
    cases live with
    | nil => rfl
    | cons x live => rw [List.takeWhile_cons_of_neg]; simp [hlive x List.mem_cons_self]
  rw [hnil, List.append_nil]

theorem openAt_stableEnd (settled : Nat) (h : settled ≤ history.length) :
    openAt (marks (repaired history settled).items)
      (stableEnd (repaired history settled).items) = (stablePart history settled).pending := by
  obtain ⟨live, hsplit, _, _⟩ := repaired_split history settled h
  have htracks : (stablePart history settled).Tracks := by
    have hloop : (Repair.loop settled 0 (history.take settled) Repair.empty).Tracks :=
      Repair.Tracks.loop _ 0 _ Repair.tracks_empty
    unfold stablePart
    split
    · exact hloop.beforeItem _ _ _
    · exact hloop.close _
  have hlen : (marks (stablePart history settled).items).length =
      (stablePart history settled).items.length := List.length_map _
  rw [stableEnd_repaired history settled h, hsplit, marks_append,
    openAt_append _ _ _ (Nat.le_of_eq hlen.symm), openAt,
    List.take_of_length_le (Nat.le_of_eq hlen), htracks]

end Orvek
