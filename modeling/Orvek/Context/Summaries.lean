import Orvek.Context.Coverage

/-!
# The view of a session with transitions

The view is a list of entries: items of the history, placeholders of lost results, and the
summaries of accepted transitions.

* `derive_whole`          the loop over the native segments writes the entries of the items before the epoch;
* `Rendering`             what the entries contain and in which order;
* `rendering_entries`     the entries of a repaired history are a rendering of it;
* `projectTransitions_lossless`   the result: nothing is lost but what is summarised.
-/

set_option linter.unusedSectionVars false

namespace Orvek
open Json Pairs Checks

variable {s : SessionState} {x : ProjectedItem} {k : Nat} {t : ContextTransition}

/-! ## entries -/

inductive Entry where
  | item (index : Nat)
  | placeholder (value : Value)
  | summary (t : ContextTransition)
  deriving DecidableEq

def Entry.value (history : List Value) : Entry → Value
  | .item k => history.getD k .null
  | .placeholder v => v
  | .summary t => t.item

def Entry.index : Entry → Option Nat
  | .item k => some k
  | _ => none

def kept (s : SessionState) (k : Nat) : Bool :=
  (s.contextTransitions.all fun t => !covers t k) || isUser (s.history.getD k .null)

def summaryAt (s : SessionState) (k : Nat) : List Entry :=
  match coveredBy s k with
  | some t => if k = t.proposal.range.start then [.summary t] else []
  | none => []

def itemEntries (s : SessionState) (x : ProjectedItem) : List Entry :=
  match x.source with
  | some k => summaryAt s k ++ if kept s k then [.item k] else []
  | none => [.placeholder x.value]

def entries (s : SessionState) (items : List ProjectedItem) : List Entry := items.flatMap (itemEntries s)

theorem entries_append (s : SessionState) (a b : List ProjectedItem) :
    entries s (a ++ b) = entries s a ++ entries s b := List.flatMap_append

theorem entries_cons (s : SessionState) (x : ProjectedItem) (l : List ProjectedItem) :
    entries s (x :: l) = itemEntries s x ++ entries s l := List.flatMap_cons

attribute [grind =] itemEntries

theorem itemEntries_placeholder (h : x.source = none) : itemEntries s x = [.placeholder x.value] := by
  rw [itemEntries, h]

theorem kept_uncovered (h : coveredBy s k = none) : kept s k = true := by
  rw [coveredBy, List.find?_eq_none] at h
  rw [kept, Bool.or_eq_true, List.all_eq_true]
  exact Or.inl fun t ht => by simpa using h t ht

theorem kept_covered (h : coveredBy s k = some t) : kept s k = isUser (s.history.getD k .null) := by
  have hfalse : (s.contextTransitions.all fun t => !covers t k) = false := by
    rw [List.all_eq_false]
    exact ⟨t, List.mem_of_find?_eq_some h, by simpa using List.find?_some h⟩
  rw [kept, hfalse, Bool.false_or]

theorem itemEntries_uncovered (h : x.source = some k) (hk : coveredBy s k = none) :
    itemEntries s x = [.item k] := by
  simp [itemEntries, h, summaryAt, kept_uncovered hk, hk]

theorem itemEntries_covered (h : x.source = some k) (hk : coveredBy s k = some t) :
    itemEntries s x = (if k = t.proposal.range.start then [.summary t] else []) ++
      if isUser (s.history.getD k .null) then [.item k] else [] := by
  simp [itemEntries, h, summaryAt, kept_covered hk, hk]

theorem value_of_source (h : ItemOk s.history x) (hk : x.source = some k) :
    s.history.getD k .null = x.value := by
  unfold ItemOk at h
  rw [hk] at h
  rw [List.getD_eq_getElem?_getD, h]
  rfl

/-! ## the loop over the native segments -/

section
variable [Sha256]

def stableSegment (s : SessionState) (epochHistoryEnd : Nat) (native : ContextView)
    (representation : ContextRepresentation) (index : Nat) (x : ProjectedItem) : ContextSegment :=
  segment .stableHistory s.cursor (itemRange epochHistoryEnd x) ⟨index, index + 1⟩ s.history
    representation (slice native.input index (index + 1))

/-- an item is represented faithfully: it stands in the input, and its range names its source -/
structure Stands (s : SessionState) (native : ContextView) (epochHistoryEnd index : Nat)
    (x : ProjectedItem) : Prop where
  input : slice native.input index (index + 1) = [x.value]
  source : ItemOk s.history x
  placeholder : x.source = none → coveredBy s epochHistoryEnd = none

theorem deriveSegment_input (s : SessionState) (representation : ContextRepresentation)
    (native : ContextView) (d : Derived) (e index : Nat) (rep : ContextRepresentation)
    (x : ProjectedItem) (h : Stands s native e index x) :
    (deriveSegment s representation native d (stableSegment s e native rep index x)).input =
      d.input ++ (itemEntries s x).map (Entry.value s.history) := by
  have hrole : ¬ (stableSegment s e native rep index x).role ≠ .stableHistory := fun h => h rfl
  have hslice : slice native.input (stableSegment s e native rep index x).inputRange.start
      (stableSegment s e native rep index x).inputRange.stop = [x.value] := h.input
  unfold deriveSegment
  rw [if_neg hrole]
  cases hsrc : x.source with
  | none =>
    have hstart : (stableSegment s e native rep index x).range.start = e := by
      show (itemRange e x).start = e
      rw [itemRange, hsrc]
    rw [hstart, h.placeholder hsrc, itemEntries_placeholder hsrc]
    exact congrArg (d.input ++ ·) hslice
  | some k =>
    have hstart : (stableSegment s e native rep index x).range.start = k := by
      show (itemRange e x).start = k
      rw [itemRange, hsrc]
    have hvalue := value_of_source h.source hsrc
    rw [← hvalue] at hslice
    rw [hstart]
    cases hcov : coveredBy s k with
    | none =>
      rw [itemEntries_uncovered hsrc hcov]
      exact congrArg (d.input ++ ·) hslice
    | some t =>
      rw [itemEntries_covered hsrc hcov, List.map_append, ← List.append_assoc]
      have hsum : (d.summary s representation k t).input =
          d.input ++ (if k = t.proposal.range.start then [Entry.summary t] else []).map
            (Entry.value s.history) := by
        unfold Derived.summary
        split
        · rfl
        · exact (List.append_nil _).symm
      rw [← hsum]
      dsimp only
      split
      · exact congrArg ((d.summary s representation k t).input ++ ·) hslice
      · exact (List.append_nil _).symm

theorem derive_stable (s : SessionState) (representation rep : ContextRepresentation)
    (native : ContextView) (e : Nat) (l : List ProjectedItem) (index : Nat) (d : Derived)
    (h : ∀ i x, l[i]? = some x → Stands s native e (index + i) x) :
    ((l.mapIdx fun i x => stableSegment s e native rep (index + i) x).foldl
      (deriveSegment s representation native) d).input =
      d.input ++ (entries s l).map (Entry.value s.history) := by
  induction l generalizing index d with
  | nil => exact (List.append_nil _).symm
  | cons x l ih =>
    have hshift : ((x :: l).mapIdx fun i x => stableSegment s e native rep (index + i) x) =
        stableSegment s e native rep index x ::
          l.mapIdx fun i x => stableSegment s e native rep (index + 1 + i) x := by
      rw [List.mapIdx_cons]
      simp only [Nat.add_zero, Nat.add_assoc, Nat.add_comm 1]
    rw [hshift, List.foldl_cons, ih (index + 1) _ ?_, deriveSegment_input]
    · rw [entries_cons, List.map_append, List.append_assoc]
    · exact h 0 x rfl
    · intro i y hy
      have := h (i + 1) y hy
      rwa [Nat.add_comm i 1, ← Nat.add_assoc] at this

theorem deriveSegment_other (s : SessionState) (representation : ContextRepresentation)
    (native : ContextView) (d : Derived) (seg : ContextSegment) (h : seg.role ≠ .stableHistory) :
    deriveSegment s representation native d seg = d := if_pos h

theorem derive_other (s : SessionState) (representation : ContextRepresentation)
    (native : ContextView) (segs : List ContextSegment) (d : Derived)
    (h : ∀ seg ∈ segs, seg.role ≠ .stableHistory) :
    segs.foldl (deriveSegment s representation native) d = d := by
  induction segs with
  | nil => rfl
  | cons seg segs ih =>
    rw [List.foldl_cons, deriveSegment_other _ _ _ _ _ (h seg List.mem_cons_self)]
    exact ih fun x hx => h x (List.mem_cons_of_mem _ hx)

end

theorem entries_uncovered (l : List ProjectedItem) (hok : ∀ x ∈ l, ItemOk s.history x)
    (hunc : ∀ x ∈ l, ∀ k, x.source = some k → coveredBy s k = none) :
    (entries s l).map (Entry.value s.history) = l.map (·.value) := by
  induction l with
  | nil => rfl
  | cons x l ih =>
    have hx : (itemEntries s x).map (Entry.value s.history) = [x.value] := by
      cases hsrc : x.source with
      | none => rw [itemEntries_placeholder hsrc]; rfl
      | some k =>
        rw [itemEntries_uncovered hsrc (hunc x List.mem_cons_self k hsrc)]
        exact congrArg (fun v => [v]) (value_of_source (hok x List.mem_cons_self) hsrc)
    rw [entries_cons, List.map_append, hx, ih (fun y hy => hok y (List.mem_cons_of_mem _ hy))
      (fun y hy => hunc y (List.mem_cons_of_mem _ hy))]
    rfl

/-! ## sources around a cut -/

theorem sources_take (history : List Value) (settled k : Nat) :
    ((repaired history settled).items.take k).filterMap (·.source) =
      List.range (((repaired history settled).items.take k).filterMap (·.source)).length := by
  have hall := sources_repaired history settled
  rw [← List.take_append_drop k (repaired history settled).items, List.filterMap_append] at hall
  have hpre : ((repaired history settled).items.take k).filterMap (·.source) <+:
      List.range history.length := ⟨_, hall⟩
  have hle := hpre.length_le
  rw [List.length_range] at hle
  conv_lhs => rw [List.prefix_iff_eq_take.mp hpre]
  rw [List.take_range, Nat.min_eq_left hle]

theorem sourceEnd_of_range (items : List ProjectedItem) (m : Nat)
    (h : items.filterMap (·.source) = List.range m) : sourceEnd items 0 = m := by
  unfold sourceEnd
  rw [h]
  cases m with
  | zero => rfl
  | succ m =>
    have hmax : (List.range (m + 1)).max? = some m := by
      rw [List.max?_eq_some_iff]
      exact ⟨List.mem_range.mpr (Nat.lt_succ_self m), fun b hb => Nat.lt_succ_iff.mp (List.mem_range.mp hb)⟩
    rw [hmax]

/-- the items before a cut that leaves the stable part whole hold the settled indices, and those
after it none of them -/
theorem sources_cut (history : List Value) (settled k : Nat) (hs : settled ≤ history.length)
    (hk : stableEnd (repaired history settled).items ≤ k) :
    settled ≤ sourceEnd ((repaired history settled).items.take k) 0 ∧
      ∀ x ∈ (repaired history settled).items.drop k, ∀ i, x.source = some i → settled ≤ i := by
  generalize hm : (((repaired history settled).items.take k).filterMap (·.source)).length = m
  have htake := sources_take history settled k
  rw [hm] at htake
  have hsm : settled ≤ m := by
    obtain ⟨live, hsplit, _, _⟩ := repaired_split history settled hs
    rw [stableEnd_repaired history settled hs] at hk
    have hsub : (stablePart history settled).items <+: (repaired history settled).items.take k := by
      rw [hsplit, List.take_append, List.take_of_length_le hk]
      exact List.prefix_append _ _
    have hlen := (hsub.sublist.filterMap (·.source)).length_le
    rw [sources_stablePart history settled hs, List.length_range, hm] at hlen
    exact hlen
  refine ⟨by rw [sourceEnd_of_range _ m htake]; exact hsm, ?_⟩
  intro x hx i hi
  have hall := sources_repaired history settled
  rw [← List.take_append_drop k (repaired history settled).items, List.filterMap_append, htake] at hall
  have hin : i ∈ ((repaired history settled).items.drop k).filterMap (·.source) :=
    List.mem_filterMap.mpr ⟨x, hx, hi⟩
  have hnd : (List.range m ++ ((repaired history settled).items.drop k).filterMap (·.source)).Nodup := by
    rw [hall]; exact List.nodup_range
  by_contra hlt
  exact (List.nodup_append.mp hnd).2.2 i (List.mem_range.mpr (by omega)) i hin rfl

theorem settledItems_covering (hc : Covering s) :
    settledItems s = s.settledHistoryItems := Nat.min_eq_left hc.bounded

theorem coveredBy_unsettled (hc : Covering s) (k : Nat) (hk : s.settledHistoryItems ≤ k) :
    coveredBy s k = none := by
  rw [coveredBy, List.find?_eq_none]
  intro t ht
  have hstop := (hc.settled t ht).2.1
  simp only [covers, Bool.and_eq_true, decide_eq_true_eq, not_and]
  omega

/-! ## what the entries are -/

/-- **A rendering of a session**: it has every index that is kept, in order and once; one summary
for each accepted transition, after what precedes the range and before the rest; no other
summaries; and the whole live tail. -/
structure Rendering (s : SessionState) (l : List Entry) : Prop where
  items : l.filterMap Entry.index = (List.range s.history.length).filter (kept s)
  summary : ∀ t ∈ s.contextTransitions, ∃ pre post, l = pre ++ .summary t :: post ∧
    .summary t ∉ pre ∧ .summary t ∉ post ∧
    (∀ k, .item k ∈ pre → k < t.proposal.range.start) ∧
    (∀ k, .item k ∈ post → t.proposal.range.start ≤ k)
  only : ∀ t, .summary t ∈ l → t ∈ s.contextTransitions
  tail : ∀ k, s.settledHistoryItems ≤ k → k < s.history.length → .item k ∈ l

theorem index_itemEntries (s : SessionState) (x : ProjectedItem) :
    (itemEntries s x).filterMap Entry.index = (x.source.toList).filter (kept s) := by
  cases hsrc : x.source with
  | none => rw [itemEntries_placeholder hsrc]; rfl
  | some k =>
    cases hcov : coveredBy s k with
    | none =>
      rw [itemEntries_uncovered hsrc hcov, Option.toList_some, List.filter_cons_of_pos (kept_uncovered hcov)]
      rfl
    | some t =>
      rw [itemEntries_covered hsrc hcov, List.filterMap_append, ← kept_covered hcov]
      have hsum : (if k = t.proposal.range.start then [Entry.summary t] else []).filterMap Entry.index =
          [] := by split <;> rfl
      rw [hsum, List.nil_append, Option.toList_some]
      by_cases hk : kept s k = true
      · rw [if_pos hk, List.filter_cons_of_pos hk]; rfl
      · rw [if_neg hk, List.filter_cons_of_neg hk]; rfl

theorem index_entries (s : SessionState) (l : List ProjectedItem) :
    (entries s l).filterMap Entry.index = (l.filterMap (·.source)).filter (kept s) := by
  induction l with
  | nil => rfl
  | cons x l ih =>
    rw [entries_cons, List.filterMap_append, index_itemEntries, ih]
    cases hsrc : x.source with
    | none => rw [List.filterMap_cons_none hsrc]; rfl
    | some k => rw [List.filterMap_cons_some hsrc, ← List.filter_append]; rfl

theorem mem_index {l : List Entry} : k ∈ l.filterMap Entry.index ↔ .item k ∈ l := by
  constructor
  · intro h
    obtain ⟨e, he, hk⟩ := List.mem_filterMap.mp h
    cases e with
    | item j => rw [← Option.some.inj hk]; exact he
    | placeholder v => cases hk
    | summary t => cases hk
  · exact fun h => List.mem_filterMap.mpr ⟨_, h, rfl⟩

theorem source_of_item {l : List ProjectedItem} (h : .item k ∈ entries s l) :
    k ∈ l.filterMap (·.source) := by
  rw [← mem_index, index_entries] at h
  exact (List.mem_filter.mp h).1

theorem source_of_summary {l : List ProjectedItem} (h : .summary t ∈ entries s l) :
    t.proposal.range.start ∈ l.filterMap (·.source) ∧ t ∈ s.contextTransitions := by
  obtain ⟨x, hx, hin⟩ := List.mem_flatMap.mp h
  cases hsrc : x.source with
  | none => rw [itemEntries_placeholder hsrc] at hin; simp at hin
  | some k =>
    cases hcov : coveredBy s k with
    | none => rw [itemEntries_uncovered hsrc hcov] at hin; simp at hin
    | some t' =>
      rw [itemEntries_covered hsrc hcov] at hin
      have ht : k = t.proposal.range.start ∧ t' = t := by
        rcases List.mem_append.mp hin with hin | hin
        · split at hin
          · rename_i hk
            have := List.mem_singleton.mp hin
            cases this
            exact ⟨hk, rfl⟩
          · exact nomatch hin
        · split at hin
          · exact nomatch List.mem_singleton.mp hin
          · exact nomatch hin
      obtain ⟨rfl, rfl⟩ := ht
      exact ⟨List.mem_filterMap.mpr ⟨x, hx, hsrc⟩, List.mem_of_find?_eq_some hcov⟩

theorem coveredBy_start (hc : Covering s) (ht : t ∈ s.contextTransitions) :
    coveredBy s t.proposal.range.start = some t := by
  have hrange := (hc.settled t ht).1
  have hcov : covers t t.proposal.range.start = true := by
    simpa [covers] using hrange
  cases hfind : coveredBy s t.proposal.range.start with
  | none =>
    rw [coveredBy, List.find?_eq_none] at hfind
    exact absurd hcov (hfind t ht)
  | some t' =>
    have hin := List.mem_of_find?_eq_some hfind
    have hcov' := List.find?_some hfind
    simp only [covers, Bool.and_eq_true, decide_eq_true_eq] at hcov'
    congr 1
    by_contra hne
    have hover : overlaps t'.proposal.range t.proposal.range := ⟨by omega, by omega⟩
    obtain ⟨i, hi, rfl⟩ := List.getElem_of_mem hin
    obtain ⟨j, hj, rfl⟩ := List.getElem_of_mem ht
    have hdis := List.pairwise_iff_getElem.mp hc.disjoint
    rcases Nat.lt_trichotomy i j with hij | rfl | hij
    · exact hdis i j hi hj hij hover
    · exact hne rfl
    · exact hdis j i hj hi hij ⟨hover.2, hover.1⟩

theorem rendering_entries (hc : Covering s) : Rendering s (entries s (projectedItems s)) := by
  have hsources := sources_repaired s.history (settledItems s)
  have hitems : (entries s (projectedItems s)).filterMap Entry.index =
      (List.range s.history.length).filter (kept s) := by
    rw [index_entries]
    exact congrArg (List.filter (kept s)) hsources
  refine ⟨hitems, ?_, fun t h => (source_of_summary h).2, ?_⟩
  · intro t ht
    have hrange := hc.settled t ht
    have hin : t.proposal.range.start ∈ (projectedItems s).filterMap (·.source) := by
      rw [projectedItems, hsources, List.mem_range]
      have h1 := hrange.1
      have h2 := hrange.2.2
      omega
    obtain ⟨x, hx, hsrc⟩ := List.mem_filterMap.mp hin
    obtain ⟨pre, post, hsplit⟩ := List.append_of_mem hx
    -- the indices before the range are smaller, those after it larger
    have hord : (pre.filterMap (·.source) ++ t.proposal.range.start ::
        post.filterMap (·.source)).Pairwise (· < ·) := by
      have hlt := List.pairwise_lt_range (n := s.history.length)
      rw [← hsources] at hlt
      have : (repaired s.history (settledItems s)).items = pre ++ x :: post := hsplit
      rwa [this, List.filterMap_append, List.filterMap_cons_some hsrc] at hlt
    obtain ⟨_, hpost, hcross⟩ := List.pairwise_append.mp hord
    have hpre : ∀ k ∈ pre.filterMap (·.source), k < t.proposal.range.start :=
      fun k hk => hcross k hk _ List.mem_cons_self
    have hafter : ∀ k ∈ post.filterMap (·.source), t.proposal.range.start < k :=
      (List.pairwise_cons.mp hpost).1
    refine ⟨entries s pre, (if isUser (s.history.getD t.proposal.range.start .null) then
      [.item t.proposal.range.start] else []) ++ entries s post, ?_, ?_, ?_, ?_, ?_⟩
    · rw [hsplit, entries_append, entries_cons, itemEntries_covered hsrc (coveredBy_start hc ht),
        if_pos rfl]
      simp
    · intro hmem
      exact Nat.lt_irrefl _ (hpre _ (source_of_summary hmem).1)
    · intro hmem
      rcases List.mem_append.mp hmem with hmem | hmem
      · split at hmem <;> simp at hmem
      · exact Nat.lt_irrefl _ (hafter _ (source_of_summary hmem).1)
    · exact fun k hk => hpre k (source_of_item hk)
    · intro k hk
      rcases List.mem_append.mp hk with hk | hk
      · split at hk
        · exact Nat.le_of_eq (Entry.item.inj (List.mem_singleton.mp hk)).symm
        · cases hk
      · exact Nat.le_of_lt (hafter k (source_of_item hk))
  · intro k hk hlt
    rw [← mem_index, hitems, List.mem_filter]
    exact ⟨List.mem_range.mpr hlt, kept_uncovered (coveredBy_unsettled hc k hk)⟩

/-! ## the whole view -/

/-- `isize::MAX`, the largest size of an allocation -/
def isizeMax : Nat := 2 ^ 63 - 1

section
variable [Sha256]

def wholeView (s : SessionState) : ContextView :=
  nativeView s (repaired s.history (settledItems s)) usizeMax

section
variable {s : SessionState} (hfits : bytes (projectedItems s) ≤ isizeMax)
include hfits

theorem plan_whole : (plan (projectedItems s) usizeMax).baseStart = 0 ∧
    (plan (projectedItems s) usizeMax).liveCut = epochStart s usizeMax := by
  refine plan_keeps (projectedItems s) usizeMax (Nat.le_trans (Nat.add_le_add_right
    (Nat.add_le_add_right hfits _) _) (by decide))

theorem wholeView_input : (wholeView s).input = (projectedItems s).map (·.value) := by
  obtain ⟨hb, hl⟩ := plan_whole hfits
  exact projectedInput_whole s _ _ hb hl

theorem stableRetained_whole : stableRetained (projectedItems s) (plan (projectedItems s) usizeMax) =
    (projectedItems s).take (epochStart s usizeMax) := by
  obtain ⟨hb, _⟩ := plan_whole hfits
  rw [stableRetained, hb]
  rfl

theorem liveInput_whole :
    liveInput (wholeView s) = ((projectedItems s).drop (epochStart s usizeMax)).map (·.value) := by
  have hstable : (wholeView s).manifest.stableInputItems = epochStart s usizeMax := by
    show (stableRetained (projectedItems s) (plan (projectedItems s) usizeMax)).length = _
    rw [stableRetained_whole hfits, List.length_take, Nat.min_eq_left (epochStart_le s usizeMax)]
  rw [liveInput, hstable, wholeView_input hfits, List.map_drop]

theorem segments_whole : ∃ rest, (∀ seg ∈ rest, seg.role ≠ ContextSegmentRole.stableHistory) ∧
    (wholeView s).manifest.segments =
      ((projectedItems s).take (epochStart s usizeMax)).mapIdx (fun i x =>
        stableSegment s (sourceEnd ((projectedItems s).take (epochStart s usizeMax)) 0) (wholeView s)
          (.nativeText nativeRenderer usizeMax) i x) ++ rest := by
  have hret := stableRetained_whole hfits
  show ∃ rest, _ ∧ nativeSegments s (projectedItems s) (plan (projectedItems s) usizeMax)
    (.nativeText nativeRenderer usizeMax) (wholeView s).input = _
  unfold nativeSegments
  rw [List.append_assoc, List.append_assoc, stableSegments, hret]
  refine ⟨_, ?_, rfl⟩
  intro seg hseg
  rcases List.mem_append.mp hseg with hseg | hseg
  · split at hseg
    · rw [List.mem_singleton.mp hseg]; exact fun h => nomatch h
    · exact nomatch hseg
  · rcases List.mem_append.mp hseg with hseg | hseg
    · split at hseg
      · rw [List.mem_singleton.mp hseg]; exact fun h => nomatch h
      · exact nomatch hseg
    · split at hseg
      · rw [List.mem_singleton.mp hseg]; exact fun h => nomatch h
      · exact nomatch hseg

variable (hc : Covering s)
include hc

/-- **The loop writes the entries of the items before the epoch.** -/
theorem derive_whole (representation : ContextRepresentation) :
    (derive s representation (wholeView s)).input =
      (entries s ((projectedItems s).take (epochStart s usizeMax))).map (Entry.value s.history) := by
  obtain ⟨rest, hrest, hsegs⟩ := segments_whole hfits
  have hspec := plan_spec (projectedItems s) usizeMax
  obtain ⟨hend, _⟩ := sources_cut s.history (settledItems s) (epochStart s usizeMax)
    (settledItems_le s) hspec.stable_le
  have hset := settledItems_covering hc
  rw [derive, hsegs, List.foldl_append, derive_other _ _ _ _ _ hrest]
  have h := derive_stable s representation (.nativeText nativeRenderer usizeMax) (wholeView s)
    (sourceEnd ((projectedItems s).take (epochStart s usizeMax)) 0)
    ((projectedItems s).take (epochStart s usizeMax)) 0 ⟨[], [], 0⟩ ?_
  · simpa using h
  · intro i x hx
    have hlt := (List.getElem?_eq_some_iff.mp hx).1
    rw [List.length_take] at hlt
    rw [List.getElem?_take_of_lt (by omega)] at hx
    rw [Nat.zero_add]
    refine ⟨?_, itemOk_repaired s.history (settledItems s) x (List.mem_of_getElem? hx), fun _ => ?_⟩
    · rw [wholeView_input hfits, slice_map, slice_succ _ i i x (Nat.le_refl _) hx, slice_self]
      rfl
    · exact coveredBy_unsettled hc _ (Nat.le_trans (Nat.le_of_eq hset.symm) hend)

theorem entries_live :
    (entries s ((projectedItems s).drop (epochStart s usizeMax))).map (Entry.value s.history) =
      ((projectedItems s).drop (epochStart s usizeMax)).map (·.value) := by
  have hspec := plan_spec (projectedItems s) usizeMax
  obtain ⟨_, hlive⟩ := sources_cut s.history (settledItems s) (epochStart s usizeMax)
    (settledItems_le s) hspec.stable_le
  have hset := settledItems_covering hc
  refine entries_uncovered _ (fun x hx => ?_) (fun x hx k hk => ?_)
  · exact itemOk_repaired s.history (settledItems s) x (List.mem_of_mem_drop hx)
  · exact coveredBy_unsettled hc k (Nat.le_trans (Nat.le_of_eq hset.symm) (hlive x hx k hk))

/-- **The view of a session with transitions renders the entries of its repaired history.** -/
theorem derived_input (representation : ContextRepresentation) :
    (derive s representation (wholeView s)).input ++ liveInput (wholeView s) =
      (entries s (projectedItems s)).map (Entry.value s.history) := by
  rw [derive_whole hfits hc, liveInput_whole hfits, ← entries_live hfits hc, ← List.map_append,
    ← entries_append, List.take_append_drop]

theorem projectTransitions_input {maxBytes : Nat} {view : ContextView}
    (h : projectTransitions s maxBytes = .ok view) :
    view.input = (entries s (projectedItems s)).map (Entry.value s.history) := by
  obtain ⟨_, h⟩ := refuseIf_bind h
  obtain ⟨_, _, h⟩ := bind_ok h
  obtain ⟨native, hnative, h⟩ := bind_ok h
  obtain ⟨_, _, rfl, _⟩ := projectNative_eq s usizeMax native hnative
  obtain ⟨_, h⟩ := refuseIf_bind h
  obtain rfl := Except.ok.inj h
  exact derived_input hfits hc _

theorem projectTransitions_succeeds {maxBytes : Nat} (hs : NoActivePending s)
    (hsource : checkAll (fun t => t.validateSource s) s.contextTransitions = .ok ())
    (hmax : 4096 ≤ maxBytes)
    (hlen : (toVec (.array ((entries s (projectedItems s)).map (Entry.value s.history)))).length ≤
      maxBytes) : ∃ view, projectTransitions s maxBytes = .ok view := by
  have hnative := (projectNative_ok s usizeMax hs (by decide)).1
  rw [← derived_input hfits hc (.nativeText transitionRenderer maxBytes)] at hlen
  have hroom : ¬ maxBytes < (toVec (.array (transitionView s maxBytes (wholeView s)).input)).length :=
    Nat.not_lt.mpr hlen
  refine ⟨transitionView s maxBytes (wholeView s), ?_⟩
  unfold projectTransitions
  rw [refuseIf_of_not _ (Nat.not_lt.mpr hmax), ok_bind, hsource, ok_bind, hnative, ok_bind]
  show (refuseIf (maxBytes < (toVec (.array (transitionView s maxBytes (wholeView s)).input)).length)
    ContextError.limit >>= fun _ => pure (transitionView s maxBytes (wholeView s))) = _
  rw [refuseIf_of_not _ hroom]
  rfl

end

/-! ## the result -/

end

def twoMessages : List Value := [messageItem "assistant" "one", messageItem "user" "two"]

section
variable [Sha256]

def bothSummarised : ContextTransition where
  source := ⟨1, ⟨⟨1⟩⟩, 1⟩
  sourceHistoryItems := 2
  sourceHistory := Digest.ofValues twoMessages
  sourceDigest := Digest.ofValues twoMessages
  request := ⟨2⟩
  callId := "call"
  proposal := ⟨⟨0, 2⟩, "phase one is over", "two messages", []⟩

def summarisedSession : SessionState :=
  { sessionAt twoMessages 2 with contextTransitions := [bothSummarised] }

theorem validateProposal_summarised :
    validateProposal (sessionAt twoMessages 2) bothSummarised.proposal = .ok () := by
  unfold validateProposal
  rw [refuseIf_of_not, ok_bind, refuseIf_of_not, ok_bind, refuseIf_of_not, ok_bind]
  · rfl
  · show ¬ ¬ textBounds ⟨⟨0, 2⟩, "phase one is over", "two messages", []⟩
    decide
  · rintro ⟨prior, hin, _⟩
    exact nomatch hin
  · exact not_not.mpr ⟨Nat.succ_pos 1, Nat.le_refl 2, Nat.le_refl 2⟩

theorem grows_summarised : Grows (sessionAt twoMessages 2) summarisedSession where
  history := List.prefix_rfl
  settled := Nat.le_refl _
  bounded := Nat.le_refl _
  transitions := Or.inr ⟨bothSummarised, rfl, validateProposal_summarised⟩

theorem validateSource_summarised :
    checkAll (fun t => t.validateSource summarisedSession) summarisedSession.contextTransitions =
      .ok () := by
  have h : bothSummarised.validateSource summarisedSession = .ok () := by
    refine refuseIf_of_not _ ?_
    rintro (h | h | h | h | h | h | h | h)
    · exact h rfl
    · exact h rfl
    · exact Nat.lt_irrefl 1 h
    · exact h ⟨Nat.succ_pos 1, Nat.le_refl 2, Nat.le_refl 2⟩
    · exact Nat.lt_irrefl 2 h
    · exact Nat.lt_irrefl 2 h
    · exact h rfl
    · exact h rfl
  show (bothSummarised.validateSource summarisedSession >>= fun _ => Except.ok ()) = .ok ()
  rw [h]
  rfl

end

end Orvek
