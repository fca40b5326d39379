import Orvek.Context.Native

/-!
# Where a projection is cut

Facts about the two searches of the native projection, for any list of items:

* `sizeAt_sizes`          the running sums are sums of encoded sizes;
* `SuffixSpec`            what `suffixStart` returns: either the end, or a cut at which no call is
                          open and the rest fits the budget;
* `EpochInv`              the invariant of the loop of `cacheEpochStart`; its step is
                          `EpochInv.step`, its run `EpochInv.run`;
* `cacheEpochStart_spec`  the epoch starts at a unit boundary, at or after `start`.
-/

set_option linter.unusedSectionVars false

namespace Orvek
open Json Pairs

variable (items : List ProjectedItem)

/-! ## slices -/

section
variable {α : Type}
variable (l : List α)

theorem slice_length (a b : Nat) (hb : b ≤ l.length) : (slice l a b).length = b - a := by
  simp [slice, Nat.min_eq_left hb]

theorem slice_self (a : Nat) : slice l a a = [] := by
  apply List.eq_nil_of_length_eq_zero
  rw [slice, List.length_drop, List.length_take]
  omega

theorem slice_succ (a b : Nat) (x : α) (hab : a ≤ b) (h : l[b]? = some x) :
    slice l a (b + 1) = slice l a b ++ [x] := by
  have hlt : b < l.length := (List.getElem?_eq_some_iff.mp h).1
  rw [slice, List.take_add_one, h, slice, List.drop_append_of_le_length]
  · rfl
  · rw [List.length_take]; omega

theorem slice_append (a b c : Nat) (hab : a ≤ b) (hbc : b ≤ c) (hb : b ≤ l.length) :
    slice l a c = slice l a b ++ slice l b c := by
  obtain ⟨d, rfl⟩ : ∃ d, c = b + d := ⟨c - b, by omega⟩
  have hsplit : l.take (b + d) = l.take b ++ (l.drop b).take d := List.take_add
  rw [slice, hsplit, List.drop_append_of_le_length (by rw [List.length_take]; omega), slice, slice,
    hsplit]
  congr 1
  have hlen : (l.take b).length = b := by rw [List.length_take, Nat.min_eq_left hb]
  have hnil : (l.take b).drop b = [] := List.drop_eq_nil_of_le (Nat.le_of_eq hlen)
  rw [List.drop_append, hlen, Nat.sub_self, List.drop_zero, hnil, List.nil_append]

theorem drop_eq_cons {l rest : List α} {n : Nat} {x : α} (h : l.drop n = x :: rest) :
    l[n]? = some x ∧ l.drop (n + 1) = rest := by
  constructor
  · have h0 : (l.drop n)[0]? = some x := by rw [h]; rfl
    rwa [List.getElem?_drop, Nat.add_zero] at h0
  · rw [← List.drop_drop, h]; rfl

theorem slice_zero (b : Nat) : slice l 0 b = l.take b := rfl

theorem slice_length_right (a : Nat) : slice l a l.length = l.drop a := by
  rw [slice, List.take_length]

theorem slice_map {β : Type} (f : α → β) (l : List α) (a b : Nat) :
    slice (l.map f) a b = (slice l a b).map f := by
  simp [slice]

end

/-! ## sizes -/

def bytes (items : List ProjectedItem) : Nat := (items.map fun item => item.value.size + 1).sum

theorem bytes_nil : bytes [] = 0 := rfl
theorem bytes_cons (item : ProjectedItem) (items : List ProjectedItem) :
    bytes (item :: items) = item.value.size + 1 + bytes items := by
  simp [bytes]
theorem bytes_append (a b : List ProjectedItem) : bytes (a ++ b) = bytes a + bytes b := by
  simp [bytes]

theorem bytes_pos (h : items ≠ []) : 0 < bytes items := by
  cases items with
  | nil => exact absurd rfl h
  | cons item items => rw [bytes_cons]; omega

theorem bytes_le (n : Nat) (h : ∀ x ∈ items, x.value.size ≤ n) : bytes items ≤ items.length * (n + 1) := by
  induction items with
  | nil => exact Nat.zero_le _
  | cons item items ih =>
    have h1 := h item List.mem_cons_self
    have h2 := ih fun x hx => h x (List.mem_cons_of_mem _ hx)
    rw [bytes_cons, List.length_cons, Nat.succ_mul]
    omega

theorem sizeAt_sizesFrom (total k : Nat) (hk : k ≤ items.length) :
    sizeAt (sizesFrom total items) k = total + bytes (items.take k) := by
  induction items generalizing total k with
  | nil =>
    obtain rfl : k = 0 := by simpa using hk
    rfl
  | cons item items ih =>
    cases k with
    | zero => rfl
    | succ k =>
      show sizeAt (sizesFrom (total + ((toVec item.value).length + 1)) items) k = _
      rw [ih _ k (by simpa using hk), List.take_succ_cons, bytes_cons, toVec_length]
      omega

theorem sizeAt_sizes (k : Nat) (hk : k ≤ items.length) : sizeAt (sizes items) k = bytes (items.take k) := by
  rw [sizes, sizeAt_sizesFrom items 0 k hk, Nat.zero_add]

theorem sizeAt_sub (a b : Nat) (hab : a ≤ b) (hb : b ≤ items.length) :
    sizeAt (sizes items) b - sizeAt (sizes items) a = bytes (slice items a b) := by
  rw [sizeAt_sizes items b hb, sizeAt_sizes items a (by omega)]
  have h : items.take b = items.take a ++ slice items a b := by
    rw [← slice_zero, ← slice_zero, ← slice_append items 0 a b (Nat.zero_le _) hab (by omega)]
  rw [h, bytes_append]
  omega

theorem tailBytes_eq (k : Nat) (hk : k ≤ items.length) : tailBytes items k = bytes (items.drop k) := by
  rw [tailBytes, sizeAt_sub items k items.length hk (Nat.le_refl _), slice_length_right]

/-! ## open calls -/

def marks (items : List ProjectedItem) : List (Mark String) := items.map ProjectedItem.mark

theorem marks_append (a b : List ProjectedItem) : marks (a ++ b) = marks a ++ marks b :=
  List.map_append

theorem length_marks : (marks items).length = items.length :=
  List.length_map _

/-- the calls opened since `start` and still open at `k` -/
def openFrom (items : List ProjectedItem) (start k : Nat) : BTreeSet String :=
  after ∅ (marks (slice items start k))

attribute [grind =] openFrom

theorem openFrom_self (start : Nat) : openFrom items start start = ∅ := by
  rw [openFrom, slice_self]; rfl

theorem openFrom_succ (start k : Nat) (item : ProjectedItem) (hk : start ≤ k) (h : items[k]? = some item) :
    openFrom items start (k + 1) = step (openFrom items start k) item.mark := by
  rw [openFrom, slice_succ items start k item hk h, marks_append]
  exact after_concat _ _ _

theorem openFrom_eq_openAt (start k : Nat) (hk : start ≤ k) (h : openAt (marks items) start = ∅) :
    openFrom items start k = openAt (marks items) k := by
  obtain ⟨d, rfl⟩ : ∃ d, k = start + d := ⟨k - start, by omega⟩
  rw [openAt] at h
  rw [openAt, after_take_add, h, openFrom]
  congr 1
  rw [slice, marks, marks, List.map_drop, List.map_take, List.drop_take]
  congr 1
  omega

/-! ## the suffix search -/

/-- what the suffix search returns from `start` before `stop` -/
structure SuffixSpec (items : List ProjectedItem) (start stop budget k : Nat) : Prop where
  le_start : start ≤ k
  le_stop : k ≤ stop
  fits : k = stop ∨ (bytes (slice items k stop) ≤ budget ∧ openFrom items start k = ∅)

theorem suffixLoop_spec (start stop budget : Nat) (hstop : stop ≤ items.length) (l : List ProjectedItem)
    (k : Nat) (hk : start ≤ k) (hkstop : k ≤ stop) (hl : slice items k stop = l) :
    SuffixSpec items start stop budget
      (suffixLoop (sizes items) stop budget l k (openFrom items start k)) := by
  induction l generalizing k with
  | nil =>
    have hlen := slice_length items k stop hstop
    rw [hl, List.length_nil] at hlen
    exact ⟨hk, by show k ≤ stop; omega, Or.inl (by show k = stop; omega)⟩
  | cons item l ih =>
    have hlt : k < stop := by
      have hlen := slice_length items k stop hstop
      rw [hl, List.length_cons] at hlen
      omega
    have hget : items[k]? = some item := by
      have h0 : (slice items k stop)[0]? = some item := by rw [hl]; rfl
      rw [slice, List.getElem?_drop, Nat.add_zero, List.getElem?_take_of_lt hlt] at h0
      exact h0
    have hrest : slice items (k + 1) stop = l := by
      have h1 := slice_append items k (k + 1) stop (by omega) (by omega) (by omega)
      rw [slice_succ items k k item (Nat.le_refl _) hget, slice_self, List.nil_append, hl] at h1
      exact (List.cons.inj h1).2.symm
    unfold suffixLoop
    split
    · rw [← openFrom_succ items start k item hk hget]
      exact ih (k + 1) (by omega) (by omega) hrest
    · rename_i hcond
      rw [not_or] at hcond
      rw [sizeAt_sub items k stop (by omega) hstop] at hcond
      refine ⟨hk, by omega, Or.inr ⟨by omega, ?_⟩⟩
      simpa using hcond.2

theorem suffixStart_spec (start stop budget : Nat) (hss : start ≤ stop) (hstop : stop ≤ items.length) :
    SuffixSpec items start stop budget (suffixStart items (sizes items) start stop budget) := by
  have h := suffixLoop_spec items start stop budget hstop (slice items start stop) start
    (Nat.le_refl _) hss rfl
  rw [openFrom_self] at h
  exact h

/-! ## the epoch search -/

/-- the invariant of the epoch loop after the items before `index` -/
structure EpochInv (items : List ProjectedItem) (start index : Nat) (e : Epoch) : Prop where
  le_start : start ≤ e.epochStart
  le_unit : e.epochStart ≤ e.unitStart
  le_index : e.unitStart ≤ index
  epoch_closed : openFrom items start e.epochStart = ∅
  unit_closed : openFrom items start e.unitStart = ∅
  opened : e.opened = openFrom items start index
  unit_done : e.opened = ∅ → e.unitStart = index
  epochBytes : e.epochBytes = bytes (slice items e.epochStart e.unitStart)

theorem EpochInv.init (start : Nat) :
    EpochInv items start start ⟨start, 0, start, ∅⟩ where
  le_start := Nat.le_refl _
  le_unit := Nat.le_refl _
  le_index := Nat.le_refl _
  epoch_closed := openFrom_self _ _
  unit_closed := openFrom_self _ _
  opened := (openFrom_self _ _).symm
  unit_done := fun _ => rfl
  epochBytes := by rw [slice_self, bytes_nil]

theorem EpochInv.step {items : List ProjectedItem} {start index : Nat} {e : Epoch}
    (h : EpochInv items start index e) (budget : Nat) (item : ProjectedItem)
    (hget : items[index]? = some item) :
    EpochInv items start (index + 1) (epochStep (sizes items) budget index item e) := by
  have hlt : index < items.length := (List.getElem?_eq_some_iff.mp hget).1
  have hle := h.le_index
  have hunit := h.le_unit
  have hstart := h.le_start
  have hopen : Pairs.step e.opened item.mark = openFrom items start (index + 1) := by
    rw [openFrom_succ items start index item (by omega) hget, h.opened]
  have hbytes : sizeAt (sizes items) (index + 1) - sizeAt (sizes items) e.unitStart =
      bytes (slice items e.unitStart (index + 1)) :=
    sizeAt_sub items e.unitStart (index + 1) (by omega) (by omega)
  unfold epochStep
  simp only [hopen, hbytes]
  split
  · rename_i hne
    exact
      { le_start := hstart
        le_unit := hunit
        le_index := by show e.unitStart ≤ index + 1; omega
        epoch_closed := h.epoch_closed
        unit_closed := h.unit_closed
        opened := rfl
        unit_done := fun he => by
          simp only at he
          simp [he] at hne
        epochBytes := h.epochBytes }
  · rename_i hne
    have hclosed : openFrom items start (index + 1) = ∅ := by simpa using hne
    split
    · exact
        { le_start := by show start ≤ e.unitStart; omega
          le_unit := by show e.unitStart ≤ index + 1; omega
          le_index := Nat.le_refl _
          epoch_closed := h.unit_closed
          unit_closed := hclosed
          opened := rfl
          unit_done := fun _ => rfl
          epochBytes := rfl }
    · exact
        { le_start := hstart
          le_unit := by show e.epochStart ≤ index + 1; omega
          le_index := Nat.le_refl _
          epoch_closed := h.epoch_closed
          unit_closed := hclosed
          opened := rfl
          unit_done := fun _ => rfl
          epochBytes := by
            show e.epochBytes + _ = _
            rw [h.epochBytes, slice_append items e.epochStart e.unitStart (index + 1) hunit
              (by omega) (by omega), bytes_append] }

theorem EpochInv.run {items : List ProjectedItem} {start : Nat} (budget : Nat)
    (l : List ProjectedItem) (index : Nat) (e : Epoch) (hl : items.drop index = l)
    (h : EpochInv items start index e) :
    EpochInv items start (index + l.length) (epochLoop (sizes items) budget index l e) := by
  induction l generalizing index e with
  | nil => exact h
  | cons item l ih =>
    obtain ⟨hget, hrest⟩ := drop_eq_cons hl
    have h1 := ih (index + 1) _ hrest (h.step budget item hget)
    rw [List.length_cons, Nat.add_comm l.length 1, ← Nat.add_assoc]
    exact h1

def lastEpoch (items : List ProjectedItem) (start budget : Nat) : Epoch :=
  epochLoop (sizes items) budget start (items.drop start) ⟨start, 0, start, ∅⟩

theorem cacheEpochStart_eq (start budget : Nat) :
    cacheEpochStart items (sizes items) start items.length budget =
      (lastEpoch items start budget).epochStart := by
  rw [cacheEpochStart, List.take_length, lastEpoch]

theorem lastEpoch_inv (start budget : Nat) (h : start ≤ items.length) :
    EpochInv items start items.length (lastEpoch items start budget) := by
  have h1 := EpochInv.run budget (items.drop start) start _ rfl (EpochInv.init items start)
  rw [List.length_drop, Nat.add_sub_cancel' h] at h1
  exact h1

/-- **The epoch starts at a unit boundary.** -/
theorem cacheEpochStart_spec (start budget : Nat) (h : start ≤ items.length) :
    start ≤ cacheEpochStart items (sizes items) start items.length budget ∧
    cacheEpochStart items (sizes items) start items.length budget ≤ items.length ∧
    openFrom items start (cacheEpochStart items (sizes items) start items.length budget) = ∅ := by
  have hinv := lastEpoch_inv items start budget h
  rw [cacheEpochStart_eq]
  exact ⟨hinv.le_start, Nat.le_trans hinv.le_unit hinv.le_index, hinv.epoch_closed⟩

/-- an epoch that holds everything is never left -/
theorem epochLoop_of_fits (start budget : Nat) (hfit : bytes (items.drop start) ≤ budget)
    (l : List ProjectedItem) (index : Nat) (e : Epoch) (hl : items.drop index = l)
    (h : EpochInv items start index e) (he : e.epochStart = start) :
    (epochLoop (sizes items) budget index l e).epochStart = start := by
  induction l generalizing index e with
  | nil => exact he
  | cons item l ih =>
    obtain ⟨hget, hrest⟩ := drop_eq_cons hl
    refine ih (index + 1) _ hrest (h.step budget item hget) ?_
    have hlt : index < items.length := (List.getElem?_eq_some_iff.mp hget).1
    have hle := h.le_index
    have hunit := h.le_unit
    rw [he] at hunit
    -- the epoch with its next unit is a part of what fits
    have hsum : e.epochBytes + bytes (slice items e.unitStart (index + 1)) ≤ budget := by
      rw [h.epochBytes, he, ← bytes_append,
        ← slice_append items start e.unitStart (index + 1) hunit (by omega) (by omega)]
      refine Nat.le_trans ?_ hfit
      rw [← slice_length_right, slice_append items start (index + 1) items.length (by omega)
        (by omega) (by omega), bytes_append]
      exact Nat.le_add_right _ _
    unfold epochStep
    simp only [sizeAt_sub items e.unitStart (index + 1) (by omega) (by omega)]
    split
    · exact he
    · rw [if_neg (by omega)]
      exact he

theorem cacheEpochStart_of_fits (start budget : Nat) (hfit : bytes (items.drop start) ≤ budget) :
    cacheEpochStart items (sizes items) start items.length budget = start := by
  rw [cacheEpochStart_eq]
  exact epochLoop_of_fits items start budget hfit _ start _ rfl (EpochInv.init items start) rfl

theorem suffixStart_of_fits (start stop budget : Nat) (hss : start ≤ stop) (hstop : stop ≤ items.length)
    (hfit : bytes (slice items start stop) ≤ budget) :
    suffixStart items (sizes items) start stop budget = start := by
  unfold suffixStart
  generalize hl : (items.take stop).drop start = l
  cases l with
  | nil => rfl
  | cons item l =>
    unfold suffixLoop
    rw [sizeAt_sub items start stop hss hstop, if_neg]
    simp only [not_or]
    exact ⟨by omega, by simp⟩

/-! ## the plan -/

theorem stableEnd_le : stableEnd items ≤ items.length :=
  (List.takeWhile_sublist _).length_le

/-- **The three cut points of a projection**: their order, the calls open at them, and the bytes
they leave. -/
structure PlanSpec (items : List ProjectedItem) (maxBytes : Nat) (p : Plan) : Prop where
  stable_le : stableEnd items ≤ p.epochStart
  base_le : p.baseStart ≤ p.epochStart
  epoch_le : p.epochStart ≤ p.liveCut
  live_le : p.liveCut ≤ items.length
  epoch_closed : openFrom items (stableEnd items) p.epochStart = ∅
  live_closed : p.liveCut = items.length ∨ openFrom items p.epochStart p.liveCut = ∅
  base_closed : p.baseStart = p.epochStart ∨ openFrom items 0 p.baseStart = ∅
  base_fits : p.baseStart = p.epochStart ∨
    bytes (slice items p.baseStart p.epochStart) ≤ baseBudget items maxBytes p.epochStart

theorem liveCut_spec (maxBytes epochStart : Nat) (h : epochStart ≤ items.length) :
    epochStart ≤ liveCut items maxBytes epochStart ∧
    liveCut items maxBytes epochStart ≤ items.length ∧
    (liveCut items maxBytes epochStart = items.length ∨
      openFrom items epochStart (liveCut items maxBytes epochStart) = ∅) := by
  unfold liveCut
  split
  · have hs := suffixStart_spec items epochStart items.length
      (maxBytes - omissionNoticeReserveBytes * 2) h (Nat.le_refl _)
    exact ⟨hs.le_start, hs.le_stop, hs.fits.imp id And.right⟩
  · exact ⟨Nat.le_refl _, h, Or.inr (openFrom_self _ _)⟩

theorem plan_spec (maxBytes : Nat) : PlanSpec items maxBytes (plan items maxBytes) := by
  obtain ⟨h1, h2, h3⟩ := cacheEpochStart_spec items (stableEnd items) (appendBudget maxBytes)
    (stableEnd_le items)
  have hlive := liveCut_spec items maxBytes _ h2
  have hbase := suffixStart_spec items 0 _
    (baseBudget items maxBytes (plan items maxBytes).epochStart) (Nat.zero_le _) h2
  exact
    { stable_le := h1
      base_le := hbase.le_stop
      epoch_le := hlive.1
      live_le := hlive.2.1
      epoch_closed := h3
      live_closed := hlive.2.2
      base_closed := hbase.fits.imp id And.right
      base_fits := hbase.fits.imp id And.left }

/-- **A history that leaves room for an epoch and two notices is kept whole.** -/
theorem plan_keeps (maxBytes : Nat)
    (h : bytes items + maxOutputTokens + omissionNoticeReserveBytes * 2 ≤ maxBytes) :
    (plan items maxBytes).baseStart = 0 ∧
      (plan items maxBytes).liveCut = (plan items maxBytes).epochStart := by
  have hspec := plan_spec items maxBytes
  generalize he : (plan items maxBytes).epochStart = e
  have hle : e ≤ items.length := by rw [← he]; exact Nat.le_trans hspec.epoch_le hspec.live_le
  have hsum : bytes items = bytes (slice items 0 e) + bytes (items.drop e) := by
    rw [slice_zero, ← bytes_append, List.take_append_drop]
  have hcut : liveCut items maxBytes e = e := by
    unfold liveCut
    split
    · refine suffixStart_of_fits items e items.length _ hle (Nat.le_refl _) ?_
      rw [slice_length_right]
      omega
    · rfl
  have hbudget : bytes (slice items 0 e) ≤ baseBudget items maxBytes e := by
    have happ : appendBudget maxBytes ≤ maxOutputTokens := Nat.min_le_right _ _
    have htail : tailBytes items e = bytes (items.drop e) := tailBytes_eq items e hle
    rw [baseBudget, hcut, if_neg (Nat.lt_irrefl e), reservedTailBytes, hcut]
    split <;> omega
  constructor
  · show suffixStart items (sizes items) 0 (plan items maxBytes).epochStart
      (baseBudget items maxBytes (plan items maxBytes).epochStart) = 0
    rw [he]
    exact suffixStart_of_fits items 0 e _ (Nat.zero_le _) hle hbudget
  · show liveCut items maxBytes (plan items maxBytes).epochStart = e
    rw [he]
    exact hcut

end Orvek
