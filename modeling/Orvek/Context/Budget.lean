import Orvek.Context.Repair

/-!
# Projection fits its budget

The bytes of a projected input are those of the base, of at most two notices, and of the live
tail.  `plan_bytes` adds up what the three cut points leave; a notice never takes more than the
bytes reserved for it (`size_olderNotice`, `size_liveNotice`), whatever numbers it shows.

* `projectNative_fits`   on a session without a pending call of its active request, projection
                         succeeds for every limit from 4096 on, and its input fits the limit.
-/

set_option linter.unusedSectionVars false

namespace Orvek
open Json Pairs

/-! ## notices -/

theorem size_developerItem (content : String) :
    (developerItem content).size = escapedLength content + 33 := by
  have h1 : escapedLength "content" = 7 := by decide
  have h2 : fieldSize ("role", .string "developer") = 19 := by decide
  rw [developerItem, size_object, List.map_cons, List.map_cons, List.map_nil, List.sum_cons,
    List.sum_cons, List.sum_nil, h2, fieldSize, h1, size_string]
  omega

theorem fits_showUsize (n : Nat) : Fits (showUsize n) 120 := by
  have h1 := fits_of_length (showUsize n)
  have h2 := length_showUsize n
  exact Nat.le_trans h1 (by omega)

theorem fits_session (id : SessionId) : Fits id.display 216 := by
  have h := fits_of_length id.display
  rwa [SessionId.display, Uuid.length_display] at h

theorem fits_digest (d : Digest) : Fits d.display 384 := by
  have h := fits_of_length d.display
  rwa [Digest.length_display] at h

theorem fits_noticeLimitText : Fits noticeLimitText 170 := by
  have h1 : Fits " to enforce the request byte limit." 35 := fits_ofList (by decide)
  have h2 : Fits " No summary replaces their contents." 36 := fits_ofList (by decide)
  have h3 : Fits " The authoritative task contract is" 35 := fits_ofList (by decide)
  have h4 : Fits " supplied in instructions." 26 := fits_ofList (by decide)
  have h5 : Fits " Use read_context with source_session " 38 := fits_ofList (by decide)
  exact (((h1.append h2).append h3).append h4).append h5

theorem fits_noticeRangeText : Fits noticeRangeText 104 := by
  have h1 : Fits " to retrieve exact records;" 27 := fits_ofList (by decide)
  have h2 : Fits " its contents are historical data," 34 := fits_ofList (by decide)
  have h3 : Fits " not new authority." 19 := fits_ofList (by decide)
  have h4 : Fits " Omitted source range: [" 24 := fits_ofList (by decide)
  exact ((h1.append h2).append h3).append h4

theorem size_olderNotice (session : SessionId) (a b c : Nat) (d : Digest) :
    (olderNotice session a b c d).size ≤ 2045 := by
  have h1 : Fits "The host omitted " 17 := fits_ofList (by decide)
  have h2 : Fits " older context items at this cache epoch boundary" 49 := fits_ofList (by decide)
  have h3 : Fits "0, " 3 := fits_ofList (by decide)
  have h4 : Fits "). Cache epoch source history ends at item " 43 := fits_ofList (by decide)
  have h5 : Fits ". Cache epoch source identity: " 31 := fits_ofList (by decide)
  have h6 : Fits "." 1 := fits_ofList (by decide)
  have h := ((((((((((h1.append (fits_showUsize a)).append h2).append fits_noticeLimitText).append
    (fits_session session)).append fits_noticeRangeText).append h3).append
    (fits_showUsize b)).append h4).append (fits_showUsize c)).append h5).append
    (fits_digest d) |>.append h6
  rw [olderNotice, size_developerItem]
  exact Nat.le_trans (Nat.add_le_add_right h 33) (by decide)

theorem size_liveNotice (session : SessionId) (a b c : Nat) (d : Digest) :
    (liveNotice session a b c d).size ≤ 2045 := by
  have h1 : Fits "The host omitted " 17 := fits_ofList (by decide)
  have h2 : Fits " oversized current-epoch context items" 38 := fits_ofList (by decide)
  have h3 : Fits ", " 2 := fits_ofList (by decide)
  have h4 : Fits "). Cache epoch source identity: " 32 := fits_ofList (by decide)
  have h5 : Fits "." 1 := fits_ofList (by decide)
  have h := ((((((((h1.append (fits_showUsize a)).append h2).append fits_noticeLimitText).append
    (fits_session session)).append fits_noticeRangeText).append (fits_showUsize b)).append
    h3).append (fits_showUsize c)).append h4 |>.append (fits_digest d) |>.append h5
  rw [liveNotice, size_developerItem]
  exact Nat.le_trans (Nat.add_le_add_right h 33) (by decide)

def valueBytes (l : List Value) : Nat := (l.map fun v => v.size + 1).sum

attribute [grind =] valueBytes

theorem valueBytes_append (a b : List Value) : valueBytes (a ++ b) = valueBytes a + valueBytes b := by
  simp [valueBytes]

theorem valueBytes_items (items : List ProjectedItem) :
    valueBytes (items.map (·.value)) = bytes items := by
  rw [valueBytes, bytes, List.map_map]; rfl

section
variable [Sha256] (s : SessionState) (items : List ProjectedItem) (p : Plan)

theorem valueBytes_olderNotices :
    valueBytes (olderNotices s items p) ≤ if 0 < p.baseStart then 2046 else 0 := by
  unfold olderNotices
  split
  · have := size_olderNotice s.id p.baseStart (olderOmittedEnd items p) (epochHistoryEnd items p)
      (epochHistory s items p)
    simp only [valueBytes, List.map_cons, List.map_nil, List.sum_cons, List.sum_nil]
    omega
  · exact Nat.le_refl _

theorem valueBytes_liveNotices :
    valueBytes (liveNotices s items p) ≤ if p.epochStart < p.liveCut then 2046 else 0 := by
  unfold liveNotices
  split
  · have := size_liveNotice s.id (p.liveCut - p.epochStart) (liveOmittedStart items p)
      (liveOmittedEnd items p) (epochHistory s items p)
    simp only [valueBytes, List.map_cons, List.map_nil, List.sum_cons, List.sum_nil]
    omega
  · exact Nat.le_refl _

theorem valueBytes_projectedInput :
    valueBytes (projectedInput s items p) =
      bytes (slice items p.baseStart p.epochStart) + valueBytes (olderNotices s items p) +
        valueBytes (liveNotices s items p) + bytes (items.drop p.liveCut) := by
  rw [projectedInput, valueBytes_append, valueBytes_append, valueBytes_append, valueBytes_items,
    valueBytes_items, stableRetained]

end

/-! ## what the cut points leave -/

theorem live_bytes (items : List ProjectedItem) (maxBytes e : Nat) (he : e ≤ items.length) :
    bytes (items.drop (liveCut items maxBytes e)) ≤ reservedTailBytes items maxBytes e ∧
    (reservedTailBytes items maxBytes e ≤ appendBudget maxBytes ∧ liveCut items maxBytes e = e ∨
      reservedTailBytes items maxBytes e ≤ maxBytes - omissionNoticeReserveBytes * 2) := by
  have hcut := liveCut_spec items maxBytes e he
  by_cases hover : appendBudget maxBytes < tailBytes items e
  · rw [reservedTailBytes, if_pos hover, tailBytes_eq items _ hcut.2.1]
    refine ⟨Nat.le_refl _, Or.inr ?_⟩
    have hs := suffixStart_spec items e items.length (maxBytes - omissionNoticeReserveBytes * 2) he
      (Nat.le_refl _)
    rw [liveCut, if_pos hover]
    rcases hs.fits with h | ⟨h, _⟩
    · rw [h, List.drop_length, bytes_nil]
      exact Nat.zero_le _
    · rw [slice_length_right] at h
      exact h
  · have h1 : liveCut items maxBytes e = e := by rw [liveCut, if_neg hover]
    have h2 : reservedTailBytes items maxBytes e = appendBudget maxBytes := by
      rw [reservedTailBytes, if_neg hover]
    rw [h1, h2]
    rw [tailBytes_eq items e he] at hover
    exact ⟨by omega, Or.inl ⟨Nat.le_refl _, rfl⟩⟩

/-- **Base, notices and live tail together stay below the limit.** -/
theorem plan_bytes [Sha256] (s : SessionState) (items : List ProjectedItem) (maxBytes : Nat)
    (hmax : 4096 ≤ maxBytes) :
    valueBytes (projectedInput s items (plan items maxBytes)) + 2 ≤ maxBytes := by
  have hp := plan_spec items maxBytes
  generalize hpl : plan items maxBytes = p at hp
  have hlc : p.liveCut = liveCut items maxBytes p.epochStart := by rw [← hpl]; rfl
  obtain ⟨hlive, hcase⟩ := live_bytes items maxBytes p.epochStart
    (Nat.le_trans hp.epoch_le hp.live_le)
  rw [← hlc] at hlive hcase
  have hbase : bytes (slice items p.baseStart p.epochStart) ≤
      baseBudget items maxBytes p.epochStart := by
    rcases hp.base_fits with h | h
    · rw [h, slice_self, bytes_nil]; exact Nat.zero_le _
    · exact h
  have hold := valueBytes_olderNotices s items p
  have hnew := valueBytes_liveNotices s items p
  rw [valueBytes_projectedInput]
  rw [baseBudget, ← hlc] at hbase
  have happ : appendBudget maxBytes ≤ maxBytes - omissionNoticeReserveBytes := Nat.min_le_left _ _
  have hres : omissionNoticeReserveBytes = 2048 := rfl
  rw [hres] at hbase hcase happ
  have hold' : valueBytes (olderNotices s items p) ≤ 2046 := by split at hold <;> omega
  split at hnew
  · rename_i hcut
    rw [if_pos hcut] at hbase
    rcases hcase with ⟨_, h⟩ | h
    · omega
    · omega
  · rename_i hcut
    rw [if_neg hcut] at hbase
    rcases hcase with ⟨h, _⟩ | h
    · omega
    · omega

/-! ## the result -/

section
variable [Sha256]

theorem projectNative_ok (s : SessionState) (maxBytes : Nat) (hs : NoActivePending s)
    (hmax : 4096 ≤ maxBytes) :
    projectNative s maxBytes = .ok (nativeView s (repaired s.history (settledItems s)) maxBytes) ∧
      (toVec (.array (nativeView s (repaired s.history (settledItems s)) maxBytes).input)).length ≤
        maxBytes := by
  have hfit := plan_bytes s (repaired s.history (settledItems s)).items maxBytes hmax
  have hlen : (toVec (.array (nativeView s (repaired s.history (settledItems s)) maxBytes).input)).length
      ≤ maxBytes := by
    have h := toVec_array_length_le
      (projectedInput s (repaired s.history (settledItems s)).items
        (plan (repaired s.history (settledItems s)).items maxBytes))
    exact Nat.le_trans h (by rw [Nat.add_comm]; exact hfit)
  refine ⟨?_, hlen⟩
  unfold projectNative
  rw [if_neg (by omega), repairedItems_of_inactive s hs]
  show (if maxBytes < _ then _ else _) = _
  rw [if_neg (by omega)]
  rfl

/-- **Projection fits its budget and does not fail on it.** -/
theorem projectNative_fits (s : SessionState) (maxBytes : Nat) (hs : NoActivePending s)
    (hmax : 4096 ≤ maxBytes) :
    ∃ view, projectNative s maxBytes = .ok view ∧
      (toVec (.array view.input)).length ≤ maxBytes :=
  ⟨_, (projectNative_ok s maxBytes hs hmax).1, (projectNative_ok s maxBytes hs hmax).2⟩

end

/-! a history above its limit -/

def sessionAt (history : List Value) (settled : Nat) : SessionState :=
  { plainSession ⟨⟨1⟩⟩ history with settledHistoryItems := settled }

theorem noActivePending_sessionAt (history : List Value) (settled : Nat) :
    NoActivePending (sessionAt history settled) := by
  intro id
  have hnone : (sessionAt history settled).toolCalls[id]? = none := Std.ExtTreeMap.getElem?_empty
  rw [activePending, hnone]

def callItem (id : String) : Value :=
  .object [("arguments", .string "\x7b\x7d"), ("call_id", .string id), ("name", .string "read_file"),
    ("type", .string "function_call")]

def messageItem (role content : String) : Value :=
  .object [("content", .string content), ("role", .string role)]

/-- a text of `n` bytes -/
def longText (n : Nat) : String := String.ofList (List.replicate n 'x')

theorem escapedLength_longText (n : Nat) : escapedLength (longText n) = n := by
  rw [escapedLength, longText, String.toList_ofList]
  induction n with
  | zero => rfl
  | succ n ih =>
    rw [List.replicate_succ, List.flatMap_cons, utf8Length_append, ih]
    show 1 + n = n + 1
    omega

theorem size_messageItem (role content : String) :
    (messageItem role content).size = escapedLength role + escapedLength content + 24 := by
  have h1 : escapedLength "content" = 7 := by decide
  have h2 : escapedLength "role" = 4 := by decide
  rw [messageItem, size_object, List.map_cons, List.map_cons, List.map_nil, List.sum_cons,
    List.sum_cons, List.sum_nil, fieldSize, fieldSize, h1, h2, size_string, size_string]
  omega

theorem mark_messageItem (role content : String) : mark (messageItem role content) = .neutral := by
  simp [mark, messageItem, Value.index, Value.get, lookup, Value.asStr]

theorem plan_of_fits (items : List ProjectedItem) (maxBytes : Nat)
    (h : bytes (items.drop (stableEnd items)) ≤ appendBudget maxBytes) :
    plan items maxBytes = ⟨stableEnd items, stableEnd items, suffixStart items (sizes items) 0
      (stableEnd items) (maxBytes - appendBudget maxBytes - omissionNoticeReserveBytes)⟩ := by
  have hepoch : cacheEpochStart items (sizes items) (stableEnd items) items.length
      (appendBudget maxBytes) = stableEnd items := cacheEpochStart_of_fits items _ _ h
  have htail : ¬ appendBudget maxBytes < tailBytes items (stableEnd items) := by
    rw [tailBytes_eq items _ (stableEnd_le items)]
    omega
  have hlive : liveCut items maxBytes (stableEnd items) = stableEnd items := by
    rw [liveCut, if_neg htail]
  have hbudget : baseBudget items maxBytes (stableEnd items) =
      maxBytes - appendBudget maxBytes - omissionNoticeReserveBytes := by
    rw [baseBudget, hlive, reservedTailBytes, if_neg htail, if_neg (Nat.lt_irrefl _)]
    omega
  rw [plan, hepoch, hlive, hbudget]

/-- a long old message, a short one, and after the settled boundary a call with its result -/
def overfull : List Value :=
  [messageItem "user" (longText 40000), messageItem "user" "hi", callItem "a", outputItem "a" "done"]

theorem plan_drops (x y : ProjectedItem) (live : List ProjectedItem) (hx : x.stable = true)
    (hy : y.stable = true) (hlive : live.takeWhile (·.stable) = []) (hmark : x.mark = .neutral)
    (hlong : 40000 < x.value.size) (hshort : y.value.size ≤ 400)
    (hfit : bytes live ≤ appendBudget 40000) :
    plan (x :: y :: live) 40000 = ⟨2, 2, 1⟩ := by
  have hend : stableEnd (x :: y :: live) = 2 := by simp [stableEnd, hx, hy, hlive]
  have hroom : 40000 - appendBudget 40000 - omissionNoticeReserveBytes = 5184 := by decide
  have hs (k : Nat) (hk : k ≤ 2) : sizeAt (sizes (x :: y :: live)) 2 -
      sizeAt (sizes (x :: y :: live)) k = bytes (slice (x :: y :: live) k 2) :=
    sizeAt_sub _ k 2 hk (by simp)
  have hboth : bytes (slice (x :: y :: live) 0 2) = x.value.size + 1 + (y.value.size + 1) := by
    simp [slice, bytes]
  have hkept : bytes (slice (x :: y :: live) 1 2) = y.value.size + 1 := by simp [slice, bytes]
  rw [plan_of_fits _ _ (by rw [hend]; exact hfit), hend, hroom, suffixStart]
  show Plan.mk 2 2 (suffixLoop _ 2 5184 [x, y] 0 ∅) = _
  rw [suffixLoop, hs 0 (by omega), hboth, if_pos (Or.inl (by omega)), hmark, suffixLoop,
    hs 1 (by omega), hkept, if_neg]
  rw [not_or]
  exact ⟨by omega, by simp [Pairs.step]⟩

theorem plan_overfull (live : List ProjectedItem) (hlive : live.takeWhile (·.stable) = [])
    (hfit : bytes live ≤ appendBudget 40000) :
    plan (⟨messageItem "user" (longText 40000), some 0, true⟩ ::
      ⟨messageItem "user" "hi", some 1, true⟩ :: live) 40000 = ⟨2, 2, 1⟩ := by
  have hshort : (messageItem "user" "hi").size ≤ 400 := by decide
  refine plan_drops _ _ live rfl rfl hlive (mark_messageItem _ _) ?_ hshort hfit
  show 40000 < (messageItem "user" (longText 40000)).size
  rw [size_messageItem, escapedLength_longText]
  omega

theorem repaired_overfull : (repaired overfull 2).items =
    [⟨messageItem "user" (longText 40000), some 0, true⟩, ⟨messageItem "user" "hi", some 1, true⟩,
      ⟨callItem "a", some 2, false⟩, ⟨outputItem "a" "done", some 3, false⟩] := rfl

/-- the long message is dropped and a notice stands for it; the short one and the pair stay -/
theorem projectNative_fits_overfull :
    NoActivePending (sessionAt overfull 2) ∧ 4096 ≤ 40000 ∧
      40000 < (toVec (.array overfull)).length ∧
      ∃ view, @projectNative Sha256.standard (sessionAt overfull 2) 40000 = .ok view ∧
        (toVec (.array view.input)).length ≤ 40000 ∧
        ∃ epochHistory, view.input = [messageItem "user" "hi",
          olderNotice ⟨⟨1⟩⟩ 1 1 2 epochHistory, callItem "a", outputItem "a" "done"] := by
  have hmax : 4096 ≤ 40000 := by decide
  have hplan : plan (repaired overfull 2).items 40000 = ⟨2, 2, 1⟩ := by
    rw [repaired_overfull]
    exact plan_overfull _ rfl (by decide)
  obtain ⟨view, hview, hlen⟩ := @projectNative_fits Sha256.standard (sessionAt overfull 2) 40000
    (noActivePending_sessionAt _ _) hmax
  refine ⟨noActivePending_sessionAt _ _, hmax, ?_, view, hview, hlen, ?_⟩
  · rw [overfull, toVec_array_length, List.map_cons, List.sum_cons, size_messageItem,
      escapedLength_longText]
    omega
  · have hok := (@projectNative_ok Sha256.standard (sessionAt overfull 2) 40000
      (noActivePending_sessionAt _ _) hmax).1
    rw [hok] at hview
    obtain rfl := Except.ok.inj hview
    refine ⟨@epochHistory Sha256.standard (sessionAt overfull 2) (repaired overfull 2).items
      ⟨2, 2, 1⟩, ?_⟩
    show @projectedInput Sha256.standard (sessionAt overfull 2) (repaired overfull 2).items
      (plan (repaired overfull 2).items 40000) = _
    rw [hplan]
    rfl

section
variable [Sha256]

theorem projectedInput_whole (s : SessionState) (items : List ProjectedItem) (p : Plan)
    (hb : p.baseStart = 0) (hl : p.liveCut = p.epochStart) :
    projectedInput s items p = items.map (·.value) := by
  rw [projectedInput, olderNotices, if_neg (by omega), liveNotices, if_neg (by omega),
    stableRetained, hb, hl, slice_zero, List.append_nil, List.append_nil, ← List.map_append,
    List.take_append_drop]

end

/-! ## the size of a placeholder -/

theorem fits_lostOutput : Fits lostOutput 270 := by
  have h1 : Fits "\x7b\"status\":\"unknown\",\"context_only\":true," 49 := fits_ofList (by decide)
  have h2 : Fits "\"reason\":\"The original request ended " 41 := fits_ofList (by decide)
  have h3 : Fits "without a journaled tool result. " 33 := fits_ofList (by decide)
  have h4 : Fits "This placeholder is not execution " 34 := fits_ofList (by decide)
  have h5 : Fits "or verification evidence. " 26 := fits_ofList (by decide)
  have h6 : Fits "Inspect task_status for " 24 := fits_ofList (by decide)
  have h7 : Fits "authoritative recovery state.\"\x7d" 33 := fits_ofList (by decide)
  exact Nat.le_trans ((((((h1.append h2).append h3).append h4).append h5).append h6).append h7)
    (by decide)

theorem size_outputItem (id output : String) :
    (outputItem id output).size = escapedLength id + escapedLength output + 56 := by
  have h1 : escapedLength "call_id" = 7 := by decide
  have h2 : escapedLength "output" = 6 := by decide
  have h3 : fieldSize ("type", .string "function_call_output") = 30 := by decide
  rw [outputItem, size_object, List.map_cons, List.map_cons, List.map_cons, List.map_nil,
    List.sum_cons, List.sum_cons, List.sum_cons, List.sum_nil, h3, fieldSize, fieldSize, h1, h2,
    size_string, size_string]
  omega

theorem size_placeholder (id : String) : (placeholder id).size ≤ escapedLength id + 326 := by
  rw [placeholder, size_outputItem, Nat.add_assoc]
  exact Nat.add_le_add_left (Nat.add_le_add_right fits_lostOutput 56) _

end Orvek
