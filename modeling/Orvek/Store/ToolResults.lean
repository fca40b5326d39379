import Orvek.Store.Host

/-!
# Tool results in parts

A tool result that does not fit one event is journaled as parts and an end.  The parts are cut by
bytes, at character boundaries, and the session puts them together again:

* `EncodesResults`            the JSON of the events of a tool result;
* `parts_small`, `part_fits`  a part has at most 64 KiB, and its event fits the journal;
* `chunked_end`               what the parts and the end of a result leave of a session;
* `Settled`                   between two commands no part of a result is left;
* `toolResult_lossless`       the journal of the parts gives the session of the result itself.
-/

set_option linter.unusedSectionVars false

namespace Orvek
open Checks Json

/-! ## the parts of a text -/

theorem takeBytes_length (n : Nat) (cs : List Char) : utf8Length (takeBytes n cs).1 ≤ n := by
  induction cs generalizing n with
  | nil => exact Nat.zero_le _
  | cons c cs ih =>
    rw [takeBytes]
    split
    · have := ih (n - c.utf8Size)
      show utf8Length (c :: (takeBytes (n - c.utf8Size) cs).1) ≤ n
      rw [utf8Length_cons]
      omega
    · exact Nat.zero_le _

theorem parts_small {fuel : Nat} {cs : List Char} :
    ∀ part ∈ textParts fuel cs, part ≠ "" ∧ strLen part ≤ partBytes := by
  induction fuel generalizing cs with
  | zero => exact fun _ h => nomatch h
  | succ fuel ih =>
    cases cs with
    | nil => exact fun _ h => nomatch h
    | cons c cs =>
      intro part h
      rw [textParts] at h
      rcases List.mem_cons.mp h with rfl | h
      · refine ⟨fun h0 => ?_, ?_⟩
        · have hsize : c.utf8Size ≤ partBytes := by
            have := c.utf8Size_le_four
            unfold partBytes
            omega
          have hnil := String.ofList_eq_empty_iff.mp h0
          rw [takeBytes, if_pos hsize] at hnil
          cases hnil
        · rw [strLen_eq, String.toList_ofList]
          exact takeBytes_length _ _
      · exact ih part h

/-! ## the events of a result -/

def taggedJson (kind : String) (data : Value) : Value :=
    .object [("type", .string kind), ("data", data)]

/-- the JSON of the commands that carry a tool result -/
def SessionCommand.resultJson {V : Type} : SessionCommand V → Option Value
  | .toolResult request callId output => some (taggedJson "tool_result" (.object
      [("request", .string request.display), ("call_id", .string callId),
        ("output", .string output)]))
  | .toolResultPart request callId offset output => some (taggedJson "tool_result_part" (.object
      [("request", .string request.display), ("call_id", .string callId),
        ("offset", .number (showUsize offset)), ("output", .string output)]))
  | .toolResultEnd request callId digest => some (taggedJson "tool_result_end" (.object
      [("request", .string request.display), ("call_id", .string callId),
        ("digest", .string digest.display)]))
  | _ => none

def commandJson (operation : Uuid) (command : Value) (atMs : Nat) : Value :=
  taggedJson "command" (.object [("operation", .string operation.display), ("command", command),
    ("at_ms", .number (showUsize atMs))])

section
variable [Sha256] [ContractCodec] [SessionCodec] [StoreCodec] [JsonReader]

/-- the events of tool results are written as the derived encoding of their types -/
def EncodesResults : Prop := ∀ (operation : Uuid) (c : SessionCommand StoredView) (atMs : Nat)
    (v : Value),
  c.resultJson = some v →
    StoreCodec.sessionEvent (.command operation c atMs) = toVec (commandJson operation v atMs)

end

/-! ### their sizes -/

theorem length_le_strLen (s : String) : s.length ≤ strLen s := by
  rw [strLen_eq, ← String.length_toList]
  induction s.toList with
  | nil => exact Nat.le_refl _
  | cons c cs ih =>
    have := c.utf8Size_pos
    rw [utf8Length_cons, List.length_cons]
    omega

theorem escapedLength_le (s : String) : escapedLength s ≤ 6 * strLen s :=
  Nat.le_trans (fits_of_length s) (Nat.mul_le_mul_left 6 (length_le_strLen s))

theorem utf8Size_le_escapeChar (c : Char) : c.utf8Size ≤ utf8Length (escapeChar c) := by
  unfold escapeChar
  split
  · subst_vars
    decide
  split
  · subst_vars
    decide
  have ascii (hc : c.toNat < 32) : c.utf8Size = 1 := Char.utf8Size_eq_one_iff.mpr (by
    show c.val.toNat ≤ 127
    have : c.toNat = c.val.toNat := rfl
    omega)
  iterate 5
    split
    · rw [ascii (by omega)]
      decide
  split
  · rename_i hc
    rw [ascii hc]
    simp only [utf8Length_cons]
    have : Char.utf8Size '\\' = 1 := rfl
    omega
  · exact Nat.le_refl _

theorem strLen_le_escapedLength (s : String) : strLen s ≤ escapedLength s := by
  rw [strLen_eq, escapedLength]
  induction s.toList with
  | nil => exact Nat.le_refl _
  | cons c cs ih =>
    have hc : c.utf8Size ≤ utf8Length (escapeChar c) := utf8Size_le_escapeChar c
    rw [List.flatMap_cons, utf8Length_append, utf8Length_cons]
    omega

theorem size_number (n : Nat) : (Value.number (showUsize n)).size ≤ 80 := by
  have h : ∀ cs : List Char, utf8Length cs ≤ 4 * cs.length := by
    intro cs
    induction cs with
    | nil => exact Nat.le_refl _
    | cons c cs ih =>
      have := c.utf8Size_le_four
      rw [utf8Length_cons, List.length_cons]
      omega
  have hlen := length_showUsize n
  rw [← String.length_toList] at hlen
  exact Nat.le_trans (h (showUsize n).toList) (by omega)

theorem escapedLength_uuid (u : Uuid) : escapedLength u.display ≤ 216 := fits_session ⟨u⟩

theorem size_taggedJson (kind : String) (data : Value) :
    (taggedJson kind data).size = escapedLength kind + data.size + 19 := by
  have h1 : escapedLength "type" = 4 := by decide
  have h2 : escapedLength "data" = 4 := by decide
  rw [taggedJson, size_object, List.map_cons, List.map_cons, List.map_nil, List.sum_cons,
    List.sum_cons,
    List.sum_nil, fieldSize, fieldSize, h1, h2, size_string]
  dsimp only
  omega

theorem size_commandJson (operation : Uuid) (command : Value) (atMs : Nat) :
    command.size ≤ (commandJson operation command atMs).size ∧
      (commandJson operation command atMs).size ≤ command.size + 400 := by
  have h1 : escapedLength "operation" = 9 := by decide
  have h2 : escapedLength "command" = 7 := by decide
  have h3 : escapedLength "at_ms" = 5 := by decide
  have h4 := escapedLength_uuid operation
  have h5 := size_number atMs
  rw [commandJson, size_taggedJson, size_object, List.map_cons, List.map_cons, List.map_cons,
    List.map_nil,
    List.sum_cons, List.sum_cons, List.sum_cons, List.sum_nil, fieldSize, fieldSize, fieldSize, h1,
      h2, h3,
    size_string]
  dsimp only
  omega

theorem size_end (request : Uuid) (callId : String) (digest : Digest) {v : Value}
    (h : (SessionCommand.toolResultEnd request callId digest :
      SessionCommand StoredView).resultJson = some v) :
    v.size ≤ 6 * strLen callId + 1000 := by
  cases h
  have h1 : escapedLength "request" = 7 := by decide
  have h2 : escapedLength "call_id" = 7 := by decide
  have h3 : escapedLength "digest" = 6 := by decide
  have h4 : escapedLength "tool_result_end" = 15 := by decide
  have h5 := escapedLength_uuid request
  have h6 := escapedLength_le callId
  have h7 : escapedLength digest.display ≤ 384 := fits_digest digest
  rw [size_taggedJson, size_object, List.map_cons, List.map_cons, List.map_cons, List.map_nil,
    List.sum_cons,
    List.sum_cons, List.sum_cons, List.sum_nil, fieldSize, fieldSize, fieldSize, h1, h2, h3, h4,
    size_string, size_string, size_string]
  omega

theorem size_result (request : Uuid) (callId output : String) {v : Value}
    (h : (SessionCommand.toolResult request callId output : SessionCommand StoredView).resultJson =
    some v) :
    strLen output ≤ v.size ∧ v.size ≤ 6 * strLen callId + 6 * strLen output + 500 := by
  cases h
  have h1 : escapedLength "request" = 7 := by decide
  have h2 : escapedLength "call_id" = 7 := by decide
  have h3 : escapedLength "output" = 6 := by decide
  have h4 : escapedLength "tool_result" = 11 := by decide
  have h5 := escapedLength_uuid request
  have h6 := escapedLength_le callId
  have h7 := escapedLength_le output
  have h8 := strLen_le_escapedLength output
  rw [size_taggedJson, size_object, List.map_cons, List.map_cons, List.map_cons, List.map_nil,
    List.sum_cons,
    List.sum_cons, List.sum_cons, List.sum_nil, fieldSize, fieldSize, fieldSize, h1, h2, h3, h4,
    size_string, size_string, size_string]
  omega

theorem size_part (request : Uuid) (callId : String) (offset : Nat) (output : String) {v : Value}
    (h : (SessionCommand.toolResultPart request callId offset output :
      SessionCommand StoredView).resultJson = some v) :
    v.size ≤ 6 * strLen callId + 6 * strLen output + 500 := by
  cases h
  have h1 : escapedLength "request" = 7 := by decide
  have h2 : escapedLength "call_id" = 7 := by decide
  have h3 : escapedLength "offset" = 6 := by decide
  have h4 : escapedLength "output" = 6 := by decide
  have h5 : escapedLength "tool_result_part" = 16 := by decide
  have h6 := escapedLength_uuid request
  have h7 := size_number offset
  have h8 := escapedLength_le callId
  have h9 := escapedLength_le output
  rw [size_taggedJson, size_object, List.map_cons, List.map_cons, List.map_cons, List.map_cons,
    List.map_nil,
    List.sum_cons, List.sum_cons, List.sum_cons, List.sum_cons, List.sum_nil, fieldSize, fieldSize,
    fieldSize, fieldSize, h1, h2, h3, h4, h5, size_string, size_string, size_string]
  dsimp only
  omega

section
variable [Sha256] [ContractCodec] [SessionCodec] [StoreCodec] [JsonReader]
variable {db db' : Db} {w w' : World} {env : Env} {s t u : SessionState}
  {operation request : Uuid} {callId output : String} {offset : Nat} {parts : List String}
variable {c : SessionCommand ContextView} {part : String} {b : ToolOutputBuffers} {frames : List Frame}

theorem event_size (henc : EncodesResults) {c : SessionCommand StoredView} {v : Value}
    (hv : c.resultJson = some v) (atMs : Nat) :
    v.size ≤ (SessionEvent.command operation c atMs).document.bytes.length ∧
      (SessionEvent.command operation c atMs).document.bytes.length ≤ v.size + 400 := by
  have hbytes : (SessionEvent.command operation c atMs).document.bytes.length =
      (commandJson operation v atMs).size := by
    show (StoreCodec.sessionEvent _).length = _
    rw [henc operation c atMs v hv, toVec_length]
  rw [hbytes]
  exact size_commandJson operation v atMs

/-- **The event of a part fits**, whatever its characters are escaped to. -/
theorem part_fits (henc : EncodesResults) (hid : strLen callId ≤ 256) (hpart : strLen part ≤ partBytes)
    (atMs : Nat) :
    (SessionEvent.command operation (SessionCommand.stored
      (.toolResultPart request callId offset part)) atMs).document.bytes.length ≤
        maxEventBytes := by
  have hsize := size_part request callId offset part rfl
  refine Nat.le_trans (event_size henc rfl atMs).2 ?_
  unfold partBytes at hpart
  unfold maxEventBytes
  omega

theorem end_fits (henc : EncodesResults) (hid : strLen callId ≤ 256) (digest : Digest)
    (atMs : Nat) :
    (SessionEvent.command operation (SessionCommand.stored
      (.toolResultEnd request callId digest)) atMs).document.bytes.length ≤ maxEventBytes := by
  have hsize := size_end request callId digest rfl
  refine Nat.le_trans (event_size henc rfl atMs).2 ?_
  unfold maxEventBytes
  omega

theorem output_ne (henc : EncodesResults) (hid : strLen callId ≤ 256) {atMs : Nat}
    (hlong : maxEventBytes < (SessionEvent.command operation
      (SessionCommand.stored (.toolResult request callId output)) atMs).document.bytes.length) :
    output ≠ "" := by
  rintro rfl
  have hsize := (size_result request callId "" rfl).2
  have hfits := Nat.le_trans hlong (event_size henc rfl atMs).2
  have hempty : strLen "" = 0 := rfl
  unfold maxEventBytes at hfits
  omega

/-! ## the session of the parts -/

/-- the session once some parts of a result are there -/
def SessionState.chunked (s : SessionState) (request : Uuid) (callId text : String) (n : Nat)
    (operations : BTreeMap Uuid Digest) : SessionState :=
  { s with
    toolOutputBuffers := s.toolOutputBuffers.insert callId ⟨request, text⟩
    revision := s.revision + n
    operations := operations }

theorem buffers_insert (b : ToolOutputBuffers) (callId : String) (x y : PendingOutput) :
    (b.insert callId x).insert callId y = b.insert callId y := by
  refine Std.ExtTreeMap.ext_getElem? fun k => ?_
  rw [Std.ExtTreeMap.getElem?_insert, Std.ExtTreeMap.getElem?_insert,
    Std.ExtTreeMap.getElem?_insert]
  split <;> rfl

def recordAll (operations : BTreeMap Uuid Digest) (frames : List Frame) : BTreeMap Uuid Digest :=
  frames.foldl (fun operations f => operations.insert f.1 f.2.digest) operations

theorem record_active (hactive : s.activeRequest = some request) (id : Uuid) (digest : Digest) :
    s.record id digest = { s with operations := s.operations.insert id digest, revision :=
      s.revision + 1 } := by
  rw [SessionState.record, hactive]
  rfl

theorem awaitsPart_of (hactive : s.activeRequest = some request)
    (hawaits : awaitsResult s request callId = true) :
    s.awaitsPart request callId = true := by
  rw [SessionState.awaitsPart, hactive, Bool.and_eq_true]
  exact ⟨beq_self_eq_true _, hawaits⟩

theorem append_none (hfree : b[callId]? = none) (hpart : part ≠ "") : b.append request callId 0 part = .ok
    (b.insert callId ⟨request, part⟩) := by
  rw [ToolOutputBuffers.append, refuseIf_of_not _ (by simp [hpart]), ok_bind, hfree]
  show (refuseIf (request ≠ request ∨ strLen "" ≠ 0) _ >>= _) = _
  rw [refuseIf_of_not _ (by simp [strLen]), ok_bind]
  show Except.ok (b.insert callId ⟨request, "" ++ part⟩) = _
  rw [String.empty_append]

theorem append_some {text : String} (hget : b[callId]? = some ⟨request, text⟩) (hpart : part ≠ "") :
    b.append request callId (strLen text) part = .ok (b.insert callId ⟨request, text ++ part⟩) := by
  have hmem : callId ∈ b := Std.ExtTreeMap.isSome_getElem?_iff_mem.mp (by rw [hget]; rfl)
  rw [ToolOutputBuffers.append, refuseIf_of_not _ (by simp [hpart, hmem]), ok_bind, hget]
  show (refuseIf (request ≠ request ∨ strLen text ≠ strLen text) _ >>= _) = _
  rw [refuseIf_of_not _ (by simp), ok_bind]
  rfl

theorem apply_part (hactive : s.activeRequest = some request)
    (hawaits : awaitsResult s request callId = true) {part : String} {b : ToolOutputBuffers}
    (happend : s.toolOutputBuffers.append request callId offset part = .ok b) :
    s.apply operation (.toolResultPart request callId offset part) = .ok { s with
      toolOutputBuffers := b
      operations := s.operations.insert operation
        (SessionCommand.digest (.toolResultPart request callId offset part))
      revision := s.revision + 1 } := by
  have hupdate : s.update operation (.toolResultPart request callId offset part) =
      .ok { s with toolOutputBuffers := b } := by
    rw [SessionState.update, if_pos (awaitsPart_of hactive hawaits), happend]
    rfl
  show (s.update operation _ >>= _) = _
  rw [hupdate, ok_bind]
  show Except.ok (SessionState.record _ operation _) = _
  rw [record_active (by exact hactive)]

theorem first_part (hactive : s.activeRequest = some request)
    (hawaits : awaitsResult s request callId = true) (hfree : s.toolOutputBuffers[callId]? = none)
    (hpart : part ≠ "") :
    s.apply operation (.toolResultPart request callId 0 part) = .ok (s.chunked request callId part 1
      (s.operations.insert operation (SessionCommand.digest
        (.toolResultPart request callId 0 part)))) :=
  apply_part hactive hawaits (append_none hfree hpart)

theorem next_part (hactive : s.activeRequest = some request)
    (hawaits : awaitsResult s request callId = true) {text : String} {n : Nat}
    {operations : BTreeMap Uuid Digest} (hpart : part ≠ "") :
    (s.chunked request callId text n operations).apply operation
        (.toolResultPart request callId (strLen text) part) =
      .ok (s.chunked request callId (text ++ part) (n + 1) (operations.insert operation
        (SessionCommand.digest (.toolResultPart request callId (strLen text) part)))) := by
  have hget : (s.chunked request callId text n operations).toolOutputBuffers[callId]? =
      some ⟨request, text⟩ := Std.ExtTreeMap.getElem?_insert_self
  have hone := @apply_part _ _ _ _ _ (s.chunked request callId text n operations) operation request
    callId
    (strLen text) hactive hawaits part _ (append_some hget hpart)
  rw [hone]
  show Except.ok { s with
    toolOutputBuffers := (s.toolOutputBuffers.insert callId _).insert callId _
    operations := _
    revision := _ } = _
  rw [buffers_insert]
  rfl

/-- **All parts of a text are put together again.** -/
theorem applyAll_parts (hactive : s.activeRequest = some request)
    (hawaits : awaitsResult s request callId = true) (hparts : ∀ part ∈ parts, part ≠ "")
    (text : String) (n : Nat) (operations : BTreeMap Uuid Digest) :
    (s.chunked request callId text n operations).applyAll
        (partFrames operation request callId (strLen text) parts) =
      .ok (s.chunked request callId (text ++ String.join parts) (n + parts.length)
        (recordAll operations (partFrames operation request callId (strLen text) parts))) := by
  induction parts generalizing text n operations with
  | nil =>
    rw [String.join_nil, String.append_empty]
    rfl
  | cons part parts ih =>
    have hone : (s.chunked request callId text n operations).apply
        (partOperation operation (strLen text))
          (.toolResultPart request callId (strLen text) part) = .ok _ :=
      next_part hactive hawaits (hparts part List.mem_cons_self)
    show (SessionState.apply _ _ _ >>= fun t => SessionState.applyAll t _) = _
    rw [hone, ok_bind]
    have hlen : strLen text + strLen part = strLen (text ++ part) :=
      (String.utf8ByteSize_append).symm
    show SessionState.applyAll _ (partFrames operation request callId (strLen text + strLen part)
      parts) = _
    rw [hlen, ih (fun q hq => hparts q (List.mem_cons_of_mem _ hq)), String.join_cons,
      String.append_assoc,
      List.length_cons, Nat.add_right_comm, ← Nat.add_assoc]
    show _ = Except.ok (SessionState.chunked _ _ _ _ _
      (recordAll _ (partFrames operation request callId
      (strLen text + strLen part) parts)))
    rw [hlen]

def SessionState.answered (s : SessionState) (operation request : Uuid) (callId output : String) :
    SessionState :=
  { s with
    toolCalls := s.toolCalls.modify callId fun call =>
      { call with output := some (Digest.ofStr output) }
    history := s.history ++ [outputItem callId output]
    operations := s.operations.insert operation
      (SessionCommand.digest (.toolResult request callId output))
    revision := s.revision + 1 }

theorem apply_result (hactive : s.activeRequest = some request) :
    s.apply operation (.toolResult request callId output) =
      .ok (s.answered operation request callId output) := by
  show Except.ok (SessionState.record _ operation _) = _
  rw [record_active (by exact hactive)]
  rfl

theorem buffers_erase (hfree : b[callId]? = none) (x : PendingOutput) :
    (b.insert callId x).erase callId = b := by
  refine Std.ExtTreeMap.ext_getElem? fun k => ?_
  rw [Std.ExtTreeMap.getElem?_erase, Std.ExtTreeMap.getElem?_insert]
  split
  · rename_i h
    cases Std.LawfulEqCmp.eq_of_compare h
    rw [hfree]
  · rfl

theorem chunked_end (hactive : s.activeRequest = some request)
    (hfree : s.toolOutputBuffers[callId]? = none)
    (n : Nat) (operations : BTreeMap Uuid Digest) :
    (s.chunked request callId output n operations).apply operation
        (.toolResultEnd request callId (Digest.ofStr output)) =
      .ok { s.answered operation request callId output with
        operations := operations.insert operation
          (SessionCommand.digest (.toolResult request callId output))
        revision := s.revision + n + 1 } := by
  have hget : (s.chunked request callId output n operations).toolOutputBuffers[callId]? =
      some ⟨request, output⟩ := Std.ExtTreeMap.getElem?_insert_self
  have hfinish : (s.chunked request callId output n operations).toolOutputBuffers.finish request
    callId
      (Digest.ofStr output) = .ok (output, s.toolOutputBuffers) := by
    rw [ToolOutputBuffers.finish, hget]
    show (refuseIf _ _ >>= fun _ => Except.ok
      (output, (s.toolOutputBuffers.insert callId _).erase callId)) = _
    rw [refuseIf_of_not _ (by simp), ok_bind, buffers_erase hfree]
  have hchunk : ¬ (s.chunked request callId output n operations).activeRequest ≠ some request :=
    not_not.mpr hactive
  rw [SessionState.apply, refuseIf_of_not _ hchunk, ok_bind, hfinish]
  show Except.ok (SessionState.record _ operation _) = _
  rw [record_active (by exact hactive)]
  rfl

/-- the frames of a result that does not fit one event -/
def resultFrames (operation request : Uuid) (callId output : String) : List Frame :=
  partFrames operation request callId 0 (textParts output.toList.length output.toList) ++
    [(operation, .toolResultEnd request callId (Digest.ofStr output))]

theorem partFrames_length (operation request : Uuid) (callId : String) (offset : Nat)
    (parts : List String) :
    (partFrames operation request callId offset parts).length = parts.length := by
  induction parts generalizing offset with
  | nil => rfl
  | cons part parts ih =>
    rw [partFrames, List.length_cons, ih, List.length_cons]

theorem join_textParts (output : String) :
    String.join (textParts output.toList.length output.toList) = output := by
  rw [← String.toList_inj, String.toList_join]
  exact flatMap_textParts (Nat.le_refl _)

/-- **The frames of a result leave what the result leaves**, with a revision and an operation for
each part. -/
theorem applyAll_resultFrames (hactive : s.activeRequest = some request)
    (hawaits : awaitsResult s request callId = true) (hfree : s.toolOutputBuffers[callId]? = none)
    (hne : output ≠ "") :
    s.applyAll (resultFrames operation request callId output) =
      .ok { s.answered operation request callId output with
        operations := (recordAll s.operations (partFrames operation request callId 0
          (textParts output.toList.length output.toList))).insert operation
            (SessionCommand.digest (.toolResult request callId output))
        revision := s.revision + (resultFrames operation request callId output).length } := by
  have hsmall := @parts_small output.toList.length output.toList
  have hjoin := join_textParts output
  have hlength : (resultFrames operation request callId output).length =
      (textParts output.toList.length output.toList).length + 1 := by
    rw [resultFrames, List.length_append, partFrames_length]
    rfl
  rw [hlength, ← Nat.add_assoc]
  unfold resultFrames
  generalize textParts output.toList.length output.toList = parts at hsmall hjoin ⊢
  cases parts with
  | nil => exact absurd (String.join_nil.symm.trans hjoin).symm hne
  | cons part parts =>
    rw [String.join_cons] at hjoin
    have hfirst : s.apply (partOperation operation 0)
      (.toolResultPart request callId 0 part) = .ok _ :=
      first_part hactive hawaits hfree (hsmall part List.mem_cons_self).1
    have hrest : SessionState.applyAll _ (partFrames operation request callId (strLen part)
      parts) = .ok _ :=
      applyAll_parts hactive hawaits (fun q hq => (hsmall q (List.mem_cons_of_mem _ hq)).1) part 1
      (s.operations.insert (partOperation operation 0)
        (SessionCommand.digest (.toolResultPart request callId 0 part)))
    rw [hjoin, Nat.add_comm 1] at hrest
    refine applyAll_trans (t := s.chunked request callId output (parts.length + 1)
      (recordAll s.operations
      (partFrames operation request callId 0 (part :: parts)))) ?_ ?_
    · show (SessionState.apply _ _ _ >>= fun t => SessionState.applyAll t _) = _
      rw [hfirst, ok_bind, Nat.zero_add]
      exact hrest.trans (by rw [partFrames, Nat.zero_add]; rfl)
    · exact applyAll_one.mpr (chunked_end hactive hfree _ _)

/-! ## between two commands -/

/-- no part of a result is left, and the calls have the identifiers of admitted proposals -/
structure ResultsSettled (s : SessionState) : Prop where
  buffers : s.toolOutputBuffers = ∅
  ids : ∀ callId ∈ s.toolCalls, strLen callId ≤ 256

theorem mem_foldl_calls {α : Type} (ids : List String) (a : α) (m : BTreeMap String α) {k : String}
    (h : k ∈ ids.foldl (fun calls id => calls.insert id a) m) : k ∈ m ∨ k ∈ ids := by
  induction ids generalizing m with
  | nil => exact .inl h
  | cons id ids ih =>
    rcases ih _ h with h | h
    · rcases Std.ExtTreeMap.mem_insert.mp h with he | h
      · exact .inr (List.mem_cons.mpr (.inl (Std.LawfulEqCmp.eq_of_compare he).symm))
      · exact .inl h
    · exact .inr (List.mem_cons_of_mem _ h)

/-- the identifiers that a command adds -/
def SessionCommand.newCalls {V : Type} : SessionCommand V → List String
  | .response _ items => callIds items
  | _ => []

theorem ResultsSettled.apply (hs : ResultsSettled s) (h : s.apply operation c = .ok t)
    (hc : c.logical = true) (hnew : ∀ id ∈ c.newCalls, strLen id ≤ 256) : ResultsSettled t := by
  obtain ⟨v, _, hv, rfl, -⟩ := apply_applied h
  cases hv with
  | toolResultPart | toolResultEnd => cases hc
  | response request items =>
    refine ⟨hs.buffers, fun k hk => ?_⟩
    rcases mem_foldl_calls _ _ _ hk with hk | hk
    · exact hs.ids k hk
    · exact hnew k hk
  | toolResult request callId output =>
    exact ⟨hs.buffers, fun k hk => hs.ids k (Std.ExtTreeMap.mem_modify.mp hk)⟩
  | turnSettled request outcome error => exact ⟨rfl, hs.ids⟩
  | shellStarted job =>
    unfold SessionState.shellStarted
    cases job.task <;> exact ⟨hs.buffers, hs.ids⟩
  | _ => exact ⟨hs.buffers, hs.ids⟩

theorem ResultsSettled.applyAll (hs : ResultsSettled s) (hc : ∀ f ∈ frames, f.2.logical = true)
    (hnew : ∀ f ∈ frames, ∀ id ∈ f.2.newCalls, strLen id ≤ 256) (h : s.applyAll frames = .ok t) :
    ResultsSettled t := by
  induction frames generalizing s with
  | nil =>
    cases h
    exact hs
  | cons f frames ih =>
    obtain ⟨v, hv, h⟩ := applyAll_cons h
    exact ih (hs.apply hv (hc f List.mem_cons_self) (hnew f List.mem_cons_self))
      (fun g hg => hc g (List.mem_cons_of_mem f hg))
        (fun g hg => hnew g (List.mem_cons_of_mem f hg)) h

theorem mem_partFrames_part {f : Frame} (h : f ∈ partFrames operation request callId offset parts) :
    ∃ id offset part, f = (id, .toolResultPart request callId offset part) ∧ part ∈ parts := by
  induction parts generalizing offset with
  | nil => cases h
  | cons part parts ih =>
    rcases List.mem_cons.mp h with rfl | h
    · exact ⟨_, _, _, rfl, List.mem_cons_self⟩
    · obtain ⟨id, offset, q, he, hq⟩ := ih h
      exact ⟨id, offset, q, he, List.mem_cons_of_mem _ hq⟩

theorem apply_part_keeps {id : Uuid} (h : s.apply id (.toolResultPart request callId offset part) = .ok t) :
    t.toolCalls = s.toolCalls ∧ ∀ k, k ≠ callId →
      t.toolOutputBuffers[k]? = s.toolOutputBuffers[k]? := by
  obtain ⟨v, hv, rfl⟩ := applyPlain_ok (show s.applyPlain _ _ = _ from h)
  simp only [SessionState.update] at hv
  split at hv
  · split at hv
    · rename_i buffers happend
      cases hv
      obtain ⟨-, happend⟩ := refuseIf_bind happend
      obtain ⟨-, happend⟩ := refuseIf_bind happend
      cases happend
      refine ⟨rfl, fun k hk => ?_⟩
      show (s.toolOutputBuffers.insert callId _)[k]? = _
      rw [Std.ExtTreeMap.getElem?_insert, if_neg fun he => hk
        (Std.LawfulEqCmp.eq_of_compare he).symm]
    · cases hv
  · cases hv

theorem ResultsSettled.result (hs : ResultsSettled s)
    (h : s.applyAll (resultFrames operation request callId output) = .ok t) : ResultsSettled t := by
  obtain ⟨v, hparts, hend⟩ := applyAll_append h
  obtain ⟨hcalls, hbuffers⟩ : v.toolCalls = s.toolCalls ∧
      ∀ k, k ≠ callId → v.toolOutputBuffers[k]? = s.toolOutputBuffers[k]? := by
    refine applyAll_relation (R := fun s v => v.toolCalls = s.toolCalls ∧
      ∀ k, k ≠ callId → v.toolOutputBuffers[k]? = s.toolOutputBuffers[k]?)
        (fun _ => ⟨rfl, fun _ _ => rfl⟩)
      (fun h h' => ⟨h'.1.trans h.1, fun k hk => (h'.2 k hk).trans (h.2 k hk)⟩)
        (fun f hf a b hab => ?_) hparts
    obtain ⟨id, offset, part, rfl, -⟩ := mem_partFrames_part hf
    exact apply_part_keeps hab
  rcases apply_cases (applyAll_one.mp hend) with ⟨hne, -⟩ | ⟨_, id, text, u, he, -, hu, rfl⟩
  · exact absurd rfl (hne _ _ _)
  · obtain ⟨rfl, rfl, -⟩ := SessionCommand.toolResultEnd.inj he
    cases hu
    refine ⟨?_, fun k hk => ?_⟩
    · show v.toolOutputBuffers.erase callId = ∅
      refine Std.ExtTreeMap.ext_getElem? fun k => ?_
      rw [Std.ExtTreeMap.getElem?_erase, Std.ExtTreeMap.getElem?_empty]
      split
      · rfl
      · rename_i hk
        rw [hbuffers k fun he => hk (by rw [he]; exact Std.ReflCmp.compare_self), hs.buffers]
        exact Std.ExtTreeMap.getElem?_empty
    · have hk : k ∈ v.toolCalls := Std.ExtTreeMap.mem_modify.mp hk
      rw [hcalls] at hk
      exact hs.ids k hk

theorem admitProposals_ids {seen : List String} {items : List Value}
    (h : admitProposals s seen items = .ok ()) :
    ∀ id ∈ items.filterMap fun item => (item.index "call_id").asStr, strLen id ≤ 256 := by
  induction items generalizing seen with
  | nil => exact fun _ h => nomatch h
  | cons item items ih =>
    obtain ⟨id, hid, h⟩ := bind_ok h
    obtain ⟨-, h⟩ := refuseIf_bind h
    obtain ⟨-, h⟩ := refuseIf_bind h
    intro k hk
    obtain ⟨x, hx, hstr⟩ := List.mem_filterMap.mp hk
    rcases List.mem_cons.mp hx with rfl | hx
    · unfold proposalId at hid
      rw [hstr] at hid
      dsimp only at hid
      split at hid
      · cases hid
      · rename_i hguard
        exact Nat.not_lt.mp fun hlt => hguard (.inr hlt)
    · exact ih h k (List.mem_filterMap.mpr ⟨x, hx, hstr⟩)

theorem admitCommand_ids (h : admitCommand env s db c = .ok ()) : ∀ id ∈ c.newCalls, strLen id ≤ 256 := by
  cases c with
  | response request items =>
    obtain ⟨-, h⟩ := refuseIf_bind h
    exact admitProposals_ids h
  | _ => exact fun _ h => nomatch h

theorem linkFrames_results {content : List Value} {task : TaskId} :
    ∀ f ∈ linkFrames operation content task, f.2.logical = true ∧ f.2.newCalls = [] :=
  two_frames ⟨rfl, rfl⟩ ⟨rfl, rfl⟩

theorem CallPlan.results {call : HostCall} (h : CallPlan s call frames) :
    (∃ session revision operation c, call = .command session revision operation c) ∨
      ∀ f ∈ frames, f.2.logical = true ∧ f.2.newCalls = [] := by
  cases h with
  | nothing => exact .inr fun _ h => nomatch h
  | command => exact .inl ⟨_, _, _, _, rfl⟩
  | start => exact .inr linkFrames_results
  | resume => exact .inr linkFrames_results
  | «continue» => exact .inr linkFrames_results
  | edit => exact .inr fun f hf => List.mem_singleton.mp hf ▸ ⟨rfl, rfl⟩
  | submit => exact .inr fun f hf => List.mem_singleton.mp hf ▸ ⟨rfl, rfl⟩
  | beginShell => exact .inr fun f hf => List.mem_singleton.mp hf ▸ ⟨rfl, rfl⟩
  | move => exact .inr fun f hf => List.mem_singleton.mp hf ▸ ⟨rfl, rfl⟩
  | setStatus => exact .inr fun f hf => List.mem_singleton.mp hf ▸ ⟨rfl, rfl⟩
  | finishShell =>
    refine .inr fun f hf => ?_
    rcases List.mem_cons.mp hf with rfl | hf
    · exact ⟨rfl, rfl⟩
    · rcases List.mem_singleton.mp hf with rfl
      exact ⟨rfl, rfl⟩

theorem ResultsSettled.command (hs : ResultsSettled s) {c : SessionCommand ContextView}
    {frames : List Frame} (hframed : Framed operation c frames) (hc : c.logical = true)
    (hnew : ∀ id ∈ c.newCalls, strLen id ≤ 256) (h : s.applyAll frames = .ok t) :
    ResultsSettled t := by
  cases hframed with
  | one => exact hs.apply (applyAll_one.mp h) hc hnew
  | many request callId output => exact hs.result h

theorem direct_logical (h : (!c.reserved) = true) : c.logical = true := by
  cases c <;> first | rfl | cases h

/-- **Between two calls of the host no part of a result is left.** -/
theorem HostReachable.resultsSettled {admits : SessionState → HostCall → Prop}
    (h : HostReachable admits db w) {id : SessionId} (hs : w.sessions id = some s) :
    ResultsSettled s := by
  refine (HostRun.session_course (P := ResultsSettled) (R := fun _ _ => True)
    (fun id creation => ?_)
    (fun _ => trivial) (fun _ _ => trivial) (fun {s call frames s'} hsettled _ hdirect hplan hap
    hleaves => ?_)
    h represents_empty (fun _ _ h => nomatch h)).1 id s hs
  · exact ⟨rfl, fun k hk => absurd hk Std.ExtTreeMap.not_mem_empty⟩
  · refine ⟨?_, trivial⟩
    rcases hplan.results with ⟨session, revision, operation, c, rfl⟩ | hframes
    · obtain ⟨env, db, head, task, db', hl, hrun⟩ := hleaves
      obtain ⟨⟨u, db₁⟩, hcommand, hrun⟩ := bind_ok hrun
      cases hrun
      obtain ⟨v, head', hl', ⟨rfl, -, -⟩ | ⟨-, -, -, hadmitted, -⟩⟩ := sessionCommand_ok hcommand
      · cases hl.symm.trans hl'
        exact hsettled
      · cases hl.symm.trans hl'
        cases hplan with
        | nothing =>
          cases hap
          exact hsettled
        | start _ hstarts => cases hstarts
        | command hnew hframed =>
          exact hsettled.command hframed (direct_logical hdirect) (admitCommand_ids hadmitted) hap
    · exact hsettled.applyAll (fun f hf => (hframes f hf).1)
        (fun f hf id hid => by rw [(hframes f hf).2] at hid; cases hid) hap

/-! ## the append -/

theorem SessionLoaded.appendsSmall (h : Represents db w) {head : Digest} (hs : SessionLoaded db w s head)
    {atMs : Nat} (hap : s.apply operation c = .ok t) (hf : CommandFits s operation c atMs)
    (howned : c.ownedBy s) :
    ∃ hash db', appendSmall s head operation c atMs db = .ok (t, hash, db') ∧
      Represents db' (w.setSession t) ∧ SessionLoaded db' (w.setSession t) t hash := by
  obtain ⟨hash, db', happ, -⟩ := hs.appends h (fun _ => atMs) hap hf
  have hdone := hs.append h happ howned
  refine ⟨hash, db', ?_, hdone.represents, World.setSession_get w t, hdone.head⟩
  unfold appendSessionCommand at happ
  simp only [if_neg (Nat.not_lt.mpr hf.size)] at happ
  exact happ

theorem appendParts_ok (h : Represents db w) {head : Digest} (hs : SessionLoaded db w s head)
    (henc : EncodesResults) (hid : strLen callId ≤ 256)
    (hparts : ∀ part ∈ parts, strLen part ≤ partBytes)
    (hroom : s.revision + parts.length < 2 ^ 63) (clock : Nat → Nat) (n : Nat)
    (hap : s.applyAll (partFrames operation request callId offset parts) = .ok t) :
    ∃ hash db' w', appendParts operation request callId clock (s, head, db) n offset parts =
      .ok (t, hash, db') ∧ Represents db' w' ∧ SessionLoaded db' w' t hash := by
  induction parts generalizing s head db w n offset with
  | nil =>
    cases hap
    exact ⟨head, db, w, rfl, h, hs⟩
  | cons part parts ih =>
    rw [List.length_cons] at hroom
    obtain ⟨u, hu, hap⟩ := applyAll_cons hap
    have hfits : CommandFits s (partOperation operation offset)
      (.toolResultPart request callId offset part)
        (clock n) := ⟨part_fits henc hid (hparts part List.mem_cons_self) _, by omega⟩
    obtain ⟨g, db₁, happ, hr₁, hs₁⟩ := hs.appendsSmall h hu hfits trivial
    have hrev : u.revision = s.revision + 1 := (apply_keeps hu).2.1
    obtain ⟨hash, db', w', hrest, hdone⟩ := ih hr₁ hs₁
      (fun q hq => hparts q (List.mem_cons_of_mem _ hq))
      (by omega) (n + 1) hap
    refine ⟨hash, db', w', ?_, hdone⟩
    rw [appendParts, happ, ok_bind]
    exact hrest

theorem applyAll_revision (h : s.applyAll frames = .ok t) : t.revision = s.revision + frames.length := by
  induction frames generalizing s with
  | nil =>
    cases h
    rfl
  | cons f frames ih =>
    obtain ⟨u, hu, h⟩ := applyAll_cons h
    rw [ih h, (apply_keeps hu).2.1, List.length_cons]
    omega

theorem appendSessionCommand_parts (h : Represents db w) (hs : w.sessions s.id = some s)
    (henc : EncodesResults) (hid : strLen callId ≤ 256) {clock : Nat → Nat}
    (hlong : maxEventBytes < (SessionEvent.command operation
      (SessionCommand.stored (.toolResult request callId output)) (clock 0)).document.bytes.length)
    (hroom : s.revision + (resultFrames operation request callId output).length < 2 ^ 63)
    (hap : s.applyAll (resultFrames operation request callId output) = .ok t) :
    ∃ head hash db', loadSessionState db s.id none = .ok (s, head) ∧
      appendSessionCommand s head operation (.toolResult request callId output) clock db =
        .ok (t, hash, db') := by
  obtain ⟨head, hload⟩ := h.loadSession hs
  obtain ⟨v, hparts, hend⟩ := applyAll_append hap
  rw [resultFrames, List.length_append, partFrames_length, List.length_singleton] at hroom
  obtain ⟨g, db₁, w₁, happ, hr₁, hs₁⟩ := appendParts_ok h (SessionLoaded.of_load h hload).1 henc hid
    (fun part hp => (parts_small part hp).2) (by omega) clock 1 hparts
  have hrev : v.revision = s.revision + (textParts output.toList.length output.toList).length := by
    rw [applyAll_revision hparts, partFrames_length]
  have hfits : CommandFits v operation (.toolResultEnd request callId (Digest.ofStr output))
      (clock ((textParts output.toList.length output.toList).length + 1)) :=
    ⟨end_fits henc hid _ _, by omega⟩
  obtain ⟨hash, db', hlast, -⟩ := hs₁.appendsSmall hr₁ (applyAll_one.mp hend) hfits trivial
  refine ⟨head, hash, db', hload, ?_⟩
  unfold appendSessionCommand
  simp only [if_pos hlong, happ, ok_bind]
  exact hlast

theorem recordAll_get (frames : List Frame) (operations : BTreeMap Uuid Digest) {id : Uuid}
    (h : ∀ f ∈ frames, f.1 ≠ id) : (recordAll operations frames)[id]? = operations[id]? := by
  induction frames generalizing operations with
  | nil => rfl
  | cons f frames ih =>
    have hf : ¬ compare f.1 id = .eq := fun he => h f List.mem_cons_self
      (Std.LawfulEqCmp.eq_of_compare he)
    show (recordAll (operations.insert f.1 f.2.digest) frames)[id]? = _
    rw [ih _ fun g hg => h g (List.mem_cons_of_mem _ hg), Std.ExtTreeMap.getElem?_insert, if_neg hf]

/-- the parts of a text: cut at characters, none empty, none too long for its event, and together
the text -/
structure Cut (output : String) (parts : List String) : Prop where
  whole : String.join parts = output
  progress : ∀ part ∈ parts, part ≠ ""
  small : ∀ part ∈ parts, strLen part ≤ partBytes

/-- two sessions that differ in the revision and in the operations of the parts alone -/
structure SameBut (frames : List Frame) (s t : SessionState) : Prop where
  same : t = { s with revision := t.revision, operations := t.operations }
  operations : ∀ id, (∀ f ∈ frames, f.1 ≠ id) → t.operations[id]? = s.operations[id]?

/-- **Tool results are journaled without loss.**  In every session that the host can reach, a result
that a pending call waits for and that does not fit one event is cut into parts whose events fit, as
the event of its end does; the journal takes them while it has revisions left; and the session they
give is the one the result itself gives, with the revisions and the operations of the parts. -/
theorem toolResult_lossless (henc : EncodesResults) {admits : SessionState → HostCall → Prop}
    (h : HostReachable admits db w) (hs : w.sessions s.id = some s)
    (hactive : s.activeRequest = some request)
    (hawaits : awaitsResult s request callId = true) {clock : Nat → Nat}
    (hlong : maxEventBytes < (SessionEvent.command operation
      (SessionCommand.stored (.toolResult request callId output)) (clock 0)).document.bytes.length)
        :
    Cut output (textParts output.toList.length output.toList) ∧
    (∀ f ∈ resultFrames operation request callId output, ∀ atMs,
      (SessionEvent.command f.1 f.2.stored atMs).document.bytes.length ≤ maxEventBytes) ∧
    ∃ direct t, s.apply operation (.toolResult request callId output) = .ok direct ∧
      s.applyAll (resultFrames operation request callId output) = .ok t ∧
      SameBut (partFrames operation request callId 0
        (textParts output.toList.length output.toList)) direct t ∧
      t.operations[operation]? = direct.operations[operation]? ∧
      (s.revision + (resultFrames operation request callId output).length < 2 ^ 63 →
        ∃ head hash db', loadSessionState db s.id none = .ok (s, head) ∧
          appendSessionCommand s head operation (.toolResult request callId output) clock db =
            .ok (t, hash, db')) := by
  have hsettled := h.resultsSettled hs
  have hid : strLen callId ≤ 256 := by
    refine hsettled.ids callId (Std.ExtTreeMap.isSome_getElem?_iff_mem.mp ?_)
    unfold awaitsResult at hawaits
    cases hcall : s.toolCalls[callId]? with
    | none =>
      rw [hcall] at hawaits
      cases hawaits
    | some call => rfl
  have hfree : s.toolOutputBuffers[callId]? = none := by
    rw [hsettled.buffers]
    exact Std.ExtTreeMap.getElem?_empty
  have hne := output_ne henc hid hlong
  have hcut : Cut output (textParts output.toList.length output.toList) :=
    ⟨join_textParts output, fun part hp => (parts_small part hp).1,
      fun part hp => (parts_small part hp).2⟩
  have hfits : ∀ f ∈ resultFrames operation request callId output, ∀ atMs,
      (SessionEvent.command f.1 f.2.stored atMs).document.bytes.length ≤ maxEventBytes := by
    intro f hf atMs
    rcases List.mem_append.mp hf with hf | hf
    · obtain ⟨id, offset, part, rfl, hpart⟩ := mem_partFrames_part hf
      exact part_fits henc hid (hcut.small part hpart) atMs
    · rcases List.mem_singleton.mp hf with rfl
      exact end_fits henc hid _ atMs
  refine ⟨hcut, hfits, _, _, apply_result hactive,
    applyAll_resultFrames hactive hawaits hfree hne,
      ⟨rfl, fun id hfresh => ?_⟩, ?_, fun hroom => ?_⟩
  · show ((recordAll _ _).insert operation _)[id]? = (s.operations.insert operation _)[id]?
    rw [Std.ExtTreeMap.getElem?_insert, Std.ExtTreeMap.getElem?_insert, recordAll_get _ _ hfresh]
  · exact Std.ExtTreeMap.getElem?_insert_self.trans Std.ExtTreeMap.getElem?_insert_self.symm
  · exact appendSessionCommand_parts h.represents hs henc hid hlong hroom
      (applyAll_resultFrames hactive hawaits hfree hne)

end

/-! ## a long result of the example store -/

namespace ResultSample

scoped instance sha256 : Sha256 := Sample.sha256
scoped instance contractCodec : ContractCodec := Sample.contractCodec
scoped instance sessionCodec : SessionCodec := Sample.sessionCodec
scoped instance jsonReader : JsonReader := Sample.jsonReader

/-- a journal that writes out the events of results -/
scoped instance storeCodec : StoreCodec where
  taskEvent _ := []
  taskState _ := []
  sessionEvent
    | .command operation c atMs =>
      match c.resultJson with
      | some v => toVec (commandJson operation v atMs)
      | none => []
    | _ => []
  sessionState _ := .null

theorem encodesResults : EncodesResults := by
  intro operation c atMs v hv
  show (match c.resultJson with
    | some v => toVec (commandJson operation v atMs)
    | none => []) = _
  rw [hv]

abbrev anyCall : SessionState → HostCall → Prop := fun _ _ => True

variable {db : Db} {w : World} {s t : SessionState}

theorem sends (h : HostReachable anyCall db w) (hs : w.sessions s.id = some s) {operation : Uuid}
    {c : SessionCommand ContextView} (hap : s.apply operation c = .ok t)
    (hfits : CommandFits s operation c 0) (hnew : s.operations[operation]? = none)
    (hanswers : (c.answers.any fun request => s.activeRequest != some request) = false)
    (hadmitted : ∀ db, admitCommand Sample.env s db c = .ok ()) (hdirect : (!c.reserved) = true) :
    ∃ db', HostReachable anyCall db' (w.setSession t) := by
  obtain ⟨head, hload⟩ := h.represents.loadSession hs
  obtain ⟨hash, db', happ, -⟩ := (SessionLoaded.of_load h.represents hload).1.appends h.represents
    (Sample.env.appendClock 0) hap hfits
  have hcommand := sessionCommand_new hload hnew hanswers (hadmitted db) happ
  have hrun : (HostCall.command s.id s.revision operation c).run Sample.env db = .ok
    (none, t, db') := by
    rw [HostCall.run, hcommand, ok_bind]
  exact ⟨db', HostRun.step h (.call hrun hdirect fun _ _ _ => trivial)⟩

def opened : SessionState := SessionState.create Sample.sessionId Sample.creation

def request : Uuid := ⟨21⟩
def answer : Uuid := ⟨22⟩
def finish : Uuid := ⟨23⟩

def proposal : Value :=
  .object [("type", .string "function_call"), ("call_id", .string "call"),
    ("name", .string "shell"),
    ("arguments", .string "")]

def after (s : SessionState) (operation : Uuid) (c : SessionCommand ContextView) : SessionState :=
  match s.apply operation c with
  | .ok t => t
  | .error _ => s

def asked : SessionState := after opened request (.input .task [userItem "build"])
def waiting : SessionState := after asked answer (.response request [proposal])

theorem reachable_waiting : ∃ db w, HostReachable anyCall db w ∧
    w.sessions waiting.id = some waiting := by
  obtain ⟨db, hopen⟩ : ∃ db, createSessionSeeded Sample.env Sample.sessionId Sample.config
    Sample.profile
      none none false Db.empty = .ok (opened, db) := ⟨_, rfl⟩
  have hr : HostReachable anyCall db (World.empty.setSession opened) :=
    HostRun.step .refl (.create hopen)
  obtain ⟨db₁, hr₁⟩ := sends hr (World.setSession_get _ opened)
    (show opened.apply request (.input .task [userItem "build"]) = .ok asked from rfl)
    ⟨by decide, by decide⟩ (by decide +kernel) rfl (fun _ => rfl) rfl
  obtain ⟨db₂, hr₂⟩ := sends hr₁ (World.setSession_get _ asked)
    (show asked.apply answer (.response request [proposal]) = .ok waiting from rfl)
    ⟨by decide, by decide +kernel⟩ (by decide +kernel) (by decide +kernel) (fun _ => rfl) rfl
  exact ⟨db₂, _, hr₂, World.setSession_get _ waiting⟩

/-- a text that is longer than an event -/
def long : String := String.ofList (List.replicate (maxEventBytes + 1) 'x')

theorem strLen_long : strLen long = maxEventBytes + 1 := by
  have h : ∀ n, utf8Length (List.replicate n 'x') = n := by
    intro n
    induction n with
    | zero => rfl
    | succ n ih =>
      have hx : Char.utf8Size 'x' = 1 := rfl
      rw [List.replicate_succ, utf8Length_cons, ih, hx, Nat.add_comm]
  rw [strLen_eq, long, String.toList_ofList]
  exact h _

theorem toolResult_lossless_long : ∃ t, waiting.applyAll
    (resultFrames finish request "call" long) = .ok t ∧
    t.history = waiting.history ++ [outputItem "call" long] := by
  obtain ⟨db, w, hr, hs⟩ := reachable_waiting
  have hlong : maxEventBytes < (SessionEvent.command finish
      (SessionCommand.stored (.toolResult request "call" long)) 0).document.bytes.length := by
    have hsize := (size_result request "call" long rfl).1
    rw [strLen_long] at hsize
    exact Nat.le_trans hsize (event_size encodesResults rfl 0).1
  have hawaits : awaitsResult waiting request "call" = true := by decide +kernel
  obtain ⟨-, -, direct, t, hdirect, ht, hsame, -⟩ :=
    @toolResult_lossless _ _ _ _ _ _ _ _ finish _ _ _
    encodesResults _ hr hs (by decide +kernel) hawaits (fun _ => 0) hlong
  refine ⟨t, ht, ?_⟩
  rw [apply_result (by decide +kernel)] at hdirect
  cases hdirect
  rw [hsame.same]
  rfl

end ResultSample

end Orvek
