import Orvek.Store.Transactions

/-!
# The events of a command

A command is journaled as one event, or, when it is a tool result that does not fit one, as parts
and an end.  A `Frame` is what is journaled of it:

* `Framed`                        the frames of a command;
* `appendSessionCommand_frames`   an append applies them one after the other;
* `text_partFrames`               the parts put the text of the result together again;
* `Framed.recorded`               so that the operation is recorded with the digest of the command.
-/

set_option linter.unusedSectionVars false

namespace Orvek
open Checks Json

/-! ## the parts of a text -/

theorem takeBytes_append (n : Nat) (cs : List Char) : (takeBytes n cs).1 ++ (takeBytes n cs).2 = cs := by
  induction cs generalizing n with
  | nil => rfl
  | cons c cs ih =>
    rw [takeBytes]
    split
    · show c :: ((takeBytes (n - c.utf8Size) cs).1 ++ (takeBytes (n - c.utf8Size) cs).2) = c :: cs
      rw [ih]
    · rfl

theorem takeBytes_rest (c : Char) (cs : List Char) :
    (takeBytes partBytes (c :: cs)).2.length ≤ cs.length := by
  have hsize : c.utf8Size ≤ partBytes := by
    have := c.utf8Size_le_four
    unfold partBytes
    omega
  rw [takeBytes, if_pos hsize]
  have hlength := congrArg List.length (takeBytes_append (partBytes - c.utf8Size) cs)
  rw [List.length_append] at hlength
  show (takeBytes (partBytes - c.utf8Size) cs).2.length ≤ cs.length
  omega

/-- **The parts of a text are the text.** -/
theorem flatMap_textParts {fuel : Nat} {cs : List Char} (h : cs.length ≤ fuel) :
    (textParts fuel cs).flatMap String.toList = cs := by
  induction fuel generalizing cs with
  | zero =>
    rw [List.length_eq_zero_iff.mp (Nat.le_zero.mp h)]
    rfl
  | succ fuel ih =>
    cases cs with
    | nil => rfl
    | cons c cs =>
      have hrest := takeBytes_rest c cs
      rw [List.length_cons] at h
      rw [textParts, List.flatMap_cons, ih (by omega), String.toList_ofList, takeBytes_append]

section
variable [Sha256] [ContractCodec] [SessionCodec] [StoreCodec] [JsonReader]
variable {db db' : Db} {s s' : SessionState}
variable {operation request : Uuid} {callId : String} {offset : Nat} {parts : List String}
  {c : SessionCommand ContextView}

/-! ## frames -/

/-- an operation and the command that is journaled under it -/
abbrev Frame : Type := Uuid × SessionCommand ContextView

def SessionState.applyAll (s : SessionState) (frames : List Frame) : Except JsonError SessionState :=
  frames.foldlM (fun s f => s.apply f.1 f.2) s

variable {frames : List Frame}

theorem applyAll_cons {f : Frame} (h : s.applyAll (f :: frames) = .ok s') :
    ∃ t, s.apply f.1 f.2 = .ok t ∧ t.applyAll frames = .ok s' := bind_ok h

theorem applyAll_append {a b : List Frame} (h : s.applyAll (a ++ b) = .ok s') :
    ∃ t, s.applyAll a = .ok t ∧ t.applyAll b = .ok s' := by
  unfold SessionState.applyAll at h
  rw [List.foldlM_append] at h
  exact bind_ok h

theorem applyAll_one {f : Frame} : s.applyAll [f] = .ok s' ↔ s.apply f.1 f.2 = .ok s' := by
  constructor
  · intro h
    obtain ⟨t, ht, h⟩ := applyAll_cons h
    cases h
    exact ht
  · intro h
    show (s.apply f.1 f.2 >>= _) = _
    rw [h]
    rfl

theorem applyAll_trans {a b : List Frame} {t : SessionState} (ha : s.applyAll a = .ok t)
    (hb : t.applyAll b = .ok s') : s.applyAll (a ++ b) = .ok s' := by
  unfold SessionState.applyAll at ha hb ⊢
  rw [List.foldlM_append, ha]
  exact hb

theorem applyAll_relation {R : SessionState → SessionState → Prop} (hrefl : ∀ s, R s s)
    (htrans : ∀ {a b c}, R a b → R b c → R a c)
    (hstep : ∀ f ∈ frames, ∀ {s t : SessionState}, s.apply f.1 f.2 = .ok t → R s t)
    (h : s.applyAll frames = .ok s') : R s s' := by
  induction frames generalizing s with
  | nil =>
    cases h
    exact hrefl _
  | cons f frames ih =>
    obtain ⟨t, ht, h⟩ := applyAll_cons h
    exact htrans (hstep f List.mem_cons_self ht)
      (ih (fun g hg => hstep g (List.mem_cons_of_mem f hg)) h)

theorem applyAll_id (h : s.applyAll frames = .ok s') : s'.id = s.id :=
  applyAll_relation (R := fun s t => t.id = s.id) (fun _ => rfl) (fun h h' => h'.trans h)
    (fun _ _ _ _ hap => (apply_keeps hap).1) h

def partFrames (operation request : Uuid) (callId : String) : Nat → List String → List Frame
  | _, [] => []
  | offset, part :: parts =>
    (partOperation operation offset, .toolResultPart request callId offset part) ::
      partFrames operation request callId (offset + strLen part) parts

/-- the frames of a command: itself, or the parts and the end of a result that is too long -/
inductive Framed (operation : Uuid) : SessionCommand ContextView → List Frame → Prop
  | one (c : SessionCommand ContextView) : Framed operation c [(operation, c)]
  | many (request : Uuid) (callId output : String) {atMs atEnd : Nat}
      (hlong : maxEventBytes < (SessionEvent.command operation
        (SessionCommand.stored (.toolResult request callId output)) atMs).document.bytes.length)
      (hend : (SessionEvent.command operation (SessionCommand.stored
        (.toolResultEnd request callId (Digest.ofStr output))) atEnd).document.bytes.length ≤
          maxEventBytes) :
      Framed operation (.toolResult request callId output)
        (partFrames operation request callId 0 (textParts output.toList.length output.toList) ++
          [(operation, .toolResultEnd request callId (Digest.ofStr output))])

theorem appendParts_frames {head hash : Digest} {clock : Nat → Nat} {n : Nat}
    (h : appendParts operation request callId clock (s, head, db) n offset parts = .ok (s', hash, db')) :
    s.applyAll (partFrames operation request callId offset parts) = .ok s' := by
  induction parts generalizing s head db n offset with
  | nil =>
    cases h
    rfl
  | cons part parts ih =>
    rw [appendParts] at h
    obtain ⟨⟨t, g, db₁⟩, hone, h⟩ := bind_ok h
    show (s.apply _ _ >>= fun t => t.applyAll _) = _
    rw [(appendSmall_ok hone).1]
    exact ih h

/-- **An append applies the frames of its command.** -/
theorem appendSessionCommand_frames {head hash : Digest} {clock : Nat → Nat}
    (h : appendSessionCommand s head operation c clock db = .ok (s', hash, db')) :
    ∃ frames, Framed operation c frames ∧ s.applyAll frames = .ok s' := by
  unfold appendSessionCommand at h
  simp only at h
  split at h
  · rename_i hlong
    split at h
    · rename_i request callId output
      obtain ⟨⟨t, g, db₁⟩, hparts, h⟩ := bind_ok h
      obtain ⟨hap, hend, -⟩ := appendSmall_ok h
      exact ⟨_, .many request callId output hlong hend,
        applyAll_trans (appendParts_frames hparts) (applyAll_one.mpr hap)⟩
    · cases h
  · exact ⟨_, .one c, applyAll_one.mpr (appendSmall_ok h).1⟩

/-! ## the text of a result -/

def bufferText (s : SessionState) (callId : String) : String :=
  (s.toolOutputBuffers[callId]?.map (·.text)).getD ""

theorem update_part {part : String}
    (h : s.apply operation (.toolResultPart request callId offset part) = .ok s') :
    strLen (bufferText s callId) = offset ∧ bufferText s' callId = bufferText s callId ++ part := by
  obtain ⟨t, ht, rfl⟩ := applyPlain_ok (show s.applyPlain _ _ = _ from h)
  simp only [SessionState.update] at ht
  split at ht
  · split at ht
    · rename_i buffers hap
      cases ht
      obtain ⟨-, hap⟩ := refuseIf_bind hap
      obtain ⟨hguard, hap⟩ := refuseIf_bind hap
      cases hap
      rw [not_or, not_not, not_not] at hguard
      have htext : (s.toolOutputBuffers[callId]?.getD ⟨request, ""⟩).text = bufferText s callId := by
        unfold bufferText
        cases s.toolOutputBuffers[callId]? <;> rfl
      rw [htext] at hguard
      refine ⟨hguard.2, ?_⟩
      unfold bufferText
      simp [SessionState.record, htext, bufferText]
    · cases ht
  · cases ht

theorem text_partFrames (h : s.applyAll (partFrames operation request callId offset parts) = .ok s') :
    (parts = [] ∨ strLen (bufferText s callId) = offset) ∧
      (bufferText s' callId).toList = (bufferText s callId).toList ++ parts.flatMap String.toList := by
  induction parts generalizing s offset with
  | nil =>
    cases h
    exact ⟨.inl rfl, by simp⟩
  | cons part parts ih =>
    obtain ⟨t, ht, h⟩ := applyAll_cons h
    obtain ⟨hoffset, htext⟩ := update_part ht
    refine ⟨.inr hoffset, ?_⟩
    rw [(ih h).2, htext, String.toList_append, List.flatMap_cons, List.append_assoc]

/-- the event that ends a result names a digest, and is not shorter than the event of a result
without text -/
def EndsLonger : Prop := ∀ (operation request : Uuid) (callId : String) (atMs atEnd : Nat),
  (SessionEvent.command operation (SessionCommand.stored (.toolResult request callId "")) atMs).document.bytes.length ≤
    (SessionEvent.command operation
      (SessionCommand.stored (.toolResultEnd request callId (Digest.ofStr ""))) atEnd).document.bytes.length

def SessionCommand.logical {V : Type} : SessionCommand V → Bool
  | .toolResultPart .. => false
  | .toolResultEnd .. => false
  | _ => true

theorem mem_partFrames {f : Frame} (h : f ∈ partFrames operation request callId offset parts) :
    f.2.logical = false := by
  induction parts generalizing offset with
  | nil => cases h
  | cons part parts ih =>
    rcases List.mem_cons.mp h with rfl | h
    · rfl
    · exact ih h

theorem Framed.all {q : SessionCommand ContextView → Prop} (h : Framed operation c frames) (hc : q c)
    (hframing : ∀ c : SessionCommand ContextView, c.logical = false → q c) : ∀ f ∈ frames, q f.2 := by
  intro f hf
  cases h with
  | one =>
    cases List.mem_singleton.mp hf
    exact hc
  | many request callId output =>
    rcases List.mem_append.mp hf with hf | hf
    · exact hframing _ (mem_partFrames hf)
    · cases List.mem_singleton.mp hf
      exact hframing _ rfl

theorem insert_operations (s : SessionState) (operation : Uuid) (digest : Digest) :
    (s.operations.insert operation digest)[operation]? = some digest :=
  Std.ExtTreeMap.getElem?_insert_self

/-- **The operation of a command is recorded with its digest**, in one event or in many. -/
theorem Framed.recorded (h : Framed operation c frames) (hlogical : c.logical = true) (hends : EndsLonger)
    (hap : s.applyAll frames = .ok s') : s'.operations[operation]? = some c.digest := by
  cases h with
  | one =>
    have hone : s.apply operation c = .ok s' := applyAll_one.mp hap
    obtain ⟨digest, hops, hdigest⟩ := apply_operations hone
    have hne : ∀ request callId d, c ≠ .toolResultEnd request callId d := by
      rintro request callId d rfl
      cases hlogical
    rw [hops, hdigest hne, insert_operations]
  | @many request callId output atMs atEnd hlong hend =>
    obtain ⟨t, hparts, hap⟩ := applyAll_append hap
    obtain ⟨hfirst, htext⟩ := text_partFrames hparts
    rw [flatMap_textParts (Nat.le_refl _)] at htext
    rcases apply_cases (applyAll_one.mp hap) with ⟨hne, -⟩ | ⟨r, id, text, u, he, hcomplete, hu, rfl⟩
    · exact absurd rfl (hne _ _ _)
    · obtain ⟨rfl, rfl, -⟩ := SessionCommand.toolResultEnd.inj he
      have hbuffer : bufferText t callId = text := by
        rw [bufferText, hcomplete.2]
        rfl
      -- nothing was there before the first part
      have hempty : bufferText s callId = "" := by
        rcases hfirst with hnone | hzero
        · have hout : output = "" := by
            have := flatMap_textParts (Nat.le_refl output.toList.length)
            rw [hnone] at this
            exact String.toList_eq_nil_iff.mp this.symm
          subst hout
          have := hends operation request callId atMs atEnd
          omega
        · exact String.utf8ByteSize_eq_zero_iff.mp hzero
      have hsame : text = output := by
        rw [hbuffer, hempty] at htext
        exact String.toList_inj.mp (by simpa using htext)
      subst hsame
      show (u.operations.insert operation _)[operation]? = _
      rw [insert_operations]

end

end Orvek
