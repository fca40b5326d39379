import Orvek.Inference.Decoder

/-!
# Event streams

A provider answers with lines.  The lines that begin with `data:` make up the payload of an event,
and an empty line ends the event; the bytes come in chunks that are cut anywhere.

* `Sse.push`          the bytes of a chunk, one after the other;
* `reference`         the same on the lines of the whole stream;
* `feed_eq_push`      chunks are pushed like their concatenation;
* `push_reference`    which the reference describes;
* `feed_exact`        both for the decoder, and when a stream is too long.
-/

set_option linter.unusedSectionVars false

namespace Orvek.Inference
open Json

def lineFeed : UInt8 := 10
def carriageReturn : UInt8 := 13

/-- `slice::strip_prefix` -/
def stripPrefix (start l : List UInt8) : Option (List UInt8) :=
  if start <+: l then some (l.drop start.length) else none

def trimReturn (line : List UInt8) : List UInt8 :=
  if line.getLast? = some carriageReturn then line.dropLast else line

/-- what a line adds to the payload -/
def lineData (line : List UInt8) : Option (List UInt8) :=
  (stripPrefix (strBytes "data:") line).map fun data => (stripPrefix (strBytes " ") data).getD data

/-! ## the parser -/

structure Sse where
  line : List UInt8
  data : List UInt8
  eventBytes : Nat

def Sse.new : Sse := ⟨[], [], 0⟩

/-- where a push has come to: the parser, the listener, and whether the stream goes on -/
structure Pushed (σ : Type) where
  sse : Sse
  listener : σ
  result : Except FailureKind Bool

section
variable {σ : Type} (dispatch : σ → List UInt8 → σ × Except FailureKind Bool) (limit : Nat)
variable {line bytes open' : List UInt8}

namespace Sse

def endEvent (sse : Sse) (listener : σ) : Pushed σ :=
  if sse.data = [] then ⟨{ sse with line := [], eventBytes := 0 }, listener, .ok false⟩
  else
    let data := sse.data.dropLast
    match dispatch listener data with
    | (listener, .error e) => ⟨{ sse with data, eventBytes := 0 }, listener, .error e⟩
    | (listener, .ok true) => ⟨{ sse with data := [], eventBytes := 0 }, listener, .ok true⟩
    | (listener, .ok false) => ⟨Sse.new, listener, .ok false⟩

def pushByte (sse : Sse) (listener : σ) (byte : UInt8) : Pushed σ :=
  let sse := { sse with eventBytes := sse.eventBytes + 1 }
  if limit < sse.eventBytes then ⟨sse, listener, .error .sizeLimit⟩
  else if byte ≠ lineFeed then ⟨{ sse with line := sse.line ++ [byte] }, listener, .ok false⟩
  else
    let line := trimReturn sse.line
    if line = [] then Sse.endEvent dispatch { sse with line } listener
    else match lineData line with
      | some data => ⟨{ sse with line := [], data := sse.data ++ data ++ [lineFeed] }, listener,
          .ok false⟩
      | none => ⟨{ sse with line := [] }, listener, .ok false⟩

def push (sse : Sse) (listener : σ) : List UInt8 → Pushed σ
  | [] => ⟨sse, listener, .ok false⟩
  | byte :: bytes =>
    match sse.pushByte dispatch limit listener byte with
    | ⟨sse, listener, .ok false⟩ => push sse listener bytes
    | stopped => stopped

/-- chunk after chunk, until one stops -/
def feed (sse : Sse) (listener : σ) : List (List UInt8) → Pushed σ
  | [] => ⟨sse, listener, .ok false⟩
  | chunk :: chunks =>
    match sse.push dispatch limit listener chunk with
    | ⟨sse, listener, .ok false⟩ => feed sse listener chunks
    | stopped => stopped

end Sse

/-! ## the reference -/

/-- the lines that are ended by a line feed, and what comes after the last of them -/
def cutLines : List UInt8 → List (List UInt8) × List UInt8
  | [] => ([], [])
  | byte :: bytes =>
    if byte = lineFeed then ([] :: (cutLines bytes).1, (cutLines bytes).2)
    else match cutLines bytes with
      | ([], rest) => ([], byte :: rest)
      | (line :: lines, rest) => ((byte :: line) :: lines, rest)

def blockBytes (block : List (List UInt8)) : Nat := (block.map fun line => line.length + 1).sum

def dataOf (line : List UInt8) : Option (List UInt8) := lineData (trimReturn line)

def payload (block : List (List UInt8)) : Option (List UInt8) :=
  match block.filterMap dataOf with
  | [] => none
  | data :: more => some (more.foldl (fun joined data => joined ++ [lineFeed] ++ data) data)

/-- the block of lines so far, then the lines of the stream and what comes after them: an empty line
hands out the payload of its block, if it has one -/
def reference (block : List (List UInt8)) (listener : σ) (rest : List UInt8) :
    List (List UInt8) → σ × Except FailureKind Bool
  | [] => (listener, if limit < blockBytes block + rest.length then .error .sizeLimit else .ok
      false)
  | line :: lines =>
    if limit < blockBytes block + (line.length + 1) then (listener, .error .sizeLimit)
    else if trimReturn line = [] then
      match payload block with
      | none => reference [] listener rest lines
      | some data =>
        match dispatch listener data with
        | (listener, .ok false) => reference [] listener rest lines
        | stopped => stopped
    else reference (block ++ [line]) listener rest lines

/-! ## chunks -/

variable {dispatch limit} {sse : Sse} {listener : σ}

theorem push_cons (sse : Sse) (listener : σ) (byte : UInt8) (bytes : List UInt8) :
    sse.push dispatch limit listener (byte :: bytes) =
      match sse.pushByte dispatch limit listener byte with
      | ⟨sse, listener, .ok false⟩ => sse.push dispatch limit listener bytes
      | stopped => stopped := rfl

theorem push_append (a b : List UInt8) : sse.push dispatch limit listener (a ++ b) =
    match sse.push dispatch limit listener a with
    | ⟨sse, listener, .ok false⟩ => sse.push dispatch limit listener b
    | stopped => stopped := by
  induction a generalizing sse listener with
  | nil => rfl
  | cons byte a ih =>
    rw [List.cons_append, push_cons, push_cons]
    rcases sse.pushByte dispatch limit listener byte with ⟨sse', listener', _ | _ | _⟩
    · rfl
    · exact ih
    · rfl

/-- **Chunks are pushed like their concatenation.** -/
theorem feed_eq_push (chunks : List (List UInt8)) :
    sse.feed dispatch limit listener chunks = sse.push dispatch limit listener chunks.flatten := by
  induction chunks generalizing sse listener with
  | nil => rfl
  | cons chunk chunks ih =>
    rw [List.flatten_cons, push_append, Sse.feed]
    rcases sse.push dispatch limit listener chunk with ⟨sse', listener', _ | _ | _⟩
    · rfl
    · exact ih
    · rfl

/-! ## lines -/

def joinLines (lines : List (List UInt8)) : List UInt8 :=
    lines.flatMap fun line => line ++ [lineFeed]

theorem joinLines_cons (line : List UInt8) (lines : List (List UInt8)) (rest : List UInt8) :
    joinLines (line :: lines) ++ rest = line ++ lineFeed :: (joinLines lines ++ rest) := by
  rw [joinLines, List.flatMap_cons, ← joinLines, List.append_assoc, List.append_assoc]
  rfl

theorem cutLines_join (bytes : List UInt8) :
    bytes = joinLines (cutLines bytes).1 ++ (cutLines bytes).2 ∧
      (∀ line ∈ (cutLines bytes).1, lineFeed ∉ line) ∧ lineFeed ∉ (cutLines bytes).2 := by
  induction bytes with
  | nil => exact ⟨rfl, fun _ h => (nomatch h), fun h => (nomatch h)⟩
  | cons byte bytes ih =>
    obtain ⟨hjoin, hlines, hrest⟩ := ih
    rw [cutLines]
    split
    · rename_i he
      refine ⟨?_, fun line hline => ?_, hrest⟩
      · rw [joinLines_cons, ← hjoin, he]
        rfl
      · rcases List.mem_cons.mp hline with rfl | hline
        · exact fun h => nomatch h
        · exact hlines line hline
    · rename_i hne
      generalize cutLines bytes = cut at hjoin hlines hrest
      obtain ⟨lines, rest⟩ := cut
      have hfree : ∀ l : List UInt8, lineFeed ∉ l → lineFeed ∉ byte :: l := fun l hl h => by
        rcases List.mem_cons.mp h with h | h
        · exact hne h.symm
        · exact hl h
      cases lines with
      | nil =>
        refine ⟨?_, fun _ h => (nomatch h), hfree rest hrest⟩
        rw [hjoin]
        rfl
      | cons line lines =>
        refine ⟨?_, fun l hl => ?_, hrest⟩
        · dsimp only at hjoin ⊢
          rw [joinLines_cons] at hjoin ⊢
          rw [hjoin, List.cons_append]
        · rcases List.mem_cons.mp hl with rfl | hl
          · exact hfree line (hlines line List.mem_cons_self)
          · exact hlines l (List.mem_cons_of_mem _ hl)

theorem blockBytes_append (block : List (List UInt8)) (line : List UInt8) :
    blockBytes (block ++ [line]) = blockBytes block + (line.length + 1) := by
  rw [blockBytes, List.map_append, List.sum_append]
  rfl

/-! ## the parser on lines -/

def gathered (block : List (List UInt8)) : List UInt8 :=
  (block.filterMap dataOf).flatMap fun data => data ++ [lineFeed]

/-- the parser after the lines of a block and some bytes of the next line -/
def Sse.at (block : List (List UInt8)) (open' : List UInt8) : Sse :=
  ⟨open', gathered block, blockBytes block + open'.length⟩

theorem gathered_payload (block : List (List UInt8)) :
    payload block = if gathered block = [] then none else some (gathered block).dropLast := by
  unfold payload gathered
  generalize block.filterMap dataOf = l
  have hfold : ∀ (more : List (List UInt8)) (data : List UInt8),
      more.foldl (fun joined data => joined ++ [lineFeed] ++ data) data ++ [lineFeed] =
        data ++ [lineFeed] ++ more.flatMap fun data => data ++ [lineFeed] := by
    intro more
    induction more with
    | nil =>
      intro data
      rw [List.flatMap_nil, List.append_nil]
      rfl
    | cons first more ih =>
      intro data
      rw [List.foldl_cons, ih, List.flatMap_cons]
      simp only [List.append_assoc]
  cases l with
  | nil => rfl
  | cons data more =>
    have hone : (data :: more).flatMap (fun data => data ++ [lineFeed]) =
        more.foldl (fun joined data => joined ++ [lineFeed] ++ data) data ++ [lineFeed] := by
      rw [hfold, List.flatMap_cons]
    rw [hone, if_neg (by simp), List.dropLast_concat]

theorem gathered_append (block : List (List UInt8)) (line : List UInt8) :
    gathered (block ++ [line]) = match dataOf line with
      | some data => gathered block ++ data ++ [lineFeed]
      | none => gathered block := by
  unfold gathered
  rw [List.filterMap_append, List.flatMap_append]
  cases h : dataOf line with
  | none => rw [List.filterMap_cons_none h]; exact List.append_nil _
  | some data =>
    rw [List.filterMap_cons_some h, List.filterMap_nil, List.flatMap_singleton, ← List.append_assoc]

def Pushed.outcome (p : Pushed σ) : σ × Except FailureKind Bool := (p.listener, p.result)

variable {block : List (List UInt8)}

attribute [grind =] Sse.pushByte Sse.at

theorem pushByte_open {byte : UInt8} (hbyte : byte ≠ lineFeed)
    (hlimit : blockBytes block + open'.length + 1 ≤ limit) :
    (Sse.at block open').pushByte dispatch limit listener byte =
      ⟨Sse.at block (open' ++ [byte]), listener, .ok false⟩ := by
  unfold Sse.pushByte
  dsimp only
  rw [if_neg (show ¬ limit < (Sse.at block open').eventBytes + 1 from Nat.not_lt.mpr hlimit),
    if_pos hbyte]
  show (⟨⟨open' ++ [byte], gathered block, blockBytes block + open'.length + 1⟩, listener,
    .ok false⟩ : Pushed σ) = _
  rw [Sse.at, List.length_append, List.length_singleton, Nat.add_assoc]

theorem push_open (hbytes : lineFeed ∉ bytes) (more : List UInt8)
    (hlimit : blockBytes block + open'.length + bytes.length ≤ limit) :
    (Sse.at block open').push dispatch limit listener (bytes ++ more) =
      (Sse.at block (open' ++ bytes)).push dispatch limit listener more := by
  induction bytes generalizing open' with
  | nil => rw [List.append_nil, List.nil_append]
  | cons byte bytes ih =>
    rw [List.mem_cons, not_or] at hbytes
    rw [List.length_cons] at hlimit
    rw [List.cons_append, push_cons, pushByte_open (Ne.symm hbytes.1) (by omega)]
    dsimp only
    rw [ih hbytes.2 (by rw [List.length_append, List.length_singleton]; omega), List.append_assoc]
    rfl

theorem push_over (hbytes : lineFeed ∉ bytes) (more : List UInt8)
    (hlimit : limit < sse.eventBytes + bytes.length) (hsse : sse.eventBytes ≤ limit) :
    (sse.push dispatch limit listener (bytes ++ more)).outcome = (listener, .error .sizeLimit) := by
  induction bytes generalizing sse with
  | nil =>
    rw [List.length_nil] at hlimit
    omega
  | cons byte bytes ih =>
    rw [List.mem_cons, not_or] at hbytes
    rw [List.length_cons] at hlimit
    rw [List.cons_append, push_cons]
    unfold Sse.pushByte
    dsimp only
    by_cases hover : limit < sse.eventBytes + 1
    · rw [if_pos hover]
      rfl
    · rw [if_neg hover, if_pos (Ne.symm hbytes.1)]
      exact ih hbytes.2 (by show limit < sse.eventBytes + 1 + bytes.length; omega)
        (Nat.not_lt.mp hover)

theorem pushByte_over (hlimit : limit < blockBytes block + open'.length + 1) (byte : UInt8)
    (more : List UInt8) :
    ((Sse.at block open').push dispatch limit listener (byte :: more)).outcome =
      (listener, .error .sizeLimit) := by
  rw [push_cons]
  unfold Sse.pushByte
  dsimp only
  rw [if_pos (show limit < (Sse.at block open').eventBytes + 1 from hlimit)]
  rfl

attribute [grind =] trimReturn

theorem pushByte_line (hlimit : blockBytes block + line.length + 1 ≤ limit) (hline : trimReturn line ≠ []) :
    (Sse.at block line).pushByte dispatch limit listener lineFeed =
      ⟨Sse.at (block ++ [line]) [], listener, .ok false⟩ := by
  have hat : Sse.at (block ++ [line]) [] =
      ⟨[], gathered (block ++ [line]), blockBytes block + line.length + 1⟩ := by
    rw [Sse.at, blockBytes_append, List.length_nil, Nat.add_zero, Nat.add_assoc]
  unfold Sse.pushByte
  dsimp only
  rw [if_neg (show ¬ limit < (Sse.at block line).eventBytes + 1 from Nat.not_lt.mpr hlimit),
    if_neg (by simp), if_neg (show trimReturn (Sse.at block line).line ≠ [] from hline), hat,
      gathered_append]
  show (match dataOf line with
    | some data => _
    | none => _) = _
  cases dataOf line <;> rfl

theorem pushByte_empty (hlimit : blockBytes block + line.length + 1 ≤ limit) (hline : trimReturn line = [])
    (more : List UInt8) :
    ((Sse.at block line).push dispatch limit listener (lineFeed :: more)).outcome =
      match payload block with
      | none => ((Sse.at [] []).push dispatch limit listener more).outcome
      | some data =>
        match dispatch listener data with
        | (listener, .ok false) => ((Sse.at [] []).push dispatch limit listener more).outcome
        | stopped => stopped := by
  rw [push_cons, gathered_payload]
  unfold Sse.pushByte
  dsimp only
  rw [if_neg (show ¬ limit < (Sse.at block line).eventBytes + 1 from Nat.not_lt.mpr hlimit),
    if_neg (by simp), if_pos (show trimReturn (Sse.at block line).line = [] from hline),
      Sse.endEvent]
  show (match (if gathered block = [] then _ else _ : Pushed σ) with
    | ⟨sse, listener, .ok false⟩ => sse.push dispatch limit listener more
    | stopped => stopped).outcome = _
  by_cases hdata : gathered block = []
  · rw [if_pos hdata, if_pos hdata]
    show ((⟨[], gathered block, 0⟩ : Sse).push dispatch limit listener more).outcome = _
    rw [hdata]
    rfl
  · rw [if_neg hdata, if_neg hdata]
    show (match (match dispatch listener (gathered block).dropLast with
      | (listener, .error e) => _
      | (listener, .ok true) => _
      | (listener, .ok false) => _ : Pushed σ) with
      | ⟨sse, listener, .ok false⟩ => sse.push dispatch limit listener more
      | stopped => stopped).outcome = _
    rcases hd : dispatch listener (gathered block).dropLast with ⟨listener', _ | _ | _⟩ <;>
      dsimp only <;> rw [hd] <;> rfl

/-- **Pushing the lines of a stream is what the reference describes.** -/
theorem push_reference {lines : List (List UInt8)} {rest : List UInt8}
    (hlines : ∀ line ∈ lines, lineFeed ∉ line) (hrest : lineFeed ∉ rest)
    (hblock : blockBytes block ≤ limit) :
    ((Sse.at block []).push dispatch limit listener (joinLines lines ++ rest)).outcome =
      reference dispatch limit block listener rest lines := by
  induction lines generalizing block listener with
  | nil =>
    rw [reference]
    show ((Sse.at block []).push dispatch limit listener rest).outcome = _
    split
    · rename_i hover
      have hstop : ((Sse.at block []).push dispatch limit listener (rest ++ [])).outcome =
          (listener, .error .sizeLimit) := push_over hrest [] hover hblock
      rwa [List.append_nil] at hstop
    · rename_i hwithin
      have hopen : (Sse.at block []).push dispatch limit listener (rest ++ []) =
          (Sse.at block ([] ++ rest)).push dispatch limit listener [] :=
        push_open hrest [] (Nat.not_lt.mp hwithin)
      rw [List.append_nil] at hopen
      rw [hopen]
      rfl
  | cons line lines ih =>
    rw [List.forall_mem_cons] at hlines
    rw [joinLines_cons, reference]
    by_cases hover : limit < blockBytes block + (line.length + 1)
    · rw [if_pos hover]
      by_cases hlong : limit < blockBytes block + line.length
      · exact push_over hlines.1 _ hlong hblock
      · rw [push_open hlines.1 _ (Nat.not_lt.mp hlong)]
        exact pushByte_over hover _ _
    · rw [if_neg hover, push_open hlines.1 _ (by rw [List.length_nil]; omega), List.nil_append]
      have hlimit : blockBytes block + line.length + 1 ≤ limit := Nat.not_lt.mp hover
      by_cases hempty : trimReturn line = []
      · rw [if_pos hempty, pushByte_empty hlimit hempty]
        split
        · exact ih hlines.2 (Nat.zero_le _)
        · split
          · exact ih hlines.2 (Nat.zero_le _)
          · rfl
      · rw [if_neg hempty, push_cons, pushByte_line hlimit hempty]
        exact ih hlines.2 (by rw [blockBytes_append]; exact hlimit)

/-! ## bytes since the last empty line -/

/-- the lines after the last empty one, after a block of lines -/
def sinceLines (block : List (List UInt8)) (lines : List (List UInt8)) : List (List UInt8) :=
  lines.foldl (fun block line => if trimReturn line = [] then [] else block ++ [line]) block

def sinceEmpty (bytes : List UInt8) : Nat :=
  blockBytes (sinceLines [] (cutLines bytes).1) + (cutLines bytes).2.length

theorem pushByte_empty_ok {sse' : Sse} {listener' : σ} (hlimit : blockBytes block + line.length + 1 ≤ limit)
    (hline : trimReturn line = []) (h : (Sse.at block line).pushByte dispatch limit listener lineFeed =
    ⟨sse', listener', .ok false⟩) : sse' = Sse.at [] [] := by
  unfold Sse.pushByte at h
  dsimp only at h
  rw [if_neg (show ¬ limit < (Sse.at block line).eventBytes + 1 from Nat.not_lt.mpr hlimit),
    if_neg (by simp), if_pos (show trimReturn (Sse.at block line).line = [] from hline),
      Sse.endEvent] at h
  split at h
  · rename_i hdata
    cases h
    show (⟨[], (Sse.at block line).data, 0⟩ : Sse) = _
    rw [hdata]
    rfl
  · dsimp only at h
    split at h <;> cases h
    rfl

/-- a push that goes on has gathered the lines after the last empty one -/
theorem push_since {lines : List (List UInt8)} {rest : List UInt8}
    (hlines : ∀ line ∈ lines, lineFeed ∉ line) (hrest : lineFeed ∉ rest)
    (hblock : blockBytes block ≤ limit)
    (h : ((Sse.at block []).push dispatch limit listener (joinLines lines ++ rest)).result = .ok
    false) :
    ((Sse.at block []).push dispatch limit listener (joinLines lines ++ rest)).sse =
      Sse.at (sinceLines block lines) rest := by
  induction lines generalizing block listener with
  | nil =>
    have hwithin : blockBytes block + rest.length ≤ limit := by
      by_contra hover
      have hstop : ((Sse.at block []).push dispatch limit listener (rest ++ [])).outcome =
          (listener, .error .sizeLimit) := push_over hrest [] (Nat.not_le.mp hover) hblock
      rw [List.append_nil] at hstop
      cases h.symm.trans (congrArg Prod.snd hstop)
    have hopen : (Sse.at block []).push dispatch limit listener (rest ++ []) =
        (Sse.at block ([] ++ rest)).push dispatch limit listener [] := push_open hrest [] hwithin
    rw [List.append_nil] at hopen
    show ((Sse.at block []).push dispatch limit listener rest).sse = _
    rw [hopen]
    rfl
  | cons line lines ih =>
    rw [List.forall_mem_cons] at hlines
    rw [joinLines_cons] at h ⊢
    have hwithin : blockBytes block + line.length ≤ limit := by
      by_contra hover
      have hstop : ((Sse.at block []).push dispatch limit listener
          (line ++ lineFeed :: (joinLines lines ++ rest))).outcome =
            (listener, .error .sizeLimit) :=
        push_over hlines.1 _ (Nat.not_le.mp hover) hblock
      cases h.symm.trans (congrArg Prod.snd hstop)
    rw [push_open hlines.1 _ hwithin, List.nil_append] at h ⊢
    have hlimit : blockBytes block + line.length + 1 ≤ limit := by
      by_contra hover
      have hstop : ((Sse.at block line).push dispatch limit listener
          (lineFeed :: (joinLines lines ++ rest))).outcome = (listener, .error .sizeLimit) :=
        pushByte_over (Nat.not_le.mp hover) _ _
      cases h.symm.trans (congrArg Prod.snd hstop)
    show _ = Sse.at (sinceLines (if trimReturn line = [] then [] else block ++ [line]) lines) rest
    rw [push_cons] at h ⊢
    by_cases hempty : trimReturn line = []
    · rw [if_pos hempty]
      rcases hbyte : (Sse.at block line).pushByte dispatch limit listener lineFeed with
        ⟨sse', listener', _ | _ | _⟩
      · rw [hbyte] at h
        cases h
      · rw [hbyte] at h
        obtain rfl := pushByte_empty_ok hlimit hempty hbyte
        exact ih hlines.2 (Nat.zero_le _) h
      · rw [hbyte] at h
        cases h
    · rw [if_neg hempty]
      rw [pushByte_line hlimit hempty] at h ⊢
      exact ih hlines.2 (by rw [blockBytes_append]; exact hlimit) h

theorem push_stopped (h : (sse.push dispatch limit listener bytes).result ≠ .ok false) :
    ∃ before byte later, bytes = before ++ byte :: later ∧
      (sse.push dispatch limit listener before).result = .ok false ∧
      sse.push dispatch limit listener bytes =
        (sse.push dispatch limit listener before).sse.pushByte dispatch limit
        (sse.push dispatch limit listener before).listener byte := by
  induction bytes generalizing sse listener with
  | nil => exact absurd rfl h
  | cons byte bytes ih =>
    rw [push_cons] at h ⊢
    rcases hbyte : sse.pushByte dispatch limit listener byte with ⟨sse', listener', _ | _ | _⟩
    · exact ⟨[], byte, bytes, rfl, rfl, hbyte.symm⟩
    · rw [hbyte] at h
      obtain ⟨before, b, later, rfl, hok, hstop⟩ := ih h
      refine ⟨byte :: before, b, later, rfl, ?_, ?_⟩
      · rw [push_cons, hbyte]
        exact hok
      · rw [push_cons, hbyte]
        exact hstop
    · exact ⟨[], byte, bytes, rfl, rfl, hbyte.symm⟩

theorem pushByte_limit (hquiet : ∀ listener data, (dispatch listener data).2 ≠ .error .sizeLimit)
    (byte : UInt8) :
    (sse.pushByte dispatch limit listener byte).result = .error .sizeLimit ↔
    limit < sse.eventBytes + 1 := by
  unfold Sse.pushByte
  dsimp only
  split
  · rename_i hover
    exact ⟨fun _ => hover, fun _ => rfl⟩
  · rename_i hwithin
    refine ⟨fun h => ?_, fun h => absurd h hwithin⟩
    split at h
    · cases h
    · split at h
      · unfold Sse.endEvent at h
        split at h
        · cases h
        · dsimp only at h
          split at h
          · rename_i e hd
            cases h
            exact absurd (congrArg Prod.snd hd) (hquiet _ _)
          · cases h
          · cases h
      · split at h <;> cases h

/-- **A stream is too long exactly when the bytes since the last empty line pass the limit before
anything else stops it.** -/
theorem push_sizeLimit (hquiet : ∀ listener data, (dispatch listener data).2 ≠ .error .sizeLimit)
    (bytes : List UInt8) :
    (Sse.new.push dispatch limit listener bytes).result = .error .sizeLimit ↔
      ∃ before byte later, bytes = before ++ byte :: later ∧
        (Sse.new.push dispatch limit listener before).result = .ok false ∧
          limit < sinceEmpty before + 1 := by
  have hsince : ∀ before : List UInt8, (Sse.new.push dispatch limit listener before).result = .ok
    false →
      (Sse.new.push dispatch limit listener before).sse.eventBytes = sinceEmpty before := by
    intro before hok
    obtain ⟨hjoin, hlines, hrest⟩ := cutLines_join before
    have hstate : ((Sse.at [] []).push dispatch limit listener
        (joinLines (cutLines before).1 ++ (cutLines before).2)).sse = _ :=
      push_since hlines hrest (Nat.zero_le limit) (by rw [← hjoin]; exact hok)
    rw [← hjoin] at hstate
    exact congrArg Sse.eventBytes hstate
  constructor
  · intro h
    obtain ⟨before, byte, later, rfl, hok, hstop⟩ :=
      push_stopped (by rw [h]; exact fun h => nomatch h)
    refine ⟨before, byte, later, rfl, hok, ?_⟩
    rw [hstop, pushByte_limit hquiet, hsince before hok] at h
    exact h
  · rintro ⟨before, byte, later, rfl, hok, hlimit⟩
    rw [← hsince before hok] at hlimit
    rw [push_append]
    rcases hp : Sse.new.push dispatch limit listener before with ⟨sse', listener', r⟩
    rw [hp] at hok hlimit
    cases hok
    have hover : (sse'.pushByte dispatch limit listener' byte).result = .error .sizeLimit :=
      (pushByte_limit hquiet byte).mpr hlimit
    show (sse'.push dispatch limit listener' (byte :: later)).result = _
    rw [push_cons]
    rcases hbyte : sse'.pushByte dispatch limit listener' byte with ⟨s, l, _ | _ | _⟩ <;>
      rw [hbyte] at hover
    · exact hover
    · cases hover
    · cases hover

end

/-! ## the decoder as the listener -/

section
variable [JsonReader]

/-- a decoder with what it has emitted and the payloads that it was given -/
structure Listener where
  decoder : Decoder
  emitted : List Delta
  delivered : List (List UInt8)

def Listener.new (dialect : ResponseDialect) : Listener := ⟨Decoder.new dialect, [], []⟩

def Listener.event (l : Listener) (data : List UInt8) : Listener × Except FailureKind Bool :=
  let decoded := l.decoder.event data
  (⟨decoded.decoder, l.emitted ++ decoded.emitted, l.delivered ++ [data]⟩, decoded.result)

/-- the end mark of a stream without a terminal event is not an event -/
def Listener.dispatch (l : Listener) (data : List UInt8) : Listener × Except FailureKind Bool :=
  if data = strBytes "[DONE]" then (l, .error .interrupted) else l.event data

/-- what fails, fails as malformed -/
def OnlyMalformed {α : Type} (x : Except FailureKind α) : Prop :=
    ∀ e, x = .error e → e = .malformedResponse

theorem onlyMalformed_ok {α : Type} (a : α) : OnlyMalformed (.ok a) := fun _ h => nomatch h

theorem onlyMalformed_error {α : Type} : OnlyMalformed
    (.error .malformedResponse : Except FailureKind α) :=
  fun _ h => by
    cases h
    rfl

theorem OnlyMalformed.bind {α β : Type} {x : Except FailureKind α} {f : α → Except FailureKind β}
    (hx : OnlyMalformed x) (hf : ∀ a, OnlyMalformed (f a)) : OnlyMalformed (x >>= f) := by
  intro e h
  cases x with
  | error e' =>
    cases h
    exact hx e rfl
  | ok a => exact hf a e h

theorem onlyMalformed_orMalformed {α : Type} (x : Option α) : OnlyMalformed (orMalformed x) := by
  cases x with
  | none => exact onlyMalformed_error
  | some a => exact onlyMalformed_ok a

theorem onlyMalformed_string (v : Value) (key : String) : OnlyMalformed (string v key) :=
  onlyMalformed_orMalformed _

theorem onlyMalformed_refuseIf (c : Prop) [Decidable c] :
    OnlyMalformed (Checks.refuseIf c FailureKind.malformedResponse) := by
  unfold Checks.refuseIf
  split
  · exact onlyMalformed_error
  · exact onlyMalformed_ok _

theorem onlyMalformed_messageParts (text : String) (refusals : List String) (parts : List Value) :
    OnlyMalformed (messageParts text refusals parts) := by
  induction parts generalizing text refusals with
  | nil => exact onlyMalformed_ok _
  | cons part rest ih =>
    refine (onlyMalformed_string part "type").bind fun kind => ?_
    split
    · exact (onlyMalformed_string part "text").bind fun t => ih _ _
    split
    · exact (onlyMalformed_string part "refusal").bind fun r => ih _ _
    · exact onlyMalformed_ok _

theorem onlyMalformed_normalize (item : Value) : OnlyMalformed (normalize item) := by
  refine (onlyMalformed_string item "type").bind fun kind => ?_
  split
  · refine (onlyMalformed_string item "role").bind fun role => ?_
    refine (onlyMalformed_refuseIf _).bind fun _ => ?_
    refine (onlyMalformed_orMalformed _).bind fun content => ?_
    refine (onlyMalformed_messageParts _ _ _).bind fun parts => ?_
    split
    · exact onlyMalformed_ok _
    · exact (onlyMalformed_string item "id").bind fun id => onlyMalformed_ok _
  split
  · refine (onlyMalformed_string item "arguments").bind fun arguments => ?_
    refine (onlyMalformed_string item "call_id").bind fun callId => ?_
    refine (onlyMalformed_string item "name").bind fun name => ?_
    refine (onlyMalformed_refuseIf _).bind fun _ => ?_
    exact (onlyMalformed_string item "id").bind fun id => onlyMalformed_ok _
  · exact onlyMalformed_ok _

theorem onlyMalformed_mapM (items : List Value) : OnlyMalformed (items.mapM normalize) := by
  induction items with
  | nil => exact onlyMalformed_ok _
  | cons item items ih =>
    rw [List.mapM_cons]
    exact (onlyMalformed_normalize item).bind fun _ => ih.bind fun _ => onlyMalformed_ok _

theorem onlyMalformed_bindId (d : Decoder) (id : String) : OnlyMalformed (d.bindId id) := by
  unfold Decoder.bindId
  split
  · exact onlyMalformed_error
  · exact onlyMalformed_ok _

theorem onlyMalformed_eventId (event : Value) : OnlyMalformed (Decoder.eventId event) := by
  refine (onlyMalformed_orMalformed _).bind fun response => ?_
  exact (onlyMalformed_string response "id").bind fun id => onlyMalformed_ok _

theorem onlyMalformed_terminalResponse (d : Decoder) (response : Value) (id : String) :
    OnlyMalformed (d.terminalResponse response id) := by
  refine (onlyMalformed_string response "status").bind fun name => ?_
  refine OnlyMalformed.bind ?_ fun status => ?_
  · unfold Decoder.statusOf
    iterate 3
      split
      · exact onlyMalformed_ok _
    exact onlyMalformed_error
  refine (onlyMalformed_orMalformed _).bind fun listed => ?_
  refine (onlyMalformed_refuseIf _).bind fun _ => ?_
  refine OnlyMalformed.bind ?_ fun _ => ?_
  · intro e he
    obtain ⟨done, -, hdone⟩ := Checks.checkAll_error he
    exact onlyMalformed_refuseIf _ e hdone
  refine (onlyMalformed_mapM _).bind fun output => ?_
  exact (onlyMalformed_refuseIf _).bind fun _ => onlyMalformed_ok _

theorem event_error {d : Decoder} {bytes : List UInt8} {e : FailureKind}
    (h : (d.event bytes).result = .error e) : e = .malformedResponse ∨ e = .providerError := by
  unfold Decoder.event at h
  split at h
  · cases h
    exact .inl rfl
  rename_i event _
  dsimp only at h
  split at h
  · rename_i e' he
    cases h
    exact .inl (onlyMalformed_string event "type" _ he)
  rename_i name _
  generalize EventKind.ofStr name = kind at h
  have hcreated : ∀ (d : Decoder) (announced : Bool),
    (d.created announced event).result = .error e →
      e = .malformedResponse := by
    intro d announced h
    unfold Decoder.created at h
    split at h
    · rename_i he
      cases h
      exact onlyMalformed_eventId event _ he
    · split at h
      · rename_i he
        cases h
        exact onlyMalformed_bindId d _ _ he
      · cases h
  have hpass : ∀ (d : Decoder) (delta : String → String → Delta),
    (d.passDelta delta event).result = .error e →
      e = .malformedResponse := by
    intro d delta h
    unfold Decoder.passDelta at h
    split at h
    · rename_i he
      cases h
      exact (onlyMalformed_string event "item_id").bind (fun _ =>
        (onlyMalformed_string event "delta").bind fun _ => onlyMalformed_ok _) _ he
    · cases h
  cases kind with
  | created => exact .inl (hcreated _ _ h)
  | inProgress => exact .inl (hcreated _ _ h)
  | text =>
    dsimp only at h
    unfold Decoder.textDelta at h
    split at h
    · rename_i he
      cases h
      exact .inl (onlyMalformed_string event "delta" _ he)
    · dsimp only at h
      split at h
      · rename_i he
        cases h
        exact .inl (onlyMalformed_string event "item_id" _ he)
      · cases h
  | reasoningSummary => exact .inl (hpass _ _ h)
  | toolArguments => exact .inl (hpass _ _ h)
  | itemDone =>
    dsimp only at h
    unfold Decoder.itemDone at h
    split at h
    · rename_i he
      cases h
      refine .inl ((onlyMalformed_orMalformed _).bind (fun _ => ?_) _ he)
      refine (onlyMalformed_orMalformed _).bind fun item => ?_
      exact (onlyMalformed_normalize item).bind fun _ => onlyMalformed_ok _
    · dsimp only at h
      split at h
      · cases h
        exact .inl rfl
      · cases h
  | terminal =>
    dsimp only at h
    unfold Decoder.terminalEvent at h
    split at h
    · rename_i he
      cases h
      exact .inl (onlyMalformed_eventId event _ he)
    · split at h
      · rename_i he
        cases h
        exact .inl (onlyMalformed_bindId _ _ _ he)
      · split at h
        · rename_i he
          cases h
          exact .inl (onlyMalformed_terminalResponse _ _ _ _ he)
        · cases h
  | error =>
    cases h
    exact .inr rfl
  | other => cases h

theorem dispatch_quiet (l : Listener) (data : List UInt8) :
    (l.dispatch data).2 ≠ .error .sizeLimit := by
  intro h
  unfold Listener.dispatch at h
  split at h
  · cases h
  · rcases event_error h with h | h <;> cases h

/-- **The chunks of a stream are parsed like its lines**, and a stream is too long exactly when the
bytes since the last empty line pass the limit before anything else stops it. -/
theorem feed_exact (dialect : ResponseDialect) (limit : Nat) (chunks : List (List UInt8)) :
    (Sse.new.feed Listener.dispatch limit (Listener.new dialect) chunks).outcome =
      reference Listener.dispatch limit [] (Listener.new dialect) (cutLines chunks.flatten).2
        (cutLines chunks.flatten).1 ∧
    ((Sse.new.feed Listener.dispatch limit (Listener.new dialect) chunks).result = .error
    .sizeLimit ↔
      ∃ before byte later, chunks.flatten = before ++ byte :: later ∧
        (reference Listener.dispatch limit [] (Listener.new dialect) (cutLines before).2
          (cutLines before).1).2 = .ok false ∧ limit < sinceEmpty before + 1) := by
  have hreference : ∀ bytes : List UInt8,
      (Sse.new.push Listener.dispatch limit (Listener.new dialect) bytes).outcome =
        reference Listener.dispatch limit [] (Listener.new dialect) (cutLines bytes).2
          (cutLines bytes).1 := by
    intro bytes
    obtain ⟨hjoin, hlines, hrest⟩ := cutLines_join bytes
    have h : ((Sse.at [] []).push Listener.dispatch limit (Listener.new dialect)
        (joinLines (cutLines bytes).1 ++ (cutLines bytes).2)).outcome = _ :=
      push_reference hlines hrest (Nat.zero_le limit)
    rw [← hjoin] at h
    exact h
  rw [feed_eq_push]
  refine ⟨hreference _, ?_⟩
  rw [push_sizeLimit dispatch_quiet]
  refine exists_congr fun before => exists_congr fun byte => exists_congr fun later => ?_
  rw [← hreference before]
  rfl

end

/-! ## the end mark -/

namespace Sample

/-- a reader that knows no document -/
scoped instance noReader : JsonReader := ⟨fun _ => none⟩

def endMark : List UInt8 := strBytes "data: [DONE]\n\n"

/-- **Where the plain reference differs**: the end mark is not delivered, and what follows it is not
measured. -/
theorem feed_endMark :
    (Sse.new.feed Listener.dispatch 100 (Listener.new .openAi) [endMark]).result = .error
    .interrupted ∧
    (Sse.new.feed Listener.dispatch 100 (Listener.new .openAi) [endMark]).listener.delivered = [] ∧
    (reference Listener.event 100 [] (Listener.new .openAi) (cutLines endMark).2
    (cutLines endMark).1).2 =
      .error .malformedResponse ∧
    (reference Listener.event 100 [] (Listener.new .openAi) (cutLines endMark).2
      (cutLines endMark).1).1.delivered = [strBytes "[DONE]"] ∧
    (Sse.new.feed Listener.dispatch 100 (Listener.new .openAi)
      [endMark ++ List.replicate 101 120]).result = .error .interrupted ∧
    100 < sinceEmpty (endMark ++ List.replicate 100 120) + 1 := by
  refine ⟨?_, ?_, ?_, ?_, ?_, ?_⟩ <;> decide +kernel

end Sample

end Orvek.Inference
