import Orvek.Inference.Auth
import Orvek.Context.Views

/-!
# The events of a model response

A provider streams a response as events.  The decoder checks each one as it arrives, hands on what
is of interest at once, and takes the response itself from the terminal event.

* `normalize`            an item of the output as the host knows it;
* `Decoder.event`        one event: the new decoder, what is handed on, and whether it ends;
* `terminalItemConfirms` an item of the stream against the item of the terminal response;
* `Kept`                 what the decoder knows of the events so far;
* `stream_confirmed`     the stream agrees with the response it ends with.
-/

set_option linter.unusedSectionVars false

namespace Orvek.Inference
open Json Checks Auth

inductive FailureKind where
  | invalidRequest | invalidEndpoint | invalidLimits | authentication | rejected | transport
  | interrupted | malformedResponse | providerError | cancelled | timeout | sizeLimit
  deriving DecidableEq, Repr

/-! ## reading documents -/

section
variable [JsonReader]

/-- `serde_json::from_slice` -/
def fromSlice (bytes : List UInt8) : Option Value :=
  (String.fromUTF8? ⟨bytes.toArray⟩).bind JsonReader.fromStr

end

def orMalformed {α : Type} : Option α → Except FailureKind α
  | some a => .ok a
  | none => .error .malformedResponse

def string (value : Value) (key : String) : Except FailureKind String :=
  orMalformed ((value.get key).bind Value.asStr)

/-! ## usage -/

structure Usage where
  inputTokens : Option Nat
  outputTokens : Option Nat
  totalTokens : Option Nat
  cachedInputTokens : Option Nat
  reasoningTokens : Option Nat
  costUsd : Option UsdCost
  deriving DecidableEq

namespace Usage

def recorded (u : Usage) : Bool := u.inputTokens.isSome && u.outputTokens.isSome &&
    u.totalTokens.isSome

def parseCost (value : Value) : Option UsdCost :=
  ((value.get "cost").or (value.get "response_cost")).bind fun cost =>
    UsdCost.fromStr (match cost.asStr with
      | some text => text.toList
      | none => cost.text)

def partOf (whole part : Option Nat) : Option Nat :=
  match part, whole with
  | some p, some w => if w < p then none else some p
  | _, _ => part

def parse (value : Value) : Usage :=
  let input := (value.get "input_tokens").bind asU64
  let output := (value.get "output_tokens").bind asU64
  let total := (value.get "total_tokens").bind asU64
  let detail (name field : String) := ((value.get name).bind (·.get field)).bind asU64
  { inputTokens := input
    outputTokens := output
    totalTokens := match input, output, total with
      | some i, some o, some t => if i + o ≤ u64Max ∧ i + o = t then some t else none
      | _, _, _ => total
    cachedInputTokens := partOf input (detail "input_tokens_details" "cached_tokens")
    reasoningTokens := partOf output (detail "output_tokens_details" "reasoning_tokens")
    costUsd := parseCost value }

end Usage

/-! ## items -/

inductive ArgumentValidity where
  | jsonObject | malformedJson | notObject
  deriving DecidableEq, Repr

structure ToolProposal where
  itemId : String
  callId : String
  name : String
  arguments : String
  validity : ArgumentValidity
  deriving DecidableEq

inductive OutputItem where
  | message (id text : String) (refusals : List String)
  | toolProposal (proposal : ToolProposal)
  | other (item : Value)
  deriving DecidableEq

def OutputItem.callId : OutputItem → Option String
  | .toolProposal p => some p.callId
  | _ => none

/-- the text and the refusals of a message, unless it has a part of another kind -/
def messageParts (text : String) (refusals : List String) :
    List Value → Except FailureKind (Option (String × List String))
  | [] => .ok (some (text, refusals))
  | part :: rest => do
    let kind ← string part "type"
    if kind = "output_text" then do
      let t ← string part "text"
      messageParts (text ++ t) refusals rest
    else if kind = "refusal" then do
      let r ← string part "refusal"
      messageParts text (refusals ++ [r]) rest
    else .ok none

section
variable [JsonReader]

def argumentValidity (arguments : String) : ArgumentValidity :=
  match JsonReader.fromStr arguments with
  | some (.object _) => .jsonObject
  | some _ => .notObject
  | none => .malformedJson

def normalize (item : Value) : Except FailureKind OutputItem := do
  let kind ← string item "type"
  if kind = "message" then do
    let role ← string item "role"
    refuseIf (role ≠ "assistant") FailureKind.malformedResponse
    let content ← orMalformed ((item.get "content").bind Value.asArray)
    match ← messageParts "" [] content with
    | none => .ok (.other item)
    | some (text, refusals) => do
      let id ← string item "id"
      .ok (.message id text refusals)
  else if kind = "function_call" then do
    let arguments ← string item "arguments"
    let callId ← string item "call_id"
    let name ← string item "name"
    refuseIf (callId = "" ∨ name = "") FailureKind.malformedResponse
    let itemId ← string item "id"
    .ok (.toolProposal ⟨itemId, callId, name, arguments, argumentValidity arguments⟩)
  else .ok (.other item)

end

def callsDistinct (calls : BTreeSet String) : List OutputItem → Bool
  | [] => true
  | item :: rest =>
    match item.callId with
    | none => callsDistinct calls rest
    | some id => if id ∈ calls then false else callsDistinct (calls.insert id) rest

/-- an item of the stream against the one of the terminal response -/
def terminalItemConfirms (completed : Value) : Option Value → Bool
  | none => false
  | some terminal =>
    if completed = terminal then true
    else if (completed.get "type").bind Value.asStr ≠ some "reasoning" ∨
        (terminal.get "type").bind Value.asStr ≠ some "reasoning" then false
    else match completed, terminal with
      | .object c, .object t => c.length == t.length && c.all fun field =>
        match lookup field.1 t with
        | none => false
        | some v =>
          if field.1 = "encrypted_content" then
            (field.2.asStr.any (· ≠ "")) && v.asStr.any (· ≠ "")
          else field.2 == v
      | _, _ => false

/-! ## responses -/

inductive ResponseStatus where
  | completed | failed | incomplete
  deriving DecidableEq, Repr

structure ProviderResponse where
  id : String
  status : ResponseStatus
  output : List OutputItem
  historyItems : List Value
  usage : Usage

def ProviderResponse.validateRecorded [JsonReader] (r : ProviderResponse) :
    Except FailureKind Unit := do
  let output ← r.historyItems.mapM normalize
  refuseIf (output ≠ r.output ∨ callsDistinct ∅ output = false) FailureKind.malformedResponse

inductive Delta where
  | created (responseId : String)
  | text (itemId text : String)
  | reasoningSummary (itemId text : String)
  | toolArguments (itemId arguments : String)
  | itemDone (item : OutputItem)
  deriving DecidableEq

inductive ResponseDialect where
  | openAi | chatGpt
  deriving DecidableEq, Repr

/-! ## the decoder -/

structure Decoder where
  dialect : ResponseDialect
  responseId : Option String
  items : BTreeMap Nat Value
  text : String
  terminal : Option ProviderResponse
  observed : Bool

def Decoder.new (dialect : ResponseDialect) : Decoder := ⟨dialect, none, ∅, "", none, false⟩

/-- the kinds of events; those of no authority are `other` -/
inductive EventKind where
  | created | inProgress | text | reasoningSummary | toolArguments | itemDone | terminal | error |
      other
  deriving DecidableEq, Repr

def EventKind.ofStr (kind : String) : EventKind :=
  if kind = "response.created" then .created
  else if kind = "response.in_progress" then .inProgress
  else if kind = "response.output_text.delta" ∨ kind = "response.refusal.delta" then .text
  else if kind = "response.reasoning_summary_text.delta" then .reasoningSummary
  else if kind = "response.function_call_arguments.delta" then .toolArguments
  else if kind = "response.output_item.done" then .itemDone
  else if kind = "response.completed" ∨ kind = "response.failed" ∨ kind = "response.incomplete" then
    .terminal
  else if kind = "error" then .error
  else .other

/-- what an event leaves: the decoder, what was emitted, and whether the response is there -/
structure Decoded where
  decoder : Decoder
  emitted : List Delta
  result : Except FailureKind Bool

namespace Decoder
variable (d : Decoder)

def fail (kind : FailureKind) : Decoded := ⟨d, [], .error kind⟩

def more (emitted : List Delta) : Decoded := ⟨d, emitted, .ok false⟩

def bindId (id : String) : Except FailureKind Decoder :=
  if id = "" ∨ (d.responseId.any (· ≠ id)) = true then .error .malformedResponse
  else .ok { d with responseId := some id }

def eventId (event : Value) : Except FailureKind (Value × String) := do
  let response ← orMalformed (event.get "response")
  let id ← string response "id"
  .ok (response, id)

def created (announced : Bool) (event : Value) : Decoded :=
  match eventId event with
  | .error e => d.fail e
  | .ok (_, id) =>
    match d.bindId id with
    | .error e => d.fail e
    | .ok d => d.more (if announced then [.created id] else [])

def textDelta (event : Value) : Decoded :=
  match string event "delta" with
  | .error e => d.fail e
  | .ok text =>
    let d := { d with text := d.text ++ text }
    match string event "item_id" with
    | .error e => d.fail e
    | .ok itemId => d.more [.text itemId text]

/-- a delta that only goes to the listener -/
def passDelta (delta : String → String → Delta) (event : Value) : Decoded :=
  match (do
    let itemId ← string event "item_id"
    let text ← string event "delta"
    .ok (delta itemId text) : Except FailureKind Delta) with
  | .error e => d.fail e
  | .ok delta => d.more [delta]

section
variable [JsonReader]

def doneItem (event : Value) : Except FailureKind (Nat × Value × OutputItem) := do
  let index ← orMalformed ((event.get "output_index").bind asU64)
  let item ← orMalformed (event.get "item")
  let normalized ← normalize item
  .ok (index, item, normalized)

def itemDone (event : Value) : Decoded :=
  match doneItem event with
  | .error e => d.fail e
  | .ok (index, item, normalized) =>
    let inserted := { d with items := d.items.insert index item }
    if (d.items[index]?).isSome then inserted.fail .malformedResponse
    else inserted.more [.itemDone normalized]

def statusOf (status : String) : Except FailureKind ResponseStatus :=
  if status = "completed" then .ok .completed
  else if status = "failed" then .ok .failed
  else if status = "incomplete" then .ok .incomplete
  else .error .malformedResponse

def present (response : Value) (key : String) : Bool := (response.get key).any (· != .null)

def terminalResponse (response : Value) (id : String) : Except FailureKind ProviderResponse := do
  let name ← string response "status"
  let status ← statusOf name
  let listed ← orMalformed ((response.get "output").bind Value.asArray)
  refuseIf (status = .completed ∧ (present response "error" = true ∨
    present response "incomplete_details" = true)) FailureKind.malformedResponse
  let historyItems :=
    if status = .completed ∧ listed = [] ∧ d.dialect = .chatGpt then valuesOf d.items else listed
  checkAll (fun done : Nat × Value => refuseIf
    (terminalItemConfirms done.2 historyItems[done.1]? = false) FailureKind.malformedResponse)
    d.items.toList
  let output ← historyItems.mapM normalize
  refuseIf (callsDistinct ∅ output = false) FailureKind.malformedResponse
  .ok { id, status, output, historyItems, usage := Usage.parse (response.index "usage") }

def terminalEvent (event : Value) : Decoded :=
  match eventId event with
  | .error e => d.fail e
  | .ok (response, id) =>
    match d.bindId id with
    | .error e => d.fail e
    | .ok d =>
      match d.terminalResponse response id with
      | .error e => d.fail e
      | .ok response => ⟨{ d with terminal := some response }, [], .ok true⟩

def event (bytes : List UInt8) : Decoded :=
  match fromSlice bytes with
  | none => d.fail .malformedResponse
  | some event =>
    let d := { d with observed := true }
    match string event "type" with
    | .error e => d.fail e
    | .ok kind =>
      match EventKind.ofStr kind with
      | .created => d.created true event
      | .inProgress => d.created false event
      | .text => d.textDelta event
      | .reasoningSummary => d.passDelta .reasoningSummary event
      | .toolArguments => d.passDelta .toolArguments event
      | .itemDone => d.itemDone event
      | .terminal => d.terminalEvent event
      | .error => d.fail .providerError
      | .other => d.more []

end

end Decoder

/-! ## items against the terminal response -/

/-- an item of the stream as the terminal response has it: the same, or reasoning that was encrypted
again -/
inductive Confirms : Value → Value → Prop
  | same (v : Value) : Confirms v v
  | reasoning {c t : List (String × Value)} (hc : lookup "type" c = some (.string "reasoning"))
      (ht : ∀ key, key ≠ "encrypted_content" → lookup key t = lookup key c)
      (hencrypted : lookup "encrypted_content" t = lookup "encrypted_content" c ∨
        ∃ a b, lookup "encrypted_content" c = some (.string a) ∧ a ≠ "" ∧
          lookup "encrypted_content" t = some (.string b) ∧ b ≠ "") :
      Confirms (.object c) (.object t)

theorem asStr_some {v : Option Value} {s : String} (h : v.bind Value.asStr = some s) :
    v = some (.string s) := by
  cases v with
  | none => cases h
  | some v =>
    cases v with
    | string s' =>
      cases h
      rfl
    | _ => cases h

theorem asStr_any {v : Value} (h : v.asStr.any (· ≠ "") = true) : ∃ s, v = .string s ∧ s ≠ "" := by
  cases v with
  | string s => exact ⟨s, rfl, by simpa [Value.asStr] using h⟩
  | _ => cases h

theorem names_agree {c t : List (String × Value)} (hc : (c.map Prod.fst).Nodup)
    (hlength : c.length = t.length) (hsub : c.map Prod.fst ⊆ t.map Prod.fst) :
    (c.map Prod.fst).Perm (t.map Prod.fst) :=
  (List.subperm_of_subset hc hsub).perm_of_length_le
    (by rw [List.length_map, List.length_map, hlength])

theorem terminalItemConfirms_some {completed : Value} {terminal : Option Value}
    (hkeyed : completed.Keyed) (h : terminalItemConfirms completed terminal = true) :
    ∃ w, terminal = some w ∧ Confirms completed w := by
  unfold terminalItemConfirms at h
  split at h
  · cases h
  rename_i w
  refine ⟨w, rfl, ?_⟩
  split at h
  · rename_i he
    rw [← he]
    exact .same completed
  split at h
  · cases h
  rename_i htype
  split at h
  · rename_i c t _
    rw [not_or, not_not, not_not] at htype
    rw [Bool.and_eq_true, beq_iff_eq, List.all_eq_true] at h
    obtain ⟨hlength, hall⟩ := h
    cases hkeyed with
    | object hnodup _ =>
    have hfield : ∀ key v, lookup key c = some v → ∃ w, lookup key t = some w ∧
        (key ≠ "encrypted_content" → v = w) ∧ (key = "encrypted_content" →
          (∃ a, v = .string a ∧ a ≠ "") ∧ ∃ b, w = .string b ∧ b ≠ "") := by
      intro key v hv
      have hone := hall _ (lookup_mem hv)
      dsimp only at hone
      split at hone
      · cases hone
      · rename_i w hw
        refine ⟨w, hw, fun hne => ?_, fun he => ?_⟩
        · rw [if_neg hne] at hone
          exact beq_iff_eq.mp hone
        · rw [if_pos he, Bool.and_eq_true] at hone
          exact ⟨asStr_any hone.1, asStr_any hone.2⟩
    have hnames : (c.map Prod.fst).Perm (t.map Prod.fst) := by
      refine names_agree hnodup hlength fun key hkey => ?_
      by_contra hnone
      cases hv : lookup key c with
      | none => exact lookup_none.mp hv hkey
      | some v =>
        obtain ⟨w, hw, -⟩ := hfield key v hv
        rw [lookup_none.mpr hnone] at hw
        cases hw
    have habsent : ∀ key, lookup key c = none → lookup key t = none := fun key hnone =>
      lookup_none.mpr fun hkey => lookup_none.mp hnone (hnames.mem_iff.mpr hkey)
    refine .reasoning (asStr_some htype.1) (fun key hne => ?_) ?_
    · cases hv : lookup key c with
      | none => exact habsent key hv
      | some v =>
        obtain ⟨w, hw, heq, -⟩ := hfield key v hv
        rw [hw, heq hne]
    · cases hv : lookup "encrypted_content" c with
      | none => exact .inl (habsent _ hv)
      | some v =>
        obtain ⟨w, hw, -, henc⟩ := hfield _ v hv
        obtain ⟨⟨a, rfl, ha⟩, b, rfl, hb⟩ := henc rfl
        exact .inr ⟨a, b, rfl, ha, hw, hb⟩
  · cases h

/-! ## call ids -/

variable {l : List OutputItem}

theorem callsDistinct_iff {calls : BTreeSet String} :
    callsDistinct calls l = true ↔
      (l.filterMap OutputItem.callId).Nodup ∧ ∀ id ∈ l.filterMap OutputItem.callId, id ∉ calls := by
  induction l generalizing calls with
  | nil => simp [callsDistinct]
  | cons item rest ih =>
    rw [callsDistinct]
    cases hid : item.callId with
    | none => rw [List.filterMap_cons_none hid, ih]
    | some id =>
      rw [List.filterMap_cons_some hid, List.nodup_cons, List.forall_mem_cons]
      dsimp only
      split
      · rename_i hmem
        exact ⟨fun h => (by cases h), fun h => absurd hmem h.2.1⟩
      · rename_i hmem
        rw [ih]
        constructor
        · rintro ⟨hnodup, hfresh⟩
          refine ⟨⟨fun hin => hfresh id hin (mem_insert_string.mpr (.inl rfl)), hnodup⟩, hmem,
            fun x hx hin => hfresh x hx (mem_insert_string.mpr (.inr hin))⟩
        · rintro ⟨⟨hnotin, hnodup⟩, -, hfresh⟩
          refine ⟨hnodup, fun x hx hin => ?_⟩
          rcases mem_insert_string.mp hin with rfl | hin
          · exact hnotin hx
          · exact hfresh x hx hin

theorem callsDistinct_empty : callsDistinct ∅ l = true ↔ (l.filterMap OutputItem.callId).Nodup := by
  rw [callsDistinct_iff]
  exact ⟨And.left, fun h => ⟨h, fun _ _ => Std.ExtTreeSet.not_mem_empty⟩⟩

theorem callId_place (h : (l.filterMap OutputItem.callId).Nodup) {i j : Nat} {a b : OutputItem}
    (ha : l[i]? = some a) (hb : l[j]? = some b) {id : String} (hida : a.callId = some id)
    (hidb : b.callId = some id) : i = j := by
  obtain ⟨hi, rfl⟩ := List.getElem?_eq_some_iff.mp ha
  obtain ⟨hj, rfl⟩ := List.getElem?_eq_some_iff.mp hb
  rw [List.Nodup, List.pairwise_filterMap, List.pairwise_iff_getElem] at h
  rcases Nat.lt_trichotomy i j with hlt | heq | hgt
  · exact absurd rfl (h i j hi hj hlt id hida id hidb)
  · exact heq
  · exact absurd rfl (h j i hj hi hgt id hidb id hida)

/-! ## one event -/

section
variable [JsonReader]

def readEvent (bytes : List UInt8) : Option (EventKind × Value) :=
  (fromSlice bytes).bind fun event =>
    ((event.get "type").bind Value.asStr).map fun kind => (EventKind.ofStr kind, event)

def completedItem (bytes : List UInt8) : Option (Nat × Value × OutputItem) :=
  match readEvent bytes with
  | some (.itemDone, event) => (Decoder.doneItem event).toOption
  | _ => none

def EventKind.carriesId : EventKind → Bool
  | .created => true
  | .inProgress => true
  | .terminal => true
  | _ => false

def announcedId (bytes : List UInt8) : Option String :=
  match readEvent bytes with
  | some (kind, event) => if kind.carriesId then
      (Decoder.eventId event).toOption.map Prod.snd else none
  | none => none

def Delta.completed : Delta → Option OutputItem
  | .itemDone item => some item
  | _ => none

/-- what an event that does not end the stream leaves -/
structure Moved (d : Decoder) (bytes : List UInt8) (d' : Decoder) (emitted : List Delta) :
    Prop where
  dialect : d'.dialect = d.dialect
  items : ∀ x, completedItem bytes = some x → d.items[x.1]? = none ∧
    d'.items = d.items.insert x.1 x.2.1
  kept : completedItem bytes = none → d'.items = d.items
  emitted : emitted.filterMap Delta.completed = (completedItem bytes).toList.map fun x => x.2.2
  id : ∀ id, announcedId bytes = some id → d'.responseId = some id
  sameId : ∀ id, d.responseId = some id → d'.responseId = some id

variable {d d' : Decoder} {bytes : List UInt8}

theorem bindId_ok {id : String} (h : d.bindId id = .ok d') :
    d' = { d with responseId := some id } ∧ ∀ previous, d.responseId = some previous →
      previous = id := by
  unfold Decoder.bindId at h
  split at h
  · cases h
  · rename_i hsame
    cases h
    refine ⟨rfl, fun previous hprevious => ?_⟩
    rw [not_or, hprevious] at hsame
    simpa using hsame.2

theorem string_ok {value : Value} {key s : String} (h : string value key = .ok s) :
    (value.get key).bind Value.asStr = some s := by
  unfold string at h
  cases hs : (value.get key).bind Value.asStr with
  | none => rw [hs] at h; cases h
  | some t => rw [hs] at h; cases h; rfl

attribute [grind =] completedItem announcedId

variable {kind : EventKind}

theorem moved_aside {event : Value} (hread : readEvent bytes = some (kind, event))
    (hitem : kind ≠ .itemDone) (hid : kind.carriesId = false) {emitted : List Delta}
    (hdialect : d'.dialect = d.dialect) (hitems : d'.items = d.items) (hsame : d'.responseId = d.responseId)
    (hemitted : emitted.filterMap Delta.completed = []) : Moved d bytes d' emitted := by
  have hnone : completedItem bytes = none := by
    rw [completedItem, hread]
    cases kind <;> first | rfl | exact absurd rfl hitem
  have hannounced : announcedId bytes = none := by
    rw [announcedId, hread]
    show (if kind.carriesId then _ else none) = none
    rw [hid]
    rfl
  refine ⟨hdialect, fun x hx => ?_, fun _ => hitems, ?_, fun id h => ?_, fun id h => hsame.trans h⟩
  · rw [hnone] at hx
    cases hx
  · rw [hnone]
    exact hemitted
  · rw [hannounced] at h
    cases h

theorem created_moved {event : Value} {announced : Bool} (hread : readEvent bytes = some (kind, event))
    (hitem : kind ≠ .itemDone) (h : (d.created announced event).result = .ok false) :
    Moved d bytes (d.created announced event).decoder (d.created announced event).emitted := by
  unfold Decoder.created at h ⊢
  cases hevent : Decoder.eventId event with
  | error e => rw [hevent] at h; cases h
  | ok x =>
    obtain ⟨response, id⟩ := x
    rw [hevent] at h
    dsimp only at h ⊢
    cases hbind : d.bindId id with
    | error e => rw [hbind] at h; cases h
    | ok d₁ =>
      obtain ⟨rfl, hsame⟩ := bindId_ok hbind
      have hnone : completedItem bytes = none := by
        rw [completedItem, hread]
        cases kind <;> first | rfl | exact absurd rfl hitem
      refine ⟨rfl, fun x hx => ?_, fun _ => rfl, ?_, fun id' h => ?_, fun previous hprevious => ?_⟩
      · rw [hnone] at hx
        cases hx
      · rw [hnone]
        cases announced <;> rfl
      · rw [announcedId, hread] at h
        dsimp only at h
        split at h
        · rw [hevent] at h
          exact h
        · cases h
      · rw [hsame previous hprevious]
        rfl

theorem itemDone_moved {event : Value} (hread : readEvent bytes = some (.itemDone, event))
    (h : (d.itemDone event).result = .ok false) :
    Moved d bytes (d.itemDone event).decoder (d.itemDone event).emitted := by
  unfold Decoder.itemDone at h ⊢
  have hcompleted : completedItem bytes = (Decoder.doneItem event).toOption := by
    rw [completedItem, hread]
  have hannounced : announcedId bytes = none := by
    rw [announcedId, hread]
    rfl
  cases hdone : Decoder.doneItem event with
  | error e => rw [hdone] at h; cases h
  | ok x =>
    obtain ⟨index, item, normalized⟩ := x
    rw [hdone] at h hcompleted
    dsimp only at h ⊢
    split at h
    · cases h
    · rename_i hfree
      rw [if_neg hfree]
      refine ⟨rfl, fun x hx => ?_, fun hnone => ?_, ?_, fun id h => ?_, fun id h => h⟩
      · rw [hcompleted] at hx
        cases hx
        exact ⟨by simpa using hfree, rfl⟩
      · rw [hcompleted] at hnone
        cases hnone
      · rw [hcompleted]
        rfl
      · rw [hannounced] at h
        cases h

theorem textDelta_moved {event : Value} (hread : readEvent bytes = some (.text, event))
    (h : (d.textDelta event).result = .ok false) :
    Moved d bytes (d.textDelta event).decoder (d.textDelta event).emitted := by
  unfold Decoder.textDelta at h ⊢
  cases htext : string event "delta" with
  | error e => rw [htext] at h; cases h
  | ok text =>
    rw [htext] at h
    dsimp only at h ⊢
    cases hid : string event "item_id" with
    | error e => rw [hid] at h; cases h
    | ok itemId => exact moved_aside hread (by decide) rfl rfl rfl rfl rfl

theorem passDelta_moved {event : Value} {delta : String → String → Delta}
    (hread : readEvent bytes = some (kind, event)) (hitem : kind ≠ .itemDone) (hid : kind.carriesId = false)
    (hdelta : ∀ a b, (delta a b).completed = none) (h : (d.passDelta delta event).result = .ok false) :
    Moved d bytes (d.passDelta delta event).decoder (d.passDelta delta event).emitted := by
  unfold Decoder.passDelta at h ⊢
  split at h
  · cases h
  · rename_i x hx
    obtain ⟨a, -, hx⟩ := bind_ok hx
    obtain ⟨b, -, hx⟩ := bind_ok hx
    cases hx
    exact moved_aside hread hitem hid rfl rfl rfl
      (by rw [Decoder.more, List.filterMap_cons_none (hdelta a b)]; rfl)

theorem Moved.seen {emitted : List Delta} (h : Moved { d with observed := true } bytes d' emitted) :
    Moved d bytes d' emitted :=
  ⟨h.dialect, h.items, h.kept, h.emitted, h.id, h.sameId⟩

/-- **An event that is accepted and does not end the stream.** -/
theorem event_moved (h : (d.event bytes).result = .ok false) :
    Moved d bytes (d.event bytes).decoder (d.event bytes).emitted := by
  unfold Decoder.event at h ⊢
  cases hslice : fromSlice bytes with
  | none => rw [hslice] at h; cases h
  | some event =>
    rw [hslice] at h
    dsimp only at h ⊢
    cases htype : string event "type" with
    | error e => rw [htype] at h; cases h
    | ok name =>
      rw [htype] at h
      dsimp only at h ⊢
      have hread : readEvent bytes = some (EventKind.ofStr name, event) := by
        rw [readEvent, hslice]
        show ((event.get "type").bind Value.asStr).map _ = _
        rw [string_ok htype]
        rfl
      generalize EventKind.ofStr name = kind at h hread ⊢
      refine Moved.seen ?_
      cases kind with
      | created => exact created_moved hread (by decide) h
      | inProgress => exact created_moved hread (by decide) h
      | text => exact textDelta_moved hread h
      | reasoningSummary => exact passDelta_moved hread (by decide) rfl (fun _ _ => rfl) h
      | toolArguments => exact passDelta_moved hread (by decide) rfl (fun _ _ => rfl) h
      | itemDone => exact itemDone_moved hread h
      | terminal =>
        exfalso
        dsimp only at h
        unfold Decoder.terminalEvent at h
        split at h
        · cases h
        · split at h
          · cases h
          · split at h <;> cases h
      | error => cases h
      | other => exact moved_aside hread (by decide) rfl rfl rfl rfl rfl

/-! ## the events of a stream -/

/-- events that are accepted one after the other, with what they emit, the last one not ending the
stream -/
inductive Streams (start : Decoder) : List (List UInt8) → List Delta → Decoder → Prop
  | nil : Streams start [] [] start
  | step {events : List (List UInt8)} {emitted : List Delta} {d : Decoder}
      (h : Streams start events emitted d)
      {bytes : List UInt8} (hok : (d.event bytes).result = .ok false) :
      Streams start (events ++ [bytes]) (emitted ++ (d.event bytes).emitted) (d.event bytes).decoder

variable {dialect : ResponseDialect} {events : List (List UInt8)} {emitted : List Delta}
    {last : List UInt8}

/-- what the decoder knows of the events so far -/
structure Kept (events : List (List UInt8)) (emitted : List Delta) (d : Decoder) : Prop where
  items : ∀ (i : Nat) (v : Value), d.items[i]? = some v ↔ ∃ item,
    (i, v, item) ∈ events.filterMap completedItem
  indices : ((events.filterMap completedItem).map Prod.fst).Nodup
  emitted : emitted.filterMap Delta.completed = (events.filterMap completedItem).map fun x => x.2.2
  id : ∀ bytes ∈ events, ∀ id, announcedId bytes = some id → d.responseId = some id

theorem Kept.new (dialect : ResponseDialect) : Kept [] [] (Decoder.new dialect) where
  items i v := by simp [Decoder.new]
  indices := List.nodup_nil
  emitted := rfl
  id _ h := nomatch h

theorem Kept.step (h : Kept events emitted d) {new : List Delta} (hm : Moved d bytes d' new) :
    Kept (events ++ [bytes]) (emitted ++ new) d' := by
  have hlist : (events ++ [bytes]).filterMap completedItem =
      events.filterMap completedItem ++ (completedItem bytes).toList := by
    rw [List.filterMap_append]
    cases hc : completedItem bytes with
    | none => rw [List.filterMap_cons_none hc]; rfl
    | some x => rw [List.filterMap_cons_some hc]; rfl
  refine ⟨fun i v => ?_, ?_, ?_, fun x hx id hid => ?_⟩
  · rw [hlist]
    cases hc : completedItem bytes with
    | none =>
      rw [hm.kept hc, h.items]
      simp
    | some x =>
      obtain ⟨index, item, normalized⟩ := x
      obtain ⟨hfree, hitems⟩ := hm.items _ hc
      rw [hitems, Std.ExtTreeMap.getElem?_insert]
      dsimp only at hfree ⊢
      split
      · rename_i he
        have he := Std.LawfulEqCmp.eq_of_compare he
        subst he
        constructor
        · rintro ⟨⟩
          exact ⟨normalized, List.mem_append_right _ (by simp)⟩
        · rintro ⟨n, hn⟩
          rcases List.mem_append.mp hn with hn | hn
          · rw [(h.items index v).mpr ⟨n, hn⟩] at hfree
            cases hfree
          · cases List.mem_singleton.mp hn
            rfl
      · rename_i hne
        rw [h.items]
        refine exists_congr fun n => ?_
        rw [List.mem_append]
        refine ⟨.inl, fun hn => hn.resolve_right fun hn => hne ?_⟩
        cases List.mem_singleton.mp hn
        exact Std.ReflCmp.compare_self
  · rw [hlist, List.map_append]
    cases hc : completedItem bytes with
    | none => simpa using h.indices
    | some x =>
      obtain ⟨hfree, -⟩ := hm.items _ hc
      rw [List.nodup_append]
      refine ⟨h.indices, List.nodup_singleton _, fun i hi j hj he => ?_⟩
      obtain ⟨y, hy, rfl⟩ := List.mem_map.mp hi
      rw [List.mem_singleton.mp hj] at he
      rw [← he, (h.items y.1 y.2.1).mpr ⟨y.2.2, hy⟩] at hfree
      cases hfree
  · rw [List.filterMap_append, h.emitted, hm.emitted, hlist, List.map_append]
  · rcases List.mem_append.mp hx with hx | hx
    · exact hm.sameId id (h.id x hx id hid)
    · rw [List.mem_singleton.mp hx] at hid
      exact hm.id id hid

theorem Streams.kept (h : Streams (Decoder.new dialect) events emitted d) :
    Kept events emitted d := by
  induction h with
  | nil => exact Kept.new dialect
  | step _ hok ih => exact ih.step (event_moved hok)

/-! ## the terminal event -/

/-- what an accepted terminal event establishes -/
structure Ended (d : Decoder) (last : List UInt8) (response : ProviderResponse) : Prop where
  id : ∀ id, d.responseId = some id → id = response.id
  lastId : announcedId last = some response.id
  confirmed : ∀ (i : Nat) (v : Value), d.items[i]? = some v →
    terminalItemConfirms v response.historyItems[i]? = true
  output : response.historyItems.mapM normalize = .ok response.output
  calls : callsDistinct ∅ response.output = true

theorem terminalResponse_ok {response : Value} {id : String} {r : ProviderResponse}
    (h : d.terminalResponse response id = .ok r) : r.id = id ∧
      (∀ (i : Nat) (v : Value), d.items[i]? = some v →
        terminalItemConfirms v r.historyItems[i]? = true) ∧
      r.historyItems.mapM normalize = .ok r.output ∧ callsDistinct ∅ r.output = true := by
  obtain ⟨name, -, h⟩ := bind_ok h
  obtain ⟨status, -, h⟩ := bind_ok h
  obtain ⟨listed, -, h⟩ := bind_ok h
  obtain ⟨-, h⟩ := refuseIf_bind h
  obtain ⟨u, hconfirmed, h⟩ := bind_ok h
  obtain ⟨output, houtput, h⟩ := bind_ok h
  obtain ⟨hcalls, h⟩ := refuseIf_bind h
  cases h
  refine ⟨rfl, fun i v hv => ?_, houtput, by simpa using hcalls⟩
  have hone := refuseIf_ok (checkAll_ok hconfirmed (i, v)
    (Std.ExtTreeMap.mem_toList_iff_getElem?_eq_some.mpr hv))
  simpa using hone

theorem created_result {announced : Bool} {event : Value} :
    (d.created announced event).result ≠ .ok true := by
  unfold Decoder.created
  split
  · exact fun h => nomatch h
  · split <;> exact fun h => nomatch h

theorem textDelta_result {event : Value} : (d.textDelta event).result ≠ .ok true := by
  unfold Decoder.textDelta
  split
  · exact fun h => nomatch h
  · dsimp only
    split <;> exact fun h => nomatch h

theorem passDelta_result {event : Value} {delta : String → String → Delta} :
    (d.passDelta delta event).result ≠ .ok true := by
  unfold Decoder.passDelta
  split <;> exact fun h => nomatch h

theorem itemDone_result {event : Value} : (d.itemDone event).result ≠ .ok true := by
  unfold Decoder.itemDone
  split
  · exact fun h => nomatch h
  · dsimp only
    split <;> exact fun h => nomatch h

theorem event_ended (h : (d.event last).result = .ok true) :
    ∃ response, (d.event last).decoder.terminal = some response ∧ (d.event last).emitted = [] ∧
      Ended d last response := by
  unfold Decoder.event at h ⊢
  cases hslice : fromSlice last with
  | none => rw [hslice] at h; cases h
  | some event =>
    rw [hslice] at h
    dsimp only at h ⊢
    cases htype : string event "type" with
    | error e => rw [htype] at h; cases h
    | ok name =>
      rw [htype] at h
      dsimp only at h ⊢
      have hread : readEvent last = some (EventKind.ofStr name, event) := by
        rw [readEvent, hslice]
        show ((event.get "type").bind Value.asStr).map _ = _
        rw [string_ok htype]
        rfl
      generalize EventKind.ofStr name = kind at h hread ⊢
      cases kind with
      | terminal =>
        dsimp only at h ⊢
        unfold Decoder.terminalEvent at h ⊢
        cases hevent : Decoder.eventId event with
        | error e => rw [hevent] at h; cases h
        | ok x =>
          obtain ⟨response, id⟩ := x
          rw [hevent] at h
          dsimp only at h ⊢
          cases hbind : Decoder.bindId { d with observed := true } id with
          | error e => rw [hbind] at h; cases h
          | ok d₁ =>
            obtain ⟨rfl, hsame⟩ := bindId_ok hbind
            rw [hbind] at h
            dsimp only at h ⊢
            split at h
            · cases h
            · rename_i r hr
              obtain ⟨hid, hconfirmed, houtput, hcalls⟩ := terminalResponse_ok hr
              refine ⟨r, rfl, rfl, fun id' h' => (hsame id' h').trans hid.symm, ?_, hconfirmed,
                houtput, hcalls⟩
              rw [announcedId, hread]
              dsimp only
              rw [if_pos (show EventKind.carriesId .terminal = true from rfl), hevent, hid]
              rfl
      | created => exact absurd h created_result
      | inProgress => exact absurd h created_result
      | text => exact absurd h textDelta_result
      | reasoningSummary => exact absurd h passDelta_result
      | toolArguments => exact absurd h passDelta_result
      | itemDone => exact absurd h itemDone_result
      | error => cases h
      | other => cases h

/-- an item is completed with its normal form, and it has no name twice if no document has -/
theorem completedItem_some (hreader : ∀ text v, JsonReader.fromStr text = some v → v.Keyed)
    {i : Nat}
    {v : Value} {item : OutputItem} (h : completedItem bytes = some (i, v, item)) :
    normalize v = .ok item ∧ v.Keyed := by
  unfold completedItem at h
  split at h
  · rename_i event hread
    cases hdone : Decoder.doneItem event with
    | error e => rw [hdone] at h; cases h
    | ok x =>
      rw [hdone] at h
      cases h
      obtain ⟨index, -, hdone⟩ := bind_ok hdone
      obtain ⟨w, hw, hdone⟩ := bind_ok hdone
      obtain ⟨n, hn, hdone⟩ := bind_ok hdone
      cases hdone
      refine ⟨hn, ?_⟩
      obtain ⟨e, he, hkind⟩ := Option.bind_eq_some_iff.mp hread
      obtain ⟨kind, -, hkind⟩ := Option.map_eq_some_iff.mp hkind
      obtain rfl : e = event := congrArg Prod.snd hkind
      obtain ⟨text, -, htext⟩ := Option.bind_eq_some_iff.mp he
      have hget : e.get "item" = some v := by
        cases hg : e.get "item" with
        | none => rw [hg] at hw; cases hw
        | some w => rw [hg] at hw; cases hw; rfl
      exact (hreader text e htext).get hget
  · cases h

theorem confirmed_call {v w : Value} {item : OutputItem} {id : String} (hc : Confirms v w)
    (hv : normalize v = .ok item) (hid : item.callId = some id) : w = v := by
  cases hc with
  | same => rfl
  | reasoning htype _ _ =>
    obtain ⟨kind, hkind, hv⟩ := bind_ok hv
    have hkind := string_ok hkind
    rw [show Value.get "type" (.object _) = lookup "type" _ from rfl, htype] at hkind
    cases hkind
    cases hv
    cases hid

/-- **A stream agrees with the response it ends with**: every item that it completed is the one at
the same index of the response, no call id is used twice, the response has one id throughout, and it
passes the check of recorded responses. -/
theorem stream_confirmed (hreader : ∀ text v, JsonReader.fromStr text = some v → v.Keyed)
    (h : Streams (Decoder.new dialect) events emitted d)
    (hlast : (d.event last).result = .ok true) :
    ∃ response, (d.event last).decoder.terminal = some response ∧ (d.event last).emitted = [] ∧
      emitted.filterMap Delta.completed = (events.filterMap completedItem).map (fun x => x.2.2) ∧
      ((events.filterMap completedItem).map Prod.fst).Nodup ∧
      (∀ i v item, (i, v, item) ∈ events.filterMap completedItem → normalize v = .ok item ∧
        ∃ w, response.historyItems[i]? = some w ∧ Confirms v w) ∧
      ((emitted.filterMap Delta.completed).filterMap OutputItem.callId).Nodup ∧
      (response.output.filterMap OutputItem.callId).Nodup ∧
      (∀ bytes ∈ events ++ [last], ∀ id, announcedId bytes = some id → id = response.id) ∧
      response.validateRecorded = .ok () := by
  have hkept := h.kept
  obtain ⟨response, hterminal, hsilent, hended⟩ := event_ended hlast
  have hcalls := callsDistinct_empty.mp hended.calls
  have hitem : ∀ i v item, (i, v, item) ∈ events.filterMap completedItem → normalize v = .ok item ∧
      ∃ w, response.historyItems[i]? = some w ∧ Confirms v w := by
    intro i v item hx
    obtain ⟨bytes, -, hbytes⟩ := List.mem_filterMap.mp hx
    obtain ⟨hnormal, hkeyed⟩ := completedItem_some hreader hbytes
    exact ⟨hnormal, terminalItemConfirms_some hkeyed
      (hended.confirmed i v ((hkept.items i v).mpr ⟨item, hx⟩))⟩
  refine ⟨response, hterminal, hsilent, hkept.emitted, hkept.indices, hitem, ?_, hcalls, ?_, ?_⟩
  · -- two items of the stream with one call id are at one place of the response
    rw [hkept.emitted, List.filterMap_map, List.Nodup, List.pairwise_filterMap]
    refine (List.pairwise_map.mp hkept.indices).imp_of_mem fun {x y} hx hy hne a ha b hb he => ?_
    subst he
    refine hne (callId_place hcalls ?_ ?_ ha hb)
    · obtain ⟨hnormal, w, hw, hconfirms⟩ := hitem x.1 x.2.1 x.2.2 hx
      rw [confirmed_call hconfirms hnormal ha] at hw
      obtain ⟨b, hb, hget⟩ := (mapM_getElem hended.output).2 x.1 x.2.1 hw
      cases hnormal.symm.trans hb
      exact hget
    · obtain ⟨hnormal, w, hw, hconfirms⟩ := hitem y.1 y.2.1 y.2.2 hy
      rw [confirmed_call hconfirms hnormal hb] at hw
      obtain ⟨b, hb, hget⟩ := (mapM_getElem hended.output).2 y.1 y.2.1 hw
      cases hnormal.symm.trans hb
      exact hget
  · intro bytes hbytes id hid
    rcases List.mem_append.mp hbytes with hbytes | hbytes
    · exact hended.id id (hkept.id bytes hbytes id hid)
    · rw [List.mem_singleton.mp hbytes, hended.lastId] at hid
      exact (Option.some.inj hid).symm
  · rw [ProviderResponse.validateRecorded, hended.output, ok_bind]
    exact refuseIf_of_not _ (by simp [hended.calls])

end

/-! ## a stream of one item -/

namespace Sample

/-- a reasoning item with its encryption -/
def reasoning (encrypted : String) : Value :=
  .object [("encrypted_content", .string encrypted), ("type", .string "reasoning")]

def done : Value :=
  .object [("item", reasoning "a"), ("output_index", .number "0"),
    ("type", .string "response.output_item.done")]

def completed : Value :=
  .object [("response", .object [("id", .string "r"), ("output", .array [reasoning "b"]),
    ("status", .string "completed")]), ("type", .string "response.completed")]

scoped instance jsonReader : JsonReader where
  fromStr text := [done, completed].find? fun v => v.text = text.toList

theorem reasoning_keyed (encrypted : String) : (reasoning encrypted).Keyed :=
  .object (show ["encrypted_content", "type"].Nodup by decide)
    (List.forall_mem_cons.mpr ⟨.string _, List.forall_mem_singleton.mpr (.string _)⟩)

theorem reader_keyed (text : String) (v : Value) (h : JsonReader.fromStr text = some v) :
    v.Keyed := by
  have hmem : v ∈ [done, completed] := List.mem_of_find?_eq_some h
  rcases List.mem_cons.mp hmem with rfl | hmem
  · exact .object (by decide) (List.forall_mem_cons.mpr ⟨reasoning_keyed _,
      List.forall_mem_cons.mpr ⟨.number _, List.forall_mem_singleton.mpr (.string _)⟩⟩)
  · rw [List.mem_singleton.mp hmem]
    refine .object (by decide) (List.forall_mem_cons.mpr
      ⟨?_, List.forall_mem_singleton.mpr (.string _)⟩)
    exact .object (by decide) (List.forall_mem_cons.mpr ⟨.string _, List.forall_mem_cons.mpr
      ⟨.array (List.forall_mem_singleton.mpr (reasoning_keyed _)),
        List.forall_mem_singleton.mpr (.string _)⟩⟩)

/-- the item of the stream is confirmed although it was encrypted again -/
theorem stream_confirmed_reasoning :
    ∃ response : ProviderResponse, response.validateRecorded = .ok () ∧
      ∃ w, response.historyItems[0]? = some w ∧ Confirms (reasoning "a") w := by
  have hdone : ((Decoder.new .openAi).event (toVec done)).result = .ok false := by decide +kernel
  have hlast : ((((Decoder.new .openAi).event (toVec done)).decoder).event
    (toVec completed)).result =
      .ok true := by decide +kernel
  obtain ⟨response, -, -, -, -, hitems, -, -, -, hvalid⟩ :=
    stream_confirmed reader_keyed (.step .nil hdone) hlast
  refine ⟨response, hvalid, (hitems 0 (reasoning "a") (.other (reasoning "a")) ?_).2⟩
  decide +kernel

end Sample

end Orvek.Inference
