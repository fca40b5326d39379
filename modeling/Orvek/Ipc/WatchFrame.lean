import Orvek.Store.Pages
import Orvek.Inference.Decoder

/-!
# What a watch sends

* `sizeBound`                      how long a document gets, from the lengths of its texts;
* `HostWarning`, `SubagentEvent`   a warning of the host; what becomes of a subagent;
* `WatchFrame`                     a frame of a watch, and `WatchFrame.json` the document it is sent as;
* `size_journalFrame`              a journal frame has little more than its record.
-/

namespace Orvek
open Json
open Inference (Delta)

/-! ## how long a document gets -/

mutual

def sizeBound : Value → Nat
  | .null => 4
  | .bool _ => 5
  | .number text => strLen text
  | .string s => 6 * strLen s + 2
  | .array items => 2 + itemsBound items
  | .object fields => 2 + fieldsBound fields

def itemsBound : List Value → Nat
  | [] => 0
  | v :: items => sizeBound v + 1 + itemsBound items

def fieldsBound : List (String × Value) → Nat
  | [] => 0
  | (k, v) :: fields => 6 * strLen k + sizeBound v + 4 + fieldsBound fields

end

mutual

theorem size_le_bound : ∀ v : Value, v.size ≤ sizeBound v
  | .null => by decide
  | .bool true => by decide
  | .bool false => by decide
  | .number text => by
    rw [sizeBound, strLen_eq]
    exact Nat.le_refl _
  | .string s => by
    have h := escapedLength_le s
    rw [size_string, sizeBound]
    omega
  | .array items => by
    have h := items_le_bound items
    have hlength := toVec_array_length_le items
    rw [toVec_length] at hlength
    rw [sizeBound]
    omega
  | .object [] => by decide
  | .object (f :: fields) => by
    have h := fields_le_bound (f :: fields)
    rw [size_object, sizeBound]
    omega

theorem items_le_bound : ∀ items : List Value, (items.map fun v => v.size + 1).sum ≤ itemsBound items
  | [] => Nat.le_refl _
  | v :: items => by
    have hv := size_le_bound v
    have h := items_le_bound items
    rw [List.map_cons, List.sum_cons, itemsBound]
    omega

theorem fields_le_bound : ∀ fields : List (String × Value), (fields.map fieldSize).sum ≤ fieldsBound fields
  | [] => Nat.le_refl _
  | (k, v) :: fields => by
    have hk := escapedLength_le k
    have hv := size_le_bound v
    have h := fields_le_bound fields
    rw [List.map_cons, List.sum_cons, fieldsBound, fieldSize]
    show escapedLength k + v.size + 4 + _ ≤ _
    omega

end

/-! ## warnings and subagents -/

inductive HostWarning where
  | monitorUnavailable | monitorStatusUnavailable | eventIntakeStopped | completionHookRecoveryFailed |
      sessionNoticeUnavailable
  deriving DecidableEq

namespace HostWarning

def text : HostWarning → String
  | monitorUnavailable => "monitor_unavailable"
  | monitorStatusUnavailable => "monitor_status_unavailable"
  | eventIntakeStopped => "event_intake_stopped"
  | completionHookRecoveryFailed => "completion_hook_recovery_failed"
  | sessionNoticeUnavailable => "session_notice_unavailable"

def message : HostWarning → String
  | monitorUnavailable => "Trace monitoring failed. User tasks can continue; monitoring will retry."
  | monitorStatusUnavailable => "The monitor failure status could not be saved. This warning is available only in the current host process."
  | eventIntakeStopped => "Background event intake stopped. Inspect pending events before restarting the host; do not replay uncertain effects."
  | completionHookRecoveryFailed => "Completion-hook recovery failed. Inspect durable delivery records before restarting the host; do not replay uncertain effects."
  | sessionNoticeUnavailable => "A session warning could not be saved. Some nonfatal diagnostics are missing from session history."

end HostWarning

inductive SubagentEvent where
  | spawned (session : SessionId) (request agent : Uuid) (parent : Option Uuid) (role task model : String)
  | returned (session : SessionId) (agent : Uuid) (output : Digest)
  | unsubmitted (session : SessionId) (agent : Uuid) (diagnostic : String)
  | failed (session : SessionId) (agent : Uuid) (error : String)
  | cancelled (session : SessionId) (agent : Uuid)
  deriving DecidableEq

namespace SubagentEvent

def session : SubagentEvent → SessionId
  | spawned session .. | returned session .. | unsubmitted session .. | failed session .. | cancelled session .. =>
    session

def json : SubagentEvent → Value
  | spawned session request agent parent role task model => .object [("Spawned", .object
      [("session", .string session.display), ("request", .string request.display), ("agent", .string agent.display),
        ("parent", optional (fun id : Uuid => .string id.display) parent), ("role", .string role),
        ("task", .string task), ("model", .string model)])]
  | returned session agent output => .object [("Returned", .object
      [("session", .string session.display), ("agent", .string agent.display), ("output", .string output.display)])]
  | unsubmitted session agent diagnostic => .object [("Unsubmitted", .object
      [("session", .string session.display), ("agent", .string agent.display), ("diagnostic", .string diagnostic)])]
  | failed session agent error => .object [("Failed", .object
      [("session", .string session.display), ("agent", .string agent.display), ("error", .string error)])]
  | cancelled session agent => .object [("Cancelled", .object
      [("session", .string session.display), ("agent", .string agent.display)])]

end SubagentEvent

/-! ## deltas -/

namespace Inference

def ArgumentValidity.text : ArgumentValidity → String
  | .jsonObject => "json_object"
  | .malformedJson => "malformed_json"
  | .notObject => "not_object"

def OutputItem.json : OutputItem → Value
  | .message id text refusals => .object [("kind", .string "message"), ("id", .string id), ("text", .string text),
      ("refusals", .array (refusals.map .string))]
  | .toolProposal p => .object [("kind", .string "tool_proposal"), ("item_id", .string p.itemId),
      ("call_id", .string p.callId), ("name", .string p.name), ("arguments", .string p.arguments),
      ("validity", .string p.validity.text)]
  | .other item => .object [("kind", .string "opaque"), ("item", item)]

def Delta.json : Delta → Value
  | .created id => .object [("kind", .string "created"), ("response_id", .string id)]
  | .text item chunk => .object [("kind", .string "text"), ("item_id", .string item), ("text", .string chunk)]
  | .reasoningSummary item chunk => .object [("kind", .string "reasoning_summary"), ("item_id", .string item),
      ("text", .string chunk)]
  | .toolArguments item arguments => .object [("kind", .string "tool_arguments"), ("item_id", .string item),
      ("arguments", .string arguments)]
  | .itemDone item => .object [("kind", .string "item_done"), ("item", item.json)]

end Inference

/-! ## frames -/

inductive WatchFrame where
  | warnings (warnings : List HostWarning)
  | journal (record : JournalRecord)
  | preview (session : SessionId) (request : Uuid) (delta : Delta)
  | previewGap (dropped : Nat)
  | subagent (session : SessionId) (event : SubagentEvent)
  | ready (after through : Nat)
  deriving DecidableEq

namespace WatchFrame

/-- a frame under its tag -/
def tagged (tag : String) (data : Value) : Value := .object [("type", .string tag), ("data", data)]

def json : WatchFrame → Value
  | warnings current => tagged "warnings" (.object [("warnings", .array (current.map fun w => .string w.text))])
  | journal record => tagged "journal" record.json
  | preview session request delta => tagged "preview" (.object [("session", .string session.display),
      ("request", .string request.display), ("delta", delta.json)])
  | previewGap dropped => tagged "preview_gap" (.object [("dropped", .number (showUsize dropped))])
  | subagent session event => tagged "subagent" (.object [("session", .string session.display),
      ("event", event.json)])
  | ready after through => tagged "ready" (.object [("after", .number (showUsize after)),
      ("through", .number (showUsize through))])

def record? : WatchFrame → Option JournalRecord
  | journal record => some record
  | _ => none

theorem size_tagged (tag : String) (data : Value) : (tagged tag data).size = escapedLength tag + data.size + 19 := by
  have htype : escapedLength "type" = 4 := by decide
  have hdata : escapedLength "data" = 4 := by decide
  rw [tagged, size_object]
  simp only [List.map_cons, List.map_nil, List.sum_cons, List.sum_nil, fieldSize, htype, hdata, size_string]
  omega

theorem toVec_json_ne (f : WatchFrame) : toVec f.json ≠ [] := by
  have hpos : 0 < f.json.size := by
    cases f <;> rw [json, size_tagged] <;> omega
  rw [← toVec_length] at hpos
  exact List.length_pos_iff.mp hpos

end WatchFrame

theorem size_readyFrame (after through : Nat) :
    (toVec (WatchFrame.ready after through).json).length ≤ 1024 := by
  have htag : escapedLength "ready" = 5 := by decide
  have hafter : escapedLength "after" = 5 := by decide
  have hthrough : escapedLength "through" = 7 := by decide
  have hfirst := size_number after
  have hlast := size_number through
  rw [toVec_length, WatchFrame.json, WatchFrame.size_tagged, htag, size_object]
  simp only [List.map_cons, List.map_nil, List.sum_cons, List.sum_nil, fieldSize, hafter, hthrough]
  omega

theorem size_noWarnings : (toVec (WatchFrame.warnings []).json).length ≤ 1024 := by
  rw [toVec_length]
  exact (size_le_bound _).trans (by decide)

section
variable [Sha256] [ContractCodec] [SessionCodec] [StoreCodec] [JsonReader] [JournalReader]

/-- **The frame of a stored record is far below the limit of frames.** -/
theorem size_journalFrame {r : StoredEvent} (htext : r.IsText) (hsize : r.event.length ≤ maxEventBytes) :
    (toVec (WatchFrame.journal r.record).json).length ≤ maxEventBytes + 1024 := by
  have hrecord := size_storedRecord htext
  have htag : escapedLength "journal" = 7 := by decide
  rw [toVec_length, WatchFrame.json, WatchFrame.size_tagged, htag]
  omega

end

end Orvek
