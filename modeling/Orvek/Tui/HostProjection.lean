import Orvek.Tui.Changes
import Orvek.Session.Apply
import Orvek.Ipc.WatchFrame

/-!
# From the journal to the view

A pane projects the frames of its watch to changes of the view.  Records are facts; previews are shown until the record
is there that confirms them.

* `projectItems`, `contentText`   the items of a history as changes;
* `sessionEvent`, `journal`       what a record changes, and what it shows;
* `apply`, `run`                  a frame, and any number of them.
-/

namespace Orvek.Tui
open Json Inference

instance : Ord TaskId := ⟨compareOn TaskId.uuid⟩
instance : Std.TransOrd TaskId := inferInstanceAs <| Std.TransCmp (compareOn _)
instance : Std.LawfulEqOrd TaskId where
  eq_of_compare {a b} h := by
    cases a; cases b
    exact congrArg TaskId.mk (Std.LawfulEqOrd.eq_of_compare h)

/-- `serde_json::from_value` of the two events, with the text of its error, and `Uuid::parse_str` -/
class EventReader where
  session : Value → Except String SessionEvent
  task : Value → Except String TaskEvent
  uuid : String → Option Uuid

/-! ## items -/

def contentPart (images : Bool) (part : Value) : Option String :=
  match (part.index "type").asStr with
  | some kind =>
    if kind = "input_text" ∨ kind = "output_text" ∨ kind = "text" then (part.index "text").asStr
    else if kind = "refusal" then (part.index "refusal").asStr
    else if (kind = "input_image" ∨ kind = "tact_image") ∧ images = true then some "[Image]"
    else none
  | none => none

def contentText (content : Value) (images : Bool) : String :=
  match content.asStr with
  | some text => text
  | none => (content.asArray.map fun parts => String.join (parts.filterMap (contentPart images))).getD ""

/-- the phase of a message says whether it is the final answer; without one it may be inferred -/
def finalAnswer (inferredFinal : Bool) (item : Value) : Bool :=
  match item.get "phase" with
  | some (.string phase) => phase = "final_answer"
  | none | some .null => inferredFinal
  | some _ => false

def projectItem (request : Option Uuid) (inferredFinal : Bool) (item : Value) : Option ViewChange :=
  let kind := ((item.index "type").asStr).getD "message"
  if kind = "message" then
    match (item.index "role").asStr with
    | some role =>
      if role = "user" then some (.user request (contentText (item.index "content") true))
      else if role = "developer" then some (.status ("Feedback: " ++ contentText (item.index "content") false))
      else if role = "assistant" then
        some (.assistant request (((item.index "id").asStr).getD "message") (contentText (item.index "content") false) true
          true (finalAnswer inferredFinal item))
      else none
    | none => none
  else if kind = "function_call" then do
    let callId ← (item.index "call_id").asStr
    let name ← (item.index "name").asStr
    let arguments ← (item.index "arguments").asStr
    some (.toolProposed request (item.index "id").asStr callId name arguments)
  else if kind = "function_call_output" then do
    let callId ← (item.index "call_id").asStr
    let output ← (item.index "output").asStr
    some (.toolResult callId output)
  else if kind = "reasoning" then
    some (.reasoning request (((item.index "id").asStr).getD "reasoning")
      ((((item.index "summary").asArray).map fun parts =>
        "\n".intercalate (parts.filterMap fun part => (part.index "text").asStr)).getD "") true)
  else none

def projectItems (request : Option Uuid) (items : List Value) (inferredFinal : Bool) : List ViewChange :=
  items.filterMap (projectItem request inferredFinal)

def historyItems (request : Option Uuid) (items : List Value) : List ViewChange := projectItems request items false

/-- a response with one message, all of whose items are complete, ends with its final answer -/
def inferredFinal (items : List Value) : Bool :=
  (items.filter fun item => item.fieldIs "role" "assistant").length == 1 &&
    items.all fun item =>
      let kind := ((item.index "type").asStr).getD "message"
      if kind = "reasoning" then true
      else if kind = "message" then
        item.fieldIs "role" "assistant" &&
          match (item.index "status").asStr with
          | none => true
          | some status => status == "completed"
      else false

/-! ## the projection -/

structure HostProjection where
  toolOutputs : ToolOutputBuffers
  session : SessionId
  sequence : Nat
  revision : Nat
  recordedMs : Nat
  activeRequest : Option Uuid
  confirmedItems : BTreeSet String
  auxiliary : BTreeMap Uuid Bool
  tasks : BTreeSet TaskId
  taskOrder : List TaskId
  warnings : List HostWarning

def maxAuxiliary : Nat := 128
def maxTasks : Nat := 256

def interpreterMessage : InterpreterEvent → String
  | .started cell .. => "Interpreter cell " ++ cell.display ++ " running"
  | .callStarted cell ordinal _ name _ =>
    "Interpreter " ++ cell.display ++ "/" ++ showUsize ordinal ++ ": " ++ name ++ " pending"
  | .callSettled cell ordinal result =>
    "Interpreter " ++ cell.display ++ "/" ++ showUsize ordinal ++ ": receipt " ++ result.display
  | .settled cell _ _ stateLost =>
    "Interpreter cell " ++ cell.display ++ " settled; live state lost: " ++ (if stateLost then "true" else "false")

/-- an auxiliary whose answer is shown in the conversation -/
def AuxiliarySpec.visible (spec : AuxiliarySpec) : Bool :=
  spec.kind = .conversation ∨ spec.kind = .reflection

/-- whether previews of a submission are shown; other work is not classified -/
def previewVisible : WorkIntent → Option Bool
  | .auxiliary spec => some (AuxiliarySpec.visible spec)
  | .ordinary .. => some true
  | _ => none

/-- the item of a delta that a response may have confirmed -/
def deltaItem : Delta → Option String
  | .text item _ | .reasoningSummary item _ | .toolArguments item _ => some item
  | .created _ | .itemDone _ => none

/-- entries go from the smallest key on, until there are few enough -/
def trimAuxiliary : Nat → BTreeMap Uuid Bool → BTreeMap Uuid Bool
  | 0, auxiliary => auxiliary
  | fuel + 1, auxiliary =>
    if maxAuxiliary < auxiliary.size then
      match auxiliary.minKey? with
      | some key => trimAuxiliary fuel (auxiliary.erase key)
      | none => auxiliary
    else auxiliary

namespace HostProjection
variable (p : HostProjection)

def new (session : SessionId) (after : Nat) : HostProjection where
  toolOutputs := ∅
  session
  sequence := after
  revision := 0
  recordedMs := 0
  activeRequest := none
  confirmedItems := ∅
  auxiliary := ∅
  tasks := ∅
  taskOrder := []
  warnings := []

def atSnapshot (id : SessionId) (journalSequence revision : Nat) (activeRequest : Option Uuid)
    (currentTask : Option TaskId) : HostProjection :=
  let p := { new id journalSequence with revision, activeRequest }
  match currentTask with
  | some task => { p with tasks := p.tasks.insert task, taskOrder := p.taskOrder ++ [task] }
  | none => p

def classifyAuxiliary (request : Uuid) (visible : Bool) : HostProjection :=
  let auxiliary := p.auxiliary.insert request visible
  { p with
    activeRequest := if visible = false ∧ p.activeRequest = some request then none else p.activeRequest
    auxiliary := trimAuxiliary auxiliary.size auxiliary }

/-- the projection of a pane that is set up: the auxiliary at work, if there is one, is classified -/
def prepareInstall (id : SessionId) (journalSequence revision : Nat) (activeRequest : Option Uuid)
    (currentTask : Option TaskId) (activeAuxiliary : Option (Uuid × Bool)) : HostProjection :=
  let p := atSnapshot id journalSequence revision activeRequest currentTask
  match activeAuxiliary with
  | some (request, visible) => p.classifyAuxiliary request visible
  | none => p

def visibleRequest (request : Uuid) : Bool := p.auxiliary[request]? ≠ some false

def begin (request : Uuid) : HostProjection := { p with activeRequest := some request, confirmedItems := ∅ }

def finish (request : Uuid) : HostProjection :=
  if p.activeRequest = some request then { p with activeRequest := none, confirmedItems := ∅ } else p

/-- the items of a response are final -/
def confirm (request : Uuid) (items : List Value) : HostProjection :=
  if p.activeRequest = some request then
    { p with confirmedItems := p.confirmedItems.insertMany (items.filterMap fun item => (item.index "id").asStr) }
  else p

/-- a task is followed; the one that was linked first goes when there are too many -/
def link (task : TaskId) : HostProjection :=
  if task ∈ p.tasks then p
  else
    let p := { p with tasks := p.tasks.insert task, taskOrder := p.taskOrder ++ [task] }
    if maxTasks < p.taskOrder.length then
      match p.taskOrder with
      | oldest :: order => { p with taskOrder := order, tasks := p.tasks.erase oldest }
      | [] => p
    else p

def command [Sha256] (operation : Uuid) : SessionCommand StoredView → List ViewChange × HostProjection
  | .traceRecorded .. | .childLifecycle _ | .contextTransition _ | .admissionPinned .. | .legacyImportBound _
  | .completionHook _ | .auxiliaryRecorded .. | .contextPrepared .. => ([], p)
  | .interpreter _ event => ([.status (interpreterMessage event)], p)
  | .reviewRecorded _ => ([.reviewRecorded], p)
  | .shellStarted _ => ([.shellStarted], p)
  | .shellPublished .. => ([.shellPublished], p)
  | .workspaceSaved .. => ([.workspaceSaved], p)
  | .auxiliaryStarted =>
    if p.auxiliary[operation]? = some true then ([.requestStarted operation], p.begin operation) else ([], p)
  | .auxiliaryPublished request _ text =>
    ((text.map fun text => ViewChange.assistant (some request) ("auxiliary-" ++ request.display) text true true
      true).toList, p.finish request)
  | .queueEdited .. | .queueMoved .. => ([.queueChanged], p)
  | .submitted submission =>
    ([.submission], match previewVisible submission.intent with
      | some visible => p.classifyAuxiliary submission.id visible
      | none => p)
  | .submissionChanged .. => ([.submissionChanged], p)
  | .input _ content => (.requestStarted operation :: historyItems (some operation) content, p.begin operation)
  | .response request items => (projectItems (some request) items (inferredFinal items), p.confirm request items)
  | .providerUsage _ call .. => ([.providerUsage call], p)
  | .providerCost _ call costUsd => ([.providerCost call (costUsd.bind UsdCost.ofNat)], p)
  | .toolResultPart request callId offset output =>
    match p.toolOutputs.append request callId offset output with
    | .ok toolOutputs => ([], { p with toolOutputs })
    | .error e => ([.warning e.text], p)
  | .toolResultEnd request callId digest =>
    match p.toolOutputs.finish request callId digest with
    | .ok (output, toolOutputs) => ([.toolResult callId output], { p with toolOutputs })
    | .error e => ([.warning e.text], p)
  | .toolResult _ callId output => ([.toolResult callId output], p)
  | .taskLinked _ task => ([.taskLinked task], p.link task)
  | .turnSettled request _ error =>
    let settled := { p with auxiliary := p.auxiliary.erase request }
    if p.auxiliary[request]? = some false then ([], settled)
    else ([.requestSettled request error], settled.finish request)
  | .settingsChanged settings => ([.settings settings], p)
  | .contextProjected .. => ([.contextProjected], p)
  | .feedback message => ([.status ("Feedback: " ++ message)], p)

def sessionEvent [Sha256] : SessionEvent → List ViewChange × HostProjection
  | .created creation =>
    (.session creation.parent ::
      ((creation.imported.map fun source => ViewChange.historicalImport source.manifest source.sourceSession).toList ++
        historyItems none creation.history), { p with recordedMs := creation.startedMs })
  | .command operation command atMs => { p with recordedMs := atMs }.command operation command

def taskEvent (id : TaskId) : TaskEvent → List ViewChange
  | .jobStarted job => if (job.invocation.any fun i => i.session ≠ p.session) then [] else [.task id (.jobStarted job)]
  | event => [.task id event]

section
variable [Sha256] [EventReader]

/-- the changes of a record that is new, and what it leaves but for the sequence -/
def record (r : JournalRecord) : List ViewChange × HostProjection :=
  if r.kind = "session" ∧ r.aggregate = p.session.display then
    let p := { p with revision := r.revision }
    match EventReader.session r.event with
    | .ok event => p.sessionEvent event
    | .error error => ([.warning ("Cannot display host session event: " ++ error)], p)
  else if r.kind = "task" then
    match ((EventReader.uuid r.aggregate).map TaskId.mk).filter fun id => id ∈ p.tasks with
    | some id =>
      match EventReader.task r.event with
      | .ok event => (p.taskEvent id event, p)
      | .error error => ([.warning ("Cannot display host task event: " ++ error)], p)
    | none => ([], p)
  else ([], p)

def journal (r : JournalRecord) : List ViewChange × HostProjection :=
  if r.sequence ≤ p.sequence then ([], p)
  else
    let (changes, q) := p.record r
    (changes, { q with sequence := r.sequence })

def preview (request : Uuid) (delta : Delta) : List ViewChange :=
  if (deltaItem delta).any fun item => item ∈ p.confirmedItems then []
  else match delta with
    | .text item text =>
      [.assistant (some request) (if request ∈ p.auxiliary then "auxiliary-" ++ request.display else item) text false
        false false]
    | .reasoningSummary item text => [.reasoning (some request) item text false]
    | .toolArguments item arguments => [.toolArguments (some request) item arguments]
    | .created _ | .itemDone _ => []

def apply : WatchFrame → List ViewChange × HostProjection
  | .warnings warnings =>
    ((warnings.filter fun w => w ∉ p.warnings).map fun w => .warning w.message, { p with warnings })
  | .journal r => p.journal r
  | .preview session request delta =>
    if session = p.session ∧ p.activeRequest = some request then (p.preview request delta, p) else ([], p)
  | .previewGap _ => ([.discardPreviews], p)
  | .subagent .. | .ready .. => ([], p)

def run : HostProjection → List WatchFrame → List (List ViewChange) × HostProjection
  | p, [] => ([], p)
  | p, frame :: frames =>
    let (changes, p) := p.apply frame
    let (rest, p) := run p frames
    (changes :: rest, p)

end

end HostProjection

end Orvek.Tui
