import Orvek.Tui.Changes
import Orvek.Lib.SecondaryIndex

/-!
# The transcript

The rows that the view shows, newest last, at most `maxEntries` of them, with the indexes by which later changes
find the row they are about.

* `push`, `update`, `discardToolPreviews`   rows that come, change and go;
* `applyHost`, `applyLocal`, `apply`        what a record does;
* `applyMessage`, `trimMessageHistory`      what a message does;
* `ModelChange`                             what a view is told of it.
-/

namespace Orvek.Tui
open Json SecondaryIndex

def maxRetainedMessageThreads : Nat := 256
def maxEntries : Nat := 2048
def maxTextBytes : Nat := 64 * 1024

structure MessageKey where
  owner : Option Uuid
  item : String
  deriving DecidableEq

instance : Ord MessageKey := ⟨compareLex (compareOn MessageKey.owner) (compareOn MessageKey.item)⟩
instance : Std.TransOrd MessageKey := inferInstanceAs <| Std.TransCmp (compareLex (compareOn _) (compareOn _))
instance : Std.LawfulEqOrd MessageKey where
  eq_of_compare {a b} h := by
    obtain ⟨howner, hitem⟩ := compareLex_eq_eq.mp h
    cases a; cases b
    exact congr (congrArg MessageKey.mk (Std.LawfulEqOrd.eq_of_compare howner)) (Std.LawfulEqOrd.eq_of_compare hitem)

structure ModelChange where
  changed : Bool
  removed : List EntryId
  deriving DecidableEq

def ModelChange.none : ModelChange := ⟨false, []⟩

structure TranscriptModel where
  entries : List TranscriptEntry
  entryIndices : BTreeMap EntryId Nat
  nextEntryId : Nat
  assistants : BTreeMap MessageKey EntryId
  reasoning : BTreeMap MessageKey EntryId
  users : BTreeMap Uuid EntryId
  tools : BTreeMap String EntryId
  toolItems : BTreeMap MessageKey EntryId
  pendingToolPreviews : BTreeSet EntryId
  jobs : BTreeMap Uuid EntryId
  activeRequests : BTreeMap Uuid Nat
  runningTools : BTreeSet EntryId
  transient : Option TransientStatus
  messageThreads : BTreeMap ThreadId EntryId
  messageOrder : List ThreadId
  evicted : List EntryId
  discardedPreviews : List EntryId
  historyTruncated : Bool

def TranscriptModel.default : TranscriptModel where
  entries := []
  entryIndices := ∅
  nextEntryId := 0
  assistants := ∅
  reasoning := ∅
  users := ∅
  tools := ∅
  toolItems := ∅
  pendingToolPreviews := ∅
  jobs := ∅
  activeRequests := ∅
  runningTools := ∅
  transient := Option.none
  messageThreads := ∅
  messageOrder := []
  evicted := []
  discardedPreviews := []
  historyTruncated := false

/-! ## texts -/

def bytesPrefix : Nat → List Char → List Char
  | _, [] => []
  | limit, c :: cs => if c.utf8Size ≤ limit then c :: bytesPrefix (limit - c.utf8Size) cs else []

def bounded (text : String) : String :=
  if strLen text ≤ maxTextBytes then text
  else String.ofList (bytesPrefix maxTextBytes text.toList) ++ "\n[Display truncated; full data remains in host history]"

def appendBounded (current text : String) : String :=
  if maxTextBytes < strLen current then current
  else if maxTextBytes < strLen (current ++ text) then bounded (current ++ text)
  else current ++ text

def outcomeName : Outcome → String
  | .complete => "complete"
  | .deliveredWithExceptions => "delivered with exceptions"
  | .blocked => "blocked"
  | .budgetExhausted => "budget exhausted"
  | .cancelled => "cancelled"
  | .failed => "failed"
  | .finishedUnverified => "finished unverified"

/-- the `Debug` texts of a phase and of a kind of delivery -/
def phaseName : Phase → String
  | .understand => "Understand"
  | .baseline => "Baseline"
  | .implement => "Implement"
  | .challenge => "Challenge"
  | .verify => "Verify"
  | .deliver => "Deliver"

def deliveryKindName : DeliveryKind → String
  | .patch => "Patch"
  | .source => "Source"
  | .package => "Package"
  | .deployment => "Deployment"
  | .report => "Report"

/-- `str::trim_start_matches` -/
def trimStartMatches (pattern : List Char) : Nat → List Char → List Char
  | 0, text => text
  | fuel + 1, text => if pattern.isPrefixOf text then trimStartMatches pattern fuel (text.drop pattern.length) else text

def humanizeTool (name : String) : String :=
  ((String.ofList (trimStartMatches ['m', 'c', 'p', '_', '_'] name.length name.toList)).replace "__" " · ").replace "_" " "

/-- the line of a task event, and whether it is verified; most events have none -/
def taskLine : TaskEvent → Option (String × Bool)
  | .contractAdmitted contract _ _ | .contractAmended contract _ =>
    some (toString contract.requirements.length ++ " required outcomes · " ++ toString contract.checks.size ++
      " acceptance checks", false)
  | .phaseChanged phase => some (phaseName phase, false)
  | .completed certificate =>
    some ("complete · artifact " ++ certificate.artifact.display ++ " · " ++ toString certificate.evidence.size ++
      " accepted evidence records", true)
  | .stopped .finishedUnverified _ => none
  | .stopped outcome reason => some (outcomeName outcome ++ " · " ++ reason, false)
  | .evidenceInvalidated reason | .workspaceChanged reason => some ("evidence stale · " ++ reason, false)
  | .delivered delivery =>
    some (deliveryKindName delivery.kind ++ " artifact prepared · " ++ delivery.artifact.display, false)
  | .interrupted reason | .reopened reason => some (reason, false)
  | _ => none

def deliveryAdvances (current next : MessageDeliveryState) : Bool :=
  current ≠ next && match current with
    | .admitted _ => true
    | _ => false

/-- what `serde_json` does for the view: reading a text, and writing a number of seconds -/
structure SerdeJson where
  fromStr : String → Option Value
  seconds : Nat → Value

/-- `Value::as_u64` and `Value::as_i64` -/
def valueU64 : Value → Option Nat
  | .number text => text.toNat?.filter (· ≤ u64Max)
  | _ => none

def valueI64 : Value → Option Int
  | .number text => text.toInt?.filter fun n => decide (-2 ^ 63 ≤ n ∧ n < 2 ^ 63)
  | _ => none

def decodeOutput (part : Value) : String :=
  match (part.index "encoding").asStr with
  | some "utf8" => ((part.index "data").asStr).getD ""
  | some "base64" =>
    "[Binary output: " ++ String.ofList (part.index "bytes").text ++ " bytes; original data is in the host receipt]"
  | _ => ""

def displayToolResult (serde : SerdeJson) (name : String) (value : Value) : Value × Option Nat :=
  let value :=
    if (value.get "task_id").isSome && (value.get "job_id").isSome && (value.get "generation").isSome then
      (value.get "result").getD value
    else value
  if name ≠ "exec_command" || ((value.get "status").bind (·.get "kind")).isNone then (value, none)
  else
    let output := "\n".intercalate
      ([decodeOutput (value.index "stdout"), decodeOutput (value.index "stderr")].filter (· ≠ ""))
    let elapsed := valueU64 (value.index "elapsed_ms")
    let code := if (value.index "status").fieldIs "kind" "exited" then valueI64 ((value.index "status").index "code") else none
    (ofFields [("output", .string output), ("exit_code", (code.map fun n => .number (toString n)).getD .null),
      ("truncated", value.index "output_truncated"), ("status", value.index "status"), ("detail", value.index "detail"),
      ("wall_time_seconds", (elapsed.map serde.seconds).getD .null)],
      elapsed.map fun ms => min (ms * 1000000) u64Max)

/-! ## entries -/

def EntryKind.isUser : EntryKind → Bool
  | .user _ => true
  | _ => false

/-- what has a blank line before it and after it -/
def EntryKind.isSpoken : EntryKind → Bool
  | .user _ | .assistant _ _ _ | .reasoning _ => true
  | _ => false

def EntryKind.isTurnCompleted : EntryKind → Bool
  | .turnCompleted _ => true
  | _ => false

def EntryKind.isPendingAssistant : EntryKind → Bool
  | .assistant _ complete _ => !complete
  | _ => false

/-- a change that is for tools only -/
def EntryKind.mapTool (f : ToolEntry → ToolEntry) : EntryKind → EntryKind
  | .tool t => .tool (f t)
  | kind => kind

def TranscriptEntry.revised (entry : TranscriptEntry) : TranscriptEntry :=
  { entry with revision := satAdd64 entry.revision 1 }

/-- the last row gets a blank line below it -/
def spaceLast (kind : EntryKind) (entries : List TranscriptEntry) : List TranscriptEntry :=
  match entries.getLast? with
  | some previous =>
    if !previous.trailingSpacer && (kind.isSpoken || (previous.kind.isSpoken && !kind.isTurnCompleted)) then
      entries.dropLast ++ [{ previous.revised with trailingSpacer := true }]
    else entries
  | none => entries

namespace TranscriptModel

variable (m : TranscriptModel)

def ids : List EntryId := m.entries.map TranscriptEntry.id

def indexOf (id : EntryId) : Option Nat := m.entryIndices[id]?

def entry (id : EntryId) : Option TranscriptEntry := (m.indexOf id).bind fun index => m.entries[index]?

def isActive : Bool := m.activeRequests.size ≠ 0 || m.runningTools.size ≠ 0

/-- the first row goes, and the indexes that name it -/
def evictFirst : TranscriptModel :=
  match m.entries with
  | [] => m
  | first :: entries =>
    { m with
      entries
      evicted := m.evicted ++ [first.id]
      users := m.users.filter fun _ id => id ≠ first.id
      assistants := m.assistants.filter fun _ id => id ≠ first.id
      reasoning := m.reasoning.filter fun _ id => id ≠ first.id
      tools := m.tools.filter fun _ id => id ≠ first.id
      toolItems := m.toolItems.filter fun _ id => id ≠ first.id
      pendingToolPreviews := m.pendingToolPreviews.erase first.id
      jobs := m.jobs.filter fun _ id => id ≠ first.id
      runningTools := m.runningTools.erase first.id
      entryIndices := positions (entries.map TranscriptEntry.id) }

def spaced (kind : EntryKind) : TranscriptModel := { m with entries := spaceLast kind m.entries }

def makeRoom : TranscriptModel := if maxEntries ≤ m.entries.length then m.evictFirst else m

def append (kind : EntryKind) : TranscriptModel :=
  { m with
    nextEntryId := min (m.nextEntryId + 1) usizeMax
    entryIndices := m.entryIndices.insert m.nextEntryId m.entries.length
    entries := m.entries ++ [⟨m.nextEntryId, 0, kind, false, none, kind.isTurnCompleted⟩] }

/-- a new row; its id is the next one -/
def push (kind : EntryKind) : TranscriptModel := ((m.spaced kind).makeRoom).append kind

def update (id : EntryId) (change : EntryKind → EntryKind) : TranscriptModel :=
  match m.indexOf id with
  | some index =>
    { m with entries := m.entries.modify index fun e => { e.revised with kind := change e.kind } }
  | none => m

def previews (request : Option Uuid) : List EntryId :=
  ((m.toolItems.toList.filter fun e =>
    (request.isNone || e.1.owner = request) && m.pendingToolPreviews.contains e.2).map Prod.snd).dedup

def discardToolPreviews (request : Option Uuid) : TranscriptModel :=
  let removed := m.previews request
  if removed = [] then m
  else
    let entries := m.entries.filter fun e => e.id ∉ removed
    { m with
      entries
      toolItems := m.toolItems.filter fun _ id => id ∉ removed
      pendingToolPreviews := m.pendingToolPreviews.filter fun id => id ∉ removed
      entryIndices := positions (entries.map TranscriptEntry.id)
      discardedPreviews := m.discardedPreviews ++ removed }

/-- the only assistant row of a request that is not confirmed -/
def solePendingAssistant (request : Option Uuid) : Option (MessageKey × EntryId) :=
  match request with
  | none => none
  | some request =>
    match m.assistants.toList.filter fun e =>
      e.1.owner = some request && (m.entry e.2).any fun entry => entry.kind.isPendingAssistant with
    | [pending] => some pending
    | _ => none

/-! ## changes of the host -/

def whenActive (status : TransientStatus) : Option TransientStatus := if m.isActive then some status else none

def onUser (request : Option Uuid) (text : String) : Bool × TranscriptModel :=
  if request.any fun id => m.users[id]?.isSome then (false, m)
  else
    let pushed := m.push (.user (bounded text))
    match request with
    | some request => (true, { pushed with users := pushed.users.insert request m.nextEntryId })
    | none => (true, pushed)

def assistantRow (key : MessageKey) (confirmed : Bool) : EntryId × TranscriptModel :=
  match m.assistants[key]? with
  | some id => (id, m)
  | none =>
    match if confirmed then m.solePendingAssistant key.owner else none with
    | some (previewKey, id) => (id, { m with assistants := (m.assistants.erase previewKey).insert key id })
    | none =>
      let pushed := m.push (.assistant "" false false)
      (m.nextEntryId, { pushed with assistants := pushed.assistants.insert key m.nextEntryId })

def onAssistant (key : MessageKey) (text : String) (replace confirmed finalAnswer : Bool) : TranscriptModel :=
  let (id, m) := m.assistantRow key confirmed
  let m := m.update id fun
    | .assistant current _ _ =>
      .assistant (if replace then bounded text else appendBounded current text) confirmed (confirmed && finalAnswer)
    | kind => kind
  { m with transient := m.whenActive (if confirmed then .thinking else .responding) }

def reasoningRow (key : MessageKey) : EntryId × TranscriptModel :=
  match m.reasoning[key]? with
  | some id => (id, m)
  | none =>
    let pushed := m.push (.reasoning "")
    (m.nextEntryId, { pushed with reasoning := pushed.reasoning.insert key m.nextEntryId })

def onReasoning (key : MessageKey) (text : String) (replace : Bool) : Bool × TranscriptModel :=
  if text = "" then (false, m)
  else
    let (id, m) := m.reasoningRow key
    (true, m.update id fun
      | .reasoning current => .reasoning (if replace then bounded text else appendBounded current text)
      | kind => kind)

def parseArguments (serde : SerdeJson) (arguments : String) : Value :=
  (serde.fromStr arguments).getD (.string (bounded arguments))

def proposedTool (name : String) (arguments : Value) (atMs : Nat) : ToolEntry where
  name := name
  arguments := arguments
  startedAtUnixMs := atMs
  state := .proposed
  durationNs := none
  result := none
  metadata := none
  substeps := []
  childCount := 0

def isNull : Value → Bool
  | .null => true
  | _ => false

def proposedRow (key : Option MessageKey) (tool : ToolEntry) : EntryId × TranscriptModel :=
  match key.bind fun key => m.toolItems[key]? with
  | some id => (id, { m with pendingToolPreviews := m.pendingToolPreviews.erase id }.update id fun _ => .tool tool)
  | none => (m.nextEntryId, m.push (.tool tool))

def onToolProposed (serde : SerdeJson) (atMs : Nat) (key : Option MessageKey) (callId name arguments : String) :
    TranscriptModel :=
  match m.tools[callId]? with
  | some id =>
    m.update id (.mapTool fun tool =>
      if isNull tool.arguments then { tool with arguments := parseArguments serde arguments } else tool)
  | none =>
    let tool := proposedTool name ((serde.fromStr (bounded arguments)).getD (.string (bounded arguments))) atMs
    let (id, m) := m.proposedRow key tool
    let m := match key with
      | some key => { m with toolItems := m.toolItems.insert key id }
      | none => m
    { m with tools := m.tools.insert callId id }

def argumentsRow (atMs : Nat) (key : MessageKey) : Option (EntryId × TranscriptModel) :=
  match m.toolItems[key]? with
  | some id => if m.pendingToolPreviews.contains id then some (id, m) else none
  | none =>
    let pushed := m.push (.tool (proposedTool "tool" (.string "") atMs))
    some (m.nextEntryId, { pushed with
      toolItems := pushed.toolItems.insert key m.nextEntryId
      pendingToolPreviews := pushed.pendingToolPreviews.insert m.nextEntryId })

def onToolArguments (atMs : Nat) (key : MessageKey) (chunk : String) : Bool × TranscriptModel :=
  if chunk = "" then (false, m)
  else
    match m.argumentsRow atMs key with
    | none => (false, m)
    | some (id, m) =>
      (true, m.update id (.mapTool fun tool =>
        match tool.arguments with
        | .string current => { tool with arguments := .string (bounded (current ++ chunk)) }
        | _ => tool))

def onToolResult (serde : SerdeJson) (callId output : String) : TranscriptModel :=
  match m.tools[callId]? with
  | some id =>
    m.update id (.mapTool fun tool =>
      let parsed := (serde.fromStr (bounded output)).getD (.string (bounded output))
      let (result, elapsed) := displayToolResult serde tool.name parsed
      { tool with
        state := if tool.state = .proposed then .received else tool.state
        result := some result
        durationNs := elapsed })
  | none => m

def onRequestSettled (atMs : Nat) (request : Uuid) (error : Option String) : TranscriptModel :=
  let m := m.discardToolPreviews (some request)
  let started := m.activeRequests[request]?
  let m := { m with activeRequests := m.activeRequests.erase request }
  let m := m.push (match error with
    | some error => .error (bounded error)
    | none => .turnCompleted (match started.filter (0 < ·) with
      | some started => min ((atMs - started) * 1000000) u64Max
      | none => 0))
  { m with transient := m.whenActive .thinking }

def runningTool (job : Job) (invocation : JobInvocation) : ToolEntry where
  name := invocation.capability
  arguments := .null
  startedAtUnixMs := job.startedMs
  state := .running
  durationNs := none
  result := none
  metadata := some (ofFields [("input_artifact", .string invocation.input.display)])
  substeps := []
  childCount := 0

def jobRow (job : Job) (invocation : JobInvocation) (callId : String) : EntryId × TranscriptModel :=
  match m.tools[callId]? with
  | some id => (id, m)
  | none =>
    let pushed := m.push (.tool (runningTool job invocation))
    (m.nextEntryId, { pushed with tools := pushed.tools.insert callId m.nextEntryId })

def onJobStarted (job : Job) : TranscriptModel :=
  match job.invocation with
  | some invocation =>
    match invocation.callId with
    | some callId =>
      let (id, m) := m.jobRow job invocation callId
      let m := { m with
        jobs := m.jobs.insert job.id id
        runningTools := m.runningTools.insert id
        transient := some (if invocation.capability = "wait" then .waitingForBackgroundWork
          else .tool (humanizeTool invocation.capability)) }
      m.update id (.mapTool fun tool => { tool with state := .running, startedAtUnixMs := job.startedMs })
    | none => m
  | none => m

def jobState : JobStatus → ToolState
  | .running => .running
  | .succeeded => .succeeded
  | .failed => .failed
  | .cancelled => .cancelled
  | .unknown => .unknown
  | .fenced => .fenced

def onJobSettled (job : Uuid) (status : JobStatus) : TranscriptModel :=
  match m.jobs[job]? with
  | some id =>
    let m := m.update id (.mapTool fun tool => { tool with state := jobState status })
    let m := if !status.unresolved then { m with runningTools := m.runningTools.erase id } else m
    { m with transient :=
      if status = .unknown then some (.error "Execution outcome unknown; host reconciliation required")
      else m.whenActive .thinking }
  | none => m

def onJobFenced (job : Uuid) (receipt : Digest) : TranscriptModel :=
  match m.jobs[job]? with
  | some id =>
    let m := m.update id (.mapTool fun tool => { tool with
      state := .fenced
      metadata := some (ofFields [("fence_receipt", .string receipt.display)]) })
    { m with runningTools := m.runningTools.erase id }
  | none => m

def onTask (id : TaskId) (event : TaskEvent) : Bool × TranscriptModel :=
  match event with
  | .jobStarted job => (true, m.onJobStarted job)
  | .jobSettled job status _ => (true, m.onJobSettled job status)
  | .jobFenced job receipt => (true, m.onJobFenced job receipt)
  | event =>
    match taskLine event with
    | some (text, verified) => (true, m.push (.taskStatus id (bounded text) verified))
    | none => (false, m)

def onTaskInput (job : Uuid) (arguments : Value) : TranscriptModel :=
  match m.jobs[job]? with
  | some id => m.update id (.mapTool fun tool => { tool with arguments })
  | none => m

/-- a preview whose stream is gone -/
def interrupted : EntryKind → EntryKind
  | .assistant _ false finalAnswer =>
    .assistant "[Preview interrupted; waiting for the recorded response]" false finalAnswer
  | kind => kind

def onDiscardPreviews : TranscriptModel :=
  let m := m.discardToolPreviews none
  (valuesOf m.assistants).foldl (fun m id => m.update id interrupted) m

def applyHost (serde : SerdeJson) (atMs : Nat) : ViewChange → Bool × TranscriptModel
  | .providerUsage _ | .providerCost _ _ | .workspaceSaved | .queueChanged | .submission | .submissionChanged
  | .shellStarted | .shellPublished | .reviewRecorded | .contextProjected => (false, m)
  | .historicalImport manifest sourceSession =>
    (true, m.push (.hostStatus ("Historical context from " ++ sourceSession ++ " · manifest " ++ manifest.display ++
      " · previous results are unverified") false))
  | .session parent =>
    match parent with
    | some parent => (true, m.push (.forkedFrom parent.session.display))
    | none => (true, m)
  | .user request text => m.onUser request text
  | .requestStarted request =>
    (true, { m with activeRequests := m.activeRequests.insert request atMs, transient := some .thinking })
  | .assistant request item text replace confirmed finalAnswer =>
    (true, m.onAssistant ⟨request, item⟩ text replace confirmed finalAnswer)
  | .reasoning request item text replace => m.onReasoning ⟨request, item⟩ text replace
  | .toolProposed request itemId callId name arguments =>
    (true, m.onToolProposed serde atMs (itemId.map fun item => ⟨request, item⟩) callId name arguments)
  | .toolArguments request itemId chunk => m.onToolArguments atMs ⟨request, itemId⟩ chunk
  | .toolResult callId output => (true, m.onToolResult serde callId output)
  | .requestSettled request error => (true, m.onRequestSettled atMs request error)
  | .settings settings =>
    (true, (m.push (.effortChanged settings.thinking)).push (.fastModeChanged settings.fastMode))
  | .taskLinked task => (true, m.push (.taskStatus task "registered" false))
  | .taskInput job arguments => (true, m.onTaskInput job arguments)
  | .task id event => m.onTask id event
  | .discardPreviews => (true, m.onDiscardPreviews)
  | .warning message => (true, m.push (.error (bounded message)))
  | .status text => (true, m.push (.hostStatus (bounded text) false))

/-! ## local notices -/

/-- the rows that a fork takes over: what is complete, without the last turn when it is still running -/
def forkEnd : Nat :=
  if m.isActive then
    match m.entries.reverse.findIdx? fun e => e.kind.isUser with
    | some back => m.entries.length - 1 - back
    | none => m.entries.length
  else m.entries.length

def forkKeeps (entry : TranscriptEntry) : Bool :=
  match entry.kind with
  | .assistant _ complete _ => complete
  | .tool tool => tool.state ≠ .running && tool.state ≠ .proposed
  | _ => true

def forkSnapshot : TranscriptModel :=
  let entries := (m.entries.take m.forkEnd).filter forkKeeps
  { TranscriptModel.default with
    entryIndices := positions (entries.map TranscriptEntry.id)
    entries
    nextEntryId := m.nextEntryId }

def applyLocal : LocalEvent → Bool × TranscriptModel
  | .userSubmitted text | .userSteered text => (true, m.push (.user (bounded text)))
  | .sessionStarted parentSessionId =>
    match parentSessionId with
    | some parent => (true, m.forkSnapshot.push (.forkedFrom parent))
    | none => (false, m)
  | .effortChanged effort => (true, m.push (.effortChanged effort))
  | .fastModeChanged enabled => (true, m.push (.fastModeChanged enabled))
  | .reflectionStarted => (true, m.push .reflectionStarted)
  | .workerSteerFailed error | .workerStopped (some error) => (true, m.push (.error (bounded error)))
  | .sessionEnded => (true, { m with transient := some .reconnecting })
  | .shellStarted | .shellFinished | .contextObserved | .workerTurnAccepted | .workerTurnFinished
  | .workerTurnsInterrupted | .workerStopped none => (false, m)

/-! ## records -/

def applyChanges (serde : SerdeJson) (atMs : Nat) : TranscriptModel → List ViewChange → Bool × TranscriptModel
  | m, [] => (false, m)
  | m, change :: changes =>
    let (changed, m) := m.applyHost serde atMs change
    let (more, m) := applyChanges serde atMs m changes
    (changed || more, m)

/-- once, a row that says that rows are gone -/
def noteTruncation : TranscriptModel :=
  if m.evicted ≠ [] ∧ m.historyTruncated = false then
    { m with historyTruncated := true }.push
      (.hostStatus "Earlier display rows were unloaded; their originals remain in host history." false)
  else m

def drain (changed : Bool) : ModelChange × TranscriptModel :=
  (⟨changed, m.evicted ++ m.discardedPreviews⟩, { m with evicted := [], discardedPreviews := [] })

def applyRecord (serde : SerdeJson) (record : TranscriptRecord) : Bool × TranscriptModel :=
  match record.hostChanges with
  | [] => (record.localEvent.map m.applyLocal).getD (false, m)
  | changes => applyChanges serde record.recordedAtUnixMs m changes

def apply (serde : SerdeJson) (record : TranscriptRecord) : ModelChange × TranscriptModel :=
  let (changed, m) := m.applyRecord serde record
  m.noteTruncation.drain changed

/-! ## messages -/

def trimmable (thread : ThreadId) : Bool :=
  match m.messageThreads[thread]?.bind m.entry with
  | some ⟨_, _, .directedMessage message, _, _, _⟩ =>
    !message.deliveries.any fun delivery => delivery.state = .admitted .queued
  | _ => true

/-- one row goes, and the positions after it are written again -/
def eraseRow (id : EntryId) : Option EntryId × TranscriptModel :=
  match m.indexOf id with
  | none => (none, m)
  | some index =>
    let entries := m.entries.eraseIdx index
    (some id, { m with
      entries
      entryIndices := reindex (m.entryIndices.erase id) (entries.map TranscriptEntry.id) index })

def forget (thread : ThreadId) (position : Nat) : Option EntryId × TranscriptModel :=
  match m.messageThreads[thread]? with
  | none => (none, { m with messageOrder := m.messageOrder.eraseIdx position })
  | some id =>
    { m with
      messageOrder := m.messageOrder.eraseIdx position
      messageThreads := m.messageThreads.erase thread }.eraseRow id

/-- the oldest thread that may go goes, when there are too many -/
def trimMessageHistory : Option EntryId × TranscriptModel :=
  if m.messageOrder.length ≤ maxRetainedMessageThreads then (none, m)
  else
    match m.messageOrder.findIdx? m.trimmable with
    | none => (none, m)
    | some position =>
      match m.messageOrder[position]? with
      | none => (none, m)
      | some thread => m.forget thread position

def advance (message : DirectedMessageEntry) (news : MessageUpdate) : DirectedMessageEntry :=
  let kept := message.deliveries.filter fun delivery => news.thread.messages.any fun retained =>
    retained.id = delivery.messageId
  { message with
    thread := news.thread
    deliveries :=
      match kept.findIdx? fun delivery => delivery.messageId = news.messageId with
      | some index => kept.modify index fun delivery =>
        if deliveryAdvances delivery.state news.delivery then { delivery with state := news.delivery } else delivery
      | none => kept ++ [⟨news.messageId, news.delivery⟩] }

def isNews (message : DirectedMessageEntry) (news : MessageUpdate) : Bool :=
  message.thread ≠ news.thread ||
    match message.deliveries.find? fun delivery => delivery.messageId = news.messageId with
    | some delivery => deliveryAdvances delivery.state news.delivery
    | none => true

def trimmed (changed : Bool) : ModelChange × TranscriptModel :=
  let (removed, m) := m.trimMessageHistory
  (⟨changed, removed.toList⟩, m)

def applyMessage (perspective : MessageOrigin) (news : MessageUpdate) : ModelChange × TranscriptModel :=
  match m.messageThreads[news.thread.id]? with
  | none =>
    let pushed := m.push (.directedMessage ⟨perspective, news.thread, [⟨news.messageId, news.delivery⟩]⟩)
    { pushed with
      messageThreads := pushed.messageThreads.insert news.thread.id m.nextEntryId
      messageOrder := pushed.messageOrder ++ [news.thread.id] }.trimmed true
  | some id =>
    match m.entry id with
    | some ⟨_, _, .directedMessage message, _, _, _⟩ =>
      if isNews message news then
        ({ m with reasoning := ∅ }.update id fun _ => .directedMessage (advance message news)).trimmed true
      else (.none, m)
    | _ => (.none, m)

end TranscriptModel

end Orvek.Tui
