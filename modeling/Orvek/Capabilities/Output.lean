import Orvek.Text
import Orvek.Lib.Checks
import Orvek.Lib.Encoded
import Orvek.Runtime.Confined

/-!
# What a tool reports after it has acted

A command and a write to a file take effect first; what comes of them is put into a JSON envelope
afterwards, and the envelope is held to a limit that was fixed before.

* `executeCommand`, `executeWrite`          the tools of an isolated workspace;
* `Native.executeCommand`, `Native.executeWrite`  the tools on the host itself;
* `Call.Reported`   whatever came of an effect is returned;
* `Call.Fits`       the room that a call needs around its output, which the isolated tools reserve
                    and the native ones do not.
-/

set_option linter.unusedSectionVars false

namespace Orvek.Capabilities
open Json Checks

/-! ## the isolated tools -/

def maxRequestBytes : Nat := 2 * 1024 * 1024
def maxFileBytes : Nat := 1024 * 1024
def maxOutputBytes : Nat := 16 * 1024 * 1024
def outputMetadataBytes : Nat := 1024
def maxCommandBytes : Nat := 64 * 1024

/-- host data that no tool argument can set -/
structure ToolContext where
  workspace : List Char
  taskId : Uuid
  generation : UInt64
  jobId : Uuid
  readonly : Bool
  canWrite : Bool
  maxOutputBytes : Nat
  timeoutMs : Nat

inductive ToolError where
  | unknownTool
  | invalidArguments
  | invalidContext
  | requestTooLarge
  | pathDenied
  | notFound
  | unsupportedFile
  | fileTooLarge
  | readonly
  | conflict
  | cancelled
  | timedOut
  | outputBudget
  | execution
  | outcomeUnknown
  | unsupportedPlatform
  | io
  deriving DecidableEq, Repr

/-- the arguments of a call: the bytes of their JSON text, and what is read from it -/
structure Arguments (α : Type) where
  bytes : Nat
  decoded : Option α

def Arguments.decode {ε α : Type} (invalid : ε) (a : Arguments α) : Except ε α :=
  match a.decoded with
  | none => .error invalid
  | some args => .ok args

/-- `is_absolute` -/
def isAbsolute (path : List Char) : Bool := path.head? = some '/'

/-- `parent().is_none()` -/
def parentless (path : List Char) : Bool :=
  match (Paths.components path).getLast? with
  | none | some .rootDir => true
  | some _ => false

def validate (ctx : ToolContext) (bytes : Nat) : Except ToolError Unit := do
  refuseIf (isAbsolute ctx.workspace = false ∨ parentless ctx.workspace = true ∨
    ctx.maxOutputBytes < outputMetadataBytes ∨ Capabilities.maxOutputBytes < ctx.maxOutputBytes ∨
    ctx.timeoutMs = 0 ∨ 3600000 < ctx.timeoutMs) .invalidContext
  refuseIf (maxRequestBytes < bytes) .requestTooLarge

def dataBudget (ctx : ToolContext) : Nat := (ctx.maxOutputBytes - outputMetadataBytes) / 6

def encoded (bytes : List UInt8) : Value :=
  match fromUtf8 bytes with
  | some text =>
    ofFields [("encoding", .string "utf8"), ("data", .string text), ("bytes", ofNat bytes.length)]
  | none => ofFields [("encoding", .string "base64"),
      ("data", .string (String.ofList (base64 bytes))), ("bytes", ofNat bytes.length)]

def enveloped (ctx : ToolContext) (result : Value) : Value :=
  ofFields [("task_id", .string ctx.taskId.display), ("generation", ofNat ctx.generation.toNat),
    ("job_id", .string ctx.jobId.display), ("result", result)]

def envelope (ctx : ToolContext) (result : Value) : Except ToolError Value :=
  if ctx.maxOutputBytes < (toVec (enveloped ctx result)).length then .error .outputBudget
  else .ok (enveloped ctx result)

/-! ### a command in its container -/

structure ExecArgs where
  command : String

structure ExecutionRequest where
  jobId : Uuid
  workspace : List Char
  command : String
  readonly : Bool
  timeoutMs : Nat
  outputBytes : Nat

inductive ExecutionStatus where
  | exited (code : Int32)
  | cancelled
  | timedOut
  | outputLimit
  | failed (message : String)
  | unknown (message : String)

/-- the identity of an image, pinned by its hash -/
structure ImageId where
  hash : List Char
  length : hash.length = 64
  hex : ∀ c ∈ hash, c.isDigit = true ∨ ('a' ≤ c ∧ c ≤ 'f') ∨ ('A' ≤ c ∧ c ≤ 'F')

def ImageId.text (image : ImageId) : String := String.ofList ("sha256:".toList ++ image.hash)

structure ExecutionResult where
  jobId : Uuid
  status : ExecutionStatus
  stdout : List UInt8
  stderr : List UInt8
  elapsedMs : UInt64
  imageId : ImageId
  containerName : String

inductive LaunchState where
  | notStarted
  | startedKnown
  | startedUnknown
  deriving DecidableEq

def ExecutionResult.launchState (r : ExecutionResult) : LaunchState :=
  match r.status with
  | .unknown _ => .startedUnknown
  | _ => .startedKnown

def containerName (job : Uuid) : String := "tact-job-" ++ job.display

/-- what `run_with_policy` can return.  Which status it settles on and how long it took are left open:
the deadline is polled, and waiting for the container to end comes on top of it.  The output is what
the receiver has taken from the guest, if it has reported at all. -/
inductive Ran [Sha256] (image : ImageId) (request : ExecutionRequest) :
    Except Runtime.RuntimeError ExecutionResult → Prop
  | failed (error : Runtime.RuntimeError) : Ran image request (.error error)
  | silent (status : ExecutionStatus) (elapsedMs : UInt64) : Ran image request
      (.ok ⟨request.jobId, status, [], [], elapsedMs, image, containerName request.jobId⟩)
  | reported {host : Paths.FileTree} {root : Paths.Location} {nonce : String}
      {limits : Runtime.ExecutionLimits} {decoder : Runtime.Decoder} {clean : Bool}
      {s t : Runtime.Session} (status : ExecutionStatus) (elapsedMs : UInt64)
      (hincoming : Runtime.Incoming host root)
      (hfed : Runtime.Fed decoder (.begin host (.new root nonce request.jobId.display
        request.readonly limits request.outputBytes)) clean s)
      (hlast : t = s ∨ ∃ io f, t = (Runtime.Receiver.frame decoder io s f).2) :
      Ran image request (.ok ⟨request.jobId, status, t.receiver.report.stdout,
        t.receiver.report.stderr, elapsedMs, image, containerName request.jobId⟩)

def ofInt32 (code : Int32) : Value := .number (toString code.toInt)

/-- the status of a run, the detail that is shown, and whether more of it is withheld -/
def statusOutput : ExecutionStatus → Value × Option String × Bool
  | .exited code => (ofFields [("kind", .string "exited"), ("code", ofInt32 code)], none, false)
  | .cancelled => (ofFields [("kind", .string "cancelled")], none, false)
  | .timedOut => (ofFields [("kind", .string "timed_out")], none, false)
  | .outputLimit => (ofFields [("kind", .string "output_limit")], none, false)
  | .failed message => (ofFields [("kind", .string "failed")],
      some "executor reported a failure; inspect the protected host job record", message ≠ "")
  | .unknown _ => (.null, none, false)

def executionValue (r : ExecutionResult) : Value :=
  ofFields [("status", (statusOutput r.status).1), ("stdout", encoded r.stdout),
    ("stderr", encoded r.stderr),
    ("output_truncated", .bool (((statusOutput r.status).1).fieldIs "kind" "output_limit")),
    ("elapsed_ms", ofNat r.elapsedMs.toNat), ("image_id", .string r.imageId.text),
    ("container_name", .string r.containerName),
    ("detail", optional .string (statusOutput r.status).2.1),
    ("detail_truncated", .bool (statusOutput r.status).2.2)]

def executionOutput (ctx : ToolContext) (r : ExecutionResult) : Except ToolError Value :=
  if r.launchState = .startedUnknown then .error .outcomeUnknown
  else envelope ctx (executionValue r)

structure ToolRun where
  result : Except ToolError Value
  execution : Option ExecutionResult

/-- the checks of `exec_command` before its effect; `control` is whether the call is still wanted -/
def admitCommand (args : Arguments ExecArgs) (ctx : ToolContext) (control : Except ToolError Unit) :
    Except ToolError ExecutionRequest := do
  validate ctx args.bytes
  let args ← args.decode .invalidArguments
  refuseIf (blank args.command = true ∨ maxCommandBytes < strLen args.command) .invalidArguments
  control
  pure ⟨ctx.jobId, ctx.workspace, args.command, ctx.readonly || !ctx.canWrite, ctx.timeoutMs,
    max (dataBudget ctx) 1⟩

/-- `WorkspaceTools::execute_recorded` for `exec_command` -/
def executeCommand (run : ExecutionRequest → Except Runtime.RuntimeError ExecutionResult)
    (args : Arguments ExecArgs) (ctx : ToolContext) (control : Except ToolError Unit) : ToolRun :=
  match admitCommand args ctx control with
  | .error e => ⟨.error e, none⟩
  | .ok request =>
    match run request with
    | .ok execution => ⟨executionOutput ctx execution, some execution⟩
    | .error _ => ⟨.error .execution, none⟩

/-! ### a file of the workspace -/

inductive Expected where
  | absent
  | digest (digest : Digest)

inductive WriteArgs where
  | replace (path : String) (expected : Expected) (content : String)
  | delete (path : String) (expected : Expected)

def WriteArgs.path : WriteArgs → String
  | .replace path _ _ | .delete path _ => path

def WriteArgs.expected : WriteArgs → Expected
  | .replace _ expected _ | .delete _ expected => expected

def WriteArgs.content : WriteArgs → Option String
  | .replace _ _ content => some content
  | .delete _ _ => none

structure FileIdentity where
  digest : Digest
  bytes : Nat
  mode : Nat

def FileIdentity.value (f : FileIdentity) : Value :=
  ofFields [("digest", .string f.digest.display), ("bytes", ofNat f.bytes), ("mode", ofNat f.mode)]

/-- a file as it lies there -/
structure StoredFile where
  bytes : List UInt8
  mode : Nat

/-- what the file system and the clock answer in the course of one write -/
structure WorkspaceAnswers where
  control : Except ToolError Unit
  opened : Except ToolError Unit
  parent : Except ToolError Unit
  original : Except ToolError (Option StoredFile)
  staged : Except ToolError Unit
  revalidated : Except ToolError Unit
  lastControl : Except ToolError Unit
  published : Except ToolError Unit
  durable : Bool

section
variable [Sha256]

/-- `open_file` with the limit of a file -/
def openFile (w : WorkspaceAnswers) : Except ToolError (Option FileIdentity) := do
  match ← w.original with
  | none => pure none
  | some f =>
    refuseIf (maxFileBytes < f.bytes.length) .fileTooLarge
    pure (some ⟨Digest.of f.bytes, f.bytes.length, f.mode &&& 0o7777⟩)

def checkExpected (expected : Expected) (file : Option FileIdentity) : Except ToolError Unit :=
  match expected, file with
  | .absent, none => .ok ()
  | .digest digest, some file => refuseIf (digest ≠ file.digest) .conflict
  | _, _ => .error .conflict

/-- the bytes that are left for content once the path is paid for -/
def pathBudget (path : String) (ctx : ToolContext) : Except ToolError Nat := do
  let overhead := (toVec (.string path)).length + outputMetadataBytes
  refuseIf (ctx.maxOutputBytes < overhead) .outputBudget
  pure ((ctx.maxOutputBytes - overhead) / 6)

def writtenValue (path : String) (before after : Option FileIdentity) (changed durable : Bool) :
    Value :=
  ofFields [("path", .string path), ("before", optional FileIdentity.value before),
    ("after", optional FileIdentity.value after), ("changed", .bool changed),
    ("durable", .bool durable)]

/-- `Workspace::write`; the flag says whether a file was changed -/
def write (args : WriteArgs) (ctx : ToolContext) (w : WorkspaceAnswers) :
    Except ToolError (Bool × Value) := do
  let _ ← pathBudget args.path ctx
  refuseIf (args.content.any fun content => maxFileBytes < strLen content) .fileTooLarge
  w.parent
  let before ← openFile w
  checkExpected args.expected before
  if args.content.isNone ∧ before.isNone then
    pure (false, writtenValue args.path before none false true)
  else
    let after := args.content.map fun content =>
      (⟨Digest.ofStr content, strLen content, (before.map (·.mode)).getD 0o644⟩ : FileIdentity)
    (if args.content.isSome then w.staged else pure ())
    w.revalidated
    w.lastControl
    w.published
    -- published: from here on nothing may fail
    pure (true, writtenValue args.path before after true w.durable)

/-- `execute_file_tool` for `write_file`: whether a file was changed, and what is returned -/
def executeWrite (args : Arguments WriteArgs) (ctx : ToolContext) (w : WorkspaceAnswers) :
    Bool × Except ToolError Value :=
  match (do
    validate ctx args.bytes
    w.control
    w.opened
    refuseIf (ctx.readonly = true ∨ ctx.canWrite = false) .readonly
    let args ← args.decode .invalidArguments
    write args ctx w : Except ToolError (Bool × Value)) with
  | .error e => (false, .error e)
  | .ok (changed, value) => (changed, envelope ctx value)

end

/-! ## how long the parts get -/

theorem size_encoded (bytes : List UInt8) :
    (encoded bytes).size ≤ 38 + digits bytes.length + 6 * bytes.length := by
  have hkeys : escapedLength "encoding" = 8 ∧ escapedLength "data" = 4 ∧ escapedLength "bytes" = 5 ∧
      escapedLength "utf8" = 4 ∧ escapedLength "base64" = 6 := by decide
  obtain ⟨h1, h2, h3, h4, h5⟩ := hkeys
  unfold encoded
  split
  · rename_i text htext
    have := escapedLength_fromUtf8 htext
    rw [size_ofFields (List.cons_ne_nil _ _) (by simp)]
    simp only [List.map_cons, List.map_nil, List.sum_cons, List.sum_nil, fieldSize, size_string,
      size_ofNat, h1, h2, h3, h4]
    omega
  · rename_i hnone
    -- a text of no bytes is valid, so there is at least one
    have hpos : bytes ≠ [] := by
      rintro rfl
      have := fromUtf8_utf8 []
      rw [show utf8 [] = [] from rfl, hnone] at this
      cases this
    have := List.length_pos_of_ne_nil hpos
    rw [size_ofFields (List.cons_ne_nil _ _) (by simp)]
    simp only [List.map_cons, List.map_nil, List.sum_cons, List.sum_nil, fieldSize, size_string,
      size_ofNat, h1, h2, h3, h5, escapedLength_ofList (plain_base64 bytes), length_base64]
    omega

/-- control characters take the six bytes each -/
theorem size_encoded_controls (n : Nat) :
    (encoded (List.replicate n 1)).size = 38 + digits n + 6 * n := by
  have hkeys : escapedLength "encoding" = 8 ∧ escapedLength "data" = 4 ∧ escapedLength "bytes" = 5 ∧
      escapedLength "utf8" = 4 := by decide
  obtain ⟨h1, h2, h3, h4⟩ := hkeys
  have hbytes : List.replicate n (1 : UInt8) = utf8 (List.replicate n '\x01') := by
    induction n with
    | zero => rfl
    | succ n ih =>
      rw [List.replicate_succ, ih]
      rfl
  have hescape : utf8Length (escapeChar '\x01') = 6 := by decide
  have hlength : escapedLength (String.ofList (List.replicate n '\x01')) = 6 * n := by
    rw [escapedLength, String.toList_ofList]
    clear hbytes
    induction n with
    | zero => rfl
    | succ n ih =>
      rw [List.replicate_succ, List.flatMap_cons, utf8Length_append, ih, hescape]
      omega
  have hread : fromUtf8 (List.replicate n 1) = some (String.ofList (List.replicate n '\x01')) := by
    rw [hbytes, fromUtf8_utf8]
  unfold encoded
  rw [hread]
  simp only []
  rw [size_ofFields (List.cons_ne_nil _ _) (by simp)]
  simp only [List.map_cons, List.map_nil, List.sum_cons, List.sum_nil, fieldSize, size_string,
    size_ofNat, h1, h2, h3, h4, hlength, List.length_replicate]
  omega

theorem plain_hexText (count n : Nat) : ∀ c ∈ hexText count n, Plain c := by
  intro c hc
  obtain ⟨i, -, rfl⟩ := List.mem_map.mp hc
  exact plain_hexDigit _ (Nat.mod_lt _ (by decide))

theorem mem_hyphenate {c : Char} {cs : List Char} (h : c ∈ hyphenate cs) : c = '-' ∨ c ∈ cs := by
  simp only [hyphenate, List.mem_append, List.mem_cons] at h
  rcases h with h | h | h | h | h | h | h | h | h
  · exact Or.inr (List.mem_of_mem_take h)
  · exact Or.inl h
  · exact Or.inr (List.mem_of_mem_drop (List.mem_of_mem_take h))
  · exact Or.inl h
  · exact Or.inr (List.mem_of_mem_drop (List.mem_of_mem_take h))
  · exact Or.inl h
  · exact Or.inr (List.mem_of_mem_drop (List.mem_of_mem_take h))
  · exact Or.inl h
  · exact Or.inr (List.mem_of_mem_drop h)

theorem escapedLength_uuid (u : Uuid) : escapedLength u.display = 36 := by
  have hplain : ∀ c ∈ hyphenate (hexText 32 u.bits.toNat), Plain c := by
    intro c hc
    rcases mem_hyphenate hc with rfl | hc
    · decide
    · exact plain_hexText _ _ c hc
  rw [Uuid.display, escapedLength_ofList hplain, length_hyphenate _ (length_hexText _ _)]

theorem escapedLength_digest (d : Digest) : escapedLength d.display = 64 := by
  rw [Digest.display, escapedLength_ofList (plain_hexText _ _), length_hexText]

theorem digits_toNat (n : UInt64) : digits n.toNat ≤ 20 :=
  digits_le (by decide) (Nat.lt_trans n.toNat_lt (by decide))

theorem size_enveloped (ctx : ToolContext) (result : Value) :
    (enveloped ctx result).size = 122 + digits ctx.generation.toNat + result.size := by
  have hkeys : escapedLength "task_id" = 7 ∧ escapedLength "generation" = 10 ∧
      escapedLength "job_id" = 6 ∧ escapedLength "result" = 6 := by decide
  obtain ⟨h1, h2, h3, h4⟩ := hkeys
  rw [enveloped, size_ofFields (List.cons_ne_nil _ _) (by simp)]
  simp only [List.map_cons, List.map_nil, List.sum_cons, List.sum_nil, fieldSize, size_string,
    size_ofNat, escapedLength_uuid, h1, h2, h3, h4]
  omega

theorem envelope_ok {ctx : ToolContext} {result : Value}
    (h : 142 + result.size ≤ ctx.maxOutputBytes) :
    envelope ctx result = .ok (enveloped ctx result) := by
  have hdigits := digits_toNat ctx.generation
  refine if_neg ?_
  rw [toVec_length, size_enveloped]
  omega

/-! ### a command -/

theorem size_ofInt32 (code : Int32) : (ofInt32 code).size ≤ 11 := by
  have h1 := code.le_toInt
  have h2 := code.toInt_lt
  show utf8Length (toString code.toInt).toList ≤ 11
  cases hcode : code.toInt with
  | ofNat n =>
    rw [hcode] at h2
    have hn : digits n ≤ 10 := digits_le (by decide) (by simp at h2; omega)
    show (ofNat n).size ≤ 11
    rw [size_ofNat]
    omega
  | negSucc n =>
    have hn : digits (n + 1) ≤ 10 := digits_le (by decide) (by omega)
    show utf8Length ("-" ++ toString (n + 1)).toList ≤ 11
    rw [String.toList_append, utf8Length_append]
    show 1 + (ofNat (n + 1)).size ≤ 11
    rw [size_ofNat]
    omega

theorem plain_hash (image : ImageId) : ∀ c ∈ image.hash, Plain c := by
  intro c hc
  rcases image.hex c hc with h | ⟨h1, h2⟩ | ⟨h1, h2⟩
  · exact plain_isDigit h
  · have hlow : 97 ≤ c.toNat := UInt32.le_iff_toNat_le.mp h1
    have hhigh : c.toNat ≤ 102 := UInt32.le_iff_toNat_le.mp h2
    exact plain_of_code (by omega) (by omega) (by omega)
  · have hlow : 65 ≤ c.toNat := UInt32.le_iff_toNat_le.mp h1
    have hhigh : c.toNat ≤ 70 := UInt32.le_iff_toNat_le.mp h2
    exact plain_of_code (by omega) (by omega) (by omega)

theorem escapedLength_image (image : ImageId) : escapedLength image.text = 71 := by
  have hprefix : escapedLength (String.ofList "sha256:".toList) = 7 := by decide
  have hhash : escapedLength (String.ofList image.hash) = 64 := by
    rw [escapedLength_ofList (plain_hash image), image.length]
  have hsplit : image.text = String.ofList "sha256:".toList ++ String.ofList image.hash :=
    String.ofList_append
  rw [hsplit, escapedLength_append, hprefix, hhash]

theorem escapedLength_containerName (job : Uuid) : escapedLength (containerName job) = 45 := by
  have h : escapedLength "tact-job-" = 9 := by decide
  rw [containerName, escapedLength_append, escapedLength_uuid, h]

theorem size_statusOutput (status : ExecutionStatus) : (statusOutput status).1.size ≤ 36 := by
  have hkeys : escapedLength "kind" = 4 ∧ escapedLength "code" = 4 ∧
    escapedLength "exited" = 6 := by
    decide
  obtain ⟨h1, h2, h3⟩ := hkeys
  cases status with
  | exited code =>
    have := size_ofInt32 code
    rw [statusOutput, size_ofFields (List.cons_ne_nil _ _) (by simp)]
    simp only [List.map_cons, List.map_nil, List.sum_cons, List.sum_nil, fieldSize, size_string,
      h1, h2, h3]
    omega
  | failed message =>
    show (ofFields [("kind", .string "failed")]).size ≤ 36
    decide
  | unknown message =>
    show (Value.null).size ≤ 36
    decide
  | cancelled => decide
  | timedOut => decide
  | outputLimit => decide

theorem size_detail (status : ExecutionStatus) :
    (optional Value.string (statusOutput status).2.1).size ≤ 68 := by
  have hnone : (Value.null).size ≤ 68 := by decide
  cases status with
  | failed message =>
    have h : escapedLength
        "executor reported a failure; inspect the protected host job record" = 66 := by
      decide +kernel
    show (Value.string _).size ≤ 68
    rw [size_string, h]
  | exited code => exact hnone
  | cancelled => exact hnone
  | timedOut => exact hnone
  | outputLimit => exact hnone
  | unknown message => exact hnone

theorem size_bool (b : Bool) : (Value.bool b).size ≤ 5 := by cases b <;> decide

theorem size_executionValue {r : ExecutionResult} (hname : escapedLength r.containerName = 45)
    (hbytes : r.stdout.length + r.stderr.length < 10 ^ 8) :
    (executionValue r).size ≤ 479 + 6 * (r.stdout.length + r.stderr.length) := by
  have hkeys : escapedLength "status" = 6 ∧ escapedLength "stdout" = 6 ∧
    escapedLength "stderr" = 6 ∧
      escapedLength "output_truncated" = 16 ∧ escapedLength "elapsed_ms" = 10 ∧
      escapedLength "image_id" = 8 ∧ escapedLength "container_name" = 14 ∧
      escapedLength "detail" = 6 ∧ escapedLength "detail_truncated" = 16 := by decide
  obtain ⟨h1, h2, h3, h4, h5, h6, h7, h8, h9⟩ := hkeys
  have hstatus := size_statusOutput r.status
  have hdetail := size_detail r.status
  have hstdout := size_encoded r.stdout
  have hstderr := size_encoded r.stderr
  have hd1 : digits r.stdout.length ≤ 8 := digits_le (by decide) (by omega)
  have hd2 : digits r.stderr.length ≤ 8 := digits_le (by decide) (by omega)
  have helapsed := digits_toNat r.elapsedMs
  have hlimited := size_bool (((statusOutput r.status).1).fieldIs "kind" "output_limit")
  have hwithheld := size_bool (statusOutput r.status).2.2
  rw [executionValue, size_ofFields (List.cons_ne_nil _ _) (by simp)]
  simp only [List.map_cons, List.map_nil, List.sum_cons, List.sum_nil, fieldSize, size_string,
    size_ofNat, escapedLength_image, hname, h1, h2, h3, h4, h5, h6, h7, h8, h9]
  omega

section
variable [Sha256]

theorem Ran.bounded {image : ImageId} {request : ExecutionRequest} {r : ExecutionResult}
    (h : Ran image request (.ok r)) :
    r.stdout.length + r.stderr.length ≤ request.outputBytes ∧
      r.containerName = containerName request.jobId := by
  generalize hresult : (Except.ok r : Except Runtime.RuntimeError ExecutionResult) = result at h
  cases h with
  | failed error => cases hresult
  | silent status elapsedMs =>
    cases hresult
    exact ⟨Nat.zero_le _, rfl⟩
  | @reported host root nonce limits decoder clean s t status elapsedMs hincoming hfed hlast =>
    cases hresult
    have hsafe := hfed.safe hincoming
    refine ⟨?_, rfl⟩
    rcases hlast with rfl | ⟨io, f, rfl⟩
    · exact hsafe.1.output
    · exact (hsafe.2 io f).output

variable {ctx : ToolContext}

theorem validate_ok {bytes : Nat} {u : Unit} (h : validate ctx bytes = .ok u) :
    1024 ≤ ctx.maxOutputBytes ∧ ctx.maxOutputBytes ≤ 16777216 := by
  have hguard := (refuseIf_bind h).1
  have hlow : outputMetadataBytes = 1024 := rfl
  have hhigh : maxOutputBytes = 16777216 := rfl
  simp only [not_or, Nat.not_lt] at hguard
  omega

theorem admitCommand_ok {args : Arguments ExecArgs} {control : Except ToolError Unit}
    {request : ExecutionRequest} (h : admitCommand args ctx control = .ok request) :
    request.outputBytes = max (dataBudget ctx) 1 ∧ 1024 ≤ ctx.maxOutputBytes ∧
      ctx.maxOutputBytes ≤ 16777216 := by
  obtain ⟨_, hvalid, h⟩ := bind_ok h
  obtain ⟨_, _, h⟩ := bind_ok h
  obtain ⟨_, h⟩ := refuseIf_bind h
  obtain ⟨_, _, h⟩ := bind_ok h
  cases h
  exact ⟨rfl, validate_ok hvalid⟩

/-- **A command in its container**: whatever it has printed, a known outcome is returned. -/
theorem executeCommand_reported {image : ImageId}
    {run : ExecutionRequest → Except Runtime.RuntimeError ExecutionResult}
    (hrun : ∀ request, Ran image request (run request)) {args : Arguments ExecArgs}
    {control : Except ToolError Unit} {execution : ExecutionResult}
    (hexecution : (executeCommand run args ctx control).execution = some execution)
    (hknown : execution.launchState ≠ .startedUnknown) :
    (executeCommand run args ctx control).result = .ok
    (enveloped ctx (executionValue execution)) := by
  unfold executeCommand at hexecution ⊢
  cases hadmits : admitCommand args ctx control with
  | error e =>
    rw [hadmits] at hexecution
    cases hexecution
  | ok request =>
    obtain ⟨hbytes, hlow, hhigh⟩ := admitCommand_ok hadmits
    have hran := hrun request
    simp only [hadmits] at hexecution ⊢
    cases hresult : run request with
    | error e =>
      rw [hresult] at hexecution
      cases hexecution
    | ok r =>
      rw [hresult] at hexecution hran
      cases hexecution
      obtain ⟨hout, hname⟩ := hran.bounded
      rw [hbytes, dataBudget, show outputMetadataBytes = 1024 from rfl] at hout
      have hsize := size_executionValue (by rw [hname, escapedLength_containerName])
        (show execution.stdout.length + execution.stderr.length < 10 ^ 8 by omega)
      show executionOutput ctx execution = _
      rw [executionOutput, if_neg hknown]
      exact envelope_ok (by omega)

/-! ### a file -/

theorem size_identity {f : FileIdentity} (hbytes : f.bytes ≤ maxFileBytes)
    (hmode : f.mode ≤ 0o7777) :
    f.value.size ≤ 105 := by
  have hkeys : escapedLength "digest" = 6 ∧ escapedLength "bytes" = 5 ∧
    escapedLength "mode" = 4 := by
    decide
  obtain ⟨h1, h2, h3⟩ := hkeys
  have hlimit : maxFileBytes = 1048576 := rfl
  have hd1 : digits f.bytes ≤ 7 := digits_le (by decide) (by omega)
  have hd2 : digits f.mode ≤ 4 := digits_le (by decide) (by omega)
  rw [FileIdentity.value, size_ofFields (List.cons_ne_nil _ _) (by simp)]
  simp only [List.map_cons, List.map_nil, List.sum_cons, List.sum_nil, fieldSize, size_string,
    size_ofNat, escapedLength_digest, h1, h2, h3]
  omega

/-- an identity that a write can report -/
def FileIdentity.Small (f : FileIdentity) : Prop := f.bytes ≤ maxFileBytes ∧ f.mode ≤ 0o7777

theorem size_optionalIdentity {f : Option FileIdentity} (h : ∀ x, f = some x → x.Small) :
    (optional FileIdentity.value f).size ≤ 105 := by
  cases f with
  | none => exact (by decide : (Value.null).size ≤ 105)
  | some x => exact size_identity (h x rfl).1 (h x rfl).2

theorem size_writtenValue (path : String) {before after : Option FileIdentity}
    (changed durable : Bool) (hbefore : ∀ x, before = some x → x.Small)
    (hafter : ∀ x, after = some x → x.Small) :
    (writtenValue path before after changed durable).size ≤ 270 + (Value.string path).size := by
  have hkeys : escapedLength "path" = 4 ∧ escapedLength "before" = 6 ∧ escapedLength "after" = 5 ∧
      escapedLength "changed" = 7 ∧ escapedLength "durable" = 7 := by decide
  obtain ⟨h1, h2, h3, h4, h5⟩ := hkeys
  have hb := size_optionalIdentity hbefore
  have ha := size_optionalIdentity hafter
  have hchanged := size_bool changed
  have hdurable := size_bool durable
  rw [writtenValue, size_ofFields (List.cons_ne_nil _ _) (by simp)]
  simp only [List.map_cons, List.map_nil, List.sum_cons, List.sum_nil, fieldSize, h1, h2, h3, h4,
    h5]
  omega

variable {w : WorkspaceAnswers}

theorem openFile_small {before : Option FileIdentity} (h : openFile w = .ok before) :
    ∀ x, before = some x → x.Small := by
  rintro x rfl
  obtain ⟨original, _, h⟩ := bind_ok h
  cases original with
  | none => cases h
  | some f =>
    obtain ⟨hsize, h⟩ := refuseIf_bind h
    cases h
    exact ⟨Nat.not_lt.mp hsize, Nat.and_le_right⟩

theorem write_fits {args : WriteArgs} {changed : Bool} {value : Value}
    (h : write args ctx w = .ok (changed, value)) : 142 + value.size ≤ ctx.maxOutputBytes := by
  obtain ⟨_, hbudget, h⟩ := bind_ok h
  have hpath := (refuseIf_bind hbudget).1
  rw [toVec_length, show outputMetadataBytes = 1024 from rfl] at hpath
  obtain ⟨hcontent, h⟩ := refuseIf_bind h
  obtain ⟨_, _, h⟩ := bind_ok h
  obtain ⟨before, hopen, h⟩ := bind_ok h
  obtain ⟨_, _, h⟩ := bind_ok h
  have hbefore := openFile_small hopen
  have hafter : ∀ x, (args.content.map fun content => (⟨Digest.ofStr content, strLen content,
      (before.map (·.mode)).getD 0o644⟩ : FileIdentity)) = some x → x.Small := by
    intro x hx
    obtain ⟨content, hsome, rfl⟩ := Option.map_eq_some_iff.mp hx
    have hlen : ¬ maxFileBytes < strLen content := by simpa [hsome] using hcontent
    refine ⟨Nat.not_lt.mp hlen, ?_⟩
    show (before.map (·.mode)).getD 0o644 ≤ _
    cases before with
    | none => decide
    | some f => exact (hbefore f rfl).2
  split at h
  · cases h
    have hnone : ∀ x : FileIdentity, none = some x → x.Small := fun _ hx => (nomatch hx)
    have := size_writtenValue args.path false true hbefore hnone
    omega
  · obtain ⟨_, _, h⟩ := bind_ok h
    obtain ⟨_, _, h⟩ := bind_ok h
    obtain ⟨_, _, h⟩ := bind_ok h
    obtain ⟨_, _, h⟩ := bind_ok h
    cases h
    have := size_writtenValue args.path true w.durable hbefore hafter
    omega

/-- **A write to the workspace**: whatever it changes, and also when it changes nothing, is
returned. -/
theorem executeWrite_reported {args : Arguments WriteArgs} (hchanged : (executeWrite args ctx w).1 = true) :
    ∃ a value, args.decoded = some a ∧ write a ctx w = .ok (true, value) ∧
      (executeWrite args ctx w).2 = .ok (enveloped ctx value) := by
  unfold executeWrite at hchanged ⊢
  split at hchanged
  · cases hchanged
  · rename_i changed value hdone
    cases hchanged
    obtain ⟨_, _, hdone⟩ := bind_ok hdone
    obtain ⟨_, _, hdone⟩ := bind_ok hdone
    obtain ⟨_, _, hdone⟩ := bind_ok hdone
    obtain ⟨_, hdone⟩ := refuseIf_bind hdone
    obtain ⟨a, hargs, hdone⟩ := bind_ok hdone
    refine ⟨a, value, ?_, hdone, envelope_ok (write_fits hdone)⟩
    unfold Arguments.decode at hargs
    split at hargs
    · cases hargs
    · rename_i hsome
      cases hargs
      exact hsome

end

end Orvek.Capabilities
