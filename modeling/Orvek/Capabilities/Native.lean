import Orvek.Capabilities.Output

/-!
# The native tools

The tools of a primary session act on the host itself, in the same two steps: the effect, and an
envelope around what came of it that is held to a limit fixed before.

* `Capture.run`        the loop that collects the output of a process;
* `runCommand`         one command on the host;
* `executeCommand`, `executeWrite`   the calls, from the checks to the envelope;
* `CommandFits`, `WriteFits`         what the envelope has room for beside the output;
* `reported_iff_fits`  when a call returns whatever came of it, for all the tools together.
-/

set_option linter.unusedSectionVars false

namespace Orvek.Capabilities
open Json Checks

namespace Native

variable {limit : Nat}

/-! ## contexts, paths and errors -/

abbrev HostPath : Type := List UInt8

structure HostToolContext where
  cwd : HostPath
  taskId : Uuid
  generation : UInt64
  jobId : Uuid
  timeoutMs : Option Nat
  maxOutputBytes : Nat

inductive HostToolError where
  | unknownTool
  | invalidArguments
  | conflict
  | cancelled
  | timedOut
  | outputBudget
  | outcomeUnknown
  | unsupportedPlatform
  | io
  deriving DecidableEq, Repr

/-- what a call gives back; a path that is not UTF-8 cannot be put into JSON, and the macro that
builds the value panics -/
inductive Outcome where
  | returned (result : Except HostToolError Value)
  | panicked

/-- the host: where a path really leads, the home directory, and what it calls itself -/
structure Host where
  canonicalize : HostPath → Option HostPath
  home : Option HostPath
  os : String
  arch : String

def slash : UInt8 := 47

/-- `Path::join` -/
def joinPath (base path : HostPath) : HostPath :=
  if path.head? = some slash then path
  else if base = [] ∨ base.getLast? = some slash then base ++ path
  else base ++ slash :: path

def resolve (host : Host) (cwd : HostPath) (value : String) : Except HostToolError HostPath := do
  refuseIf ('\x00' ∈ value.toList) .invalidArguments
  if value = "~" ∨ value.toList.take 2 = ['~', '/'] then
    match host.home with
    | none => .error .invalidArguments
    | some home => pure (joinPath home (utf8 (value.toList.drop 2)))
  else pure (joinPath cwd (strBytes value))

def canonicalize (host : Host) (path : HostPath) : Except HostToolError HostPath :=
  match host.canonicalize path with
  | none => .error .io
  | some path => .ok path

/-- the checks that every native call begins with -/
def admitCall (ctx : HostToolContext) (bytes : Nat) : Except HostToolError Unit :=
  refuseIf (ctx.cwd.head? ≠ some slash ∨ ctx.timeoutMs = some 0 ∨ ctx.maxOutputBytes < 4096 ∨
    16 * 1024 * 1024 < ctx.maxOutputBytes ∨ 2 * 1024 * 1024 < bytes) .invalidArguments

def pathValue (path : HostPath) : Option Value := (fromUtf8 path).map .string

/-- the envelope around what a tool has to say -/
def sealedValue (ctx : HostToolContext) (cwd result : Value) : Value :=
  ofFields [("task_id", .string ctx.taskId.display), ("generation", ofNat ctx.generation.toNat),
    ("job_id", .string ctx.jobId.display), ("backend", .string "native_host"), ("cwd", cwd),
    ("result", result)]

/-- the last step: the envelope, and the limit that it is held to -/
def sealed (ctx : HostToolContext) (result : Value) : Outcome :=
  match pathValue ctx.cwd with
  | none => .panicked
  | some cwd =>
    if ctx.maxOutputBytes < (toVec (sealedValue ctx cwd result)).length then
      .returned (.error .outputBudget)
    else .returned (.ok (sealedValue ctx cwd result))

/-! ## a process -/

inductive NativeExecutionStatus where
  | exited (code : UInt8)
  | signaled
  | timedOut
  | cancelled
  | outputLimit
  | unknown (reason : String)

def NativeExecutionStatus.isUnknown : NativeExecutionStatus → Bool
  | .unknown _ => true
  | _ => false

def NativeExecutionStatus.value : NativeExecutionStatus → Value
  | .exited code => ofFields [("kind", .string "exited"), ("detail", ofNat code.toNat)]
  | .signaled => ofFields [("kind", .string "signaled")]
  | .timedOut => ofFields [("kind", .string "timed_out")]
  | .cancelled => ofFields [("kind", .string "cancelled")]
  | .outputLimit => ofFields [("kind", .string "output_limit")]
  | .unknown reason => ofFields [("kind", .string "unknown"), ("detail", .string reason)]

/-- what the loop around a process can see next; a read takes at most one buffer, and none at the
end of a stream -/
inductive Event where
  | cancelled
  | deadline
  | waited (code : Option UInt8)
  | waitFailed
  | stdout (bytes : List UInt8) (h : bytes.length ≤ 4096)
  | stdoutFailed
  | stderr (bytes : List UInt8) (h : bytes.length ≤ 4096)
  | stderrFailed

structure Capture where
  stdout : List UInt8
  stderr : List UInt8
  outputTruncated : Bool
  outOpen : Bool
  errOpen : Bool
  exited : Option NativeExecutionStatus

def Capture.begin : Capture := ⟨[], [], false, true, true, none⟩

def Capture.remaining (limit : Nat) (c : Capture) : Nat :=
    limit - (c.stdout.length + c.stderr.length)

/-- one turn of the loop: it goes on, or it is left with a status; what is switched off is not seen
-/
def Capture.step (limit : Nat) (c : Capture) : Event → Capture ⊕ NativeExecutionStatus
  | .cancelled => .inr .cancelled
  | .deadline => .inr .timedOut
  | .waited code =>
    if c.exited.isSome then .inl c
    else .inl { c with exited := some ((code.map .exited).getD .signaled) }
  | .waitFailed => if c.exited.isSome then .inl c else .inr (.unknown "native wait failed")
  | .stdout bytes _ =>
    if c.outOpen = false then .inl c
    else .inl { c with
      outOpen := bytes ≠ []
      stdout := c.stdout ++ bytes.take (c.remaining limit)
      outputTruncated := c.outputTruncated || decide (c.remaining limit < bytes.length) }
  | .stdoutFailed => if c.outOpen = false then .inl c else .inr (.unknown "stdout capture failed")
  | .stderr bytes _ =>
    if c.errOpen = false then .inl c
    else .inl { c with
      errOpen := bytes ≠ []
      stderr := c.stderr ++ bytes.take (c.remaining limit)
      outputTruncated := c.outputTruncated || decide (c.remaining limit < bytes.length) }
  | .stderrFailed => if c.errOpen = false then .inl c else .inr (.unknown "stderr capture failed")

/-- both streams at their end and the process gone -/
def Capture.settled (c : Capture) : Option NativeExecutionStatus :=
  if c.outOpen = false ∧ c.errOpen = false then c.exited else none

/-- the loop; `none` while it still waits for something -/
def Capture.run (limit : Nat) (c : Capture) : List Event → Option (NativeExecutionStatus × Capture)
  | [] => c.settled.map (·, c)
  | e :: events =>
    match c.settled with
    | some status => some (status, c)
    | none =>
      match c.step limit e with
      | .inr status => some (status, c)
      | .inl c => c.run limit events

/-- one process: whether it could be started, what the loop saw, whether its group was killed and
waited for, and how long that took.  The deadline ends the loop and not the waiting after it, so that
the time is any number of the type. -/
structure Process where
  started : Except HostToolError Unit
  events : List Event
  killed : Bool
  cleaned : Bool
  elapsedMs : UInt64

structure NativeEnvironment where
  backend : String
  cwd : HostPath
  command : String
  os : String
  arch : String
  environment : String
  terminationScope : String

structure NativeExecutionResult where
  jobId : Uuid
  status : NativeExecutionStatus
  stdout : List UInt8
  stderr : List UInt8
  elapsedMs : UInt64
  outputTruncated : Bool
  metadata : NativeEnvironment

def finalStatus (p : Process) (status : NativeExecutionStatus) : NativeExecutionStatus :=
  if p.killed = false ∨ p.cleaned = false then
    .unknown "native process group termination or wait was not confirmed"
  else
    match status with
    | .cancelled | .timedOut => .unknown
        "native command was interrupted, but escaped descendants cannot be proven absent"
    | status => status

def outputLimit (ctx : HostToolContext) : Nat := (ctx.maxOutputBytes - 2048) / 6

def runCommand (host : Host) (command : String) (cwd : HostPath) (ctx : HostToolContext)
    (p : Process) :
    Option (Except HostToolError NativeExecutionResult) :=
  match p.started with
  | .error e => some (.error e)
  | .ok _ => (Capture.begin.run (outputLimit ctx) p.events).map fun (status, c) =>
      .ok ⟨ctx.jobId, finalStatus p status, c.stdout, c.stderr, p.elapsedMs, c.outputTruncated,
        ⟨"native_host", cwd, command, host.os, host.arch, "inherited; values not recorded",
          "process group only; daemonized escapes are not fenced"⟩⟩

def NativeEnvironment.value (m : NativeEnvironment) : Option Value :=
  (pathValue m.cwd).map fun cwd => ofFields [("backend", .string m.backend), ("cwd", cwd),
    ("command", .string m.command), ("os", .string m.os), ("arch", .string m.arch),
    ("environment", .string m.environment), ("termination_scope", .string m.terminationScope)]

/-- what is reported of a run -/
def NativeExecutionResult.value (r : NativeExecutionResult) : Option Value :=
  r.metadata.value.map fun metadata => ofFields [("status", r.status.value),
    ("stdout", encoded r.stdout), ("stderr", encoded r.stderr),
    ("output_truncated", .bool r.outputTruncated), ("elapsed_ms", ofNat r.elapsedMs.toNat),
    ("metadata", metadata)]

structure NativeExecArgs where
  command : String
  cwd : Option String

/-- what is checked before a command runs: the command, and the directory that it runs in -/
def admitCommand (host : Host) (args : Arguments NativeExecArgs) (ctx : HostToolContext) :
    Except HostToolError (String × HostPath) := do
  admitCall ctx args.bytes
  let cwd ← canonicalize host ctx.cwd
  let args ← args.decode .invalidArguments
  refuseIf (blank args.command = true ∨ maxCommandBytes < strLen args.command) .invalidArguments
  let target ← resolve host cwd (args.cwd.getD ".")
  let actual ← canonicalize host target
  pure (args.command, actual)

/-- `HostTools::execute_recorded` for `exec_command` -/
def executeCommand (host : Host) (args : Arguments NativeExecArgs) (ctx : HostToolContext)
    (p : Process) : Option Outcome :=
  match admitCommand host args ctx with
  | .error e => some (.returned (.error e))
  | .ok (command, cwd) => (runCommand host command cwd ctx p).map fun
    | .error e => .returned (.error e)
    | .ok native =>
      match native.value with
      | none => .panicked
      | some value =>
        if native.status.isUnknown then .returned (.error .outcomeUnknown) else sealed ctx value

/-! ## a file -/

/-- what the file system and the clock answer in the course of one write -/
structure HostFiles where
  control : Except HostToolError Unit
  current : HostPath → Except HostToolError (Option (List UInt8))
  lastControl : Except HostToolError Unit
  createDirs : Bool
  opened : Except HostToolError Unit
  written : Bool
  removed : Bool

/-- a write that has passed its checks -/
inductive Effect where
  | put (path : HostPath) (content : String)
  | remove (path : HostPath)

section
variable [Sha256]

/-- the checks before a file is touched -/
def planWrite (host : Host) (args : Arguments WriteArgs) (ctx : HostToolContext)
    (files : HostFiles) :
    Except HostToolError Effect := do
  admitCall ctx args.bytes
  let cwd ← canonicalize host ctx.cwd
  files.control
  let args ← args.decode .invalidArguments
  refuseIf (args.path = "" ∨ (args.content.any fun content => 1024 * 1024 < strLen content) = true)
    .invalidArguments
  let path ← resolve host cwd args.path
  let current ← files.current path
  match args.expected, current with
  | .absent, none => pure ()
  | .digest digest, some bytes => refuseIf (Digest.of bytes ≠ digest) .conflict
  | _, _ => .error .conflict
  files.lastControl
  match args.content with
  | some content => pure (.put path content)
  | none => pure (.remove path)

/-- what is reported of a write -/
def Effect.value : Effect → Option Value
  | .put path content => (pathValue path).map fun path => ofFields [("path", path),
      ("digest", .string (Digest.ofStr content).display), ("written_bytes", ofNat (strLen content))]
  | .remove path => (pathValue path).map fun path =>
      ofFields [("path", path), ("deleted", .bool true)]

def Effect.happens (files : HostFiles) : Effect → Bool
  | .put _ _ => files.createDirs && files.opened.isOk
  | .remove _ => files.removed

/-- a value that cannot be built panics in a task of its own, which is told as an unknown outcome -/
def Effect.report (e : Effect) : Except HostToolError Value :=
  match e.value with
  | none => .error .outcomeUnknown
  | some value => .ok value

def Effect.perform (files : HostFiles) (e : Effect) : Except HostToolError Value :=
  match e with
  | .put _ _ =>
    if files.createDirs = false then .error .io
    else
      match files.opened with
      | .error error => .error error
      | .ok _ => if files.written = false then .error .io else e.report
  | .remove _ => if files.removed = false then .error .io else e.report

/-- `HostTools::execute_recorded` for `write_file`: whether a file was changed, and what is
returned -/
def executeWrite (host : Host) (args : Arguments WriteArgs) (ctx : HostToolContext)
    (files : HostFiles) : Bool × Outcome :=
  match planWrite host args ctx files with
  | .error e => (false, .returned (.error e))
  | .ok effect =>
    (effect.happens files,
      match effect.perform files with
      | .error e => .returned (.error e)
      | .ok value => sealed ctx value)

end

/-! ## the output of a process -/

attribute [grind =] Capture.step

variable {c : Capture}

theorem Capture.step_bounded {d : Capture} {e : Event} (h : c.step limit e = .inl d)
    (hc : c.stdout.length + c.stderr.length ≤ limit) : d.stdout.length + d.stderr.length ≤ limit := by
  have htake (bytes : List UInt8) :
      (bytes.take (c.remaining limit)).length ≤ limit - (c.stdout.length + c.stderr.length) :=
    List.length_take_le _ _
  cases e with
  | cancelled | deadline => cases h
  | waited code =>
    simp only [Capture.step] at h
    split at h
    · cases h
      exact hc
    · cases h
      exact hc
  | waitFailed | stdoutFailed | stderrFailed =>
    simp only [Capture.step] at h
    split at h
    · cases h
      exact hc
    · cases h
  | stdout bytes hbytes =>
    simp only [Capture.step] at h
    split at h
    · cases h
      exact hc
    · cases h
      have := htake bytes
      simp only [List.length_append]
      omega
  | stderr bytes hbytes =>
    simp only [Capture.step] at h
    split at h
    · cases h
      exact hc
    · cases h
      have := htake bytes
      simp only [List.length_append]
      omega

attribute [grind =] Capture.run

theorem Capture.run_bounded {events : List Event} {d : Capture} {status : NativeExecutionStatus}
    (h : c.run limit events = some (status, d)) (hc : c.stdout.length + c.stderr.length ≤ limit) :
    d.stdout.length + d.stderr.length ≤ limit := by
  induction events generalizing c with
  | nil =>
    obtain ⟨_, _, he⟩ := Option.map_eq_some_iff.mp h
    cases he
    exact hc
  | cons e events ih =>
    rw [Capture.run] at h
    split at h
    · cases h
      exact hc
    · split at h
      · cases h
        exact hc
      · rename_i next hstep
        exact ih h (Capture.step_bounded hstep hc)

theorem Capture.run_cons {d : Capture} {e : Event} (events : List Event) (hopen : c.settled = none)
    (h : c.step limit e = .inl d) : c.run limit (e :: events) = d.run limit events := by
  rw [Capture.run, hopen]
  simp only [h]

/-- a control character, read alone -/
def control : List UInt8 := [1]

attribute [grind =] Capture.remaining

/-- a control character on standard output, or on standard error -/
def printed : Bool → Event
  | false => .stdout control (by decide)
  | true => .stderr control (by decide)

/-- what was read from one of the two streams -/
def Capture.print (toErr : Bool) (bytes : List UInt8) (c : Capture) : Capture :=
  if toErr then { c with stderr := c.stderr ++ bytes } else { c with stdout := c.stdout ++ bytes }

theorem Capture.print_print (toErr : Bool) (a b : List UInt8) (c : Capture) :
    (c.print toErr a).print toErr b = c.print toErr (a ++ b) := by
  cases toErr <;> simp [Capture.print]

theorem Capture.step_printed (toErr : Bool) (hout : c.outOpen = true) (herr : c.errOpen = true)
    (hroom : c.stdout.length + c.stderr.length + 1 ≤ limit) :
    c.step limit (printed toErr) = .inl (c.print toErr control) := by
  obtain ⟨out, err, truncated, outOpen, errOpen, exited⟩ := c
  cases hout
  cases herr
  have hfits : ¬ limit - (out.length + err.length) < 1 := by
    change out.length + err.length + 1 ≤ limit at hroom
    omega
  have htake : control.take (limit - (out.length + err.length)) = control :=
    List.take_of_length_le (Nat.not_lt.mp hfits)
  cases toErr <;>
    simp only [printed, Capture.step, Capture.remaining, htake, Bool.true_eq_false, if_false] <;>
    simp [Capture.print, control, hfits]

/-- what is printed to one stream is read whole as long as there is room -/
theorem Capture.run_printed (toErr : Bool) (n : Nat) (events : List Event) (hout : c.outOpen = true)
    (herr : c.errOpen = true) (hroom : c.stdout.length + c.stderr.length + n ≤ limit) :
    c.run limit (List.replicate n (printed toErr) ++ events) =
      (c.print toErr (List.replicate n 1)).run limit events := by
  induction n generalizing c with
  | zero =>
    rw [List.replicate_zero, List.replicate_zero, List.nil_append]
    cases toErr <;> simp [Capture.print]
  | succ n ih =>
    have hopen : c.settled = none := if_neg fun h => absurd h.1 (by rw [hout]; decide)
    have hstep := step_printed toErr hout herr (by omega : c.stdout.length + c.stderr.length + 1 ≤ limit)
    have hlength : (c.print toErr control).stdout.length + (c.print toErr control).stderr.length =
        c.stdout.length + c.stderr.length + 1 := by
      cases toErr <;> simp only [Capture.print, Bool.false_eq_true, if_true, if_false, List.length_append,
        control, List.length_singleton] <;> omega
    have hstill : (c.print toErr control).outOpen = true ∧ (c.print toErr control).errOpen = true := by
      cases toErr <;> exact ⟨hout, herr⟩
    rw [List.replicate_succ, List.cons_append, Capture.run_cons _ hopen hstep,
      ih hstill.1 hstill.2 (by omega), Capture.print_print]
    rfl

/-- a process that prints control characters, one at a time, and exits with the largest code -/
def loudProcess (a b : Nat) : Process where
  started := .ok ()
  events := List.replicate a (.stdout control (by decide)) ++
    (List.replicate b (.stderr control (by decide)) ++
      [.stdout [] (by decide), .stderr [] (by decide), .waited (some 255)])
  killed := true
  cleaned := true
  elapsedMs := 18446744073709551615

theorem loudProcess_run (limit a b : Nat) (h : a + b ≤ limit) :
    Capture.begin.run limit (loudProcess a b).events = some (.exited 255,
      ⟨List.replicate a 1, List.replicate b 1, false, false, false, some (.exited 255)⟩) := by
  have hclosed (out err : List UInt8) : Capture.run limit ⟨out, err, false, true, true, none⟩
      [.stdout [] (by decide), .stderr [] (by decide), .waited (some 255)] =
      some (.exited 255, ⟨out, err, false, false, false, some (.exited 255)⟩) := by
    simp [Capture.run, Capture.step, Capture.settled, Capture.remaining]
  show Capture.begin.run limit (List.replicate a (printed false) ++
    (List.replicate b (printed true) ++ _)) = _
  have hout : Capture.begin.stdout.length + Capture.begin.stderr.length + a ≤ limit :=
    (Nat.zero_add a).trans_le (Nat.le_of_add_right_le h)
  have herr : (Capture.begin.print false (List.replicate a 1)).stdout.length +
      (Capture.begin.print false (List.replicate a 1)).stderr.length + b ≤ limit := by
    simpa [Capture.print, Capture.begin] using h
  rw [Capture.run_printed false a _ rfl rfl hout, Capture.run_printed true b _ rfl rfl herr]
  exact hclosed (List.replicate a 1) (List.replicate b 1)

/-! ## how long the parts get -/

section
variable (ctx : HostToolContext)

theorem size_sealedValue (cwd : String) (result : Value) :
    (sealedValue ctx (.string cwd) result).size =
      155 + digits ctx.generation.toNat + escapedLength cwd + result.size := by
  have hkeys : escapedLength "task_id" = 7 ∧ escapedLength "generation" = 10 ∧
      escapedLength "job_id" = 6 ∧ escapedLength "backend" = 7 ∧ escapedLength "native_host" = 11 ∧
      escapedLength "cwd" = 3 ∧ escapedLength "result" = 6 := by decide
  obtain ⟨h1, h2, h3, h4, h5, h6, h7⟩ := hkeys
  rw [sealedValue, size_ofFields (List.cons_ne_nil _ _) (by simp)]
  simp only [List.map_cons, List.map_nil, List.sum_cons, List.sum_nil, fieldSize, size_string,
    size_ofNat, escapedLength_uuid, h1, h2, h3, h4, h5, h6, h7]
  omega

attribute [grind =] Native.pathValue

theorem sealed_ok_iff (result : Value) :
    (∃ cwd, pathValue ctx.cwd = some cwd ∧
        sealed ctx result = .returned (.ok (sealedValue ctx cwd result))) ↔
      ∃ cwd, fromUtf8 ctx.cwd = some cwd ∧
        155 + digits ctx.generation.toNat + escapedLength cwd + result.size ≤
          ctx.maxOutputBytes := by
  unfold sealed pathValue
  cases hcwd : fromUtf8 ctx.cwd with
  | none => simp
  | some cwd =>
    simp only [Option.map_some, Option.some.injEq, exists_eq_left', toVec_length, size_sealedValue]
    constructor
    · intro h
      by_contra hlarge
      rw [if_pos (by omega)] at h
      cases h
    · intro h
      exact if_neg (by omega)

attribute [grind =] Native.NativeExecutionStatus.value NativeEnvironment.value NativeExecutionResult.value Effect.value

theorem size_metadata (m : NativeEnvironment) {value : Value} {cwd : String}
    (hcwd : fromUtf8 m.cwd = some cwd) (h : m.value = some value) :
    value.size = 94 + escapedLength m.backend + escapedLength cwd + escapedLength m.command +
      escapedLength m.os + escapedLength m.arch + escapedLength m.environment +
      escapedLength m.terminationScope := by
  have hkeys : escapedLength "backend" = 7 ∧ escapedLength "cwd" = 3 ∧ escapedLength "command" = 7 ∧
      escapedLength "os" = 2 ∧ escapedLength "arch" = 4 ∧ escapedLength "environment" = 11 ∧
      escapedLength "termination_scope" = 17 := by decide
  obtain ⟨h1, h2, h3, h4, h5, h6, h7⟩ := hkeys
  unfold NativeEnvironment.value pathValue at h
  rw [hcwd] at h
  cases h
  rw [size_ofFields (List.cons_ne_nil _ _) (by simp)]
  simp only [List.map_cons, List.map_nil, List.sum_cons, List.sum_nil, fieldSize, size_string,
    h1, h2, h3, h4, h5, h6, h7]
  omega

theorem size_result (r : NativeExecutionResult) {metadata value : Value}
    (hmetadata : r.metadata.value = some metadata) (h : r.value = some value) :
    value.size = 77 + r.status.value.size + (encoded r.stdout).size + (encoded r.stderr).size +
      (Value.bool r.outputTruncated).size + digits r.elapsedMs.toNat + metadata.size := by
  have hkeys : escapedLength "status" = 6 ∧ escapedLength "stdout" = 6 ∧
    escapedLength "stderr" = 6 ∧
      escapedLength "output_truncated" = 16 ∧ escapedLength "elapsed_ms" = 10 ∧
      escapedLength "metadata" = 8 := by decide
  obtain ⟨h1, h2, h3, h4, h5, h6⟩ := hkeys
  unfold NativeExecutionResult.value at h
  rw [hmetadata] at h
  cases h
  rw [size_ofFields (List.cons_ne_nil _ _) (by simp)]
  simp only [List.map_cons, List.map_nil, List.sum_cons, List.sum_nil, fieldSize, size_ofNat,
    h1, h2, h3, h4, h5, h6]
  omega

theorem size_status {status : NativeExecutionStatus} (h : status.isUnknown = false) :
    status.value.size ≤ 30 := by
  have hkeys : escapedLength "kind" = 4 ∧ escapedLength "detail" = 6 ∧
    escapedLength "exited" = 6 := by
    decide
  obtain ⟨h1, h2, h3⟩ := hkeys
  cases status with
  | exited code =>
    have hcode : digits code.toNat ≤ 3 := digits_le (by decide) (by have := code.toNat_lt; omega)
    rw [NativeExecutionStatus.value, size_ofFields (List.cons_ne_nil _ _) (by simp)]
    simp only [List.map_cons, List.map_nil, List.sum_cons, List.sum_nil, fieldSize, size_string,
      size_ofNat, h1, h2, h3]
    omega
  | signaled => decide
  | timedOut => decide
  | cancelled => decide
  | outputLimit => decide
  | unknown reason => cases h

theorem size_loudStatus : (NativeExecutionStatus.exited 255).value.size = 30 := by decide

end

/-! ## a command on the host -/

/-- what a report takes at most, beside the bytes of the two streams and the digits of their lengths
-/
def commandRoom (host : Host) (ctx : HostToolContext) (cwd actual command : String) : Nat :=
  551 + digits ctx.generation.toNat + escapedLength cwd + escapedLength actual +
    escapedLength command + escapedLength host.os + escapedLength host.arch

section
variable {host : Host} {args : Arguments NativeExecArgs} {ctx : HostToolContext}

attribute [grind =] runCommand

variable {actual : HostPath}
variable {command : String}

theorem size_report {p : Process} {ran : NativeExecutionResult} {value : Value} {actualText : String}
    (cwd : String) (hrun : runCommand host command actual ctx p = some (.ok ran))
    (hvalue : ran.value = some value) (hactual : fromUtf8 actual = some actualText) :
    155 + digits ctx.generation.toNat + escapedLength cwd + value.size + 131 =
      commandRoom host ctx cwd actualText command + ran.status.value.size +
        (encoded ran.stdout).size + (encoded ran.stderr).size +
        (Value.bool ran.outputTruncated).size + digits ran.elapsedMs.toNat := by
  have htexts : escapedLength "native_host" = 11 ∧
      escapedLength "inherited; values not recorded" = 30 ∧
      escapedLength "process group only; daemonized escapes are not fenced" = 53 := by
        decide +kernel
  obtain ⟨h1, h2, h3⟩ := htexts
  unfold runCommand at hrun
  split at hrun
  · cases hrun
  · obtain ⟨⟨status, c⟩, _, he⟩ := Option.map_eq_some_iff.mp hrun
    cases he
    obtain ⟨metadata, hmetadata, _⟩ := Option.map_eq_some_iff.mp hvalue
    have hsize := size_result _ hmetadata hvalue
    have hmeta := size_metadata _ hactual hmetadata
    simp only [h1, h2, h3] at hmeta
    rw [hsize, hmeta, commandRoom]
    omega

theorem runCommand_bounded {p : Process} {ran : NativeExecutionResult}
    (hrun : runCommand host command actual ctx p = some (.ok ran)) :
    ran.stdout.length + ran.stderr.length ≤ outputLimit ctx := by
  unfold runCommand at hrun
  split at hrun
  · cases hrun
  · obtain ⟨⟨status, c⟩, hc, he⟩ := Option.map_eq_some_iff.mp hrun
    cases he
    exact Capture.run_bounded hc (Nat.zero_le _)

/-- what a call of `exec_command` owes: the outcome of every run that came to a known status -/
def CommandReported (host : Host) (args : Arguments NativeExecArgs) (ctx : HostToolContext) :
    Prop :=
  ∀ (p : Process) (command : String) (actual : HostPath) (native : NativeExecutionResult),
    admitCommand host args ctx = .ok (command, actual) →
    runCommand host command actual ctx p = some (.ok native) → native.status.isUnknown = false →
    ∃ cwd value, pathValue ctx.cwd = some cwd ∧ native.value = some value ∧
      executeCommand host args ctx p = some (.returned (.ok (sealedValue ctx cwd value)))

def CommandFits (host : Host) (args : Arguments NativeExecArgs) (ctx : HostToolContext) : Prop :=
  ∀ (command : String) (actual : HostPath), admitCommand host args ctx = .ok (command, actual) →
    ∃ cwd actualText, fromUtf8 ctx.cwd = some cwd ∧ fromUtf8 actual = some actualText ∧
      ∀ a ≤ outputLimit ctx, commandRoom host ctx cwd actualText command +
        (digits a + digits (outputLimit ctx - a)) + 6 * outputLimit ctx ≤ ctx.maxOutputBytes

theorem executeCommand_ran {p : Process} {native : NativeExecutionResult} {value : Value}
    (hadmits : admitCommand host args ctx = .ok (command, actual))
    (hrun : runCommand host command actual ctx p = some (.ok native)) (hvalue : native.value = some value)
    (hknown : native.status.isUnknown = false) :
    executeCommand host args ctx p = some (sealed ctx value) := by
  simp only [executeCommand, hadmits, hrun, Option.map_some, hvalue, hknown, Bool.false_eq_true,
    if_false]

theorem CommandFits.reported (h : CommandFits host args ctx) : CommandReported host args ctx := by
  intro p command actual native hadmits hrun hknown
  obtain ⟨cwd, actualText, hcwd, hactual, hroom⟩ := h command actual hadmits
  have hbounded := runCommand_bounded hrun
  have hmeta : native.metadata.cwd = actual := by
    unfold runCommand at hrun
    split at hrun
    · cases hrun
    · obtain ⟨_, _, he⟩ := Option.map_eq_some_iff.mp hrun
      cases he
      rfl
  have hsome : native.value.isSome = true := by
    unfold NativeExecutionResult.value NativeEnvironment.value pathValue
    rw [hmeta, hactual]
    rfl
  obtain ⟨value, hvalue⟩ := Option.isSome_iff_exists.mp hsome
  have hsize := size_report cwd hrun hvalue hactual
  have hstatus := size_status hknown
  have hout := size_encoded native.stdout
  have herr := size_encoded native.stderr
  have htruncated := size_bool native.outputTruncated
  have helapsed := digits_toNat native.elapsedMs
  have hsplit := hroom native.stdout.length (by omega)
  have hdigits := digits_mono (show native.stderr.length ≤ outputLimit ctx -
    native.stdout.length by omega)
  obtain ⟨v, hv, hsealed⟩ := (sealed_ok_iff ctx value).mpr ⟨cwd, hcwd, by omega⟩
  exact ⟨v, value, hv, hvalue, by rw [executeCommand_ran hadmits hrun hvalue hknown, hsealed]⟩

theorem CommandReported.fits (h : CommandReported host args ctx) : CommandFits host args ctx := by
  intro command actual hadmits
  have hrun (a : Nat) (ha : a ≤ outputLimit ctx) :
      runCommand host command actual ctx (loudProcess a (outputLimit ctx - a)) = some (.ok
        ⟨ctx.jobId, .exited 255, List.replicate a 1, List.replicate (outputLimit ctx - a) 1,
          18446744073709551615, false, ⟨"native_host", actual, command, host.os, host.arch,
            "inherited; values not recorded",
            "process group only; daemonized escapes are not fenced"⟩⟩) := by
    have hloop := loudProcess_run (outputLimit ctx) a (outputLimit ctx - a) (by omega)
    show (Capture.begin.run (outputLimit ctx) _).map _ = _
    rw [hloop]
    rfl
  -- any run shows that the directories can be written down
  obtain ⟨_, value, _, hvalue, _⟩ := h _ command actual _ hadmits (hrun 0 (Nat.zero_le _)) rfl
  obtain ⟨metadata, hmetadata, _⟩ := Option.map_eq_some_iff.mp hvalue
  obtain ⟨_, hpath, _⟩ := Option.map_eq_some_iff.mp hmetadata
  obtain ⟨actualText, hactual, _⟩ := Option.map_eq_some_iff.mp hpath
  have hfits (a : Nat) (ha : a ≤ outputLimit ctx) : ∃ cwd, fromUtf8 ctx.cwd = some cwd ∧
      commandRoom host ctx cwd actualText command + (digits a + digits (outputLimit ctx - a)) +
        6 * outputLimit ctx ≤ ctx.maxOutputBytes := by
    obtain ⟨v, value, hv, hvalue, hdone⟩ := h _ command actual _ hadmits (hrun a ha) rfl
    rw [executeCommand_ran hadmits (hrun a ha) hvalue rfl] at hdone
    obtain ⟨cwd, hcwd, hle⟩ := (sealed_ok_iff ctx value).mp ⟨v, hv, Option.some.inj hdone⟩
    have hsize := size_report cwd (hrun a ha) hvalue hactual
    have helapsed : digits (18446744073709551615 : UInt64).toNat = 20 := by decide
    simp only [size_encoded_controls, size_loudStatus, helapsed,
      show (Value.bool false).size = 5 from rfl] at hsize
    exact ⟨cwd, hcwd, by omega⟩
  obtain ⟨cwd, hcwd, _⟩ := hfits 0 (Nat.zero_le _)
  refine ⟨cwd, actualText, hcwd, hactual, fun a ha => ?_⟩
  obtain ⟨cwd', hcwd', hle⟩ := hfits a ha
  rw [hcwd] at hcwd'
  cases hcwd'
  exact hle

/-- **A command on the host is reported whatever it prints, exactly when there is room for the most
that it can print.** -/
theorem command_reported_iff : CommandReported host args ctx ↔ CommandFits host args ctx :=
  ⟨CommandReported.fits, CommandFits.reported⟩

end

/-! ## a file of the host -/

section
variable [Sha256] {host : Host} {args : Arguments WriteArgs} {ctx : HostToolContext}
  {files : HostFiles}

/-- what the report of an effect takes beside its path -/
def Effect.room : Effect → Nat
  | .put _ content => 104 + digits (strLen content)
  | .remove _ => 26

def Effect.path : Effect → HostPath
  | .put path _ | .remove path => path

/-- nothing goes wrong once the file has been opened or removed -/
def Effect.completes (files : HostFiles) : Effect → Bool
  | .put _ _ => files.written
  | .remove _ => true

theorem Effect.value_eq (e : Effect) {value : Value} (h : e.value = some value) :
    ∃ path, fromUtf8 e.path = some path ∧ value.size = e.room + escapedLength path := by
  have hkeys : escapedLength "path" = 4 ∧ escapedLength "digest" = 6 ∧
      escapedLength "written_bytes" = 13 ∧ escapedLength "deleted" = 7 := by decide
  obtain ⟨h1, h2, h3, h4⟩ := hkeys
  cases e with
  | put path content =>
    obtain ⟨_, hpath, rfl⟩ := Option.map_eq_some_iff.mp h
    obtain ⟨text, htext, rfl⟩ := Option.map_eq_some_iff.mp hpath
    refine ⟨text, htext, ?_⟩
    rw [size_ofFields (List.cons_ne_nil _ _) (by simp)]
    simp only [List.map_cons, List.map_nil, List.sum_cons, List.sum_nil, fieldSize, size_string,
      size_ofNat, escapedLength_digest, h1, h2, h3, Effect.room]
    omega
  | remove path =>
    obtain ⟨_, hpath, rfl⟩ := Option.map_eq_some_iff.mp h
    obtain ⟨text, htext, rfl⟩ := Option.map_eq_some_iff.mp hpath
    refine ⟨text, htext, ?_⟩
    rw [size_ofFields (List.cons_ne_nil _ _) (by simp)]
    simp only [List.map_cons, List.map_nil, List.sum_cons, List.sum_nil, fieldSize, size_string,
      show (Value.bool true).size = 4 from rfl, h1, h4, Effect.room]
    omega

theorem Effect.exists_value (e : Effect) {path : String} (h : fromUtf8 e.path = some path) :
    ∃ value, e.value = some value := by
  refine Option.isSome_iff_exists.mp ?_
  cases e with
  | put p content =>
    have hp : fromUtf8 p = some path := h
    simp [Effect.value, pathValue, hp]
  | remove p =>
    have hp : fromUtf8 p = some path := h
    simp [Effect.value, pathValue, hp]

theorem Effect.report_ok_iff (e : Effect) (value : Value) :
    e.report = .ok value ↔ e.value = some value := by
  unfold Effect.report
  cases e.value with
  | none => simp
  | some v => simp

theorem Effect.perform_ok_iff {e : Effect} (hhappens : e.happens files = true) (value : Value) :
    e.perform files = .ok value ↔ e.completes files = true ∧ e.value = some value := by
  rw [← e.report_ok_iff value]
  cases e with
  | put path content =>
    obtain ⟨hdirs, hopened⟩ := Bool.and_eq_true_iff.mp hhappens
    cases hopen : files.opened with
    | error e =>
      rw [hopen] at hopened
      cases hopened
    | ok u =>
      simp only [Effect.perform, hdirs, hopen, Bool.true_eq_false, if_false]
      cases hwritten : files.written with
      | false => simp [Effect.completes, hwritten]
      | true => simp [Effect.completes, hwritten]
  | remove path =>
    have hremoved : files.removed = true := hhappens
    simp [Effect.perform, Effect.completes, hremoved]

/-- what a call of `write_file` owes: the outcome of every write that changed a file -/
def WriteReported (host : Host) (args : Arguments WriteArgs) (ctx : HostToolContext)
    (files : HostFiles) : Prop :=
  (executeWrite host args ctx files).1 = true →
    ∃ effect cwd value, planWrite host args ctx files = .ok effect ∧ effect.value = some value ∧
      pathValue ctx.cwd = some cwd ∧
      (executeWrite host args ctx files).2 = .returned (.ok (sealedValue ctx cwd value))

def WriteFits (host : Host) (args : Arguments WriteArgs) (ctx : HostToolContext)
    (files : HostFiles) :
    Prop :=
  ∀ effect, planWrite host args ctx files = .ok effect → effect.happens files = true →
    effect.completes files = true ∧ ∃ cwd path, fromUtf8 ctx.cwd = some cwd ∧
      fromUtf8 effect.path = some path ∧
      155 + digits ctx.generation.toNat + escapedLength cwd + escapedLength path + effect.room ≤
        ctx.maxOutputBytes

/-- **A write on the host is reported exactly when it completes and there is room for its paths.**
-/
theorem write_reported_iff : WriteReported host args ctx files ↔ WriteFits host args ctx files := by
  unfold WriteReported WriteFits executeWrite
  cases hplan : planWrite host args ctx files with
  | error e => simp
  | ok effect =>
    simp only [Except.ok.injEq, forall_eq']
    refine forall_congr' fun hhappens => ?_
    constructor
    · rintro ⟨_, cwd, value, rfl, hvalue, hcwd, hdone⟩
      cases hperform : effect.perform files with
      | error e =>
        rw [hperform] at hdone
        cases hdone
      | ok v =>
        rw [hperform] at hdone
        obtain ⟨hcompletes, hv⟩ := (Effect.perform_ok_iff hhappens v).mp hperform
        rw [hvalue] at hv
        cases hv
        obtain ⟨cwd', hcwd', hle⟩ := (sealed_ok_iff ctx value).mp ⟨cwd, hcwd, hdone⟩
        obtain ⟨path, hpath, hsize⟩ := effect.value_eq hvalue
        exact ⟨hcompletes, cwd', path, hcwd', hpath, by omega⟩
    · rintro ⟨hcompletes, cwd, path, hcwd, hpath, hle⟩
      obtain ⟨value, hvalue⟩ := effect.exists_value hpath
      obtain ⟨path', hpath', hsize⟩ := effect.value_eq hvalue
      rw [hpath] at hpath'
      cases hpath'
      obtain ⟨v, hv, hsealed⟩ := (sealed_ok_iff ctx value).mpr ⟨cwd, hcwd, by omega⟩
      refine ⟨effect, v, value, rfl, hvalue, hv, ?_⟩
      rw [(Effect.perform_ok_iff hhappens value).mpr ⟨hcompletes, hvalue⟩]
      exact hsealed

end

/-! ## a long command -/

namespace Sample

def host : Host := ⟨fun _ => some [slash], none, "linux", "x86_64"⟩

/-- a command that does nothing, at some length -/
def padded (n : Nat) : String := String.ofList (':' :: ' ' :: List.replicate n 'x')

def longCommand : String := padded 32768

def arguments : Arguments NativeExecArgs := ⟨32800, some ⟨longCommand, none⟩⟩

/-- the limits of a primary session -/
def context : HostToolContext := ⟨[slash], ⟨1⟩, 1, ⟨2⟩, some 600000, 32 * 1024⟩

/-- the process prints nothing and exits with 0 -/
def quiet : Process where
  started := .ok ()
  events := [.stdout [] (by decide), .stderr [] (by decide), .waited (some 0)]
  killed := true
  cleaned := true
  elapsedMs := 1

theorem plain_padded (n : Nat) : ∀ c ∈ ':' :: ' ' :: List.replicate n 'x', Plain c := by
  intro c hc
  rcases List.mem_cons.mp hc with rfl | hc
  · decide
  · rcases List.mem_cons.mp hc with rfl | hc
    · decide
    · rw [List.eq_of_mem_replicate hc]
      decide

attribute [grind =] padded

theorem escapedLength_padded (n : Nat) : escapedLength (padded n) = n + 2 := by
  rw [padded, escapedLength_ofList (plain_padded n), List.length_cons, List.length_cons,
    List.length_replicate]

theorem strLen_padded (n : Nat) : strLen (padded n) = n + 2 := by
  have h : utf8Length (List.replicate n 'x') = n := by
    induction n with
    | zero => rfl
    | succ n ih =>
      rw [List.replicate_succ, utf8Length_cons, ih]
      exact Nat.add_comm 1 n
  rw [padded, strLen, utf8ByteSize_ofList, utf8Length_cons, utf8Length_cons, h]
  show 1 + (1 + n) = n + 2
  omega

theorem admitCommand_padded {command : String}
    (h : ¬ (blank command = true ∨ maxCommandBytes < strLen command)) :
    admitCommand host ⟨32800, some ⟨command, none⟩⟩ context = .ok (command, [slash]) := by
  have hadmits : admitCall context 32800 = .ok () := by decide +kernel
  have htarget : resolve host [slash] "." = .ok [slash, 46] := by decide +kernel
  show (admitCall context 32800 >>= fun _ => _) = _
  rw [hadmits]
  show (refuseIf (blank command = true ∨ maxCommandBytes < strLen command)
    HostToolError.invalidArguments >>= fun _ => resolve host [slash] "." >>= fun _ => _) = _
  rw [refuseIf_of_not _ h, htarget]
  rfl

theorem admitted : admitCommand host arguments context = .ok (longCommand, [slash]) := by
  refine admitCommand_padded ?_
  rintro (hblank | hlen)
  · rw [longCommand, padded, blank, String.toList_ofList, List.all_cons,
      show isWhitespace ':' = false from by decide, Bool.false_and] at hblank
    cases hblank
  · rw [longCommand, strLen_padded] at hlen
    exact absurd hlen (by decide)

theorem read_slash : fromUtf8 [slash] = some "/" := fromUtf8_utf8 ['/']

theorem long_command_refused : ∃ native,
    runCommand host longCommand [slash] context quiet = some (.ok native) ∧
      native.status = .exited 0 ∧
      executeCommand host arguments context quiet = some (.returned (.error .outputBudget)) := by
  obtain ⟨native, hrun, hstatus⟩ : ∃ native,
      runCommand host longCommand [slash] context quiet = some (.ok native) ∧
        native.status = .exited 0 := ⟨_, rfl, rfl⟩
  have hmeta : native.metadata.cwd = [slash] := by
    cases hrun
    rfl
  have hsome : native.value.isSome = true := by
    unfold NativeExecutionResult.value NativeEnvironment.value pathValue
    rw [hmeta, read_slash]
    rfl
  obtain ⟨value, hvalue⟩ := Option.isSome_iff_exists.mp hsome
  refine ⟨native, hrun, hstatus, ?_⟩
  have hsize := size_report "/" hrun hvalue read_slash
  have hlong : escapedLength longCommand = 32770 := escapedLength_padded 32768
  have hlimit : context.maxOutputBytes = 32768 := rfl
  have hpath : pathValue context.cwd = some (.string "/") := by
    show (fromUtf8 [slash]).map _ = _
    rw [read_slash]
    rfl
  rw [executeCommand_ran admitted hrun hvalue (by rw [hstatus]; rfl), sealed, hpath]
  simp only []
  rw [if_pos]
  rw [toVec_length, size_sealedValue, hlimit]
  rw [commandRoom, hlong] at hsize
  omega

end Sample

end Native

/-! ## all the tools that have an effect -/

/-- a call, with what the file system answers where that decides it -/
inductive Call where
  | command (image : ImageId) (args : Arguments ExecArgs) (ctx : ToolContext)
  | write (args : Arguments WriteArgs) (ctx : ToolContext) (answers : WorkspaceAnswers)
  | nativeCommand (host : Native.Host) (args : Arguments Native.NativeExecArgs)
      (ctx : Native.HostToolContext)
  | nativeWrite (host : Native.Host) (args : Arguments WriteArgs) (ctx : Native.HostToolContext)
      (files : Native.HostFiles)

section
variable [Sha256]

/-- an effect that came to a known outcome is answered with that outcome -/
def Call.Reported : Call → Prop
  | .command image args ctx => ∀ (run : ExecutionRequest →
      Except Runtime.RuntimeError ExecutionResult)
      (control : Except ToolError Unit) (execution : ExecutionResult),
      (∀ request, Ran image request (run request)) →
      (executeCommand run args ctx control).execution = some execution →
      execution.launchState ≠ .startedUnknown →
      (executeCommand run args ctx control).result = .ok (enveloped ctx (executionValue execution))
  | .write args ctx w => (executeWrite args ctx w).1 = true →
      ∃ a value, args.decoded = some a ∧ Capabilities.write a ctx w = .ok (true, value) ∧
        (executeWrite args ctx w).2 = .ok (enveloped ctx value)
  | .nativeCommand host args ctx => Native.CommandReported host args ctx
  | .nativeWrite host args ctx files => Native.WriteReported host args ctx files

/-- the room that a call needs: none that the isolated tools have not reserved -/
def Call.Fits : Call → Prop
  | .command _ _ _ => True
  | .write _ _ _ => True
  | .nativeCommand host args ctx => Native.CommandFits host args ctx
  | .nativeWrite host args ctx files => Native.WriteFits host args ctx files

/-- **What an effect came to is answered, exactly when the call fits**: always for the isolated
tools, and for the native ones when the paths are UTF-8 and there is room for them, for the command
and for the most that it can print. -/
theorem reported_iff_fits (call : Call) : call.Reported ↔ call.Fits := by
  cases call with
  | command image args ctx =>
    refine ⟨fun _ => trivial, fun _ => ?_⟩
    intro run control execution hrun hexecution hknown
    exact executeCommand_reported hrun hexecution hknown
  | write args ctx w => exact ⟨fun _ => trivial, fun _ => executeWrite_reported⟩
  | nativeCommand host args ctx => exact Native.command_reported_iff
  | nativeWrite host args ctx files => exact Native.write_reported_iff

end

/-- a command of 32 KiB under the limits of a primary session runs, and what came of it is lost -/
theorem long_command_unreported :
    ¬ ∀ call : Call, @Call.Reported .standard call := by
  intro h
  obtain ⟨native, hrun, hstatus, hrefused⟩ := Native.Sample.long_command_refused
  obtain ⟨_, _, _, _, hdone⟩ := h (.nativeCommand Native.Sample.host Native.Sample.arguments
    Native.Sample.context) Native.Sample.quiet _ _ native Native.Sample.admitted hrun
      (by rw [hstatus]; rfl)
  rw [hrefused] at hdone
  cases hdone

end Orvek.Capabilities
