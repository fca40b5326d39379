import Orvek.Inference.Sse
import Mathlib.Data.List.ModifyLast

/-!
# Model calls

A call sends one prepared body in a few attempts, over HTTP or over a web socket.  Each attempt
leaves a record of its end and of whether it may be billed.  What the provider, the network and the
credentials do is the `World` of a call; it may stop the call at every await.

* `attempt`         one attempt, with the decision on a further one;
* `respond`         the call, which patches the record that a stop leaves open;
* `Begins`          the states in which the attempts of a call begin;
* `begins_fresh`    they begin after clean rejections only, and with nothing decoded;
* `respond_sound`   with the records and the tokens of the outcome.
-/

set_option linter.unusedSectionVars false

namespace Orvek.Inference
open Json Auth

/-! ## records -/

inductive Transport where
  | http | webSocket
  deriving DecidableEq, Repr

structure Limits where
  maxAttempts : Nat
  retryDelay : Nat
  maxRetryDelay : Nat
  maxRequestBytes : Nat
  maxResponseBytes : Nat
  maxEventBytes : Nat

structure Failure where
  kind : FailureKind
  httpStatus : Option Nat
  authError : Option AuthError

inductive AttemptStatus where
  | started | rejected | responseReceived | failed | cancelled | timedOut
  deriving DecidableEq, Repr

structure AttemptRecord where
  number : Nat
  status : AttemptStatus
  httpStatus : Option Nat
  dispatched : Bool
  billingUncertain : Bool
  elapsedMs : Nat
  deriving DecidableEq, Repr

inductive RequestRoute where
  | default | modelOverride
  deriving DecidableEq, Repr

inductive RequestProvenance where
  | unavailable
  | prepared (transport : Transport) (dialect : ResponseDialect) (route : RequestRoute)
      (body : String)

structure CallOutcome where
  request : RequestProvenance
  response : Option ProviderResponse
  failure : Option Failure
  attempts : List AttemptRecord
  partialText : String
  partialItems : List Value
  responseId : Option String
  costUsd : Option UsdCost

namespace CallOutcome
variable (o : CallOutcome)

def billingUncertain : Bool := o.attempts.any (·.billingUncertain)

def cleanRejection (status : Nat) : Bool :=
  o.failure.any (fun failure => decide (failure.httpStatus = some status)) && o.response.isNone &&
    o.responseId.isNone && decide (o.partialText = "") && o.partialItems.isEmpty &&
    !o.attempts.isEmpty && o.attempts.all fun attempt =>
      decide (attempt.status = .rejected) && decide (attempt.httpStatus = some status) &&
        !attempt.billingUncertain

def rateLimited : Bool :=
  o.cleanRejection 429 && o.failure.any fun failure =>
    decide (failure.kind = .rejected) && failure.authError.isNone

def authenticationRejected : Bool :=
  o.cleanRejection 401 && o.failure.any fun failure =>
    decide (failure.kind = .authentication ∨ failure.kind = .rejected) && failure.authError.isNone

def retryablePreGenerationRejection : Bool := o.rateLimited || o.authenticationRejected

/-- the usage, when the records establish an exact amount -/
def accountedTokens : Option Nat :=
  if o.retryablePreGenerationRejection then some 0
  else if o.billingUncertain then none
  else (o.response.bind (·.usage.totalTokens)).or
    (if o.attempts.all (!·.dispatched) then some 0 else none)

/-- the cost, and zero when nothing can have been billed -/
def accountedCost : Option UsdCost :=
  o.costUsd.or (if o.retryablePreGenerationRejection || o.attempts.all (!·.dispatched)
    then some ⟨0, Nat.zero_le _⟩ else none)

end CallOutcome

/-! ## what the other side answers -/

/-- what stops a whole call -/
inductive Stop where
  | cancelled | timeout
  deriving DecidableEq, Repr

def Stop.kind : Stop → FailureKind
  | .cancelled => .cancelled
  | .timeout => .timeout

/-- an await: the call is stopped in it, it fails, or it is ready -/
inductive Awaited (ε α : Type) where
  | stopped (stop : Stop)
  | failed (error : ε)
  | ready (value : α)

/-- an await of the network under a timeout of its own -/
inductive WaitError where
  | timeout | transport
  deriving DecidableEq, Repr

def WaitError.kind : WaitError → FailureKind
  | .timeout => .timeout
  | .transport => .transport

/-- the head of an answer; of the headers, those with a text are read -/
structure HttpHead where
  status : Nat
  responseCost : Option String
  retryAfter : Option String
  contentType : Option (Option String)

structure HttpExchange where
  head : Awaited WaitError HttpHead
  chunks : List (Awaited WaitError (List UInt8))

inductive Message where
  | text (bytes : List UInt8)
  | ping (size : Nat) (flushed : Awaited WaitError Unit)
  | pong (size : Nat)
  | close (size : Nat)
  | other (size : Nat)

def Message.len : Message → Nat
  | .text bytes => bytes.length
  | .ping size _ | .pong size | .close size | .other size => size

structure Socket where
  sent : Awaited WaitError Unit
  messages : List (Awaited WaitError Message)

inductive ConnectError where
  | timeout
  | http (status : Nat)
  | other

structure Handshake where
  validEndpoint : Bool
  connected : Awaited ConnectError Socket

/-- one attempt, as the world takes it -/
structure Turn where
  headers : Awaited AuthError Unit
  http : HttpExchange
  webSocket : Handshake
  cancelled : Bool
  elapsedMs : Nat
  recover : Awaited AuthError Unit
  slept : Nat → Option Stop

structure World where
  cancelled : Bool
  turns : Nat → Turn
  stoppedMs : Nat

/-! ## one exchange -/

structure AttemptFailure where
  kind : FailureKind
  status : Option Nat
  retryAfter : Option Nat

def AttemptFailure.of (kind : FailureKind) : AttemptFailure := ⟨kind, none, none⟩

structure CallState where
  request : RequestProvenance
  attempts : List AttemptRecord
  listener : Listener
  authError : Option AuthError
  responseCostUsd : Option UsdCost

def CallState.dispatched (s : CallState) : CallState :=
  { s with attempts := s.attempts.modifyLast fun last => { last with dispatched := true } }

/-- `str::parse::<u64>` -/
def parseU64 (s : String) : Option Nat :=
  (Decimals.readNat (UsdCost.stripPlus s.toList)).filter (· ≤ u64Max)

/-- whether an answer with these headers is a stream of events -/
def eventStream (dialect : ResponseDialect) : Option (Option String) → Bool
  | none => decide (dialect = .chatGpt)
  | some value => value.any fun value =>
    decide ((UsdCost.trim (value.toList.takeWhile (· ≠ ';'))).map Char.toLower =
      "text/event-stream".toList)

section
variable [JsonReader]
variable {number : Nat}

/-- the chunks of an answer, `total` bytes of which are read -/
def readChunks (limits : Limits) (sse : Sse) (total : Nat) (l : Listener) :
    List (Awaited WaitError (List UInt8)) → Listener × Awaited AttemptFailure Unit
  | [] => (l, .failed (.of .interrupted))
  | .stopped stop :: _ => (l, .stopped stop)
  | .failed error :: _ => (l, .failed (.of error.kind))
  | .ready chunk :: chunks =>
    let total := total + chunk.length
    if limits.maxResponseBytes < total then (l, .failed (.of .sizeLimit))
    else match sse.push Listener.dispatch limits.maxEventBytes l chunk with
      | ⟨_, l, .error kind⟩ => (l, .failed (.of kind))
      | ⟨_, l, .ok true⟩ => (l, .ready ())
      | ⟨sse, l, .ok false⟩ => readChunks limits sse total l chunks

def http (limits : Limits) (s : CallState) (exchange : HttpExchange) :
    CallState × Awaited AttemptFailure Unit :=
  let s := s.dispatched
  match exchange.head with
  | .stopped stop => (s, .stopped stop)
  | .failed error => (s, .failed (.of error.kind))
  | .ready head =>
    let s := { s with responseCostUsd := head.responseCost.bind (UsdCost.fromStr ·.toList) }
    if ¬ (200 ≤ head.status ∧ head.status ≤ 299) then
      (s, .failed ⟨.rejected, some head.status, (head.retryAfter.bind parseU64).map (· * 1000)⟩)
    else if eventStream s.listener.decoder.dialect head.contentType = false then
      (s, .failed (.of .malformedResponse))
    else
      let (listener, result) := readChunks limits Sse.new 0 s.listener exchange.chunks
      ({ s with listener }, result)

/-- the messages of a socket, `total` bytes of which are read -/
def readMessages (limits : Limits) (total : Nat) (l : Listener) :
    List (Awaited WaitError Message) → Listener × Awaited AttemptFailure Unit
  | [] => (l, .failed (.of .interrupted))
  | .stopped stop :: _ => (l, .stopped stop)
  | .failed error :: _ => (l, .failed (.of error.kind))
  | .ready message :: messages =>
    let total := total + message.len
    if limits.maxResponseBytes < total then (l, .failed (.of .sizeLimit))
    else match message with
      | .text bytes =>
        match l.event bytes with
        | (l, .error kind) => (l, .failed (.of kind))
        | (l, .ok true) => (l, .ready ())
        | (l, .ok false) => readMessages limits total l messages
      | .ping _ (.stopped stop) => (l, .stopped stop)
      | .ping _ (.failed error) => (l, .failed (.of error.kind))
      | .ping _ (.ready _) | .pong _ => readMessages limits total l messages
      | .close _ => (l, .failed (.of .interrupted))
      | .other _ => (l, .failed (.of .malformedResponse))

def websocket (limits : Limits) (s : CallState) (handshake : Handshake) :
    CallState × Awaited AttemptFailure Unit :=
  if handshake.validEndpoint = false then (s, .failed (.of .invalidEndpoint))
  else match handshake.connected with
    | .stopped stop => (s, .stopped stop)
    | .failed .timeout => (s, .failed (.of .timeout))
    | .failed (.http status) => (s, .failed ⟨.rejected, some status, none⟩)
    | .failed .other => (s, .failed (.of .transport))
    | .ready socket =>
      let s := s.dispatched
      match socket.sent with
      | .stopped stop => (s, .stopped stop)
      | .failed error => (s, .failed (.of error.kind))
      | .ready _ =>
        let (listener, result) := readMessages limits 0 s.listener socket.messages
        ({ s with listener }, result)

/-! ## attempts -/

/-- what a call sends: the wire form for each transport, when it can be written -/
structure InferenceRequest where
  model : Model
  validSessionId : Bool
  effectiveWire : Transport → ResponseDialect → Option String

inductive AuthMode where
  | auto | apiKey | chatGpt
  deriving DecidableEq, Repr

/-- where the calls of a model go, and with which credentials -/
structure Route where
  mode : AuthMode
  transport : Transport

structure ResponsesClient where
  route : Route
  limits : Limits
  modelRoutes : Model → Option Route

def ResponsesClient.effective (c : ResponsesClient) (model : Model) : Route :=
  (c.modelRoutes model).getD c.route

def AttemptRecord.admitted (number : Nat) : AttemptRecord :=
    ⟨number, .started, none, false, false, 0⟩

def CallState.received (s : CallState) (elapsedMs : Nat) : CallState :=
  { s with attempts := s.attempts.modifyLast fun record =>
      { record with
        elapsedMs := min elapsedMs u64Max
        status := .responseReceived
        billingUncertain := !(s.listener.decoder.terminal.any (·.usage.recorded)) } }

/-- a status that says that nothing was generated -/
def cleanStatus : Option Nat → Bool
  | some status => decide (400 ≤ status ∧ status ≤ 407 ∨ 409 ≤ status ∧ status ≤ 499)
  | none => false

def CallState.refused (s : CallState) (rejection : AttemptFailure) (elapsedMs : Nat) : CallState :=
  { s with attempts := s.attempts.modifyLast fun record =>
      { record with
        elapsedMs := min elapsedMs u64Max
        httpStatus := rejection.status
        status := if rejection.status.isSome then .rejected
          else if rejection.kind = .timeout then .timedOut else .failed
        billingUncertain := record.dispatched && !cleanStatus rejection.status } }

/-- how an attempt ends: with the call, or with a further attempt -/
inductive Next where
  | ended (result : Except FailureKind Unit)
  | again (recovered : Bool)

/-- what is done after a rejection -/
def afterRejection (limits : Limits) (number : Nat) (recovered : Bool) (s : CallState) (turn : Turn)
    (rejection : AttemptFailure) : CallState × Next :=
  if rejection.status = some 401 ∧ recovered = false then
    match turn.recover with
    | .stopped stop => (s, .ended (.error stop.kind))
    | .failed error => ({ s with authError := some error }, .ended (.error .authentication))
    | .ready _ =>
      if number < limits.maxAttempts then (s, .again true) else (s, .ended (.error .authentication))
  else if number = limits.maxAttempts ∨ s.attempts.getLast?.any (·.billingUncertain) = true ∨
      rejection.status ≠ some 429 ∨ s.listener.decoder.observed = true then
    (s, .ended (.error rejection.kind))
  else
    match turn.slept (min (rejection.retryAfter.getD limits.retryDelay) limits.maxRetryDelay) with
    | some stop => (s, .ended (.error stop.kind))
    | none => (s, .again recovered)

def exchange (limits : Limits) (transport : Transport) (s : CallState) (turn : Turn) :
    CallState × Awaited AttemptFailure Unit :=
  match transport with
  | .http => http limits s turn.http
  | .webSocket => websocket limits s turn.webSocket

def attempt (limits : Limits) (transport : Transport) (request : InferenceRequest) (number : Nat)
    (recovered : Bool) (s : CallState) (turn : Turn) : CallState × Next :=
  let s := { s with responseCostUsd := none }
  match turn.headers with
  | .stopped stop => (s, .ended (.error stop.kind))
  | .failed error => ({ s with authError := some error }, .ended (.error .authentication))
  | .ready _ =>
    if request.validSessionId = false then (s, .ended (.error .invalidRequest))
    else
      let s := { s with attempts := s.attempts ++ [AttemptRecord.admitted number] }
      match exchange limits transport s turn with
      | (s, .stopped stop) => (s, .ended (.error stop.kind))
      | (s, .ready _) =>
        if turn.cancelled then (s, .ended (.error .cancelled))
        else (s.received turn.elapsedMs, .ended (.ok ()))
      | (s, .failed rejection) =>
        if turn.cancelled then (s, .ended (.error .cancelled))
        else afterRejection limits number recovered
          (s.refused rejection turn.elapsedMs) turn rejection

/-- `remaining` attempts, from number `number` on -/
def attempts (limits : Limits) (transport : Transport) (request : InferenceRequest)
    (world : World) :
    Nat → Nat → Bool → CallState → CallState × Except FailureKind Unit
  | 0, _, _, s => (s, .error .rejected)
  | remaining + 1, number, recovered, s =>
    match attempt limits transport request number recovered s (world.turns number) with
    | (s, .ended result) => (s, result)
    | (s, .again recovered) =>
      attempts limits transport request world remaining (number + 1) recovered s

def CallState.new : CallState := ⟨.unavailable, [], Listener.new .openAi, none, none⟩

def ResponsesClient.dialect (c : ResponsesClient) (request : InferenceRequest) : ResponseDialect :=
  if (c.effective request.model).mode = .chatGpt then .chatGpt else .openAi

/-- what is done before the first await -/
def prepare (c : ResponsesClient) (request : InferenceRequest) :
    CallState × Except FailureKind Unit :=
  let route := c.effective request.model
  let dialect := c.dialect request
  let s := { CallState.new with listener := Listener.new dialect }
  match request.effectiveWire route.transport dialect with
  | none => (s, .error .invalidRequest)
  | some body =>
    if c.limits.maxRequestBytes < (strBytes body).length then (s, .error .sizeLimit)
    else
      let override := if (c.modelRoutes request.model).isSome then .modelOverride else .default
      ({ s with request := .prepared route.transport dialect override body }, .ok ())

def run (c : ResponsesClient) (request : InferenceRequest) (world : World) :
    CallState × Except FailureKind Unit :=
  match prepare c request with
  | (s, .error kind) => (s, .error kind)
  | (s, .ok ()) =>
    attempts c.limits (c.effective request.model).transport request world c.limits.maxAttempts 1
      false s

/-! ## the call -/

def AttemptRecord.close (kind : FailureKind) (elapsedMs : Nat) (last : AttemptRecord) :
    AttemptRecord :=
  if last.status = .started then
    { last with
      status := if kind = .cancelled then .cancelled else if kind = .timeout then .timedOut else
        .failed
      billingUncertain := last.dispatched
      elapsedMs := min elapsedMs u64Max }
  else last

/-- the price of a usage by the catalog; of these amounts, none is above `u128::MAX` -/
def catalogCost (model : Model) (usage : Usage) : Option UsdCost := do
  let input ← usage.inputTokens
  let cached ← usage.cachedInputTokens
  let output ← usage.outputTokens
  let total ← usage.totalTokens
  if input < cached ∨ u64Max < input + output ∨ input + output ≠ total then none
  else
    let (inputRate, cachedRate, outputRate) ← match model with
      | .sol => some (4000000000000, 400000000000, 20000000000000)
      | .terra => some (2000000000000, 200000000000, 12000000000000)
      | .luna => some (200000000000, 20000000000, 1200000000000)
      | .astra => some (10000000000000, 1000000000000, 50000000000000)
      | .glm | .spark => none
    UsdCost.ofNat ((input - cached) * inputRate + cached * cachedRate + output * outputRate)

def CallState.cost (s : CallState) (model : Model) : Option UsdCost :=
  let terminal := s.listener.decoder.terminal
  match s.responseCostUsd, terminal.bind (·.usage.costUsd) with
  | some header, some terminal => if header = terminal then some header else none
  | some header, none => some header
  | none, some terminal => some terminal
  | none, none => terminal.bind fun response => catalogCost model response.usage

def CallState.closed (s : CallState) (result : Except FailureKind Unit) (stoppedMs : Nat) :
    List AttemptRecord :=
  match result with
  | .ok () => s.attempts
  | .error kind => s.attempts.modifyLast (AttemptRecord.close kind stoppedMs)

def CallState.outcome (s : CallState) (result : Except FailureKind Unit) (model : Model)
    (stoppedMs : Nat) : CallOutcome :=
  let attempts := s.closed result stoppedMs
  let costUsd := s.cost model
  { request := s.request
    response := s.listener.decoder.terminal.map fun response =>
      { response with usage := { response.usage with costUsd } }
    failure := match result with
      | .ok () => none
      | .error kind => some ⟨kind, attempts.getLast?.bind (·.httpStatus), s.authError⟩
    attempts
    partialText := s.listener.decoder.text
    partialItems := valuesOf s.listener.decoder.items
    responseId := s.listener.decoder.responseId
    costUsd }

def ran (c : ResponsesClient) (request : InferenceRequest) (world : World) :
    CallState × Except FailureKind Unit :=
  if world.cancelled then (CallState.new, .error .cancelled) else run c request world

def respond (c : ResponsesClient) (request : InferenceRequest) (world : World) : CallOutcome :=
  (ran c request world).1.outcome (ran c request world).2 request.model world.stoppedMs

/-! ## what an exchange leaves -/

/-- a rejection after which a further attempt may be made -/
structure CleanlyRejected (a : AttemptRecord) : Prop where
  status : a.status = .rejected
  httpStatus : a.httpStatus = some 401 ∨ a.httpStatus = some 429
  certain : a.billingUncertain = false

theorem readChunks_failed {limits : Limits} {sse : Sse} {total : Nat} {l : Listener}
    {f : AttemptFailure}
    {chunks : List (Awaited WaitError (List UInt8))}
    (h : (readChunks limits sse total l chunks).2 = .failed f) : f.status = none := by
  induction chunks generalizing sse total l with
  | nil =>
    obtain rfl : AttemptFailure.of .interrupted = f := Awaited.failed.inj h
    rfl
  | cons chunk chunks ih =>
    rcases chunk with stop | error | chunk
    · exact nomatch h
    · obtain rfl : AttemptFailure.of error.kind = f := Awaited.failed.inj h
      rfl
    · rw [readChunks] at h
      split at h
      · obtain rfl : AttemptFailure.of .sizeLimit = f := Awaited.failed.inj h
        rfl
      · split at h
        · rename_i kind _
          obtain rfl : AttemptFailure.of kind = f := Awaited.failed.inj h
          rfl
        · exact nomatch h
        · exact ih h

theorem readMessages_failed {limits : Limits} {total : Nat} {l : Listener} {f : AttemptFailure}
    {messages : List (Awaited WaitError Message)}
    (h : (readMessages limits total l messages).2 = .failed f) : f.status = none := by
  induction messages generalizing total l with
  | nil =>
    obtain rfl : AttemptFailure.of .interrupted = f := Awaited.failed.inj h
    rfl
  | cons message messages ih =>
    rcases message with stop | error | message
    · exact nomatch h
    · obtain rfl : AttemptFailure.of error.kind = f := Awaited.failed.inj h
      rfl
    · unfold readMessages at h
      dsimp only at h
      split at h
      · obtain rfl : AttemptFailure.of .sizeLimit = f := Awaited.failed.inj h
        rfl
      · split at h
        · split at h
          · rename_i kind _
            obtain rfl : AttemptFailure.of kind = f := Awaited.failed.inj h
            rfl
          · exact nomatch h
          · exact ih h
        · exact nomatch h
        · rename_i error _
          obtain rfl : AttemptFailure.of error.kind = f := Awaited.failed.inj h
          rfl
        · exact ih h
        · exact ih h
        · obtain rfl : AttemptFailure.of .interrupted = f := Awaited.failed.inj h
          rfl
        · obtain rfl : AttemptFailure.of .malformedResponse = f := Awaited.failed.inj h
          rfl

/-- of the records, an exchange changes whether the last is dispatched; one that a status ends has
given the listener nothing -/
structure Exchanged (s s' : CallState) (result : Awaited AttemptFailure Unit) : Prop where
  records : ∀ init number, s.attempts = init ++ [AttemptRecord.admitted number] →
    ∃ dispatched, s'.attempts = init ++ [{ AttemptRecord.admitted number with dispatched }]
  quiet : ∀ f, result = .failed f → f.status ≠ none → s'.listener = s.listener

variable {s s' : CallState} {limits : Limits}

theorem dispatched_records {init : List AttemptRecord}
    (h : s.attempts = init ++ [AttemptRecord.admitted number]) :
    s.dispatched.attempts = init ++ [{ AttemptRecord.admitted number with dispatched :=
      true }] := by
  show s.attempts.modifyLast _ = _
  rw [h, List.modifyLast_concat]

theorem Exchanged.dispatched {result : Awaited AttemptFailure Unit}
    (hrecords : s'.attempts = s.dispatched.attempts)
    (hquiet : ∀ f, result = .failed f → f.status ≠ none → s'.listener = s.listener) :
    Exchanged s s' result :=
  ⟨fun _ _ h => ⟨true, hrecords.trans (dispatched_records h)⟩, hquiet⟩

theorem http_exchanged (exchange : HttpExchange) :
    Exchanged s (http limits s exchange).1 (http limits s exchange).2 := by
  unfold http
  dsimp only
  split
  · exact .dispatched rfl fun _ _ _ => rfl
  · exact .dispatched rfl fun _ _ _ => rfl
  · split
    · exact .dispatched rfl fun _ _ _ => rfl
    · split
      · exact .dispatched rfl fun _ _ _ => rfl
      · exact .dispatched rfl fun f hf hstatus => absurd (readChunks_failed hf) hstatus

theorem websocket_exchanged (handshake : Handshake) :
    Exchanged s (websocket limits s handshake).1 (websocket limits s handshake).2 := by
  have hunsent : ∀ result, Exchanged s s result :=
    fun _ => ⟨fun _ _ h => ⟨false, h⟩, fun _ _ _ => rfl⟩
  unfold websocket
  split
  · exact hunsent _
  · split
    · exact hunsent _
    · exact hunsent _
    · exact hunsent _
    · exact hunsent _
    · dsimp only
      split
      · exact .dispatched rfl fun _ _ _ => rfl
      · exact .dispatched rfl fun _ _ _ => rfl
      · exact .dispatched rfl fun f hf hstatus => absurd (readMessages_failed hf) hstatus

theorem exchange_exchanged (transport : Transport) (turn : Turn) :
    Exchanged s (exchange limits transport s turn).1 (exchange limits transport s turn).2 := by
  cases transport with
  | http => exact http_exchanged _
  | webSocket => exact websocket_exchanged _

/-! ## what an attempt leaves -/

def Billed (terminal : Option ProviderResponse) (a : AttemptRecord) : Prop :=
  a.billingUncertain = true ∨ a.dispatched = false ∨ cleanStatus a.httpStatus = true ∨
    terminal.any (·.usage.recorded) = true

/-- the record of an attempt with which the call ends, open only after a failure -/
structure LastRecord (terminal : Option ProviderResponse) (number : Nat)
    (result : Except FailureKind Unit)
    (a : AttemptRecord) : Prop where
  number : a.number = number
  opened : a.status = .started → ∃ kind, result = .error kind
  billed : a.status ≠ .started → Billed terminal a

def Leaves (limits : Limits) (number : Nat) (s s' : CallState) : Next → Prop
  | .again _ => number < limits.maxAttempts ∧ s'.listener = s.listener ∧
      ∃ a, s'.attempts = s.attempts ++ [a] ∧ a.number = number ∧ CleanlyRejected a
  | .ended result =>
      s'.attempts = s.attempts ∧ s'.listener = s.listener ∧ (∃ kind, result = .error kind) ∨
      ∃ a, s'.attempts = s.attempts ++ [a] ∧ LastRecord s'.listener.decoder.terminal number result a

def rejectedRecord (number : Nat) (dispatched : Bool) (rejection : AttemptFailure)
    (elapsedMs : Nat) :
    AttemptRecord :=
  { number
    status := if rejection.status.isSome then .rejected
      else if rejection.kind = .timeout then .timedOut else .failed
    httpStatus := rejection.status
    dispatched
    billingUncertain := dispatched && !cleanStatus rejection.status
    elapsedMs := min elapsedMs u64Max }

theorem rejectedRecord_status (number : Nat) (dispatched : Bool) (rejection : AttemptFailure)
    (elapsedMs : Nat) : (rejectedRecord number dispatched rejection elapsedMs).status ≠
    .started := by
  unfold rejectedRecord
  dsimp only
  split
  · exact fun h => nomatch h
  · split <;> exact fun h => nomatch h

theorem rejectedRecord_billed (terminal : Option ProviderResponse) (number : Nat)
    (dispatched : Bool)
    (rejection : AttemptFailure) (elapsedMs : Nat) :
    Billed terminal (rejectedRecord number dispatched rejection elapsedMs) := by
  unfold Billed rejectedRecord
  dsimp only
  cases dispatched with
  | false => exact .inr (.inl rfl)
  | true =>
    cases cleanStatus rejection.status with
    | false => exact .inl rfl
    | true => exact .inr (.inr (.inl rfl))

theorem rejectedRecord_clean {dispatched : Bool} {rejection : AttemptFailure} {elapsedMs : Nat}
    (h : rejection.status = some 401 ∨ rejection.status = some 429) :
    CleanlyRejected (rejectedRecord number dispatched rejection elapsedMs) := by
  have hclean : cleanStatus rejection.status = true := by rcases h with h | h <;> rw [h] <;> decide
  have hsome : rejection.status.isSome = true := by rcases h with h | h <;> rw [h] <;> rfl
  refine ⟨if_pos hsome, h, ?_⟩
  show (dispatched && !cleanStatus rejection.status) = false
  rw [hclean, Bool.not_true, Bool.and_false]

theorem refused_records {init : List AttemptRecord} {dispatched : Bool}
    (h : s.attempts = init ++ [{ AttemptRecord.admitted number with dispatched }])
    (rejection : AttemptFailure) (elapsedMs : Nat) :
    (s.refused rejection elapsedMs).attempts =
      init ++ [rejectedRecord number dispatched rejection elapsedMs] := by
  show s.attempts.modifyLast _ = _
  rw [h, List.modifyLast_concat]
  rfl

/-- after a rejection: the call ends with the record of the rejection, or the rejection is clean and
a further attempt follows -/
theorem afterRejection_leaves {init : CallState} {dispatched : Bool} {elapsedMs : Nat}
    {rejection : AttemptFailure} (hnumber : number ≤ limits.maxAttempts)
    (hrecords : s.attempts = init.attempts ++ [rejectedRecord number dispatched rejection
    elapsedMs]) (hquiet : rejection.status ≠ none → s.listener = init.listener) (recovered : Bool)
    (turn : Turn) :
    Leaves limits number init (afterRejection limits number recovered s turn rejection).1
      (afterRejection limits number recovered s turn rejection).2 := by
  have hend : ∀ (s' : CallState) (kind : FailureKind), s'.attempts = s.attempts →
      Leaves limits number init s' (.ended (.error kind)) := fun s' kind he =>
    .inr ⟨_, he.trans hrecords, rfl, fun h => absurd h (rejectedRecord_status _ _ _ _),
      fun _ => rejectedRecord_billed _ _ _ _ _⟩
  have hagain : ∀ recovered, number < limits.maxAttempts →
      (rejection.status = some 401 ∨ rejection.status = some 429) →
      Leaves limits number init s (.again recovered) := fun _ hless hstatus =>
    ⟨hless, hquiet (by rcases hstatus with h | h <;> rw [h] <;> exact fun h => nomatch h),
      _, hrecords, rfl, rejectedRecord_clean hstatus⟩
  unfold afterRejection
  split
  · rename_i hunauthorized
    split
    · exact hend _ _ rfl
    · exact hend _ _ rfl
    · split
      · rename_i hless
        exact hagain _ hless (.inl hunauthorized.1)
      · exact hend _ _ rfl
  · split
    · exact hend _ _ rfl
    · rename_i hretry
      rw [not_or, not_or, not_or, not_not] at hretry
      split
      · exact hend _ _ rfl
      · exact hagain _ (lt_of_le_of_ne hnumber hretry.1) (.inr hretry.2.2.1)

/-- **What an attempt leaves.** -/
theorem attempt_leaves (hnumber : number ≤ limits.maxAttempts) (transport : Transport)
    (request : InferenceRequest) (recovered : Bool) (turn : Turn) :
    Leaves limits number s (attempt limits transport request number recovered s turn).1
      (attempt limits transport request number recovered s turn).2 := by
  unfold attempt
  dsimp only
  split
  · exact .inl ⟨rfl, rfl, _, rfl⟩
  · exact .inl ⟨rfl, rfl, _, rfl⟩
  · split
    · exact .inl ⟨rfl, rfl, _, rfl⟩
    · have hexchanged := @exchange_exchanged _ ({ s with
          attempts := s.attempts ++ [AttemptRecord.admitted number]
          responseCostUsd := none }) limits transport turn
      generalize exchange limits transport _ turn = exchanged at hexchanged ⊢
      obtain ⟨s', result⟩ := exchanged
      obtain ⟨hrecords, hquiet⟩ := hexchanged
      obtain ⟨dispatched, hrecords⟩ := hrecords s.attempts number rfl
      have hstop : ∀ kind, Leaves limits number s s' (.ended (.error kind)) := fun kind =>
        .inr ⟨_, hrecords, rfl, fun _ => ⟨kind, rfl⟩, fun h => absurd rfl h⟩
      rcases result with stop | rejection | ⟨⟩
      · exact hstop _
      · dsimp only
        split
        · exact hstop _
        · exact afterRejection_leaves hnumber (refused_records hrecords _ _)
            (hquiet rejection rfl) _ _
      · dsimp only
        split
        · exact hstop _
        · refine .inr ⟨{ AttemptRecord.admitted number with
              dispatched
              elapsedMs := min turn.elapsedMs u64Max
              status := .responseReceived
              billingUncertain := !(s'.listener.decoder.terminal.any (·.usage.recorded)) }, ?_,
            rfl, fun h => (nomatch h), fun _ => ?_⟩
          · show s'.attempts.modifyLast _ = _
            rw [hrecords, List.modifyLast_concat]
          · unfold Billed
            show (!(s'.listener.decoder.terminal.any (·.usage.recorded))) = true ∨ _ ∨ _ ∨
              s'.listener.decoder.terminal.any (·.usage.recorded) = true
            cases s'.listener.decoder.terminal.any (·.usage.recorded)
            · exact .inl rfl
            · exact .inr (.inr (.inr rfl))

/-! ## the run -/

/-- the state in which an attempt of a call begins, and whether the credentials are recovered -/
inductive Begins (c : ResponsesClient) (request : InferenceRequest) (world : World) :
    Nat → Bool → CallState → Prop
  | first {s : CallState} (h : prepare c request = (s, .ok ())) : Begins c request world 1 false s
  | next {number : Nat} {recovered recovered' : Bool} {s s' : CallState}
      (h : Begins c request world number recovered s) (hnumber : number ≤ c.limits.maxAttempts)
      (hagain : attempt c.limits (c.effective request.model).transport request number recovered s
        (world.turns number) = (s', .again recovered')) :
      Begins c request world (number + 1) recovered' s'

section
variable {c : ResponsesClient} {request : InferenceRequest} {world : World} {number : Nat}
    {recovered : Bool}

/-- what is so when an attempt begins -/
structure Begun (c : ResponsesClient) (request : InferenceRequest) (world : World) (number : Nat)
    (s : CallState) : Prop where
  fresh : s.listener = Listener.new (c.dialect request)
  count : s.attempts.length + 1 = number
  numbers : s.attempts.map (·.number) = List.range' 1 s.attempts.length
  clean : ∀ a ∈ s.attempts, CleanlyRejected a
  begun : ∀ i ≤ s.attempts.length, ∃ recovered s', Begins c request world (i + 1) recovered s' ∧
    s'.attempts = s.attempts.take i

theorem prepare_ok (h : prepare c request = (s, .ok ())) :
    s.listener = Listener.new (c.dialect request) ∧ s.attempts = [] := by
  unfold prepare at h
  dsimp only at h
  split at h
  · exact nomatch (Prod.mk.inj h).2
  · split at h
    · exact nomatch (Prod.mk.inj h).2
    · obtain rfl := (Prod.mk.inj h).1
      exact ⟨rfl, rfl⟩

variable {a : AttemptRecord}

theorem numbers_append {l : List AttemptRecord} (h : l.map (·.number) = List.range' 1 l.length)
    (ha : a.number = l.length + 1) : (l ++ [a]).map (·.number) = List.range' 1 (l ++ [a]).length := by
  rw [List.map_append, h, List.length_append, List.length_singleton, List.range'_concat,
    List.map_singleton,
    ha, Nat.one_mul, Nat.add_comm 1]

/-- **Every attempt begins after clean rejections only, and with nothing decoded or emitted.** -/
theorem begins_fresh (h : Begins c request world number recovered s) :
    Begun c request world number s := by
  induction h with
  | @first s h =>
    obtain ⟨hfresh, hnone⟩ := prepare_ok h
    refine ⟨hfresh, by rw [hnone]; rfl, by rw [hnone]; rfl, fun a ha => ?_, fun i hi => ?_⟩
    · rw [hnone] at ha
      exact nomatch ha
    · rw [hnone] at hi ⊢
      obtain rfl : i = 0 := Nat.le_zero.mp hi
      exact ⟨false, s, .first h, hnone⟩
  | @next number recovered recovered' s s' h hnumber hagain ih =>
    have hleaves := attempt_leaves (s := s) hnumber
      (c.effective request.model).transport request recovered
      (world.turns number)
    rw [hagain] at hleaves
    obtain ⟨-, hlistener, a, hrecords, hid, hclean⟩ := hleaves
    dsimp only at hlistener hrecords
    have hlength : s'.attempts.length = s.attempts.length + 1 := by
      rw [hrecords, List.length_append, List.length_singleton]
    refine ⟨hlistener.trans ih.fresh, by rw [hlength, ih.count], ?_, fun b hb => ?_, fun i hi => ?_⟩
    · rw [hrecords]
      exact numbers_append ih.numbers (hid.trans ih.count.symm)
    · rw [hrecords, List.mem_append, List.mem_singleton] at hb
      rcases hb with hb | rfl
      · exact ih.clean b hb
      · exact hclean
    · rcases Nat.lt_or_eq_of_le hi with hless | rfl
      · rw [hlength] at hless
        obtain ⟨recovered, s₀, hbegins, htake⟩ := ih.begun i (Nat.le_of_lt_succ hless)
        refine ⟨recovered, s₀, hbegins, ?_⟩
        rw [htake, hrecords, List.take_append_of_le_length (Nat.le_of_lt_succ hless)]
      · refine ⟨recovered', s', ?_, List.take_length.symm⟩
        rw [hlength, ih.count]
        exact .next h hnumber hagain

/-- the records with which a call ends -/
structure Settled (c : ResponsesClient) (request : InferenceRequest) (world : World) (s : CallState)
    (result : Except FailureKind Unit) : Prop where
  numbers : s.attempts.map (·.number) = List.range' 1 s.attempts.length
  limit : s.attempts.length ≤ c.limits.maxAttempts
  clean : ∀ a ∈ s.attempts.dropLast, CleanlyRejected a
  begun : ∀ i < s.attempts.length, ∃ recovered s', Begins c request world (i + 1) recovered s' ∧
    s'.attempts = s.attempts.take i
  opened : ∀ a ∈ s.attempts, a.status = .started → ∃ kind, result = .error kind
  billed : ∀ a ∈ s.attempts, a.status ≠ .started → Billed s.listener.decoder.terminal a

theorem CleanlyRejected.billed (h : CleanlyRejected a) (terminal : Option ProviderResponse) :
    Billed terminal a :=
  .inr (.inr (.inl (by rcases h.httpStatus with h | h <;> rw [h] <;> decide)))

theorem CleanlyRejected.not_started (h : CleanlyRejected a) : a.status ≠ .started := by
  rw [h.status]
  exact fun h => nomatch h

theorem Begun.settled (h : Begun c request world number s)
    (hnumber : number ≤ c.limits.maxAttempts + 1)
    (hrecords : s'.attempts = s.attempts) (result : Except FailureKind Unit) :
    Settled c request world s' result := by
  have hcount := h.count
  refine ⟨?_, ?_, fun a ha => ?_, fun i hi => ?_, fun a ha hstarted => ?_, fun a ha _ => ?_⟩ <;>
    rw [hrecords] at *
  · exact h.numbers
  · omega
  · exact h.clean a (List.dropLast_subset _ ha)
  · exact h.begun i hi.le
  · exact absurd hstarted (h.clean a ha).not_started
  · exact (h.clean a ha).billed _

theorem Begun.ended (h : Begun c request world number s) (hnumber : number ≤ c.limits.maxAttempts)
    {result : Except FailureKind Unit} (hrecords : s'.attempts = s.attempts ++ [a])
    (ha : LastRecord s'.listener.decoder.terminal number result a) : Settled c request world s' result := by
  have hcount := h.count
  have hlength : s'.attempts.length = s.attempts.length + 1 := by
    rw [hrecords, List.length_append, List.length_singleton]
  refine ⟨?_, by omega, fun b hb => ?_, fun i hi => ?_, fun b hb hstarted => ?_,
    fun b hb hclosed => ?_⟩
  · rw [hrecords]
    exact numbers_append h.numbers (ha.number.trans hcount.symm)
  · rw [hrecords, List.dropLast_concat] at hb
    exact h.clean b hb
  · rw [hlength] at hi
    obtain ⟨recovered, s₀, hbegins, htake⟩ := h.begun i (Nat.le_of_lt_succ hi)
    refine ⟨recovered, s₀, hbegins, ?_⟩
    rw [htake, hrecords, List.take_append_of_le_length (Nat.le_of_lt_succ hi)]
  · rw [hrecords, List.mem_append, List.mem_singleton] at hb
    rcases hb with hb | rfl
    · exact absurd hstarted (h.clean b hb).not_started
    · exact ha.opened hstarted
  · rw [hrecords, List.mem_append, List.mem_singleton] at hb
    rcases hb with hb | rfl
    · exact (h.clean b hb).billed _
    · exact ha.billed hclosed

theorem attempts_settled {remaining : Nat} (h : Begins c request world number recovered s)
    (hremaining : number + remaining = c.limits.maxAttempts + 1) :
    Settled c request world
      (attempts c.limits (c.effective request.model).transport request world remaining number
        recovered s).1
      (attempts c.limits (c.effective request.model).transport request world remaining number
        recovered s).2 := by
  induction remaining generalizing number recovered s with
  | zero => exact (begins_fresh h).settled hremaining.le rfl _
  | succ remaining ih =>
    have hnumber : number ≤ c.limits.maxAttempts := by omega
    have hleaves := attempt_leaves (s := s) hnumber
      (c.effective request.model).transport request recovered
      (world.turns number)
    rw [attempts]
    rcases hattempt : attempt c.limits (c.effective request.model).transport request number
      recovered s
      (world.turns number) with ⟨s', result | recovered'⟩
    · rw [hattempt] at hleaves
      rcases hleaves with ⟨hrecords, -, -⟩ | ⟨a, hrecords, ha⟩
      · exact (begins_fresh h).settled (by omega) hrecords _
      · exact (begins_fresh h).ended hnumber hrecords ha
    · exact ih (.next h hnumber hattempt) (by omega)

theorem ran_settled (c : ResponsesClient) (request : InferenceRequest) (world : World) :
    Settled c request world (ran c request world).1 (ran c request world).2 := by
  have hnone : ∀ (s : CallState) (result : Except FailureKind Unit), s.attempts = [] →
      Settled c request world s result := fun s result hs => by
    refine ⟨?_, ?_, fun a ha => ?_, fun i hi => ?_, fun a ha _ => ?_, fun a ha _ => ?_⟩ <;> rw [hs]
      at *
    · rfl
    · exact Nat.zero_le _
    · exact nomatch ha
    · exact nomatch hi
    · exact nomatch ha
    · exact nomatch ha
  unfold ran
  split
  · exact hnone _ _ rfl
  · unfold run
    rcases hprepare : prepare c request with ⟨s, kind | ⟨⟩⟩
    · refine hnone s _ ?_
      unfold prepare at hprepare
      dsimp only at hprepare
      split at hprepare
      · obtain rfl := (Prod.mk.inj hprepare).1
        rfl
      · split at hprepare
        · obtain rfl := (Prod.mk.inj hprepare).1
          rfl
        · exact nomatch (Prod.mk.inj hprepare).2
    · exact attempts_settled (.first hprepare) (Nat.add_comm _ _)

end

/-! ## the outcome -/

attribute [grind =] AttemptRecord.close

theorem close_number (kind : FailureKind) (elapsedMs : Nat) (a : AttemptRecord) :
    (a.close kind elapsedMs).number = a.number := by
  unfold AttemptRecord.close
  split <;> rfl

theorem close_status (kind : FailureKind) (elapsedMs : Nat) (a : AttemptRecord) :
    (a.close kind elapsedMs).status ≠ .started := by
  unfold AttemptRecord.close
  split
  · dsimp only
    split
    · exact fun h => nomatch h
    · split <;> exact fun h => nomatch h
  · assumption

theorem close_billed {terminal : Option ProviderResponse} {a : AttemptRecord} (kind : FailureKind)
    (elapsedMs : Nat) (h : a.status ≠ .started → Billed terminal a) :
    Billed terminal (a.close kind elapsedMs) := by
  unfold AttemptRecord.close
  split
  · cases hd : a.dispatched with
    | true => exact .inl rfl
    | false => exact .inr (.inl rfl)
  · rename_i hclosed
    exact h hclosed

/-- the records of an outcome -/
structure Sound (c : ResponsesClient) (request : InferenceRequest) (world : World)
    (o : CallOutcome) :
    Prop where
  numbers : o.attempts.map (·.number) = List.range' 1 o.attempts.length
  limit : o.attempts.length ≤ c.limits.maxAttempts
  closed : ∀ a ∈ o.attempts, a.status ≠ .started
  clean : ∀ a ∈ o.attempts.dropLast, CleanlyRejected a
  fresh : ∀ i < o.attempts.length, ∃ recovered s, Begins c request world (i + 1) recovered s ∧
    s.attempts = o.attempts.take i ∧ s.listener = Listener.new (c.dialect request)
  billed : ∀ a ∈ o.attempts, Billed o.response a

theorem outcome_terminal (result : Except FailureKind Unit) (model : Model) (stoppedMs : Nat)
    (a : AttemptRecord) (h : Billed s.listener.decoder.terminal a) :
    Billed (s.outcome result model stoppedMs).response a := by
  have he : (s.outcome result model stoppedMs).response.any (·.usage.recorded) =
      s.listener.decoder.terminal.any (·.usage.recorded) := by
    show (s.listener.decoder.terminal.map _).any _ = _
    cases s.listener.decoder.terminal <;> rfl
  unfold Billed at h ⊢
  rwa [he]

theorem Settled.sound {c : ResponsesClient} {request : InferenceRequest} {world : World}
    {result : Except FailureKind Unit} (h : Settled c request world s result) (model : Model)
    (stoppedMs : Nat) :
    Sound c request world (s.outcome result model stoppedMs) := by
  have hfresh : ∀ i recovered s', Begins c request world (i + 1) recovered s' →
      s'.listener = Listener.new (c.dialect request) := fun _ _ _ hb => (begins_fresh hb).fresh
  cases result with
  | ok _ =>
    refine ⟨h.numbers, h.limit, fun a ha hstarted => ?_, h.clean, fun i hi => ?_, fun a ha => ?_⟩
    · obtain ⟨_, he⟩ := h.opened a ha hstarted
      exact nomatch he
    · obtain ⟨recovered, s', hbegins, htake⟩ := h.begun i hi
      exact ⟨recovered, s', hbegins, htake, hfresh _ _ _ hbegins⟩
    · refine outcome_terminal _ _ _ _ (h.billed a ha fun hstarted => ?_)
      obtain ⟨_, he⟩ := h.opened a ha hstarted
      exact nomatch he
  | error kind =>
    rcases List.eq_nil_or_concat s.attempts with hnone | ⟨init, last, hinit⟩
    · have hattempts : (s.outcome (.error kind) model stoppedMs).attempts = [] := by
        show s.attempts.modifyLast _ = _
        rw [hnone]
        rfl
      refine ⟨?_, ?_, fun a ha => ?_, fun a ha => ?_, fun i hi => ?_, fun a ha => ?_⟩ <;>
        rw [hattempts] at *
      · rfl
      · exact Nat.zero_le _
      · exact nomatch ha
      · exact nomatch ha
      · exact nomatch hi
      · exact nomatch ha
    · rw [List.concat_eq_append] at hinit
      have hattempts : (s.outcome (.error kind) model stoppedMs).attempts =
          init ++ [last.close kind stoppedMs] := by
        show s.attempts.modifyLast _ = _
        rw [hinit, List.modifyLast_concat]
      obtain ⟨hnumbers, hlimit, hclean, hbegun, -, hbilled⟩ := h
      rw [hinit] at hnumbers hlimit hclean hbegun hbilled
      rw [List.dropLast_concat] at hclean
      rw [List.length_append, List.length_singleton] at hlimit hbegun
      refine ⟨?_, ?_, fun a ha => ?_, fun a ha => ?_, fun i hi => ?_, fun a ha => ?_⟩ <;>
        rw [hattempts] at *
      · rw [List.map_append, List.length_append] at hnumbers ⊢
        rw [List.map_singleton] at hnumbers ⊢
        rw [close_number]
        exact hnumbers
      · rwa [List.length_append, List.length_singleton]
      · rw [List.mem_append, List.mem_singleton] at ha
        rcases ha with ha | rfl
        · exact (hclean a ha).not_started
        · exact close_status _ _ _
      · rw [List.dropLast_concat] at ha
        exact hclean a ha
      · rw [List.length_append, List.length_singleton] at hi
        obtain ⟨recovered, s', hbegins, htake⟩ := hbegun i hi
        refine ⟨recovered, s', hbegins, ?_, hfresh _ _ _ hbegins⟩
        rw [htake, List.take_append_of_le_length (Nat.le_of_lt_succ hi),
          List.take_append_of_le_length (Nat.le_of_lt_succ hi)]
      · refine outcome_terminal _ _ _ _ ?_
        rw [List.mem_append, List.mem_singleton] at ha
        rcases ha with ha | rfl
        · exact (hclean a ha).billed _
        · exact close_billed _ _ (hbilled last
            (List.mem_append_right _ (List.mem_singleton.mpr rfl)))

theorem cleanRejection_iff {o : CallOutcome} {status : Nat} (h : o.cleanRejection status = true) :
    ∀ a ∈ o.attempts, a.status = .rejected ∧ a.httpStatus = some status ∧
      a.billingUncertain = false := by
  unfold CallOutcome.cleanRejection at h
  rw [Bool.and_eq_true, List.all_eq_true] at h
  intro a ha
  have := h.2 a ha
  simp only [Bool.and_eq_true, decide_eq_true_eq, Bool.not_eq_true'] at this
  exact ⟨this.1.1, this.1.2, this.2⟩

theorem accountedTokens_some {o : CallOutcome} {t : Nat} (h : o.accountedTokens = some t) :
    (∀ a ∈ o.attempts, a.billingUncertain = false) ∧
      ((∃ response, o.response = some response ∧ response.usage.totalTokens = some t) ∨
        t = 0 ∧ ((∀ a ∈ o.attempts, a.dispatched = false) ∨
          ∃ status, (status = 401 ∨ status = 429) ∧
            ∀ a ∈ o.attempts, a.status = .rejected ∧ a.httpStatus = some status)) := by
  unfold CallOutcome.accountedTokens at h
  split at h
  · rename_i hretry
    obtain rfl := Option.some.inj h
    have hclean : ∃ status, (status = 401 ∨ status = 429) ∧ o.cleanRejection status = true := by
      unfold CallOutcome.retryablePreGenerationRejection CallOutcome.rateLimited
        CallOutcome.authenticationRejected at hretry
      rw [Bool.or_eq_true, Bool.and_eq_true, Bool.and_eq_true] at hretry
      rcases hretry with ⟨hclean, -⟩ | ⟨hclean, -⟩
      · exact ⟨429, .inr rfl, hclean⟩
      · exact ⟨401, .inl rfl, hclean⟩
    obtain ⟨status, hstatus, hclean⟩ := hclean
    have hall := cleanRejection_iff hclean
    exact ⟨fun a ha => (hall a ha).2.2,
      .inr ⟨rfl, .inr ⟨status, hstatus, fun a ha => ⟨(hall a ha).1, (hall a ha).2.1⟩⟩⟩⟩
  · split at h
    · exact nomatch h
    · rename_i hcertain
      have hall : ∀ a ∈ o.attempts, a.billingUncertain = false := fun a ha =>
        Bool.eq_false_iff.mpr fun hu => hcertain (List.any_eq_true.mpr ⟨a, ha, hu⟩)
      refine ⟨hall, ?_⟩
      rcases Option.or_eq_some_iff.mp h with htotal | ⟨-, hnone⟩
      · obtain ⟨response, hresponse, ht⟩ := Option.bind_eq_some_iff.mp htotal
        exact .inl ⟨response, hresponse, ht⟩
      · split at hnone
        · rename_i hundispatched
          rw [List.all_eq_true] at hundispatched
          refine .inr ⟨(Option.some.inj hnone).symm, .inl fun a ha => ?_⟩
          have := hundispatched a ha
          rwa [Bool.not_eq_true'] at this
        · exact nomatch hnone

end

end Orvek.Inference
