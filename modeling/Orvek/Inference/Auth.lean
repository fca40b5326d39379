import Orvek.Inference.Cost
import Orvek.Lib.Checks

/-!
# Shared credentials

The calls on one credential source take turns.  A call on a ChatGPT login reads the credential file,
may refresh the login over the network, and writes the file, which other processes own as well.

* `Managed`            the login, its generation, and whether the outcome of a refresh is unknown;
* `AuthStep`           one step between two points where a call waits, or one step of another process;
* `Consistent`         what the source knows at each of these points;
* `dispatched_apart`   between two refresh requests the file has changed or the first was completed;
* `authRun_exact`      that, the account and the generation over any run.
-/

set_option linter.unusedSectionVars false

namespace Orvek.Auth
open Json Checks Decimals

inductive AuthError where
  | invalidCredentials | storeUnavailable | storeChanged | accountChanged | loginRequired
  | refreshUncertain | transport | rejected | timeout | cancelled | invalidCallback
  | callbackUnavailable | invalidIssuer
  deriving DecidableEq, Repr

/-- the base64 of tokens, the JSON parser and the time stamps of the calendar -/
class TokenCodec where
  decode : String → Option (List UInt8)
  fromSlice : List UInt8 → Option Value
  rfc3339 : Nat → Option String

def maxAuthBytes : Nat := 1024 * 1024

structure ChatGptAuthStatus where
  accountId : String
  email : Option String
  plan : Option String
  fedramp : Bool
  deriving DecidableEq, Repr

/-! ## documents -/

/-- `Value::as_u64` -/
def asU64 : Value → Option Nat
  | .number text => (readNat text.toList).filter (· ≤ u64Max)
  | _ => none

def asBool : Value → Option Bool
  | .bool b => some b
  | _ => none

/-- `value[key] = v`; a value that has no fields is left as it is -/
def setField (key : String) (v : Value) : Value → Value
  | .object fields => .object (insertField key v fields)
  | .null => .object [(key, v)]
  | w => w

def orInvalidCredentials {α : Type} : Option α → Except AuthError α
  | some a => .ok a
  | none => .error .invalidCredentials

namespace SecretJson

def token (document : Value) (name : String) : Except AuthError String :=
  orInvalidCredentials <| (((document.get "tokens").bind (·.get name)).bind Value.asStr).filter
    (!blank ·)

variable [TokenCodec]

def parse (bytes : List UInt8) : Except AuthError Value :=
    orInvalidCredentials (TokenCodec.fromSlice bytes)

def decodeJwt (token : String) : Except AuthError Value := do
  let payload ← orInvalidCredentials (((token.toList.splitOn '.')[1]?).filter (· ≠ []))
  let bytes ← orInvalidCredentials (TokenCodec.decode (String.ofList payload))
  parse bytes

def status (document : Value) : Except AuthError ChatGptAuthStatus := do
  refuseIf (((document.get "auth_mode").any (· ≠ .string "chatgpt")) = true) AuthError.loginRequired
  let _ ← token document "access_token"
  let _ ← token document "refresh_token"
  let idToken ← token document "id_token"
  let claims ← decodeJwt idToken
  let auth := claims.index "https://api.openai.com/auth"
  let stored := ((document.get "tokens").bind (·.get "account_id")).bind Value.asStr
  let claimed := (auth.get "chatgpt_account_id").bind Value.asStr
  refuseIf (stored.isSome ∧ claimed.isSome ∧ stored ≠ claimed) AuthError.accountChanged
  let accountId ← orInvalidCredentials ((stored.or claimed).filter (!blank ·))
  .ok {
    accountId
    email := ((claims.get "email").or
      ((claims.get "https://api.openai.com/profile").bind (·.get "email"))).bind Value.asStr
    plan := (auth.get "chatgpt_plan_type").bind Value.asStr
    fedramp := ((auth.get "chatgpt_account_is_fedramp").bind asBool).getD false }

end SecretJson

/-! ## the file -/

/-- what another look at the credential file finds -/
inductive StoreFile where
  | unreadable (error : AuthError)
  | bytes (content : List UInt8)
  deriving DecidableEq, Repr

section
variable [TokenCodec]

def readStore : StoreFile → Except AuthError Value
  | .unreadable error => .error error
  | .bytes content => do
    refuseIf (maxAuthBytes < content.length) AuthError.invalidCredentials
    SecretJson.parse content

/-! ## headers -/

structure Headers where
  authorization : String
  accountId : Option String
  fedramp : Bool
  deriving DecidableEq, Repr

/-- `HeaderValue::from_str` -/
def headerValue (text : String) : Except AuthError String :=
  if (strBytes text).all fun b => b = 9 || (32 ≤ b && b ≠ 127) then .ok text
  else .error .invalidCredentials

def headers (bearer : String) (status : Option ChatGptAuthStatus) : Except AuthError Headers := do
  refuseIf (blank bearer = true) AuthError.invalidCredentials
  let authorization ← headerValue ("Bearer " ++ bearer)
  match status with
  | none => .ok { authorization, accountId := none, fedramp := false }
  | some status => do
    let account ← headerValue status.accountId
    .ok { authorization, accountId := some account, fedramp := status.fedramp }

/-! ## sources -/

structure Managed where
  document : Value
  status : ChatGptAuthStatus
  generation : Nat
  refreshUncertain : Bool
  deriving DecidableEq

structure CommandCredential where
  credential : Option String
  generation : Nat
  loadedAt : Option Nat
  refreshInterval : Nat
  deriving DecidableEq

inductive Source where
  | apiKey (key : String)
  | command (c : CommandCredential)
  | chatGpt (m : Managed)
  deriving DecidableEq

/-- `generation.checked_add(1)` -/
def nextGeneration (generation : Nat) : Option Nat :=
  if generation < u64Max then some (generation + 1) else none

inductive AuthCall where
  | headers
  | recoverUnauthorized (rejectedGeneration : Nat)
  deriving DecidableEq, Repr

inductive AuthReply where
  | headers (result : Except AuthError (Headers × Nat))
  | recovered (result : Except AuthError Unit)

def AuthCall.fail (error : AuthError) : AuthCall → AuthReply
  | .headers => .headers (.error error)
  | .recoverUnauthorized _ => .recovered (.error error)

/-- where the call that holds the source waits -/
inductive Pending where
  | idle
  | waiting (call : AuthCall)
  | dispatching (call : AuthCall) (token : String)
  | inFlight (call : AuthCall)
  | writing (call : AuthCall) (next : Value) (status : ChatGptAuthStatus)
  | running (call : AuthCall)
  deriving DecidableEq

/-- what a call leaves when it waits or returns -/
structure Turn where
  source : Source
  pending : Pending
  reply : Option AuthReply

namespace Managed

variable (m : Managed)

/-- the document is taken over before the generation is counted -/
def reload (store : StoreFile) : Except AuthError Bool × Managed :=
  match readStore store with
  | .error e => (.error e, m)
  | .ok document =>
    if document = m.document then (.ok false, m)
    else
      match SecretJson.status document with
      | .error e => (.error e, m)
      | .ok status =>
        if status.accountId ≠ m.status.accountId then (.error .accountChanged, m)
        else
          match nextGeneration m.generation with
          | none => (.error .storeChanged, { m with document, status })
          | some generation => (.ok true, { document, status, generation, refreshUncertain :=
              false })

def fail (call : AuthCall) (error : AuthError) : Turn := ⟨.chatGpt m, .idle, some (call.fail error)⟩

/-- the answer of a call that needs no refresh any more -/
def answer : AuthCall → AuthReply
  | .headers => .headers do
    let token ← SecretJson.token m.document "access_token"
    let h ← Auth.headers token (some m.status)
    .ok (h, m.generation)
  | .recoverUnauthorized _ => .recovered (.ok ())

def done (call : AuthCall) : Turn := ⟨.chatGpt m, .idle, some (m.answer call)⟩

def expired (now : Nat) : Except AuthError Bool := do
  let token ← SecretJson.token m.document "access_token"
  let claims ← SecretJson.decodeJwt token
  .ok (((claims.get "exp").bind asU64).any (· ≤ satAdd64 now 300))

def refresh (call : AuthCall) : Turn :=
  if m.refreshUncertain then m.fail call .refreshUncertain else ⟨.chatGpt m, .waiting call, none⟩

def begin (store : StoreFile) (now : Nat) (call : AuthCall) : Turn :=
  match m.reload store with
  | (.error e, m) => m.fail call e
  | (.ok _, m) =>
    match call with
    | .headers =>
      if m.refreshUncertain then m.fail call .refreshUncertain
      else
        match m.expired now with
        | .error e => m.fail call e
        | .ok true => m.refresh call
        | .ok false => m.done call
    | .recoverUnauthorized rejected =>
      if m.generation ≠ rejected then m.done call else m.refresh call

/-- with the lock, up to the request; its outcome counts as unknown from here on -/
def locked (store : StoreFile) (call : AuthCall) : Turn :=
  match m.reload store with
  | (.error e, m) => m.fail call e
  | (.ok true, m) => m.done call
  | (.ok false, m) =>
    match SecretJson.token m.document "refresh_token" with
    | .error e => m.fail call e
    | .ok token => ⟨.chatGpt { m with refreshUncertain := true }, .dispatching call token, none⟩

def replaceToken (refreshed next : Value) (field : String) : Except AuthError Value :=
  match refreshed.get field with
  | none => .ok next
  | some value => do
    let token ← orInvalidCredentials (value.asStr.filter (!blank ·))
    .ok (setField "tokens" (setField field (.string token) (next.index "tokens")) next)

def nextDocument (now : Nat) (response : Except AuthError Value) :
    Except AuthError (Value × ChatGptAuthStatus) := do
  let refreshed ← response
  let next ← SecretJson.parse (toVec m.document)
  let next ← ["access_token", "refresh_token", "id_token"].foldlM (replaceToken refreshed) next
  refuseIf ((refreshed.get "access_token").bind Value.asStr = none) AuthError.invalidCredentials
  let status ← SecretJson.status next
  refuseIf (status.accountId ≠ m.status.accountId) AuthError.accountChanged
  let text ← orInvalidCredentials (TokenCodec.rfc3339 now)
  .ok (setField "last_refresh" (.string text) next, status)

def answered (store : StoreFile) (now : Nat) (call : AuthCall)
    (response : Except AuthError Value) : Turn :=
  match m.nextDocument now response with
  | .error e => m.fail call e
  | .ok (next, status) =>
    match readStore store with
    | .error e => m.fail call e
    | .ok document =>
      if document ≠ m.document then m.fail call .storeChanged
      else ⟨.chatGpt m, .writing call next status, none⟩

def written (next : Value) (status : ChatGptAuthStatus) (call : AuthCall) : Turn :=
  let m := { m with document := next, status := status }
  match nextGeneration m.generation with
  | none => m.fail call .storeChanged
  | some generation => { m with generation := generation, refreshUncertain := false :
      Managed }.done call

end Managed

namespace CommandCredential

variable (c : CommandCredential)

def fail (call : AuthCall) (error : AuthError) : Turn := ⟨.command c, .idle, some (call.fail error)⟩

def answer : AuthCall → AuthReply
  | .headers => .headers do
    let credential ← orInvalidCredentials c.credential
    let h ← Auth.headers credential none
    .ok (h, c.generation)
  | .recoverUnauthorized _ => .recovered (.ok ())

def done (call : AuthCall) : Turn := ⟨.command c, .idle, some (c.answer call)⟩

/-- the program is run unless its last answer is recent, and after a rejection in any case -/
def begin (now : Nat) (call : AuthCall) : Turn :=
  match call with
  | .headers =>
    if c.credential.isSome ∧ (c.loadedAt.any fun loaded => now - loaded < c.refreshInterval) = true
      then
      c.done call
    else ⟨.command c, .running call, none⟩
  | .recoverUnauthorized rejected =>
    if c.generation = rejected then ⟨.command c, .running call, none⟩ else c.done call

/-- what the program printed -/
def ran (now : Nat) (call : AuthCall) (output : Except AuthError (List UInt8)) : Turn :=
  match (do
    let bytes ← output
    refuseIf (maxAuthBytes < bytes.length) AuthError.invalidCredentials
    let text ← orInvalidCredentials (String.fromUTF8? ⟨bytes.toArray⟩)
    let value := String.ofList (UsdCost.trim text.toList)
    refuseIf (value = "") AuthError.invalidCredentials
    .ok value : Except AuthError String) with
  | .error e => c.fail call e
  | .ok value =>
    let c := { c with credential := some value, loadedAt := some now }
    match nextGeneration c.generation with
    | none => c.fail call .invalidCredentials
    | some generation => { c with generation := generation : CommandCredential }.done call

end CommandCredential

def Source.begin (store : StoreFile) (now : Nat) (call : AuthCall) : Source → Turn
  | .apiKey key =>
    ⟨.apiKey key, .idle, some <| match call with
      | .headers => .headers ((headers key none).map fun h => (h, 0))
      | .recoverUnauthorized _ => .recovered (.ok ())⟩
  | .command c => c.begin now call
  | .chatGpt m => m.begin store now call

/-! ## steps -/

structure AuthState where
  source : Source
  store : StoreFile
  pending : Pending
  deriving DecidableEq

def AuthState.take (s : AuthState) (t : Turn) : AuthState :=
  { s with source := t.source, pending := t.pending }

inductive AuthEvent where
  | rewritten
  | began (call : AuthCall) (reply : Option AuthReply)
  | locked (reply : Option AuthReply)
  | dispatched (token : String)
  | answered (reply : Option AuthReply)
  | completed (reply : Option AuthReply)
  | failed (reply : AuthReply)
  | ran (reply : Option AuthReply)
  | cancelled

/-- a step of the source between two points where a call waits, of its outside, or of another
process; a call that is cancelled while it waits leaves the source free -/
inductive AuthStep : AuthState → AuthEvent → AuthState → Prop
  | rewrite (s : AuthState) (store : StoreFile) : AuthStep s .rewritten { s with store }
  | begin {s : AuthState} (call : AuthCall) (now : Nat) (hidle : s.pending = .idle) :
      AuthStep s (.began call (s.source.begin s.store now call).reply)
        (s.take (s.source.begin s.store now call))
  | lock {s : AuthState} {m : Managed} {call : AuthCall} (hm : s.source = .chatGpt m)
      (hp : s.pending = .waiting call) :
      AuthStep s (.locked (m.locked s.store call).reply) (s.take (m.locked s.store call))
  | lockFails {s : AuthState} {call : AuthCall} (hp : s.pending = .waiting call) :
      AuthStep s (.failed (call.fail .storeUnavailable)) { s with pending := .idle }
  | dispatch {s : AuthState} {call : AuthCall} {token : String}
      (hp : s.pending = .dispatching call token) :
      AuthStep s (.dispatched token) { s with pending := .inFlight call }
  | answer {s : AuthState} {m : Managed} {call : AuthCall} (now : Nat)
      (response : Except AuthError Value)
      (hm : s.source = .chatGpt m) (hp : s.pending = .inFlight call) :
      AuthStep s (.answered (m.answered s.store now call response).reply)
        (s.take (m.answered s.store now call response))
  | write {s : AuthState} {m : Managed} {call : AuthCall} {next : Value}
      {status : ChatGptAuthStatus}
      (hm : s.source = .chatGpt m) (hp : s.pending = .writing call next status) :
      AuthStep s (.completed (m.written next status call).reply)
        { s.take (m.written next status call) with store := .bytes (toVec next) }
  | writeFails {s : AuthState} {call : AuthCall} {next : Value} {status : ChatGptAuthStatus}
      (error : AuthError) (persisted : Bool) (hp : s.pending = .writing call next status) :
      AuthStep s (.failed (call.fail error))
        { s with pending := .idle, store := if persisted then .bytes (toVec next) else s.store }
  | ran {s : AuthState} {c : CommandCredential} {call : AuthCall} (now : Nat)
      (output : Except AuthError (List UInt8)) (hc : s.source = .command c)
        (hp : s.pending = .running call) :
      AuthStep s (.ran (c.ran now call output).reply) (s.take (c.ran now call output))
  | cancelWaiting {s : AuthState} {call : AuthCall} (hp : s.pending = .waiting call) :
      AuthStep s .cancelled { s with pending := .idle }
  | cancelInFlight {s : AuthState} {call : AuthCall} (hp : s.pending = .inFlight call) :
      AuthStep s .cancelled { s with pending := .idle }
  | cancelRunning {s : AuthState} {call : AuthCall} (hp : s.pending = .running call) :
      AuthStep s .cancelled { s with pending := .idle }

/-- a new source: a key, a command, or the login that the file holds -/
inductive AuthStart : AuthState → Prop
  | apiKey (key : String) (store : StoreFile) : AuthStart ⟨.apiKey key, store, .idle⟩
  | command (refreshInterval : Nat) (store : StoreFile) :
      AuthStart ⟨.command ⟨none, 0, none, refreshInterval⟩, store, .idle⟩
  | chatGpt {document : Value} {status : ChatGptAuthStatus} {store : StoreFile}
      (hread : readStore store = .ok document) (hstatus : SecretJson.status document = .ok status) :
      AuthStart ⟨.chatGpt ⟨document, status, 0, false⟩, store, .idle⟩

/-- any number of steps, each with the state before it -/
inductive AuthRun : AuthState → List (AuthState × AuthEvent) → AuthState → Prop
  | refl (s : AuthState) : AuthRun s [] s
  | step {s t u : AuthState} {e : AuthEvent} {l : List (AuthState × AuthEvent)}
      (hs : AuthStep s e t)
      (h : AuthRun t l u) : AuthRun s ((s, e) :: l) u

/-! ## what a turn leaves -/

/-- the generation is counted up, until it cannot be -/
def Counted (g g' : Nat) : Prop := g < g' ∨ (u64Max ≤ g ∧ g' = g)

theorem nextGeneration_some {g g' : Nat} (h : nextGeneration g = some g') : g < g' := by
  unfold nextGeneration at h
  split at h
  · cases h
    exact Nat.lt_succ_self g
  · cases h

theorem nextGeneration_none {g : Nat} (h : nextGeneration g = none) : u64Max ≤ g := by
  unfold nextGeneration at h
  split at h
  · cases h
  · omega

/-- the login after a look at the file: the same, or a new one of the same account -/
inductive Reloaded (store : StoreFile) (m : Managed) : Managed → Prop
  | same : Reloaded store m m
  | changed {m' : Managed} (hread : readStore store = .ok m'.document)
      (hne : m'.document ≠ m.document)
      (haccount : m'.status.accountId = m.status.accountId)
      (hcount : Counted m.generation m'.generation) : Reloaded store m m'

variable {m m' : Managed} {store : StoreFile} {call : AuthCall} {now : Nat}

theorem reload_spec {r : Except AuthError Bool} (h : m.reload store = (r, m')) :
    Reloaded store m m' ∧ (r = .ok false → m' = m ∧ readStore store = .ok m.document) := by
  unfold Managed.reload at h
  split at h
  · cases h
    exact ⟨.same, fun h => nomatch h⟩
  · rename_i document hread
    split at h
    · rename_i he
      cases h
      exact ⟨.same, fun _ => ⟨rfl, he ▸ hread⟩⟩
    · rename_i hne
      split at h
      · cases h
        exact ⟨.same, fun h => nomatch h⟩
      · rename_i status hstatus
        split at h
        · cases h
          exact ⟨.same, fun h => nomatch h⟩
        · rename_i haccount
          split at h
          · rename_i hnone
            cases h
            exact ⟨.changed hread hne (not_not.mp haccount) (.inr ⟨nextGeneration_none hnone, rfl⟩),
              fun h => nomatch h⟩
          · rename_i generation hsome
            cases h
            exact ⟨.changed hread hne (not_not.mp haccount) (.inl (nextGeneration_some hsome)),
              fun h => nomatch h⟩

theorem begin_spec (m : Managed) (store : StoreFile) (now : Nat) (call : AuthCall) :
    ∃ m', (m.begin store now call).source = .chatGpt m' ∧ Reloaded store m m' ∧
      ((m.begin store now call).pending = .idle ∨
        (m.begin store now call).pending = .waiting call ∧ m'.refreshUncertain = false) := by
  have refresh (m' : Managed) : (m'.refresh call).source = .chatGpt m' ∧
      ((m'.refresh call).pending = .idle ∨
        (m'.refresh call).pending = .waiting call ∧ m'.refreshUncertain = false) := by
    unfold Managed.refresh
    split
    · exact ⟨rfl, .inl rfl⟩
    · rename_i hu
      exact ⟨rfl, .inr ⟨rfl, Bool.eq_false_iff.mpr hu⟩⟩
  unfold Managed.begin
  split
  · rename_i e m' h
    exact ⟨m', rfl, (reload_spec h).1, .inl rfl⟩
  · rename_i b m' h
    have hr := (reload_spec h).1
    split
    · split
      · exact ⟨m', rfl, hr, .inl rfl⟩
      · split
        · exact ⟨m', rfl, hr, .inl rfl⟩
        · exact ⟨m', (refresh m').1, hr, (refresh m').2⟩
        · exact ⟨m', rfl, hr, .inl rfl⟩
    · split
      · exact ⟨m', rfl, hr, .inl rfl⟩
      · exact ⟨m', (refresh m').1, hr, (refresh m').2⟩

theorem locked_spec (m : Managed) (store : StoreFile) (call : AuthCall) :
    (∃ m', (m.locked store call).source = .chatGpt m' ∧ Reloaded store m m' ∧
      (m.locked store call).pending = .idle) ∨
    ∃ token, m.locked store call =
        ⟨.chatGpt { m with refreshUncertain := true }, .dispatching call token, none⟩ ∧
      SecretJson.token m.document "refresh_token" = .ok token ∧
        readStore store = .ok m.document := by
  unfold Managed.locked
  split
  · rename_i e m' h
    exact .inl ⟨m', rfl, (reload_spec h).1, rfl⟩
  · rename_i m' h
    exact .inl ⟨m', rfl, (reload_spec h).1, rfl⟩
  · rename_i m' h
    obtain ⟨hr, hsame⟩ := reload_spec h
    obtain ⟨rfl, hread⟩ := hsame rfl
    split
    · exact .inl ⟨m', rfl, hr, rfl⟩
    · rename_i token htoken
      exact .inr ⟨token, rfl, htoken, hread⟩

theorem nextDocument_account {response : Except AuthError Value} {next : Value}
    {status : ChatGptAuthStatus} (h : m.nextDocument now response = .ok (next, status)) :
    status.accountId = m.status.accountId := by
  obtain ⟨refreshed, -, h⟩ := bind_ok h
  obtain ⟨_, -, h⟩ := bind_ok h
  obtain ⟨_, -, h⟩ := bind_ok h
  obtain ⟨-, h⟩ := refuseIf_bind h
  obtain ⟨_, -, h⟩ := bind_ok h
  obtain ⟨haccount, h⟩ := refuseIf_bind h
  obtain ⟨_, -, h⟩ := bind_ok h
  cases h
  exact not_not.mp haccount

theorem answered_spec (m : Managed) (store : StoreFile) (now : Nat) (call : AuthCall)
    (response : Except AuthError Value) :
    (m.answered store now call response).source = .chatGpt m ∧
      ((m.answered store now call response).pending = .idle ∨
        ∃ next status, (m.answered store now call response).pending = .writing call next status ∧
          status.accountId = m.status.accountId) := by
  unfold Managed.answered
  split
  · exact ⟨rfl, .inl rfl⟩
  · rename_i next status hnext
    split
    · exact ⟨rfl, .inl rfl⟩
    · split
      · exact ⟨rfl, .inl rfl⟩
      · exact ⟨rfl, .inr ⟨next, status, rfl, nextDocument_account hnext⟩⟩

theorem written_spec (m : Managed) (next : Value) (status : ChatGptAuthStatus) (call : AuthCall) :
    ∃ m', (m.written next status call).source = .chatGpt m' ∧
      (m.written next status call).pending = .idle ∧ m'.status = status ∧
      Counted m.generation m'.generation := by
  unfold Managed.written
  simp only
  split
  · rename_i hnone
    exact ⟨_, rfl, rfl, rfl, .inr ⟨nextGeneration_none hnone, rfl⟩⟩
  · rename_i generation hsome
    exact ⟨_, rfl, rfl, rfl, .inl (nextGeneration_some hsome)⟩

/-! ## the login over a run -/

/-- what a call knows of the login where it waits -/
def Pending.Knows (source : Source) : Pending → Prop
  | .dispatching _ token => ∃ m, source = .chatGpt m ∧ m.refreshUncertain = true ∧
      SecretJson.token m.document "refresh_token" = .ok token
  | .writing _ _ status => ∃ m, source = .chatGpt m ∧ status.accountId = m.status.accountId
  | _ => True

def Consistent (s : AuthState) : Prop := s.pending.Knows s.source

variable {s : AuthState}

theorem AuthStart.consistent (h : AuthStart s) : Consistent s := by
  cases h <;> trivial

theorem consistent_of_idle (h : s.pending = .idle) : Consistent s := by
  rw [Consistent, h]
  trivial

theorem CommandCredential.begin_command (c : CommandCredential) (now : Nat) (call : AuthCall) :
    (c.begin now call).source = .command c ∧
      ((c.begin now call).pending = .idle ∨ (c.begin now call).pending = .running call) := by
  unfold CommandCredential.begin
  split
  · split
    · exact ⟨rfl, .inl rfl⟩
    · exact ⟨rfl, .inr rfl⟩
  · split
    · exact ⟨rfl, .inr rfl⟩
    · exact ⟨rfl, .inl rfl⟩

variable (source : Source)

theorem Source.begin_pending (store : StoreFile) (now : Nat) (call : AuthCall) :
    (source.begin store now call).pending = .idle ∨
    (source.begin store now call).pending = .waiting call ∨
      (source.begin store now call).pending = .running call := by
  cases source with
  | apiKey key => exact .inl rfl
  | command c => exact (c.begin_command now call).2.imp_right .inr
  | chatGpt m =>
    obtain ⟨_, -, -, hp⟩ := begin_spec m store now call
    exact hp.imp_right fun hp => .inl hp.1

theorem CommandCredential.ran_command (c : CommandCredential) (now : Nat) (call : AuthCall)
    (output : Except AuthError (List UInt8)) : ∃ c', (c.ran now call output).source = .command c' ∧
      (c.ran now call output).pending = .idle ∧
      (c'.credential = c.credential ∧ c'.generation = c.generation ∨
        Counted c.generation c'.generation) := by
  unfold CommandCredential.ran
  split
  · exact ⟨c, rfl, rfl, .inl ⟨rfl, rfl⟩⟩
  · simp only
    split
    · rename_i hnone
      exact ⟨_, rfl, rfl, .inr (.inr ⟨nextGeneration_none hnone, rfl⟩)⟩
    · rename_i generation hsome
      exact ⟨_, rfl, rfl, .inr (.inl (nextGeneration_some hsome))⟩

/-- what a step does to the login -/
inductive LoginMove (s : AuthState) (e : AuthEvent) (m : Managed) : Managed → Prop
  | same : LoginMove s e m m
  | uncertain : LoginMove s e m { m with refreshUncertain := true }
  | reloaded {m' : Managed} (hread : readStore s.store = .ok m'.document)
      (hne : m'.document ≠ m.document)
      (haccount : m'.status.accountId = m.status.accountId)
      (hcount : Counted m.generation m'.generation) : LoginMove s e m m'
  | completed {m' : Managed} (reply : Option AuthReply) (he : e = .completed reply)
      (haccount : m'.status.accountId = m.status.accountId)
      (hcount : Counted m.generation m'.generation) : LoginMove s e m m'

theorem LoginMove.of_reloaded {e : AuthEvent} (h : Reloaded s.store m m') : LoginMove s e m m' := by
  cases h with
  | same => exact .same
  | changed hread hne haccount hcount => exact .reloaded hread hne haccount hcount

theorem AuthStep.login {s' : AuthState} {e : AuthEvent} (h : AuthStep s e s') (hc : Consistent s)
    (hm : s.source = .chatGpt m) : ∃ m', s'.source = .chatGpt m' ∧ LoginMove s e m m' := by
  cases h with
  | rewrite => exact ⟨m, hm, .same⟩
  | begin call now hidle =>
    obtain ⟨m', hsource, hr, -⟩ := begin_spec m s.store now call
    refine ⟨m', ?_, .of_reloaded hr⟩
    show (s.source.begin s.store now call).source = _
    rw [hm]
    exact hsource
  | @lock n call hn hp =>
    cases hm.symm.trans hn
    rcases locked_spec m s.store call with ⟨m', hsource, hr, -⟩ | ⟨token, he, -⟩
    · exact ⟨m', hsource, .of_reloaded hr⟩
    · exact ⟨_, by show (m.locked s.store call).source = _; rw [he], .uncertain⟩
  | lockFails hp => exact ⟨m, hm, .same⟩
  | dispatch hp => exact ⟨m, hm, .same⟩
  | @answer n call now response hn hp =>
    cases hm.symm.trans hn
    exact ⟨m, (answered_spec m s.store now call response).1, .same⟩
  | @write n call next status hn hp =>
    cases hm.symm.trans hn
    obtain ⟨m', hsource, -, hstatus, hcount⟩ := written_spec m next status call
    rw [Consistent, hp] at hc
    obtain ⟨n, hn, haccount⟩ := hc
    cases hm.symm.trans hn
    exact ⟨m', hsource, .completed _ rfl (hstatus ▸ haccount) hcount⟩
  | writeFails error persisted hp => exact ⟨m, hm, .same⟩
  | ran now output hn hp =>
    rw [hm] at hn
    cases hn
  | cancelWaiting hp => exact ⟨m, hm, .same⟩
  | cancelInFlight hp => exact ⟨m, hm, .same⟩
  | cancelRunning hp => exact ⟨m, hm, .same⟩

theorem AuthStep.consistent {s' : AuthState} {e : AuthEvent} (h : AuthStep s e s') (hc : Consistent s) :
    Consistent s' := by
  cases h with
  | rewrite => exact hc
  | begin call now hidle =>
    show Pending.Knows _ (s.source.begin s.store now call).pending
    rcases s.source.begin_pending s.store now call with hp | hp | hp <;> rw [hp] <;> trivial
  | @lock m call hm hp =>
    rcases locked_spec m s.store call with ⟨n, -, -, hp⟩ | ⟨token, he, htoken, -⟩
    · exact consistent_of_idle hp
    · rw [he]
      exact ⟨_, rfl, rfl, htoken⟩
  | lockFails hp => exact consistent_of_idle rfl
  | dispatch hp => trivial
  | @answer m call now response hm hp =>
    obtain ⟨hsource, hp | ⟨next, status, hp, haccount⟩⟩ := answered_spec m s.store now call response
    · exact consistent_of_idle hp
    · show Pending.Knows (m.answered s.store now call response).source
        (m.answered s.store now call response).pending
      rw [hp]
      exact ⟨m, hsource, haccount⟩
  | @write m call next status hm hp =>
    obtain ⟨m', -, hidle, -⟩ := written_spec m next status call
    exact consistent_of_idle hidle
  | writeFails error persisted hp => exact consistent_of_idle rfl
  | @ran c call now output hs hp =>
    obtain ⟨c', -, hidle, -⟩ := c.ran_command now call output
    exact consistent_of_idle hidle
  | cancelWaiting hp => exact consistent_of_idle rfl
  | cancelInFlight hp => exact consistent_of_idle rfl
  | cancelRunning hp => exact consistent_of_idle rfl


/-! ## refresh requests over a run -/

variable {s t u : AuthState} {e : AuthEvent} {l : List (AuthState × AuthEvent)}

theorem AuthRun.cons {x : AuthState × AuthEvent} (h : AuthRun s (x :: l) t) :
    s = x.1 ∧ ∃ u, AuthStep s x.2 u ∧ AuthRun u l t := by
  cases h with
  | step hs h => exact ⟨rfl, _, hs, h⟩

theorem AuthRun.split {a b : List (AuthState × AuthEvent)} (h : AuthRun s (a ++ b) t) :
    ∃ u, AuthRun s a u ∧ AuthRun u b t := by
  induction a generalizing s with
  | nil => exact ⟨s, .refl s, h⟩
  | cons x a ih =>
    obtain ⟨rfl, v, hs, h⟩ := h.cons
    obtain ⟨u, ha, hb⟩ := ih h
    exact ⟨u, .step hs ha, hb⟩

theorem AuthRun.append (h : AuthRun s l t) (h' : AuthRun t l' u) : AuthRun s (l ++ l') u := by
  induction h with
  | refl => exact h'
  | step hs _ ih => exact .step hs (ih h')

theorem AuthRun.consistent (h : AuthRun s l t) (hc : Consistent s) : Consistent t := by
  induction h with
  | refl => exact hc
  | step hs _ ih => exact ih (hs.consistent hc)

/-- the outcome of the refresh of a document is unknown, and no other refresh has begun -/
structure Stuck (document : Value) (s : AuthState) (m : Managed) : Prop where
  source : s.source = .chatGpt m
  document : m.document = document
  uncertain : m.refreshUncertain = true
  waiting : ∀ call, s.pending ≠ .waiting call
  dispatching : ∀ call token, s.pending ≠ .dispatching call token

/-- what ends this: the exchange is completed, or the file is found to hold another document -/
def Ends (document : Value) (x : AuthState × AuthEvent) : Prop :=
  (∃ reply, x.2 = .completed reply) ∨ ∃ d, readStore x.1.store = .ok d ∧ d ≠ document

theorem Stuck.idle {document : Value} (h : Stuck document s m) {v : AuthState}
    (hsource : v.source = s.source)
    (hidle : v.pending = .idle) : Stuck document v m where
  source := hsource.trans h.source
  document := h.document
  uncertain := h.uncertain
  waiting call hp := by rw [hidle] at hp; cases hp
  dispatching call token hp := by rw [hidle] at hp; cases hp

theorem Stuck.step {document : Value} (h : Stuck document s m) (hs : AuthStep s e t) :
    Stuck document t m ∨ Ends document (s, e) := by
  cases hs with
  | rewrite store => exact .inl ⟨h.source, h.document, h.uncertain, h.waiting, h.dispatching⟩
  | begin call now hidle =>
    obtain ⟨m', hsource, hr, hp⟩ := begin_spec m s.store now call
    have htake : s.source.begin s.store now call = m.begin s.store now call := by
      rw [h.source]
      rfl
    cases hr with
    | same =>
      rw [htake]
      refine .inl (h.idle (hsource.trans h.source.symm) ?_)
      rcases hp with hp | ⟨-, hu⟩
      · exact hp
      · rw [h.uncertain] at hu
        cases hu
    | changed hread hne haccount hcount => exact .inr (.inr ⟨_, hread, h.document ▸ hne⟩)
  | lock hm hp => exact absurd hp (h.waiting _)
  | lockFails hp => exact absurd hp (h.waiting _)
  | dispatch hp => exact absurd hp (h.dispatching _ _)
  | @answer n call now response hm hp =>
    cases h.source.symm.trans hm
    obtain ⟨hsource, hp⟩ := answered_spec m s.store now call response
    refine .inl ⟨hsource, h.document, h.uncertain, fun c hc => ?_, fun c token hc => ?_⟩
    · have hc : (m.answered s.store now call response).pending = _ := hc
      rcases hp with hp | ⟨next, status, hp, -⟩
      · cases hp.symm.trans hc
      · cases hp.symm.trans hc
    · have hc : (m.answered s.store now call response).pending = _ := hc
      rcases hp with hp | ⟨next, status, hp, -⟩
      · cases hp.symm.trans hc
      · cases hp.symm.trans hc
  | write hm hp => exact .inr (.inl ⟨_, rfl⟩)
  | writeFails error persisted hp => exact .inl (h.idle rfl rfl)
  | ran now output hc hp =>
    rw [h.source] at hc
    cases hc
  | cancelWaiting hp => exact .inl (h.idle rfl rfl)
  | cancelInFlight hp => exact .inl (h.idle rfl rfl)
  | cancelRunning hp => exact .inl (h.idle rfl rfl)

theorem Stuck.run {document : Value} (h : Stuck document s m) (hrun : AuthRun s l t) :
    Stuck document t m ∨ ∃ x ∈ l, Ends document x := by
  induction hrun with
  | refl => exact .inl h
  | step hs _ ih =>
    rcases h.step hs with h | h
    · exact (ih h).imp_right fun ⟨x, hx, hends⟩ => ⟨x, List.mem_cons_of_mem _ hx, hends⟩
    · exact .inr ⟨_, List.mem_cons_self, h⟩

theorem AuthStep.prepared (hs : AuthStep s e t) {token : String}
    (hp : t.pending = .dispatching call token) (hm : t.source = .chatGpt m) :
    (e = .rewritten ∧ s.pending = .dispatching call token ∧ s.source = .chatGpt m) ∨
      (e = .locked none ∧ readStore s.store = .ok m.document) := by
  cases hs with
  | rewrite store => exact .inl ⟨rfl, hp, hm⟩
  | begin c now hidle =>
    have hp : (s.source.begin s.store now c).pending = .dispatching call token := hp
    rcases s.source.begin_pending s.store now c with hi | hi | hi <;> cases hi.symm.trans hp
  | @lock n c hn hw =>
    have hm : (n.locked s.store c).source = .chatGpt m := hm
    have hp : (n.locked s.store c).pending = .dispatching call token := hp
    rcases locked_spec n s.store c with ⟨_, -, -, hi⟩ | ⟨token', he, -, hread⟩
    · cases hi.symm.trans hp
    · rw [he] at hm ⊢
      cases hm
      exact .inr ⟨rfl, hread⟩
  | lockFails hw => cases hp
  | dispatch hw => cases hp
  | @answer n c now response hn hw =>
    have hp : (n.answered s.store now c response).pending = .dispatching call token := hp
    obtain ⟨-, hi | ⟨next, status, hi, -⟩⟩ := answered_spec n s.store now c response
    · cases hi.symm.trans hp
    · cases hi.symm.trans hp
  | @write n c next status hn hw =>
    have hp : (n.written next status c).pending = .dispatching call token := hp
    obtain ⟨_, -, hi, -⟩ := written_spec n next status c
    cases hi.symm.trans hp
  | writeFails error persisted hw => cases hp
  | @ran command c now output hc hw =>
    have hp : (command.ran now c output).pending = .dispatching call token := hp
    obtain ⟨_, -, hi, -⟩ := command.ran_command now c output
    cases hi.symm.trans hp
  | cancelWaiting hw => cases hp
  | cancelInFlight hw => cases hp
  | cancelRunning hw => cases hp

/-- in a run the document of a request was read, with nothing but rewrites after that -/
def ReadIn (l : List (AuthState × AuthEvent)) (document : Value) : Prop :=
  ∃ l₁ x l₂, l = l₁ ++ x :: l₂ ∧ x.2 = .locked none ∧ readStore x.1.store = .ok document ∧
    ∀ y ∈ l₂, y.2 = .rewritten

theorem AuthRun.prepared (h : AuthRun s l t) {token : String}
    (hp : t.pending = .dispatching call token)
    (hm : t.source = .chatGpt m) :
    (s.pending = .dispatching call token ∧ s.source = .chatGpt m ∧ ∀ y ∈ l, y.2 = .rewritten) ∨
      ReadIn l m.document := by
  induction h with
  | refl => exact .inl ⟨hp, hm, fun _ h => nomatch h⟩
  | @step s v t e l hs _ ih =>
    rcases ih hp hm with ⟨hp', hm', hall⟩ | ⟨l₁, x, l₂, rfl, hx⟩
    · rcases hs.prepared hp' hm' with ⟨rfl, hp₀, hm₀⟩ | ⟨rfl, hread⟩
      · exact .inl ⟨hp₀, hm₀, List.forall_mem_cons.mpr ⟨rfl, hall⟩⟩
      · exact .inr ⟨[], (s, _), l, rfl, rfl, hread, hall⟩
    · exact .inr ⟨(s, e) :: l₁, x, l₂, rfl, hx⟩

theorem AuthStart.idle (h : AuthStart s) : s.pending = .idle := by
  cases h <;> rfl

/-- what lies between a refresh request for a token, from the steps before it, and the next request:
the document with the token was read, and then the file held another one or the exchange was
completed -/
def Apart (before : List (AuthState × AuthEvent)) (token : String)
    (between : List (AuthState × AuthEvent)) : Prop :=
  ∃ document, SecretJson.token document "refresh_token" = .ok token ∧ ReadIn before document ∧
    ∃ x ∈ between, Ends document x

theorem AuthStep.dispatched {token : String} (h : AuthStep s (.dispatched token) t) :
    ∃ call, s.pending = .dispatching call token ∧ t = { s with pending := .inFlight call } := by
  generalize he : AuthEvent.dispatched token = e at h
  cases h with
  | dispatch hp =>
    cases he
    exact ⟨_, hp, rfl⟩
  | _ => cases he

/-- **Two refresh requests are kept apart.** -/
theorem dispatched_apart (hstart : AuthStart s)
    {before between after : List (AuthState × AuthEvent)}
    {x y : AuthState × AuthEvent} {token token' : String} (hx : x.2 = .dispatched token)
    (hy : y.2 = .dispatched token') (h : AuthRun s (before ++ x :: (between ++ y :: after)) t) :
    Apart before token between := by
  obtain ⟨u, hbefore, h⟩ := h.split
  obtain ⟨rfl, v, hs, h⟩ := h.cons
  obtain ⟨w, hbetween, h⟩ := h.split
  obtain ⟨rfl, z, hs', -⟩ := h.cons
  rw [hx] at hs
  rw [hy] at hs'
  obtain ⟨call, hp, rfl⟩ := hs.dispatched
  obtain ⟨call', hp', -⟩ := hs'.dispatched
  have hknows := hbefore.consistent hstart.consistent
  rw [Consistent, hp] at hknows
  obtain ⟨m, hm, huncertain, htoken⟩ := hknows
  refine ⟨m.document, htoken, ?_, ?_⟩
  · rcases hbefore.prepared hp hm with ⟨hd, -⟩ | hread
    · rw [hstart.idle] at hd
      cases hd
    · exact hread
  · have hstuck : Stuck m.document { x.1 with pending := .inFlight call } m :=
      ⟨hm, rfl, huncertain, fun _ hp => (nomatch hp), fun _ _ hp => (nomatch hp)⟩
    rcases hstuck.run hbetween with hstuck | hends
    · exact absurd hp' (hstuck.dispatching _ _)
    · exact hends


/-! ## the account and the generation -/

def Source.account : Source → Option String
  | .chatGpt m => some m.status.accountId
  | _ => none

def Source.generation : Source → Nat
  | .apiKey _ => 0
  | .command c => c.generation
  | .chatGpt m => m.generation

/-- the credential in use -/
inductive Credential where
  | key (text : Option String)
  | login (document : Value)
  deriving DecidableEq

def Source.credential : Source → Credential
  | .apiKey key => .key (some key)
  | .command c => .key c.credential
  | .chatGpt m => .login m.document

/-- a later state of a source -/
structure Later (s t : Source) : Prop where
  account : t.account = s.account
  generation : s.generation ≤ t.generation
  credential : t.credential = s.credential ∨ s.generation < t.generation ∨ u64Max ≤ t.generation

variable {a b c : Source}

theorem Later.refl (a : Source) : Later a a := ⟨rfl, Nat.le_refl _, .inl rfl⟩

theorem Later.trans (h : Later a b) (h' : Later b c) : Later a c where
  account := h'.account.trans h.account
  generation := Nat.le_trans h.generation h'.generation
  credential := by
    have h₁ := h.generation
    have h₂ := h'.generation
    rcases h.credential with he | hlt | hmax
    · rcases h'.credential with he' | hlt' | hmax'
      · exact .inl (he'.trans he)
      · exact .inr (.inl (Nat.lt_of_le_of_lt h₁ hlt'))
      · exact .inr (.inr hmax')
    · exact .inr (.inl (Nat.lt_of_lt_of_le hlt h₂))
    · exact .inr (.inr (Nat.le_trans hmax h₂))

theorem later_of_counted (haccount : b.account = a.account)
    (h : Counted a.generation b.generation) :
    Later a b := by
  rcases h with hlt | ⟨hmax, he⟩
  · exact ⟨haccount, Nat.le_of_lt hlt, .inr (.inl hlt)⟩
  · exact ⟨haccount, Nat.le_of_eq he.symm, .inr (.inr (he ▸ hmax))⟩

theorem LoginMove.later (h : LoginMove s e m m') : Later (.chatGpt m) (.chatGpt m') := by
  cases h with
  | same => exact .refl _
  | uncertain => exact ⟨rfl, Nat.le_refl _, .inl rfl⟩
  | reloaded hread hne haccount hcount => exact later_of_counted (congrArg some haccount) hcount
  | completed reply he haccount hcount => exact later_of_counted (congrArg some haccount) hcount

/-- a step keeps the account, and counts the generation when it changes the credential -/
theorem AuthStep.later (h : AuthStep s e t) (hc : Consistent s) : Later s.source t.source := by
  cases hsource : s.source with
  | chatGpt m =>
    obtain ⟨m', hm', hmove⟩ := h.login hc hsource
    rw [hm']
    exact hmove.later
  | apiKey key =>
    have hkept : t.source = s.source := by
      cases h with
      | begin call now hidle =>
        show (s.source.begin s.store now call).source = _
        rw [hsource]
        rfl
      | lock hm hp => cases hsource.symm.trans hm
      | answer now response hm hp => cases hsource.symm.trans hm
      | write hm hp => cases hsource.symm.trans hm
      | ran now output hm hp => cases hsource.symm.trans hm
      | _ => rfl
    rw [hkept, hsource]
    exact .refl _
  | command c =>
    cases h with
    | begin call now hidle =>
      have hkept : (s.source.begin s.store now call).source = .command c := by
        rw [hsource]
        exact (c.begin_command now call).1
      show Later _ (s.source.begin s.store now call).source
      rw [hkept]
      exact .refl _
    | @ran c' call now output hm hp =>
      cases hsource.symm.trans hm
      obtain ⟨d, hd, -, ⟨hcred, hgen⟩ | hcount⟩ := c.ran_command now call output
      · show Later _ (c.ran now call output).source
        rw [hd]
        exact ⟨rfl, Nat.le_of_eq hgen.symm, .inl (congrArg Credential.key hcred)⟩
      · show Later _ (c.ran now call output).source
        rw [hd]
        exact later_of_counted rfl hcount
    | lock hm hp => cases hsource.symm.trans hm
    | answer now response hm hp => cases hsource.symm.trans hm
    | write hm hp => cases hsource.symm.trans hm
    | _ =>
      rw [← hsource]
      exact .refl _

theorem AuthRun.later (h : AuthRun s l t) (hc : Consistent s) : Later s.source t.source := by
  induction h with
  | refl => exact .refl _
  | step hs _ ih => exact (hs.later hc).trans (ih (hs.consistent hc))

/-! ### replies -/

def AuthEvent.reply : AuthEvent → Option AuthReply
  | .began _ reply => reply
  | .locked reply => reply
  | .answered reply => reply
  | .completed reply => reply
  | .ran reply => reply
  | .failed reply => some reply
  | _ => none

/-- headers are those of the source at the moment they are returned -/
def Tells (source : Source) (reply : Option AuthReply) : Prop :=
  ∀ h generation, reply = some (.headers (.ok (h, generation))) →
    h.accountId = source.account ∧ generation = source.generation

theorem tells_fail {source : Source} (call : AuthCall) (error : AuthError) :
    Tells source (some (call.fail error)) := by
  intro h generation he
  cases call <;> cases he

theorem headers_account {bearer : String} {status : Option ChatGptAuthStatus} {h : Headers}
    (hh : headers bearer status = .ok h) : h.accountId = status.map (·.accountId) := by
  obtain ⟨-, hh⟩ := refuseIf_bind hh
  obtain ⟨_, -, hh⟩ := bind_ok hh
  cases status with
  | none =>
    cases hh
    rfl
  | some status =>
    obtain ⟨account, haccount, hh⟩ := bind_ok hh
    cases hh
    unfold headerValue at haccount
    split at haccount
    · cases haccount
      rfl
    · cases haccount

theorem Managed.tells_answer (m : Managed) (call : AuthCall) :
    Tells (.chatGpt m) (some (m.answer call)) := by
  intro h generation he
  cases call with
  | recoverUnauthorized rejected => cases he
  | headers =>
    have he := AuthReply.headers.inj (Option.some.inj he)
    obtain ⟨_, -, he⟩ := bind_ok he
    obtain ⟨h', hh, he⟩ := bind_ok he
    cases he
    exact ⟨headers_account hh, rfl⟩

theorem CommandCredential.tells_answer (c : CommandCredential) (call : AuthCall) :
    Tells (.command c) (some (c.answer call)) := by
  intro h generation he
  cases call with
  | recoverUnauthorized rejected => cases he
  | headers =>
    have he := AuthReply.headers.inj (Option.some.inj he)
    obtain ⟨_, -, he⟩ := bind_ok he
    obtain ⟨h', hh, he⟩ := bind_ok he
    cases he
    exact ⟨headers_account hh, rfl⟩

theorem tells_none : Tells source none := fun _ _ he => nomatch he

theorem tells_begin (store : StoreFile) (now : Nat) (call : AuthCall) :
    Tells (source.begin store now call).source (source.begin store now call).reply := by
  cases source with
  | apiKey key =>
    intro h generation he
    cases call with
    | recoverUnauthorized rejected => cases he
    | headers =>
      have he : (headers key none).map (fun h => (h, 0)) = .ok (h, generation) :=
        AuthReply.headers.inj (Option.some.inj he)
      cases hh : headers key none with
      | error e =>
        rw [hh] at he
        cases he
      | ok h' =>
        rw [hh] at he
        cases he
        exact ⟨headers_account hh, rfl⟩
  | command c =>
    show Tells (c.begin now call).source (c.begin now call).reply
    unfold CommandCredential.begin
    split
    · split
      · exact c.tells_answer _
      · exact tells_none _
    · split
      · exact tells_none _
      · exact c.tells_answer _
  | chatGpt m =>
    show Tells (m.begin store now call).source (m.begin store now call).reply
    have refresh (m : Managed) : Tells (m.refresh call).source (m.refresh call).reply := by
      unfold Managed.refresh
      split
      · exact tells_fail _ _
      · exact tells_none _
    unfold Managed.begin
    split
    · exact tells_fail _ _
    · split
      · split
        · exact tells_fail _ _
        · split
          · exact tells_fail _ _
          · exact refresh _
          · exact Managed.tells_answer _ _
      · split
        · exact Managed.tells_answer _ _
        · exact refresh _

theorem AuthStep.tells (h : AuthStep s e t) : Tells t.source e.reply := by
  cases h with
  | rewrite => exact tells_none _
  | begin call now hidle => exact tells_begin _ _ _ _
  | @lock m call hm hp =>
    show Tells (m.locked s.store call).source (m.locked s.store call).reply
    unfold Managed.locked
    split
    · exact tells_fail _ _
    · exact Managed.tells_answer _ _
    · split
      · exact tells_fail _ _
      · exact tells_none _
  | lockFails hp => exact tells_fail _ _
  | dispatch hp => exact tells_none _
  | @answer m call now response hm hp =>
    show Tells (m.answered s.store now call response).source
      (m.answered s.store now call response).reply
    unfold Managed.answered
    split
    · exact tells_fail _ _
    · split
      · exact tells_fail _ _
      · split
        · exact tells_fail _ _
        · exact tells_none _
  | @write m call next status hm hp =>
    show Tells (m.written next status call).source (m.written next status call).reply
    unfold Managed.written
    simp only
    split
    · exact tells_fail _ _
    · exact Managed.tells_answer _ _
  | writeFails error persisted hp => exact tells_fail _ _
  | @ran c call now output hc hp =>
    show Tells (c.ran now call output).source (c.ran now call output).reply
    unfold CommandCredential.ran
    split
    · exact tells_fail _ _
    · simp only
      split
      · exact tells_fail _ _
      · exact CommandCredential.tells_answer _ _
  | cancelWaiting hp => exact tells_none _
  | cancelInFlight hp => exact tells_none _
  | cancelRunning hp => exact tells_none _

theorem AuthRun.tells (h : AuthRun s l t) (hc : Consistent s) {x : AuthState × AuthEvent}
    (hx : x ∈ l)
    {hs : Headers} {generation : Nat} (he : x.2.reply = some (.headers (.ok (hs, generation)))) :
    hs.accountId = s.source.account := by
  induction h with
  | refl => cases hx
  | step hstep _ ih =>
    have hlater := hstep.later hc
    rcases List.mem_cons.mp hx with rfl | hx
    · rw [(hstep.tells hs generation he).1, hlater.account]
    · rw [ih (hstep.consistent hc) hx, hlater.account]

/-- **Refresh tokens, the account and the generation over any run of a source.**  Between two
refresh requests the credential file is found to hold another document than the one the first was
made from, or the first exchange is completed; the account stays what it was, in the source and in
all headers; and in any two states of the run the generation has grown when the credential differs,
unless it has reached its last value. -/
theorem authRun_exact (hstart : AuthStart s) (h : AuthRun s l t) :
    (∀ before x between y after token token', l = before ++ x :: (between ++ y :: after) →
      x.2 = .dispatched token → y.2 = .dispatched token' → Apart before token between) ∧
    t.source.account = s.source.account ∧
    (∀ x ∈ l, ∀ hs generation, x.2.reply = some (.headers (.ok (hs, generation))) →
      hs.accountId = s.source.account) ∧
    (∀ before after u, l = before ++ after → AuthRun s before u → AuthRun u after t →
      u.source.generation ≤ t.source.generation ∧
      (t.source.credential = u.source.credential ∨ u.source.generation < t.source.generation ∨
        u64Max ≤ t.source.generation)) := by
  refine ⟨?_, (h.later hstart.consistent).account, fun x hx hs generation he => ?_, ?_⟩
  · rintro before x between y after token token' rfl hx hy
    exact dispatched_apart hstart hx hy h
  · exact h.tells hstart.consistent hx he
  · rintro before after u - hbefore hafter
    have hlater := hafter.later (hbefore.consistent hstart.consistent)
    exact ⟨hlater.generation, hlater.credential⟩

end

/-! ## runs of a login -/

namespace Sample

def payload : String :=
  "eyJodHRwczovL2FwaS5vcGVuYWkuY29tL2F1dGgiOnsiY2hhdGdwdF9hY2NvdW50X2lkIjoiYSJ9fQ"

def jwt : String := "e30." ++ payload ++ ".e30"

def claims : Value :=
  .object [("https://api.openai.com/auth", .object [("chatgpt_account_id", .string "a")])]

def login (fields : List (String × Value)) : Value :=
  .object ([("auth_mode", .string "chatgpt"), ("last_refresh", .string "1970-01-01T00:00:00Z")] ++
    fields ++
    [("tokens", .object [("access_token", .string jwt), ("id_token", .string jwt),
      ("refresh_token", .string "r")])])

def plain : Value := login []
def noted : Value := login [("note", .null)]

scoped instance tokenCodec : TokenCodec where
  decode text := if text = payload then some (toVec claims) else none
  fromSlice bytes := [plain, noted, claims].find? fun v => toVec v = bytes
  rfc3339 now := if now = 0 then some "1970-01-01T00:00:00Z" else none

def status : ChatGptAuthStatus where
  accountId := "a"
  email := none
  plan := none
  fedramp := false

def managed (document : Value) (generation : Nat) (refreshUncertain : Bool) : Source :=
  .chatGpt { document, status, generation, refreshUncertain }

def file (document : Value) : StoreFile := .bytes (toVec document)

def start : AuthState := ⟨managed plain 0 false, file plain, .idle⟩

theorem authStart : AuthStart start :=
  @AuthStart.chatGpt _ plain _ _ (by decide +kernel) (by decide +kernel)

theorem begins {source : Source} {store : StoreFile} {call : AuthCall} {source' : Source}
    {pending : Pending} {reply : Option AuthReply}
    (h : (source.begin store 0 call).source = source' ∧ (source.begin store 0 call).pending = pending)
    (hr : (source.begin store 0 call).reply = reply) :
    AuthStep ⟨source, store, .idle⟩ (.began call reply) ⟨source', store, pending⟩ := by
  obtain ⟨rfl, rfl⟩ := h
  subst hr
  exact .begin call 0 rfl

theorem locks {m : Managed} {store : StoreFile} {call : AuthCall} {source' : Source}
    {pending : Pending} {reply : Option AuthReply}
    (h : (m.locked store call).source = source' ∧ (m.locked store call).pending = pending)
    (hr : (m.locked store call).reply = reply) :
    AuthStep ⟨.chatGpt m, store, .waiting call⟩ (.locked reply) ⟨source', store, pending⟩ := by
  obtain ⟨rfl, rfl⟩ := h
  subst hr
  exact .lock rfl rfl

theorem answers {m : Managed} {store : StoreFile} {call : AuthCall}
    (response : Except AuthError Value) {source' : Source} {pending : Pending}
    {reply : Option AuthReply}
    (h : (m.answered store 0 call response).source = source' ∧
      (m.answered store 0 call response).pending = pending)
    (hr : (m.answered store 0 call response).reply = reply) :
    AuthStep ⟨.chatGpt m, store, .inFlight call⟩ (.answered reply) ⟨source', store, pending⟩ := by
  obtain ⟨rfl, rfl⟩ := h
  subst hr
  exact .answer 0 response rfl rfl

theorem writes {m : Managed} {store : StoreFile} {call : AuthCall} {next : Value}
    {st : ChatGptAuthStatus} {source' : Source} {reply : Option AuthReply}
    (h : (m.written next st call).source = source' ∧ (m.written next st call).pending = .idle)
    (hr : (m.written next st call).reply = reply) :
    AuthStep ⟨.chatGpt m, store, .writing call next st⟩ (.completed reply)
      ⟨source', file next, .idle⟩ := by
  have hw := @AuthStep.write _ ⟨.chatGpt m, store, .writing call next st⟩ m call next st rfl rfl
  rw [AuthState.take, h.1, h.2, hr] at hw
  exact hw

theorem dispatches {source : Source} {store : StoreFile} {call : AuthCall} {token : String} :
    AuthStep ⟨source, store, .dispatching call token⟩ (.dispatched token)
      ⟨source, store, .inFlight call⟩ :=
  .dispatch rfl

theorem silent {reply : Option AuthReply} (h : reply.isNone = true) : reply = none :=
  Option.isNone_iff_eq_none.mp h

theorem beginsSilent {source : Source} {store : StoreFile} {call : AuthCall} {source' : Source}
    {pending : Pending} (h : (source.begin store 0 call).source = source' ∧
      (source.begin store 0 call).pending = pending ∧
      (source.begin store 0 call).reply.isNone = true) :
    AuthStep ⟨source, store, .idle⟩ (.began call none) ⟨source', store, pending⟩ :=
  begins ⟨h.1, h.2.1⟩ (silent h.2.2)

theorem locksSilent {m : Managed} {store : StoreFile} {call : AuthCall} {source' : Source}
    {pending : Pending} (h : (m.locked store call).source = source' ∧
      (m.locked store call).pending = pending ∧ (m.locked store call).reply.isNone = true) :
    AuthStep ⟨.chatGpt m, store, .waiting call⟩ (.locked none) ⟨source', store, pending⟩ :=
  locks ⟨h.1, h.2.1⟩ (silent h.2.2)

abbrev recover (generation : Nat) : AuthCall := .recoverUnauthorized generation

/-- the exchange of a first recovery, completed without a new refresh token -/
def completedExchange : List (AuthState × AuthEvent) :=
  [(⟨managed plain 0 true, file plain, .inFlight (recover 0)⟩, .answered none),
    (⟨managed plain 0 true, file plain, .writing (recover 0) plain status⟩,
      .completed (some (.recovered (.ok ())))),
    (⟨managed plain 1 false, file plain, .idle⟩, .began (recover 1) none),
    (⟨managed plain 1 false, file plain, .waiting (recover 1)⟩, .locked none)]

def firstLook : List (AuthState × AuthEvent) :=
  [(start, .began (recover 0) none),
    (⟨managed plain 0 false, file plain, .waiting (recover 0)⟩, .locked none)]

def firstRequest : AuthState × AuthEvent :=
  (⟨managed plain 0 true, file plain, .dispatching (recover 0) "r"⟩, .dispatched "r")

def secondRequest : AuthState × AuthEvent :=
  (⟨managed plain 1 true, file plain, .dispatching (recover 1) "r"⟩, .dispatched "r")

/-- two requests with one token, although the file holds the same in every state: the first exchange
was completed, and changed nothing -/
theorem again_completed : AuthRun start
    (firstLook ++ firstRequest :: (completedExchange ++ [secondRequest]))
    ⟨managed plain 1 true, file plain, .inFlight (recover 1)⟩ := by
  have h₁ := @beginsSilent (managed plain 0 false) (file plain) (recover 0) (managed plain 0 false)
    (.waiting (recover 0)) (by decide +kernel)
  have h₂ := @locksSilent ⟨plain, status, 0, false⟩ (file plain) (recover 0) (managed plain 0 true)
    (.dispatching (recover 0) "r") (by decide +kernel)
  have hanswer : ((⟨plain, status, 0, true⟩ : Managed).answered (file plain) 0 (recover 0)
        (.ok (.object [("access_token", .string jwt)]))).source = managed plain 0 true ∧
      ((⟨plain, status, 0, true⟩ : Managed).answered (file plain) 0 (recover 0)
        (.ok (.object [("access_token", .string jwt)]))).pending = .writing (recover 0) plain status ∧
      ((⟨plain, status, 0, true⟩ : Managed).answered (file plain) 0 (recover 0)
        (.ok (.object [("access_token", .string jwt)]))).reply.isNone = true := by
    decide +kernel
  have h₄ := answers _ ⟨hanswer.1, hanswer.2.1⟩ (silent hanswer.2.2)
  have h₅ := @writes ⟨plain, status, 0, true⟩ (file plain) (recover 0) plain status
    (managed plain 1 false) _ (by decide +kernel) rfl
  have h₆ := @beginsSilent (managed plain 1 false) (file plain) (recover 1) (managed plain 1 false)
    (.waiting (recover 1)) (by decide +kernel)
  have h₇ := @locksSilent ⟨plain, status, 1, false⟩ (file plain) (recover 1) (managed plain 1 true)
    (.dispatching (recover 1) "r") (by decide +kernel)
  exact .step h₁ (.step h₂ (.step dispatches (.step h₄ (.step h₅
    (.step h₆ (.step h₇ (.step dispatches (.refl _))))))))

/-- two requests with one token, although the file holds the same from the first on and no exchange
was completed: the file was written between the look at it and the first request -/
theorem again_rewritten : ∃ before x between y t, AuthRun start
    (before ++ x :: (between ++ [y])) t ∧
    x.2 = .dispatched "r" ∧ y.2 = .dispatched "r" ∧
    ∀ z ∈ x :: (between ++ [y]), z.1.store = x.1.store ∧ ∀ reply, z.2 ≠ .completed reply := by
  have h₁ := @begins (managed plain 0 false) (file plain) (recover 0) (managed plain 0 false)
    (.waiting (recover 0)) _ (by decide +kernel) rfl
  have h₂ := @locks ⟨plain, status, 0, false⟩ (file plain) (recover 0) (managed plain 0 true)
    (.dispatching (recover 0) "r") _ (by decide +kernel) rfl
  have h₃ : AuthStep ⟨managed plain 0 true, file plain, .dispatching (recover 0) "r"⟩ .rewritten
      ⟨managed plain 0 true, file noted, .dispatching (recover 0) "r"⟩ := .rewrite _ _
  have h₅ := @answers ⟨plain, status, 0, true⟩ (file noted) (recover 0)
    (.error .transport) (managed plain 0 true) .idle _ (by decide +kernel) rfl
  have h₆ := @begins (managed plain 0 true) (file noted) .headers (managed noted 1 false)
    .idle _ (by decide +kernel) rfl
  have h₇ := @begins (managed noted 1 false) (file noted) (recover 1) (managed noted 1 false)
    (.waiting (recover 1)) _ (by decide +kernel) rfl
  have h₈ := @locks ⟨noted, status, 1, false⟩ (file noted) (recover 1) (managed noted 1 true)
    (.dispatching (recover 1) "r") _ (by decide +kernel) rfl
  refine ⟨[(_, _), (_, _), (_, _)], (_, _), [(_, _), (_, _), (_, _), (_, _)], (_, _), _,
    .step h₁ (.step h₂ (.step h₃ (.step dispatches (.step h₅ (.step h₆ (.step h₇ (.step h₈
      (.step dispatches (.refl _))))))))), rfl, rfl, ?_⟩
  intro z hz
  simp only [List.cons_append, List.nil_append, List.mem_cons, List.not_mem_nil, or_false] at hz
  rcases hz with rfl | rfl | rfl | rfl | rfl | rfl <;> exact ⟨rfl, fun _ he => (nomatch he)⟩

/-- another login of the same account -/
structure Swaps (d d' : Value) : Prop where
  read : readStore (file d') = .ok d'
  ne : d' ≠ d
  status : SecretJson.status d' = .ok status

theorem swaps : Swaps plain noted ∧ Swaps noted plain :=
  ⟨⟨by decide +kernel, by decide +kernel, by decide +kernel⟩,
    ⟨by decide +kernel, by decide +kernel, by decide +kernel⟩⟩

/-- the file is replaced, and the next call takes it over -/
theorem swap {d d' : Value} (h : Swaps d d') (n : Nat) :
    ∃ l, AuthRun ⟨managed d n false, file d, .idle⟩ l
      ⟨managed d' (if n < u64Max then n + 1 else n) false, file d', .idle⟩ := by
  have hbegin : ((managed d n false).begin (file d') 0 (recover n)).source =
        managed d' (if n < u64Max then n + 1 else n) false ∧
      ((managed d n false).begin (file d') 0 (recover n)).pending = .idle := by
    show ((⟨d, status, n, false⟩ : Managed).begin (file d') 0 (recover n)).source = _ ∧
      ((⟨d, status, n, false⟩ : Managed).begin (file d') 0 (recover n)).pending = _
    by_cases hn : n < u64Max
    · have hr : (⟨d, status, n, false⟩ : Managed).reload (file d') =
        (.ok true, ⟨d', status, n + 1, false⟩) := by
        rw [Managed.reload, h.read]
        simp [h.ne, h.status, nextGeneration, hn]
      rw [if_pos hn, Managed.begin, hr]
      dsimp only
      rw [if_pos (Nat.succ_ne_self n)]
      exact ⟨rfl, rfl⟩
    · have hr : (⟨d, status, n, false⟩ : Managed).reload (file d') =
          (.error .storeChanged, ⟨d', status, n, false⟩) := by
        rw [Managed.reload, h.read]
        simp [h.ne, h.status, nextGeneration, hn]
      rw [if_neg hn, Managed.begin, hr]
      exact ⟨rfl, rfl⟩
  exact ⟨_, .step (.rewrite _ (file d')) (.step (begins hbegin rfl) (.refl _))⟩

theorem reaches (n : Nat) (hn : n ≤ u64Max) : ∃ l d d', Swaps d d' ∧ Swaps d' d ∧
    AuthRun start l ⟨managed d n false, file d, .idle⟩ := by
  induction n with
  | zero => exact ⟨[], plain, noted, swaps.1, swaps.2, .refl _⟩
  | succ n ih =>
    obtain ⟨l, d, d', h, h', hrun⟩ := ih (Nat.le_of_succ_le hn)
    obtain ⟨l', hswap⟩ := swap h n
    rw [if_pos (Nat.lt_of_succ_le hn)] at hswap
    exact ⟨l ++ l', d', d, h', h, hrun.append hswap⟩

theorem exhausted_generation : ∃ l t l' u, AuthRun start l t ∧ AuthRun t l' u ∧
    u.source.credential ≠ t.source.credential ∧ u.source.generation = t.source.generation := by
  obtain ⟨l, d, d', h, -, hrun⟩ := reaches u64Max (Nat.le_refl _)
  obtain ⟨l', hswap⟩ := swap h u64Max
  rw [if_neg (Nat.lt_irrefl _)] at hswap
  exact ⟨l, _, l', _, hrun, hswap, fun he => h.ne (Credential.login.inj he), rfl⟩

/-- **Where the stronger reading fails**: the file need not differ after a completed exchange, it
may be written between the look at it and the request, and the generation is bounded. -/
theorem authRun_limits :
    (∃ before x between y t, AuthStart start ∧ AuthRun start (before ++ x :: (between ++ [y])) t ∧
      x.2 = .dispatched "r" ∧ y.2 = .dispatched "r" ∧
      ∀ z ∈ before ++ x :: (between ++ [y]), z.1.store = start.store) ∧
    (∃ before x between y t, AuthStart start ∧ AuthRun start (before ++ x :: (between ++ [y])) t ∧
      x.2 = .dispatched "r" ∧ y.2 = .dispatched "r" ∧
      ∀ z ∈ x :: (between ++ [y]), z.1.store = x.1.store ∧ ∀ reply, z.2 ≠ .completed reply) ∧
    ∃ l t l' u, AuthStart start ∧ AuthRun start l t ∧ AuthRun t l' u ∧
      u.source.credential ≠ t.source.credential ∧ u.source.generation = t.source.generation := by
  refine ⟨?_, ?_, ?_⟩
  · refine ⟨firstLook, firstRequest, completedExchange, secondRequest, _, authStart,
      again_completed, rfl, rfl, ?_⟩
    intro z hz
    simp only [firstLook, completedExchange, List.cons_append, List.nil_append, List.mem_cons,
      List.not_mem_nil, or_false] at hz
    rcases hz with rfl | rfl | rfl | rfl | rfl | rfl | rfl | rfl <;> rfl
  · obtain ⟨a, x, b, y, t, h⟩ := again_rewritten
    exact ⟨a, x, b, y, t, authStart, h⟩
  · obtain ⟨l, t, l', u, h⟩ := exhausted_generation
    exact ⟨l, t, l', u, authStart, h⟩

/-- the first exchange of that run is completed, and keeps its two requests apart -/
theorem authRun_exact_completed : AuthStart start ∧
    AuthRun start (firstLook ++ firstRequest :: (completedExchange ++ [secondRequest]))
      ⟨managed plain 1 true, file plain, .inFlight (recover 1)⟩ ∧
    (∃ x ∈ completedExchange, x.2 = .completed (some (.recovered (.ok ())))) ∧
    Apart firstLook "r" completedExchange :=
  ⟨authStart, again_completed, ⟨_, List.mem_cons_of_mem _ List.mem_cons_self, rfl⟩,
    (authRun_exact authStart again_completed).1 firstLook firstRequest completedExchange
      secondRequest [] "r" "r" rfl rfl rfl⟩

end Sample

end Orvek.Auth
