import Orvek.Ipc.WatchFrame
import Orvek.Lib.Framing
import Mathlib.Logic.Relation

/-!
# The watch

A client follows the journal of its host over a socket.  The host replays the events after a cursor and goes on with
those that are committed later, between previews, warnings and notices of subagents.  The connection may end at any
byte; the client then subscribes again from its last cursor.

* `HostWatch.next`   the reading side of a connection, which keeps its place when its caller stops waiting;
* `Server.turn`      the loop of the host up to its next write;
* `View.connected`, `View.received`, `View.failed`   what the client makes of it, with the notices it gives;
* `Step`, `AnyStep`  a step of the host, of the socket or of the client, in any order.
-/

namespace Orvek.Ipc
open Json Framing Inference

def maxFrameBytes : Nat := 8 * 1024 * 1024

/-- `serde_json::from_slice` of a frame -/
class FrameReader where
  frame : List UInt8 → Except JsonError WatchFrame

inductive WatchError where
  | unavailable
  | unexpectedEof
  | invalidData (text : String)
  | json (e : JsonError)
  | hostRequest (text : String)
  deriving DecidableEq

/-! ## the reading side -/

structure HostWatch where
  after : Nat
  through : Option Nat
  reader : Reader
  deriving DecidableEq

def HostWatch.accept (w : HostWatch) (frame : WatchFrame) : Except WatchError WatchFrame × HostWatch :=
  match frame with
  | .journal record =>
    if record.sequence ≤ w.after then (.error (.hostRequest "host journal cursor did not advance"), w)
    else (.ok frame, { w with after := record.sequence })
  | frame => (.ok frame, w)

section
variable [FrameReader]

/-- reads the next frame; without a result the caller stopped waiting for it -/
def HostWatch.next (w : HostWatch) (counts : List Nat) (inbox : Inbox) :
    Option (Except WatchError WatchFrame) × HostWatch × Inbox :=
  match w.reader.poll maxFrameBytes counts inbox with
  | (.pending, reader, inbox) => (none, { w with reader }, inbox)
  | (.eof, reader, inbox) => (some (.error .unexpectedEof), { w with reader }, inbox)
  | (.oversize, reader, inbox) => (some (.error (.invalidData "host watch frame exceeds limit")), { w with reader }, inbox)
  | (.complete body, reader, inbox) =>
    match FrameReader.frame body with
    | .error e => (some (.error (.json e)), { w with reader }, inbox)
    | .ok frame =>
      let (result, w) := { w with reader := Reader.start }.accept frame
      (some result, w, inbox)

end

/-- the first frame of a subscription -/
def acknowledged (after : Nat) : WatchFrame → Except WatchError Nat
  | .ready accepted through =>
    if accepted ≠ after ∨ through < after then
      .error (.hostRequest "host watch acknowledged an invalid replay range")
    else .ok through
  | _ => .error (.hostRequest "host watch did not acknowledge its cursor")

/-! ## the host -/

/-- where the loop of a watch is; `journal` is behind the warnings, `select` waits for the next thing to do -/
inductive Point where
  | snapshot (events : List SubagentEvent)
  | top
  | journal
  | page (events : List JournalRecord)
  | select
  deriving DecidableEq

structure Server where
  after : Nat
  session : SessionId
  sentWarnings : Option (List HostWarning)
  point : Point
  deriving DecidableEq

/-- what ends a wait of the host -/
inductive Wakeup where
  | cancelled
  | closed
  | command
  | timer
  | provisional (session : SessionId) (request : Uuid) (delta : Delta)
  | previewGap
  | otherUpdate
  | previewsLagged (dropped : Nat)
  | subagent (event : SubagentEvent)
  | subagentsLagged (snapshot : List SubagentEvent)
  deriving DecidableEq

/-- the next write, a move without one, or the end of the watch -/
inductive Turn where
  | send (frame : WatchFrame) (server : Server)
  | goto (server : Server)
  | stop
  deriving DecidableEq

namespace Server

def select (s : Server) : Wakeup → Turn
  | .cancelled | .closed | .command => .stop
  | .timer | .otherUpdate => .goto { s with point := .top }
  | .provisional session request delta => .send (.preview session request delta) { s with point := .top }
  | .previewGap => .send (.previewGap 1) { s with point := .top }
  | .previewsLagged dropped => .send (.previewGap dropped) { s with point := .top }
  | .subagent event =>
    if s.session = event.session then .send (.subagent event.session event) { s with point := .top }
    else .goto { s with point := .top }
  | .subagentsLagged events => .goto { s with point := .snapshot events }

/-- the loop, with the warnings there are and what ends its wait -/
def turn [Sha256] [JournalReader] (s : Server) (rows : List StoredEvent) (warnings : List HostWarning)
    (wakeup : Wakeup) : Turn :=
  match s.point with
  | .snapshot [] => .goto { s with point := .top }
  | .snapshot (event :: events) => .send (.subagent s.session event) { s with point := .snapshot events }
  | .top =>
    if s.sentWarnings = some warnings then .goto { s with point := .journal }
    else .send (.warnings warnings) { s with sentWarnings := some warnings, point := .journal }
  | .journal =>
    match journalPage rows s.after 16 with
    | .error _ => .stop
    | .ok [] => .goto { s with point := .select }
    | .ok events => .goto { s with point := .page events }
  | .page [] => .goto { s with point := .top }
  | .page (record :: events) => .send (.journal record) { s with after := record.sequence, point := .page events }
  | .select => s.select wakeup

end Server

/-! ## the client -/

/-- what the pane is told -/
inductive Update where
  | watch (frame : WatchFrame)
  | degraded (error : WatchError)
  | recovered
  deriving DecidableEq

def Update.record? : Update → Option JournalRecord
  | watch frame => frame.record?
  | _ => none

/-- a connection: the loop of the host while it runs, the bytes of the frame that it writes, those on the way -/
structure Link where
  server : Option Server
  writing : List UInt8
  inbox : Inbox
  watch : HostWatch

structure View where
  after : Nat
  degraded : Bool
  updates : List Update
  errors : List WatchError
  link : Option Link

namespace View
variable (v : View)

def start (after : Nat) : View := ⟨after, false, [], [], none⟩

/-- the view has all that the host had when it accepted the subscription -/
def recover (through : Nat) : View :=
  if v.degraded && through ≤ v.after then { v with degraded := false, updates := v.updates ++ [.recovered] } else v

/-- the subscription is acknowledged; the view has not moved since it asked for it -/
def connected (through : Nat) : View :=
  if v.degraded && v.after = through then { v with degraded := false, updates := v.updates ++ [.recovered] } else v

def received (frame : WatchFrame) (cursor through : Nat) : View :=
  { v with after := cursor, updates := v.updates ++ [Update.watch frame] }.recover through

/-- the connection is gone, which is told once -/
def failed (error : WatchError) : View :=
  let v := { v with link := none, errors := v.errors ++ [error] }
  if v.degraded then v else { v with degraded := true, updates := v.updates ++ [.degraded error] }

/-- what the client does with the answer of a read -/
def answer (l : Link) : Option (Except WatchError WatchFrame) → View
  | none => { v with link := some l }
  | some (.error e) => v.failed e
  | some (.ok frame) =>
    match l.watch.through with
    | some through => { v with link := some l }.received frame l.watch.after through
    | none =>
      match acknowledged v.after frame with
      | .error e => v.failed e
      | .ok through =>
        { v with link := some { l with watch := { l.watch with through := some through } } }.connected through

/-- one read of the client, with what the stream gives it -/
def read [FrameReader] (l : Link) (counts : List Nat) : View :=
  let (result, watch, inbox) := l.watch.next counts l.inbox
  v.answer { l with watch, inbox } result

end View

def Link.accepted (rows : List StoredEvent) (session : SessionId) (events : List SubagentEvent) (after : Nat) : Link where
  server := some ⟨after, session, none, .snapshot events⟩
  writing := frame (toVec (WatchFrame.ready after (journalHead rows)).json)
  inbox := ⟨[], false⟩
  watch := ⟨after, none, Reader.start⟩

namespace Link

/-- a write of a frame, which the host refuses when it is too long -/
def write (l : Link) (frame : WatchFrame) (server : Server) : Link :=
  if maxFrameBytes < (toVec frame.json).length then
    { l with server := none, writing := [], inbox := { l.inbox with closed := true } }
  else { l with server := some server, writing := Framing.frame (toVec frame.json) }

/-- the connection ends: of the bytes on the way the first ones may still arrive -/
def cut (l : Link) (kept : Nat) : Link where
  server := none
  writing := []
  inbox := ⟨l.inbox.bytes.take kept, true⟩
  watch := l.watch

/-- some bytes of the frame are written -/
def flush (l : Link) (count : Nat) : Link :=
  { l with
    writing := l.writing.drop count
    inbox := { l.inbox with bytes := l.inbox.bytes ++ l.writing.take count } }

end Link

/-! ## all together -/

/-- the journal, every frame that a host began to write, and the view -/
structure World where
  rows : List StoredEvent
  sent : List WatchFrame
  view : View

def World.relink (w : World) (l : Link) : World := { w with view := { w.view with link := some l } }

/-- a table that transactions have filled, with events that read back -/
def Journaled [Sha256] [ContractCodec] [SessionCodec] [StoreCodec] [JsonReader] [JournalReader]
    (draws : TaskState → Uuid → Prop) (rows : List StoredEvent) : Prop :=
  (∃ db w, Committed draws db w rows) ∧ ∀ r ∈ rows, r.IsText

section
variable [Sha256] [ContractCodec] [SessionCodec] [StoreCodec] [JsonReader] [JournalReader] [FrameReader]

/-- a step, of whoever comes next; the view leaves a connection when a read of it fails -/
inductive Step (draws : TaskState → Uuid → Prop) (session : SessionId) : World → World → Prop
  | commit {w : World} (added : List StoredEvent) (h : Journaled draws (w.rows ++ added)) :
      Step draws session w { w with rows := w.rows ++ added }
  | refused {w : World} (hlink : w.view.link = none) :
      Step draws session w { w with view := w.view.failed .unavailable }
  | connect {w : World} (events : List SubagentEvent) (hlink : w.view.link = none) :
      Step draws session w { w.relink (Link.accepted w.rows session events w.view.after) with
        sent := w.sent ++ [.ready w.view.after (journalHead w.rows)] }
  | serve {w : World} {l : Link} {s s' : Server} (warnings : List HostWarning) (wakeup : Wakeup)
      (hlink : w.view.link = some l) (hserver : l.server = some s) (hwriting : l.writing = [])
      (hturn : s.turn w.rows warnings wakeup = .goto s') :
      Step draws session w (w.relink { l with server := some s' })
  | write {w : World} {l : Link} {s s' : Server} {frame : WatchFrame} (warnings : List HostWarning) (wakeup : Wakeup)
      (hlink : w.view.link = some l) (hserver : l.server = some s) (hwriting : l.writing = [])
      (hturn : s.turn w.rows warnings wakeup = .send frame s') :
      Step draws session w { w.relink (l.write frame s') with sent := w.sent ++ [frame] }
  | flush {w : World} {l : Link} (count : Nat) (hlink : w.view.link = some l) :
      Step draws session w (w.relink (l.flush count))
  | cut {w : World} {l : Link} (kept : Nat) (hlink : w.view.link = some l) :
      Step draws session w (w.relink (l.cut kept))
  | read {w : World} {l : Link} (counts : List Nat) (hlink : w.view.link = some l) :
      Step draws session w { w with view := w.view.read l counts }

/-- a step with a client of either kind: the one without a terminal drops its connection when it is cancelled, and
subscribes again -/
inductive AnyStep (draws : TaskState → Uuid → Prop) (session : SessionId) : World → World → Prop
  | step {w w' : World} (h : Step draws session w w') : AnyStep draws session w w'
  | drop {w : World} {l : Link} (hlink : w.view.link = some l) :
      AnyStep draws session w { w with view := { w.view with link := none } }

/-- any number of steps with a view -/
abbrev Watching (draws : TaskState → Uuid → Prop) (session : SessionId) : World → World → Prop :=
  Relation.ReflTransGen (Step draws session)

/-- any number of steps with a client of either kind -/
abbrev Run (draws : TaskState → Uuid → Prop) (session : SessionId) : World → World → Prop :=
  Relation.ReflTransGen (AnyStep draws session)

end

end Orvek.Ipc
