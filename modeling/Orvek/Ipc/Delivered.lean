import Orvek.Ipc.Watch

/-!
# A watch loses nothing

The records that a view is handed are those after the cursor it began with, in their order and each once, over any
number of connections that end anywhere.

* `recordsAfter`        what is left of the journal after a cursor;
* `LinkHolds`, `Holds`  what holds of a connection and of the whole;
* `Holds.step`          every step keeps it, as long as a frame reads back as it was sent;
* `Holds.run`           and so does every run;
* `Holds.idle`          a connection at rest has handed on what its host has sent.
-/

set_option linter.unusedSectionVars false

namespace Orvek.Ipc
open Json Framing Paging Checks

/-! ## what is left of a journal -/

section
variable [JournalReader] {rows added : List StoredEvent} {c c' : Nat} {r : JournalRecord}

def recordsAfter (cursor : Nat) (rows : List StoredEvent) : List JournalRecord :=
  after JournalRecord.sequence (some cursor) (records rows)

attribute [grind =] recordsAfter

theorem lt_sequence (h : r ∈ recordsAfter c rows) : c < r.sequence := by
  have hr := (List.mem_filter.mp h).2
  simpa using hr

theorem sequence_le (h : r ∈ recordsAfter c rows) : r.sequence ≤ journalHead rows := by
  obtain ⟨x, hx, rfl⟩ := List.mem_map.mp (List.mem_filter.mp h).1
  exact le_journalHead hx

theorem recordsAfter_append (c : Nat) (rows added : List StoredEvent) :
    recordsAfter c (rows ++ added) = recordsAfter c rows ++ recordsAfter c added := by
  rw [recordsAfter, records, List.map_append, after, List.filter_append]
  rfl

theorem journalHead_mem (rows : List StoredEvent) :
    journalHead rows = 0 ∨ ∃ x ∈ rows, x.sequence = journalHead rows := by
  induction rows with
  | nil => exact .inl rfl
  | cons x rows ih =>
    have hhead : journalHead (x :: rows) = max x.sequence (journalHead rows) := rfl
    rcases Nat.le_total (journalHead rows) x.sequence with hle | hle
    · exact .inr ⟨x, List.mem_cons_self, by omega⟩
    · rcases ih with hzero | ⟨y, hy, hseq⟩
      · exact .inl (by omega)
      · exact .inr ⟨y, List.mem_cons_of_mem x hy, by omega⟩

theorem recordsAfter_added (hsorted : Sorted StoredEvent.sequence (rows ++ added)) (hc : c ≤ journalHead rows)
    (hc' : c' ≤ journalHead rows) : recordsAfter c added = recordsAfter c' added := by
  rcases journalHead_mem rows with hzero | ⟨y, hy, hseq⟩
  · rw [show c = c' by omega]
  · have hlater : ∀ r ∈ records added, journalHead rows < r.sequence := by
      intro r hr
      obtain ⟨x, hx, rfl⟩ := List.mem_map.mp hr
      have hlt := (List.pairwise_append.mp hsorted).2.2 y hy x hx
      rw [hseq] at hlt
      exact hlt
    refine List.filter_congr fun r hr => ?_
    have hlt := hlater r hr
    rw [Option.all_some, Option.all_some, decide_eq_true (Nat.lt_of_le_of_lt hc hlt),
      decide_eq_true (Nat.lt_of_le_of_lt hc' hlt)]

end

section
variable [Sha256] [ContractCodec] [SessionCodec] [StoreCodec] [JsonReader] [JournalReader] [FrameReader]
variable {draws : TaskState → Uuid → Prop} {session : SessionId} {floor start : Nat} {w w' : World} {l : Link}
variable {warnings : List HostWarning} {wakeup : Wakeup} {s s' : Server} {f : WatchFrame}
  {fs : List WatchFrame} {coming : List UInt8} {inbox : Inbox} {counts : List Nat} {reader : Reader}
  (v : View)

theorem Journaled.sorted {rows : List StoredEvent} (h : Journaled draws rows) :
    Sorted StoredEvent.sequence rows :=
  let ⟨⟨_, _, hcommitted⟩, _⟩ := h
  hcommitted.sorted

theorem Journaled.next {rows : List StoredEvent} (h : Journaled draws rows) {c : Nat} {r : JournalRecord}
    {tail : List JournalRecord} (hrest : recordsAfter c rows = r :: tail) : recordsAfter r.sequence rows = tail := by
  obtain ⟨⟨db, world, hcommitted⟩, -⟩ := h
  exact after_first hcommitted.sorted_records hrest

theorem Journaled.page {rows : List StoredEvent} (h : Journaled draws rows) {c : Nat} (hc : c ≤ journalHead rows) :
    ∃ page tail, journalPage rows c 16 = .ok page ∧ recordsAfter c rows = page ++ tail ∧ (page = [] → tail = []) := by
  obtain ⟨⟨db, world, hcommitted⟩, htext⟩ := h
  have hbound : c < 2 ^ 63 := by
    rcases journalHead_mem rows with hzero | ⟨y, hy, hseq⟩
    · omega
    · have hy := hcommitted.range y hy
      omega
  obtain ⟨page, tail, hpage, hrest, -, hempty⟩ := journalPage_records hcommitted htext
    (show 0 < 16 ∧ 16 ≤ 256 by omega) hbound
  exact ⟨page, tail, hpage, hrest, hempty⟩

/-! ## what holds -/

def bodies (fs : List WatchFrame) : List (List UInt8) := fs.map fun f => toVec f.json

/-- the frames that the client of a connection has still to read: the first one acknowledges the subscription, and their
records are the next ones of the journal -/
structure Waiting (floor : Nat) (w : World) (l : Link) (waiting : List WatchFrame) (coming : List UInt8) : Prop where
  writing : l.server ≠ none → coming = l.writing
  follows : l.watch.reader.Follows (l.inbox.bytes ++ coming) (bodies waiting)
  sent : ∀ f ∈ waiting, f ∈ w.sent ∧ (toVec f.json).length ≤ maxFrameBytes
  ready : l.watch.through = none → ∃ n rest, waiting = .ready w.view.after n :: rest ∧ w.view.after ≤ n ∧ floor ≤ n ∧
    n ≤ journalHead w.rows
  left : ∃ tail, recordsAfter w.view.after w.rows = waiting.filterMap WatchFrame.record? ++ tail ∧
    ∀ s, l.server = some s → tail = recordsAfter s.after w.rows

/-- a view that is degraded has not reached what its connection acknowledged -/
structure LinkHolds (floor : Nat) (w : World) (l : Link) : Prop where
  cursor : l.watch.after = w.view.after
  closed : l.inbox.closed = true ↔ l.server = none
  through : ∀ n, l.watch.through = some n → floor ≤ n ∧ n ≤ journalHead w.rows ∧
    (w.view.degraded = false ∨ w.view.after < n)
  waiting : ∃ fs coming, Waiting floor w l fs coming
  idle : l.server = none → l.writing = []
  server : ∀ s, l.server = some s → s.after ≤ journalHead w.rows
  page : ∀ s events, l.server = some s → s.point = .page events →
    ∃ tail, recordsAfter s.after w.rows = events ++ tail

/-- `floor` is below whatever a connection acknowledges, and a view that is not degraded has reached it -/
structure Holds (draws : TaskState → Uuid → Prop) (floor start : Nat) (w : World) : Prop where
  journaled : Journaled draws w.rows
  start_le : start ≤ journalHead w.rows
  floor_le : floor ≤ journalHead w.rows
  cursor_le : w.view.after ≤ journalHead w.rows
  delivered : w.view.updates.filterMap Update.record? ++ recordsAfter w.view.after w.rows = recordsAfter start w.rows
  caught : w.view.degraded = true ∨ floor ≤ w.view.after
  errors : ∀ e ∈ w.view.errors, e = .unavailable ∨ e = .unexpectedEof
  link : ∀ l, w.view.link = some l → LinkHolds floor w l

/-! ## notices -/

theorem failed_records (e : WatchError) :
    (v.failed e).updates.filterMap Update.record? = v.updates.filterMap Update.record? := by
  simp only [View.failed]
  split
  · rfl
  · rw [List.filterMap_append]
    exact List.append_nil _

theorem failed_fields (e : WatchError) :
    (v.failed e).after = v.after ∧ (v.failed e).link = none ∧ (v.failed e).degraded = true ∧
      (v.failed e).errors = v.errors ++ [e] := by
  simp only [View.failed]
  split
  · rename_i hdegraded
    exact ⟨rfl, rfl, hdegraded, rfl⟩
  · exact ⟨rfl, rfl, rfl, rfl⟩

/-- a view that is told of its recovery or not, which has to be told with the floor reached -/
structure Told (v v' : View) : Prop where
  after : v'.after = v.after
  link : v'.link = v.link
  errors : v'.errors = v.errors
  records : v'.updates.filterMap Update.record? = v.updates.filterMap Update.record?

theorem told_recovered :
    Told v { v with degraded := false, updates := v.updates ++ [.recovered] } where
  after := rfl
  link := rfl
  errors := rfl
  records := by
    rw [List.filterMap_append]
    exact List.append_nil _

theorem told_recover (through : Nat) : Told v (v.recover through) ∧
    ((v.recover through).degraded = v.degraded ∨ through ≤ v.after) := by
  unfold View.recover
  split
  · rename_i h
    have hle : through ≤ v.after := by
      simpa using (Bool.and_eq_true_iff.mp h).2
    exact ⟨told_recovered v, .inr hle⟩
  · exact ⟨⟨rfl, rfl, rfl, rfl⟩, .inl rfl⟩

theorem told_connected (through : Nat) : Told v (v.connected through) ∧
    ((v.connected through).degraded = v.degraded ∨ through = v.after) := by
  unfold View.connected
  split
  · rename_i h
    have heq : v.after = through := by
      simpa using (Bool.and_eq_true_iff.mp h).2
    exact ⟨told_recovered v, .inr heq.symm⟩
  · exact ⟨⟨rfl, rfl, rfl, rfl⟩, .inl rfl⟩

theorem recover_degraded (through : Nat) : (v.recover through).degraded = false ∨ v.after < through := by
  rw [View.recover]
  split
  · exact .inl rfl
  · rename_i h
    rw [Bool.and_eq_true, decide_eq_true_eq, not_and, Nat.not_le] at h
    cases hd : v.degraded with
    | false => exact .inl rfl
    | true => exact .inr (h hd)

theorem connected_degraded (through : Nat) (h : v.after ≤ through) :
    (v.connected through).degraded = false ∨ v.after < through := by
  rw [View.connected]
  split
  · exact .inl rfl
  · rename_i hne
    rw [Bool.and_eq_true, decide_eq_true_eq, not_and] at hne
    cases hd : v.degraded with
    | false => exact .inl rfl
    | true => exact .inr (Nat.lt_of_le_of_ne h (hne hd))

/-! ## steps -/

theorem Holds.failed (h : Holds draws floor start w) {e : WatchError}
    (he : e = .unavailable ∨ e = .unexpectedEof) :
    Holds draws floor start { w with view := w.view.failed e } := by
  obtain ⟨hafter, hlink, hdegraded, herrors⟩ := failed_fields w.view e
  refine ⟨h.journaled, h.start_le, h.floor_le, ?_, ?_, .inl hdegraded, ?_, ?_⟩
  · rw [hafter]
    exact h.cursor_le
  · rw [failed_records, hafter]
    exact h.delivered
  · intro x hx
    rw [herrors] at hx
    rcases List.mem_append.mp hx with hx | hx
    · exact h.errors x hx
    · rw [List.mem_singleton.mp hx]
      exact he
  · intro l hl
    rw [hlink] at hl
    cases hl

theorem Holds.drop (h : Holds draws floor start w) :
    Holds draws floor start { w with view := { w.view with link := none } } :=
  ⟨h.journaled, h.start_le, h.floor_le, h.cursor_le, h.delivered, h.caught, h.errors, fun _ hl => nomatch hl⟩

theorem Holds.relink (h : Holds draws floor start w) (sent : List WatchFrame)
    (hl : LinkHolds floor { w.relink l with sent } l) : Holds draws floor start { w.relink l with sent } where
  journaled := h.journaled
  start_le := h.start_le
  floor_le := h.floor_le
  cursor_le := h.cursor_le
  delivered := h.delivered
  caught := h.caught
  errors := h.errors
  link _ heq := Option.some.inj heq ▸ hl

theorem Holds.commit (h : Holds draws floor start w) {added : List StoredEvent}
    (hadded : Journaled draws (w.rows ++ added)) :
    Holds draws floor start { w with rows := w.rows ++ added } := by
  have hhead := journalHead_append w.rows added
  have hsame : ∀ {c c' : Nat}, c ≤ journalHead w.rows → c' ≤ journalHead w.rows →
      recordsAfter c added = recordsAfter c' added := recordsAfter_added hadded.sorted
  refine ⟨hadded, h.start_le.trans hhead, h.floor_le.trans hhead, h.cursor_le.trans hhead, ?_, h.caught, h.errors, ?_⟩
  · show _ ++ recordsAfter w.view.after (w.rows ++ added) = recordsAfter start (w.rows ++ added)
    rw [recordsAfter_append, recordsAfter_append, ← List.append_assoc, h.delivered, hsame h.cursor_le h.start_le]
  · intro l hl
    have hlink := h.link l hl
    obtain ⟨fs, coming, hwaiting⟩ := hlink.waiting
    refine ⟨hlink.cursor, hlink.closed, fun n hn => ?_, ⟨fs, coming, hwaiting.writing, hwaiting.follows, hwaiting.sent,
      fun hnone => ?_, ?_⟩, hlink.idle, fun s hs => (hlink.server s hs).trans hhead, ?_⟩
    · obtain ⟨hfloor, hle, hdegraded⟩ := hlink.through n hn
      exact ⟨hfloor, hle.trans hhead, hdegraded⟩
    · obtain ⟨n, rest, hfs, hafter, hfloor, hle⟩ := hwaiting.ready hnone
      exact ⟨n, rest, hfs, hafter, hfloor, hle.trans hhead⟩
    · obtain ⟨tail, hleft, htail⟩ := hwaiting.left
      refine ⟨tail ++ recordsAfter w.view.after added, ?_, fun s hs => ?_⟩
      · show recordsAfter w.view.after (w.rows ++ added) = _
        rw [recordsAfter_append, hleft, List.append_assoc]
      · show _ = recordsAfter s.after (w.rows ++ added)
        rw [recordsAfter_append, htail s hs, hsame h.cursor_le (hlink.server s hs)]
    · intro s events hs hpoint
      obtain ⟨tail, hpage⟩ := hlink.page s events hs hpoint
      refine ⟨tail ++ recordsAfter s.after added, ?_⟩
      show recordsAfter s.after (w.rows ++ added) = _
      rw [recordsAfter_append, hpage, List.append_assoc]

theorem Holds.connect (h : Holds draws floor start w) (events : List SubagentEvent) :
    Holds draws floor start { w.relink (Link.accepted w.rows session events w.view.after) with
      sent := w.sent ++ [.ready w.view.after (journalHead w.rows)] } := by
  have hfits := size_readyFrame w.view.after (journalHead w.rows)
  refine h.relink _ ⟨rfl, ⟨(fun hc => nomatch hc), fun hn => nomatch hn⟩, (fun n hn => nomatch hn), ⟨[.ready w.view.after (journalHead w.rows)],
    frame (toVec (WatchFrame.ready w.view.after (journalHead w.rows)).json), fun _ => rfl, ?_, ?_, ?_, ?_⟩,
    (fun hnone => nomatch hnone), ?_, ?_⟩
  · have hstart := Reader.follows_start (bodies [.ready w.view.after (journalHead w.rows)])
    rw [bodies, List.map_singleton, frames_cons, frames, List.flatMap_nil, List.append_nil] at hstart
    exact hstart
  · intro f hf
    rw [List.mem_singleton.mp hf]
    exact ⟨List.mem_append_right _ (List.mem_singleton_self _), hfits.trans (by decide)⟩
  · exact fun _ => ⟨_, [], rfl, h.cursor_le, h.floor_le, Nat.le_refl _⟩
  · exact ⟨_, rfl, fun s hs => by cases hs; rfl⟩
  · intro s hs
    cases hs
    exact h.cursor_le
  · intro s page hs hpoint
    cases hs
    cases hpoint

/-- a move without a write: a page that is begun is the beginning of what is left -/
theorem turn_goto {rows : List StoredEvent} (h : Journaled draws rows) (hs : s.after ≤ journalHead rows)
    (hturn : s.turn rows warnings wakeup = .goto s') :
    s'.after = s.after ∧ ∀ events, s'.point = .page events → ∃ tail, recordsAfter s.after rows = events ++ tail := by
  obtain ⟨cursor, session, sentWarnings, point⟩ := s
  unfold Server.turn at hturn
  cases point with
  | snapshot events =>
    cases events with
    | nil =>
      cases hturn
      exact ⟨rfl, fun events he => nomatch he⟩
    | cons event events => cases hturn
  | top =>
    simp only at hturn
    split at hturn
    · cases hturn
      exact ⟨rfl, fun events he => nomatch he⟩
    · cases hturn
  | journal =>
    obtain ⟨page, tail, hpage, hrest, -⟩ := h.page hs
    simp only at hturn hpage
    rw [hpage] at hturn
    cases page with
    | nil =>
      cases hturn
      exact ⟨rfl, fun events he => nomatch he⟩
    | cons record page =>
      cases hturn
      refine ⟨rfl, fun events he => ?_⟩
      cases he
      exact ⟨tail, hrest⟩
  | page events =>
    cases events with
    | nil =>
      cases hturn
      exact ⟨rfl, fun events he => nomatch he⟩
    | cons record events => cases hturn
  | select =>
    cases wakeup <;> simp only [Server.select] at hturn
    case subagent event =>
      split at hturn
      · cases hturn
      · cases hturn
        exact ⟨rfl, fun events he => nomatch he⟩
    all_goals
      cases hturn
      try exact ⟨rfl, fun events he => nomatch he⟩

theorem turn_send {rows : List StoredEvent} (hturn : s.turn rows warnings wakeup = .send f s') :
    (f.record? = none ∧ s'.after = s.after ∧ ∀ events, s'.point ≠ .page events) ∨
      ∃ record events, f = .journal record ∧ s.point = .page (record :: events) ∧
        s' = { s with after := record.sequence, point := .page events } := by
  obtain ⟨cursor, session, sentWarnings, point⟩ := s
  unfold Server.turn at hturn
  cases point with
  | snapshot events =>
    cases events with
    | nil => cases hturn
    | cons event events =>
      cases hturn
      exact .inl ⟨rfl, rfl, fun events he => nomatch he⟩
  | top =>
    simp only at hturn
    split at hturn
    · cases hturn
    · cases hturn
      exact .inl ⟨rfl, rfl, fun events he => nomatch he⟩
  | journal =>
    simp only at hturn
    split at hturn <;> cases hturn
  | page events =>
    cases events with
    | nil => cases hturn
    | cons record events =>
      cases hturn
      exact .inr ⟨record, events, rfl, rfl, rfl⟩
  | select =>
    cases wakeup <;> simp only [Server.select] at hturn
    case subagent event =>
      split at hturn
      · cases hturn
        exact .inl ⟨rfl, rfl, fun events he => nomatch he⟩
      · cases hturn
    all_goals
      cases hturn
      try exact .inl ⟨rfl, rfl, fun events he => nomatch he⟩

theorem Holds.serve (h : Holds draws floor start w) (hlink : w.view.link = some l)
    (hserver : l.server = some s) (hturn : s.turn w.rows warnings wakeup = .goto s') :
    Holds draws floor start (w.relink { l with server := some s' }) := by
  have hl := h.link l hlink
  have hs := hl.server s hserver
  obtain ⟨hafter, hpage⟩ := turn_goto h.journaled hs hturn
  obtain ⟨fs, coming, hwaiting⟩ := hl.waiting
  have hsome : l.server ≠ none := by
    rw [hserver]
    exact fun hn => nomatch hn
  refine h.relink w.sent ⟨hl.cursor, ⟨fun hc => absurd (hl.closed.mp hc) hsome, fun hn => nomatch hn⟩, hl.through,
    ⟨fs, coming, fun _ => hwaiting.writing hsome, hwaiting.follows, hwaiting.sent, hwaiting.ready, ?_⟩,
    (fun hnone => nomatch hnone), ?_, ?_⟩
  · obtain ⟨tail, hleft, htail⟩ := hwaiting.left
    refine ⟨tail, hleft, fun x hx => ?_⟩
    rw [← Option.some.inj hx, hafter]
    exact htail s hserver
  · intro x hx
    rw [← Option.some.inj hx, hafter]
    exact hs
  · intro x events hx hpoint
    rw [← Option.some.inj hx] at hpoint ⊢
    rw [hafter]
    exact hpage events hpoint

/-- the record of a frame is the first one that the loop has left, and the others are left behind it -/
theorem Holds.turned (h : Holds draws floor start w) (hlink : w.view.link = some l)
    (hserver : l.server = some s) (hturn : s.turn w.rows warnings wakeup = .send f s') :
    recordsAfter s.after w.rows = (f.record?).toList ++ recordsAfter s'.after w.rows ∧ s'.after ≤ journalHead w.rows ∧
      ∀ events, s'.point = .page events → ∃ tail, recordsAfter s'.after w.rows = events ++ tail := by
  have hl := h.link l hlink
  rcases turn_send hturn with ⟨hnone, hafter, hpoint⟩ | ⟨record, events, rfl, hpoint, rfl⟩
  · rw [hnone, hafter]
    exact ⟨rfl, hl.server s hserver, fun events he => absurd he (hpoint events)⟩
  · obtain ⟨rest, hpage⟩ := hl.page s (record :: events) hserver hpoint
    have hnext := h.journaled.next hpage
    refine ⟨?_, ?_, fun page hp => ?_⟩
    · show _ = [record] ++ recordsAfter record.sequence w.rows
      rw [hnext]
      exact hpage
    · have hmem : record ∈ recordsAfter s.after w.rows := by
        rw [hpage]
        exact List.mem_cons_self
      exact sequence_le hmem
    · cases hp
      exact ⟨rest, hnext⟩

theorem Holds.write (h : Holds draws floor start w) {s s' : Server} {f : WatchFrame} {warnings : List HostWarning}
    {wakeup : Wakeup} (hlink : w.view.link = some l) (hserver : l.server = some s) (hwriting : l.writing = [])
    (hturn : s.turn w.rows warnings wakeup = .send f s') :
    Holds draws floor start { w.relink (l.write f s') with sent := w.sent ++ [f] } := by
  have hl := h.link l hlink
  have hsome : l.server ≠ none := by
    rw [hserver]
    exact fun hn => nomatch hn
  obtain ⟨fs, coming, hwaiting⟩ := hl.waiting
  have hcoming : coming = [] := by
    rw [hwaiting.writing hsome, hwriting]
  have hsent : ∀ x ∈ fs, x ∈ w.sent ++ [f] ∧ (toVec x.json).length ≤ maxFrameBytes := fun x hx =>
    ⟨List.mem_append_left _ (hwaiting.sent x hx).1, (hwaiting.sent x hx).2⟩
  obtain ⟨tail, hleft, htail⟩ := hwaiting.left
  unfold Link.write
  split
  · refine h.relink _ ⟨hl.cursor, ⟨fun _ => rfl, fun _ => rfl⟩, hl.through, ⟨fs, [], fun _ => rfl, ?_, hsent,
      hwaiting.ready, tail, hleft, (fun x hx => by cases hx)⟩, fun _ => rfl, (fun x hx => by cases hx),
      (fun x events hx => by cases hx)⟩
    rw [← hcoming]
    exact hwaiting.follows
  · rename_i hshort
    have hfollows : l.watch.reader.Follows (l.inbox.bytes ++ frame (toVec f.json)) (bodies (fs ++ [f])) := by
      have hmore := hwaiting.follows.append (bodies [f])
      rw [hcoming, List.append_nil, bodies, bodies, ← List.map_append, List.map_singleton, frames, List.flatMap_singleton]
        at hmore
      exact hmore
    have hall : ∀ x ∈ fs ++ [f], x ∈ w.sent ++ [f] ∧ (toVec x.json).length ≤ maxFrameBytes := by
      intro x hx
      rcases List.mem_append.mp hx with hx | hx
      · exact hsent x hx
      · rw [List.mem_singleton.mp hx]
        exact ⟨List.mem_append_right _ (List.mem_singleton_self f), Nat.le_of_not_lt hshort⟩
    have hready : l.watch.through = none → ∃ n rest, fs ++ [f] = .ready w.view.after n :: rest ∧
        w.view.after ≤ n ∧ floor ≤ n ∧ n ≤ journalHead w.rows := by
      intro hnone
      obtain ⟨n, rest, rfl, hn⟩ := hwaiting.ready hnone
      exact ⟨n, rest ++ [f], rfl, hn⟩
    obtain ⟨hrecord, hcursor, hpage⟩ := h.turned hlink hserver hturn
    refine h.relink _ ⟨hl.cursor, ⟨fun hc => absurd (hl.closed.mp hc) hsome, fun hn => by cases hn⟩, hl.through,
      ⟨fs ++ [f], frame (toVec f.json), fun _ => rfl, hfollows, hall, hready, recordsAfter s'.after w.rows, ?_, ?_⟩,
      (fun hnone => by cases hnone), ?_, ?_⟩
    · show recordsAfter w.view.after w.rows = _
      have hrecords : [f].filterMap WatchFrame.record? = (f.record?).toList := by
        cases hrecord : f.record? with
        | none => rw [List.filterMap_cons_none hrecord]; rfl
        | some record => rw [List.filterMap_cons_some hrecord]; rfl
      rw [hleft, htail s hserver, hrecord, List.filterMap_append, hrecords, List.append_assoc]
    · intro x hx
      rw [← Option.some.inj hx]
      rfl
    · intro x hx
      rw [← Option.some.inj hx]
      exact hcursor
    · intro x events hx hpoint
      rw [← Option.some.inj hx] at hpoint ⊢
      exact hpage events hpoint

theorem Holds.flush (h : Holds draws floor start w) (hlink : w.view.link = some l) (count : Nat) :
    Holds draws floor start (w.relink (l.flush count)) := by
  have hl := h.link l hlink
  obtain ⟨fs, coming, hwaiting⟩ := hl.waiting
  have hidle : l.server = none → (l.flush count).writing = [] := by
    intro hnone
    rw [Link.flush, hl.idle hnone, List.drop_nil]
  cases hserver : l.server with
  | none =>
    refine h.relink w.sent ⟨hl.cursor, hl.closed, hl.through, ⟨fs, coming, fun hsome => absurd hserver hsome, ?_,
      hwaiting.sent, hwaiting.ready, hwaiting.left⟩, hidle, hl.server, hl.page⟩
    show l.watch.reader.Follows (l.inbox.bytes ++ l.writing.take count ++ coming) _
    rw [hl.idle hserver, List.take_nil, List.append_nil]
    exact hwaiting.follows
  | some s =>
    have hcoming : coming = l.writing := hwaiting.writing (by rw [hserver]; exact fun hn => nomatch hn)
    refine h.relink w.sent ⟨hl.cursor, hl.closed, hl.through, ⟨fs, l.writing.drop count, fun _ => rfl, ?_,
      hwaiting.sent, hwaiting.ready, hwaiting.left⟩, hidle, hl.server, hl.page⟩
    show l.watch.reader.Follows (l.inbox.bytes ++ l.writing.take count ++ l.writing.drop count) _
    rw [List.append_assoc, List.take_append_drop, ← hcoming]
    exact hwaiting.follows

theorem Holds.cut (h : Holds draws floor start w) (hlink : w.view.link = some l) (kept : Nat) :
    Holds draws floor start (w.relink (l.cut kept)) := by
  have hl := h.link l hlink
  obtain ⟨fs, coming, hwaiting⟩ := hl.waiting
  obtain ⟨tail, hleft, -⟩ := hwaiting.left
  refine h.relink w.sent ⟨hl.cursor, ⟨fun _ => rfl, fun _ => rfl⟩, hl.through, ⟨fs, l.inbox.bytes.drop kept ++ coming,
    fun hsome => absurd rfl hsome, ?_, hwaiting.sent, hwaiting.ready, tail, hleft, (fun x hx => nomatch hx)⟩,
    fun _ => rfl, (fun x hx => nomatch hx), (fun x events hx => nomatch hx)⟩
  show l.watch.reader.Follows (l.inbox.bytes.take kept ++ (l.inbox.bytes.drop kept ++ coming)) _
  rw [← List.append_assoc, List.take_append_drop]
  exact hwaiting.follows

theorem accept_other (watch : HostWatch) (hf : f.record? = none) : watch.accept f = (.ok f, watch) := by
  cases f with
  | journal record => cases hf
  | warnings | preview | previewGap | subagent | ready => rfl

theorem Holds.accepts (h : Holds draws floor start w) (hlink : w.view.link = some l)
    (hwaiting : Waiting floor w l (f :: fs) coming) {n : Nat} (hthrough : l.watch.through = some n) :
    ∃ cursor, ({ l.watch with reader := Reader.start } : HostWatch).accept f = (.ok f, ⟨cursor, some n, Reader.start⟩) ∧
      recordsAfter w.view.after w.rows = f.record?.toList ++ recordsAfter cursor w.rows ∧
      (∃ tail, recordsAfter cursor w.rows = fs.filterMap WatchFrame.record? ++ tail ∧
        ∀ s, l.server = some s → tail = recordsAfter s.after w.rows) ∧
      cursor ≤ journalHead w.rows ∧ w.view.after ≤ cursor := by
  have hl := h.link l hlink
  obtain ⟨tail, hleft, htail⟩ := hwaiting.left
  cases hf : f.record? with
  | none =>
    refine ⟨w.view.after, ?_, rfl, ⟨tail, ?_, htail⟩, h.cursor_le, Nat.le_refl _⟩
    · rw [accept_other _ hf, ← hl.cursor, ← hthrough]
    · rw [hleft, List.filterMap_cons_none hf]
  | some record =>
    obtain rfl : f = .journal record := by
      cases f <;> cases hf
      rfl
    have hcons : recordsAfter w.view.after w.rows = record :: (fs.filterMap WatchFrame.record? ++ tail) := by
      rw [hleft, List.filterMap_cons_some hf, List.cons_append]
    have hmem : record ∈ recordsAfter w.view.after w.rows := by
      rw [hcons]
      exact List.mem_cons_self
    have hlt := lt_sequence hmem
    have hnext := h.journaled.next hcons
    refine ⟨record.sequence, ?_, ?_, ⟨tail, hnext, htail⟩, sequence_le hmem, hlt.le⟩
    · have hadvance : ¬ record.sequence ≤ l.watch.after := by
        rw [hl.cursor]
        omega
      simp only [HostWatch.accept, if_neg hadvance, hthrough]
    · rw [hcons, hnext]
      rfl

theorem LinkHolds.next (hl : LinkHolds floor w l) {f : WatchFrame} {fs : List WatchFrame} {coming : List UInt8}
    (hwaiting : Waiting floor w l (f :: fs) coming) {inbox : Inbox} (hrest : inbox.bytes ++ coming = frames (bodies fs))
    (hclosed : inbox.closed = l.inbox.closed) {v : View} {n : Nat}
    (hn : floor ≤ n ∧ n ≤ journalHead w.rows ∧ (v.degraded = false ∨ v.after < n))
    (hleft : ∃ tail, recordsAfter v.after w.rows = fs.filterMap WatchFrame.record? ++ tail ∧
      ∀ s, l.server = some s → tail = recordsAfter s.after w.rows) :
    LinkHolds floor { w with view := v } { l with watch := ⟨v.after, some n, Reader.start⟩, inbox } where
  cursor := rfl
  closed := by
    show inbox.closed = true ↔ _
    rw [hclosed]
    exact hl.closed
  through m hm := by
    rw [← Option.some.inj hm]
    exact hn
  waiting := by
    refine ⟨fs, coming, hwaiting.writing, ?_, fun x hx => hwaiting.sent x (List.mem_cons_of_mem f hx),
      (fun hnone => nomatch hnone), hleft⟩
    show Reader.start.Follows (inbox.bytes ++ coming) (bodies fs)
    rw [hrest]
    exact Reader.follows_start _
  idle := hl.idle
  server := hl.server
  page := hl.page

/-- what the answer to a read makes of the view, which stays on its connection -/
structure Stays (w : World) (l : Link) (inbox : Inbox) (v : View) : Prop where
  link : ∃ watch, watch.reader = Reader.start ∧ v.link = some { l with watch, inbox }
  errors : v.errors = w.view.errors

/-- the first frame acknowledges the subscription -/
theorem Holds.answered_ready (h : Holds draws floor start w) (hlink : w.view.link = some l)
    (hwaiting : Waiting floor w l (f :: fs) coming) (hrest : inbox.bytes ++ coming = frames (bodies fs))
    (hclosed : inbox.closed = l.inbox.closed) (hthrough : l.watch.through = none)
    {result : Except WatchError WatchFrame} {watch : HostWatch}
    (haccept : ({ l.watch with reader := Reader.start } : HostWatch).accept f = (result, watch)) :
    Holds draws floor start { w with view := w.view.answer { l with watch, inbox } (some result) } ∧
      Stays w l inbox (w.view.answer { l with watch, inbox } (some result)) := by
  have hl := h.link l hlink
  obtain ⟨n, rest, hf, hn, hfloor, hhead⟩ := hwaiting.ready hthrough
  obtain ⟨rfl, rfl⟩ := List.cons.inj hf
  have hack : acknowledged w.view.after (.ready w.view.after n) = .ok n := by
    rw [acknowledged, if_neg (by omega)]
  obtain ⟨rfl, rfl⟩ := Prod.mk.inj haccept
  simp only [View.answer, hthrough, hack]
  let v₀ : View := { w.view with link := some { l with
    watch := { l.watch with reader := Reader.start, through := some n }, inbox } }
  obtain ⟨htold, hdegraded⟩ := told_connected v₀ n
  have hreached := connected_degraded v₀ n hn
  show Holds draws floor start { w with view := v₀.connected n } ∧ Stays w l inbox (v₀.connected n)
  generalize View.connected v₀ n = v at htold hdegraded hreached
  have hafter : v.after = w.view.after := htold.after
  have hnew : v.link = some { l with watch := ⟨v.after, some n, Reader.start⟩, inbox } := by
    rw [htold.link, hafter, ← hl.cursor]
  refine ⟨⟨h.journaled, h.start_le, h.floor_le, ?_, ?_, ?_, ?_, ?_⟩, ⟨⟨_, rfl, hnew⟩, htold.errors⟩⟩
  · rw [hafter]
    exact h.cursor_le
  · rw [hafter, htold.records]
    exact h.delivered
  · rw [hafter]
    rcases hdegraded with hd | hd
    · rw [hd]
      exact h.caught
    · exact .inr (hd ▸ hfloor)
  · rw [htold.errors]
    exact h.errors
  · intro x hx
    obtain rfl := Option.some.inj (hnew.symm.trans hx)
    refine hl.next hwaiting hrest hclosed ⟨hfloor, hhead, ?_⟩ ?_
    · rw [hafter]
      exact hreached
    · rw [hafter]
      exact hwaiting.left

theorem Holds.answered_frame (h : Holds draws floor start w) (hlink : w.view.link = some l)
    (hwaiting : Waiting floor w l (f :: fs) coming) (hrest : inbox.bytes ++ coming = frames (bodies fs))
    (hclosed : inbox.closed = l.inbox.closed) {through : Nat} (hthrough : l.watch.through = some through)
    {result : Except WatchError WatchFrame} {watch : HostWatch}
    (haccept : ({ l.watch with reader := Reader.start } : HostWatch).accept f = (result, watch)) :
    Holds draws floor start { w with view := w.view.answer { l with watch, inbox } (some result) } ∧
      Stays w l inbox (w.view.answer { l with watch, inbox } (some result)) := by
  have hl := h.link l hlink
  obtain ⟨hfloor, hbelow, -⟩ := hl.through through hthrough
  obtain ⟨cursor, hmove, hcursor, hleft, hhead, hge⟩ := h.accepts hlink hwaiting hthrough
  obtain ⟨rfl, rfl⟩ := Prod.mk.inj (haccept.symm.trans hmove)
  simp only [View.answer, View.received]
  let v₀ : View := { w.view with
    after := cursor
    updates := w.view.updates ++ [Update.watch f]
    link := some { l with watch := ⟨cursor, some through, Reader.start⟩, inbox } }
  obtain ⟨htold, hdegraded⟩ := told_recover v₀ through
  have hreached := recover_degraded v₀ through
  show Holds draws floor start { w with view := v₀.recover through } ∧ Stays w l inbox (v₀.recover through)
  generalize View.recover v₀ through = v at htold hdegraded hreached
  have hafter : v.after = cursor := htold.after
  have hnew : v.link = some { l with watch := ⟨v.after, some through, Reader.start⟩, inbox } := by
    rw [htold.link, hafter]
  refine ⟨⟨h.journaled, h.start_le, h.floor_le, ?_, ?_, ?_, ?_, ?_⟩, ⟨⟨_, rfl, hnew⟩, htold.errors⟩⟩
  · rw [hafter]
    exact hhead
  · have hrecords : [Update.watch f].filterMap Update.record? = f.record?.toList := by
      cases hf : f.record? with
      | none => rw [List.filterMap_cons_none (show (Update.watch f).record? = none from hf)]; rfl
      | some record => rw [List.filterMap_cons_some (show (Update.watch f).record? = some record from hf)]; rfl
    rw [hafter, htold.records, List.filterMap_append, hrecords, List.append_assoc, ← hcursor]
    exact h.delivered
  · rw [hafter]
    rcases hdegraded with hd | hd
    · rw [hd]
      rcases h.caught with hc | hc
      · exact .inl hc
      · exact .inr (hc.trans hge)
    · exact .inr (hfloor.trans hd)
  · rw [htold.errors]
    exact h.errors
  · intro x hx
    obtain rfl := Option.some.inj (hnew.symm.trans hx)
    refine hl.next hwaiting hrest hclosed ⟨hfloor, hbelow, ?_⟩ ?_
    · rw [hafter]
      exact hreached
    · rw [hafter]
      exact hleft

theorem Holds.answered (h : Holds draws floor start w) (hlink : w.view.link = some l)
    (hreads : ∀ f ∈ w.sent, FrameReader.frame (toVec f.json) = .ok f)
    (hwaiting : Waiting floor w l fs coming) {b : List UInt8} {bs : List (List UInt8)}
    (hpoll : l.watch.reader.poll maxFrameBytes counts l.inbox = (.complete b, reader, inbox))
    (hbodies : bodies fs = b :: bs) (hrest : inbox.bytes ++ coming = frames bs)
    (hclosed : inbox.closed = l.inbox.closed) :
    Holds draws floor start { w with view := w.view.read l counts } ∧ Stays w l inbox (w.view.read l counts) := by
  cases fs with
  | nil => cases hbodies
  | cons f fs =>
    obtain ⟨rfl, rfl⟩ := List.cons.inj hbodies
    have hf := hreads f (hwaiting.sent f List.mem_cons_self).1
    obtain ⟨result, watch, haccept⟩ : ∃ result watch,
        ({ l.watch with reader := Reader.start } : HostWatch).accept f = (result, watch) := ⟨_, _, rfl⟩
    have hread : w.view.read l counts = w.view.answer { l with watch, inbox } (some result) := by
      simp only [View.read, HostWatch.next, hpoll, hf, haccept]
    rw [hread]
    cases hthrough : l.watch.through with
    | none => exact h.answered_ready hlink hwaiting hrest hclosed hthrough haccept
    | some through => exact h.answered_frame hlink hwaiting hrest hclosed hthrough haccept

theorem Holds.pending (h : Holds draws floor start w) (hlink : w.view.link = some l)
    (hwaiting : Waiting floor w l fs coming)
    (hpoll : l.watch.reader.poll maxFrameBytes counts l.inbox = (.pending, reader, inbox))
    (hfollows : reader.Follows (inbox.bytes ++ coming) (bodies fs))
    (hclosed : inbox.closed = l.inbox.closed) :
    w.view.read l counts = { w.view with link := some { l with watch := { l.watch with reader }, inbox } } ∧
      Holds draws floor start { w with view := w.view.read l counts } := by
  have hl := h.link l hlink
  have hread : w.view.read l counts = { w.view with link := some { l with watch := { l.watch with reader }, inbox } } := by
    simp only [View.read, HostWatch.next, hpoll, View.answer]
  rw [hread]
  refine ⟨rfl, h.relink w.sent ⟨hl.cursor, ?_, hl.through, ⟨fs, coming, hwaiting.writing, hfollows, hwaiting.sent,
    hwaiting.ready, hwaiting.left⟩, hl.idle, hl.server, hl.page⟩⟩
  show inbox.closed = true ↔ _
  rw [hclosed]
  exact hl.closed

theorem View.read_eof {l : Link}
    (hpoll : l.watch.reader.poll maxFrameBytes counts l.inbox = (.eof, reader, inbox)) :
    v.read l counts = v.failed .unexpectedEof := by
  simp only [View.read, HostWatch.next, hpoll, View.answer]

theorem Waiting.allowed (h : Waiting floor w l fs coming) :
    ∀ b ∈ bodies fs, Framing.Allowed maxFrameBytes b := by
  intro b hb
  obtain ⟨f, hf, rfl⟩ := List.mem_map.mp hb
  exact ⟨f.toVec_json_ne, (h.sent f hf).2⟩

theorem Holds.read (h : Holds draws floor start w) (hlink : w.view.link = some l)
    (hreads : ∀ f ∈ w.sent, FrameReader.frame (toVec f.json) = .ok f) (counts : List Nat) :
    Holds draws floor start { w with view := w.view.read l counts } := by
  obtain ⟨fs, coming, hwaiting⟩ := (h.link l hlink).waiting
  rcases Reader.Follows.poll hwaiting.allowed (by decide) counts l.watch.reader l.inbox hwaiting.follows with
    ⟨reader, inbox, hpoll, hfollows, hclosed⟩ | ⟨reader, inbox, hpoll, -⟩ |
    ⟨b, bs, reader, inbox, hpoll, hbodies, hrest, hclosed⟩
  · exact (h.pending hlink hwaiting hpoll hfollows hclosed).2
  · rw [View.read_eof w.view hpoll]
    exact h.failed (.inr rfl)
  · exact (h.answered hlink hreads hwaiting hpoll hbodies hrest hclosed).1

theorem Step.sent (h : Step draws session w w') : ∀ f ∈ w.sent, f ∈ w'.sent := by
  intro f hf
  cases h with
  | connect | write => exact List.mem_append_left _ hf
  | commit | refused | serve | flush | cut | read => exact hf

theorem AnyStep.sent (h : AnyStep draws session w w') : ∀ f ∈ w.sent, f ∈ w'.sent := by
  cases h with
  | step h => exact h.sent
  | drop => exact fun _ hf => hf

theorem Step.rows (h : Step draws session w w') : ∃ added, w'.rows = w.rows ++ added := by
  cases h with
  | commit added => exact ⟨added, rfl⟩
  | refused | connect | serve | write | flush | cut | read => exact ⟨[], (List.append_nil _).symm⟩

theorem AnyStep.rows (h : AnyStep draws session w w') : ∃ added, w'.rows = w.rows ++ added := by
  cases h with
  | step h => exact h.rows
  | drop => exact ⟨[], (List.append_nil _).symm⟩

theorem Holds.step (h : Holds draws floor start w) (hstep : Step draws session w w')
    (hreads : ∀ f ∈ w.sent, FrameReader.frame (toVec f.json) = .ok f) : Holds draws floor start w' := by
  cases hstep with
  | commit added hadded => exact h.commit hadded
  | refused => exact h.failed (.inl rfl)
  | connect events => exact h.connect events
  | serve warnings wakeup hlink hserver hwriting hturn => exact h.serve hlink hserver hturn
  | write warnings wakeup hlink hserver hwriting hturn => exact h.write hlink hserver hwriting hturn
  | flush count hlink => exact h.flush hlink count
  | cut kept hlink => exact h.cut hlink kept
  | read counts hlink => exact h.read hlink hreads counts

theorem Holds.anyStep (h : Holds draws floor start w) (hstep : AnyStep draws session w w')
    (hreads : ∀ f ∈ w.sent, FrameReader.frame (toVec f.json) = .ok f) : Holds draws floor start w' := by
  cases hstep with
  | step hstep => exact h.step hstep hreads
  | drop => exact h.drop

/-! ## runs -/

theorem Watching.run (h : Watching draws session w w') : Run draws session w w' :=
  Relation.ReflTransGen.mono (fun _ _ => AnyStep.step) w w' h

theorem Run.rows (h : Run draws session w w') : ∃ added, w'.rows = w.rows ++ added := by
  induction h with
  | refl => exact ⟨[], (List.append_nil _).symm⟩
  | tail _ hstep ih =>
    obtain ⟨added, hadded⟩ := ih
    obtain ⟨more, hmore⟩ := hstep.rows
    exact ⟨added ++ more, by rw [hmore, hadded, List.append_assoc]⟩

theorem Holds.run (h : Holds draws floor start w) (hrun : Run draws session w w')
    (hreads : ∀ f ∈ w'.sent, FrameReader.frame (toVec f.json) = .ok f) : Holds draws floor start w' := by
  induction hrun with
  | refl => exact h
  | tail _ hstep ih =>
    have hbefore := fun f hf => hreads f (hstep.sent f hf)
    exact (ih hbefore).anyStep hstep hbefore

/-- a view that has shown nothing -/
def World.opened (rows : List StoredEvent) (after : Nat) : World := ⟨rows, [], View.start after⟩

theorem holds_start {rows : List StoredEvent} (h : Journaled draws rows) (hstart : start ≤ journalHead rows) :
    Holds draws 0 start (World.opened rows start) :=
  ⟨h, hstart, Nat.zero_le _, hstart, rfl, .inr (Nat.zero_le _), (fun _ he => nomatch he), fun _ hl => nomatch hl⟩

def View.handed (v : View) : List JournalRecord := v.updates.filterMap Update.record?

/-- a connection at rest: the host has found nothing to send, and nothing is on the way -/
structure Idle (w : World) (l : Link) (s : Server) : Prop where
  link : w.view.link = some l
  server : l.server = some s
  writing : l.writing = []
  inbox : l.inbox.bytes = []
  reader : l.watch.reader = Reader.start
  through : l.watch.through ≠ none

theorem Holds.idle (h : Holds draws floor start w) (hidle : Idle w l s) :
    recordsAfter w.view.after w.rows = recordsAfter s.after w.rows := by
  obtain ⟨fs, coming, hwaiting⟩ := (h.link l hidle.link).waiting
  have hcoming : coming = [] := by
    rw [hwaiting.writing (by rw [hidle.server]; exact fun hn => nomatch hn), hidle.writing]
  have hnil : frames (bodies fs) = [] := by
    have hheld := hwaiting.follows.held
    rw [hidle.reader, hidle.inbox, hcoming] at hheld
    exact hheld.symm
  cases fs with
  | cons f fs =>
    have hlength := congrArg List.length hnil
    rw [bodies, List.map_cons, frames_cons, List.length_append, length_frame, List.length_nil] at hlength
    omega
  | nil =>
    obtain ⟨tail, hleft, htail⟩ := hwaiting.left
    rw [hleft, htail s hidle.server]
    rfl

end

end Orvek.Ipc
