import Orvek.Ipc.Delivered

/-!
# A watch gets to the end

What a view is handed over any number of connections is a beginning of the journal, and from every state that the host,
the socket and the client can be in it can be all of it: no frame is too long, no read is refused, and no connection is
stuck.

* `Holds.drain`       the frames that are on the way are read, to rest or to the end of the stream;
* `Live`              a connection at rest, whose frames read back;
* `Live.deliver`      a write of the host gets to the client;
* `Live.finish`       page after page, until none is left;
* `watch_delivers`    **the records handed on, and the only errors there are;**
* `watch_recovers`    **a view that is told of its recovery has what was committed when it failed;**
* `watch_catches_up`  **the rest of the journal can be delivered, and a failed view recovers.**
-/

set_option linter.unusedSectionVars false

namespace Orvek.Ipc
open Json Framing Paging Checks

section
variable [Sha256] [ContractCodec] [SessionCodec] [StoreCodec] [JsonReader] [JournalReader] [FrameReader]
variable {draws : TaskState → Uuid → Prop} {session : SessionId} {start n : Nat} {w : World} {l : Link} {s s' : Server}
variable {f : WatchFrame} {warnings : List HostWarning} {wakeup : Wakeup}

def ReadsBack (f : WatchFrame) : Prop := FrameReader.frame (toVec f.json) = .ok f

/-! ## what is on the way -/

/-- the bytes that the client has of frames it has not read -/
def Link.unread (l : Link) : Nat := l.watch.reader.held.length + l.inbox.bytes.length

/-- a state with the same journal and no other frame begun -/
structure Beside (draws : TaskState → Uuid → Prop) (session : SessionId) (start : Nat) (w w' : World) : Prop where
  run : Watching draws session w w'
  holds : Holds draws 0 start w'
  rows : w'.rows = w.rows
  sent : w'.sent = w.sent

theorem Beside.trans {w₁ w₂ w₃ : World} (h : Beside draws session start w₁ w₂) (h' : Beside draws session start w₂ w₃) :
    Beside draws session start w₁ w₃ :=
  ⟨h.run.trans h'.run, h'.holds, h'.rows.trans h.rows, h'.sent.trans h.sent⟩

/-- a state further on, on the same connection -/
structure Along (draws : TaskState → Uuid → Prop) (session : SessionId) (w w' : World) : Prop where
  run : Watching draws session w w'
  rows : w'.rows = w.rows
  errors : w'.view.errors = w.view.errors

theorem Along.refl (w : World) : Along draws session w w := ⟨.refl, rfl, rfl⟩

theorem Along.trans {w₁ w₂ w₃ : World} (h : Along draws session w₁ w₂) (h' : Along draws session w₂ w₃) :
    Along draws session w₁ w₃ := ⟨h.run.trans h'.run, h'.rows.trans h.rows, h'.errors.trans h.errors⟩

variable (session)

theorem Holds.rest (h : Holds draws 0 start w) (hlink : w.view.link = some l) (hserver : l.server = some s)
    (hwriting : l.writing = []) (hinbox : l.inbox.bytes = []) (hmissing : l.watch.reader.missing maxFrameBytes ≠ some 0) :
    Idle w l s := by
  obtain ⟨fs, coming, hwaiting⟩ := (h.link l hlink).waiting
  have hcoming : coming = [] := by
    rw [hwaiting.writing (by rw [hserver]; exact fun hn => nomatch hn), hwriting]
  have hfollows := hwaiting.follows
  rw [hinbox, hcoming, List.append_nil] at hfollows
  cases fs with
  | cons f fs => exact absurd (hfollows.last hwaiting.allowed (by decide)) hmissing
  | nil =>
    obtain ⟨hheader, hbody⟩ := List.append_eq_nil_iff.mp (List.append_eq_nil_iff.mp hfollows.held).1
    refine ⟨hlink, hserver, hwriting, hinbox, ?_, fun hnone => ?_⟩
    · show Reader.mk l.watch.reader.header l.watch.reader.body = Reader.start
      rw [hheader, hbody]
      rfl
    · obtain ⟨n, rest, hready, -⟩ := hwaiting.ready hnone
      cases hready

/-- **The client reads what is on the way**: to rest with a host that writes nothing, to the end of the stream with
one that is gone -/
theorem Holds.drain {k : Nat} (h : Holds draws 0 start w) (hlink : w.view.link = some l)
    (hreads : ∀ f ∈ w.sent, ReadsBack f) (hwriting : l.writing = []) (hk : l.unread = k) :
    ∃ w', Beside draws session start w w' ∧ (l.server = none → w'.view.link = none) ∧
      ∀ s, l.server = some s → w'.view.errors = w.view.errors ∧ ∃ l', Idle w' l' s := by
  induction k using Nat.strong_induction_on generalizing w l with
  | _ k ih =>
    have hl := h.link l hlink
    obtain ⟨fs, coming, hwaiting⟩ := hl.waiting
    have hstep : ∀ counts, Step draws session w { w with view := w.view.read l counts } := fun counts => .read counts hlink
    rcases Reader.Follows.poll_bytes hwaiting.allowed (by decide) l.inbox.bytes.length l.watch.reader l.inbox rfl
      hwaiting.follows with ⟨b, bs, reader, inbox, hpoll, hbodies, hrest, hclosed⟩ | ⟨reader, hpoll, hfollows, hmissing⟩
    · -- one more frame, and the ones behind it
      obtain ⟨hholds, ⟨watch, hstart, hnew⟩, herrors⟩ := h.answered hlink hreads hwaiting hpoll hbodies hrest hclosed
      have hshorter : ({ l with watch, inbox } : Link).unread < k := by
        have hbefore := congrArg List.length hwaiting.follows.held
        have hafter := congrArg List.length hrest
        rw [hbodies, frames_cons, List.length_append, List.length_append, List.length_append, length_frame] at hbefore
        rw [List.length_append] at hafter
        have hunread : ({ l with watch, inbox } : Link).unread = inbox.bytes.length := by
          show watch.reader.held.length + inbox.bytes.length = _
          rw [hstart]
          exact Nat.zero_add _
        rw [hunread, ← hk, Link.unread]
        omega
      obtain ⟨w', hbeside, hgone, hlives⟩ := ih _ hshorter hholds hnew hreads hwriting rfl
      refine ⟨w', ⟨.head (hstep _) hbeside.run, hbeside.holds, hbeside.rows, hbeside.sent⟩, hgone, fun s hs => ?_⟩
      obtain ⟨hsame, hidle⟩ := hlives s hs
      exact ⟨hsame.trans herrors, hidle⟩
    · -- nothing more is there
      generalize List.replicate (l.inbox.bytes.length + 1) 0 = counts at hpoll
      cases hc : l.inbox.closed with
      | true =>
        rw [hc, if_pos rfl] at hpoll
        have hread := View.read_eof w.view hpoll
        obtain ⟨-, hnone, -, -⟩ := failed_fields w.view .unexpectedEof
        refine ⟨{ w with view := w.view.read l counts }, ⟨.single (hstep counts), ?_, rfl, rfl⟩, fun _ => ?_, fun s hs => ?_⟩
        · rw [hread]
          exact h.failed (.inr rfl)
        · show (w.view.read l counts).link = none
          rw [hread]
          exact hnone
        · rw [hl.closed.mp hc] at hs
          cases hs
      | false =>
        rw [hc, if_neg Bool.false_ne_true] at hpoll
        obtain ⟨hread, hholds⟩ := h.pending hlink hwaiting hpoll hfollows hc.symm
        have hopen : l.server ≠ none := by
          intro hnone
          rw [hl.closed.mpr hnone] at hc
          cases hc
        refine ⟨{ w with view := w.view.read l counts }, ⟨.single (hstep counts), hholds, rfl, rfl⟩,
          fun hnone => absurd hnone hopen, fun s hs => ?_⟩
        rw [hread] at hholds ⊢
        exact ⟨rfl, _, hholds.rest rfl hs hwriting rfl hmissing⟩

theorem Holds.flushAll (h : Holds draws 0 start w) (hlink : w.view.link = some l) :
    ∃ l', Beside draws session start w (w.relink l') ∧ l'.server = l.server ∧ l'.writing = [] :=
  ⟨l.flush l.writing.length, ⟨.single (.flush _ hlink), h.flush hlink _, rfl, rfl⟩, rfl, List.drop_length⟩

theorem Holds.leave (h : Holds draws 0 start w) (hlink : w.view.link = some l) (hreads : ∀ f ∈ w.sent, ReadsBack f)
    (kept : Nat) : ∃ w', Beside draws session start w w' ∧ w'.view.link = none := by
  have hcut : Beside draws session start w (w.relink (l.cut kept)) := ⟨.single (.cut kept hlink), h.cut hlink kept, rfl, rfl⟩
  obtain ⟨w', hbeside, hgone, -⟩ := hcut.holds.drain session rfl hreads rfl rfl
  exact ⟨w', hcut.trans hbeside, hgone rfl⟩

theorem Holds.settle (h : Holds draws 0 start w) (hlink : w.view.link = some l) (hreads : ∀ f ∈ w.sent, ReadsBack f)
    (hserver : l.server = some s) :
    ∃ w' l', Beside draws session start w w' ∧ w'.view.errors = w.view.errors ∧ Idle w' l' s := by
  obtain ⟨l₁, hflushed, hsame, hwriting⟩ := h.flushAll session hlink
  obtain ⟨w', hbeside, -, hlives⟩ := hflushed.holds.drain session rfl hreads hwriting rfl
  obtain ⟨herrors, l', hidle⟩ := hlives s (hsame.trans hserver)
  exact ⟨w', l', hflushed.trans hbeside, herrors, hidle⟩

/-! ## a connection at rest -/

structure Live (draws : TaskState → Uuid → Prop) (start : Nat) (w : World) (l : Link) (s : Server) : Prop where
  holds : Holds draws 0 start w
  idle : Idle w l s
  reads : ∀ f ∈ w.sent, ReadsBack f
  readable : ∀ r ∈ w.rows, ReadsBack (.journal r.record)

theorem Live.move (h : Live draws start w l s) (hturn : s.turn w.rows warnings wakeup = .goto s') :
    ∃ w' l', Along draws session w w' ∧ Live draws start w' l' s' :=
  ⟨w.relink { l with server := some s' }, { l with server := some s' },
    ⟨.single (.serve warnings wakeup h.idle.link h.idle.server h.idle.writing hturn), rfl, rfl⟩,
    h.holds.serve h.idle.link h.idle.server hturn,
    ⟨rfl, rfl, h.idle.writing, h.idle.inbox, h.idle.reader, h.idle.through⟩, h.reads, h.readable⟩

/-- **A write of the host gets to the client.** -/
theorem Live.deliver (h : Live draws start w l s) (hturn : s.turn w.rows warnings wakeup = .send f s')
    (hfits : (toVec f.json).length ≤ maxFrameBytes) (hreads : ReadsBack f) :
    ∃ w' l', Along draws session w w' ∧ Live draws start w' l' s' := by
  let w₁ : World := { w.relink (l.write f s') with sent := w.sent ++ [f] }
  have hwrite : Step draws session w w₁ := .write warnings wakeup h.idle.link h.idle.server h.idle.writing hturn
  have hholds : Holds draws 0 start w₁ := h.holds.write h.idle.link h.idle.server h.idle.writing hturn
  have hserver : (l.write f s').server = some s' := by
    rw [Link.write, if_neg (Nat.not_lt.mpr hfits)]
  have hall : ∀ x ∈ w₁.sent, ReadsBack x := by
    intro x hx
    rcases List.mem_append.mp hx with hx | hx
    · exact h.reads x hx
    · rw [List.mem_singleton.mp hx]
      exact hreads
  obtain ⟨w', l', hbeside, herrors, hidle⟩ := hholds.settle session rfl hall hserver
  refine ⟨w', l', ⟨.head hwrite hbeside.run, hbeside.rows, herrors⟩, hbeside.holds, hidle, ?_, ?_⟩
  · rw [hbeside.sent]
    exact hall
  · rw [hbeside.rows]
    exact h.readable

/-! ## to the end of the journal -/

theorem Journaled.fits {rows : List StoredEvent} (h : Journaled draws rows) {x : StoredEvent} (hx : x ∈ rows) :
    (toVec (WatchFrame.journal x.record).json).length ≤ maxFrameBytes := by
  obtain ⟨⟨db, world, hcommitted⟩, htext⟩ := h
  exact (size_journalFrame (htext x hx) (hcommitted.links hx).1).trans (by decide)

theorem row_of_left {rows : List StoredEvent} {c : Nat} {r : JournalRecord} (h : r ∈ recordsAfter c rows) :
    ∃ x ∈ rows, x.record = r :=
  List.mem_map.mp (List.mem_filter.mp h).1

theorem head_le {rows : List StoredEvent} {c : Nat} (h : recordsAfter c rows = []) : journalHead rows ≤ c := by
  rcases journalHead_mem rows with hzero | ⟨x, hx, hseq⟩
  · omega
  · have hnot := List.filter_eq_nil_iff.mp h x.record (List.mem_map_of_mem hx)
    have hrecord : x.record.sequence = x.sequence := rfl
    rw [Option.all_some, decide_eq_true_eq, hrecord] at hnot
    omega

theorem Live.recovered (h : Live draws start w l s) (hnil : recordsAfter w.view.after w.rows = []) :
    w.view.degraded = false := by
  have hhead := head_le hnil
  obtain ⟨n, hn⟩ := Option.ne_none_iff_exists'.mp h.idle.through
  obtain ⟨-, hle, hdegraded⟩ := (h.holds.link l h.idle.link).through n hn
  rcases hdegraded with hd | hlt
  · exact hd
  · omega

/-- a page of the host gets to the client -/
theorem Live.page (events : List JournalRecord) : ∀ {w : World} {l : Link} {s : Server}, Live draws start w l s →
    s.point = .page events → ∃ w' l' s', Along draws session w w' ∧ Live draws start w' l' s' ∧ s'.point = .top ∧
      recordsAfter s.after w.rows = events ++ recordsAfter s'.after w.rows := by
  induction events with
  | nil =>
    intro w l s h hpoint
    have hturn : s.turn w.rows [] .timer = .goto { s with point := .top } := by
      simp only [Server.turn, hpoint]
    obtain ⟨w', l', halong, hlive⟩ := h.move session hturn
    exact ⟨w', l', _, halong, hlive, rfl, rfl⟩
  | cons record events ih =>
    intro w l s h hpoint
    have hturn : s.turn w.rows [] .timer =
        .send (.journal record) { s with after := record.sequence, point := .page events } := by
      simp only [Server.turn, hpoint]
    obtain ⟨hleft, -, -⟩ := h.holds.turned h.idle.link h.idle.server hturn
    have hmem : record ∈ recordsAfter s.after w.rows := by
      rw [hleft]
      exact List.mem_cons_self
    obtain ⟨x, hx, rfl⟩ := row_of_left hmem
    obtain ⟨w', l', halong, hlive⟩ := h.deliver session hturn (h.holds.journaled.fits hx) (h.readable x hx)
    obtain ⟨w'', l'', s'', hmore, hlast, htop, hleft'⟩ := ih hlive rfl
    refine ⟨w'', l'', s'', halong.trans hmore, hlast, htop, ?_⟩
    rw [halong.rows] at hleft'
    rw [hleft, hleft']
    rfl

theorem Live.warned (h : Live draws start w l s) (htop : s.point = .top) (hwarnings : ReadsBack (.warnings [])) :
    ∃ w' l' s', Along draws session w w' ∧ Live draws start w' l' s' ∧ s'.point = .journal ∧ s'.after = s.after := by
  cases hsent : s.sentWarnings with
  | none =>
    have hturn : s.turn w.rows [] .timer = .send (.warnings []) { s with sentWarnings := some [], point := .journal } := by
      simp [Server.turn, htop, hsent]
    obtain ⟨w', l', halong, hlive⟩ := h.deliver session hturn (size_noWarnings.trans (by decide)) hwarnings
    exact ⟨w', l', _, halong, hlive, rfl, rfl⟩
  | some warnings =>
    have hturn : s.turn w.rows warnings .timer = .goto { s with point := .journal } := by
      simp [Server.turn, htop, hsent]
    obtain ⟨w', l', halong, hlive⟩ := h.move session hturn
    exact ⟨w', l', _, halong, hlive, rfl, rfl⟩

/-- all of the journal is handed on, and the view is not degraded -/
structure Finished (draws : TaskState → Uuid → Prop) (start : Nat) (w : World) : Prop where
  holds : Holds draws 0 start w
  nothing : recordsAfter w.view.after w.rows = []
  told : w.view.degraded = false
  reads : ∀ f ∈ w.sent, ReadsBack f

theorem Live.finished (h : Live draws start w l s) (hnil : recordsAfter s.after w.rows = []) : Finished draws start w := by
  have hview : recordsAfter w.view.after w.rows = [] := (h.holds.idle h.idle).trans hnil
  exact ⟨h.holds, hview, h.recovered hview, h.reads⟩

/-- **Page after page gets to the client, until none is left.** -/
theorem Live.finish (hwarnings : ReadsBack (.warnings [])) (k : Nat) : ∀ {w : World} {l : Link} {s : Server},
    Live draws start w l s → s.point = .journal → (recordsAfter s.after w.rows).length ≤ k →
      ∃ w', Along draws session w w' ∧ Finished draws start w' := by
  induction k with
  | zero =>
    intro w l s h _ hlength
    exact ⟨w, .refl w, h.finished (List.length_eq_zero_iff.mp (Nat.le_zero.mp hlength))⟩
  | succ k ih =>
    intro w l s h hpoint hlength
    obtain ⟨page, tail, hserved, hrest, hempty⟩ :=
      h.holds.journaled.page ((h.holds.link l h.idle.link).server s h.idle.server)
    cases page with
    | nil => exact ⟨w, .refl w, h.finished (by rw [hrest, hempty rfl]; rfl)⟩
    | cons record events =>
      have hpage : s.turn w.rows [] .timer = .goto { s with point := .page (record :: events) } := by
        simp only [Server.turn, hpoint, hserved]
      obtain ⟨w₁, l₁, halong₁, hlive₁⟩ := h.move session hpage
      obtain ⟨w₂, l₂, s₂, halong₂, hlive₂, htop, hleft⟩ := hlive₁.page session (record :: events) rfl
      obtain ⟨w₃, l₃, s₃, halong₃, hlive₃, hjournal, hafter⟩ := hlive₂.warned session htop hwarnings
      have halong := (halong₁.trans halong₂).trans halong₃
      have hshorter : (recordsAfter s₃.after w₃.rows).length ≤ k := by
        rw [halong₁.rows] at hleft
        have hcount := congrArg List.length hleft
        rw [List.length_append, List.length_cons] at hcount
        rw [hafter, halong.rows]
        have hsame : (recordsAfter s.after w.rows).length = (events.length + 1) + (recordsAfter s₂.after w.rows).length := hcount
        omega
      obtain ⟨w', hmore, hdone⟩ := ih hlive₃ hjournal hshorter
      exact ⟨w', halong.trans hmore, hdone⟩

/-- wherever its loop is, with no subagents left to tell, the host gets to the end of the journal -/
theorem Live.rest (hwarnings : ReadsBack (.warnings [])) (h : Live draws start w l s)
    (hsubagents : ∀ event events, s.point ≠ .snapshot (event :: events)) :
    ∃ w', Along draws session w w' ∧ Finished draws start w' := by
  have htop : ∀ {w : World} {l : Link} {s : Server}, Live draws start w l s → s.point = .top →
      ∃ w', Along draws session w w' ∧ Finished draws start w' := by
    intro w l s h htop
    obtain ⟨w₁, l₁, s₁, halong, hlive, hjournal, -⟩ := h.warned session htop hwarnings
    obtain ⟨w', hmore, hdone⟩ := hlive.finish session hwarnings _ hjournal (Nat.le_refl _)
    exact ⟨w', halong.trans hmore, hdone⟩
  have hmove : ∀ {w : World} {l : Link} {s : Server}, Live draws start w l s →
      s.turn w.rows [] .timer = .goto { s with point := .top } →
        ∃ w', Along draws session w w' ∧ Finished draws start w' := by
    intro w l s h hturn
    obtain ⟨w₁, l₁, halong, hlive⟩ := h.move session hturn
    obtain ⟨w', hmore, hdone⟩ := htop hlive rfl
    exact ⟨w', halong.trans hmore, hdone⟩
  cases hpoint : s.point with
  | snapshot events =>
    cases events with
    | nil => exact hmove h (by simp only [Server.turn, hpoint])
    | cons event events => exact absurd hpoint (hsubagents event events)
  | top => exact htop h hpoint
  | journal => exact h.finish session hwarnings _ hpoint (Nat.le_refl _)
  | page events =>
    obtain ⟨w₁, l₁, s₁, halong, hlive, hnext, -⟩ := h.page session events hpoint
    obtain ⟨w', hmore, hdone⟩ := htop hlive hnext
    exact ⟨w', halong.trans hmore, hdone⟩
  | select => exact hmove h (by simp only [Server.turn, hpoint, Server.select])

/-! ## a new connection -/

theorem Holds.subscribe (h : Holds draws 0 start w) (hlink : w.view.link = none) (hreads : ∀ f ∈ w.sent, ReadsBack f)
    (hready : ReadsBack (.ready w.view.after (journalHead w.rows)))
    (hreadable : ∀ r ∈ w.rows, ReadsBack (.journal r.record)) :
    ∃ w' l, Along draws session w w' ∧ Live draws start w' l ⟨w.view.after, session, none, .snapshot []⟩ := by
  let w₁ : World := { w.relink (Link.accepted w.rows session [] w.view.after) with
    sent := w.sent ++ [.ready w.view.after (journalHead w.rows)] }
  have hconnect : Step draws session w w₁ := .connect [] hlink
  have hall : ∀ x ∈ w₁.sent, ReadsBack x := by
    intro x hx
    rcases List.mem_append.mp hx with hx | hx
    · exact hreads x hx
    · rw [List.mem_singleton.mp hx]
      exact hready
  obtain ⟨w', l', hbeside, herrors, hidle⟩ := (h.connect []).settle session rfl hall rfl
  refine ⟨w', l', ⟨.head hconnect hbeside.run, hbeside.rows, herrors⟩, hbeside.holds, hidle, ?_, ?_⟩
  · rw [hbeside.sent]
    exact hall
  · rw [hbeside.rows]
    exact hreadable

/-! ## what a view is handed -/

variable {session}

/-- **The records that a view is handed are a beginning of those after its first cursor, up to its cursor; its reads
fail for no other reason than that the host is gone; and when a connection is at rest behind an empty page, all that is
committed has been handed on.** -/
theorem watch_delivers {rows : List StoredEvent} (h : Journaled draws rows) (hstart : start ≤ journalHead rows)
    (hrun : Run draws session (World.opened rows start) w)
    (hreads : ∀ f ∈ w.sent, ReadsBack f) :
    w.view.handed ++ recordsAfter w.view.after w.rows = recordsAfter start w.rows ∧
      (∀ e ∈ w.view.errors, e = .unavailable ∨ e = .unexpectedEof) ∧
      ∀ l s, Idle w l s → journalPage w.rows s.after 16 = .ok [] → w.view.handed = recordsAfter start w.rows := by
  have hholds := (holds_start h hstart).run hrun hreads
  refine ⟨hholds.delivered, hholds.errors, fun l s hidle hpage => ?_⟩
  obtain ⟨page, tail, hserved, hrest, hempty⟩ :=
    hholds.journaled.page ((hholds.link l hidle.link).server s hidle.server)
  obtain rfl : page = [] := Except.ok.inj (hserved.symm.trans hpage)
  have hdelivered := hholds.delivered
  rw [hholds.idle hidle, hrest, hempty rfl, List.append_nil, List.append_nil] at hdelivered
  exact hdelivered

/-- **A view that failed, and that is told of its recovery, has been handed all that was committed when it failed.** -/
theorem watch_recovers {rows : List StoredEvent} {w₁ w₂ : World} (h : Journaled draws rows)
    (hstart : start ≤ journalHead rows) (hrun : Run draws session (World.opened rows start) w₁)
    (hfailed : w₁.view.degraded = true ∧ w₁.view.link = none) (hlater : Run draws session w₁ w₂)
    (hrecovered : w₂.view.degraded = false) (hreads : ∀ f ∈ w₂.sent, ReadsBack f) :
    recordsAfter start w₁.rows <+: w₂.view.handed := by
  have hsent : ∀ f ∈ w₁.sent, f ∈ w₂.sent := by
    intro f hf
    clear hrecovered hreads
    induction hlater with
    | refl => exact hf
    | tail _ hstep ih => exact hstep.sent f ih
  have hbefore := (holds_start h hstart).run hrun fun f hf => hreads f (hsent f hf)
  -- what later connections acknowledge is not below the journal there was when the view failed
  have hfloor : Holds draws (journalHead w₁.rows) start w₁ := by
    refine ⟨hbefore.journaled, hbefore.start_le, Nat.le_refl _, hbefore.cursor_le, hbefore.delivered, .inl hfailed.1,
      hbefore.errors, fun l hl => ?_⟩
    rw [hfailed.2] at hl
    cases hl
  have hholds := hfloor.run hlater hreads
  have hreached : journalHead w₁.rows ≤ w₂.view.after := by
    rcases hholds.caught with hd | hd
    · rw [hrecovered] at hd
      cases hd
    · exact hd
  obtain ⟨added, hadded⟩ := hlater.rows
  have hsame := hholds.delivered
  rw [hadded, recordsAfter_append start, ← hadded] at hsame
  rcases List.append_eq_append_iff.mp hsame with ⟨mid, hmid, hrest⟩ | ⟨mid, hmid, hrest⟩
  · -- a record of the old journal that is still to come would be behind the cursor
    cases mid with
    | nil =>
      rw [hmid, List.append_nil]
      exact List.prefix_refl _
    | cons r mid =>
      have hold : r ∈ recordsAfter start w₁.rows := by
        rw [hmid]
        exact List.mem_append_right _ List.mem_cons_self
      have hnew : r ∈ recordsAfter w₂.view.after w₂.rows := by
        rw [hrest]
        exact List.mem_cons_self
      have hle := sequence_le hold
      have hlt := lt_sequence hnew
      omega
  · exact ⟨mid, hmid.symm⟩

variable (session) in
theorem Holds.catchUp_unlinked (h : Holds draws 0 start w) (hlink : w.view.link = none)
    (hreads : ∀ f ∈ w.sent, ReadsBack f)
    (hready : ReadsBack (.ready w.view.after (journalHead w.rows))) (hwarnings : ReadsBack (.warnings []))
    (hreadable : ∀ r ∈ w.rows, ReadsBack (.journal r.record)) :
    ∃ w', Along draws session w w' ∧ Finished draws start w' := by
  obtain ⟨w₁, l₁, halong, hlive⟩ := h.subscribe session hlink hreads hready hreadable
  obtain ⟨w', hmore, hdone⟩ := hlive.rest session hwarnings fun event events he => nomatch he
  exact ⟨w', halong.trans hmore, hdone⟩

variable (session) in
/-- with one: what is on the way is read first.  The connection goes on, unless its host is gone or has subagents
to tell of, whose frames nothing bounds -/
theorem Holds.catchUp (h : Holds draws 0 start w) (hreads : ∀ f ∈ w.sent, ReadsBack f)
    (hready : ∀ after ≤ journalHead w.rows, ReadsBack (.ready after (journalHead w.rows)))
    (hwarnings : ReadsBack (.warnings [])) (hreadable : ∀ r ∈ w.rows, ReadsBack (.journal r.record)) :
    ∃ w', Watching draws session w w' ∧ w'.rows = w.rows ∧ Finished draws start w' ∧
      ∀ l s, w.view.link = some l → l.server = some s → (∀ event events, s.point ≠ .snapshot (event :: events)) →
        w'.view.errors = w.view.errors := by
  -- once the connection is gone
  have hagain : ∀ {w₁ : World}, Beside draws session start w w₁ → w₁.view.link = none →
      ∃ w', Watching draws session w w' ∧ w'.rows = w.rows ∧ Finished draws start w' := by
    intro w₁ hbeside hnone
    have hcursor := hbeside.holds.cursor_le
    rw [hbeside.rows] at hcursor
    have hready₁ := hready w₁.view.after hcursor
    rw [← hbeside.rows] at hready₁ hreadable
    rw [← hbeside.sent] at hreads
    obtain ⟨w', halong, hdone⟩ := hbeside.holds.catchUp_unlinked session hnone hreads hready₁ hwarnings hreadable
    exact ⟨w', hbeside.run.trans halong.run, halong.rows.trans hbeside.rows, hdone⟩
  cases hlink : w.view.link with
  | none =>
    obtain ⟨w', hrun, hrows, hdone⟩ := hagain ⟨.refl, h, rfl, rfl⟩ hlink
    exact ⟨w', hrun, hrows, hdone, fun l s hl => nomatch hl⟩
  | some l =>
    cases hserver : l.server with
    | none =>
      obtain ⟨w₁, hbeside, hgone, -⟩ :=
        h.drain session hlink hreads ((h.link l hlink).idle hserver) rfl
      obtain ⟨w', hrun, hrows, hdone⟩ := hagain hbeside (hgone hserver)
      refine ⟨w', hrun, hrows, hdone, fun l' s hl hs => ?_⟩
      rw [← Option.some.inj hl, hserver] at hs
      cases hs
    | some s =>
      obtain ⟨w₁, l₁, hbeside, herrors, hidle⟩ := h.settle session hlink hreads hserver
      by_cases hsubagents : ∀ event events, s.point ≠ .snapshot (event :: events)
      · have hlive : Live draws start w₁ l₁ s := by
          refine ⟨hbeside.holds, hidle, ?_, ?_⟩
          · rw [hbeside.sent]
            exact hreads
          · rw [hbeside.rows]
            exact hreadable
        obtain ⟨w', halong, hdone⟩ := hlive.rest session hwarnings hsubagents
        exact ⟨w', hbeside.run.trans halong.run, halong.rows.trans hbeside.rows, hdone,
          fun _ _ _ _ _ => halong.errors.trans herrors⟩
      · rw [← hbeside.sent] at hreads
        obtain ⟨w₂, hleft, hnone⟩ := hbeside.holds.leave session hidle.link hreads 0
        obtain ⟨w', hrun, hrows, hdone⟩ := hagain (hbeside.trans hleft) hnone
        refine ⟨w', hrun, hrows, hdone, fun l' s' hl hs hnot => absurd ?_ hsubagents⟩
        rw [← Option.some.inj hl, hserver] at hs
        rw [Option.some.inj hs]
        exact hnot

/-- **From every state that can be reached, without another event, a view can be handed all that is committed, and one
that failed is told of its recovery.**  It leaves a connection only when a read of it fails, and as long as the host is
there, and past the subagents there were, no read does. -/
theorem watch_catches_up {rows : List StoredEvent} (h : Journaled draws rows) (hstart : start ≤ journalHead rows)
    (hrun : Run draws session (World.opened rows start) w) (hreads : ∀ f ∈ w.sent, ReadsBack f)
    (hready : ∀ after ≤ journalHead w.rows, ReadsBack (.ready after (journalHead w.rows)))
    (hwarnings : ReadsBack (.warnings [])) (hreadable : ∀ r ∈ w.rows, ReadsBack (.journal r.record)) :
    ∃ w', Watching draws session w w' ∧ w'.rows = w.rows ∧ w'.view.handed = recordsAfter start w.rows ∧
      w'.view.degraded = false ∧ (∀ f ∈ w'.sent, ReadsBack f) ∧
      ∀ l s, w.view.link = some l → l.server = some s → (∀ event events, s.point ≠ .snapshot (event :: events)) →
        w'.view.errors = w.view.errors := by
  obtain ⟨w', hmore, hrows, hdone, hsame⟩ :=
    ((holds_start h hstart).run hrun hreads).catchUp session hreads hready hwarnings hreadable
  have hdelivered := hdone.holds.delivered
  rw [hdone.nothing, List.append_nil, hrows] at hdelivered
  exact ⟨w', hmore, hrows, hdelivered, hdone.told, hdone.reads, hsame⟩

end

/-! ## a journal of two pages -/

namespace WatchSample

scoped instance sha256 : Sha256 := Sample.sha256
scoped instance contractCodec : ContractCodec := Sample.contractCodec
scoped instance sessionCodec : SessionCodec := Sample.sessionCodec
scoped instance jsonReader : JsonReader := Sample.jsonReader

def digest : Value := .string (Digest.display ⟨0⟩)

def model : Value :=
  .object [("model", .string "sol"), ("thinking", .string "medium"), ("reasoning_mode", .string "standard"),
    ("fast_mode", .bool false)]

def admission : Value :=
  .object [("version", ofNat 1),
    ("request", .object [("workspace", .string "/workspace"), ("model", model), ("context_window_tokens", ofNat 272000),
      ("channel", .string "stable")]),
    ("binding", .object [
      ("target", .object [("model", digest), ("protocol", digest), ("environment", digest), ("task_profile", digest),
        ("channel", .string "stable")]),
      ("revision", digest), ("behavior", digest), ("envelope", digest), ("policy", digest)]),
    ("provenance", .object [("kind", .string "registered")]), ("authority", digest), ("request_digest", digest),
    ("revision_manifest", .array []), ("behavior_instructions", .string "")]

/-- the event of the creation -/
def document : Value :=
  WatchFrame.tagged "created" (.object [
    ("branch", .object [("workspace", .null), ("fresh_context", .bool false), ("pending_task", .null),
      ("pending_shell", .null)]),
    ("config", .object [("workspace", .string "/workspace"), ("model", model), ("instructions", .string ""),
      ("context_window_tokens", ofNat 272000)]),
    ("admission", admission), ("parent", .null), ("history", .array []), ("at_ms", ofNat 0), ("imported", .null)])

scoped instance storeCodec : StoreCodec where
  taskEvent _ := []
  taskState _ := []
  sessionEvent
    | .created _ => toVec document
    | _ => []
  sessionState _ := .null

scoped instance journalReader : JournalReader :=
  ⟨fun bytes => if bytes = toVec document then .ok document else .error ⟨"expected value"⟩⟩

def sessionAt (i : Nat) : SessionId := ⟨⟨BitVec.ofNat 128 (i + 1)⟩⟩

/-- the event of the session that is created after `i` others -/
def row (i : Nat) : StoredEvent where
  sequence := i + 1
  aggregate := (sessionAt i).uuid
  kind := .session
  revision := 1
  event := toVec document
  hash := aggregateHash "session" (sessionAt i).uuid 1 none (toVec document)

/-- more sessions than there are events on a page -/
def rows : List StoredEvent := (List.range 17).map row

theorem sessionAt_ne {i j : Nat} (h : i < j) (hj : j < 17) : sessionAt j ≠ sessionAt i := by
  intro he
  have hbits : BitVec.ofNat 128 (j + 1) = BitVec.ofNat 128 (i + 1) := congrArg (fun s : SessionId => s.uuid.bits) he
  have hnat := congrArg BitVec.toNat hbits
  rw [BitVec.toNat_ofNat, BitVec.toNat_ofNat, Nat.mod_eq_of_lt (by omega), Nat.mod_eq_of_lt (by omega)] at hnat
  omega

theorem length_document : (toVec document).length ≤ 10000 := by
  rw [toVec_length]
  exact (size_le_bound document).trans (by decide +kernel)

theorem opens {db : Db} {i : Nat} (hnew : db.sessions.get (sessionAt i) = none) : ∃ s db',
    createSessionSeeded Sample.env (sessionAt i) Sample.config Sample.profile none none false db = .ok (s, db') ∧
      (∀ kind id, db'.eventsOf kind id = db.eventsOf kind id ++ rowsOf [row i] kind id) ∧
      ∀ id, id ≠ sessionAt i → db'.sessions.get id = db.sessions.get id := by
  have hfits : ∀ creation : SessionCreation, refuseIf
      (maxEventBytes < (SessionEvent.created creation).document.bytes.length)
      (StoreError.invalid "initial session context exceeds journal limit") = .ok () := fun _ =>
    refuseIf_of_not _ (Nat.not_lt.mpr (length_document.trans (by decide)))
  let s := SessionState.create (sessionAt i) Sample.creation
  let a := Orvek.created (SessionEvent.created Sample.creation).document s.document (row i).hash
  have hinsert : db.sessions.insert (sessionAt i) a = some (db.sessions ++ [(sessionAt i, a)]) := by
    rw [Table.insert, hnew]
    rfl
  refine ⟨s, { db with sessions := db.sessions ++ [(sessionAt i, a)] }, ?_, fun kind id => ?_, fun id hid => ?_⟩
  · have hmissing : loadSessionState db (sessionAt i) none = .error (.missingSession (sessionAt i)) := by
      rw [loadSessionState, hnew]
    have hpath : ¬ (SessionAdmissionProfile.isAbsolute Sample.config.workspace = false ∨
        Sample.env.isDirectory Sample.config.workspace = false) := by decide
    rw [createSessionSeeded, refuseIf_of_not _ hpath, ok_bind, hmissing]
    simp only
    have hinherits : inherits none none Sample.profile false db = .ok ⟨[], none, none⟩ := rfl
    have hsnapshots : ∀ text, requireSnapshots Sample.env text [] = .ok () := fun _ => rfl
    rw [seedSession, hinherits, ok_bind]
    simp only [Option.toList_none, List.map_nil]
    rw [hsnapshots, hsnapshots, ok_bind, ok_bind, insertSession]
    simp only [hfits, ok_bind]
    show (orSql (db.sessions.insert (sessionAt i) a) >>= fun sessions => .ok (s, { db with sessions })) = _
    rw [hinsert]
    rfl
  · have hget := (Table.get_insert hinsert ⟨id⟩).2
    cases kind with
    | task =>
      rw [rowsOf, List.filter_cons_of_neg (by simp [row])]
      exact (List.append_nil _).symm
    | session =>
      rw [Db.eventsOf, Db.eventsOf]
      simp only [hget]
      by_cases hid : id = (sessionAt i).uuid
      · subst hid
        rw [if_pos rfl, show db.sessions.get ⟨(sessionAt i).uuid⟩ = none from hnew, rowsOf,
          List.filter_cons_of_pos (by simp [row])]
        rfl
      · rw [if_neg (fun he => hid (congrArg SessionId.uuid he)), rowsOf,
          List.filter_cons_of_neg (by simpa [row] using fun he => hid he.symm)]
        exact (List.append_nil _).symm
  · rw [(Table.get_insert hinsert id).2, if_neg hid]

theorem committed (draws : TaskState → Uuid → Prop) (n : Nat) (hn : n ≤ 17) : ∃ db w,
    Committed draws db w ((List.range n).map row) ∧ ∀ i, n ≤ i → i < 17 → db.sessions.get (sessionAt i) = none := by
  induction n with
  | zero => exact ⟨Db.empty, World.empty, .empty, fun _ _ _ => rfl⟩
  | succ n ih =>
    obtain ⟨db, w, hcommitted, hnew⟩ := ih (Nat.le_of_succ_le hn)
    obtain ⟨s, db', hcreate, hevents, hothers⟩ := opens (hnew n (Nat.le_refl n) hn)
    rw [List.range_succ, List.map_append, List.map_singleton]
    refine ⟨db', _, .step hcommitted (.createSession hcreate) hevents ?_ ?_, fun i hi hlast => ?_⟩
    · rw [← List.map_singleton, ← List.map_append, ← List.range_succ]
      exact List.pairwise_map.mpr (List.pairwise_lt_range.imp fun h => Nat.succ_lt_succ h)
    · intro r hr
      rw [List.mem_singleton.mp hr]
      show n + 1 < 2 ^ 63
      omega
    · rw [hothers _ (sessionAt_ne hi hlast)]
      exact hnew i (Nat.le_of_succ_le hi) hlast

theorem isText (i : Nat) : (row i).IsText := ⟨document, if_pos rfl, rfl⟩

theorem row_of_mem {r : StoredEvent} (hr : r ∈ rows) : ∃ i < 17, r = row i := by
  obtain ⟨i, hi, rfl⟩ := List.mem_map.mp hr
  exact ⟨i, List.mem_range.mp hi, rfl⟩

theorem journaled (draws : TaskState → Uuid → Prop) : Journaled draws rows := by
  obtain ⟨db, w, hcommitted, -⟩ := committed draws 17 (Nat.le_refl _)
  refine ⟨⟨db, w, hcommitted⟩, fun r hr => ?_⟩
  obtain ⟨i, -, rfl⟩ := row_of_mem hr
  exact isText i

/-! ## its frames -/

def recordAt (i : Nat) : JournalRecord := ⟨i + 1, (sessionAt i).uuid.display, "session", 1, document⟩

theorem record_row (i : Nat) : (row i).record = recordAt i := by
  have hevent : JournalReader.event (row i).event = .ok document := if_pos rfl
  rw [StoredEvent.record, hevent]
  rfl

def sampleFrames : List WatchFrame :=
  .warnings [] :: (List.range 18).map (fun after => WatchFrame.ready after 17) ++
    (List.range 17).map fun i => WatchFrame.journal (recordAt i)

scoped instance frameReader : FrameReader :=
  ⟨fun bytes =>
    match sampleFrames.find? fun f => toVec f.json = bytes with
    | some f => .ok f
    | none => .error ⟨"expected value"⟩⟩

theorem readsBack {f : WatchFrame} (hf : f ∈ sampleFrames) : ReadsBack f := by
  -- the frames differ in their first bytes
  have hdistinct : (sampleFrames.map fun f => (toVec f.json).take 64).Nodup := by decide +kernel
  have hfound : (sampleFrames.find? fun g => toVec g.json = toVec f.json) = some f := by
    cases hfind : sampleFrames.find? fun g => toVec g.json = toVec f.json with
    | none => exact absurd (List.find?_eq_none.mp hfind f hf) (by simp)
    | some g =>
      have hsame : toVec g.json = toVec f.json := by simpa using List.find?_some hfind
      exact congrArg some (List.inj_on_of_nodup_map hdistinct (List.mem_of_find?_eq_some hfind) hf
        (congrArg (List.take 64) hsame))
  rw [ReadsBack, show FrameReader.frame (toVec f.json) = (match sampleFrames.find? fun g => toVec g.json = toVec f.json with
    | some f => .ok f
    | none => .error ⟨"expected value"⟩) from rfl, hfound]

theorem head_rows : journalHead rows = 17 := rfl

theorem readsBack_ready : ∀ after ≤ journalHead rows, ReadsBack (.ready after (journalHead rows)) := by
  intro after hle
  rw [head_rows] at hle ⊢
  refine readsBack (List.mem_append_left _ (List.mem_cons_of_mem _ (List.mem_map.mpr ⟨after, ?_, rfl⟩)))
  exact List.mem_range.mpr (Nat.lt_succ_of_le hle)

theorem readsBack_warnings : ReadsBack (.warnings []) := readsBack List.mem_cons_self

theorem readable : ∀ r ∈ rows, ReadsBack (.journal r.record) := by
  intro r hr
  obtain ⟨i, hi, rfl⟩ := row_of_mem hr
  rw [record_row]
  exact readsBack (List.mem_append_right _ (List.mem_map.mpr ⟨i, List.mem_range.mpr hi, rfl⟩))

/-! ## two pages, with a cut between them -/

/-- the watch of the journal from before its first event -/
def begun : World := World.opened rows 0

abbrev anyDraw : TaskState → Uuid → Prop := fun _ _ => True

def firstPage : List JournalRecord := records (rows.take 16)

theorem journalPage_first : journalPage rows 0 16 = .ok firstPage := by
  obtain ⟨⟨db, w, hcommitted⟩, htext⟩ := journaled anyDraw
  have hafter : after StoredEvent.sequence (some 0) rows = rows := by
    refine List.filter_eq_self.mpr fun r hr => ?_
    obtain ⟨i, -, rfl⟩ := row_of_mem hr
    rfl
  have hmem : ∀ {r}, r ∈ rows.take 16 → r ∈ rows := fun hr => List.mem_of_mem_take hr
  rw [journalPage, refuseIf_of_not _ (by decide), ok_bind, refuseIf_of_not _ (by decide), ok_bind, hafter]
  refine fillPage_short (fun r hr => hcommitted.record (hmem hr) (htext r (hmem hr))) 10601 (fun r hr => ?_) []
    (by decide)
  obtain ⟨i, -, rfl⟩ := row_of_mem (hmem hr)
  have hsize := size_storedRecord (isText i)
  rw [toVec_length]
  have hevent : (row i).event.length ≤ 10000 := length_document
  omega

theorem recordsAfter_start : recordsAfter 0 rows = firstPage ++ [recordAt 16] := by
  have hleft : recordsAfter 0 rows = records rows := by
    refine List.filter_eq_self.mpr fun r hr => ?_
    obtain ⟨x, hx, rfl⟩ := List.mem_map.mp hr
    obtain ⟨i, -, rfl⟩ := row_of_mem hx
    rfl
  rw [hleft, firstPage, ← record_row]
  rfl

/-- the last record is the only one that the host has left -/
structure AtPage (w : World) (l : Link) (s : Server) : Prop where
  along : Along anyDraw Sample.sessionId begun w
  live : Live anyDraw 0 w l s
  left : recordsAfter s.after rows = [recordAt 16]

theorem AtPage.handed {w : World} {l : Link} {s : Server} (h : AtPage w l s) : w.view.handed = firstPage := by
  have hdelivered := h.live.holds.delivered
  rw [h.live.holds.idle h.live.idle, h.along.rows] at hdelivered
  rw [show begun.rows = rows from rfl, h.left, recordsAfter_start] at hdelivered
  exact List.append_cancel_right hdelivered

theorem pageRead : ∃ w l s, AtPage w l s ∧ s.point = .top := by
  have hholds : Holds anyDraw 0 0 begun := holds_start (journaled anyDraw) (Nat.zero_le _)
  obtain ⟨w₁, l₁, halong₁, hlive₁⟩ := hholds.subscribe Sample.sessionId rfl (fun _ hf => nomatch hf)
    (readsBack_ready 0 (Nat.zero_le _)) readable
  have hbegin : Server.turn ⟨0, Sample.sessionId, none, .snapshot []⟩ w₁.rows [] .timer =
      .goto ⟨0, Sample.sessionId, none, .top⟩ := rfl
  obtain ⟨w₂, l₂, halong₂, hlive₂⟩ := hlive₁.move Sample.sessionId hbegin
  obtain ⟨w₃, l₃, s₃, halong₃, hlive₃, hjournal, hafter⟩ :=
    hlive₂.warned Sample.sessionId rfl readsBack_warnings
  have halong := (halong₁.trans halong₂).trans halong₃
  have hpage : s₃.turn w₃.rows [] .timer = .goto { s₃ with point := .page firstPage } := by
    have hserved : journalPage w₃.rows s₃.after 16 = .ok firstPage := by
      rw [halong.rows, hafter]
      exact journalPage_first
    simp only [Server.turn, hjournal, hserved]
    rfl
  obtain ⟨w₄, l₄, halong₄, hlive₄⟩ := hlive₃.move Sample.sessionId hpage
  obtain ⟨w, l, s, halong₅, hlive, htop, hleft⟩ := hlive₄.page Sample.sessionId firstPage rfl
  refine ⟨w, l, s, ⟨(halong.trans halong₄).trans halong₅, hlive, ?_⟩, htop⟩
  have hsame : recordsAfter 0 rows = firstPage ++ recordsAfter s.after rows := by
    rw [show w₄.rows = rows from (halong.trans halong₄).rows] at hleft
    rw [← hleft]
    exact congrArg (recordsAfter · rows) hafter.symm
  exact (List.append_cancel_left (recordsAfter_start.symm.trans hsame)).symm

theorem lastPage : ∃ w l s, AtPage w l s ∧ s.point = .page [recordAt 16] := by
  obtain ⟨w₁, l₁, s₁, hpage, htop⟩ := pageRead
  obtain ⟨w₂, l₂, s₂, halong, hlive, hjournal, hafter⟩ :=
    hpage.live.warned Sample.sessionId htop readsBack_warnings
  have hrows : w₂.rows = rows := (hpage.along.trans halong).rows
  obtain ⟨page, tail, hserved, hrest, hempty⟩ :=
    hlive.holds.journaled.page ((hlive.holds.link l₂ hlive.idle.link).server s₂ hlive.idle.server)
  have hleft : recordsAfter s₂.after rows = [recordAt 16] := by
    rw [hafter]
    exact hpage.left
  obtain rfl : page = [recordAt 16] := by
    rw [hrows, hleft] at hrest
    cases page with
    | nil =>
      rw [hempty rfl] at hrest
      cases hrest
    | cons record page =>
      obtain ⟨rfl, hnil⟩ := List.cons.inj hrest
      rw [(List.append_eq_nil_iff.mp hnil.symm).1]
  have hturn : s₂.turn w₂.rows [] .timer = .goto { s₂ with point := .page [recordAt 16] } := by
    simp only [Server.turn, hjournal, hserved]
  obtain ⟨w₃, l₃, halong₃, hlive₃⟩ := hlive.move Sample.sessionId hturn
  exact ⟨w₃, l₃, _, ⟨(hpage.along.trans halong).trans halong₃, hlive₃, hleft⟩, rfl⟩

/-- the first page has been handed on, and the connection has ended in the header of the next frame -/
structure Interrupted (w : World) (l : Link) : Prop where
  run : Watching anyDraw Sample.sessionId begun w
  rows : w.rows = rows
  handed : w.view.handed = firstPage
  link : w.view.link = some l
  header : ∃ a b, l.inbox = ⟨[a, b], true⟩ ∧ l.watch.reader = Reader.start
  reads : ∀ f ∈ w.sent, ReadsBack f

theorem take_frame (body : List UInt8) : ∃ a b, ((frame body).take 100).take 2 = [a, b] := by
  rw [List.take_take]
  exact ⟨_, _, rfl⟩

theorem interrupted : ∃ w l, Interrupted w l := by
  obtain ⟨w, l, s, hpage, hpoint⟩ := lastPage
  have hidle := hpage.live.idle
  obtain ⟨f, hf⟩ : ∃ f, f = WatchFrame.journal (recordAt 16) := ⟨_, rfl⟩
  have hsample : f ∈ sampleFrames := by
    rw [hf]
    exact List.mem_append_right _ (List.mem_map.mpr ⟨16, by decide, rfl⟩)
  have hturn : s.turn w.rows [] .timer = .send f { s with after := 17, point := .page [] } := by
    rw [hf]
    simp only [Server.turn, hpoint]
    rfl
  have hfits : (toVec f.json).length ≤ maxFrameBytes := by
    have h := (journaled anyDraw).fits (x := row 16) (List.mem_map.mpr ⟨16, by decide, rfl⟩)
    rwa [record_row, ← hf] at h
  -- a part of the frame is written, and less of it arrives
  let s' : Server := { s with after := 17, point := .page [] }
  let l₁ : Link := { l with server := some s', writing := frame (toVec f.json) }
  let w₁ : World := { w.relink l₁ with sent := w.sent ++ [f] }
  let w₂ : World := w₁.relink (l₁.flush 100)
  have hwrite : Step anyDraw Sample.sessionId w w₁ := by
    have hlink : l.write f s' = l₁ := if_neg (Nat.not_lt.mpr hfits)
    have hstep : Step anyDraw Sample.sessionId w { w.relink (l.write f s') with sent := w.sent ++ [f] } :=
      .write [] .timer hidle.link hidle.server hidle.writing hturn
    rw [hlink] at hstep
    exact hstep
  have hflush : Step anyDraw Sample.sessionId w₁ w₂ := .flush 100 rfl
  have hcut : Step anyDraw Sample.sessionId w₂ (w₂.relink ((l₁.flush 100).cut 2)) := .cut 2 rfl
  refine ⟨w₂.relink ((l₁.flush 100).cut 2), (l₁.flush 100).cut 2, ?_, ?_, ?_, rfl, ?_, ?_⟩
  · exact ((hpage.along.run.tail hwrite).tail hflush).tail hcut
  · show w.rows = begun.rows
    exact hpage.along.rows
  · show w.view.handed = firstPage
    exact hpage.handed
  · obtain ⟨a, b, hheader⟩ := take_frame (toVec f.json)
    refine ⟨a, b, ?_, hidle.reader⟩
    show (⟨(l.inbox.bytes ++ (frame (toVec f.json)).take 100).take 2, true⟩ : Inbox) = _
    rw [hidle.inbox, List.nil_append, hheader]
  · intro x hx
    rcases List.mem_append.mp hx with hx | hx
    · exact hpage.live.reads x hx
    · rw [List.mem_singleton.mp hx]
      exact readsBack hsample

theorem caughtUp {w : World} (hrun : Watching anyDraw Sample.sessionId begun w) (hrows : w.rows = rows)
    (hreads : ∀ f ∈ w.sent, ReadsBack f) : ∃ w', Watching anyDraw Sample.sessionId w w' ∧ w'.rows = rows ∧
      w'.view.handed = firstPage ++ [recordAt 16] ∧ w'.view.degraded = false ∧ ∀ f ∈ w'.sent, ReadsBack f := by
  have hholds := (holds_start (journaled anyDraw) (Nat.zero_le _)).run hrun.run hreads
  obtain ⟨w', hmore, hsame, hdone, -⟩ := hholds.catchUp Sample.sessionId hreads
    (by rw [hrows]; exact readsBack_ready) readsBack_warnings (by rw [hrows]; exact readable)
  have hdelivered := hdone.holds.delivered
  rw [hdone.nothing, List.append_nil, hsame, hrows, recordsAfter_start] at hdelivered
  exact ⟨w', hmore, hsame.trans hrows, hdelivered, hdone.told, hdone.reads⟩

theorem watch_delivers_pages : ∃ w l w', Interrupted w l ∧ Run anyDraw Sample.sessionId w w' ∧
    w'.view.handed = firstPage ++ [recordAt 16] ∧ ∀ e ∈ w'.view.errors, e = .unavailable ∨ e = .unexpectedEof := by
  obtain ⟨w, l, h⟩ := interrupted
  obtain ⟨w', hrun, hrows, hhanded, -, hreads⟩ := caughtUp h.run h.rows h.reads
  exact ⟨w, l, w', h, hrun.run, hhanded,
    (watch_delivers (journaled anyDraw) (Nat.zero_le _) (Watching.run (h.run.trans hrun)) hreads).2.1⟩

/-- the view fails in the header of the frame, and is told of its recovery behind the second page -/
theorem watch_recovers_pages : ∃ w l w₁ w₂, Interrupted w l ∧ Step anyDraw Sample.sessionId w w₁ ∧
    w₁.view.degraded = true ∧ Run anyDraw Sample.sessionId w₁ w₂ ∧ w₂.view.degraded = false ∧
      firstPage ++ [recordAt 16] <+: w₂.view.handed := by
  obtain ⟨w, l, h⟩ := interrupted
  obtain ⟨a, b, hinbox, hreader⟩ := h.header
  have hpoll : l.watch.reader.poll maxFrameBytes [1, 0] l.inbox = (.eof, ⟨[a, b], []⟩, ⟨[], true⟩) := by
    rw [hinbox, hreader]
    rfl
  let w₁ : World := { w with view := w.view.read l [1, 0] }
  have hfailed : Step anyDraw Sample.sessionId w w₁ := .read [1, 0] h.link
  obtain ⟨-, hlink, hdegraded, -⟩ := failed_fields w.view .unexpectedEof
  rw [← View.read_eof w.view hpoll] at hlink hdegraded
  obtain ⟨w₂, hrun, hrows, -, hrecovered, hreads⟩ := caughtUp (h.run.tail hfailed) h.rows h.reads
  have hprefix := watch_recovers (journaled anyDraw) (Nat.zero_le _) (Watching.run (h.run.tail hfailed)) ⟨hdegraded, hlink⟩ hrun.run hrecovered
    hreads
  rw [show w₁.rows = rows from h.rows, recordsAfter_start] at hprefix
  exact ⟨w, l, w₁, w₂, h, hfailed, hdegraded, hrun.run, hrecovered, hprefix⟩

theorem watch_catches_up_pages : ∃ w l w', Interrupted w l ∧ Watching anyDraw Sample.sessionId w w' ∧
    w'.view.handed = firstPage ++ [recordAt 16] ∧ w'.view.degraded = false := by
  obtain ⟨w, l, h⟩ := interrupted
  obtain ⟨w', hrun, -, hhanded, hdegraded, -⟩ := watch_catches_up (journaled anyDraw) (Nat.zero_le _) h.run.run h.reads
    (by rw [h.rows]; exact readsBack_ready) readsBack_warnings (by rw [h.rows]; exact readable)
  rw [h.rows, recordsAfter_start] at hhanded
  exact ⟨w, l, w', h, hrun, hhanded, hdegraded⟩

end WatchSample

end Orvek.Ipc
