import Orvek.Lib.Claims
import Orvek.Store.Started

/-!
# Completion hooks

When the task of a request has come to its end, the host runs the shell command that was configured
for the request.  The command has effects of its own, so that the claim to run it is recorded first:

* `armHook`, `claimHook`, `finishHook`   the transactions of a deliverer;
* `DeliveriesApart`   no claim of a delivery that is pending has been recorded;
* `DeliveryStep`      any number of deliverers beside the rest of the host; they may stop at any time;
* `DeliveryStep.refines`   every step is one of a ledger of claims;
* `hook_once`         so no hook is started twice, and a claim that was left behind is not acted on.
-/

set_option linter.unusedSectionVars false

namespace Orvek
open Checks Json

section
variable [Sha256] [ContractCodec] [SessionCodec] [StoreCodec] [JsonReader]
variable {event : DeliveryEvent} {session : SessionId} {operation request : Uuid}
  {c : SessionCommand ContextView} {d : CompletionDelivery}

/-! ## the transactions -/

/-- a claim that was recorded, for the deliverer that runs it -/
structure Hook where
  command : String
  workspace : String
  payload : CompletionPayload

def armHook (env : Env) (hook : Option String) (session : SessionId) (request : Uuid) (db : Db) :
    Except StoreError (Option SessionState × Db) :=
  match hook with
  | none => .ok (none, db)
  | some command => do
    let (s, _) ← loadSessionState db session none
    -- an admission that is repeated arms nothing
    if request ∈ s.completionDeliveries ∨ request ∈ s.tasksByRequest then .ok (none, db)
    else do
      let (t, db) ← sessionCommand env session s.revision (request.named "completion-hook-armed")
        (.completionHook (.armed request command)) db
      .ok (some t, db)

/-- the first delivery that is pending, whose request is over and whose task has its outcome -/
def claimable (s : SessionState) (session : SessionId) (db : Db) :
    List (Uuid × CompletionDelivery) → Except StoreError (Option (CompletionDelivery × CompletionPayload))
  | [] => .ok none
  | (request, delivery) :: rest =>
    if delivery.state ≠ .pending ∨ s.activeRequest = some request then claimable s session db rest
    else
      match s.tasksByRequest[request]? with
      | none => claimable s session db rest
      | some id => do
        let (task, _) ← loadState db id
        match task.outcome with
        | none => claimable s session db rest
        | some outcome =>
          .ok (some (delivery, ⟨1, delivery.id, session, request, task.id, outcome⟩))

def claimHook (env : Env) (session : SessionId) (db : Db) :
    Except StoreError (Option (Hook × SessionState) × Db) := do
  let (s, _) ← loadSessionState db session none
  match ← claimable s session db s.completionDeliveries.toList with
  | none => .ok (none, db)
  | some (delivery, payload) => do
    let (t, db) ← sessionCommand env session s.revision (delivery.id.named "claimed")
      (.completionHook (.claimed payload)) db
    .ok (some (⟨delivery.command, s.workspace, payload⟩, t), db)

def finishHook (env : Env) (session : SessionId) (payload : CompletionPayload)
    (result : DeliveryResult) (db : Db) : Except StoreError (SessionState × Db) := do
  let (s, _) ← loadSessionState db session none
  sessionCommand env session s.revision (payload.deliveryId.named "finished")
    (.completionHook (.finished payload.request result)) db

/-! ## what a command does to the deliveries -/

variable {s t : SessionState} {env : Env} {db db' : Db}

theorem deliveryEvent_cases {deliveries deliveries' : BTreeMap Uuid CompletionDelivery}
    (h : event.apply session deliveries = .ok deliveries') :
    (∃ request command, event = .armed request command ∧ request ∉ deliveries ∧
      deliveries' = deliveries.insert request ⟨deliveryId session request, command, .pending⟩) ∨
    ∃ request d state, deliveries[request]? = some d ∧ state ≠ .pending ∧
      deliveries' = deliveries.insert request { d with state := state } := by
  cases event with
  | armed request command =>
    simp only [DeliveryEvent.apply] at h
    split at h
    · cases h
    · rename_i hnew
      cases h
      exact .inl ⟨request, command, rfl, hnew, rfl⟩
  | claimed payload =>
    simp only [DeliveryEvent.apply] at h
    split at h
    · rename_i d hd
      split at h
      · cases h
        exact .inr ⟨payload.request, d, .attempted payload interrupted, hd, fun he => (nomatch he), rfl⟩
      · cases h
    · cases h
  | finished request result =>
    simp only [DeliveryEvent.apply] at h
    split at h
    · rename_i id command payload previous hd
      split at h
      · cases h
        exact .inr ⟨request, _, .attempted payload result, hd, fun he => (nomatch he), rfl⟩
      · cases h
    · cases h

/-- the commands that change deliveries -/
def SessionCommand.hooks {V : Type} : SessionCommand V → Bool
  | .completionHook _ => true
  | _ => false

theorem apply_deliveries (h : s.apply operation c = .ok t) (hc : c.hooks = false) :
    t.completionDeliveries = s.completionDeliveries := by
  obtain ⟨u, _, hu, rfl, -⟩ := apply_applied h
  show u.completionDeliveries = _
  cases hu with
  | completionHook => cases hc
  | shellStarted job =>
    unfold SessionState.shellStarted
    cases job.task <;> rfl
  | _ => rfl

theorem apply_hook (h : s.apply operation (.completionHook event) = .ok t) :
    event.apply s.id s.completionDeliveries = .ok t.completionDeliveries := by
  obtain ⟨u, hu, rfl⟩ := applyPlain_ok h
  obtain ⟨deliveries, hd, hu⟩ := bind_ok hu
  cases hu
  exact hd

theorem apply_claimed {payload : CompletionPayload}
    (h : s.apply operation (.completionHook (.claimed payload)) = .ok t) :
    ∃ d, s.completionDeliveries[payload.request]? = some d ∧ d.state = .pending ∧
      t.completionDeliveries = s.completionDeliveries.insert payload.request
        { d with state := .attempted payload interrupted } := by
  have h := apply_hook h
  simp only [DeliveryEvent.apply] at h
  split at h
  · rename_i d hd
    split at h
    · rename_i hguard
      exact ⟨d, hd, hguard.2.2, (Except.ok.inj h).symm⟩
    · cases h
  · cases h

/-- the claim to run the hook of a request has been recorded -/
def Attempted (s : SessionState) (request : Uuid) : Prop :=
  ∃ d, s.completionDeliveries[request]? = some d ∧ d.state ≠ .pending

/-- a claim is recorded for good -/
theorem Attempted.apply (ha : Attempted s request) (h : s.apply operation c = .ok t) :
    Attempted t request := by
  obtain ⟨d, hd, hstate⟩ := ha
  cases hc : c.hooks with
  | false => exact ⟨d, by rw [apply_deliveries h hc]; exact hd, hstate⟩
  | true =>
    cases c with
    | completionHook event =>
      rcases deliveryEvent_cases (apply_hook h) with ⟨other, command, -, hnew, hds⟩ |
        ⟨other, old, state, hold, hne, hds⟩
      · have hother : other ≠ request := fun he => hnew (by
          rw [he, Std.ExtTreeMap.mem_iff_isSome_getElem?, hd]
          rfl)
        refine ⟨d, ?_, hstate⟩
        rw [hds, Std.ExtTreeMap.getElem?_insert, if_neg (by simpa using hother), hd]
      · by_cases hother : other = request
        · refine ⟨{ old with state := state }, ?_, hne⟩
          rw [hds, ← hother, Std.ExtTreeMap.getElem?_insert_self]
        · refine ⟨d, ?_, hstate⟩
          rw [hds, Std.ExtTreeMap.getElem?_insert, if_neg (by simpa using hother), hd]
    | _ => cases hc

/-! ## the identifiers of claims -/

def claimOperation (session : SessionId) (request : Uuid) : Uuid :=
  (deliveryId session request).named "claimed"

/-- the deliveries of a session have claims of their own, and none that is pending was claimed -/
structure DeliveriesApart (s : SessionState) : Prop where
  ids : ∀ request d, s.completionDeliveries[request]? = some d → d.id = deliveryId s.id request
  apart : ∀ request other, request ∈ s.completionDeliveries → other ∈ s.completionDeliveries →
    claimOperation s.id request = claimOperation s.id other → request = other
  fresh : ∀ request d, s.completionDeliveries[request]? = some d → d.state = .pending →
    claimOperation s.id request ∉ s.operations

/-- what a call must meet: nothing is journaled under the identifier of a claim, and what is armed
has a claim of its own -/
structure ClaimsApart (s : SessionState) (call : HostCall) : Prop where
  records : ∀ operation ∈ call.ids, ∀ request ∈ s.completionDeliveries,
    operation ≠ claimOperation s.id request
  arms : ∀ session revision operation request command,
    call = .command session revision operation (.completionHook (.armed request command)) →
      claimOperation s.id request ∉ s.operations ∧ operation ≠ claimOperation s.id request ∧
        ∀ other ∈ s.completionDeliveries, claimOperation s.id other ≠ claimOperation s.id request

theorem deliveriesApart_create (id : SessionId) (creation : SessionCreation) :
    DeliveriesApart (SessionState.create id creation) where
  ids request d hd := by
    cases (show (none : Option CompletionDelivery) = some d from hd)
  apart request other hr := by
    cases (Std.ExtTreeMap.not_mem_empty hr)
  fresh request d hd := by
    cases (show (none : Option CompletionDelivery) = some d from hd)

theorem mem_of_delivery (h : s.completionDeliveries[request]? = some d) :
    request ∈ s.completionDeliveries := by
  rw [Std.ExtTreeMap.mem_iff_isSome_getElem?, h]
  rfl

theorem DeliveriesApart.frame (h : DeliveriesApart s) (hc : c.hooks = false)
    (hap : s.apply operation c = .ok t)
    (hop : ∀ request ∈ s.completionDeliveries, operation ≠ claimOperation s.id request) :
    DeliveriesApart t := by
  have hsame := apply_deliveries hap hc
  have hid := (apply_keeps hap).1
  refine ⟨fun request d hd => ?_, fun request other hr ho => ?_, fun request d hd hpending hmem => ?_⟩
  · rw [hid]
    exact h.ids request d (hsame ▸ hd)
  · rw [hid]
    exact h.apart request other (hsame ▸ hr) (hsame ▸ ho)
  · rw [hsame] at hd
    rw [hid] at hmem
    rcases (mem_operations hap).mp hmem with he | hmem
    · exact hop request (mem_of_delivery hd) he
    · exact h.fresh request d hd hpending hmem

theorem DeliveriesApart.frames (h : DeliveriesApart s) {frames : List Frame}
    (hframes : ∀ f ∈ frames, f.2.hooks = false) (hap : s.applyAll frames = .ok t)
    (hops : ∀ f ∈ frames, ∀ request ∈ s.completionDeliveries, f.1 ≠ claimOperation s.id request) :
    DeliveriesApart t := by
  induction frames generalizing s with
  | nil =>
    cases hap
    exact h
  | cons f frames ih =>
    obtain ⟨u, hu, hap⟩ := applyAll_cons hap
    refine ih (h.frame (hframes f List.mem_cons_self) hu (hops f List.mem_cons_self))
      (fun g hg => hframes g (List.mem_cons_of_mem f hg)) hap fun g hg request hr => ?_
    rw [(apply_keeps hu).1]
    rw [apply_deliveries hu (hframes f List.mem_cons_self)] at hr
    exact hops g (List.mem_cons_of_mem f hg) request hr

theorem DeliveriesApart.attempted (h : DeliveriesApart s) {state : DeliveryState}
    (hap : s.apply operation (.completionHook event) = .ok t)
    (hd : s.completionDeliveries[request]? = some d) (hstate : state ≠ .pending)
    (hds : t.completionDeliveries = s.completionDeliveries.insert request { d with state := state })
    (hop : ∀ other ∈ s.completionDeliveries, other ≠ request → operation ≠ claimOperation s.id other) :
    DeliveriesApart t := by
  have hid := (apply_keeps hap).1
  have hmem : ∀ k, k ∈ t.completionDeliveries → k ∈ s.completionDeliveries := by
    intro k hk
    rw [hds, Std.ExtTreeMap.mem_insert] at hk
    rcases hk with he | hk
    · rw [← Std.LawfulEqOrd.compare_eq_iff_eq.mp he]
      exact mem_of_delivery hd
    · exact hk
  refine ⟨fun k e he => ?_, fun k j hk hj => ?_, fun k e he hpending hmem' => ?_⟩
  · rw [hid]
    rw [hds, Std.ExtTreeMap.getElem?_insert] at he
    split at he
    · rename_i hk
      cases he
      rw [← Std.LawfulEqOrd.compare_eq_iff_eq.mp hk]
      exact h.ids request d hd
    · exact h.ids k e he
  · rw [hid]
    exact h.apart k j (hmem k hk) (hmem j hj)
  · rw [hid] at hmem'
    rw [hds, Std.ExtTreeMap.getElem?_insert] at he
    split at he
    · cases he
      exact hstate hpending
    · rename_i hk
      have hne : k ≠ request := fun heq => hk (Std.LawfulEqOrd.compare_eq_iff_eq.mpr heq.symm)
      rcases (mem_operations hap).mp hmem' with heq | hmem'
      · exact hop k (mem_of_delivery he) hne heq
      · exact h.fresh k e he hpending hmem'

theorem DeliveriesApart.armed (h : DeliveriesApart s) {command : String}
    (hap : s.apply operation (.completionHook (.armed request command)) = .ok t)
    (hnew : request ∉ s.completionDeliveries) (hds : t.completionDeliveries =
      s.completionDeliveries.insert request ⟨deliveryId s.id request, command, .pending⟩)
    (hfresh : claimOperation s.id request ∉ s.operations) (hown : operation ≠ claimOperation s.id request)
    (hother : ∀ other ∈ s.completionDeliveries,
      claimOperation s.id other ≠ claimOperation s.id request)
    (hop : ∀ other ∈ s.completionDeliveries, operation ≠ claimOperation s.id other) :
    DeliveriesApart t := by
  have hid := (apply_keeps hap).1
  have hmem : ∀ k, k ∈ t.completionDeliveries → k = request ∨ k ∈ s.completionDeliveries := by
    intro k hk
    rw [hds, Std.ExtTreeMap.mem_insert] at hk
    exact hk.imp (fun he => (Std.LawfulEqOrd.compare_eq_iff_eq.mp he).symm) id
  refine ⟨fun k e he => ?_, fun k j hk hj heq => ?_, fun k e he hpending hmem' => ?_⟩
  · rw [hid]
    rw [hds, Std.ExtTreeMap.getElem?_insert] at he
    split at he
    · rename_i hk
      cases he
      rw [← Std.LawfulEqOrd.compare_eq_iff_eq.mp hk]
    · exact h.ids k e he
  · rw [hid] at heq
    rcases hmem k hk with rfl | hk
    · rcases hmem j hj with rfl | hj
      · rfl
      · exact absurd heq.symm (hother j hj)
    · rcases hmem j hj with rfl | hj
      · exact absurd heq (hother k hk)
      · exact h.apart k j hk hj heq
  · rw [hid] at hmem'
    rw [hds, Std.ExtTreeMap.getElem?_insert] at he
    split at he
    · rename_i hk
      rw [← Std.LawfulEqOrd.compare_eq_iff_eq.mp hk] at hmem'
      rcases (mem_operations hap).mp hmem' with heq | hmem'
      · exact hown heq
      · exact hfresh hmem'
    · rcases (mem_operations hap).mp hmem' with heq | hmem'
      · exact hop k (mem_of_delivery he) heq
      · exact h.fresh k e he hpending hmem'

theorem linkFrames_hooks {content : List Value} {task : TaskId} :
    ∀ f ∈ linkFrames request content task, f.2.hooks = false :=
  two_frames rfl rfl

theorem logical_hooks (h : c.logical = false) : c.hooks = false := by
  cases c <;> first | rfl | cases h

/-- **An orderly call keeps the claims apart.** -/
theorem CallPlan.deliveriesApart {call : HostCall} {frames : List Frame} (h : DeliveriesApart s)
    (horderly : ClaimsApart s call) (hplan : CallPlan s call frames)
    (hap : s.applyAll frames = .ok t) : DeliveriesApart t := by
  have hids := hplan.ids
  have hops : ∀ f ∈ frames, ∀ request ∈ s.completionDeliveries, f.1 ≠ claimOperation s.id request :=
    fun f hf => horderly.records _ (hids f hf)
  have hone : ∀ {operation : Uuid} {c : SessionCommand ContextView}, c.hooks = false →
      ∀ f ∈ [((operation, c) : Frame)], f.2.hooks = false := by
    intro operation c hc f hf
    rw [List.mem_singleton.mp hf]
    exact hc
  cases hplan with
  | nothing =>
    cases hap
    exact h
  | @command session revision operation c _ hnew hframed =>
    cases hc : c.hooks with
    | true =>
      cases c with
      | completionHook event =>
        rw [hframed.of_small rfl] at hap hops
        have hone := applyAll_one.mp hap
        have hop := hops _ List.mem_cons_self
        rcases deliveryEvent_cases (apply_hook hone) with ⟨request, command, rfl, hnone, hds⟩ |
          ⟨request, d, state, hd, hstate, hds⟩
        · obtain ⟨hfresh, hown, hother⟩ := horderly.arms _ _ _ _ _ rfl
          exact h.armed hone hnone hds hfresh hown hother hop
        · exact h.attempted hone hd hstate hds fun other ho _ => hop other ho
      | _ => cases hc
    | false =>
      exact h.frames (hframed.all (q := fun c => c.hooks = false) hc fun _ => logical_hooks) hap hops
  | start => exact h.frames linkFrames_hooks hap hops
  | resume => exact h.frames linkFrames_hooks hap hops
  | «continue» => exact h.frames linkFrames_hooks hap hops
  | edit => exact h.frames (hone rfl) hap hops
  | submit => exact h.frames (hone rfl) hap hops
  | beginShell => exact h.frames (hone rfl) hap hops
  | finishShell => exact h.frames (two_frames rfl rfl) hap hops
  | move => exact h.frames (hone rfl) hap hops
  | setStatus => exact h.frames (hone rfl) hap hops

/-! ## claims -/

theorem claimable_ok {deliveries : List (Uuid × CompletionDelivery)} {payload : CompletionPayload}
    (h : claimable s session db deliveries = .ok (some (d, payload))) :
    (payload.request, d) ∈ deliveries ∧ d.state = .pending ∧ payload.session = session ∧
      payload.deliveryId = d.id := by
  induction deliveries with
  | nil => cases h
  | cons entry rest ih =>
    obtain ⟨request, delivery⟩ := entry
    have hskip : claimable s session db rest = .ok (some (d, payload)) →
        (payload.request, d) ∈ (request, delivery) :: rest ∧ d.state = .pending ∧
          payload.session = session ∧ payload.deliveryId = d.id := by
      intro h
      obtain ⟨hmem, hrest⟩ := ih h
      exact ⟨List.mem_cons_of_mem _ hmem, hrest⟩
    rw [claimable] at h
    split at h
    · exact hskip h
    · rename_i hpending
      split at h
      · exact hskip h
      · obtain ⟨⟨task, head⟩, -, h⟩ := bind_ok h
        simp only at h
        split at h
        · exact hskip h
        · cases h
          rw [not_or, not_not] at hpending
          exact ⟨List.mem_cons_self, hpending.1, rfl, rfl⟩

/-- **A claim that succeeds was not recorded before**, and it is recorded now. -/
theorem claimHook_ok {hook : Hook} (hload : ∀ s head, loadSessionState db session none = .ok (s, head) →
      s.id = session ∧ DeliveriesApart s) (h : claimHook env session db = .ok (some (hook, t), db')) :
    hook.payload.session = session ∧ ∃ s head, loadSessionState db session none = .ok (s, head) ∧
      (HostCall.command session s.revision (claimOperation session hook.payload.request)
        (.completionHook (.claimed hook.payload))).run env db = .ok (none, t, db') ∧
      ¬ Attempted s hook.payload.request ∧ Attempted t hook.payload.request ∧
      DeliveriesApart t := by
  obtain ⟨⟨s, head⟩, hl, h⟩ := bind_ok h
  obtain ⟨found, hfound, h⟩ := bind_ok h
  cases found with
  | none => cases h
  | some found =>
    obtain ⟨d, payload⟩ := found
    obtain ⟨⟨u, db₁⟩, hcommand, h⟩ := bind_ok h
    cases h
    obtain ⟨rfl, hapart⟩ := hload s head hl
    obtain ⟨hmem, hpending, hsession, hdelivery⟩ := claimable_ok hfound
    have hd : s.completionDeliveries[payload.request]? = some d :=
      Std.ExtTreeMap.mem_toList_iff_getElem?_eq_some.mp hmem
    have hop : d.id.named "claimed" = claimOperation s.id payload.request := by
      rw [hapart.ids _ _ hd]
      rfl
    rw [hop] at hcommand
    -- the claim is new, because its delivery is pending
    obtain ⟨v, g, hl', ⟨-, -, hknown⟩ | ⟨-, -, -, -, hash, happ⟩⟩ := sessionCommand_ok hcommand
    · cases hl.symm.trans hl'
      have hin : claimOperation s.id payload.request ∈ s.operations := by
        rw [Std.ExtTreeMap.mem_iff_isSome_getElem?, hknown]
        rfl
      exact absurd hin (hapart.fresh _ _ hd hpending)
    · cases hl.symm.trans hl'
      have hone := applyAll_one.mp (append_one happ rfl)
      obtain ⟨e, he, -, hds⟩ := apply_claimed hone
      cases hd.symm.trans he
      have hstate : DeliveryState.attempted payload interrupted ≠ .pending := fun he => (nomatch he)
      refine ⟨hsession, s, head, hl, ?_, ?_, ⟨{ d with state := .attempted payload interrupted }, ?_,
        hstate⟩, ?_⟩
      · rw [HostCall.run, hcommand, ok_bind]
      · rintro ⟨e, he, hne⟩
        cases hd.symm.trans he
        exact hne hpending
      · rw [hds, Std.ExtTreeMap.getElem?_insert_self]
      · refine hapart.attempted hone hd hstate hds fun other ho hne he => hne ?_
        exact hapart.apart other payload.request ho (mem_of_delivery hd) he.symm

/-! ## deliverers -/

/-- the store, the claims that deliverers hold, the hooks that run, and the hooks that were started -/
structure Delivering where
  db : Db
  world : World
  claimed : List Hook
  running : List Hook
  started : List (SessionId × Uuid)

def Delivering.init : Delivering := ⟨Db.empty, World.empty, [], [], []⟩

def Hook.key (hook : Hook) : SessionId × Uuid := (hook.payload.session, hook.payload.request)

/-- one step: of the host, whose calls keep claims apart, or of a deliverer.  Deliverers come and go:
each begins with a claim, and any of them may stop, all of them when the host does -/
inductive DeliveryStep (c : Delivering) : Delivering → Prop
  | host {task : Option TaskState} {session : Option SessionState} {db : Db}
      (h : HostStep ClaimsApart c.db task session db) :
      DeliveryStep c { c with db := db, world := c.world.write task session }
  | arm {env : Env} {hook : Option String} {session : SessionId} {request : Uuid} {s : SessionState}
      {db : Db} (h : armHook env hook session request c.db = .ok (some s, db))
      (hapart : ∀ s head command, loadSessionState c.db session none = .ok (s, head) →
        ClaimsApart s (.command session s.revision (request.named "completion-hook-armed")
          (.completionHook (.armed request command)))) :
      DeliveryStep c { c with db := db, world := c.world.setSession s }
  | claim {env : Env} {session : SessionId} {hook : Hook} {s : SessionState} {db : Db}
      (h : claimHook env session c.db = .ok (some (hook, s), db)) :
      DeliveryStep c { c with db := db, world := c.world.setSession s, claimed := hook :: c.claimed }
  | start {before after : List Hook} {hook : Hook} (h : c.claimed = before ++ hook :: after) :
      DeliveryStep c { c with claimed := before ++ after, running := hook :: c.running,
                              started := hook.key :: c.started }
  | finish {env : Env} {before after : List Hook} {hook : Hook} {result : DeliveryResult}
      {s : SessionState} {db : Db} (h : c.running = before ++ hook :: after)
      (hfinish : finishHook env hook.payload.session hook.payload result c.db = .ok (s, db))
      (hapart : ∀ s head, loadSessionState c.db hook.payload.session none = .ok (s, head) →
        ClaimsApart s (.command hook.payload.session s.revision
          (hook.payload.deliveryId.named "finished")
          (.completionHook (.finished hook.payload.request result)))) :
      DeliveryStep c { c with db := db, world := c.world.setSession s, running := before ++ after }
  | stop {claimed running : List Hook} (hclaimed : claimed.Sublist c.claimed)
      (hrunning : running.Sublist c.running) :
      DeliveryStep c { c with claimed := claimed, running := running }

abbrev DeliveryRun : Delivering → Delivering → Prop := Relation.ReflTransGen DeliveryStep

def Delivering.ledger (c : Delivering) : Claims.Ledger (SessionId × Uuid) where
  taken := { key | ∃ s, c.world.sessions key.1 = some s ∧ Attempted s key.2 }
  held := c.claimed.map Hook.key
  started := c.started

structure Delivering.Orderly (c : Delivering) : Prop where
  represents : Represents c.db c.world
  apart : ∀ id s, c.world.sessions id = some s → DeliveriesApart s

variable {c c' : Delivering} {w w' : World}

theorem HostStep.taken {admits : SessionState → HostCall → Prop} {task : Option TaskState}
    {session : Option SessionState} (h : HostStep admits db task session db') (hr : Represents db w)
    {id : SessionId} (hs : w.sessions id = some s) :
    ∃ s', (w.write task session).sessions id = some s' ∧ ∀ request, Attempted s request →
      Attempted s' request :=
  (HostRun.session_relation (P := fun _ => True)
    (R := fun s t => ∀ request, Attempted s request → Attempted t request) (fun _ _ => trivial)
    (fun _ _ h => h) (fun h h' _ ha => h' _ (h _ ha))
    (fun _ _ _ _ hap => ⟨trivial, applyAll_relation
      (R := fun s t => ∀ request, Attempted s request → Attempted t request) (fun _ _ h => h)
      (fun h h' _ ha => h' _ (h _ ha)) (fun _ _ _ _ hone _ ha => ha.apply hone) hap⟩)
    (HostRun.step .refl h) hr (fun _ _ _ => trivial)).2 id s hs

theorem Delivering.Orderly.host (h : c.Orderly) {task : Option TaskState}
    {session : Option SessionState} (hs : HostStep ClaimsApart c.db task session db) :
    Represents db (c.world.write task session) ∧
      (∀ id s, (c.world.write task session).sessions id = some s → DeliveriesApart s) ∧
      ∀ key, key ∈ c.ledger.taken →
        ∃ s, (c.world.write task session).sessions key.1 = some s ∧ Attempted s key.2 := by
  have hrun : HostRun ClaimsApart c.db c.world db (c.world.write task session) := HostRun.step .refl hs
  refine ⟨hrun.represents h.represents, ?_, ?_⟩
  · exact (HostRun.session_relation (P := DeliveriesApart) (R := fun _ _ => True)
      deliveriesApart_create (fun _ => trivial) (fun _ _ => trivial)
      (fun hP ha _ hplan hap => ⟨hplan.deliveriesApart hP ha hap, trivial⟩) hrun h.represents
      h.apart).1
  · rintro key ⟨s, hs', hattempted⟩
    obtain ⟨t, ht, hkept⟩ := hs.taken h.represents hs'
    exact ⟨t, ht, hkept _ hattempted⟩

theorem armHook_step {hook : Option String} (h : armHook env hook session request db = .ok (some t, db'))
    (hapart : ∀ s head command, loadSessionState db session none = .ok (s, head) →
      ClaimsApart s (.command session s.revision (request.named "completion-hook-armed")
        (.completionHook (.armed request command)))) : HostStep ClaimsApart db none (some t) db' := by
  cases hook with
  | none => cases h
  | some command =>
    obtain ⟨⟨s, head⟩, hl, h⟩ := bind_ok h
    simp only at h
    split at h
    · cases h
    · obtain ⟨⟨u, db₁⟩, hcommand, h⟩ := bind_ok h
      cases h
      have hcall : (HostCall.command session s.revision (request.named "completion-hook-armed")
          (.completionHook (.armed request command))).run env db = .ok (none, u, db₁) := by
        rw [HostCall.run, hcommand, ok_bind]
      refine .call hcall rfl fun v g hu => ?_
      cases hl.symm.trans hu
      exact hapart s head command hl

theorem finishHook_step {payload : CompletionPayload} {result : DeliveryResult}
    (h : finishHook env session payload result db = .ok (t, db'))
    (hapart : ∀ s head, loadSessionState db session none = .ok (s, head) →
      ClaimsApart s (.command session s.revision (payload.deliveryId.named "finished")
        (.completionHook (.finished payload.request result)))) :
    HostStep ClaimsApart db none (some t) db' := by
  obtain ⟨⟨s, head⟩, hl, hcommand⟩ := bind_ok h
  simp only at hcommand
  have hcall : (HostCall.command session s.revision (payload.deliveryId.named "finished")
      (.completionHook (.finished payload.request result))).run env db = .ok (none, t, db') := by
    rw [HostCall.run, hcommand, ok_bind]
  refine .call hcall rfl fun u g hu => ?_
  cases hl.symm.trans hu
  exact hapart s head hl

/-- **A claim takes a key that nobody had taken.** -/
theorem claimHook_takes (h : c.Orderly) {hook : Hook}
    (hc : claimHook env session c.db = .ok (some (hook, t), db')) :
    Represents db' (c.world.setSession t) ∧
      (∀ id s, (c.world.setSession t).sessions id = some s → DeliveriesApart s) ∧
      hook.key ∉ c.ledger.taken ∧
      (∃ s, (c.world.setSession t).sessions hook.key.1 = some s ∧ Attempted s hook.key.2) ∧
      ∀ key, key ∈ c.ledger.taken →
        ∃ s, (c.world.setSession t).sessions key.1 = some s ∧ Attempted s key.2 := by
  have hload : ∀ s head, loadSessionState c.db session none = .ok (s, head) →
      s.id = session ∧ DeliveriesApart s := by
    intro s head hl
    obtain ⟨hs, hid⟩ := SessionLoaded.of_load h.represents hl
    exact ⟨hid, h.apart _ s hs.state⟩
  obtain ⟨hsession, s, head, hl, hrun, hnot, hattempted, hapart⟩ := claimHook_ok hload hc
  obtain ⟨hs, hid⟩ := SessionLoaded.of_load h.represents hl
  have hsame : t.id = s.id := by
    obtain ⟨u, g, frames, hl', -, hap⟩ := HostCall.plan hrun
    cases hl.symm.trans hl'
    exact applyAll_id hap
  have hstep : HostStep (fun _ _ => True) c.db none (some t) db' :=
    .call hrun rfl fun _ _ _ => trivial
  have hget : (c.world.setSession t).sessions hook.key.1 = some t := by
    rw [show hook.key.1 = t.id from hsession.trans (hid.symm.trans hsame.symm)]
    exact World.setSession_get c.world t
  refine ⟨(HostRun.step .refl hstep).represents h.represents, fun id u hu => ?_, ?_,
    ⟨t, hget, hattempted⟩, ?_⟩
  · by_cases he : id = t.id
    · subst he
      rw [World.setSession_get] at hu
      cases hu
      exact hapart
    · exact h.apart id u ((Function.update_of_ne he ..).symm.trans hu)
  · rintro ⟨u, hu, htaken⟩
    have hu' : c.world.sessions hook.payload.session = some u := hu
    rw [hsession, ← hid, hs.state] at hu'
    cases hu'
    exact hnot htaken
  · rintro key ⟨u, hu, htaken⟩
    obtain ⟨v, hv, hkept⟩ := hstep.taken h.represents hu
    exact ⟨v, hv, hkept _ htaken⟩

/-- **Every step is one of the ledger.** -/
theorem DeliveryStep.refines (hs : DeliveryStep c c') (h : c.Orderly) :
    c'.Orderly ∧ Claims.Step c.ledger c'.ledger := by
  cases hs with
  | host hs =>
    obtain ⟨hr, hapart, htaken⟩ := h.host hs
    exact ⟨⟨hr, hapart⟩, .others htaken⟩
  | arm harm hclaims =>
    obtain ⟨hr, hapart, htaken⟩ := h.host (armHook_step harm hclaims)
    exact ⟨⟨hr, hapart⟩, .others htaken⟩
  | claim hclaim =>
    obtain ⟨hr, hapart, hnew, hk, htaken⟩ := claimHook_takes h hclaim
    exact ⟨⟨hr, hapart⟩, .take hnew hk htaken⟩
  | @start before after hook hclaimed =>
    refine ⟨⟨h.represents, h.apart⟩, ?_⟩
    have hheld : c.ledger.held = before.map Hook.key ++ hook.key :: after.map Hook.key := by
      show c.claimed.map Hook.key = _
      rw [hclaimed, List.map_append, List.map_cons]
    have hstep := Claims.Step.start hheld
    rw [← List.map_append] at hstep
    exact hstep
  | finish _ hfinish hclaims =>
    obtain ⟨hr, hapart, htaken⟩ := h.host (finishHook_step hfinish hclaims)
    exact ⟨⟨hr, hapart⟩, .others htaken⟩
  | stop hclaimed => exact ⟨⟨h.represents, h.apart⟩, .stop (hclaimed.map Hook.key)⟩

theorem Delivering.Orderly.init : Delivering.init.Orderly :=
  ⟨represents_empty, fun _ _ h => nomatch h⟩

theorem DeliveryRun.refines (hr : DeliveryRun c c') (h : c.Orderly) :
    c'.Orderly ∧ Claims.Run c.ledger c'.ledger := by
  induction hr with
  | refl => exact ⟨h, .refl⟩
  | tail _ hs ih =>
    obtain ⟨horderly, hstep⟩ := hs.refines ih.1
    exact ⟨horderly, ih.2.tail hstep⟩

/-- **The hook of a request is started at most once**, whatever the deliverers, the host and its
crashes do; and a delivery that was claimed is never started again when its claimant is gone. -/
theorem hook_once (h : DeliveryRun Delivering.init c) : c.started.Nodup ∧
    ∀ c', DeliveryRun c c' → ∀ session s request, c.world.sessions session = some s →
      Attempted s request → (session, request) ∉ c.claimed.map Hook.key →
      ∃ more, c'.started = more ++ c.started ∧ (session, request) ∉ more := by
  obtain ⟨horderly, hrun⟩ := DeliveryRun.refines h .init
  have hsound : Claims.Sound c.ledger :=
    Claims.Sound.run (l := Delivering.init.ledger) ⟨List.nodup_nil, fun _ h => (nomatch h)⟩ hrun
  refine ⟨hsound.started_nodup, fun c' hr session s request hs ha hheld => ?_⟩
  exact Claims.spent (show (session, request) ∈ c.ledger.taken from ⟨s, hs, ha⟩) hheld
    (DeliveryRun.refines hr horderly).2

end

/-! ## a hook that runs -/

namespace Sample

def armed : SessionState := after opened (firstRequest.named "completion-hook-armed")
  (.completionHook (.armed firstRequest "notify"))

def armedAsked : SessionState :=
  after armed firstRequest (.input .task [userItem contract.request])

def armedLinked : SessionState :=
  after armedAsked (firstRequest.named "task-link") (.taskLinked firstRequest taskId)

def turnId : Uuid := ⟨23⟩

def turnOver : SessionState := after armedLinked turnId (.turnSettled firstRequest none none)

/-- the task gives up -/
def stopped : TaskState := begun.apply (.stopped .blocked "no build")

def payload : CompletionPayload :=
  ⟨1, deliveryId sessionId firstRequest, sessionId, firstRequest, taskId, .blocked⟩

def hook : Hook := ⟨"notify", "/workspace", payload⟩

def hookClaimed : SessionState :=
  after turnOver (claimOperation sessionId firstRequest) (.completionHook (.claimed payload))

variable {db : Db} {w : World} {s : SessionState}

theorem after_accepted {operation : Uuid} {c : SessionCommand ContextView}
    (h : (s.apply operation c).isOk = true) : s.apply operation c = .ok (after s operation c) := by
  unfold after
  cases he : s.apply operation c with
  | ok t => rfl
  | error e =>
    rw [he] at h
    cases h

theorem claim_new : claimOperation sessionId firstRequest ∉ opened.operations ∧
    firstRequest.named "completion-hook-armed" ≠ claimOperation sessionId firstRequest ∧
    claimOperation sessionId firstRequest ∉
      (HostCall.startTask sessionId firstRequest contract taskId).ids ∧
    claimOperation sessionId firstRequest ∉ (HostCall.command sessionId armedLinked.revision turnId
      (.turnSettled firstRequest none none)).ids ∧
    turnOver.operations[claimOperation sessionId firstRequest]? = none ∧
    (turnOver.apply (claimOperation sessionId firstRequest)
      (.completionHook (.claimed payload))).isOk = true := by decide +kernel

theorem sessions_hold : firstRequest ∉ opened.completionDeliveries ∧
    firstRequest ∉ opened.tasksByRequest ∧
    armed.tasksByRequest[firstRequest]? = none ∧
    armedLinked.operations[turnId]? = none ∧
    armedLinked.activeRequest = some firstRequest ∧
    turnOver.activeRequest = none ∧
    turnOver.tasksByRequest[firstRequest]? = some taskId ∧
    turnOver.completionDeliveries.toList =
      [(firstRequest, ⟨deliveryId sessionId firstRequest, "notify", .pending⟩)] ∧
    turnOver.workspace = "/workspace" ∧
    hookClaimed.id = sessionId ∧
    hookClaimed.completionDeliveries[firstRequest]? =
      some ⟨deliveryId sessionId firstRequest, "notify", .attempted payload interrupted⟩ := by
  decide +kernel

theorem armed_only (hs : s.completionDeliveries = armed.completionDeliveries) {request : Uuid}
    (hr : request ∈ s.completionDeliveries) : request = firstRequest := by
  rw [hs] at hr
  have hr : request ∈ (∅ : BTreeMap Uuid CompletionDelivery).insert firstRequest
      ⟨deliveryId sessionId firstRequest, "notify", .pending⟩ := hr
  rw [Std.ExtTreeMap.mem_insert] at hr
  rcases hr with he | hr
  · exact (Std.LawfulEqOrd.compare_eq_iff_eq.mp he).symm
  · exact absurd hr Std.ExtTreeMap.not_mem_empty

theorem claims_apart (hid : s.id = sessionId) (hs : s.completionDeliveries = armed.completionDeliveries)
    {call : HostCall} (hids : claimOperation sessionId firstRequest ∉ call.ids)
    (harms : ∀ session revision operation request command,
      call ≠ .command session revision operation (.completionHook (.armed request command))) :
    ClaimsApart s call where
  records operation ho request hr he := by
    rw [armed_only hs hr, hid] at he
    exact hids (he ▸ ho)
  arms session revision operation request command he := absurd he (harms _ _ _ _ _)

theorem opened_none (request : Uuid) : request ∉ opened.completionDeliveries :=
  Std.ExtTreeMap.not_mem_empty

theorem opened_apart (command : String) :
    ClaimsApart opened (.command sessionId opened.revision
      (firstRequest.named "completion-hook-armed") (.completionHook (.armed firstRequest command))) where
  records operation _ request hr := absurd hr (opened_none request)
  arms session revision operation request command he := by
    cases he
    exact ⟨claim_new.1, claim_new.2.1, fun other ho => (opened_none other ho).elim⟩

theorem arms (h : Represents db w) (hs : w.sessions sessionId = some opened) :
    ∃ db', armHook env (some "notify") sessionId firstRequest db = .ok (some armed, db') ∧
      db'.tasks = db.tasks ∧ db'.sessions.map Prod.fst = db.sessions.map Prod.fst := by
  obtain ⟨head, hload⟩ := h.loadSession hs
  obtain ⟨db', hc, htasks, hkeys⟩ := issues h hs
    (show opened.apply (firstRequest.named "completion-hook-armed")
      (.completionHook (.armed firstRequest "notify")) = .ok armed from rfl)
    (by decide) trivial rfl rfl rfl
  refine ⟨db', ?_, htasks, hkeys⟩
  rw [armHook, hload, ok_bind]
  simp only
  rw [if_neg (not_or.mpr ⟨sessions_hold.1, sessions_hold.2.1⟩), hc, ok_bind]

theorem claims (h : Represents db w) (hs : w.sessions sessionId = some turnOver)
    (ht : w.tasks taskId = some stopped) :
    ∃ db', claimHook env sessionId db = .ok (some (hook, hookClaimed), db') := by
  obtain ⟨head, hload⟩ := h.loadSession hs
  obtain ⟨thead, htload⟩ := h.loadState ht
  obtain ⟨-, -, -, -, hnew, haccepted⟩ := claim_new
  obtain ⟨-, -, -, -, -, hidle, htask, hlist, hworkspace, -⟩ := sessions_hold
  obtain ⟨db', hc, -⟩ := issues h hs
    (show turnOver.apply (claimOperation sessionId firstRequest)
      (.completionHook (.claimed payload)) = .ok hookClaimed from after_accepted haccepted)
    (by decide) trivial hnew rfl rfl
  refine ⟨db', ?_⟩
  have hclaimable : claimable turnOver sessionId db turnOver.completionDeliveries.toList =
      .ok (some (⟨deliveryId sessionId firstRequest, "notify", .pending⟩, payload)) := by
    have hpending : ¬ (DeliveryState.pending ≠ .pending ∨ turnOver.activeRequest = some firstRequest) := by
      rw [hidle]
      decide
    rw [hlist, claimable, if_neg hpending, htask]
    simp only
    rw [htload, ok_bind]
    rfl
  rw [claimHook, hload, ok_bind]
  simp only
  rw [hclaimable, ok_bind]
  show (sessionCommand env sessionId turnOver.revision (claimOperation sessionId firstRequest)
    (.completionHook (.claimed payload)) db >>= _) = _
  rw [hc, ok_bind]
  simp only
  rw [hworkspace]
  rfl

def Idle (c : Delivering) : Prop :=
  DeliveryRun Delivering.init c ∧ c.claimed = [] ∧ c.started = []

theorem Idle.represents {c : Delivering} (h : Idle c) : Represents c.db c.world :=
  (DeliveryRun.refines h.1 .init).1.represents

theorem Idle.call {c : Delivering} (h : Idle c) (hs : c.world.sessions sessionId = some s)
    (hid : s.id = sessionId) (hds : s.completionDeliveries = armed.completionDeliveries)
    {call : HostCall} {e : Env} {task : Option TaskState} {t : SessionState} {db : Db}
    (hsession : call.session = sessionId) (hdirect : call.direct = true)
    (hids : claimOperation sessionId firstRequest ∉ call.ids)
    (harms : ∀ session revision operation request command,
      call ≠ .command session revision operation (.completionHook (.armed request command)))
    (hc : call.run e c.db = .ok (task, t, db)) :
    Idle { c with db := db, world := c.world.write task (some t) } :=
  ⟨h.1.tail (.host (.call hc hdirect (admitted h.represents hs hsession
    (claims_apart hid hds hids harms)))), h.2⟩

theorem idle_armed : ∃ c, Idle c ∧ c.world.sessions sessionId = some armed ∧ c.db.tasks = [] := by
  obtain ⟨db, hopen, htasks, -, -⟩ := opens
  have hs := World.setSession_get World.empty opened
  have hrun : DeliveryRun Delivering.init ⟨db, World.empty.setSession opened, [], [], []⟩ :=
    .single (.host (.create hopen))
  have hr := (DeliveryRun.refines hrun .init).1.represents
  obtain ⟨db', harm, htasks', -⟩ := arms hr hs
  refine ⟨_, ⟨hrun.tail (DeliveryStep.arm harm fun t head command hl => ?_), rfl, rfl⟩,
    World.setSession_get (World.empty.setSession opened) armed, htasks'.trans htasks⟩
  obtain ⟨ht, hid⟩ := SessionLoaded.of_load hr hl
  have hstate := ht.state
  rw [hid] at hstate
  cases hs.symm.trans hstate
  exact opened_apart command

theorem idle_linked : ∃ c, Idle c ∧ c.world.sessions sessionId = some armedLinked ∧
    c.world.tasks taskId = some begun := by
  obtain ⟨c, h, hs, htasks⟩ := idle_armed
  obtain ⟨-, -, hstartNew, -⟩ := claim_new
  obtain ⟨-, -, hfree, -⟩ := sessions_hold
  obtain ⟨db, hstart, -⟩ := startsAt h.represents hs htasks hfree rfl
    (show armed.apply firstRequest (.input .task [userItem contract.request]) = .ok armedAsked from rfl)
    (show armedAsked.apply (firstRequest.named "task-link") (.taskLinked firstRequest taskId) =
      .ok armedLinked from rfl) (by decide)
  have hcall : (HostCall.startTask sessionId firstRequest contract taskId).run env c.db =
      .ok (some begun, armedLinked, db) := by
    rw [HostCall.run, hstart, ok_bind]
  exact ⟨_, h.call hs rfl rfl rfl rfl hstartNew (by intro _ _ _ _ _ he; cases he) hcall,
    World.setSession_get _ armedLinked, World.setTask_get c.world begun⟩

theorem idle_over : ∃ c, Idle c ∧ c.world.sessions sessionId = some turnOver ∧
    c.world.tasks taskId = some stopped := by
  obtain ⟨c, h, hs, ht⟩ := idle_linked
  obtain ⟨-, -, -, hturnNew, -⟩ := claim_new
  obtain ⟨-, -, -, hfree, hactive, -⟩ := sessions_hold
  have hanswers : (SessionCommand.turnSettled (V := ContextView) firstRequest none none).answers.any
      (fun request => armedLinked.activeRequest != some request) = false := by
    rw [hactive]
    decide
  have hchange : ∃ db, change env taskId (some 1) false
      (fun _ => .ok (.stopped .blocked "no build", c.db.leases)) c.db = .ok (stopped, db) ∧ _ :=
    h.represents.changes ht rfl (by decide) rfl (fits _ _ (by decide))
  obtain ⟨db, hchange, -⟩ := hchange
  have hstop : stop env taskId 1 .blocked "no build" c.db = .ok (stopped, db) := by
    rw [stop, refuseIf_of_not _ (by decide), ok_bind, refuseIf_of_not _ (by decide +kernel), ok_bind,
      hchange]
  have h₁ : Idle { c with db := db, world := c.world.write (some stopped) none } :=
    ⟨h.1.tail (.host (.task (.stop hstop))), h.2⟩
  have hs₁ : (c.world.write (some stopped) none).sessions sessionId = some armedLinked := by
    rw [World.write_task_sessions]
    exact hs
  obtain ⟨db', hc, -⟩ := issues h₁.represents hs₁
    (show armedLinked.apply turnId (.turnSettled firstRequest none none) = .ok turnOver from rfl)
    (by decide) trivial hfree hanswers rfl
  have hcall : (HostCall.command sessionId armedLinked.revision turnId
      (.turnSettled firstRequest none none)).run env db = .ok (none, turnOver, db') := by
    rw [HostCall.run, hc, ok_bind]
  exact ⟨_, h₁.call hs₁ rfl rfl rfl rfl hturnNew (by intro _ _ _ _ _ he; cases he) hcall,
    World.setSession_get _ turnOver, World.setTask_get c.world stopped⟩

theorem delivers : ∃ c, DeliveryRun Delivering.init c ∧ c.claimed = [] ∧
    c.world.sessions sessionId = some hookClaimed ∧ c.started = [(sessionId, firstRequest)] := by
  obtain ⟨c, ⟨hrun, hclaimed, hstarted⟩, hs, ht⟩ := idle_over
  obtain ⟨-, -, -, -, -, -, -, -, -, hid, -⟩ := sessions_hold
  obtain ⟨db, hclaim⟩ := claims (DeliveryRun.refines hrun .init).1.represents hs ht
  have hheld : hook :: c.claimed = [] ++ hook :: [] := by rw [hclaimed]; rfl
  have hget := World.setSession_get c.world hookClaimed
  rw [hid] at hget
  refine ⟨_, (hrun.tail (.claim hclaim)).tail (.start hheld), rfl, hget, ?_⟩
  show hook.key :: c.started = _
  rw [hstarted]
  rfl

end Sample

open Sample in
theorem hook_once_claimed : ∃ c, DeliveryRun Delivering.init c ∧
    c.started = [(sessionId, firstRequest)] ∧ c.started.Nodup ∧
    ∀ c', DeliveryRun c c' → ∃ more, c'.started = more ++ [(sessionId, firstRequest)] ∧
      (sessionId, firstRequest) ∉ more := by
  obtain ⟨c, hrun, hclaimed, hs, hstarted⟩ := delivers
  obtain ⟨hnodup, hspent⟩ := hook_once hrun
  obtain ⟨-, -, -, -, -, -, -, -, -, -, hstate⟩ := sessions_hold
  refine ⟨c, hrun, hstarted, hnodup, fun c' hr => ?_⟩
  have hattempted : Attempted hookClaimed firstRequest :=
    ⟨⟨deliveryId sessionId firstRequest, "notify", .attempted payload interrupted⟩,
      hstate, fun he => (nomatch he)⟩
  rw [← hstarted]
  exact hspent c' hr sessionId hookClaimed firstRequest hs hattempted (by rw [hclaimed]; decide)

end Orvek
