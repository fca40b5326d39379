import Orvek.Lib.Tally
import Orvek.Store.Runs

/-!
# The accounts of a task

A task adds up what its model calls cost: one call for every reservation, the tokens of a receipt
once they are known, and the charges of other work.  Receipts come late, twice, or without a price
that a later one fills in.  The totals are kept up to date and never computed anew:

* `Balanced`        the totals are the saturating sums over the three ledgers of the task;
* `Accrues`         the totals grow, and nothing that was known leaves a ledger;
* `Booked`          a reservation, a charge or a receipt that is accepted is in its ledger;
* `Appends.balanced`, `Appends.accrues`   one event;
* `usage_exact`     every state of every run, and every retry.
-/

set_option linter.unusedSectionVars false

namespace Orvek
open Checks Completion Tally

/-- the tokens that a receipt accounts for; an unknown amount counts when it is reconciled -/
def ModelCallReceipt.counted (receipt : ModelCallReceipt) : Nat := receipt.tokens.getD 0

def TaskState.callsMade (s : TaskState) : Nat :=
  s.modelReservations.size + total Usage.modelCalls s.usageReceipts

def TaskState.tokensSpent (s : TaskState) : Nat :=
  total ModelCallReceipt.counted s.modelReceipts + total Usage.tokens s.usageReceipts

/-- the totals are the sums over the ledgers, and no operation is in two of them -/
structure Balanced (s : TaskState) : Prop where
  calls : s.usage.modelCalls = min s.callsMade u32Max
  tokens : s.usage.tokens = min s.tokensSpent u64Max
  reserved : ∀ (operation : Uuid) (receipt : ModelCallReceipt),
    s.modelReceipts[operation]? = some receipt → operation ∈ s.modelReservations
  apart : ∀ operation ∈ s.modelReservations, s.usageReceipts[operation]? = none

/-- the accounts later on -/
structure Accrues (s t : TaskState) : Prop where
  calls : s.usage.modelCalls ≤ t.usage.modelCalls
  tokens : s.usage.tokens ≤ t.usage.tokens
  reservations : ∀ operation ∈ s.modelReservations, operation ∈ t.modelReservations
  receipts : ∀ (operation : Uuid) (tokens : Nat),
    (s.modelReceipts[operation]?).bind (·.tokens) = some tokens →
      (t.modelReceipts[operation]?).bind (·.tokens) = some tokens
  charges : ∀ (operation : Uuid) (usage : Usage), s.usageReceipts[operation]? = some usage →
    t.usageReceipts[operation]? = some usage

theorem Accrues.refl (s : TaskState) : Accrues s s :=
  ⟨Nat.le_refl _, Nat.le_refl _, fun _ h => h, fun _ _ h => h, fun _ _ h => h⟩

theorem Accrues.trans {s t u : TaskState} (h : Accrues s t) (h' : Accrues t u) : Accrues s u :=
  ⟨Nat.le_trans h.calls h'.calls, Nat.le_trans h.tokens h'.tokens,
    fun k hk => h'.reservations k (h.reservations k hk),
    fun k n hk => h'.receipts k n (h.receipts k n hk), fun k c hk => h'.charges k c (h.charges k c hk)⟩

section
variable [Sha256] [ContractCodec] [SessionCodec] [StoreCodec] [JsonReader]
variable {s : TaskState} {draws : TaskState → Uuid → Prop}
variable {e : TaskEvent} {s' : TaskState}

/-- the parts of a task that the accounts are about -/
structure SameAccounts (s t : TaskState) : Prop where
  usage : t.usage = s.usage
  reservations : t.modelReservations = s.modelReservations
  receipts : t.modelReceipts = s.modelReceipts
  charges : t.usageReceipts = s.usageReceipts

attribute [grind =] TaskState.callsMade TaskState.tokensSpent

theorem SameAccounts.balanced {t : TaskState} (h : SameAccounts s t) (hs : Balanced s) : Balanced t := by
  obtain ⟨hu, hr, hm, hc⟩ := h
  have hcalls : t.callsMade = s.callsMade := by rw [TaskState.callsMade, hr, hc, TaskState.callsMade]
  have htokens : t.tokensSpent = s.tokensSpent := by
    rw [TaskState.tokensSpent, hm, hc, TaskState.tokensSpent]
  refine ⟨?_, ?_, ?_, ?_⟩
  · rw [hu, hcalls, hs.calls]
  · rw [hu, htokens, hs.tokens]
  · rw [hm, hr]
    exact hs.reserved
  · rw [hr, hc]
    exact hs.apart

theorem SameAccounts.accrues {t : TaskState} (h : SameAccounts s t) : Accrues s t := by
  obtain ⟨hu, hr, hm, hc⟩ := h
  refine ⟨Nat.le_of_eq (by rw [hu]), Nat.le_of_eq (by rw [hu]), ?_, ?_, ?_⟩
  · rw [hr]
    exact fun _ h => h
  · rw [hm]
    exact fun _ _ h => h
  · rw [hc]
    exact fun _ _ h => h

/-! ## one event -/

def TaskEvent.accounts : TaskEvent → Bool
  | .modelCallReserved _ => true
  | .modelCallRecorded .. => true
  | .usageCharged .. => true
  | _ => false

theorem apply_sameAccounts (h : e.accounts = false) : SameAccounts s (s.apply e) := by
  cases e with
  | modelCallReserved operation => cases h
  | modelCallRecorded operation receipt => cases h
  | usageCharged operation usage => cases h
  | _ => exact ⟨rfl, rfl, rfl, rfl⟩

theorem Appends.of_accounts (h : Appends draws s e) (he : e.accounts = true) : Allowed draws s e := by
  cases h with
  | allowed h => exact h
  | adopted candidate origin => cases he
  | recorded request status => cases he
  | blocked reason => cases he

section
variable (s) (operation : Uuid) (receipt : ModelCallReceipt) (usage : Usage)

theorem recorded_usage :
    (s.apply (.modelCallRecorded operation receipt)).usage.modelCalls = s.usage.modelCalls ∧
    (s.apply (.modelCallRecorded operation receipt)).usage.tokens = satAdd64 s.usage.tokens
      (receipt.counted - ((s.modelReceipts[operation]?).bind (·.tokens)).getD 0) := by
  simp only [TaskState.apply, TaskState.update]
  split <;> exact ⟨rfl, rfl⟩

theorem recorded_ledgers :
    (s.apply (.modelCallRecorded operation receipt)).modelReservations = s.modelReservations ∧
    (s.apply (.modelCallRecorded operation receipt)).modelReceipts =
      s.modelReceipts.insert operation receipt ∧
    (s.apply (.modelCallRecorded operation receipt)).usageReceipts = s.usageReceipts := by
  simp only [TaskState.apply, TaskState.update]
  split <;> exact ⟨rfl, rfl, rfl⟩

theorem charged_usage :
    (s.apply (.usageCharged operation usage)).usage.modelCalls =
      satAdd32 s.usage.modelCalls usage.modelCalls ∧
    (s.apply (.usageCharged operation usage)).usage.tokens =
      satAdd64 s.usage.tokens usage.tokens := by
  simp only [TaskState.apply, TaskState.update]
  split <;> exact ⟨rfl, rfl⟩

theorem charged_ledgers :
    (s.apply (.usageCharged operation usage)).modelReservations = s.modelReservations ∧
    (s.apply (.usageCharged operation usage)).modelReceipts = s.modelReceipts ∧
    (s.apply (.usageCharged operation usage)).usageReceipts = s.usageReceipts.insert operation usage := by
  simp only [TaskState.apply, TaskState.update]
  split <;> exact ⟨rfl, rfl, rfl⟩

end

section
variable {operation : Uuid} {receipt : ModelCallReceipt} {usage : Usage}

/-- a receipt adds what it makes known -/
theorem counted_balance (h : ∀ tokens, (s.modelReceipts[operation]?).bind (·.tokens) = some tokens →
      receipt.tokens = some tokens) :
    total ModelCallReceipt.counted (s.modelReceipts.insert operation receipt) =
      total ModelCallReceipt.counted s.modelReceipts +
        (receipt.counted - ((s.modelReceipts[operation]?).bind (·.tokens)).getD 0) := by
  have hbalance := total_insert ModelCallReceipt.counted s.modelReceipts operation receipt
  cases hold : s.modelReceipts[operation]? with
  | none =>
    rw [hold, Option.map_none, Option.getD_none] at hbalance
    rw [Option.bind_none, Option.getD_none]
    omega
  | some old =>
    rw [hold, Option.map_some, Option.getD_some, ModelCallReceipt.counted] at hbalance
    rw [hold, Option.bind_some] at h
    rw [Option.bind_some]
    -- a price that was known stays, so that the difference is exact
    cases htokens : old.tokens with
    | none =>
      rw [htokens, Option.getD_none] at hbalance
      rw [Option.getD_none]
      omega
    | some tokens =>
      have hsame : receipt.counted = tokens := by rw [ModelCallReceipt.counted, h tokens htokens]; rfl
      rw [htokens, Option.getD_some] at hbalance
      rw [Option.getD_some]
      omega

theorem Balanced.reserve (h : Balanced s) (hnew : operation ∉ s.modelReservations)
    (hfree : s.usageReceipts[operation]? = none) : Balanced (s.apply (.modelCallReserved operation)) := by
  have hsize : (s.modelReservations.insert operation).size = s.modelReservations.size + 1 := by
    rw [Std.ExtTreeSet.size_insert, if_neg (by rwa [Std.ExtTreeSet.contains_iff_mem])]
  refine ⟨?_, h.tokens, ?_, ?_⟩
  · show satAdd32 s.usage.modelCalls 1 = min ((s.modelReservations.insert operation).size +
      total Usage.modelCalls s.usageReceipts) u32Max
    have hcalls := h.calls
    rw [TaskState.callsMade] at hcalls
    rw [satAdd32, hsize, hcalls]
    omega
  · intro k receipt hk
    exact Std.ExtTreeSet.mem_insert.mpr (.inr (h.reserved k receipt hk))
  · intro k hk
    rcases Std.ExtTreeSet.mem_insert.mp hk with he | hk
    · rw [Std.LawfulEqOrd.compare_eq_iff_eq] at he
      rw [← he]
      exact hfree
    · exact h.apart k hk

theorem Balanced.receive (h : Balanced s) (hres : operation ∈ s.modelReservations)
    (hkeep : ∀ tokens, (s.modelReceipts[operation]?).bind (·.tokens) = some tokens →
      receipt.tokens = some tokens) : Balanced (s.apply (.modelCallRecorded operation receipt)) := by
  obtain ⟨hr, hm, hc⟩ := recorded_ledgers s operation receipt
  refine ⟨?_, ?_, ?_, ?_⟩
  · rw [(recorded_usage s operation receipt).1, TaskState.callsMade, hr, hc]
    exact h.calls
  · rw [(recorded_usage s operation receipt).2, TaskState.tokensSpent, hm, hc,
      counted_balance hkeep]
    have htokens := h.tokens
    rw [TaskState.tokensSpent] at htokens
    rw [satAdd64, htokens]
    omega
  · rw [hm, hr]
    intro k old hk
    rw [Std.ExtTreeMap.getElem?_insert] at hk
    split at hk
    · rename_i he
      rw [Std.LawfulEqOrd.compare_eq_iff_eq] at he
      rwa [← he]
    · exact h.reserved k old hk
  · rw [hr, hc]
    exact h.apart

theorem Balanced.charge (h : Balanced s) (hnew : s.usageReceipts[operation]? = none)
    (hfree : operation ∉ s.modelReservations) : Balanced (s.apply (.usageCharged operation usage)) := by
  obtain ⟨hr, hm, hc⟩ := charged_ledgers s operation usage
  refine ⟨?_, ?_, ?_, ?_⟩
  · have hcalls := h.calls
    rw [TaskState.callsMade] at hcalls
    rw [(charged_usage s operation usage).1, TaskState.callsMade, hr, hc, total_insert_new _ _ hnew,
      satAdd32, hcalls]
    omega
  · have htokens := h.tokens
    rw [TaskState.tokensSpent] at htokens
    rw [(charged_usage s operation usage).2, TaskState.tokensSpent, hm, hc, total_insert_new _ _ hnew,
      satAdd64, htokens]
    omega
  · rw [hm, hr]
    exact h.reserved
  · rw [hr, hc]
    intro k hk
    rw [Std.ExtTreeMap.getElem?_insert, if_neg]
    · exact h.apart k hk
    · rw [Std.LawfulEqOrd.compare_eq_iff_eq]
      rintro rfl
      exact hfree hk

end

/-- **Every event keeps the accounts balanced.** -/
theorem Appends.balanced (he : Appends draws s e) (h : Balanced s) : Balanced (s.apply e) := by
  by_cases haccounts : e.accounts = true
  · have hallowed := he.of_accounts haccounts
    cases e with
    | modelCallReserved operation => exact h.reserve hallowed.2.1 hallowed.2.2
    | modelCallRecorded operation receipt => exact h.receive hallowed.1 hallowed.2.2
    | usageCharged operation usage => exact h.charge hallowed.1 hallowed.2
    | _ => cases haccounts
  · exact (apply_sameAccounts (by simpa using haccounts)).balanced h

/-- **Every event only adds to the accounts.** -/
theorem Appends.accrues (he : Appends draws s e) (h : Balanced s) : Accrues s (s.apply e) := by
  have hcalls := h.calls
  have htokens := h.tokens
  by_cases haccounts : e.accounts = true
  · have hallowed := he.of_accounts haccounts
    cases e with
    | modelCallReserved operation =>
      refine ⟨?_, Nat.le_refl _, fun k hk => Std.ExtTreeSet.mem_insert.mpr (.inr hk), fun _ _ h => h,
        fun _ _ h => h⟩
      show s.usage.modelCalls ≤ satAdd32 s.usage.modelCalls 1
      rw [satAdd32]
      omega
    | modelCallRecorded operation receipt =>
      obtain ⟨hr, hm, hc⟩ := recorded_ledgers s operation receipt
      refine ⟨?_, ?_, ?_, ?_, ?_⟩
      · exact Nat.le_of_eq (recorded_usage s operation receipt).1.symm
      · rw [(recorded_usage s operation receipt).2, satAdd64]
        omega
      · rw [hr]
        exact fun _ h => h
      · rw [hm]
        intro k tokens hk
        rw [Std.ExtTreeMap.getElem?_insert]
        split
        · rename_i heq
          rw [Std.LawfulEqOrd.compare_eq_iff_eq] at heq
          subst heq
          exact hallowed.2.2 tokens hk
        · exact hk
      · rw [hc]
        exact fun _ _ h => h
    | usageCharged operation usage =>
      obtain ⟨hr, hm, hc⟩ := charged_ledgers s operation usage
      refine ⟨?_, ?_, ?_, ?_, ?_⟩
      · rw [(charged_usage s operation usage).1, satAdd32]
        omega
      · rw [(charged_usage s operation usage).2, satAdd64]
        omega
      · rw [hr]
        exact fun _ h => h
      · rw [hm]
        exact fun _ _ h => h
      · rw [hc]
        intro k charge hk
        rw [Std.ExtTreeMap.getElem?_insert, if_neg]
        · exact hk
        · rw [Std.LawfulEqOrd.compare_eq_iff_eq]
          rintro rfl
          rw [hallowed.1] at hk
          cases hk
    | _ => cases haccounts
  · exact (apply_sameAccounts (by simpa using haccounts)).accrues

/-! ## retries -/

/-- what is in the accounts of a task is not counted again -/
structure CountedOnce (db : Db) (id : TaskId) (s : TaskState) : Prop where
  /-- a reservation or a charge that is repeated changes nothing -/
  account : ∀ (env : Env) (operation : Uuid) (usage : Option Usage) (r : TaskState × Db),
    operation ∈ s.modelReservations ∨ operation ∈ s.usageReceipts →
      accountUsage env id operation usage db = .ok r → r = (s, db)
  /-- a receipt that is repeated changes nothing -/
  same : ∀ (env : Env) (operation : Uuid) (receipt : ModelCallReceipt),
    s.modelReceipts[operation]? = some receipt →
      recordModelCall env id operation receipt db = .ok (s, db)
  /-- and another receipt of a call whose price is known leaves the totals as they are -/
  known : ∀ (env : Env) (operation : Uuid) (receipt : ModelCallReceipt) (tokens : Nat)
    (r : TaskState × Db), (s.modelReceipts[operation]?).bind (·.tokens) = some tokens →
      recordModelCall env id operation receipt db = .ok r → r.1.usage = s.usage

variable {db db' : Db} {w w' : World} {env : Env} {id : TaskId} {head : Digest}

theorem accountUsage_again (hl : loadState db id = .ok (s, head)) {operation : Uuid}
    {usage : Option Usage} {r : TaskState × Db}
    (h : operation ∈ s.modelReservations ∨ operation ∈ s.usageReceipts)
    (hc : accountUsage env id operation usage db = .ok r) : r = (s, db) := by
  rw [accountUsage, hl, ok_bind] at hc
  simp only at hc
  split at hc
  · split at hc
    · cases hc
      rfl
    · cases hc
  · rename_i hnone
    have hres : operation ∈ s.modelReservations := by
      refine h.resolve_right fun hmem => ?_
      rw [Std.ExtTreeMap.mem_iff_isSome_getElem?, hnone] at hmem
      cases hmem
    rw [if_pos hres] at hc
    split at hc
    · cases hc
      rfl
    · cases hc

theorem recordModelCall_same (h : Balanced s) (hl : loadState db id = .ok (s, head)) {operation : Uuid}
    {receipt : ModelCallReceipt} (hold : s.modelReceipts[operation]? = some receipt) :
    recordModelCall env id operation receipt db = .ok (s, db) := by
  have hres := h.reserved operation receipt hold
  rw [recordModelCall, hl, ok_bind]
  simp only
  rw [refuseIf_of_not _ (not_not.mpr hres), ok_bind, hold]
  simp

theorem recordModelCall_known (h : Balanced s) (hr : Represents db w) (hl : loadState db id = .ok (s, head))
    {operation : Uuid} {receipt : ModelCallReceipt} {tokens : Nat} {r : TaskState × Db}
    (hold : (s.modelReceipts[operation]?).bind (·.tokens) = some tokens)
    (hc : recordModelCall env id operation receipt db = .ok r) : r.1.usage = s.usage := by
  obtain ⟨previous, hprevious, htokens⟩ := Option.bind_eq_some_iff.mp hold
  rw [recordModelCall, hl, ok_bind] at hc
  obtain ⟨-, hc⟩ := refuseIf_bind hc
  rw [hprevious] at hc
  simp only at hc
  split at hc
  · cases hc
    rfl
  · obtain ⟨_, hrec, hc⟩ := bind_ok hc
    obtain ⟨_, -, hc⟩ := bind_ok hc
    -- the receipt names the price that is known, so that nothing is added
    have hsame : receipt.tokens = some tokens := by
      have hkeep := refuseIf_ok hrec
      simp only [not_or, not_and, not_not] at hkeep
      rw [← hkeep.1 (by rw [htokens]; rfl), htokens]
    obtain ⟨hs, rfl, hhead⟩ := hr.of_loadState hl
    obtain ⟨happ, -⟩ := hr.appendTask hc hs hhead rfl rfl
    obtain ⟨hcalls, hspent⟩ := recorded_usage s operation receipt
    rw [hold, ModelCallReceipt.counted, hsame, Option.getD_some, Nat.sub_self,
      satAdd64, Nat.add_zero, Nat.min_eq_left (h.tokens ▸ Nat.min_le_right _ _)] at hspent
    rw [happ]
    exact (Usage.mk.injEq ..).mpr ⟨hcalls, hspent⟩

theorem Balanced.countedOnce (h : Balanced s) (hr : Represents db w) (hs : w.tasks id = some s) :
    CountedOnce db id s := by
  obtain ⟨head, hl⟩ := hr.loadState hs
  exact ⟨fun _ _ _ _ hmem hc => accountUsage_again hl hmem hc,
    fun _ _ _ hold => recordModelCall_same h hl hold,
    fun _ _ _ _ _ hold hc => recordModelCall_known h hr hl hold hc⟩

/-! ## the ledgers -/

/-- what is accepted is in its ledger afterwards -/
structure Booked (db : Db) (id : TaskId) : Prop where
  reservation : ∀ (env : Env) (operation : Uuid) (s' : TaskState) (db' : Db),
    reserveModelCall env id operation db = .ok (s', db') →
      operation ∈ s'.modelReservations ∧ ∃ head, loadState db' id = .ok (s', head)
  charge : ∀ (env : Env) (operation : Uuid) (usage : Usage) (s' : TaskState) (db' : Db),
    chargeUsage env id operation usage db = .ok (s', db') →
      s'.usageReceipts[operation]? = some usage ∧ ∃ head, loadState db' id = .ok (s', head)
  receipt : ∀ (env : Env) (operation : Uuid) (receipt : ModelCallReceipt) (s' : TaskState) (db' : Db),
    recordModelCall env id operation receipt db = .ok (s', db') →
      s'.modelReceipts[operation]? = some receipt ∧ ∃ head, loadState db' id = .ok (s', head)

theorem appendTaskEvent_loaded (h : Represents db w) (hl : loadState db id = .ok (s, head))
    (happ : appendTaskEvent env s head e db = .ok (s', db')) (he : e.isCreation = false) :
    s' = s.apply e ∧ ∃ head, loadState db' id = .ok (s', head) := by
  obtain ⟨hs, rfl, hhead⟩ := h.of_loadState hl
  obtain ⟨heq, hid, hrep, -⟩ := h.appendTask happ hs hhead rfl he
  exact ⟨heq, hid ▸ hrep.loadState (World.setTask_get w s')⟩

/-- a reservation or a charge that is accepted was there, or is appended -/
theorem accountUsage_booked (h : Represents db w) {operation : Uuid} {usage : Option Usage}
    (hc : accountUsage env id operation usage db = .ok (s', db')) :
    (usage = none → operation ∈ s'.modelReservations) ∧
    (∀ u, usage = some u → s'.usageReceipts[operation]? = some u) ∧
    ∃ head, loadState db' id = .ok (s', head) := by
  obtain ⟨⟨s, head⟩, hl, hc⟩ := bind_ok hc
  simp only at hc
  split at hc
  · rename_i previous hprevious
    split at hc
    · rename_i husage
      cases hc
      refine ⟨fun hnone => ?_, fun u hu => ?_, head, hl⟩
      · cases husage.symm.trans hnone
      · rw [hprevious, ← husage, hu]
    · cases hc
  · split at hc
    · rename_i hres
      split at hc
      · rename_i hnone
        cases hc
        refine ⟨fun _ => hres, fun u hu => ?_, head, hl⟩
        rw [hu] at hnone
        cases hnone
      · cases hc
    · obtain ⟨event, hevent, happ⟩ := bind_ok hc
      cases usage with
      | some u =>
        cases hevent
        obtain ⟨rfl, hload⟩ := appendTaskEvent_loaded h hl happ rfl
        refine ⟨fun hnone => (nomatch hnone), fun v hv => ?_, hload⟩
        cases hv
        rw [(charged_ledgers s operation u).2.2]
        exact Std.ExtTreeMap.getElem?_insert_self
      | none =>
        obtain ⟨-, hevent⟩ := refuseIf_bind hevent
        obtain ⟨-, -, hevent⟩ := bind_ok hevent
        cases hevent
        obtain ⟨rfl, hload⟩ := appendTaskEvent_loaded h hl happ rfl
        exact ⟨fun _ => Std.ExtTreeSet.mem_insert_self, fun u hu => (nomatch hu), hload⟩

theorem recordModelCall_booked (h : Represents db w) {operation : Uuid} {receipt : ModelCallReceipt}
    (hc : recordModelCall env id operation receipt db = .ok (s', db')) :
    s'.modelReceipts[operation]? = some receipt ∧ ∃ head, loadState db' id = .ok (s', head) := by
  obtain ⟨⟨s, head⟩, hl, hc⟩ := bind_ok hc
  have hcommit : ∀ {r}, commitReceipt env s head operation receipt db = .ok r →
      r.1.modelReceipts[operation]? = some receipt ∧ ∃ head, loadState r.2 id = .ok (r.1, head) := by
    intro r hr
    obtain ⟨-, -, happ⟩ := bind_ok hr
    obtain ⟨heq, hload⟩ := appendTaskEvent_loaded h hl happ rfl
    refine ⟨?_, hload⟩
    rw [heq, (recorded_ledgers s operation receipt).2.1]
    exact Std.ExtTreeMap.getElem?_insert_self
  obtain ⟨-, hc⟩ := refuseIf_bind hc
  split at hc
  · exact hcommit hc
  · rename_i previous hprevious
    split at hc
    · rename_i hsame
      cases hc
      exact ⟨hsame ▸ hprevious, head, hl⟩
    · obtain ⟨-, -, hc⟩ := bind_ok hc
      exact hcommit hc

theorem Represents.booked (h : Represents db w) (id : TaskId) : Booked db id where
  reservation := fun _ _ _ _ hc => ⟨(accountUsage_booked h hc).1 rfl, (accountUsage_booked h hc).2.2⟩
  charge := fun _ _ usage _ _ hc =>
    ⟨(accountUsage_booked h hc).2.1 usage rfl, (accountUsage_booked h hc).2.2⟩
  receipt := fun _ _ _ _ _ hc => recordModelCall_booked h hc

/-! ## runs -/

theorem Initial.balanced (h : Initial s) : Balanced s := by
  have hempty : ∀ t : TaskState, t.usage = ⟨0, 0⟩ → t.modelReservations = ∅ → t.modelReceipts = ∅ →
      t.usageReceipts = ∅ → Balanced t := by
    intro t hu hr hm hc
    refine ⟨?_, ?_, ?_, ?_⟩
    · rw [hu, TaskState.callsMade, hr, hc, total_empty, Std.ExtTreeSet.size_empty]
      rfl
    · rw [hu, TaskState.tokensSpent, hm, hc, total_empty, total_empty]
      rfl
    · rw [hm]
      intro k receipt hk
      simp at hk
    · rw [hr]
      intro k hk
      simp at hk
  cases h <;> exact hempty _ rfl rfl rfl rfl

theorem Reachable.balanced (h : Reachable draws db w) (hs : w.tasks id = some s) : Balanced s :=
  h.event_invariant (fun _ hi => hi.balanced) (fun he => he.balanced) hs

theorem Run.accrues (h : Run draws db w db' w') (hr : Represents db w) (hs : w.tasks id = some s)
    (hb : Balanced s) : ∃ t, w'.tasks id = some t ∧ Accrues s t := by
  obtain ⟨t, ht, hrel⟩ := h.task_relation (R := fun s t => Balanced s → Accrues s t ∧ Balanced t)
    (fun s hb => ⟨.refl s, hb⟩)
    (fun h h' hb => ⟨(h hb).1.trans (h' (h hb).2).1, (h' (h hb).2).2⟩)
    (fun he hb => ⟨he.accrues hb, he.balanced hb⟩) hr hs
  exact ⟨t, ht, (hrel hb).1⟩

/-- **The accounts of a task are exact**, in every state that any run of the store reaches: the calls
are the reservations and the charged calls, the tokens are those of the receipts that are known and
the charged ones, both as saturating sums; nothing is counted twice, whatever is accepted is in its
ledger, and no later state has less. -/
theorem usage_exact (h : Reachable draws db w) (hs : w.tasks id = some s) :
    s.usage.modelCalls = min s.callsMade u32Max ∧ s.usage.tokens = min s.tokensSpent u64Max ∧
    (∀ operation ∈ s.modelReservations, s.usageReceipts[operation]? = none) ∧ CountedOnce db id s ∧
    Booked db id ∧
    ∀ (db' : Db) (w' : World), Run draws db w db' w' → ∃ t, w'.tasks id = some t ∧ Accrues s t := by
  have hb := h.balanced hs
  exact ⟨hb.calls, hb.tokens, hb.apart, hb.countedOnce h.represents hs, h.represents.booked id,
    fun _ _ hrun => hrun.accrues h.represents hs hb⟩

end

/-! ## the task of the example, charged beyond its counter -/

namespace Sample

/-- as many calls as the counter holds, charged to the new task -/
def charged : TaskState := begun.apply (.usageCharged ⟨5⟩ ⟨u32Max, 7⟩)

/-- and one call more -/
def overcharged : TaskState := charged.apply (.usageCharged ⟨6⟩ ⟨1, 7⟩)

theorem charges {db : Db} {w : World} (h : Represents db w) {s : TaskState}
    (hs : w.tasks taskId = some s) (operation : Uuid) (usage : Usage)
    (hfree : s.usageReceipts[operation]? = none) (hnew : operation ∉ s.modelReservations)
    (hroom : s.revision + 1 < 2 ^ 63) :
    ∃ db', accountUsage env taskId operation (some usage) db =
      .ok (s.apply (.usageCharged operation usage), db') := by
  obtain ⟨head, hl⟩ := h.loadState hs
  have hid := (h.of_loadState hl).2.1
  obtain ⟨db', happ, -⟩ := h.appends (by rw [hid]; exact hs) head (fits db (.usageCharged operation usage) hroom)
  refine ⟨db', ?_⟩
  rw [accountUsage, hl, ok_bind]
  simp only
  rw [hfree]
  simp only
  rw [if_neg hnew]
  exact happ

theorem reachable_overcharged : ∃ db w, Reachable (fun _ _ => True) db w ∧
    w.tasks taskId = some overcharged := by
  obtain ⟨db, hr, -⟩ := @reachable_begun (fun _ _ => True) _ _ .refl rfl
  obtain ⟨db₁, hone⟩ := charges hr.represents (World.setTask_get _ begun) ⟨5⟩
    ⟨u32Max, 7⟩ rfl (by decide) (by decide)
  have hr₁ := Run.step hr (.accountUsage hone)
  obtain ⟨db₂, htwo⟩ := charges (Reachable.represents hr₁) (World.setTask_get _ charged) ⟨6⟩
    ⟨1, 7⟩ (by decide +kernel) (by decide) (by decide)
  exact ⟨db₂, _, Run.step hr₁ (.accountUsage htwo), World.setTask_get _ overcharged⟩

end Sample

open Sample in
/-- the counter of the calls stands still at its greatest value -/
theorem usage_saturates : ∃ (db : Db) (w : World) (s : TaskState), Reachable (fun _ _ => True) db w ∧
    w.tasks taskId = some s ∧ s.usage.modelCalls ≠ s.callsMade := by
  obtain ⟨db, w, hr, hs⟩ := reachable_overcharged
  exact ⟨db, w, overcharged, hr, hs, by decide +kernel⟩

open Sample in
theorem usage_exact_overcharged : overcharged.usage.modelCalls = min overcharged.callsMade u32Max ∧
    overcharged.usage.tokens = 14 := by
  obtain ⟨db, w, hr, hs⟩ := reachable_overcharged
  obtain ⟨hcalls, htokens, -⟩ := usage_exact hr hs
  exact ⟨hcalls, htokens.trans (by decide +kernel)⟩

end Orvek
