import Orvek.Admission
import Orvek.Store.Amendments

/-!
# Obligations are never weakened

A follow-up of the user adds to the contract of its task.  Two places see to it that it takes nothing
away: the compilation merges the contract in force into every proposal, and the store compares the
two before it accepts the result.

* `Keeps`               every obligation of the one contract is in the other, word for word;
* `Followed`            a run of the store over which a contract changes by accepted follow-ups only;
* `compile_profile`     every check of the profile is in the compiled contract;
* `obligations_kept`    the chain of acceptances of a task, and compilations.
-/

set_option linter.unusedSectionVars false

namespace Orvek
open Checks Workspace

/-- the obligations of `old` are obligations of `new` -/
structure Keeps (old new : Contract) : Prop where
  request : new.request = old.request
  limits : new.limits = old.limits
  delivery : new.delivery = old.delivery
  outcome : old.outcome.toList <+: new.outcome.toList
  scope : old.scope.toList <+: new.scope.toList
  requirements : ∀ r ∈ old.requirements, r ∈ new.requirements
  checks : ∀ (id : String) (check : CheckDefinition), old.checks[id]? = some check →
    new.checks[id]? = some check
  protectedBehavior : ∀ behavior ∈ old.protectedBehavior, behavior ∈ new.protectedBehavior
  assumptions : ∀ assumption ∈ old.assumptions, assumption ∈ new.assumptions

theorem Keeps.refl (c : Contract) : Keeps c c :=
  ⟨rfl, rfl, rfl, List.prefix_refl _, List.prefix_refl _, fun _ h => h, fun _ _ h => h, fun _ h => h,
    fun _ h => h⟩

theorem Keeps.trans {a b c : Contract} (h : Keeps a b) (h' : Keeps b c) : Keeps a c where
  request := h'.request.trans h.request
  limits := h'.limits.trans h.limits
  delivery := h'.delivery.trans h.delivery
  outcome := h.outcome.trans h'.outcome
  scope := h.scope.trans h'.scope
  requirements r hr := h'.requirements r (h.requirements r hr)
  checks id check hc := h'.checks id check (h.checks id check hc)
  protectedBehavior b hb := h'.protectedBehavior b (h.protectedBehavior b hb)
  assumptions a ha := h'.assumptions a (h.assumptions a ha)

theorem preservesObligations_iff {old new : Contract} :
    preservesObligations old new = .ok () ↔ Keeps old new := by
  constructor
  · intro h
    have hnot := refuseIf_ok h
    simp only [not_or, not_not] at hnot
    obtain ⟨hreq, hlim, hdel, hout, hscope, hrs, hchecks, hb, ha⟩ := hnot
    exact ⟨hreq, hlim, hdel, hout, hscope, hrs, fun id check hc =>
      hchecks (id, check) (Std.ExtTreeMap.mem_toList_iff_getElem?_eq_some.mpr hc), hb, ha⟩
  · intro h
    refine refuseIf_of_not _ ?_
    simp only [not_or, not_not]
    exact ⟨h.request, h.limits, h.delivery, h.outcome, h.scope, h.requirements, fun entry he =>
      h.checks entry.1 entry.2 (Std.ExtTreeMap.mem_toList_iff_getElem?_eq_some.mp he),
      h.protectedBehavior, h.assumptions⟩

/-! ## acceptance -/

section
variable [Sha256] [ContractCodec] [SessionCodec] [StoreCodec] [JsonReader]
variable {draws : TaskState → Uuid → Prop} {db db' : Db} {w w' : World} {id : TaskId}
  {first : Contract} {accepted : List Contract}

/-- **A contract that the store accepts is in force, and it keeps the one before it.** -/
theorem accepted_keeps (h : Represents db w) {s s' : TaskState} {old new : Contract}
    (hs : w.tasks id = some s) (hold : s.contract = some old) {env : Env} {revision : Nat}
    {receipt : Digest} (hc : acceptAdditiveContract env id revision new receipt db = .ok (s', db')) :
    Keeps old new ∧ s'.id = id ∧ s'.contract = some new := by
  obtain ⟨-, -, hc⟩ := bind_ok hc
  obtain ⟨t, head, e, leases, hl, hop, -, happ⟩ := change_ok hc
  obtain ⟨ht, hid, -⟩ := h.of_loadState hl
  rw [hs] at ht
  cases ht
  obtain ⟨-, hop⟩ := refuseIf_bind hop
  obtain ⟨_, hfollow, hop⟩ := bind_ok hop
  obtain ⟨-, -, hop⟩ := bind_ok hop
  cases hop
  rw [checkFollowUp, hold] at hfollow
  obtain ⟨rfl, -⟩ := appendTaskEvent_ok happ
  exact ⟨preservesObligations_iff.mp hfollow, hid, rfl⟩

def World.contractOf (w : World) (id : TaskId) : Option Contract := (w.tasks id).bind (·.contract)

/-- a run of the store over which the contract of a task changes by accepted follow-ups only, and the
contracts that were accepted, in their order -/
inductive Followed (draws : TaskState → Uuid → Prop) (id : TaskId) (db : Db) (w : World) :
    Db → World → List Contract → Prop
  | refl : Followed draws id db w db w []
  | accept {db₁ db₂ : Db} {w₁ : World} {accepted : List Contract} {env : Env} {revision : Nat}
      {new : Contract} {receipt : Digest} {s : TaskState} (h : Followed draws id db w db₁ w₁ accepted)
      (hc : acceptAdditiveContract env id revision new receipt db₁ = .ok (s, db₂)) :
      Followed draws id db w db₂ (w₁.write (some s) none) (accepted ++ [new])
  | other {db₁ db₂ : Db} {w₁ : World} {accepted : List Contract} {task : Option TaskState}
      {session : Option SessionState} (h : Followed draws id db w db₁ w₁ accepted)
      (hs : Step draws db₁ task session db₂)
      (hsame : (w₁.write task session).contractOf id = w₁.contractOf id) :
      Followed draws id db w db₂ (w₁.write task session) accepted

theorem Followed.run (h : Followed draws id db w db' w' accepted) : Run draws db w db' w' := by
  induction h with
  | refl => exact .refl
  | accept _ hc ih => exact ih.step (.acceptAdditiveContract hc)
  | other _ hs _ ih => exact ih.step hs

theorem keeps_last {chain : List Contract} (h : chain.Pairwise Keeps) {last : Contract}
    (hlast : chain.getLast? = some last) : ∀ c ∈ chain, Keeps c last := by
  obtain ⟨before, rfl⟩ := List.getLast?_eq_some_iff.mp hlast
  intro c hc
  rcases List.mem_append.mp hc with hc | hc
  · exact (List.pairwise_append.mp h).2.2 c hc last (List.mem_singleton.mpr rfl)
  · rw [List.mem_singleton.mp hc]
    exact .refl last

/-- **Every contract of the chain is in every later one, and the last one is in force.** -/
theorem Followed.chain (hr : Represents db w) (hfirst : w.contractOf id = some first)
    (h : Followed draws id db w db' w' accepted) :
    (first :: accepted).Pairwise Keeps ∧ w'.contractOf id = (first :: accepted).getLast? := by
  induction h with
  | refl => exact ⟨List.pairwise_singleton _ _, hfirst⟩
  | other _ hs hsame ih => exact ⟨ih.1, hsame.trans ih.2⟩
  | @accept db₁ db₂ w₁ accepted env revision new receipt s h hc ih =>
    obtain ⟨hchain, hforce⟩ := ih
    obtain ⟨old, hold⟩ : ∃ old, (first :: accepted).getLast? = some old :=
      Option.isSome_iff_exists.mp (by simp)
    obtain ⟨t, ht, hcontract⟩ := Option.bind_eq_some_iff.mp (hforce.trans hold)
    obtain ⟨hkeeps, rfl, hnew⟩ := accepted_keeps (h.run.represents hr) ht hcontract hc
    rw [← List.cons_append]
    refine ⟨List.pairwise_append.mpr ⟨hchain, List.pairwise_singleton _ _, fun c hc x hx => ?_⟩, ?_⟩
    · rw [List.mem_singleton.mp hx]
      exact (keeps_last hchain hold c hc).trans hkeeps
    · rw [List.getLast?_concat, World.contractOf]
      exact (congrArg (Option.bind · _) (World.setTask_get w₁ s)).trans hnew

end

/-! ## compilation -/

section
variable [Sha256] [ContractCodec] [SessionCodec] [StoreCodec] [JsonReader] [AdmissionCodec]
variable {task : TaskState} {result : CompiledContract}

theorem profilePrefix_inj {a b : String} (h : profilePrefix ++ a = profilePrefix ++ b) : a = b := by
  have hlist := congrArg String.toList h
  rw [String.toList_append, String.toList_append] at hlist
  exact String.toList_inj.mp (List.append_cancel_left hlist)

theorem addProfile_ok {profile : RepositoryProfile} {d d' : Draft} {entry : String × ProposedCheck}
    (h : addProfile profile d entry = .ok d') :
    d'.checks = d.checks.insert (profilePrefix ++ entry.1)
      (checkDefinition (profilePrefix ++ entry.1) entry.2) := by
  obtain ⟨⟨check, assumptions⟩, hdef, h⟩ := bind_ok h
  obtain ⟨_, -, hdef⟩ := bind_ok hdef
  cases hdef
  cases h
  rfl

/-- the loop over the profile inserts every check once, since the identifiers differ -/
theorem addProfile_all {profile : RepositoryProfile} {entries : List (String × ProposedCheck)}
    (hnodup : (entries.map Prod.fst).Nodup) {d d' : Draft}
    (h : entries.foldlM (addProfile profile) d = .ok d') :
    (∀ entry ∈ entries, d'.checks[profilePrefix ++ entry.1]? =
      some (checkDefinition (profilePrefix ++ entry.1) entry.2)) ∧
    ∀ id, id ∉ entries.map Prod.fst →
      d'.checks[profilePrefix ++ id]? = d.checks[profilePrefix ++ id]? := by
  induction entries generalizing d with
  | nil =>
    cases h
    exact ⟨fun _ he => (nomatch he), fun _ _ => rfl⟩
  | cons entry entries ih =>
    obtain ⟨hfresh, hrest⟩ := List.nodup_cons.mp hnodup
    obtain ⟨d₁, hone, h⟩ := bind_ok h
    obtain ⟨hin, hout⟩ := ih hrest h
    have hchecks := addProfile_ok hone
    refine ⟨fun x hx => ?_, fun id hid => ?_⟩
    · rcases List.mem_cons.mp hx with rfl | hx
      · rw [hout x.1 hfresh, hchecks, Std.ExtTreeMap.getElem?_insert_self]
      · exact hin x hx
    · rw [List.map_cons, List.mem_cons, not_or] at hid
      rw [hout id hid.2, hchecks, Std.ExtTreeMap.getElem?_insert, if_neg]
      rw [Std.LawfulEqOrd.compare_eq_iff_eq]
      exact fun he => hid.1 (profilePrefix_inj he).symm

theorem mergeCheck_keeps {checks checks' : BTreeMap String CheckDefinition}
    {old : String × CheckDefinition} (h : mergeCheck checks old = .ok checks') {id : String}
    {check : CheckDefinition} (hc : checks[id]? = some check) : checks'[id]? = some check := by
  unfold mergeCheck at h
  split at h
  · obtain ⟨-, h⟩ := refuseIf_bind h
    cases h
    exact hc
  · rename_i hnone
    cases h
    rw [Std.ExtTreeMap.getElem?_insert, if_neg]
    · exact hc
    · rw [Std.LawfulEqOrd.compare_eq_iff_eq]
      rintro rfl
      rw [hnone] at hc
      cases hc

theorem mergeContract_ok {old draft contract : Contract} (h : mergeContract old draft = .ok contract) :
    preservesObligations old contract = .ok () ∧
    ∀ (id : String) (check : CheckDefinition), draft.checks[id]? = some check →
      contract.checks[id]? = some check := by
  obtain ⟨requirements, -, h⟩ := bind_ok h
  obtain ⟨checks, hchecks, h⟩ := bind_ok h
  obtain ⟨_, hpreserves, h⟩ := bind_ok h
  cases h
  refine ⟨hpreserves, fun id check hc => ?_⟩
  exact foldlM_rel (R := fun a b => a[id]? = some check → b[id]? = some check) (fun _ h => h)
    (fun h h' hc => h' (h hc)) (fun hs hc => mergeCheck_keeps hs hc) hchecks hc

theorem compile_ok {env : Env} {intake : Intake} {proposal : Proposal} {baseline : Snapshot}
    (h : compile env intake task proposal baseline = .ok result) :
    ∃ policy draft, readPolicy intake task = .ok policy ∧
      draftContract task proposal policy = .ok draft ∧
      mergeAccepted task draft = .ok result.contract ∧ result.contract.validate = .ok () := by
  obtain ⟨policy, hpolicy, h⟩ := bind_ok h
  obtain ⟨_, -, h⟩ := bind_ok h
  obtain ⟨draft, hdraft, h⟩ := bind_ok h
  obtain ⟨contract, hmerge, h⟩ := bind_ok h
  obtain ⟨_, hvalid, h⟩ := bind_ok h
  obtain ⟨_, -, h⟩ := bind_ok h
  obtain ⟨receipt, -, h⟩ := bind_ok h
  cases h
  exact ⟨policy, draft, hpolicy, hdraft, hmerge, mapError_ok hvalid⟩

theorem mergeAccepted_keeps {draft contract : Contract} (h : mergeAccepted task draft = .ok contract)
    {id : String} {check : CheckDefinition} (hc : draft.checks[id]? = some check) :
    contract.checks[id]? = some check := by
  unfold mergeAccepted at h
  split at h
  · exact (mergeContract_ok h).2 id check hc
  · cases h
    exact hc

/-- **Every check of the profile is in the compiled contract**, under its reserved identifier. -/
theorem compile_profile {env : Env} {intake : Intake} {proposal : Proposal} {baseline : Snapshot}
    (h : compile env intake task proposal baseline = .ok result) {policy : RequestPolicy}
    (hp : readPolicy intake task = .ok policy) {id : String} {check : ProposedCheck}
    (hc : policy.profile.checks[id]? = some check) :
    result.contract.checks[profilePrefix ++ id]? = some (checkDefinition (profilePrefix ++ id) check) := by
  obtain ⟨policy', draft, hp', hdraft, hmerge, -⟩ := compile_ok h
  rw [hp] at hp'
  cases hp'
  obtain ⟨d, -, hdraft⟩ := bind_ok hdraft
  obtain ⟨d', hprofile, hdraft⟩ := bind_ok hdraft
  cases hdraft
  refine mergeAccepted_keeps hmerge ?_
  have hnodup : (policy.profile.checks.toList.map Prod.fst).Nodup := by
    rw [List.Nodup, List.pairwise_map]
    exact policy.profile.checks.distinct_keys_toList.imp fun hne he =>
      hne (Std.LawfulEqOrd.compare_eq_iff_eq.mpr he)
  exact (addProfile_all hnodup hprofile).1 (id, check)
    (Std.ExtTreeMap.mem_toList_iff_getElem?_eq_some.mpr hc)

theorem compile_preserves {env : Env} {intake : Intake} {proposal : Proposal} {baseline : Snapshot}
    (h : compile env intake task proposal baseline = .ok result) {previous : Contract}
    (hp : task.contract = some previous) : preservesObligations previous result.contract = .ok () := by
  obtain ⟨policy, draft, -, -, hmerge, -⟩ := compile_ok h
  rw [mergeAccepted, hp] at hmerge
  exact (mergeContract_ok hmerge).1

/-- **Obligations are never weakened**: over every chain of contracts that the store accepted for a
task, whatever else it did in between, and by every compilation that succeeds. -/
theorem obligations_kept :
    (∀ (draws : TaskState → Uuid → Prop) (db db' : Db) (w w' : World) (id : TaskId) (first : Contract)
      (accepted : List Contract), Reachable draws db w → w.contractOf id = some first → Followed draws id db w db' w' accepted →
      (first :: accepted).Pairwise Keeps ∧ w'.contractOf id = (first :: accepted).getLast?) ∧
    ∀ (env : Env) (intake : Intake) (task : TaskState) (proposal : Proposal) (baseline : Snapshot)
      (result : CompiledContract), compile env intake task proposal baseline = .ok result →
      result.contract.validate = .ok () ∧
      (∃ policy, readPolicy intake task = .ok policy ∧
        ∀ (id : String) (check : ProposedCheck), policy.profile.checks[id]? = some check →
          result.contract.checks[profilePrefix ++ id]? =
            some (checkDefinition (profilePrefix ++ id) check)) ∧
      ∀ previous, task.contract = some previous →
        preservesObligations previous result.contract = .ok () := by
  refine ⟨fun _ _ _ _ _ _ _ _ hr hfirst h => h.chain hr.represents hfirst,
    fun env intake task proposal baseline result h => ?_⟩
  obtain ⟨policy, draft, hpolicy, -, -, hvalid⟩ := compile_ok h
  exact ⟨hvalid, ⟨policy, hpolicy, fun id check hc => compile_profile h hpolicy hc⟩,
    fun previous hp => compile_preserves h hp⟩

end

/-! ## the follow-up of the example, compiled and accepted -/

namespace Sample

scoped instance admissionCodec : AdmissionCodec := ⟨fun _ => [], fun _ => [], fun _ _ _ _ => []⟩

def answering : ProposedCheck where
  purpose := "it answers"
  kind := .behavior
  program := ⟨1, [.command "answer" "./run" 0 (some (.equals "ok")) none], none⟩
  baselineFailure := false
  controlOmission := some "there was no answer before"

def proposal : Proposal where
  outcome := "a build that answers"
  scope := "all"
  requirements := [⟨"answers", "it answers", .user "build", ["answers"], []⟩]
  checks := .ofList [("answers", answering)]
  protectedBehavior := []
  assumptions := []
  openQuestions := []

def policy : RequestPolicy where
  version := 1
  profile := ⟨1, "repository", .ofList [("lint", { answering with kind := .static })]⟩
  delivery := .source

def intake : Intake := ⟨fun _ => .ok policy, fun _ => .ok ⟨0⟩⟩

def baseline : Snapshot := ⟨1, SnapshotPolicy.default, ∅⟩

/-- the task with its follow-up, as one that was admitted under the policy -/
def followed : TaskState := { steered with intake := some ⟨0⟩ }

theorem compiles : ∃ result, compile env intake followed proposal baseline = .ok result := by
  have h : (compile env intake followed proposal baseline).isOk = true := by decide +kernel
  cases hc : compile env intake followed proposal baseline with
  | error e =>
    rw [hc] at h
    cases h
  | ok result => exact ⟨result, rfl⟩

theorem accepts {db : Db} {w : World} (h : Represents db w) (hs : w.tasks taskId = some steered)
    {new : Contract} (hvalid : new.validate = .ok ()) (hkeeps : preservesObligations contract new = .ok ()) :
    ∃ s' db', acceptAdditiveContract env taskId 2 new ⟨0⟩ db = .ok (s', db') := by
  have hok : new.validate.mapError StoreError.contract = .ok () := by rw [hvalid]; rfl
  obtain ⟨db', hc, -⟩ : ∃ db', acceptAdditiveContract env taskId 2 new ⟨0⟩ db =
      .ok (steered.apply (.additiveContractAccepted new ⟨0⟩ steered.scopeRevision), db') ∧
      db'.leases = db.leases ∧ db'.sessions = db.sessions := by
    rw [acceptAdditiveContract, hok, ok_bind]
    refine h.changes hs rfl (by decide) ?_ (fits _ _ (by decide))
    show (refuseIf (steered.amendmentPending = false) _ >>= _) = _
    rw [refuseIf_of_not _ (by decide), ok_bind, checkFollowUp]
    show (preservesObligations contract new >>= _) = _
    rw [hkeeps]
    rfl
  exact ⟨_, db', hc⟩

end Sample

open Sample in
/-- a follow-up of the user is compiled, and the store accepts the result -/
theorem obligations_kept_followUp : ∃ result db w db' w',
    compile Sample.env intake followed proposal baseline = .ok result ∧ result.contract ≠ contract ∧
      Reachable (fun _ _ => True) db w ∧ w.contractOf taskId = some contract ∧
      Followed (fun _ _ => True) taskId db w db' w' [result.contract] ∧
      [contract, result.contract].Pairwise Keeps ∧ w'.contractOf taskId = some result.contract := by
  obtain ⟨result, hcompile⟩ := compiles
  obtain ⟨hchain, hcompiled⟩ := obligations_kept
  obtain ⟨hvalid, ⟨policy', hpolicy, hprofile⟩, hpreserves⟩ := hcompiled _ _ _ _ _ result hcompile
  -- the check of the profile is new
  have hnew : result.contract ≠ contract := by
    intro he
    cases (show Except.ok policy = .ok policy' from hpolicy)
    have hlint := hprofile "lint" { answering with kind := .static } rfl
    rw [he] at hlint
    revert hlint
    decide +kernel
  obtain ⟨db, w, hr, hs, ht, hkeys⟩ := @reachable_linked fun _ _ => True
  obtain ⟨db₁, hsub⟩ := steers hr.represents hkeys hs ht
  have hr₁ : Reachable (fun _ _ => True) db₁ (w.write (some steered) (some steeredSession)) :=
    Run.step hr (.submit hsub)
  have hs₁ : (w.write (some steered) (some steeredSession)).tasks taskId = some steered :=
    World.setTask_get w steered
  have hfirst : (w.write (some steered) (some steeredSession)).contractOf taskId = some contract := by
    rw [World.contractOf, hs₁]
    rfl
  obtain ⟨s', db₂, hc⟩ := accepts hr₁.represents hs₁ hvalid (hpreserves contract rfl)
  have hfollowed : Followed (fun _ _ => True) taskId db₁ (w.write (some steered) (some steeredSession))
      db₂ _ [result.contract] := .accept .refl hc
  obtain ⟨hkeeps, hforce⟩ := hchain _ _ _ _ _ _ _ _ hr₁ hfirst hfollowed
  exact ⟨result, _, _, _, _, hcompile, hnew, hr₁, hfirst, hfollowed, hkeeps, hforce⟩

end Orvek
