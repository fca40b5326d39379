import Mathlib.Logic.Relation
import Orvek.Context.Epochs
import Orvek.Session.Apply

/-!
# What context transitions keep

The ranges of accepted transitions are disjoint, settled, and cut no call from its output
(`Covering`).  This holds in every state that is reached by growing a session
(`Covering.run`), and the session reducer only grows a session (`grows_apply`).

The view of a session with transitions is the repaired history with each item replaced by its
entries (`itemEntries`): an item that is covered is dropped unless it is a message of the user,
and the summary of a range stands where the range starts.
-/

set_option linter.unusedSectionVars false

namespace Orvek
open Json Pairs Checks

/-! ## what a proposal is checked for -/

theorem pairItem_ok {item : Value} {pending pending' : BTreeSet String}
    (h : pairItem item pending = .ok pending') : pending' = step pending (mark item) := by
  unfold pairItem at h
  unfold mark
  split at h
  · rename_i hcall
    rw [if_pos hcall]
    cases hid : (item.index "call_id").asStr with
    | none => rw [hid] at h; cases h
    | some id =>
      rw [hid] at h
      dsimp only at h
      split at h
      · cases h
      · exact (Except.ok.inj h).symm
  · rename_i hcall
    rw [if_neg hcall]
    split at h
    · rename_i hout
      rw [if_pos hout]
      cases hid : (item.index "call_id").asStr with
      | none => rw [hid] at h; cases h
      | some id =>
        rw [hid] at h
        dsimp only at h
        split at h
        · exact (Except.ok.inj h).symm
        · cases h
    · rename_i hout
      rw [if_neg hout]
      exact (Except.ok.inj h).symm

theorem pairLoop_ok (history : List Value) (start : Nat) (l rest : List Value) (index : Nat)
    (r : BTreeSet String) (hl : history.drop index = l ++ rest)
    (h : pairLoop start index l (openAt (historyMarks history) index) = .ok r) :
    r = openAt (historyMarks history) (index + l.length) ∧
      (index ≤ start → start < index + l.length → openAt (historyMarks history) start = ∅) := by
  induction l generalizing index with
  | nil => exact ⟨(Except.ok.inj h).symm, fun h1 h2 => by simp at h2; omega⟩
  | cons item l ih =>
    obtain ⟨hget, hrest⟩ := drop_eq_cons hl
    obtain ⟨hstart, h⟩ := refuseIf_bind h
    obtain ⟨pending, hitem, h⟩ := bind_ok h
    obtain rfl := pairItem_ok hitem
    have hm := getElem?_historyMarks history index item hget
    rw [← openAt_succ _ index _ hm] at h
    obtain ⟨h1, h2⟩ := ih (index + 1) hrest h
    rw [List.length_cons]
    refine ⟨by rw [h1]; congr 1; omega, fun h3 h4 => ?_⟩
    rcases Nat.eq_or_lt_of_le h3 with rfl | hlt
    · by_contra hne
      exact hstart ⟨rfl, hne⟩
    · exact h2 hlt (by omega)

/-- what an accepted proposal satisfies -/
structure ProposalSpec (s : SessionState) (p : TransitionProposal) : Prop where
  settled : settledRange s p.range
  disjoint : ∀ prior ∈ s.contextTransitions, ¬ overlaps p.range prior.proposal.range
  bounds : textBounds p
  start_closed : openAt (historyMarks s.history) p.range.start = ∅
  stop_closed : openAt (historyMarks s.history) p.range.stop = ∅

theorem validateProposal_ok {s : SessionState} {p : TransitionProposal} {u : Unit}
    (h : validateProposal s p = .ok u) : ProposalSpec s p := by
  obtain ⟨hset, h⟩ := refuseIf_bind h
  obtain ⟨hdis, h⟩ := refuseIf_bind h
  obtain ⟨htext, h⟩ := refuseIf_bind h
  obtain ⟨pending, hpairs, h⟩ := bind_ok h
  have hend := refuseIf_ok h
  have hset := not_not.mp hset
  obtain ⟨hpend, hstart⟩ := pairLoop_ok s.history p.range.start (s.history.take p.range.stop)
    (s.history.drop p.range.stop) 0 pending (List.take_append_drop _ _).symm hpairs
  have hlen : (s.history.take p.range.stop).length = p.range.stop := by
    rw [List.length_take, Nat.min_eq_left hset.2.2]
  rw [hlen, Nat.zero_add] at hpend hstart
  exact
    { settled := hset
      disjoint := fun prior hin ho => hdis ⟨prior, hin, ho⟩
      bounds := not_not.mp htext
      start_closed := hstart (Nat.zero_le _) hset.1
      stop_closed := by rw [← hpend]; exact not_not.mp hend }

/-! ## growing a session -/

/-- one step of a session, as far as its transitions are concerned: the history is extended, the
settled boundary does not move back, and at most one proposal is accepted -/
structure Grows (s s' : SessionState) : Prop where
  history : s.history <+: s'.history
  settled : s.settledHistoryItems ≤ s'.settledHistoryItems
  bounded : s'.settledHistoryItems ≤ s'.history.length
  transitions : s'.contextTransitions = s.contextTransitions ∨
    ∃ t, s'.contextTransitions = s.contextTransitions ++ [t] ∧
      validateProposal s t.proposal = .ok ()

/-- the invariant of accepted transitions -/
structure Covering (s : SessionState) : Prop where
  bounded : s.settledHistoryItems ≤ s.history.length
  settled : ∀ t ∈ s.contextTransitions, settledRange s t.proposal.range
  closed : ∀ t ∈ s.contextTransitions,
    openAt (historyMarks s.history) t.proposal.range.start = ∅ ∧
      openAt (historyMarks s.history) t.proposal.range.stop = ∅
  disjoint : s.contextTransitions.Pairwise fun a b => ¬ overlaps a.proposal.range b.proposal.range

theorem openAt_marks_kept {a b : List Value} (h : a <+: b) (k : Nat) (hk : k ≤ a.length) :
    openAt (historyMarks b) k = openAt (historyMarks a) k := by
  obtain ⟨c, rfl⟩ := h
  rw [historyMarks, List.map_append]
  exact openAt_append _ _ k (by rw [List.length_map]; exact hk)

theorem settledRange_grows {s s' : SessionState} (h : Grows s s') {range : HistoryRange}
    (hr : settledRange s range) : settledRange s' range :=
  ⟨hr.1, Nat.le_trans hr.2.1 h.settled, Nat.le_trans hr.2.2 h.history.length_le⟩

/-- **A step keeps the invariant.** -/
theorem Covering.step {s s' : SessionState} (hc : Covering s) (h : Grows s s') : Covering s' := by
  -- a range that was settled and closed stays so
  have hkept : ∀ t : ContextTransition, settledRange s t.proposal.range →
      openAt (historyMarks s.history) t.proposal.range.start = ∅ →
      openAt (historyMarks s.history) t.proposal.range.stop = ∅ →
      settledRange s' t.proposal.range ∧
        openAt (historyMarks s'.history) t.proposal.range.start = ∅ ∧
        openAt (historyMarks s'.history) t.proposal.range.stop = ∅ := by
    intro t hr hstart hstop
    have h1 := hr.1
    have h2 := hr.2.2
    refine ⟨settledRange_grows h hr, ?_, ?_⟩
    · rw [openAt_marks_kept h.history _ (by omega), hstart]
    · rw [openAt_marks_kept h.history _ h2, hstop]
  have hold : ∀ t ∈ s.contextTransitions, settledRange s' t.proposal.range ∧
      openAt (historyMarks s'.history) t.proposal.range.start = ∅ ∧
      openAt (historyMarks s'.history) t.proposal.range.stop = ∅ :=
    fun t ht => hkept t (hc.settled t ht) (hc.closed t ht).1 (hc.closed t ht).2
  rcases h.transitions with he | ⟨t, he, hval⟩
  · exact
      { bounded := h.bounded
        settled := fun t ht => (hold t (he ▸ ht)).1
        closed := fun t ht => (hold t (he ▸ ht)).2
        disjoint := by rw [he]; exact hc.disjoint }
  · have hspec := validateProposal_ok hval
    have hnew := hkept t hspec.settled hspec.start_closed hspec.stop_closed
    have hall : ∀ x ∈ s'.contextTransitions, settledRange s' x.proposal.range ∧
        openAt (historyMarks s'.history) x.proposal.range.start = ∅ ∧
        openAt (historyMarks s'.history) x.proposal.range.stop = ∅ := by
      intro x hx
      rw [he] at hx
      rcases List.mem_append.mp hx with hx | hx
      · exact hold x hx
      · rw [List.mem_singleton.mp hx]; exact hnew
    exact
      { bounded := h.bounded
        settled := fun x hx => (hall x hx).1
        closed := fun x hx => (hall x hx).2
        disjoint := by
          rw [he, List.pairwise_append]
          refine ⟨hc.disjoint, List.pairwise_singleton _ _, ?_⟩
          intro a ha b hb ho
          rw [List.mem_singleton.mp hb] at ho
          exact hspec.disjoint a ha ⟨ho.2, ho.1⟩ }

/-- **The invariant holds after every run.** -/
theorem Covering.run {s s' : SessionState} (hc : Covering s) (h : Relation.ReflTransGen Grows s s') :
    Covering s' := by
  induction h with
  | refl => exact hc
  | tail _ hstep ih => exact ih.step hstep

theorem Covering.start {s : SessionState} (hb : s.settledHistoryItems ≤ s.history.length)
    (h : s.contextTransitions = []) : Covering s where
  bounded := hb
  settled := by rw [h]; exact fun _ h => nomatch h
  closed := by rw [h]; exact fun _ h => nomatch h
  disjoint := by rw [h]; exact List.Pairwise.nil

/-! ## the reducer only grows a session -/

section
variable [Sha256] [SessionCodec]
variable {s s' : SessionState}

/-- what the change of a command leaves alone: the settled boundary and the items already there -/
structure UpdateGrows (s s' : SessionState) : Prop where
  history : s.history <+: s'.history
  settled : s'.settledHistoryItems = s.settledHistoryItems
  transitions : s'.contextTransitions = s.contextTransitions ∨
    ∃ t, s'.contextTransitions = s.contextTransitions ++ [t] ∧
      validateProposal s t.proposal = .ok ()

theorem UpdateGrows.same (h1 : s'.history = s.history) (h2 : s'.settledHistoryItems = s.settledHistoryItems)
    (h3 : s'.contextTransitions = s.contextTransitions) : UpdateGrows s s' :=
  ⟨by simp [h1], h2, Or.inl h3⟩

theorem UpdateGrows.append (items : List Value) (h1 : s'.history = s.history ++ items)
    (h2 : s'.settledHistoryItems = s.settledHistoryItems)
    (h3 : s'.contextTransitions = s.contextTransitions) : UpdateGrows s s' :=
  ⟨by rw [h1]; exact List.prefix_append _ _, h2, Or.inl h3⟩

theorem validateAcceptance_proposal {t : ContextTransition} {u : Unit} (h : t.validateAcceptance s = .ok u) :
    validateProposal s t.proposal = .ok () := by
  obtain ⟨_, h⟩ := refuseIf_bind h
  obtain ⟨_, h, _⟩ := bind_ok h
  exact h

theorem record_grows (hb : s.settledHistoryItems ≤ s.history.length) (h : UpdateGrows s s')
    (operation : Uuid) (digest : Digest) : Grows s (s'.record operation digest) := by
  have hlen := h.history.length_le
  have hset := h.settled
  refine ⟨h.history, ?_, ?_, h.transitions⟩
  · show s.settledHistoryItems ≤ if s'.activeRequest.isNone then s'.history.length else
      s'.settledHistoryItems
    split <;> omega
  · show (if s'.activeRequest.isNone then s'.history.length else s'.settledHistoryItems) ≤
      s'.history.length
    split <;> omega

/-- **A command of a session is such a step.** -/
theorem grows_apply {operation : Uuid} {c : SessionCommand ContextView}
    (hb : s.settledHistoryItems ≤ s.history.length) (h : s.apply operation c = .ok s') : Grows s s' := by
  obtain ⟨t, digest, ht, rfl, -⟩ := apply_applied h
  refine record_grows hb ?_ operation digest
  cases ht with
  | shellStarted job =>
    unfold SessionState.shellStarted
    cases job.task <;> exact .same rfl rfl rfl
  | auxiliaryPublished request report text =>
    cases text with
    | none => exact .same rfl rfl rfl
    | some text => exact .append _ rfl rfl rfl
  | input | response | feedback | toolResult | toolResultEnd => exact .append _ rfl rfl rfl
  | contextTransition hval =>
    exact ⟨List.prefix_rfl, rfl, Or.inr ⟨_, rfl, validateAcceptance_proposal hval⟩⟩
  | _ => exact .same rfl rfl rfl

/-- the states of a session: a created one, and those that commands lead to -/
inductive Reached : SessionState → Prop where
  | created (id : SessionId) (creation : SessionCreation) : Reached (SessionState.create id creation)
  | command {s s' : SessionState} {operation : Uuid} {c : SessionCommand ContextView}
      (hs : Reached s) (h : s.apply operation c = .ok s') : Reached s'

/-- **Every state of a session is reached by growing one that has no transition.** -/
theorem Reached.grows (h : Reached s) :
    s.settledHistoryItems ≤ s.history.length ∧
      ∃ s₀, s₀.contextTransitions = [] ∧ s₀.settledHistoryItems ≤ s₀.history.length ∧
        Relation.ReflTransGen Grows s₀ s := by
  induction h with
  | created id creation => exact ⟨Nat.le_refl _, _, rfl, Nat.le_refl _, Relation.ReflTransGen.refl⟩
  | command _ happly ih =>
    obtain ⟨hb, s₀, h0, hb0, hrun⟩ := ih
    have hg := grows_apply hb happly
    exact ⟨hg.bounded, s₀, h0, hb0, hrun.tail hg⟩

end

end Orvek
