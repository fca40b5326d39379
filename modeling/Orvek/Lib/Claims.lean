import Mathlib.Data.Set.Insert
import Mathlib.Logic.Relation

/-!
# Effects behind a claim

An effect that cannot be taken back is started at most once when its key is claimed first, in a
record that outlives whoever claims it.  A ledger is the record, with what its claimants do:

* `Step`           a key is taken by one claimant, or by somebody else; a claimant starts the effect
                   of a key that it holds; claimants stop at any time;
* `Sound`          what is held or was started is taken, and no key is there twice;
* `Sound.run`      every run keeps that, so no effect is started twice;
* `spent`          the effect of a key that is taken and not held is never started any more.
-/

namespace Claims

variable {κ : Type*}

structure Ledger (κ : Type*) where
  taken : Set κ
  held : List κ
  started : List κ

def Ledger.empty : Ledger κ := ⟨∅, [], []⟩

inductive Step (l : Ledger κ) : Ledger κ → Prop
  | take {k : κ} {taken : Set κ} (hnew : k ∉ l.taken) (hk : k ∈ taken) (hkeeps : l.taken ⊆ taken) :
      Step l ⟨taken, k :: l.held, l.started⟩
  | others {taken : Set κ} (hkeeps : l.taken ⊆ taken) : Step l ⟨taken, l.held, l.started⟩
  | start {before after : List κ} {k : κ} (hheld : l.held = before ++ k :: after) :
      Step l ⟨l.taken, before ++ after, k :: l.started⟩
  | stop {held : List κ} (hheld : held.Sublist l.held) : Step l ⟨l.taken, held, l.started⟩

abbrev Run : Ledger κ → Ledger κ → Prop := Relation.ReflTransGen Step

structure Sound (l : Ledger κ) : Prop where
  nodup : (l.held ++ l.started).Nodup
  taken : ∀ k ∈ l.held ++ l.started, k ∈ l.taken

variable {l l' : Ledger κ} {k : κ}

theorem Sound.empty : Sound (Ledger.empty : Ledger κ) := ⟨List.nodup_nil, fun _ h => nomatch h⟩

theorem start_perm (before after started : List κ) (k : κ) :
    (before ++ after ++ k :: started).Perm (before ++ k :: after ++ started) := by
  rw [List.append_assoc, List.append_assoc]
  exact (List.perm_append_left_iff before).mpr List.perm_middle

theorem Sound.step (h : Sound l) (hs : Step l l') : Sound l' := by
  cases hs with
  | @take k taken hnew hk hkeeps =>
    refine ⟨List.nodup_cons.mpr ⟨fun hmem => hnew (h.taken k hmem), h.nodup⟩, fun j hj => ?_⟩
    rcases List.mem_cons.mp hj with rfl | hj
    · exact hk
    · exact hkeeps (h.taken j hj)
  | others hkeeps => exact ⟨h.nodup, fun j hj => hkeeps (h.taken j hj)⟩
  | @start before after k hheld =>
    have hperm := start_perm before after l.started k
    have hnodup := h.nodup
    have htaken := h.taken
    rw [hheld] at hnodup htaken
    exact ⟨hperm.nodup_iff.mpr hnodup, fun j hj => htaken j (hperm.mem_iff.mp hj)⟩
  | @stop held hheld =>
    have hsub : (held ++ l.started).Sublist (l.held ++ l.started) :=
      hheld.append (List.Sublist.refl _)
    exact ⟨h.nodup.sublist hsub, fun j hj => h.taken j (hsub.subset hj)⟩

/-- **No run starts an effect twice.** -/
theorem Sound.run (h : Sound l) (hr : Run l l') : Sound l' := by
  induction hr with
  | refl => exact h
  | tail _ hs ih => exact ih.step hs

theorem Sound.started_nodup (h : Sound l) : l.started.Nodup := (List.nodup_append.mp h.nodup).2.1

theorem spent_step (htaken : k ∈ l.taken) (hheld : k ∉ l.held) (hs : Step l l') :
    k ∈ l'.taken ∧ k ∉ l'.held ∧ ∃ more, l'.started = more ++ l.started ∧ k ∉ more := by
  cases hs with
  | @take j taken hnew hj hkeeps =>
    refine ⟨hkeeps htaken, fun hmem => ?_, [], rfl, List.not_mem_nil⟩
    rcases List.mem_cons.mp hmem with rfl | hmem
    · exact hnew htaken
    · exact hheld hmem
  | others hkeeps => exact ⟨hkeeps htaken, hheld, [], rfl, List.not_mem_nil⟩
  | @start before after j hj =>
    rw [hj, List.mem_append, List.mem_cons, not_or, not_or] at hheld
    refine ⟨htaken, ?_, [j], rfl, fun hmem => hheld.2.1 (List.mem_singleton.mp hmem)⟩
    rw [List.mem_append, not_or]
    exact ⟨hheld.1, hheld.2.2⟩
  | stop hsub => exact ⟨htaken, fun hmem => hheld (hsub.subset hmem), [], rfl, List.not_mem_nil⟩

/-- **A claim that nobody holds is never acted on.** -/
theorem spent (htaken : k ∈ l.taken) (hheld : k ∉ l.held) (hr : Run l l') :
    ∃ more, l'.started = more ++ l.started ∧ k ∉ more := by
  suffices h : k ∈ l'.taken ∧ k ∉ l'.held ∧ ∃ more, l'.started = more ++ l.started ∧ k ∉ more from
    h.2.2
  induction hr with
  | refl => exact ⟨htaken, hheld, [], rfl, List.not_mem_nil⟩
  | tail _ hs ih =>
    obtain ⟨ht, hh, more, he, hmore⟩ := ih
    obtain ⟨ht', hh', next, he', hnext⟩ := spent_step ht hh hs
    refine ⟨ht', hh', next ++ more, by rw [he', he, List.append_assoc], fun hmem => ?_⟩
    rcases List.mem_append.mp hmem with hmem | hmem
    · exact hnext hmem
    · exact hmore hmem

end Claims
