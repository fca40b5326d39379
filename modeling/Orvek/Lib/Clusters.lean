import Mathlib.Data.List.Chain

/-!
# Cutting a list into clusters

A rule says, from what a cluster has so far, whether the next element joins it or begins another one.
The rules of Unicode for extended grapheme clusters are of this kind: what a cluster has so far decides.

* `clusters`        the clusters of a list, from left to right;
* `AreClusters`     lists that cannot be anything but the clusters of what they make together;
* `clusters_between`  the clusters of some consecutive clusters are these.
-/

set_option linter.unusedSectionVars false

namespace Clusters

section
variable {α : Type} [DecidableEq α] (joins : List α → α → Bool)

/-- the clusters, where `cluster` has been read of the first one -/
def clustersFrom (cluster : List α) : List α → List (List α)
  | [] => [cluster]
  | x :: l => if joins cluster x then clustersFrom (cluster ++ [x]) l else cluster :: clustersFrom [x] l

def clusters : List α → List (List α)
  | [] => []
  | x :: l => clustersFrom joins [x] l

/-- every element but the first one joins what is before it -/
def Grown (g : List α) : Prop := g ≠ [] ∧ ∀ a x b, g = a ++ x :: b → a ≠ [] → joins a x = true

/-- each cluster begins where the rule says so -/
def AreClusters (gs : List (List α)) : Prop :=
  (∀ g ∈ gs, Grown joins g) ∧ gs.IsChain fun g h => ∀ x, h.head? = some x → joins g x = false

variable {joins}

theorem grown_singleton (x : α) : Grown joins [x] := by
  refine ⟨List.cons_ne_nil _ _, fun a y b h ha => ?_⟩
  obtain ⟨z, a, rfl⟩ := List.exists_cons_of_ne_nil ha
  have hlen := congrArg List.length h
  simp at hlen

theorem Grown.concat {g : List α} {x : α} (h : Grown joins g) (hx : joins g x = true) : Grown joins (g ++ [x]) := by
  refine ⟨by simp, fun a y b he ha => ?_⟩
  rcases List.eq_nil_or_concat b with rfl | ⟨b, z, rfl⟩
  · obtain ⟨rfl, hy⟩ := List.append_inj' he rfl
    rwa [← (List.cons.inj hy).1]
  · rw [List.concat_eq_append, ← List.cons_append, ← List.append_assoc] at he
    exact h.2 a y b (List.append_inj' he rfl).1 ha

attribute [grind =] clustersFrom

theorem clustersFrom_spec {cluster : List α} (h : Grown joins cluster) (l : List α) :
    ∃ w gs, clustersFrom joins cluster l = (cluster ++ w) :: gs ∧ cluster ++ l = (cluster ++ w) ++ gs.flatten ∧
      AreClusters joins ((cluster ++ w) :: gs) := by
  induction l generalizing cluster with
  | nil =>
    refine ⟨[], [], by rw [clustersFrom, List.append_nil], by simp, ?_⟩
    rw [List.append_nil]
    exact ⟨by simpa using h, List.isChain_singleton _⟩
  | cons x l ih =>
    rw [clustersFrom]
    split
    · rename_i hx
      obtain ⟨w, gs, hclusters, hflat, hare⟩ := ih (h.concat hx)
      refine ⟨x :: w, gs, ?_, ?_, ?_⟩
      · rw [hclusters, List.append_assoc, List.singleton_append]
      · simpa [List.append_assoc] using hflat
      · simpa [List.append_assoc] using hare
    · rename_i hx
      obtain ⟨w, gs, hclusters, hflat, hgrown, hchain⟩ := ih (grown_singleton x)
      refine ⟨[], ([x] ++ w) :: gs, ?_, ?_, ?_⟩
      · rw [hclusters, List.append_nil]
      · rw [List.append_nil, List.flatten_cons, ← hflat, List.singleton_append]
      · rw [List.append_nil]
        refine ⟨?_, List.isChain_cons_cons.mpr ⟨fun y hy => ?_, hchain⟩⟩
        · intro g hg
          rcases List.mem_cons.mp hg with rfl | hg
          · exact h
          · exact hgrown g hg
        · obtain rfl := Option.some.inj hy
          exact Bool.not_eq_true _ ▸ hx

theorem clusters_spec (l : List α) : (clusters joins l).flatten = l ∧ AreClusters joins (clusters joins l) := by
  cases l with
  | nil => exact ⟨rfl, fun g hg => (nomatch hg), List.isChain_nil⟩
  | cons x l =>
    obtain ⟨w, gs, hclusters, hflat, hare⟩ := clustersFrom_spec (@grown_singleton α _ joins x) l
    rw [clusters, hclusters]
    exact ⟨hflat.symm, hare⟩

theorem flatten_clusters (l : List α) : (clusters joins l).flatten = l := (clusters_spec l).1

theorem clusters_ne_nil {l g : List α} (h : g ∈ clusters joins l) : g ≠ [] := ((clusters_spec l).2.1 g h).1

theorem clustersFrom_append {a b : List α} (ha : a ≠ []) (h : Grown joins (a ++ b)) (l : List α) :
    clustersFrom joins a (b ++ l) = clustersFrom joins (a ++ b) l := by
  induction b generalizing a with
  | nil => rw [List.nil_append, List.append_nil]
  | cons x b ih =>
    rw [List.cons_append, clustersFrom, if_pos (h.2 a x b rfl ha)]
    have hsame : a ++ x :: b = (a ++ [x]) ++ b := by simp
    rw [hsame] at h ⊢
    exact ih (by simp) h

theorem clusters_flatten {gs : List (List α)} (h : AreClusters joins gs) : clusters joins gs.flatten = gs := by
  induction gs with
  | nil => rfl
  | cons g gs ih =>
    obtain ⟨hgrown, hchain⟩ := h
    have hg := hgrown g List.mem_cons_self
    have hgs : AreClusters joins gs := ⟨fun x hx => hgrown x (List.mem_cons_of_mem _ hx), hchain.tail⟩
    obtain ⟨x, g, rfl⟩ := List.exists_cons_of_ne_nil hg.1
    rw [List.flatten_cons, List.cons_append, clusters, clustersFrom_append (List.cons_ne_nil x []) hg]
    have hrest := ih hgs
    cases gs with
    | nil => rfl
    | cons k gs =>
      obtain ⟨y, k, rfl⟩ := List.exists_cons_of_ne_nil (hgrown k (by simp)).1
      have hy : joins (x :: g) y = false := (List.isChain_cons_cons.mp hchain).1 y rfl
      rw [List.flatten_cons, List.cons_append] at hrest ⊢
      show clustersFrom joins (x :: g) (y :: _) = _
      rw [clustersFrom, hy, if_neg Bool.false_ne_true]
      exact congrArg (_ :: ·) hrest

theorem AreClusters.part {gs hs : List (List α)} (h : AreClusters joins gs) (hi : hs <:+: gs) :
    AreClusters joins hs :=
  ⟨fun g hg => h.1 g (hi.subset hg), List.IsChain.infix h.2 hi⟩

theorem clusters_between {gs hs : List (List α)} {l : List α} (h : clusters joins l = gs) (hi : hs <:+: gs) :
    clusters joins hs.flatten = hs :=
  clusters_flatten ((h ▸ (clusters_spec l).2).part hi)

end

end Clusters
