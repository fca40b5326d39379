import Mathlib.Data.List.Perm.Subperm

/-!
# Visiting everything that can be reached

A worklist is a stack of nodes to visit and the nodes that were visited.  A visit may fail, uses a state
of its own, and answers with the nodes that the visited one refers to.

* `run`            the loop, for a number of rounds;
* `Reach`          what can be reached from the roots;
* `Visits`         the visits of a list of nodes, one after the other;
* `run_ends`       the loop ends, when only finitely many nodes can be visited;
* `run_result`     it has visited everything that can be reached once, or a visit has failed.
-/

namespace Worklist

variable {ν σ ε : Type}

structure State (ν σ : Type) where
  /-- the top of the stack first -/
  pending : List ν
  /-- the newest first -/
  visited : List ν
  value : σ

section
variable [DecidableEq ν] (visit : σ → ν → Except ε (σ × List ν))

/-- what the loop answers after at most so many rounds -/
def run : Nat → State ν σ → Option (Except ε σ)
  | 0, _ => none
  | n + 1, t =>
    match t.pending with
    | [] => some (.ok t.value)
    | x :: pending =>
      if x ∈ t.visited then run n { t with pending := pending }
      else
        match visit t.value x with
        | .error e => some (.error e)
        | .ok (s, found) => run n ⟨found.reverse ++ pending, x :: t.visited, s⟩

end

inductive Reach (refers : ν → List ν) (roots : List ν) : ν → Prop
  | root {x : ν} (h : x ∈ roots) : Reach refers roots x
  | step {x y : ν} (h : Reach refers roots x) (hy : y ∈ refers x) : Reach refers roots y

/-- the visits of a list, the newest first -/
inductive Visits (visit : σ → ν → Except ε (σ × List ν)) (s : σ) : List ν → σ → Prop
  | nil : Visits visit s [] s
  | cons {x : ν} {l found : List ν} {t t' : σ} (h : Visits visit s l t)
      (hx : visit t x = .ok (t', found)) : Visits visit s (x :: l) t'

variable {visit : σ → ν → Except ε (σ × List ν)} {refers : ν → List ν} {roots : List ν} {s : σ}
  {t : State ν σ}

theorem Visits.visited {l : List ν} {u : σ} (h : Visits visit s l u) :
    ∀ x ∈ l, ∃ v r, visit v x = .ok r := by
  induction h with
  | nil => exact nofun
  | cons _ hx ih =>
    intro y hy
    rcases List.mem_cons.mp hy with rfl | hy
    · exact ⟨_, _, hx⟩
    · exact ih y hy

/-- what a round keeps -/
structure Going (visit : σ → ν → Except ε (σ × List ν)) (refers : ν → List ν) (roots : List ν)
    (s : σ) (t : State ν σ) : Prop where
  nodup : t.visited.Nodup
  visits : Visits visit s t.visited t.value
  visited : ∀ x ∈ t.visited, Reach refers roots x
  pending : ∀ x ∈ t.pending, Reach refers roots x
  covered : ∀ x ∈ roots, x ∈ t.visited ∨ x ∈ t.pending
  closed : ∀ x ∈ t.visited, ∀ y ∈ refers x, y ∈ t.visited ∨ y ∈ t.pending

theorem going_start : Going visit refers roots s ⟨roots.reverse, [], s⟩ :=
  ⟨List.nodup_nil, .nil, nofun, fun _ hx => .root (List.mem_reverse.mp hx),
    fun _ hx => .inr (List.mem_reverse.mpr hx), nofun⟩

theorem Going.skip {x : ν} {pending : List ν} (h : Going visit refers roots s t)
    (hp : t.pending = x :: pending) (hx : x ∈ t.visited) :
    Going visit refers roots s { t with pending := pending } := by
  have hmove : ∀ y, y ∈ t.visited ∨ y ∈ t.pending → y ∈ t.visited ∨ y ∈ pending := by
    intro y hy
    rw [hp, List.mem_cons] at hy
    rcases hy with hy | rfl | hy
    · exact .inl hy
    · exact .inl hx
    · exact .inr hy
  exact ⟨h.nodup, h.visits, h.visited,
    fun y hy => h.pending y (by rw [hp]; exact List.mem_cons_of_mem x hy),
    fun y hy => hmove y (h.covered y hy), fun y hy z hz => hmove z (h.closed y hy z hz)⟩

theorem Going.next {x : ν} {pending found : List ν} {u : σ} (h : Going visit refers roots s t)
    (hp : t.pending = x :: pending) (hx : x ∉ t.visited) (hv : visit t.value x = .ok (u, found))
    (hrefers : refers x = found) :
    Going visit refers roots s ⟨found.reverse ++ pending, x :: t.visited, u⟩ := by
  have hreach : Reach refers roots x := h.pending x (by rw [hp]; exact List.mem_cons_self)
  have hmove : ∀ y, y ∈ t.visited ∨ y ∈ t.pending →
      y ∈ x :: t.visited ∨ y ∈ found.reverse ++ pending := by
    intro y hy
    rw [hp, List.mem_cons] at hy
    rcases hy with hy | rfl | hy
    · exact .inl (List.mem_cons_of_mem x hy)
    · exact .inl List.mem_cons_self
    · exact .inr (List.mem_append_right _ hy)
  refine ⟨List.nodup_cons.mpr ⟨hx, h.nodup⟩, h.visits.cons hv, fun y hy => ?_, fun y hy => ?_,
    fun y hy => hmove y (h.covered y hy), fun y hy z hz => ?_⟩
  · rcases List.mem_cons.mp hy with rfl | hy
    · exact hreach
    · exact h.visited y hy
  · rcases List.mem_append.mp hy with hy | hy
    · exact .step hreach (by rw [hrefers]; exact List.mem_reverse.mp hy)
    · exact h.pending y (by rw [hp]; exact List.mem_cons_of_mem x hy)
  · rcases List.mem_cons.mp hy with rfl | hy
    · rw [hrefers] at hz
      exact .inr (List.mem_append_left _ (List.mem_reverse.mpr hz))
    · exact hmove z (h.closed y hy z hz)

theorem Going.complete (h : Going visit refers roots s t) (hp : t.pending = []) {x : ν}
    (hx : Reach refers roots x) : x ∈ t.visited := by
  have hdone : ∀ y, y ∈ t.visited ∨ y ∈ t.pending → y ∈ t.visited := by
    intro y hy
    rw [hp] at hy
    exact hy.elim id nofun
  induction hx with
  | root hroot => exact hdone _ (h.covered _ hroot)
  | step _ hy ih => exact hdone _ (h.closed _ ih _ hy)

section
variable [DecidableEq ν]
  (hrefers : ∀ u x u' found, visit u x = .ok (u', found) → refers x = found)

/-- what the loop has done when it answers -/
def Result (visit : σ → ν → Except ε (σ × List ν)) (refers : ν → List ν) (roots : List ν) (s : σ) :
    Except ε σ → Prop
  | .ok u => ∃ l : List ν, l.Nodup ∧ (∀ x, x ∈ l ↔ Reach refers roots x) ∧ Visits visit s l u
  | .error e => ∃ (l : List ν) (x : ν) (u : σ), (x :: l).Nodup ∧
      (∀ y ∈ x :: l, Reach refers roots y) ∧ Visits visit s l u ∧ visit u x = .error e

include hrefers

attribute [grind =] run

/-- **The answer of the loop**: everything that can be reached was visited once, or the visit of
something that can be reached has failed. -/
theorem run_result {n : Nat} {r : Except ε σ} (h : Going visit refers roots s t)
    (hr : run visit n t = some r) : Result visit refers roots s r := by
  induction n generalizing t with
  | zero => cases hr
  | succ n ih =>
    unfold run at hr
    split at hr
    · rename_i hp
      cases hr
      exact ⟨t.visited, h.nodup, fun x => ⟨h.visited x, h.complete hp⟩, h.visits⟩
    · rename_i x pending hp
      split at hr
      · rename_i hx
        exact ih (h.skip hp hx) hr
      · rename_i hx
        split at hr
        · rename_i e hv
          cases hr
          have hreach : Reach refers roots x := h.pending x (by rw [hp]; exact List.mem_cons_self)
          refine ⟨t.visited, x, t.value, List.nodup_cons.mpr ⟨hx, h.nodup⟩, fun y hy => ?_, h.visits,
            hv⟩
          rcases List.mem_cons.mp hy with rfl | hy
          · exact hreach
          · exact h.visited y hy
        · rename_i u found hv
          exact ih (h.next hp hx hv (hrefers _ _ _ _ hv)) hr

/-- **The loop ends.**  A round drops a node or visits one of the finitely many that can be visited. -/
theorem run_ends {all : List ν} (hall : ∀ u x r, visit u x = .ok r → x ∈ all)
    (h : Going visit refers roots s t) : ∃ n r, run visit n t = some r := by
  have hvisited : ∀ {t : State ν σ}, Going visit refers roots s t → t.visited.length ≤ all.length := by
    intro t h
    refine (List.Nodup.subperm h.nodup fun x hx => ?_).length_le
    obtain ⟨u, r, hv⟩ := h.visits.visited x hx
    exact hall u x r hv
  generalize hroom : all.length - t.visited.length = room
  induction room using Nat.strongRecOn generalizing t with
  | ind room ihroom =>
    generalize hlen : t.pending.length = len
    induction len generalizing t with
    | zero =>
      refine ⟨1, .ok t.value, ?_⟩
      unfold run
      rw [List.eq_nil_of_length_eq_zero hlen]
    | succ len ih =>
      obtain ⟨x, pending, hp⟩ := List.exists_cons_of_length_eq_add_one hlen
      by_cases hx : x ∈ t.visited
      · have hlen' : pending.length = len := by
          rw [hp, List.length_cons] at hlen
          omega
        obtain ⟨n, r, hr⟩ := ih (h.skip hp hx) hroom hlen'
        refine ⟨n + 1, r, ?_⟩
        unfold run
        rw [hp]
        simp only
        rw [if_pos hx]
        exact hr
      · cases hv : visit t.value x with
        | error e =>
          refine ⟨1, .error e, ?_⟩
          unfold run
          rw [hp]
          simp only
          rw [if_neg hx, hv]
        | ok r =>
          have hnext := h.next hp hx hv (hrefers _ _ _ _ hv)
          have hle := hvisited hnext
          have hless : all.length - (x :: t.visited).length < room := by
            rw [List.length_cons] at hle ⊢
            omega
          obtain ⟨n, r', hr⟩ := ihroom _ hless hnext rfl
          refine ⟨n + 1, r', ?_⟩
          unfold run
          rw [hp]
          simp only
          rw [if_neg hx, hv]
          exact hr

omit hrefers in
theorem run_more {n m : Nat} {r : Except ε σ} (hr : run visit n t = some r) (h : n ≤ m) :
    run visit m t = some r := by
  induction n generalizing t m with
  | zero => cases hr
  | succ n ih =>
    obtain ⟨m, rfl⟩ : ∃ k, m = k + 1 := ⟨m - 1, by omega⟩
    unfold run at hr ⊢
    split at hr
    · exact hr
    · split at hr
      · rename_i hx
        rw [if_pos hx]
        exact ih hr (by omega)
      · rename_i hx
        rw [if_neg hx]
        split at hr
        · exact hr
        · exact ih hr (by omega)

end

end Worklist
