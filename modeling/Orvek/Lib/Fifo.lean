import Mathlib.Data.List.Basic
import Mathlib.Data.List.Dedup
import Mathlib.Data.List.Nodup

/-!
# Bounded queues

A queue that takes an element once and lets the oldest one go when it is too long.

* `push`         one more element at the end;
* `push_nodup`, `length_push`   no element twice, and never too many;
* `others`       how many other elements there are among those of a list;
* `Behind`       an element with nothing behind it but what was pushed since;
* `Behind.push`  it stays while fewer others than the capacity are pushed after it, however often.
-/

set_option linter.unusedSectionVars false

namespace Fifo

variable {α : Type} [DecidableEq α] {capacity : Nat} {a : α} {queue since : List α}

def push (capacity : Nat) (a : α) (queue : List α) : List α :=
  if a ∈ queue then queue
  else if capacity < (queue ++ [a]).length then (queue ++ [a]).tail else queue ++ [a]

theorem push_nodup (h : queue.Nodup) : (push capacity a queue).Nodup := by
  unfold push
  split
  · exact h
  · rename_i hnew
    have hmore : (queue ++ [a]).Nodup := by
      refine List.Nodup.append h (List.nodup_singleton a) fun x hx hxa => ?_
      rw [List.mem_singleton.mp hxa] at hx
      exact hnew hx
    split
    · exact hmore.sublist (List.tail_sublist _)
    · exact hmore

theorem length_push (h : queue.length ≤ capacity) : (push capacity a queue).length ≤ capacity := by
  unfold push
  split
  · exact h
  · split
    · rw [List.length_tail, List.length_append, List.length_singleton]
      omega
    · omega

/-- the elements of a list other than `a`, each counted once -/
def others (a : α) (l : List α) : Nat := (l.filter (· ≠ a)).dedup.length

theorem length_le_others {l newer : List α} (hnodup : newer.Nodup) (ha : a ∉ newer)
    (hsub : ∀ b ∈ newer, b ∈ l) : newer.length ≤ others a l := by
  refine hnodup.length_le_of_subset fun b hb => ?_
  rw [List.mem_dedup, List.mem_filter, decide_eq_true_eq]
  exact ⟨hsub b hb, fun he => ha (he ▸ hb)⟩

theorem others_le_append (a : α) (l l' : List α) : others a l ≤ others a (l ++ l') := by
  refine (List.nodup_dedup _).length_le_of_subset fun b hb => ?_
  rw [List.mem_dedup] at hb ⊢
  rw [List.filter_append]
  exact List.mem_append_left _ hb

def Behind (since : List α) (a : α) (queue : List α) : Prop :=
  ∃ older newer, queue = older ++ a :: newer ∧ (a :: newer).Nodup ∧ ∀ b ∈ newer, b ∈ since

theorem Behind.mem (h : Behind since a queue) : a ∈ queue := by
  obtain ⟨older, newer, rfl, -⟩ := h
  exact List.mem_append_right _ List.mem_cons_self

theorem Behind.mono {since' : List α} (h : Behind since a queue) (hsub : ∀ b ∈ since, b ∈ since') :
    Behind since' a queue :=
  let ⟨older, newer, heq, hnodup, hnewer⟩ := h
  ⟨older, newer, heq, hnodup, fun b hb => hsub b (hnewer b hb)⟩

theorem behind_push (hcapacity : 0 < capacity) (hnew : a ∉ queue) : Behind [] a (push capacity a queue) := by
  have hlast (older : List α) : Behind [] a (older ++ [a]) :=
    ⟨older, [], rfl, List.nodup_singleton a, fun _ hb => absurd hb List.not_mem_nil⟩
  rw [push, if_neg hnew]
  split
  · rename_i hlong
    cases queue with
    | nil =>
      rw [List.nil_append, List.length_singleton] at hlong
      omega
    | cons b queue => exact hlast queue
  · exact hlast queue

/-- **One push behind an element, while there are few others.** -/
theorem Behind.push (h : Behind since a queue) (b : α) (hroom : others a (since ++ [b]) < capacity) :
    Behind (since ++ [b]) a (push capacity b queue) := by
  unfold Fifo.push
  split
  · exact h.mono fun _ hc => List.mem_append_left _ hc
  · rename_i hnew
    obtain ⟨older, newer, rfl, hnodup, hsince⟩ := h
    -- the new element is another one than those that stay behind `a`
    have hmore : (a :: (newer ++ [b])).Nodup := by
      rw [← List.cons_append]
      refine List.Nodup.append hnodup (List.nodup_singleton b) fun c hc hcb => ?_
      rw [List.mem_singleton.mp hcb] at hc
      exact hnew (List.mem_append_right _ hc)
    have hbehind : ∀ c ∈ newer ++ [b], c ∈ since ++ [b] := fun c hc =>
      (List.mem_append.mp hc).elim (fun hc => List.mem_append_left _ (hsince c hc))
        (List.mem_append_right _)
    obtain ⟨ha, htail⟩ := List.nodup_cons.mp hmore
    have hlength := length_le_others htail ha hbehind
    rw [List.append_assoc, List.cons_append]
    split
    · rename_i hlong
      cases older with
      | nil =>
        rw [List.nil_append, List.length_cons] at hlong
        omega
      | cons c older => exact ⟨older, newer ++ [b], rfl, hmore, hbehind⟩
    · exact ⟨older, newer ++ [b], rfl, hmore, hbehind⟩

end Fifo
