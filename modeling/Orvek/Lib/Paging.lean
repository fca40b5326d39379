import Mathlib.Order.Basic
import Mathlib.Data.List.Basic
import Mathlib.Order.Lattice

/-!
# Pages of a sorted list

A list that is sorted by a key is handed out in pages.  The cursor of a page is the key of its last
element, and the next page begins after it.

* `after`        what is left after a cursor;
* `after_last`   after the last key of a page comes what the page has left;
* `Serves`       what a source of pages has to do: a page that is not too long, in order, and a
                 cursor at its last element unless nothing is left;
* `pageOf`       the source that hands out as much as is asked for.
-/

namespace Paging

variable {α κ : Type} [LinearOrder κ] {key : α → κ} {l page tail : List α} {a : α}

def Sorted (key : α → κ) (l : List α) : Prop := l.Pairwise fun a b => key a < key b

def after (key : α → κ) (cursor : Option κ) (l : List α) : List α :=
  l.filter fun a => cursor.all fun k => k < key a

attribute [grind =] after

theorem after_none (l : List α) : after key none l = l := by
  rw [after, List.filter_eq_self]
  exact fun _ _ => rfl

theorem after_sublist (cursor : Option κ) (l : List α) : (after key cursor l).Sublist l :=
  List.filter_sublist

theorem Sorted.after (h : Sorted key l) (cursor : Option κ) : Sorted key (after key cursor l) :=
  List.Pairwise.filter _ h

theorem after_after {c k : κ} (h : c < k) (l : List α) :
    after key (some k) (after key (some c) l) = after key (some k) l := by
  rw [after, after, List.filter_filter, after]
  refine List.filter_congr fun a _ => ?_
  rw [Option.all_some, Option.all_some, ← Bool.decide_and, decide_eq_decide]
  exact ⟨And.left, fun hk => ⟨hk, h.trans hk⟩⟩

theorem after_of_lt {cursor : Option κ} (h : ∀ a ∈ l, ∀ k ∈ cursor, k < key a) :
    after key cursor l = l := by
  rw [after, List.filter_eq_self]
  intro a ha
  cases cursor with
  | none => rfl
  | some k => exact decide_eq_true (h a ha k rfl)

theorem Sorted.le_last (h : Sorted key page) (hlast : page.getLast? = some a) {b : α} (hb : b ∈ page) :
    key b ≤ key a := by
  obtain ⟨init, rfl⟩ : ∃ init, page = init ++ [a] := List.getLast?_eq_some_iff.mp hlast
  rcases List.mem_append.mp hb with hb | hb
  · exact ((List.pairwise_append.mp h).2.2 b hb a (List.mem_singleton_self a)).le
  · rw [List.mem_singleton.mp hb]

theorem Sorted.after_append (h : Sorted key (page ++ tail)) (hlast : page.getLast? = some a) :
    Paging.after key (some (key a)) (page ++ tail) = tail := by
  obtain ⟨hpage, -, hcross⟩ := List.pairwise_append.mp h
  have hnone : Paging.after key (some (key a)) page = [] := by
    rw [Paging.after, List.filter_eq_nil_iff]
    intro b hb
    have hle : key b ≤ key a := Sorted.le_last hpage hlast hb
    simpa using hle
  have htail : Paging.after key (some (key a)) tail = tail :=
    after_of_lt fun b hb k hk => by
      cases hk
      exact hcross a (List.mem_of_getLast? hlast) b hb
  rw [Paging.after, List.filter_append]
  exact (congrArg₂ (· ++ ·) hnone htail)

/-- **What is left after the last key of a page is what the page has left.** -/
theorem after_last {cursor : Option κ} (hsorted : Sorted key l)
    (hpage : after key cursor l = page ++ tail) (hlast : page.getLast? = some a) :
    after key (some (key a)) l = tail := by
  have hrest : Sorted key (page ++ tail) := hpage ▸ hsorted.after cursor
  have ha : a ∈ after key cursor l := by
    rw [hpage]
    exact List.mem_append_left _ (List.mem_of_getLast? hlast)
  rw [← hrest.after_append hlast, ← hpage]
  cases cursor with
  | none => rw [after_none]
  | some c =>
    have hlt : c < key a := by simpa using (List.mem_filter.mp ha).2
    exact (after_after hlt l).symm

theorem after_first {c : κ} (hsorted : Sorted key l) (h : after key (some c) l = a :: tail) :
    after key (some (key a)) l = tail :=
  have hpage : after key (some c) l = [a] ++ tail := h
  after_last hsorted hpage rfl

/-- a source of the pages of `l`: the answer to a cursor and a positive limit -/
def Serves (key : α → κ) (l : List α) (serve : Option κ → Nat → List α × Option κ) : Prop :=
  ∀ cursor limit, 0 < limit → (serve cursor limit).1.length ≤ limit ∧
    ∃ tail, after key cursor l = (serve cursor limit).1 ++ tail ∧
      ((serve cursor limit).2 = none → tail = []) ∧
      ∀ k, (serve cursor limit).2 = some k → ∃ a, (serve cursor limit).1.getLast? = some a ∧ k = key a

/-- as many elements as are asked for, and a cursor if there are more -/
def pageOf (key : α → κ) (l : List α) (cursor : Option κ) (limit : Nat) : List α × Option κ :=
  let rest := after key cursor l
  let page := rest.take limit
  (page, if limit < rest.length then page.getLast?.map key else none)

theorem pageOf_serves (key : α → κ) (l : List α) : Serves key l (pageOf key l) := by
  intro cursor limit hlimit
  refine ⟨List.length_take_le _ _, (after key cursor l).drop limit, (List.take_append_drop _ _).symm,
    fun hnone => ?_, fun k hk => ?_⟩
  · rw [pageOf] at hnone
    split at hnone
    · rename_i hmore
      rw [Option.map_eq_none_iff, List.getLast?_eq_none_iff, List.take_eq_nil_iff] at hnone
      rcases hnone with hzero | hempty
      · omega
      · rw [hempty] at hmore
        exact absurd hmore (Nat.not_lt_zero _)
    · rw [List.drop_eq_nil_iff]
      omega
  · rw [pageOf] at hk
    split at hk
    · obtain ⟨a, ha, rfl⟩ := Option.map_eq_some_iff.mp hk
      exact ⟨a, ha, rfl⟩
    · cases hk

end Paging
