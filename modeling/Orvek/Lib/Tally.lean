import Mathlib.Data.List.Perm.Basic
import Mathlib.Algebra.BigOperators.Group.List.Basic
import Mathlib.Algebra.GroupWithZero.Nat

/-!
# Totals over a map

The sum of a quantity over the entries of an ordered map, and how it changes with one entry:

* `perm_toList_insert`   the entries after an insertion, in some order;
* `total`                the sum over the values;
* `total_insert`         the balance of an insertion that may replace a value.
-/

set_option linter.unusedSectionVars false

namespace Tally
open Std

section
variable {κ β : Type} [Ord κ] [TransOrd κ] [LawfulEqOrd κ]
variable (m : ExtTreeMap κ β compare)

theorem nodup_keys : (m.toList.map Prod.fst).Nodup := by
  have h := m.distinct_keys_toList
  rw [List.Nodup, List.pairwise_map]
  exact h.imp fun hne he => hne (LawfulEqOrd.compare_eq_iff_eq.mpr he)

theorem nodup_entries : m.toList.Nodup := by
  refine (List.pairwise_map.mp (nodup_keys m)).imp fun hne he => hne ?_
  rw [he]

theorem mem_toList {m : ExtTreeMap κ β compare} {k : κ} {v : β} : (k, v) ∈ m.toList ↔ m[k]? = some v :=
  ExtTreeMap.mem_toList_iff_getElem?_eq_some

/-- **A list of the keys whose values satisfy a predicate counts these values.** -/
theorem length_filter_values {m : ExtTreeMap κ β compare} {p : β → Bool} {order : List κ}
    (hnodup : order.Nodup) (h : ∀ k, k ∈ order ↔ ∃ v, m[k]? = some v ∧ p v = true) :
    ((m.toList.map Prod.snd).filter p).length = order.length := by
  have hkeys : ((m.toList.filter fun e => p e.2).map Prod.fst).Nodup :=
    (nodup_keys m).sublist (List.filter_sublist.map Prod.fst)
  have hperm : ((m.toList.filter fun e => p e.2).map Prod.fst).Perm order := by
    refine (List.perm_ext_iff_of_nodup hkeys hnodup).mpr fun k => ?_
    rw [h k, List.mem_map]
    constructor
    · rintro ⟨⟨a, v⟩, he, rfl⟩
      obtain ⟨hm, hp⟩ := List.mem_filter.mp he
      exact ⟨v, mem_toList.mp hm, hp⟩
    · rintro ⟨v, hv, hp⟩
      exact ⟨(k, v), List.mem_filter.mpr ⟨mem_toList.mpr hv, hp⟩, rfl⟩
  rw [← hperm.length_eq, List.length_map, List.filter_map, List.length_map]
  rfl

variable [DecidableEq κ]

theorem get_insert (k : κ) (v : β) (a : κ) : (m.insert k v)[a]? = if a = k then some v else m[a]? := by
  rw [ExtTreeMap.getElem?_insert]
  by_cases he : a = k
  · rw [if_pos he, if_pos (LawfulEqOrd.compare_eq_iff_eq.mpr he.symm)]
  · rw [if_neg he, if_neg fun hc => he (LawfulEqOrd.compare_eq_iff_eq.mp hc).symm]

theorem size_insert (k : κ) (v : β) :
    (m.insert k v).size = if m[k]?.isSome = true then m.size else m.size + 1 := by
  rw [ExtTreeMap.size_insert]
  by_cases hk : k ∈ m
  · rw [if_pos (ExtTreeMap.contains_iff_mem.mpr hk),
      if_pos (ExtTreeMap.mem_iff_isSome_getElem?.mp hk)]
  · rw [if_neg fun hc => hk (ExtTreeMap.contains_iff_mem.mp hc),
      if_neg fun hc => hk (ExtTreeMap.mem_iff_isSome_getElem?.mpr hc)]

theorem perm_toList_insert (k : κ) (v : β) :
    (m.insert k v).toList.Perm ((k, v) :: m.toList.filter fun e => e.1 ≠ k) := by
  have hnodup : ((k, v) :: m.toList.filter fun e => e.1 ≠ k).Nodup := by
    refine List.nodup_cons.mpr ⟨fun h => ?_, (nodup_entries m).filter _⟩
    simpa using (List.mem_filter.mp h).2
  refine (List.perm_ext_iff_of_nodup (nodup_entries _) hnodup).mpr fun ⟨a, b⟩ => ?_
  rw [mem_toList, ExtTreeMap.getElem?_insert, List.mem_cons, List.mem_filter, mem_toList]
  split
  · rename_i he
    rw [LawfulEqOrd.compare_eq_iff_eq] at he
    subst he
    simp [eq_comm]
  · rename_i he
    rw [LawfulEqOrd.compare_eq_iff_eq] at he
    simp [Ne.symm he]

theorem perm_toList_of_get {m : ExtTreeMap κ β compare} {k : κ} {v : β} (h : m[k]? = some v) :
    m.toList.Perm ((k, v) :: m.toList.filter fun e => e.1 ≠ k) := by
  have hsame : m.insert k v = m := by
    refine ExtTreeMap.ext_getElem? fun a => ?_
    rw [ExtTreeMap.getElem?_insert]
    split
    · rename_i he
      rw [LawfulEqOrd.compare_eq_iff_eq] at he
      rw [← he, h]
    · rfl
  have hperm := perm_toList_insert m k v
  rwa [hsame] at hperm

theorem filter_of_get_none {m : ExtTreeMap κ β compare} {k : κ} (h : m[k]? = none) :
    (m.toList.filter fun e => e.1 ≠ k) = m.toList := by
  refine List.filter_eq_self.mpr fun ⟨a, b⟩ hmem => ?_
  rw [mem_toList] at hmem
  have hne : a ≠ k := by
    rintro rfl
    rw [h] at hmem
    cases hmem
  simpa using hne

/-- the sum of a quantity over the values of a map -/
def total (f : β → Nat) (m : ExtTreeMap κ β compare) : Nat := (m.toList.map fun e => f e.2).sum

attribute [grind =] total

theorem total_empty (f : β → Nat) : total f (∅ : ExtTreeMap κ β compare) = 0 := by
  rw [total, List.map_eq_nil_iff.mpr (ExtTreeMap.toList_eq_nil_iff.mpr rfl), List.sum_nil]

/-- **The balance of an insertion**: the old value leaves the sum when the new one enters it. -/
theorem total_insert (f : β → Nat) (m : ExtTreeMap κ β compare) (k : κ) (v : β) :
    total f (m.insert k v) + (m[k]?.map f).getD 0 = total f m + f v := by
  have hnew : total f (m.insert k v) =
      f v + ((m.toList.filter fun e => e.1 ≠ k).map fun e => f e.2).sum :=
    ((perm_toList_insert m k v).map _).sum_eq
  cases hget : m[k]? with
  | none =>
    rw [filter_of_get_none hget] at hnew
    rw [hnew, total, Option.map_none, Option.getD_none]
    omega
  | some old =>
    have hold : total f m = f old + ((m.toList.filter fun e => e.1 ≠ k).map fun e => f e.2).sum :=
      ((perm_toList_of_get hget).map _).sum_eq
    rw [hnew, hold, Option.map_some, Option.getD_some]
    omega

theorem total_insert_new (f : β → Nat) {m : ExtTreeMap κ β compare} {k : κ} (v : β)
    (h : m[k]? = none) : total f (m.insert k v) = total f m + f v := by
  have := total_insert f m k v
  rwa [h] at this

end

end Tally
