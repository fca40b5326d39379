import Std.Data.ExtTreeMap.Lemmas
import Std.Data.ExtTreeSet.Lemmas
import Mathlib.Data.List.Nodup

/-!
# Secondary indexes of a list of rows

Rows have identifiers that are used once.  A secondary index is a map from keys of its own to identifiers, and
the primary one gives the position of an identifier.

* `Names m x`       the index `m` has the identifier `x` for some key; what an insertion, a deletion and a
                    selection make of it;
* `Indexes m ids`   the primary index: exactly the position of each identifier; it stays so when a row is appended
                    and when one is taken out and the ones after it are written again;
* `positions ids`   the index collected from the list.
-/

set_option linter.unusedSectionVars false

namespace SecondaryIndex
open Std

section
variable {κ ι : Type} [Ord κ] [TransOrd κ] [LawfulEqOrd κ]
variable {m : ExtTreeMap κ ι compare}

/-- the index has the identifier for some key -/
def Names (m : ExtTreeMap κ ι compare) (x : ι) : Prop := ∃ k : κ, m[k]? = some x

theorem not_names_empty (x : ι) : ¬Names (∅ : ExtTreeMap κ ι compare) x := by
  rintro ⟨k, hk⟩
  simp at hk

theorem names_get {k : κ} {x : ι} (h : m[k]? = some x) : Names m x := ⟨k, h⟩

theorem names_insert {k : κ} {x y : ι} (h : Names (m.insert k x) y) : y = x ∨ Names m y := by
  obtain ⟨k', hk'⟩ := h
  rw [ExtTreeMap.getElem?_insert] at hk'
  split at hk'
  · exact .inl (Option.some.inj hk').symm
  · exact .inr ⟨k', hk'⟩

theorem names_erase {k : κ} {y : ι} (h : Names (m.erase k) y) : Names m y := by
  obtain ⟨k', hk'⟩ := h
  rw [ExtTreeMap.getElem?_erase] at hk'
  split at hk'
  · cases hk'
  · exact ⟨k', hk'⟩

theorem names_filter {p : κ → ι → Bool} {y : ι} (h : Names (m.filter p) y) :
    ∃ k : κ, m[k]? = some y ∧ p k y = true := by
  obtain ⟨k, hk⟩ := h
  have hmem := ExtTreeMap.mem_toList_iff_getElem?_eq_some.mpr hk
  rw [ExtTreeMap.toList_filter, List.mem_filter] at hmem
  exact ⟨k, ExtTreeMap.mem_toList_iff_getElem?_eq_some.mp hmem.1, hmem.2⟩

end

section
variable {ι : Type} [DecidableEq ι] [Ord ι] [TransOrd ι] [LawfulEqOrd ι]
variable {m : ExtTreeMap ι Nat compare} {ids : List ι} {x : ι}

/-- the index has the position of each identifier, and no others -/
def Indexes (m : ExtTreeMap ι Nat compare) (ids : List ι) : Prop := ∀ (x : ι) (i : Nat), m[x]? = some i ↔ ids[i]? = some x

theorem indexes_of (hat : ∀ (x : ι) (i : Nat), ids[i]? = some x → m[x]? = some i)
    (hout : ∀ x ∉ ids, m[x]? = none) : Indexes m ids := by
  refine fun x i => ⟨fun hx => ?_, hat x i⟩
  by_cases hmem : x ∈ ids
  · obtain ⟨j, hj⟩ := List.mem_iff_getElem?.mp hmem
    have hsame := hat x j hj
    rw [hx] at hsame
    rw [Option.some.inj hsame]
    exact hj
  · rw [hout x hmem] at hx
    cases hx

theorem Indexes.not_mem (h : Indexes m ids) (hx : x ∉ ids) : m[x]? = none := by
  cases hm : m[x]? with
  | none => rfl
  | some i => exact absurd (List.mem_of_getElem? ((h x i).mp hm)) hx

theorem Indexes.mem (h : Indexes m ids) (hx : x ∈ ids) : ∃ i, m[x]? = some i := by
  obtain ⟨i, hi⟩ := List.mem_iff_getElem?.mp hx
  exact ⟨i, (h x i).mpr hi⟩

theorem Indexes.append (h : Indexes m ids) (hx : x ∉ ids) :
    Indexes (m.insert x ids.length) (ids ++ [x]) := by
  refine indexes_of (fun y i hi => ?_) fun y hy => ?_
  · rw [ExtTreeMap.getElem?_insert]
    rcases Nat.lt_or_ge i ids.length with hlt | hge
    · rw [List.getElem?_append_left hlt] at hi
      have hne : ¬compare x y = .eq := fun he => hx (LawfulEqCmp.compare_eq_iff_eq.mp he ▸ List.mem_of_getElem? hi)
      rw [if_neg hne]
      exact (h y i).mpr hi
    · rw [List.getElem?_append_right hge] at hi
      have hlast : i - ids.length = 0 := by
        have := (List.getElem?_eq_some_iff.mp hi).1
        rw [List.length_singleton] at this
        omega
      rw [hlast] at hi
      obtain rfl : x = y := Option.some.inj hi
      rw [if_pos ReflCmp.compare_self, Nat.le_antisymm (Nat.sub_eq_zero_iff_le.mp hlast) hge]
  · obtain ⟨hy, hne⟩ := not_or.mp (mt List.mem_append.mpr hy)
    rw [ExtTreeMap.getElem?_insert, if_neg fun he => hne (by rw [LawfulEqCmp.compare_eq_iff_eq.mp he]; simp)]
    exact h.not_mem hy

def positions (ids : List ι) : ExtTreeMap ι Nat compare := .ofList ids.zipIdx compare

theorem indexes_positions (h : ids.Nodup) : Indexes (positions ids) ids := by
  have hdistinct : ids.zipIdx.Pairwise fun a b => ¬compare a.1 b.1 = .eq := by
    have hfst : (ids.zipIdx.map Prod.fst).Nodup := by simpa using h
    exact (List.pairwise_map.mp hfst).imp fun hne he => hne (LawfulEqCmp.compare_eq_iff_eq.mp he)
  refine indexes_of (fun x i hi => ?_) fun x hx => ?_
  · exact ExtTreeMap.getElem?_ofList_of_mem ReflCmp.compare_self hdistinct (List.mk_mem_zipIdx_iff_getElem?.mpr hi)
  · refine ExtTreeMap.getElem?_ofList_of_contains_eq_false (Bool.eq_false_iff.mpr fun hc => hx ?_)
    simpa using hc

/-- the positions from one on are written again -/
def reindex (m : ExtTreeMap ι Nat compare) (ids : List ι) (start : Nat) : ExtTreeMap ι Nat compare :=
  (ids.zipIdx.drop start).foldl (fun m e => m.insert e.1 e.2) m

theorem foldl_insert_mem {l : List (ι × Nat)} (h : (l.map Prod.fst).Nodup) (m : ExtTreeMap ι Nat compare)
    {i : Nat} (hmem : (x, i) ∈ l) : (l.foldl (fun m e => m.insert e.1 e.2) m)[x]? = some i := by
  induction l generalizing m with
  | nil => cases hmem
  | cons e l ih =>
    obtain ⟨hfresh, hnodup⟩ := List.nodup_cons.mp h
    rcases List.mem_cons.mp hmem with rfl | hmem
    · have hkeep : ∀ m : ExtTreeMap ι Nat compare, (l.foldl (fun m e => m.insert e.1 e.2) m)[x]? = m[x]? := by
        clear ih hmem h hnodup
        induction l with
        | nil => exact fun m => rfl
        | cons e l ih =>
          intro m
          obtain ⟨hne, hfresh⟩ := not_or.mp (mt List.mem_cons.mpr hfresh)
          rw [List.foldl_cons, ih hfresh, ExtTreeMap.getElem?_insert,
            if_neg fun he => hne (LawfulEqCmp.compare_eq_iff_eq.mp he).symm]
      rw [List.foldl_cons, hkeep]
      exact ExtTreeMap.getElem?_insert_self
    · exact ih hnodup _ hmem

theorem foldl_insert_not_mem {l : List (ι × Nat)} (m : ExtTreeMap ι Nat compare) (h : x ∉ l.map Prod.fst) :
    (l.foldl (fun m e => m.insert e.1 e.2) m)[x]? = m[x]? := by
  induction l generalizing m with
  | nil => rfl
  | cons e l ih =>
    obtain ⟨hne, hrest⟩ := not_or.mp (mt List.mem_cons.mpr h)
    rw [List.foldl_cons, ih _ hrest, ExtTreeMap.getElem?_insert,
      if_neg fun he => hne (LawfulEqCmp.compare_eq_iff_eq.mp he).symm]

/-- without one row, with the positions after it written again -/
theorem Indexes.eraseIdx (h : Indexes m ids) (hnodup : ids.Nodup) {i : Nat} (hi : ids[i]? = some x) :
    Indexes (reindex (m.erase x) (ids.eraseIdx i) i) (ids.eraseIdx i) := by
  have hnodup' : (ids.eraseIdx i).Nodup := (List.eraseIdx_sublist ids i).nodup hnodup
  have hkeys : ((ids.eraseIdx i).zipIdx.drop i).map Prod.fst = (ids.eraseIdx i).drop i := by
    rw [List.map_drop, List.zipIdx_map_fst]
  have hlen : i < ids.length := (List.getElem?_eq_some_iff.mp hi).1
  have hinj : ∀ {a b : Nat} {y : ι}, ids[a]? = some y → ids[b]? = some y → a = b := fun ha hb =>
    (List.getElem?_inj (List.getElem?_eq_some_iff.mp ha).1 hnodup).mp (ha.trans hb.symm)
  have hx : x ∉ ids.eraseIdx i := by
    intro hmem
    obtain ⟨k, hk, hget⟩ := List.mem_eraseIdx_iff_getElem?.mp hmem
    exact hk (hinj hget hi)
  refine indexes_of (fun y j hj => ?_) fun y hy => ?_
  · rcases Nat.lt_or_ge j i with hlt | hge
    · have hy : y ∉ ((ids.eraseIdx i).zipIdx.drop i).map Prod.fst := by
        rw [hkeys]
        intro hmem
        obtain ⟨k, hk⟩ := List.mem_iff_getElem?.mp hmem
        rw [List.getElem?_drop] at hk
        have hsame := (List.getElem?_inj (List.getElem?_eq_some_iff.mp hj).1 hnodup').mp (hj.trans hk.symm)
        omega
      have hne : x ≠ y := fun he => hx (he ▸ List.mem_of_getElem? hj)
      rw [reindex, foldl_insert_not_mem _ hy, ExtTreeMap.getElem?_erase,
        if_neg fun he => hne (LawfulEqCmp.compare_eq_iff_eq.mp he)]
      rw [List.getElem?_eraseIdx_of_lt hlt] at hj
      exact (h y j).mpr hj
    · refine foldl_insert_mem ?_ _ ?_
      · rw [hkeys]
        exact hnodup'.sublist (List.drop_sublist _ _)
      · refine List.mem_iff_getElem?.mpr ⟨j - i, ?_⟩
        rw [List.getElem?_drop, Nat.add_sub_cancel' hge, List.getElem?_zipIdx, hj]
        simp
  · have hout : y ∉ ((ids.eraseIdx i).zipIdx.drop i).map Prod.fst := by
      rw [hkeys]
      exact fun hmem => hy (List.mem_of_mem_drop hmem)
    rw [reindex, foldl_insert_not_mem _ hout, ExtTreeMap.getElem?_erase]
    split
    · rfl
    · rename_i hne
      refine h.not_mem fun hmem => hy ?_
      obtain ⟨k, hk⟩ := List.mem_iff_getElem?.mp hmem
      refine List.mem_eraseIdx_iff_getElem?.mpr ⟨k, ?_, hk⟩
      rintro rfl
      rw [hi] at hk
      exact hne (LawfulEqCmp.compare_eq_iff_eq.mpr (Option.some.inj hk))

end

end SecondaryIndex
