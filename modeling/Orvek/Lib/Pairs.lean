import Mathlib.Data.List.Basic
import Mathlib.Data.List.Nodup

/-!
# Opening and closing marks in a list

A list of marks, some of which open an identifier and some of which close one.  The set of
identifiers that are open after a prefix decides where the list may be cut:

* `after s l`     the open set after `l`, starting from `s`;
* `Legal s l`     no mark opens what is open and none closes what is not;
* `Paired l`      every closing mark follows an opening one, and every opening mark is followed
                  by exactly one closing mark;
* `Legal.paired`  a legal list that ends with nothing open and opens nothing twice is paired;
* `cut_keeps`     a cut where nothing is open separates no mark from its answer.
-/

set_option linter.unusedSectionVars false

namespace Pairs
open Std

inductive Mark (κ : Type) where
  | opens (id : κ)
  | closes (id : κ)
  | neutral
  deriving DecidableEq, Repr

def Mark.opened {κ : Type} : Mark κ → Option κ
  | .opens id => some id
  | _ => none

section
variable {κ : Type} [Ord κ] [TransOrd κ] [LawfulEqOrd κ]

abbrev Ids (κ : Type) [Ord κ] [TransOrd κ] : Type := ExtTreeSet κ compare

def step (s : Ids κ) : Mark κ → Ids κ
  | .opens id => s.insert id
  | .closes id => s.erase id
  | .neutral => s

def after (s : Ids κ) (l : List (Mark κ)) : Ids κ := l.foldl step s

variable (s : Ids κ)

theorem after_nil : after s [] = s := rfl
theorem after_cons (m : Mark κ) (l : List (Mark κ)) :
    after s (m :: l) = after (step s m) l := rfl
theorem after_append (a b : List (Mark κ)) :
    after s (a ++ b) = after (after s a) b := List.foldl_append
theorem after_concat (a : List (Mark κ)) (m : Mark κ) : after s (a ++ [m]) = step (after s a) m := by
  rw [after_append, after_cons, after_nil]

attribute [grind =] step

@[simp] theorem mem_step_opens (id x : κ) : x ∈ step s (.opens id) ↔ x = id ∨ x ∈ s := by
  rw [step, ExtTreeSet.mem_insert, LawfulEqOrd.compare_eq_iff_eq, eq_comm]

@[simp] theorem mem_step_closes (id x : κ) : x ∈ step s (.closes id) ↔ x ≠ id ∧ x ∈ s := by
  rw [step, ExtTreeSet.mem_erase, ne_eq, LawfulEqOrd.compare_eq_iff_eq, eq_comm]

@[simp] theorem mem_step_neutral (x : κ) : x ∈ step s .neutral ↔ x ∈ s := Iff.rfl

theorem mem_step (m : Mark κ) (x : κ) : x ∈ step s m ↔ m = .opens x ∨ (x ∈ s ∧ m ≠ .closes x) := by
  cases m with
  | opens id => simp [eq_comm]
  | closes id => simp [and_comm, eq_comm]
  | neutral => simp

variable (l : List (Mark κ))

theorem after_mono {s t : Ids κ} (h : ∀ x ∈ s, x ∈ t) : ∀ x ∈ after s l, x ∈ after t l := by
  induction l generalizing s t with
  | nil => exact h
  | cons m l ih =>
    refine ih fun x hx => ?_
    rw [mem_step] at hx ⊢
    exact hx.imp_right fun hx => ⟨h x hx.1, hx.2⟩

theorem nodup_toList : s.toList.Nodup :=
  s.distinct_toList.imp fun h e => h (LawfulEqOrd.compare_eq_iff_eq.mpr e)

/-- the open set at position `k` of `l` -/
def openAt (l : List (Mark κ)) (k : Nat) : Ids κ := after ∅ (l.take k)

theorem openAt_zero : openAt l 0 = ∅ := rfl
attribute [grind =] openAt

theorem openAt_length : openAt l l.length = after ∅ l := by
  rw [openAt, List.take_length]

theorem after_take_add (l : List (Mark κ)) (i k : Nat) :
    after s (l.take (i + k)) = after (after s (l.take i)) ((l.drop i).take k) := by
  rw [List.take_add, after_append]

theorem openAt_append (a b : List (Mark κ)) (k : Nat) (h : k ≤ a.length) :
    openAt (a ++ b) k = openAt a k := by
  rw [openAt, List.take_append_of_le_length h, openAt]

/-! ## what enters and what leaves the open set -/

theorem opens_of_mem_after (s : Ids κ) (id : κ) (hs : id ∉ s) (h : id ∈ after s l) :
    ∃ i : Nat, l[i]? = some (.opens id) := by
  induction l generalizing s with
  | nil => exact absurd h hs
  | cons m l ih =>
    by_cases hm : id ∈ step s m
    · cases m with
      | opens x =>
        rcases (mem_step_opens s x id).mp hm with rfl | hin
        · exact ⟨0, rfl⟩
        · exact absurd hin hs
      | closes x => exact absurd ((mem_step_closes s x id).mp hm).2 hs
      | neutral => exact absurd hm hs
    · obtain ⟨i, hi⟩ := ih (step s m) hm h
      exact ⟨i + 1, hi⟩

theorem closes_of_not_mem_after (s : Ids κ) (id : κ) (hs : id ∈ s) (h : id ∉ after s l) :
    ∃ i : Nat, l[i]? = some (.closes id) := by
  induction l generalizing s with
  | nil => exact absurd hs h
  | cons m l ih =>
    by_cases hm : id ∈ step s m
    · obtain ⟨i, hi⟩ := ih (step s m) hm h
      exact ⟨i + 1, hi⟩
    · cases m with
      | opens x => exact absurd ((mem_step_opens s x id).mpr (Or.inr hs)) hm
      | closes x =>
        by_cases hx : id = x
        · exact ⟨0, by rw [hx]; rfl⟩
        · exact absurd ((mem_step_closes s x id).mpr ⟨hx, hs⟩) hm
      | neutral => exact absurd hs hm

theorem take_succ_of_getElem? (i : Nat) (m : Mark κ) (h : l[i]? = some m) :
    l.take (i + 1) = l.take i ++ [m] := by
  rw [List.take_add_one, h]; rfl

theorem openAt_succ (i : Nat) (m : Mark κ) (h : l[i]? = some m) :
    openAt l (i + 1) = step (openAt l i) m := by
  rw [openAt, take_succ_of_getElem? l i m h, after_concat, openAt]

/-- an opening mark before `k` whose identifier is closed at `k` has a closing mark between -/
theorem closes_between (i k : Nat) (id : κ) (hi : l[i]? = some (.opens id)) (hik : i < k)
    (h : id ∉ openAt l k) : ∃ j, i < j ∧ j < k ∧ l[j]? = some (.closes id) := by
  have hin : id ∈ openAt l (i + 1) := by
    rw [openAt_succ l i _ hi]
    exact (mem_step_opens _ _ _).mpr (Or.inl rfl)
  obtain ⟨d, rfl⟩ : ∃ d, k = (i + 1) + d := ⟨k - (i + 1), by omega⟩
  rw [openAt, after_take_add] at h
  obtain ⟨j, hj⟩ := closes_of_not_mem_after _ _ id hin h
  have hjd : j < d := by
    have := (List.getElem?_eq_some_iff.mp hj).1
    rw [List.length_take] at this
    omega
  rw [List.getElem?_take_of_lt hjd, List.getElem?_drop] at hj
  exact ⟨i + 1 + j, by omega, by omega, hj⟩

/-- an identifier that is closed at `i` and open at `k` has an opening mark between -/
theorem opens_between (i k : Nat) (id : κ) (hik : i ≤ k) (hi : id ∉ openAt l i) (h : id ∈ openAt l k) :
    ∃ j, i ≤ j ∧ j < k ∧ l[j]? = some (.opens id) := by
  obtain ⟨d, rfl⟩ : ∃ d, k = i + d := ⟨k - i, by omega⟩
  rw [openAt, after_take_add] at h
  obtain ⟨j, hj⟩ := opens_of_mem_after _ _ id hi h
  have hjd : j < d := by
    have := (List.getElem?_eq_some_iff.mp hj).1
    rw [List.length_take] at this
    omega
  rw [List.getElem?_take_of_lt hjd, List.getElem?_drop] at hj
  exact ⟨i + j, by omega, by omega, hj⟩

/-! ## cuts -/

/-- `j` is where the mark that opens `id` at `i` is answered: the first closing mark after it -/
structure Answers (l : List (Mark κ)) (i j : Nat) (id : κ) : Prop where
  opens : l[i]? = some (.opens id)
  closes : l[j]? = some (.closes id)
  lt : i < j
  first : ∀ k, i < k → k < j → l[k]? ≠ some (.closes id)

/-- **A cut where nothing is open separates no mark from its answer.** -/
theorem cut_keeps (k i j : Nat) (id : κ) (hk : openAt l k = ∅) (h : Answers l i j id) : i < k ↔ j < k := by
  constructor
  · intro hik
    obtain ⟨j', h1, h2, h3⟩ := closes_between l i k id h.opens hik (by simp [hk])
    rcases Nat.lt_or_ge j' j with hlt | hge
    · exact absurd h3 (h.first j' h1 hlt)
    · omega
  · intro hjk
    have := h.lt
    omega

/-! ## legal lists -/

def Mark.legal (s : Ids κ) : Mark κ → Prop
  | .opens id => id ∉ s
  | .closes id => id ∈ s
  | .neutral => True

/-- no mark opens what is open, and none closes what is not -/
def Legal (s : Ids κ) : List (Mark κ) → Prop
  | [] => True
  | m :: l => m.legal s ∧ Legal (step s m) l

theorem legal_nil : Legal s [] := trivial
theorem legal_cons (m : Mark κ) (l : List (Mark κ)) :
    Legal s (m :: l) ↔ m.legal s ∧ Legal (step s m) l := Iff.rfl

theorem legal_append (a b : List (Mark κ)) : Legal s (a ++ b) ↔ Legal s a ∧ Legal (after s a) b := by
  induction a generalizing s with
  | nil => simp [legal_nil, after_nil]
  | cons m a ih => rw [List.cons_append, legal_cons, ih, legal_cons, after_cons, and_assoc]

theorem Legal.at_closes {l : List (Mark κ)} (h : Legal ∅ l) (j : Nat) (id : κ)
    (hj : l[j]? = some (.closes id)) : id ∈ openAt l j := by
  obtain ⟨hlt, hget⟩ := List.getElem?_eq_some_iff.mp hj
  have hsplit : l = l.take j ++ (Mark.closes id :: l.drop (j + 1)) := by
    rw [← hget, List.getElem_cons_drop, List.take_append_drop]
  rw [hsplit, legal_append, legal_cons] at h
  exact h.2.1

def opened (l : List (Mark κ)) : List κ := l.filterMap Mark.opened

theorem opened_append (a b : List (Mark κ)) : opened (a ++ b) = opened a ++ opened b :=
  List.filterMap_append

theorem opened_sublist {a b : List (Mark κ)} (h : a.Sublist b) : (opened a).Sublist (opened b) :=
  h.filterMap _

theorem opened_unique {l : List (Mark κ)} (h : (opened l).Nodup) (i j : Nat) (id : κ)
    (hi : l[i]? = some (.opens id)) (hj : l[j]? = some (.opens id)) : i = j := by
  by_contra hne
  wlog hlt : i < j generalizing i j with H
  · exact H j i hj hi (fun e => hne e.symm) (by omega)
  obtain ⟨hli, hget⟩ := List.getElem?_eq_some_iff.mp hi
  have hsplit : l = l.take i ++ (Mark.opens id :: l.drop (i + 1)) := by
    rw [← hget, List.getElem_cons_drop, List.take_append_drop]
  have hmem : Mark.opens id ∈ l.drop (i + 1) := by
    apply List.mem_of_getElem? (i := j - (i + 1))
    rw [List.getElem?_drop, ← hj]
    congr 1
    omega
  have hid : id ∈ opened (l.drop (i + 1)) := List.mem_filterMap.mpr ⟨_, hmem, rfl⟩
  rw [hsplit, opened_append] at h
  have h2 : (id :: opened (l.drop (i + 1))).Nodup := (List.nodup_append.mp h).2.1
  exact (List.nodup_cons.mp h2).1 hid

/-- every closing mark follows an opening one, every opening mark is answered exactly once -/
structure Paired (l : List (Mark κ)) : Prop where
  closed : ∀ (j : Nat) (id : κ), l[j]? = some (.closes id) →
    ∃ i : Nat, i < j ∧ l[i]? = some (.opens id)
  answered : ∀ (i : Nat) (id : κ), l[i]? = some (.opens id) →
    ∃! j : Nat, i < j ∧ l[j]? = some (.closes id)

/-- **Legal lists that end closed are paired.** -/
theorem Legal.paired {l : List (Mark κ)} (h : Legal ∅ l) (hend : after ∅ l = ∅)
    (hu : (opened l).Nodup) : Paired l := by
  constructor
  · intro j id hj
    have hin := h.at_closes j id hj
    obtain ⟨i, _, hij, hi⟩ := opens_between l 0 j id (Nat.zero_le _) (by simp [openAt_zero]) hin
    exact ⟨i, hij, hi⟩
  · intro i id hi
    have hlen : i < l.length := (List.getElem?_eq_some_iff.mp hi).1
    have hout : id ∉ openAt l l.length := by simp [openAt, hend]
    obtain ⟨j, hij, _, hj⟩ := closes_between l i l.length id hi hlen hout
    -- a second answer would need the identifier opened again after the first one
    have huniq : ∀ a b : Nat, i < a → a < b → l[a]? = some (.closes id) →
        l[b]? ≠ some (.closes id) := by
      intro a b hia hab ha hb
      have hclosed : id ∉ openAt l (a + 1) := by
        rw [openAt_succ l a _ ha]
        exact fun hin => ((mem_step_closes _ _ _).mp hin).1 rfl
      obtain ⟨k, hk1, _, hk⟩ := opens_between l (a + 1) b id hab hclosed (h.at_closes b id hb)
      have := opened_unique hu i k id hi hk
      omega
    refine ⟨j, ⟨hij, hj⟩, ?_⟩
    rintro b ⟨hib, hb⟩
    rcases Nat.lt_trichotomy b j with hlt | rfl | hgt
    · exact absurd hj (huniq b j hib hlt hb)
    · rfl
    · exact absurd hb (huniq j b hij hgt hj)

theorem after_neutral (l : List (Mark κ)) (h : ∀ m ∈ l, m = .neutral) : after s l = s := by
  induction l with
  | nil => rfl
  | cons m l ih =>
    rw [h m List.mem_cons_self, after_cons]
    exact ih fun x hx => h x (List.mem_cons_of_mem _ hx)

theorem legal_neutral (l : List (Mark κ)) (h : ∀ m ∈ l, m = .neutral) : Legal s l := by
  induction l with
  | nil => trivial
  | cons m l ih =>
    rw [h m List.mem_cons_self, legal_cons]
    exact ⟨trivial, ih fun x hx => h x (List.mem_cons_of_mem _ hx)⟩

theorem Legal.slice {l : List (Mark κ)} (h : Legal ∅ l) (i k : Nat) (hi : openAt l i = ∅)
    (hk : openAt l (i + k) = ∅) :
    Legal ∅ ((l.drop i).take k) ∧ after ∅ ((l.drop i).take k) = ∅ := by
  have hsplit : l = l.take i ++ ((l.drop i).take k ++ (l.drop i).drop k) := by
    rw [List.take_append_drop, List.take_append_drop]
  rw [openAt] at hi
  rw [openAt, after_take_add, hi] at hk
  rw [hsplit, legal_append, legal_append, hi] at h
  exact ⟨h.2.1, hk⟩

end

end Pairs
