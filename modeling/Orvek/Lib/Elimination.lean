import Mathlib.Data.List.Perm.Subperm
import Mathlib.Data.Set.Finite.List
import Mathlib.Logic.Relation
import Mathlib.Order.WellFounded

/-!
# Elimination of nodes without open needs

Nodes have a name and a list of the names that they need.

* `Needed`                     one name is needed by the node of another;
* `Ordered`                    a list of nodes, the newest first, each after all that it needs;
* `Ordered.acc`                no infinite chain of needs begins in such a list;
* `acc_of_stuck`               a set that no node can be added to has every name without such a chain;
* `acc_of_no_cycle`            among finitely many nodes an infinite chain runs through a cycle.
-/

namespace Elimination

variable {α κ : Type} (key : α → κ) (needs : α → List κ)

/-- the name `k` is needed by a node with the name `k'` -/
def Needed (nodes : List α) (k k' : κ) : Prop := ∃ a ∈ nodes, key a = k' ∧ k ∈ needs a

inductive Ordered : List α → Prop
  | nil : Ordered []
  | cons {a : α} {l : List α} (h : Ordered l) (hneeds : ∀ k ∈ needs a, k ∈ l.map key)
      (hnew : key a ∉ l.map key) : Ordered (a :: l)

variable {key needs} {nodes l : List α}

theorem Ordered.nodup (h : Ordered key needs l) : (l.map key).Nodup := by
  induction h with
  | nil => exact List.nodup_nil
  | cons _ _ hnew ih => exact List.nodup_cons.mpr ⟨hnew, ih⟩

theorem Ordered.older (h : Ordered key needs l) :
    ∀ {newer older : List α} {a : α}, l = newer ++ a :: older → ∀ k ∈ needs a, k ∈ older.map key := by
  induction h with
  | nil =>
    intro newer older a he
    cases newer <;> cases he
  | cons _ hneeds _ ih =>
    intro newer older a he
    cases newer with
    | nil =>
      cases he
      exact hneeds
    | cons b newer =>
      obtain ⟨-, he⟩ := List.cons.inj he
      exact ih he

theorem Ordered.before (h : Ordered key needs l) {first last : List α} {a : α}
    (he : l.reverse = first ++ a :: last) : ∀ k ∈ needs a, k ∈ first.map key := by
  have hl : l = last.reverse ++ a :: first.reverse := by
    rw [← List.reverse_reverse l, he, List.reverse_append, List.reverse_cons, List.append_assoc]
    rfl
  intro k hk
  have hmem := h.older hl k hk
  rwa [List.map_reverse, List.mem_reverse] at hmem

theorem Ordered.length_le (h : Ordered key needs l) (hsub : ∀ a ∈ l, a ∈ nodes) :
    l.length ≤ nodes.length :=
  (List.Nodup.subperm (h.nodup.of_map key) hsub).length_le

theorem Ordered.perm (h : Ordered key needs l) (hsub : ∀ a ∈ l, a ∈ nodes)
    (hlen : l.length = nodes.length) : l.Perm nodes :=
  (List.Nodup.subperm (h.nodup.of_map key) hsub).perm_of_length_le hlen.ge

/-! ## chains -/

theorem Needed.named {k k' : κ} (h : Needed key needs nodes k k') : k' ∈ nodes.map key := by
  obtain ⟨a, ha, rfl, -⟩ := h
  exact List.mem_map_of_mem ha

theorem Ordered.acc (h : Ordered key needs l) (hnodup : (nodes.map key).Nodup)
    (hsub : ∀ a ∈ l, a ∈ nodes) : ∀ k ∈ l.map key, Acc (Needed key needs nodes) k := by
  induction h with
  | nil => exact nofun
  | @cons a l _ hneeds _ ih =>
    have hold := ih fun b hb => hsub b (List.mem_cons_of_mem a hb)
    intro k hk
    rcases List.mem_cons.mp hk with rfl | hk
    · refine ⟨_, fun d hd => ?_⟩
      obtain ⟨b, hb, hkey, hd⟩ := hd
      have hba : b = a := List.inj_on_of_nodup_map hnodup hb (hsub a List.mem_cons_self) hkey
      rw [hba] at hd
      exact hold d (hneeds d hd)
    · exact hold k hk

theorem acc_of_stuck {p : κ → Prop} (hstuck : ∀ a ∈ nodes, (∀ k ∈ needs a, p k) → p (key a))
    (hover : ∀ a ∈ nodes, ∀ k ∈ needs a, k ∈ nodes.map key) {k : κ}
    (hacc : Acc (Needed key needs nodes) k) (hk : k ∈ nodes.map key) : p k := by
  induction hacc with
  | intro k _ ih =>
    obtain ⟨a, ha, rfl⟩ := List.mem_map.mp hk
    exact hstuck a ha fun d hd => ih d ⟨a, ha, rfl, hd⟩ (hover a ha d hd)

theorem not_cycle_of_acc {k : κ} (h : Acc (Needed key needs nodes) k) :
    ¬ Relation.TransGen (Needed key needs nodes) k k := by
  have hacc : Acc (Relation.TransGen (Needed key needs nodes)) k := h.transGen
  clear h
  induction hacc with
  | intro k _ ih => exact fun hcycle => ih k hcycle hcycle

/-- without a cycle there is no infinite chain: there are finitely many names -/
theorem acc_of_no_cycle (h : ∀ k, ¬ Relation.TransGen (Needed key needs nodes) k k) (k : κ) :
    Acc (Needed key needs nodes) k := by
  let r : {k // k ∈ nodes.map key} → {k // k ∈ nodes.map key} → Prop :=
    fun x y => Relation.TransGen (Needed key needs nodes) x.1 y.1
  have hwf : WellFounded r := by
    have : Finite {k // k ∈ nodes.map key} := List.finite_toSet (nodes.map key)
    have : IsTrans _ r := ⟨fun _ _ _ hxy hyz => hxy.trans hyz⟩
    have : Std.Irrefl r := ⟨fun x => h x.1⟩
    exact Finite.wellFounded_of_trans_of_irrefl r
  have hleaf : ∀ k, k ∉ nodes.map key → Acc (Needed key needs nodes) k :=
    fun k hk => ⟨k, fun d hd => absurd hd.named hk⟩
  have hnamed : ∀ x : {k // k ∈ nodes.map key}, Acc (Needed key needs nodes) x.1 := by
    intro x
    induction x using hwf.induction with
    | _ x ih =>
      refine ⟨_, fun d hd => ?_⟩
      by_cases hd' : d ∈ nodes.map key
      · exact ih ⟨d, hd'⟩ (Relation.TransGen.single hd)
      · exact hleaf d hd'
  by_cases hk : k ∈ nodes.map key
  · exact hnamed ⟨k, hk⟩
  · exact hleaf k hk

end Elimination
