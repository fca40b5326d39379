import Mathlib.Data.List.Nodup
import Mathlib.Data.List.Pairwise
import Mathlib.Data.List.Perm.Subperm

/-!
# Forests

A pointer to a parent for each node makes a forest when every node has a lineage: the nodes from it
up to a node without a parent.  Read downwards, it is a list of trees.

* `Lineage`             the nodes from a node up to its root;
* `Forest`              lists of trees, in the form first tree, other trees;
* `Forest.Follows`      the trees are those of a table of children;
* `exists_follows`      where all have a lineage, the table of children has trees;
* `Forest.spots`        a drawing: each tree over its subtrees, these side by side;
* `Forest.apart_of_ne`  in it the nodes of one level are apart.
-/

namespace Forests

variable {α : Type}

/-! ## upwards -/

inductive Lineage (parent : α → Option α) : α → List α → Prop
  | root {x : α} (h : parent x = none) : Lineage parent x [x]
  | child {x p : α} {l : List α} (h : parent x = some p) (hp : Lineage parent p l) :
      Lineage parent x (x :: l)

variable {parent : α → Option α} {x y p : α} {l l' : List α}

theorem Lineage.unique (h : Lineage parent x l) (h' : Lineage parent x l') : l = l' := by
  induction h generalizing l' with
  | root h =>
    cases h' with
    | root _ => rfl
    | child h' _ => rw [h] at h'; exact nomatch h'
  | child h _ ih =>
    cases h' with
    | root h' => rw [h] at h'; exact nomatch h'
    | child h' hp =>
      rw [h] at h'
      obtain rfl := Option.some.inj h'
      rw [ih hp]

theorem Lineage.ancestor (h : Lineage parent x l) (hy : y ∈ l) :
    ∃ l', Lineage parent y l' ∧ l' <:+ l := by
  induction h with
  | root h =>
    obtain rfl := List.mem_singleton.mp hy
    exact ⟨_, .root h, List.suffix_refl _⟩
  | child h hp ih =>
    rcases List.mem_cons.mp hy with rfl | hy
    · exact ⟨_, .child h hp, List.suffix_refl _⟩
    · obtain ⟨l', hl', hend⟩ := ih hy
      exact ⟨l', hl', hend.trans (List.suffix_cons _ _)⟩

theorem Lineage.nodup (h : Lineage parent x l) : l.Nodup := by
  induction h with
  | root _ => exact List.nodup_singleton _
  | child h hp ih =>
    refine List.nodup_cons.mpr ⟨fun hx => ?_, ih⟩
    obtain ⟨l', hl', hend⟩ := hp.ancestor hx
    have hlength := hend.length_le
    rw [hl'.unique (.child h hp), List.length_cons] at hlength
    omega

theorem Lineage.length_le (h : Lineage parent x l) {ids : List α} (hx : x ∈ ids)
    (hids : ∀ c p, parent c = some p → p ∈ ids) : l.length ≤ ids.length := by
  have hmem : ∀ y ∈ l, y ∈ ids := by
    induction h with
    | root _ =>
      intro y hy
      rwa [List.mem_singleton.mp hy]
    | child h _ ih =>
      intro y hy
      rcases List.mem_cons.mp hy with rfl | hy
      · exact hx
      · exact ih (hids _ _ h) y hy
  exact (List.subperm_of_subset h.nodup hmem).length_le

theorem Lineage.mono {parent' : α → Option α}
    (hparent : ∀ c, parent' c = none ∨ parent' c = parent c) (h : Lineage parent x l) :
    ∃ l', Lineage parent' x l' := by
  induction h with
  | @root x h =>
    refine ⟨_, .root ?_⟩
    rcases hparent x with h' | h'
    · exact h'
    · rw [h', h]
  | @child x p l h _ ih =>
    obtain ⟨l', hl'⟩ := ih
    rcases hparent x with h' | h'
    · exact ⟨_, .root h'⟩
    · exact ⟨_, .child (h'.trans h) hl'⟩

/-! ## downwards -/

inductive Forest (α : Type) where
  | nil
  | cons (label : α) (branches others : Forest α)

namespace Forest

variable {start : List α}

/-- the roots -/
def tops : Forest α → List α
  | nil => []
  | cons a _ others => a :: others.tops

def labels : Forest α → List α
  | nil => []
  | cons a branches others => a :: (branches.labels ++ others.labels)

def height : Forest α → Nat
  | nil => 0
  | cons _ branches others => max (branches.height + 1) others.height

/-- the trees are those of a table of children -/
def Follows (children : α → Option (List α)) : Forest α → Prop
  | nil => True
  | cons a branches others =>
    children a = some branches.tops ∧ branches.Follows children ∧ others.Follows children

theorem height_le (f : Forest α) : f.height ≤ f.labels.length := by
  induction f with
  | nil => exact Nat.le_refl _
  | cons a branches others ihb iho =>
    show max (branches.height + 1) others.height ≤ (branches.labels ++ others.labels).length + 1
    rw [List.length_append]
    omega

variable {children : α → Option (List α)} {f : Forest α}

theorem tops_subset (f : Forest α) : ∀ a ∈ f.tops, a ∈ f.labels := by
  induction f with
  | nil => exact fun _ h => h
  | cons a branches others _ iho =>
    intro b hb
    rcases List.mem_cons.mp hb with rfl | hb
    · exact List.mem_cons_self
    · exact List.mem_cons_of_mem _ (List.mem_append_right _ (iho b hb))

theorem Follows.child (h : f.Follows children) {c : α} {cs : List α} (hp : p ∈ f.labels)
    (hchildren : children p = some cs) (hc : c ∈ cs) : c ∈ f.labels := by
  induction f with
  | nil => exact nomatch hp
  | cons a branches others ihb iho =>
    obtain ⟨ha, hbranches, hothers⟩ := h
    rcases List.mem_cons.mp hp with rfl | hp
    · rw [ha] at hchildren
      obtain rfl := Option.some.inj hchildren
      exact List.mem_cons_of_mem _ (List.mem_append_left _ (branches.tops_subset c hc))
    · rcases List.mem_append.mp hp with hp | hp
      · exact List.mem_cons_of_mem _ (List.mem_append_left _ (ihb hbranches hp))
      · exact List.mem_cons_of_mem _ (List.mem_append_right _ (iho hothers hp))

theorem Follows.unique {g : Forest α} (h : f.Follows children) (h' : g.Follows children)
    (htops : f.tops = g.tops) : f = g := by
  induction f generalizing g with
  | nil =>
    cases g with
    | nil => rfl
    | cons _ _ _ => exact nomatch htops
  | cons a branches others ihb iho =>
    cases g with
    | nil => exact nomatch htops
    | cons b branches' others' =>
      obtain ⟨ha, hbranches, hothers⟩ := h
      obtain ⟨hb, hbranches', hothers'⟩ := h'
      obtain ⟨rfl, hrest⟩ := List.cons.inj htops
      rw [ihb hbranches hbranches' (Option.some.inj (ha.symm.trans hb)), iho hothers hothers' hrest]

/-! ## both ways -/

/-- what the pointers and the table of children say of each other -/
structure Linked (parent : α → Option α) (children : α → Option (List α)) (ids : List α) :
    Prop where
  pointer : ∀ c p, parent c = some p → c ∈ ids ∧ p ∈ ids
  table : ∀ p ∈ ids, ∃ cs, children p = some cs ∧ cs.Nodup ∧ ∀ c, c ∈ cs ↔ parent c = some p

variable {ids : List α}

/-- every node of a forest has the root that it stands under in its lineage -/
theorem Follows.lineage (hlinked : Linked parent children ids) (h : f.Follows children)
    (htops : ∀ a ∈ f.tops, a ∈ ids ∧ Lineage parent a (a :: start)) :
    ∀ y ∈ f.labels, y ∈ ids ∧ ∃ a ∈ f.tops, ∃ l, Lineage parent y l ∧ a :: start <:+ l := by
  induction f generalizing start with
  | nil => exact fun _ h => nomatch h
  | cons a branches others ihb iho =>
    obtain ⟨ha, hbranches, hothers⟩ := h
    obtain ⟨hid, hline⟩ := htops a List.mem_cons_self
    obtain ⟨cs, hcs, -, hiff⟩ := hlinked.table a hid
    obtain rfl := Option.some.inj (hcs.symm.trans ha)
    have hkids : ∀ c ∈ branches.tops, c ∈ ids ∧ Lineage parent c (c :: (a :: start)) := fun c hc =>
      ⟨(hlinked.pointer c a ((hiff c).mp hc)).1, .child ((hiff c).mp hc) hline⟩
    intro y hy
    rcases List.mem_cons.mp hy with rfl | hy
    · exact ⟨hid, y, List.mem_cons_self, _, hline, List.suffix_refl _⟩
    · rcases List.mem_append.mp hy with hy | hy
      · obtain ⟨hyid, c, -, l, hl, hend⟩ := ihb hbranches hkids y hy
        exact ⟨hyid, a, List.mem_cons_self, l, hl, (List.suffix_cons _ _).trans hend⟩
      · obtain ⟨hyid, b, hb, l, hl, hend⟩ :=
          iho hothers (fun b hb => htops b (List.mem_cons_of_mem _ hb)) y hy
        exact ⟨hyid, b, List.mem_cons_of_mem _ hb, l, hl, hend⟩

theorem heads_eq {a b : α} (ha : a :: start <:+ l) (hb : b :: start <:+ l) : a = b := by
  have he : a :: start = b :: start :=
    (List.suffix_of_suffix_length_le ha hb (Nat.le_refl _)).eq_of_length rfl
  exact (List.cons.inj he).1

/-- no node stands twice in the trees of different roots -/
theorem Follows.nodup (hlinked : Linked parent children ids) (h : f.Follows children)
    (htops : ∀ a ∈ f.tops, a ∈ ids ∧ Lineage parent a (a :: start)) (hnodup : f.tops.Nodup) :
    f.labels.Nodup := by
  induction f generalizing start with
  | nil => exact List.nodup_nil
  | cons a branches others ihb iho =>
    obtain ⟨ha, hbranches, hothers⟩ := h
    obtain ⟨hid, hline⟩ := htops a List.mem_cons_self
    obtain ⟨cs, hcs, hdistinct, hiff⟩ := hlinked.table a hid
    obtain rfl := Option.some.inj (hcs.symm.trans ha)
    have hkids : ∀ c ∈ branches.tops, c ∈ ids ∧ Lineage parent c (c :: (a :: start)) := fun c hc =>
      ⟨(hlinked.pointer c a ((hiff c).mp hc)).1, .child ((hiff c).mp hc) hline⟩
    have hrest : ∀ b ∈ others.tops, b ∈ ids ∧ Lineage parent b (b :: start) :=
      fun b hb => htops b (List.mem_cons_of_mem _ hb)
    rw [tops, List.nodup_cons] at hnodup
    have hbelow := hbranches.lineage hlinked hkids
    have hbeside := hothers.lineage hlinked hrest
    -- whatever stands in the other trees has another root
    have hother : ∀ y ∈ others.labels, ∀ l, Lineage parent y l → ¬ a :: start <:+ l := by
      intro y hy l hl hend
      obtain ⟨-, b, hb, l', hl', hend'⟩ := hbeside y hy
      rw [hl.unique hl'] at hend
      exact hnodup.1 (heads_eq hend hend' ▸ hb)
    refine List.nodup_cons.mpr ⟨fun hmem => ?_, List.nodup_append.mpr
      ⟨ihb hbranches hkids hdistinct, iho hothers hrest hnodup.2, ?_⟩⟩
    · rcases List.mem_append.mp hmem with hmem | hmem
      · obtain ⟨-, c, -, l, hl, hend⟩ := hbelow a hmem
        have hlength := hend.length_le
        rw [hl.unique hline, List.length_cons, List.length_cons] at hlength
        omega
      · exact hother a hmem _ hline (List.suffix_refl _)
    · rintro y hy _ hy' rfl
      obtain ⟨-, c, -, l, hl, hend⟩ := hbelow y hy
      exact hother y hy' l hl ((List.suffix_cons _ _).trans hend)

theorem exists_of_trees {cs : List α}
    (h : ∀ c ∈ cs, ∃ branches : Forest α, children c = some branches.tops ∧
    branches.Follows children) :
    ∃ f : Forest α, f.tops = cs ∧ f.Follows children := by
  induction cs with
  | nil => exact ⟨nil, rfl, trivial⟩
  | cons c cs ih =>
    rw [List.forall_mem_cons] at h
    obtain ⟨branches, hc, hbranches⟩ := h.1
    obtain ⟨others, htops, hothers⟩ := ih h.2
    exact ⟨cons c branches others, congrArg (c :: ·) htops, hc, hbranches, hothers⟩

/-- **Where every node has a lineage, the table of children has trees.** -/
theorem exists_follows (hlinked : Linked parent children ids)
    (hlineage : ∀ x ∈ ids, ∃ l, Lineage parent x l) {cs : List α} (hcs : ∀ c ∈ cs, c ∈ ids) :
    ∃ f : Forest α, f.tops = cs ∧ f.Follows children := by
  have htree : ∀ (k : Nat) (x : α) (l : List α), x ∈ ids → Lineage parent x l →
    ids.length < l.length + k →
      ∃ branches : Forest α, children x = some branches.tops ∧ branches.Follows children := by
    intro k
    induction k with
    | zero =>
      intro x l hx hl hlong
      have := hl.length_le hx fun c p h => (hlinked.pointer c p h).2
      omega
    | succ k ih =>
      intro x l hx hl hlong
      obtain ⟨cs, hcs, -, hiff⟩ := hlinked.table x hx
      have hbelow : ∀ c ∈ cs, ∃ branches : Forest α, children c = some branches.tops ∧
          branches.Follows children := fun c hc =>
        ih c (c :: l) (hlinked.pointer c x ((hiff c).mp hc)).1 (.child ((hiff c).mp hc) hl)
          (by rw [List.length_cons]; omega)
      obtain ⟨branches, htops, hbranches⟩ := exists_of_trees hbelow
      exact ⟨branches, hcs.trans (congrArg some htops.symm), hbranches⟩
  refine exists_of_trees fun c hc => ?_
  obtain ⟨l, hl⟩ := hlineage c (hcs c hc)
  exact htree (ids.length + 1) c l (hcs c hc) hl (by omega)

theorem Follows.covers (hlinked : Linked parent children ids) (h : f.Follows children)
    (htops : ∀ a ∈ ids, parent a = none → a ∈ f.tops) (hx : x ∈ ids) (hl : Lineage parent x l) :
    x ∈ f.labels := by
  induction hl with
  | root hroot => exact f.tops_subset _ (htops _ hx hroot)
  | @child x p l hparent _ ih =>
    have hp := (hlinked.pointer x p hparent).2
    obtain ⟨cs, hcs, -, hiff⟩ := hlinked.table p hp
    exact h.child (ih hp) hcs ((hiff x).mpr hparent)

/-! ## drawings -/

/-- the centre of a node and its level -/
structure Spot where
  centre : Int
  level : Int
  deriving DecidableEq

variable (size gap : Int)

/-- the width of the trees side by side -/
def span : Forest α → Int
  | nil => 0
  | cons _ branches nil => max size branches.span
  | cons _ branches others => max size branches.span + (gap + others.span)

def width (branches : Forest α) : Int := max size (branches.span size gap)

def spots (left level : Int) : Forest α → List (α × Spot)
  | nil => []
  | cons a branches others =>
    (a, ⟨left + branches.width size gap / 2, level⟩) ::
      (spots (left + (branches.width size gap - branches.span size gap) / 2) (level + 1) branches ++
        spots (left + (branches.width size gap + gap)) level others)

variable {size gap} {left level : Int}

theorem span_cons (size gap : Int) (a : α) (branches others : Forest α) :
    (cons a branches others).span size gap = branches.width size gap ∧ others = nil ∨
      (cons a branches others).span size gap = branches.width size gap +
        (gap + others.span size gap) := by
  cases others with
  | nil => exact .inl ⟨rfl, rfl⟩
  | cons => exact .inr rfl

theorem span_nonneg (hsize : 0 ≤ size) (hgap : 0 ≤ gap) (f : Forest α) : 0 ≤ f.span size gap := by
  induction f with
  | nil => exact Int.le_refl _
  | cons a branches others _ iho =>
    have hwide : size ≤ branches.width size gap := Int.le_max_left _ _
    rcases span_cons size gap a branches others with ⟨hs, -⟩ | hs <;> omega

theorem spots_labels (f : Forest α) (size gap left level : Int) :
    (f.spots size gap left level).map Prod.fst = f.labels := by
  induction f generalizing left level with
  | nil => rfl
  | cons a branches others ihb iho =>
    show a :: List.map Prod.fst (_ ++ _) = _
    rw [List.map_append, ihb, iho]
    rfl

theorem spots_within (hsize : 0 ≤ size) (hgap : 0 ≤ gap) {e : α × Spot}
    (he : e ∈ f.spots size gap left level) : level ≤ e.2.level ∧ left + size / 2 ≤ e.2.centre ∧
      e.2.centre + (size - size / 2) ≤ left + f.span size gap := by
  induction f generalizing left level with
  | nil => exact nomatch he
  | cons a branches others ihb iho =>
    have hwide : size ≤ branches.width size gap := Int.le_max_left _ _
    have hfits : branches.span size gap ≤ branches.width size gap := Int.le_max_right _ _
    have hothers := span_nonneg hsize hgap others
    rcases List.mem_cons.mp he with rfl | he
    · dsimp only
      rcases span_cons size gap a branches others with ⟨hs, -⟩ | hs <;> omega
    · rcases List.mem_append.mp he with he | he
      · have hin := ihb he
        rcases span_cons size gap a branches others with ⟨hs, -⟩ | hs <;> omega
      · have hin := iho he
        rcases span_cons size gap a branches others with ⟨-, rfl⟩ | hs
        · exact nomatch he
        · omega

/-- **In a drawing the nodes of one level are apart**, those that come later further right. -/
theorem apart (hsize : 0 ≤ size) (hgap : 0 ≤ gap) (f : Forest α) (left level : Int) :
    (f.spots size gap left level).Pairwise fun e e' =>
      e.2.level = e'.2.level → e.2.centre + (size + gap) ≤ e'.2.centre := by
  induction f generalizing left level with
  | nil => exact List.Pairwise.nil
  | cons a branches others ihb iho =>
    have hwide : size ≤ branches.width size gap := Int.le_max_left _ _
    have hfits : branches.span size gap ≤ branches.width size gap := Int.le_max_right _ _
    refine List.pairwise_cons.mpr ⟨fun e he hlevel => ?_,
      List.pairwise_append.mpr ⟨ihb _ _, iho _ _, fun e he e' he' _ => ?_⟩⟩
    · dsimp only at hlevel ⊢
      rcases List.mem_append.mp he with he | he
      · have hin := spots_within hsize hgap he
        omega
      · have hin := spots_within hsize hgap he
        omega
    · have hin := spots_within hsize hgap he
      have hin' := spots_within hsize hgap he'
      omega

theorem apart_of_ne (hsize : 0 ≤ size) (hgap : 0 ≤ gap) {e e' : α × Spot}
    (he : e ∈ f.spots size gap left level) (he' : e' ∈ f.spots size gap left level) (hne : e ≠ e')
    (hlevel : e.2.level = e'.2.level) :
    e.2.centre + (size + gap) ≤ e'.2.centre ∨ e'.2.centre + (size + gap) ≤ e.2.centre := by
  let R : α × Spot → α × Spot → Prop := fun e e' => e.2.level = e'.2.level →
    e.2.centre + (size + gap) ≤ e'.2.centre ∨ e'.2.centre + (size + gap) ≤ e.2.centre
  have : Std.Symm R := ⟨fun _ _ h hl => (h hl.symm).symm⟩
  have hpairwise : (f.spots size gap left level).Pairwise R :=
    (f.apart hsize hgap left level).imp fun h hl => .inl (h hl)
  exact hpairwise.forall he he' hne hlevel

theorem tops_spot {a : α} (ha : a ∈ f.tops) (size gap left level : Int) :
    ∃ centre, (a, (⟨centre, level⟩ : Spot)) ∈ f.spots size gap left level := by
  induction f generalizing left with
  | nil => exact nomatch ha
  | cons b branches others _ iho =>
    rcases List.mem_cons.mp ha with rfl | ha
    · exact ⟨_, List.mem_cons_self⟩
    · obtain ⟨centre, hspot⟩ := iho ha (left + (branches.width size gap + gap))
      exact ⟨centre, List.mem_cons_of_mem _ (List.mem_append_right _ hspot)⟩

theorem child_spot (hfollows : f.Follows children) {s : Spot}
    (hp : (p, s) ∈ f.spots size gap left level)
    {c : α} {cs : List α} (hchildren : children p = some cs) (hc : c ∈ cs) :
    ∃ centre, (c, (⟨centre, s.level + 1⟩ : Spot)) ∈ f.spots size gap left level := by
  induction f generalizing left level with
  | nil => exact nomatch hp
  | cons a branches others ihb iho =>
    obtain ⟨ha, hbranches, hothers⟩ := hfollows
    rcases List.mem_cons.mp hp with he | hp
    · obtain ⟨rfl, rfl⟩ := Prod.mk.inj he
      rw [ha] at hchildren
      obtain rfl := Option.some.inj hchildren
      obtain ⟨centre, hspot⟩ := tops_spot hc size gap
        (left + (branches.width size gap - branches.span size gap) / 2) (level + 1)
      exact ⟨centre, List.mem_cons_of_mem _ (List.mem_append_left _ hspot)⟩
    · rcases List.mem_append.mp hp with hp | hp
      · obtain ⟨centre, hspot⟩ := ihb hbranches hp
        exact ⟨centre, List.mem_cons_of_mem _ (List.mem_append_left _ hspot)⟩
      · obtain ⟨centre, hspot⟩ := iho hothers hp
        exact ⟨centre, List.mem_cons_of_mem _ (List.mem_append_right _ hspot)⟩

end Forest

end Forests
