import Orvek.Lib.Forest
import Orvek.Lib.Tally
import Mathlib.Data.List.Chain
import Mathlib.Algebra.Ring.Int.Defs
import Mathlib.Data.List.Sort
import Orvek.Text

/-!
# The layout of the tree of subagents

Each subagent may point to a parent.  The layout drops pointers to subagents that are not there and
one pointer of each cycle, measures the subtrees and places them from left to right under their
parents.  Maps by hash are modelled by ordered ones: where the source reads them in their order, it
sorts what it has read.

* `breakParentCycles`   the walks that drop a pointer of each cycle;
* `measureSubtree`      the widths of subtrees;
* `placeSubtree`        the positions of a subtree;
* `TreeLayout.new`      the layout; each walk and recursion has one step for each node and one more;
* `new_valid`           what every layout is, in which order the nodes may come.
-/

set_option linter.unusedSectionVars false

namespace Orvek.Tui
open Forests Tally

variable {fuel : Nat}

def nodeWidth : Int := 24
def nodeHeight : Int := 4
def horizontalGap : Int := 6
def verticalGap : Int := 5

/-- a `u64` -/
abbrev ChildId : Type := Nat

structure LayoutNode where
  id : ChildId
  parent : Option ChildId
  deriving DecidableEq, Repr

structure NodePosition where
  centerX : Int
  top : Int
  deriving DecidableEq, Repr

structure TreeLayout where
  positions : BTreeMap ChildId NodePosition
  parents : BTreeMap ChildId ChildId
  children : BTreeMap ChildId (List ChildId)
  roots : List ChildId

/-- the pointers of the nodes and the children of each -/
structure Links where
  parents : BTreeMap ChildId ChildId
  children : BTreeMap ChildId (List ChildId)

/-! ## pointers -/

def LayoutNode.pointer (ids : BTreeSet ChildId) (node : LayoutNode) : Option ChildId :=
  node.parent.filter (· ∈ ids)

def Links.point (links : Links) (id parent : ChildId) : Links :=
  ⟨links.parents.insert id parent,
    links.children.insert parent (links.children[parent]?.getD [] ++ [id])⟩

def attach (ids : BTreeSet ChildId) (links : Links) (node : LayoutNode) : Links :=
  let links := match node.pointer ids with
    | some parent => links.point node.id parent
    | none => links
  { links with children := links.children.insert node.id (links.children[node.id]?.getD []) }

def Links.of (ids : BTreeSet ChildId) (nodes : List LayoutNode) : Links :=
  let links := nodes.foldl (attach ids) ⟨∅, ∅⟩
  { links with children := links.children.map fun _ descendants => descendants.mergeSort }

/-- the walk from `current` up to a root, or to a node of `seen` -/
def breakCycle : Nat → BTreeSet ChildId → ChildId → Links → Option Links
  | 0, _, _, _ => none
  | fuel + 1, seen, current, links =>
    match links.parents[current]? with
    | none => some links
    | some parent =>
      if parent ∈ seen then
        some ⟨links.parents.erase current,
          links.children.modify parent fun siblings => siblings.filter (· ≠ current)⟩
      else breakCycle fuel (seen.insert parent) parent links

def breakParentCycles (fuel : Nat) (ids : BTreeSet ChildId) (links : Links) : Option Links :=
  ids.toList.mergeSort.foldlM (fun links start => breakCycle fuel
    ((∅ : BTreeSet ChildId).insert start) start links)
    links

/-! ## widths -/

structure Measuring where
  measured : BTreeMap ChildId Int
  visiting : BTreeSet ChildId

/-- one more child, with the sum of the widths so far -/
def summing (measure : ChildId → Measuring → Option (Int × Measuring)) (acc : Int × Measuring)
    (child : ChildId) : Option (Int × Measuring) :=
  (measure child acc.2).map fun (width, m) => (acc.1 + width, m)

/-- the gaps between so many subtrees -/
def gaps (count : Nat) : Int := horizontalGap * ((count - 1 : Nat) : Int)

def measureSubtree (children : BTreeMap ChildId (List ChildId)) :
    Nat → ChildId → Measuring → Option (Int × Measuring)
  | 0, _, _ => none
  | fuel + 1, id, m =>
    match m.measured[id]? with
    | some width => some (width, m)
    | none =>
      if id ∈ m.visiting then some (nodeWidth, m)
      else
        let descendants := children[id]?.getD []
        (descendants.foldlM (summing (measureSubtree children fuel))
          (0, { m with visiting := m.visiting.insert id })).map fun (sum, m) =>
          let width := max nodeWidth (sum + gaps descendants.length)
          (width, ⟨m.measured.insert id width, m.visiting.erase id⟩)

/-! ## positions -/

structure Placing where
  positions : BTreeMap ChildId NodePosition
  placed : BTreeSet ChildId

def widthOf (measured : BTreeMap ChildId Int) (id : ChildId) : Int := measured[id]?.getD nodeWidth

/-- one more child, at the left edge so far -/
def placing (measured : BTreeMap ChildId Int) (place : ChildId → Int → Placing → Option Placing)
    (acc : Int × Placing) (child : ChildId) : Option (Int × Placing) :=
  (place child acc.1 acc.2).map fun p => (acc.1 + (widthOf measured child + horizontalGap), p)

def placeSubtree (children : BTreeMap ChildId (List ChildId)) (measured : BTreeMap ChildId Int) :
    Nat → Int → ChildId → Int → Placing → Option Placing
  | 0, _, _, _, _ => none
  | fuel + 1, depth, id, left, p =>
    if id ∈ p.placed then some p
    else
      let width := widthOf measured id
      let position := ⟨left + width.tdiv 2, depth * (nodeHeight + verticalGap)⟩
      let descendants := children[id]?.getD []
      let childrenWidth := (descendants.map (widthOf measured)).sum + gaps descendants.length
      (descendants.foldlM (placing measured (placeSubtree children measured fuel (depth + 1)))
        (left + (width - childrenWidth).tdiv 2,
          ⟨p.positions.insert id position, p.placed.insert id⟩)).map Prod.snd

/-! ## the layout -/

def adopt (fuel : Nat) (children : BTreeMap ChildId (List ChildId))
    (acc : List ChildId × BTreeMap ChildId ChildId × Measuring) (node : LayoutNode) :
    Option (List ChildId × BTreeMap ChildId ChildId × Measuring) :=
  let (roots, parents, m) := acc
  if m.measured.contains node.id then some acc
  else (measureSubtree children fuel node.id m).map fun (_, m) =>
    (roots ++ [node.id], parents.erase node.id, m)

def idsOf (nodes : List LayoutNode) : BTreeSet ChildId := .ofList (nodes.map (·.id)) compare

def rootsOf (ids : BTreeSet ChildId) (parents : BTreeMap ChildId ChildId) : List ChildId :=
  (ids.toList.filter fun id => !parents.contains id).mergeSort

def TreeLayout.new (nodes : List LayoutNode) : Option TreeLayout := do
  let fuel := nodes.length + 1
  let ids := idsOf nodes
  let links ← breakParentCycles fuel ids (Links.of ids nodes)
  let roots := rootsOf ids links.parents
  let (_, m) ← roots.foldlM (summing (measureSubtree links.children fuel)) (0, ⟨∅, ∅⟩)
  let (roots, parents, m) ← nodes.foldlM (adopt fuel links.children) (roots, links.parents, m)
  let forestWidth := (roots.map (widthOf m.measured)).sum + gaps roots.length
  let (_, p) ← roots.foldlM
    (placing m.measured (placeSubtree links.children m.measured fuel 0))
    ((-forestWidth).tdiv 2, ⟨∅, ∅⟩)
  return ⟨p.positions, parents, links.children, roots⟩

namespace TreeLayout
variable (layout : TreeLayout)

def position (id : ChildId) : Option NodePosition := layout.positions[id]?
def parent (id : ChildId) : Option ChildId := layout.parents[id]?

end TreeLayout

/-! ## the pointers of the nodes -/

def kids (ids : BTreeSet ChildId) (nodes : List LayoutNode) (parent : ChildId) : List ChildId :=
  (nodes.filter fun node => node.pointer ids = some parent).map (·.id)

theorem mem_idsOf {nodes : List LayoutNode} {id : ChildId} :
    id ∈ idsOf nodes ↔ id ∈ nodes.map (·.id) := by
  rw [idsOf, Std.ExtTreeSet.mem_ofList, List.contains_iff_mem]

variable {ids : BTreeSet ChildId} {nodes nodes' : List LayoutNode} {links links' : Links}

theorem pointer_some {node : LayoutNode} {p : ChildId} :
    node.pointer ids = some p ↔ node.parent = some p ∧ p ∈ ids := by
  rw [LayoutNode.pointer, Option.filter_eq_some_iff, decide_eq_true_eq]

theorem attach_parents (node : LayoutNode) (c : ChildId) : (attach ids links node).parents[c]? =
    if c = node.id then (node.pointer ids).or links.parents[c]? else links.parents[c]? := by
  unfold attach
  cases node.pointer ids with
  | none => rw [Option.none_or, ite_self]
  | some parent =>
    show (links.parents.insert node.id parent)[c]? = _
    rw [get_insert, Option.some_or]

theorem foldl_parents (hnodup : (nodes.map (·.id)).Nodup)
    (hnew : ∀ node ∈ nodes, links.parents[node.id]? = none) (c p : ChildId) :
    (nodes.foldl (attach ids) links).parents[c]? = some p ↔
      links.parents[c]? = some p ∨ ∃ node ∈ nodes, node.id = c ∧ node.pointer ids = some p := by
  induction nodes generalizing links with
  | nil =>
    refine ⟨.inl, ?_⟩
    rintro (h | ⟨_, h, _⟩)
    · exact h
    · exact nomatch h
  | cons node nodes ih =>
    rw [List.map_cons, List.nodup_cons] at hnodup
    rw [List.forall_mem_cons] at hnew
    have hrest : ∀ other ∈ nodes, (attach ids links node).parents[other.id]? = none := by
      intro other hother
      have hne : other.id ≠ node.id := fun he => hnodup.1 (he ▸ List.mem_map_of_mem hother)
      rw [attach_parents, if_neg hne]
      exact hnew.2 other hother
    rw [List.foldl_cons, ih hnodup.2 hrest, attach_parents, List.exists_mem_cons_iff]
    by_cases hc : c = node.id
    · subst hc
      rw [if_pos rfl, hnew.1, Option.or_none]
      have : ¬ ∃ other ∈ nodes, other.id = node.id ∧ other.pointer ids = some p := by
        rintro ⟨other, hother, he, -⟩
        exact hnodup.1 (he ▸ List.mem_map_of_mem hother)
      tauto
    · rw [if_neg hc]
      have : node.id ≠ c := Ne.symm hc
      tauto

theorem attach_children (node : LayoutNode) (q : ChildId) : (attach ids links node).children[q]? =
    if node.pointer ids = some q then some (links.children[q]?.getD [] ++ [node.id])
    else if q = node.id then some (links.children[q]?.getD []) else links.children[q]? := by
  unfold attach
  cases node.pointer ids with
  | none =>
    show (links.children.insert node.id (links.children[node.id]?.getD []))[q]? = _
    rw [get_insert, if_neg (show ¬ none = some q from fun h => nomatch h)]
    split
    · rename_i hq
      rw [hq]
    · rfl
  | some parent =>
    show ((links.children.insert parent (links.children[parent]?.getD [] ++ [node.id])).insert
      node.id
      ((links.children.insert parent
        (links.children[parent]?.getD [] ++ [node.id]))[node.id]?.getD []))[q]? = _
    simp only [get_insert, Option.some.injEq]
    by_cases hq : q = node.id
    · subst hq
      by_cases hp : parent = node.id
      · subst hp
        rw [if_pos rfl, if_pos rfl, if_pos rfl]
        rfl
      · rw [if_pos rfl, if_neg (Ne.symm hp), if_neg hp, if_pos rfl]
    · rw [if_neg hq, if_neg hq]
      by_cases hp : parent = q
      · subst hp
        rw [if_pos rfl]
      · rw [if_neg (Ne.symm hp), if_neg hp]

theorem foldl_children (q : ChildId) :
    (nodes.foldl (attach ids) links).children[q]?.getD [] = links.children[q]?.getD [] ++ kids ids
    nodes q ∧
    ((nodes.foldl (attach ids) links).children[q]?.isSome = true ↔
      links.children[q]?.isSome = true ∨
        ∃ node ∈ nodes, node.id = q ∨ node.pointer ids = some q) := by
  induction nodes generalizing links with
  | nil =>
    refine ⟨(List.append_nil _).symm, .inl, ?_⟩
    rintro (h | ⟨_, h, _⟩)
    · exact h
    · exact nomatch h
  | cons node nodes ih =>
    obtain ⟨hget, hsome⟩ := @ih (attach ids links node)
    rw [List.foldl_cons]
    refine ⟨?_, ?_⟩
    · rw [hget, attach_children, kids, kids, List.filter_cons]
      by_cases hp : node.pointer ids = some q
      · rw [if_pos hp, if_pos (decide_eq_true hp), List.map_cons, Option.getD_some,
          List.append_assoc]
        rfl
      · rw [if_neg hp, if_neg (show ¬ decide (node.pointer ids = some q) = true by
          rwa [decide_eq_true_eq])]
        split <;> rfl
    · rw [hsome, attach_children, List.exists_mem_cons_iff]
      by_cases hp : node.pointer ids = some q
      · rw [if_pos hp]
        exact ⟨fun _ => .inr (.inl (.inr hp)), fun _ => .inl rfl⟩
      · rw [if_neg hp]
        by_cases hq : q = node.id
        · rw [if_pos hq]
          exact ⟨fun _ => .inr (.inl (.inl hq.symm)), fun _ => .inl rfl⟩
        · rw [if_neg hq]
          rw [or_iff_right (not_or.mpr ⟨Ne.symm hq, hp⟩)]

theorem of_children (q : ChildId) : (Links.of (idsOf nodes) nodes).children[q]? =
    if q ∈ nodes.map (·.id) then some (kids (idsOf nodes) nodes q).mergeSort else none := by
  show (Std.ExtTreeMap.map _ _)[q]? = _
  rw [Std.ExtTreeMap.getElem?_map]
  obtain ⟨hget, hsome⟩ := @foldl_children (idsOf nodes) nodes ⟨∅, ∅⟩ q
  rw [Std.ExtTreeMap.getElem?_empty, Option.getD_none, List.nil_append] at hget
  have hiff : (∃ node ∈ nodes, node.id = q ∨ node.pointer (idsOf nodes) = some q) ↔
      q ∈ nodes.map (·.id) := by
    constructor
    · rintro ⟨node, hnode, rfl | hp⟩
      · exact List.mem_map_of_mem hnode
      · exact mem_idsOf.mp (pointer_some.mp hp).2
    · intro hq
      obtain ⟨node, hnode, he⟩ := List.mem_map.mp hq
      exact ⟨node, hnode, .inl he⟩
  rw [hiff, Std.ExtTreeMap.getElem?_empty] at hsome
  split
  · rename_i hq
    obtain ⟨l, hl⟩ := Option.isSome_iff_exists.mp (hsome.mpr (.inr hq))
    rw [hl, Option.getD_some] at hget
    rw [hl, hget]
    rfl
  · rename_i hq
    have hnone : (nodes.foldl (attach (idsOf nodes)) ⟨∅, ∅⟩).children[q]? = none := by
      rw [← Option.not_isSome_iff_eq_none]
      intro h
      rcases hsome.mp h with h | h
      · exact nomatch h
      · exact hq h
    rw [hnone]
    rfl

theorem of_parents (hnodup : (nodes.map (·.id)).Nodup) (c p : ChildId) :
    (Links.of (idsOf nodes) nodes).parents[c]? = some p ↔
      ∃ node ∈ nodes, node.id = c ∧ node.pointer (idsOf nodes) = some p := by
  refine (foldl_parents hnodup (fun _ _ => Std.ExtTreeMap.getElem?_empty) c p).trans
    ⟨fun h => h.resolve_left ?_, .inr⟩
  rw [Std.ExtTreeMap.getElem?_empty]
  exact fun h => nomatch h

/-! ## the order of the nodes -/

theorem sort_perm {l l' : List ChildId} (h : l.Perm l') : l.mergeSort = l'.mergeSort := by
  have hsorted : ∀ l : List ChildId, l.mergeSort.Pairwise (· ≤ ·) := fun l =>
    List.pairwise_mergeSort' (· ≤ ·) l
  exact ((List.mergeSort_perm l _).trans (h.trans (List.mergeSort_perm l' _).symm)).eq_of_pairwise
    (fun _ _ _ _ hab hba => Nat.le_antisymm hab hba) (hsorted l) (hsorted l')

theorem idsOf_perm (h : nodes.Perm nodes') : idsOf nodes = idsOf nodes' :=
  Std.ExtTreeSet.ext_mem fun id => by rw [mem_idsOf, mem_idsOf, (h.map _).mem_iff]

/-- **The pointers and the children do not depend on the order of the nodes.** -/
theorem of_perm (hnodup : (nodes.map (·.id)).Nodup) (h : nodes.Perm nodes') :
    Links.of (idsOf nodes) nodes = Links.of (idsOf nodes') nodes' := by
  have hids := idsOf_perm h
  have hparents : (Links.of (idsOf nodes) nodes).parents =
    (Links.of (idsOf nodes') nodes').parents := by
    refine Std.ExtTreeMap.ext_getElem? fun c => Option.ext fun p => ?_
    rw [of_parents hnodup, of_parents ((h.map _).nodup_iff.mp hnodup), hids]
    exact exists_congr fun node => and_congr_left fun _ => h.mem_iff
  have hchildren : (Links.of (idsOf nodes) nodes).children =
    (Links.of (idsOf nodes') nodes').children := by
    refine Std.ExtTreeMap.ext_getElem? fun q => ?_
    have hkids : (kids (idsOf nodes) nodes q).mergeSort =
      (kids (idsOf nodes') nodes' q).mergeSort := by
      refine sort_perm ?_
      rw [hids]
      exact (h.filter _).map _
    rw [of_children, of_children, hkids]
    exact if_congr (h.map _).mem_iff rfl rfl
  rw [Links.mk.injEq]
  exact ⟨hparents, hchildren⟩

/-! ## the walks -/

def Links.parent (links : Links) (c : ChildId) : Option ChildId := links.parents[c]?
def Links.table (links : Links) (p : ChildId) : Option (List ChildId) := links.children[p]?

/-- the pointers and the children of nodes agree -/
abbrev Links.Agree (links : Links) (list : List ChildId) : Prop :=
  Forests.Forest.Linked links.parent links.table list

theorem of_agree (hnodup : (nodes.map (·.id)).Nodup) :
    (Links.of (idsOf nodes) nodes).Agree (nodes.map (·.id)) where
  pointer c p h := by
    obtain ⟨node, hnode, rfl, hp⟩ := (of_parents hnodup c p).mp h
    exact ⟨List.mem_map_of_mem hnode, mem_idsOf.mp (pointer_some.mp hp).2⟩
  table p hp := by
    refine ⟨_, (of_children p).trans (if_pos hp), ?_, fun c => ?_⟩
    · rw [(List.mergeSort_perm _ _).nodup_iff]
      exact hnodup.sublist (List.filter_sublist.map _)
    · rw [List.mem_mergeSort, kids, List.mem_map]
      refine Iff.trans ?_ (of_parents hnodup c p).symm
      refine exists_congr fun node => ?_
      rw [List.mem_filter, decide_eq_true_eq]
      tauto

/-- the pointer of one node is dropped -/
def Links.drop (links : Links) (current parent : ChildId) : Links :=
  ⟨links.parents.erase current, links.children.modify parent fun siblings => siblings.filter
    (· ≠ current)⟩

variable {list : List ChildId} {current parent : ChildId}

theorem drop_parent (c : ChildId) : (links.drop current parent).parent c =
    if c = current then none else links.parent c := by
  show (links.parents.erase current)[c]? = _
  rw [Std.ExtTreeMap.getElem?_erase]
  refine if_congr ?_ rfl rfl
  rw [Std.LawfulEqOrd.compare_eq_iff_eq]
  exact eq_comm

theorem drop_agree (h : links.Agree list) (hparent : links.parent current = some parent) :
    (links.drop current parent).Agree list where
  pointer c p hp := by
    rw [drop_parent] at hp
    split at hp
    · exact nomatch hp
    · exact h.pointer c p hp
  table p hp := by
    obtain ⟨cs, hcs, hdistinct, hiff⟩ := h.table p hp
    have htable : (links.drop current parent).table p =
        if p = parent then (links.table p).map fun siblings => siblings.filter (· ≠ current)
        else links.table p := by
      show (Std.ExtTreeMap.modify _ _ _)[p]? = _
      rw [Std.ExtTreeMap.getElem?_modify]
      by_cases he : p = parent
      · subst he
        rw [if_pos rfl, if_pos (Std.LawfulEqOrd.compare_eq_iff_eq.mpr rfl)]
        rfl
      · rw [if_neg he, if_neg fun hc => he (Std.LawfulEqOrd.compare_eq_iff_eq.mp hc).symm]
        rfl
    by_cases he : p = parent
    · subst he
      rw [if_pos rfl, hcs] at htable
      refine ⟨_, htable, hdistinct.filter _, fun c => ?_⟩
      rw [List.mem_filter, decide_eq_true_eq, hiff, drop_parent]
      split
      · rename_i hc
        exact ⟨fun h => absurd hc h.2, fun h => nomatch h⟩
      · rename_i hc
        exact and_iff_left hc
    · rw [if_neg he, hcs] at htable
      refine ⟨cs, htable, hdistinct, fun c => ?_⟩
      rw [hiff, drop_parent]
      split
      · rename_i hc
        rw [hc, hparent, Option.some_inj]
        exact ⟨fun h => absurd h.symm he, fun h => nomatch h⟩
      · rfl

/-- the nodes of a walk, the last first: each is pointed to by the next -/
structure Walk (links : Links) (list : List ChildId) (seen : BTreeSet ChildId)
    (path : List ChildId) : Prop where
  nodup : path.Nodup
  ids : ∀ x ∈ path, x ∈ list
  seen : ∀ x, x ∈ seen ↔ x ∈ path
  chain : path.IsChain fun a b => links.parent b = some a

theorem walk_lineages {parent : ChildId → Option ChildId} {path : List ChildId}
    (h : (current :: path).IsChain fun a b => parent b = some a)
    (hcurrent : ∃ l, Forests.Lineage parent current l) :
    ∀ x ∈ current :: path, ∃ l, Forests.Lineage parent x l := by
  induction path generalizing current with
  | nil =>
    intro x hx
    rwa [List.mem_singleton.mp hx]
  | cons b path ih =>
    obtain ⟨hb, hrest⟩ := List.isChain_cons_cons.mp h
    intro x hx
    rcases List.mem_cons.mp hx with rfl | hx
    · exact hcurrent
    · obtain ⟨l, hl⟩ := hcurrent
      exact ih hrest ⟨_, .child hb hl⟩ x hx

/-- what a walk leaves: some pointers are dropped, and its nodes have lineages -/
structure Walked (links : Links) (list : List ChildId) (path : List ChildId) (links' : Links) :
    Prop where
  agree : links'.Agree list
  dropped : ∀ c, links'.parent c = none ∨ links'.parent c = links.parent c
  lineage : ∀ x ∈ path, ∃ l, Forests.Lineage links'.parent x l

theorem breakCycle_walked (h : links.Agree list) {seen : BTreeSet ChildId} {path : List ChildId}
    (hwalk : Walk links list seen (current :: path)) (hfuel : list.length + 1 ≤ fuel + path.length) :
    ∃ links', breakCycle fuel seen current links = some links' ∧
      Walked links list (current :: path) links' := by
  induction fuel generalizing seen current path with
  | zero =>
    have := (List.subperm_of_subset hwalk.nodup hwalk.ids).length_le
    rw [List.length_cons] at this
    omega
  | succ fuel ih =>
    rw [breakCycle]
    cases hparent : links.parents[current]? with
    | none =>
      exact ⟨links, rfl, h, fun _ => .inr rfl, walk_lineages hwalk.chain ⟨_, .root hparent⟩⟩
    | some parent =>
      dsimp only
      split
      · refine ⟨links.drop current parent, rfl, drop_agree h hparent, fun c => ?_,
          walk_lineages ?_ ⟨_, .root (by rw [drop_parent, if_pos rfl])⟩⟩
        · rw [drop_parent]
          split
          · exact .inl rfl
          · exact .inr rfl
        · -- only the last node of the walk has lost its pointer
          have hother : ∀ x ∈ path, (links.drop current parent).parent x = links.parent x :=
            fun x hx => by
            rw [drop_parent, if_neg]
            rintro rfl
            exact (List.nodup_cons.mp hwalk.nodup).1 hx
          exact hwalk.chain.imp_of_mem_tail_imp fun a b _ hb hab => (hother b hb).trans hab
      · rename_i hnew
        have hpath : parent ∉ current :: path := fun hx => hnew ((hwalk.seen parent).mpr hx)
        have hlonger : Walk links list (seen.insert parent) (parent :: current :: path) :=
          { nodup := List.nodup_cons.mpr ⟨hpath, hwalk.nodup⟩
            ids := List.forall_mem_cons.mpr ⟨(h.pointer current parent hparent).2, hwalk.ids⟩
            seen := fun x => by
              rw [Std.ExtTreeSet.mem_insert, Std.LawfulEqOrd.compare_eq_iff_eq, hwalk.seen, eq_comm]
              exact List.mem_cons.symm
            chain := List.isChain_cons_cons.mpr ⟨hparent, hwalk.chain⟩ }
        obtain ⟨links', hlinks', hwalked⟩ := ih hlonger (by rw [List.length_cons]; omega)
        exact ⟨links', hlinks', hwalked.agree, hwalked.dropped,
          fun x hx => hwalked.lineage x (List.mem_cons_of_mem _ hx)⟩

theorem walks_done (h : links.Agree list) {starts done : List ChildId} (hstarts : ∀ x ∈ starts, x ∈ list)
    (hdone : ∀ x ∈ done, ∃ l, Forests.Lineage links.parent x l) (hfuel : list.length + 1 ≤ fuel) :
    ∃ links', starts.foldlM (fun links start =>
        breakCycle fuel ((∅ : BTreeSet ChildId).insert start) start links) links = some links' ∧
      Walked links list (done ++ starts) links' := by
  induction starts generalizing links done with
  | nil =>
    refine ⟨links, rfl, h, fun _ => .inr rfl, ?_⟩
    rwa [List.append_nil]
  | cons start starts ih =>
    rw [List.forall_mem_cons] at hstarts
    have hwalk : Walk links list ((∅ : BTreeSet ChildId).insert start) [start] :=
      { nodup := List.nodup_singleton start
        ids := List.forall_mem_cons.mpr ⟨hstarts.1, fun _ hx => nomatch hx⟩
        seen := fun x => by
          rw [Std.ExtTreeSet.mem_insert, Std.LawfulEqOrd.compare_eq_iff_eq, List.mem_singleton,
            eq_comm]
          exact or_iff_left Std.ExtTreeSet.not_mem_empty
        chain := List.isChain_singleton start }
    obtain ⟨links₁, hone, hwalked⟩ := breakCycle_walked h hwalk hfuel
    have hdone₁ : ∀ x ∈ done ++ [start], ∃ l, Forests.Lineage links₁.parent x l := by
      intro x hx
      rcases List.mem_append.mp hx with hx | hx
      · obtain ⟨l, hl⟩ := hdone x hx
        exact hl.mono hwalked.dropped
      · exact hwalked.lineage x hx
    obtain ⟨links', hrest, hwalked'⟩ := ih hwalked.agree hstarts.2 hdone₁
    refine ⟨links', ?_, hwalked'.agree, fun c => ?_, ?_⟩
    · rw [List.foldlM_cons, hone]
      exact hrest
    · rcases hwalked'.dropped c with hc | hc
      · exact .inl hc
      · rw [hc]
        exact hwalked.dropped c
    · rw [List.append_cons]
      exact hwalked'.lineage

/-- **After the walks, the pointers are a forest.** -/
theorem breakParentCycles_forest (hnodup : (nodes.map (·.id)).Nodup) :
    ∃ links, breakParentCycles (nodes.length + 1) (idsOf nodes)
      (Links.of (idsOf nodes) nodes) = some links ∧
      Walked (Links.of (idsOf nodes) nodes) (nodes.map (·.id)) (nodes.map (·.id)) links := by
  have hmem : ∀ x, x ∈ (idsOf nodes).toList.mergeSort ↔ x ∈ nodes.map (·.id) := fun x => by
    rw [List.mem_mergeSort, Std.ExtTreeSet.mem_toList, mem_idsOf]
  have hnone : ∀ x ∈ ([] : List ChildId),
      ∃ l, Forests.Lineage (Links.of (idsOf nodes) nodes).parent x l := fun _ hx => nomatch hx
  obtain ⟨links, hlinks, hwalked⟩ := walks_done (of_agree hnodup) (fun x hx => (hmem x).mp hx) hnone
    (by rw [List.length_map])
  exact ⟨links, hlinks, hwalked.agree, hwalked.dropped,
    fun x hx => hwalked.lineage x ((hmem x).mpr hx)⟩

/-! ## widths -/

open Forests.Forest

def widths : Forests.Forest ChildId → List Int
  | .nil => []
  | .cons _ branches others => branches.width nodeWidth horizontalGap :: widths others

/-- the widths of all subtrees are written down -/
def record : Forests.Forest ChildId → BTreeMap ChildId Int → BTreeMap ChildId Int
  | .nil, measured => measured
  | .cons a branches others, measured =>
    record others ((record branches measured).insert a (branches.width nodeWidth horizontalGap))

/-- the widths of all subtrees are known -/
def Measured (measured : BTreeMap ChildId Int) : Forests.Forest ChildId → Prop
  | .nil => True
  | .cons a branches others => measured[a]? = some (branches.width nodeWidth horizontalGap) ∧
    Measured measured branches ∧ Measured measured others

variable {f branches others : Forests.Forest ChildId} {a : ChildId}

theorem span_eq (f : Forests.Forest ChildId) :
    f.span nodeWidth horizontalGap = (widths f).sum + gaps f.tops.length := by
  induction f with
  | nil => rfl
  | cons a branches others _ iho =>
    cases others with
    | nil =>
      show branches.width nodeWidth horizontalGap = branches.width nodeWidth horizontalGap + 0 +
        gaps 1
      rw [Int.add_zero]
      exact (Int.add_zero _).symm
    | cons b bs os =>
      have hgaps : gaps (os.tops.length + 1 + 1) = horizontalGap + gaps (os.tops.length + 1) := by
        unfold gaps
        rw [Nat.add_sub_cancel, Nat.add_sub_cancel]
        push_cast
        rw [Int.mul_add, Int.mul_one, Int.add_comm]
      show branches.width nodeWidth horizontalGap +
        (horizontalGap + (cons b bs os).span nodeWidth horizontalGap) =
          branches.width nodeWidth horizontalGap + (widths (cons b bs os)).sum + gaps
            (os.tops.length + 1 + 1)
      rw [iho, hgaps]
      show _ + (_ + (_ + gaps (os.tops.length + 1))) = _
      omega

variable {y : ChildId} {measured : BTreeMap ChildId Int}

theorem record_other (h : y ∉ f.labels) : (record f measured)[y]? = measured[y]? := by
  induction f generalizing measured with
  | nil => rfl
  | cons a branches others ihb iho =>
    rw [labels, List.mem_cons, List.mem_append, not_or, not_or] at h
    rw [record, iho h.2.2, get_insert, if_neg h.1, ihb h.2.1]

theorem Measured.mono {measured' : BTreeMap ChildId Int} (h : Measured measured f)
    (hsame : ∀ y ∈ f.labels, measured'[y]? = measured[y]?) : Measured measured' f := by
  induction f with
  | nil => trivial
  | cons a branches others ihb iho =>
    obtain ⟨ha, hbranches, hothers⟩ := h
    refine ⟨(hsame a List.mem_cons_self).trans ha, ihb hbranches fun y hy => ?_,
      iho hothers fun y hy => ?_⟩
    · exact hsame y (List.mem_cons_of_mem _ (List.mem_append_left _ hy))
    · exact hsame y (List.mem_cons_of_mem _ (List.mem_append_right _ hy))

theorem labels_nodup (h : (cons a branches others).labels.Nodup) :
    (a ∉ branches.labels ∧ a ∉ others.labels) ∧ branches.labels.Nodup ∧ others.labels.Nodup ∧
      ∀ y ∈ branches.labels, y ∉ others.labels := by
  rw [labels, List.nodup_cons, List.mem_append, not_or, List.nodup_append] at h
  exact ⟨h.1, h.2.1, h.2.2.1, fun y hy hy' => h.2.2.2 y hy y hy' rfl⟩

theorem record_measured (h : f.labels.Nodup) (measured : BTreeMap ChildId Int) :
    Measured (record f measured) f := by
  induction f generalizing measured with
  | nil => trivial
  | cons a branches others ihb iho =>
    obtain ⟨⟨hab, hao⟩, hbranches, hothers, hapart⟩ := labels_nodup h
    refine ⟨?_, (ihb hbranches measured).mono fun y hy => ?_, iho hothers _⟩
    · rw [record, record_other hao, get_insert, if_pos rfl]
    · rw [record, record_other (hapart y hy), get_insert, if_neg]
      rintro rfl
      exact hab hy

variable {children : BTreeMap ChildId (List ChildId)}

/-- **Measuring trees in which no node is met twice.** -/
theorem measure_forest (hfollows : f.Follows (children[·]?)) (hnodup : f.labels.Nodup)
    (hfuel : f.height ≤ fuel) (sum : Int) (m : Measuring)
    (hnew : ∀ y ∈ f.labels, m.measured[y]? = none ∧ y ∉ m.visiting) :
    f.tops.foldlM (summing (measureSubtree children fuel)) (sum, m) =
      some (sum + (widths f).sum, ⟨record f m.measured, m.visiting⟩) := by
  induction f generalizing fuel sum m with
  | nil =>
    show some (sum, m) = some (sum + 0, m)
    rw [Int.add_zero]
  | cons a branches others ihb iho =>
    obtain ⟨ha, hbranches, hothers⟩ := hfollows
    replace ha : children[a]? = some branches.tops := ha
    obtain ⟨⟨hab, hao⟩, hbnodup, honodup, hapart⟩ := labels_nodup hnodup
    obtain ⟨hfuelb, hfuelo⟩ : branches.height + 1 ≤ fuel ∧ others.height ≤ fuel :=
      Nat.max_le.mp hfuel
    obtain ⟨k, rfl⟩ : ∃ k, fuel = k + 1 := ⟨fuel - 1, by omega⟩
    obtain ⟨hmeasured, hvisiting⟩ := hnew a List.mem_cons_self
    -- the subtrees, while the node is being visited
    have hbelow := ihb hbranches hbnodup (Nat.le_of_succ_le_succ hfuelb) 0
      { m with visiting := m.visiting.insert a } fun y hy => by
        obtain ⟨hy₁, hy₂⟩ := hnew y (List.mem_cons_of_mem _ (List.mem_append_left _ hy))
        refine ⟨hy₁, fun hin => ?_⟩
        rw [Std.ExtTreeSet.mem_insert, Std.LawfulEqOrd.compare_eq_iff_eq] at hin
        rcases hin with rfl | hin
        · exact hab hy
        · exact hy₂ hin
    have hone : measureSubtree children (k + 1) a m = some (branches.width nodeWidth horizontalGap,
        ⟨(record branches m.measured).insert a (branches.width nodeWidth horizontalGap),
          m.visiting⟩) := by
      have herase : (m.visiting.insert a).erase a = m.visiting := by
        refine Std.ExtTreeSet.ext_mem fun y => ?_
        rw [Std.ExtTreeSet.mem_erase, Std.ExtTreeSet.mem_insert, Ne,
          Std.LawfulEqOrd.compare_eq_iff_eq]
        constructor
        · rintro ⟨hne, he | hy⟩
          · exact absurd he hne
          · exact hy
        · intro hy
          exact ⟨fun he => hvisiting (he ▸ hy), .inr hy⟩
      have hwidth : max nodeWidth (0 + (widths branches).sum + gaps branches.tops.length) =
          branches.width nodeWidth horizontalGap := by
        rw [Int.zero_add, ← span_eq]
        rfl
      rw [measureSubtree, hmeasured]
      dsimp only
      rw [if_neg hvisiting, ha, Option.getD_some, hbelow]
      dsimp only [Option.map_some]
      rw [hwidth, herase]
    have hstep : summing (measureSubtree children (k + 1)) (sum, m) a =
        some (sum + branches.width nodeWidth horizontalGap,
          ⟨(record branches m.measured).insert a (branches.width nodeWidth horizontalGap),
            m.visiting⟩) := by
      rw [summing, hone]
      rfl
    rw [tops, List.foldlM_cons, hstep]
    refine (iho hothers honodup hfuelo _ _ fun y hy => ?_).trans ?_
    · obtain ⟨hy₁, hy₂⟩ := hnew y (List.mem_cons_of_mem _ (List.mem_append_right _ hy))
      refine ⟨?_, hy₂⟩
      rw [get_insert, if_neg (by rintro rfl; exact hao hy), record_other fun hb => hapart y hb hy]
      exact hy₁
    · show some (sum + _ + _, _) = some (sum + (_ + _), _)
      rw [Int.add_assoc]
      rfl

/-! ## positions -/

def putSpot (positions : BTreeMap ChildId NodePosition) (e : ChildId × Spot) :
    BTreeMap ChildId NodePosition :=
  positions.insert e.1 ⟨e.2.centre, e.2.level * (nodeHeight + verticalGap)⟩

theorem measured_widths (h : Measured measured f) : f.tops.map (widthOf measured) = widths f := by
  induction f with
  | nil => rfl
  | cons a branches others _ iho =>
    obtain ⟨ha, -, hothers⟩ := h
    rw [tops, List.map_cons, iho hothers, widths, widthOf, ha]
    rfl

theorem mem_insert_id {s : BTreeSet ChildId} {x : ChildId} : y ∈ s.insert x ↔ y = x ∨ y ∈ s := by
  rw [Std.ExtTreeSet.mem_insert, Std.LawfulEqOrd.compare_eq_iff_eq, eq_comm]

theorem mem_foldl_insert {l : List ChildId} {s : BTreeSet ChildId} :
    y ∈ l.foldl (·.insert ·) s ↔ y ∈ l ∨ y ∈ s := by
  induction l generalizing s with
  | nil => exact ⟨.inr, fun h => h.resolve_left (fun h => nomatch h)⟩
  | cons x l ih =>
    rw [List.foldl_cons, ih, mem_insert_id, List.mem_cons]
    tauto

def Placing.put (p : Placing) (e : ChildId × Spot) : Placing :=
    ⟨putSpot p.positions e, p.placed.insert e.1⟩

def Placing.draw (p : Placing) (f : Forests.Forest ChildId) (left level : Int) : Placing :=
  ⟨(f.spots nodeWidth horizontalGap left level).foldl putSpot p.positions,
    f.labels.foldl (·.insert ·) p.placed⟩

theorem draw_cons (p : Placing) (left level : Int) : p.draw (cons a branches others) left level =
    ((p.put (a, ⟨left + branches.width nodeWidth horizontalGap / 2, level⟩)).draw branches
      (left + (branches.width nodeWidth horizontalGap - branches.span nodeWidth horizontalGap) / 2)
      (level + 1)).draw others (left + (branches.width nodeWidth horizontalGap + horizontalGap))
        level := by
  unfold Placing.draw Placing.put
  rw [spots, labels, List.foldl_cons, List.foldl_append, List.foldl_cons, List.foldl_append]

theorem measured_some (h : Measured measured f) (hy : y ∈ f.labels) : measured[y]?.isSome = true := by
  induction f with
  | nil => exact nomatch hy
  | cons a branches others ihb iho =>
    obtain ⟨ha, hbranches, hothers⟩ := h
    rcases List.mem_cons.mp hy with rfl | hy
    · rw [ha]
      rfl
    · rcases List.mem_append.mp hy with hy | hy
      · exact ihb hbranches hy
      · exact iho hothers hy

/-- **Placing trees in which no node is met twice is drawing them.** -/
theorem place_forest (hfollows : f.Follows (children[·]?)) (hmeasured : Measured measured f)
    (hnodup : f.labels.Nodup) (hfuel : f.height ≤ fuel) (left level : Int) (p : Placing)
    (hnew : ∀ y ∈ f.labels, y ∉ p.placed) :
    ∃ edge, f.tops.foldlM (placing measured (placeSubtree children measured fuel level)) (left, p) =
      some (edge, p.draw f left level) := by
  induction f generalizing fuel left level p with
  | nil => exact ⟨left, rfl⟩
  | cons a branches others ihb iho =>
    obtain ⟨ha, hbranches, hothers⟩ := hfollows
    replace ha : children[a]? = some branches.tops := ha
    obtain ⟨hwidth, hmbranches, hmothers⟩ := hmeasured
    obtain ⟨⟨hab, hao⟩, hbnodup, honodup, hapart⟩ := labels_nodup hnodup
    obtain ⟨hfuelb, hfuelo⟩ : branches.height + 1 ≤ fuel ∧ others.height ≤ fuel :=
      Nat.max_le.mp hfuel
    obtain ⟨k, rfl⟩ : ∃ k, fuel = k + 1 := ⟨fuel - 1, by omega⟩
    have hw : widthOf measured a = branches.width nodeWidth horizontalGap := by
      rw [widthOf, hwidth]; rfl
    have hspan : (branches.tops.map (widthOf measured)).sum + gaps branches.tops.length =
        branches.span nodeWidth horizontalGap := by rw [measured_widths hmbranches, span_eq]
    -- the halves that the source truncates are not negative
    have hpos : 0 ≤ branches.width nodeWidth horizontalGap :=
      Int.le_trans (by decide) (Int.le_max_left nodeWidth _)
    have hfits : 0 ≤ branches.width nodeWidth horizontalGap - branches.span nodeWidth
      horizontalGap :=
      Int.sub_nonneg_of_le (Int.le_max_right _ _)
    generalize hput : p.put (a, ⟨left + branches.width nodeWidth horizontalGap / 2, level⟩) = q
    have hplaced : ∀ y, y ∈ q.placed ↔ y = a ∨ y ∈ p.placed := fun y => hput ▸ mem_insert_id
    obtain ⟨edge, hbelow⟩ := ihb hbranches hmbranches hbnodup (Nat.le_of_succ_le_succ hfuelb)
      (left + (branches.width nodeWidth horizontalGap - branches.span nodeWidth horizontalGap) / 2)
        (level + 1)
      q fun y hy hin => by
        rcases (hplaced y).mp hin with rfl | hin
        · exact hab hy
        · exact hnew y (List.mem_cons_of_mem _ (List.mem_append_left _ hy)) hin
    have hone : placeSubtree children measured (k + 1) level a left p = some (q.draw branches
        (left + (branches.width nodeWidth horizontalGap - branches.span nodeWidth horizontalGap) /
          2)
        (level + 1)) := by
      rw [placeSubtree, if_neg (hnew a List.mem_cons_self)]
      dsimp only
      rw [ha, Option.getD_some, hw, hspan, Int.tdiv_eq_ediv_of_nonneg hpos,
        Int.tdiv_eq_ediv_of_nonneg hfits]
      have hq : (⟨p.positions.insert a ⟨left + branches.width nodeWidth horizontalGap / 2,
          level * (nodeHeight + verticalGap)⟩, p.placed.insert a⟩ : Placing) = q := hput
      rw [hq, hbelow]
      rfl
    generalize hdraw : q.draw branches
        (left + (branches.width nodeWidth horizontalGap - branches.span nodeWidth horizontalGap) /
          2)
        (level + 1) = r at hone
    have hdrawn : ∀ y, y ∈ r.placed ↔ y ∈ branches.labels ∨ y ∈ q.placed :=
      fun y => hdraw ▸ mem_foldl_insert
    have hstep : placing measured (placeSubtree children measured (k + 1) level) (left, p) a =
        some (left + (branches.width nodeWidth horizontalGap + horizontalGap), r) := by
      rw [placing, hone, hw]
      rfl
    obtain ⟨edge', hrest⟩ := iho hothers hmothers honodup hfuelo
      (left + (branches.width nodeWidth horizontalGap + horizontalGap)) level r fun y hy hin => by
        rcases (hdrawn y).mp hin with hin | hin
        · exact hapart y hin hy
        · rcases (hplaced y).mp hin with rfl | hin
          · exact hao hy
          · exact hnew y (List.mem_cons_of_mem _ (List.mem_append_right _ hy)) hin
    refine ⟨edge', ?_⟩
    rw [tops, List.foldlM_cons, hstep, draw_cons, hput, hdraw]
    exact hrest

theorem foldl_putSpot {spots : List (ChildId × Spot)} (hnodup : (spots.map Prod.fst).Nodup)
    {positions : BTreeMap ChildId NodePosition} (y : ChildId) (position : NodePosition) :
    (spots.foldl putSpot positions)[y]? = some position ↔
      (∃ s, (y, s) ∈ spots ∧ position = ⟨s.centre, s.level * (nodeHeight + verticalGap)⟩) ∨
        y ∉ spots.map Prod.fst ∧ positions[y]? = some position := by
  induction spots generalizing positions with
  | nil =>
    refine ⟨fun h => .inr ⟨fun h => (nomatch h), h⟩, ?_⟩
    rintro (⟨_, h, _⟩ | h)
    · exact nomatch h
    · exact h.2
  | cons e spots ih =>
    rw [List.map_cons, List.nodup_cons] at hnodup
    obtain ⟨x, s⟩ := e
    rw [List.foldl_cons, ih hnodup.2, putSpot, get_insert, List.map_cons, List.mem_cons, not_or]
    have hx : ∀ s', (x, s') ∉ spots := fun s' hs => hnodup.1 (List.mem_map.mpr ⟨_, hs, rfl⟩)
    by_cases he : y = x
    · subst he
      rw [if_pos rfl, Option.some_inj]
      constructor
      · rintro (⟨s', hs, -⟩ | ⟨-, rfl⟩)
        · exact absurd hs (hx s')
        · exact .inl ⟨s, List.mem_cons_self, rfl⟩
      · rintro (⟨s', hs, rfl⟩ | ⟨⟨hne, -⟩, -⟩)
        · rcases List.mem_cons.mp hs with hs | hs
          · obtain rfl := (Prod.mk.inj hs).2
            exact .inr ⟨hnodup.1, rfl⟩
          · exact absurd hs (hx s')
        · exact absurd rfl hne
    · rw [if_neg he]
      have hcons : ∀ s', (y, s') ∈ (x, s) :: spots ↔ (y, s') ∈ spots := fun s' => by
        rw [List.mem_cons, Prod.mk.injEq]
        exact or_iff_right fun h => he h.1
      simp only [hcons, he, not_false_eq_true, true_and]

/-! ## the layout -/

variable {links : Links}

theorem mem_rootsOf {ids : BTreeSet ChildId} {id : ChildId} :
    id ∈ rootsOf ids links.parents ↔ id ∈ ids ∧ links.parent id = none := by
  rw [rootsOf, List.mem_mergeSort, List.mem_filter, Std.ExtTreeSet.mem_toList, Bool.not_eq_true',
    Bool.eq_false_iff, Ne, Std.ExtTreeMap.contains_iff_mem]
  refine and_congr_right fun _ => ?_
  rw [Std.ExtTreeMap.mem_iff_isSome_getElem?, Option.not_isSome_iff_eq_none]
  rfl

theorem nodup_rootsOf (ids : BTreeSet ChildId) (links : Links) :
    (rootsOf ids links.parents).Nodup := by
  rw [rootsOf, (List.mergeSort_perm _ _).nodup_iff]
  refine List.Nodup.filter _ ?_
  exact ids.distinct_toList.imp fun hne he => hne (Std.LawfulEqOrd.compare_eq_iff_eq.mpr he)

/-- a layout is a drawing of the forest that the walks leave -/
structure Drawn (nodes : List LayoutNode) (links : Links) (f : Forests.Forest ChildId) : Prop where
  walks : breakParentCycles (nodes.length + 1) (idsOf nodes)
    (Links.of (idsOf nodes) nodes) = some links
  walked : Walked (Links.of (idsOf nodes) nodes) (nodes.map (·.id)) (nodes.map (·.id)) links
  tops : f.tops = rootsOf (idsOf nodes) links.parents
  follows : f.Follows links.table
  nodup : f.labels.Nodup
  labels : ∀ id, id ∈ f.labels ↔ id ∈ nodes.map (·.id)

def drawnLayout (links : Links) (f : Forests.Forest ChildId) : TreeLayout :=
  ⟨(f.spots nodeWidth horizontalGap ((-f.span nodeWidth horizontalGap).tdiv 2) 0).foldl putSpot ∅,
    links.parents, links.children, f.tops⟩

theorem exists_drawn (hnodup : (nodes.map (·.id)).Nodup) : ∃ links f, Drawn nodes links f := by
  obtain ⟨links, hwalks, hwalked⟩ := breakParentCycles_forest hnodup
  have hroots : ∀ id ∈ rootsOf (idsOf nodes) links.parents, id ∈ nodes.map (·.id) := fun id hid =>
    mem_idsOf.mp (mem_rootsOf.mp hid).1
  obtain ⟨f, htops, hfollows⟩ := exists_follows hwalked.agree hwalked.lineage hroots
  have hstart : ∀ a ∈ f.tops, a ∈ nodes.map (·.id) ∧ Forests.Lineage links.parent a [a] := fun a ha => by
    rw [htops] at ha
    exact ⟨hroots a ha, .root (mem_rootsOf.mp ha).2⟩
  refine ⟨links, f, hwalks, hwalked, htops, hfollows, ?_, fun id => ⟨fun hid => ?_, fun hid => ?_⟩⟩
  · exact hfollows.nodup hwalked.agree hstart (htops ▸ nodup_rootsOf _ _)
  · exact (hfollows.lineage hwalked.agree hstart id hid).1
  · obtain ⟨l, hl⟩ := hwalked.lineage id hid
    refine hfollows.covers hwalked.agree (fun a ha hnone => ?_) hid hl
    rw [htops]
    exact mem_rootsOf.mpr ⟨mem_idsOf.mpr ha, hnone⟩

theorem adopt_none {acc : List ChildId × BTreeMap ChildId ChildId × Measuring}
    (h : ∀ node ∈ nodes, acc.2.2.measured.contains node.id = true) :
    nodes.foldlM (adopt fuel children) acc = some acc := by
  induction nodes with
  | nil => rfl
  | cons node nodes ih =>
    rw [List.forall_mem_cons] at h
    have hone : adopt fuel children acc node = some acc := by
      unfold adopt
      exact if_pos h.1
    rw [List.foldlM_cons, hone]
    exact ih h.2

/-- **The layout is found**, and no node is left for a root of its own. -/
theorem Drawn.new (h : Drawn nodes links f) : TreeLayout.new nodes = some (drawnLayout links f) := by
  have hheight : f.height ≤ nodes.length + 1 := by
    have hlength := (List.subperm_of_subset h.nodup fun id hid => (h.labels id).mp hid).length_le
    rw [List.length_map] at hlength
    have := f.height_le
    omega
  have hfollows : f.Follows (links.children[·]?) := h.follows
  have hmeasure := measure_forest hfollows h.nodup hheight 0 ⟨∅, ∅⟩
    fun y _ => ⟨Std.ExtTreeMap.getElem?_empty, Std.ExtTreeSet.not_mem_empty⟩
  have hmeasured := record_measured h.nodup ∅
  have hall : ∀ node ∈ nodes, (record f ∅).contains node.id = true := fun node hnode => by
    have hid : node.id ∈ f.labels := (h.labels _).mpr (List.mem_map_of_mem hnode)
    rw [Std.ExtTreeMap.contains_iff_mem, Std.ExtTreeMap.mem_iff_isSome_getElem?]
    exact measured_some hmeasured hid
  have hadopt : nodes.foldlM (adopt (nodes.length + 1) links.children)
      (f.tops, links.parents, (⟨record f ∅, ∅⟩ : Measuring)) = some
        (f.tops, links.parents, ⟨record f ∅, ∅⟩) :=
    adopt_none hall
  obtain ⟨edge, hplace⟩ := place_forest hfollows hmeasured h.nodup hheight
    ((-f.span nodeWidth horizontalGap).tdiv 2) 0 ⟨∅, ∅⟩ fun _ _ => Std.ExtTreeSet.not_mem_empty
  unfold TreeLayout.new
  dsimp only
  rw [h.walks]
  dsimp only [Option.bind_eq_bind, Option.bind_some]
  rw [← h.tops, hmeasure]
  dsimp only [Option.bind_some]
  rw [hadopt]
  dsimp only [Option.bind_some]
  rw [measured_widths hmeasured, ← span_eq, hplace]
  rfl

/-- what a layout of nodes has to be -/
structure Valid (nodes : List LayoutNode) (layout : TreeLayout) : Prop where
  positioned : ∀ id, (∃ position, layout.position id = some position) ↔ id ∈ nodes.map (·.id)
  forest : ∀ id ∈ nodes.map (·.id), ∃ l, Forests.Lineage layout.parent id l
  pointers : ∀ c p, layout.parent c = some p → ∃ node ∈ nodes, node.id = c ∧ node.parent = some p
  roots : layout.roots.Nodup ∧
    ∀ id, id ∈ layout.roots ↔ id ∈ nodes.map (·.id) ∧ layout.parent id = none
  children : ∀ p ∈ nodes.map (·.id), ∃ cs, layout.children[p]? = some cs ∧ cs.Nodup ∧
    ∀ c, c ∈ cs ↔ layout.parent c = some p
  first : ∀ id ∈ layout.roots, ∃ position, layout.position id = some position ∧ position.top = 0
  level : ∀ c p, layout.parent c = some p → ∃ a b, layout.position c = some a ∧
    layout.position p = some b ∧ a.top = b.top + (nodeHeight + verticalGap)
  apart : ∀ x y a b, x ≠ y → layout.position x = some a → layout.position y = some b →
    a.top = b.top → a.centerX + (nodeWidth + horizontalGap) ≤ b.centerX ∨
      b.centerX + (nodeWidth + horizontalGap) ≤ a.centerX

theorem Drawn.position (h : Drawn nodes links f) (y : ChildId) (position : NodePosition) :
    (drawnLayout links f).position y = some position ↔
      ∃ s, (y, s) ∈ f.spots nodeWidth horizontalGap ((-f.span nodeWidth horizontalGap).tdiv 2) 0 ∧
        position = ⟨s.centre, s.level * (nodeHeight + verticalGap)⟩ := by
  have hkeys := f.spots_labels nodeWidth horizontalGap ((-f.span nodeWidth horizontalGap).tdiv 2) 0
  refine (foldl_putSpot (hkeys ▸ h.nodup) y position).trans (or_iff_left fun hnone => ?_)
  rw [Std.ExtTreeMap.getElem?_empty] at hnone
  exact nomatch hnone.2

theorem Drawn.valid (hnodup : (nodes.map (·.id)).Nodup) (h : Drawn nodes links f) :
    Valid nodes (drawnLayout links f) where
  positioned id := by
    rw [← h.labels, ← f.spots_labels nodeWidth horizontalGap
      ((-f.span nodeWidth horizontalGap).tdiv 2) 0, List.mem_map]
    constructor
    · rintro ⟨position, hp⟩
      obtain ⟨s, hs, -⟩ := (h.position id position).mp hp
      exact ⟨_, hs, rfl⟩
    · rintro ⟨⟨_, s⟩, hs, rfl⟩
      exact ⟨_, (h.position _ _).mpr ⟨s, hs, rfl⟩⟩
  forest := h.walked.lineage
  pointers c p hp := by
    rcases h.walked.dropped c with hc | hc
    · exact nomatch hp.symm.trans hc
    · obtain ⟨node, hnode, he, hpointer⟩ := (of_parents hnodup c p).mp (hc.symm.trans hp)
      exact ⟨node, hnode, he, (pointer_some.mp hpointer).1⟩
  roots := by
    have hroots : (drawnLayout links f).roots = rootsOf (idsOf nodes) links.parents := h.tops
    rw [hroots]
    exact ⟨nodup_rootsOf _ _, fun id => mem_rootsOf.trans (and_congr_left fun _ => mem_idsOf)⟩
  children := h.walked.agree.table
  first id hid := by
    obtain ⟨centre, hspot⟩ := tops_spot hid nodeWidth horizontalGap
      ((-f.span nodeWidth horizontalGap).tdiv 2) 0
    exact ⟨_, (h.position _ _).mpr ⟨_, hspot, rfl⟩, Int.zero_mul _⟩
  level c p hp := by
    have hpid := (h.walked.agree.pointer c p hp).2
    obtain ⟨cs, hcs, -, hiff⟩ := h.walked.agree.table p hpid
    rw [← h.labels, ← f.spots_labels nodeWidth horizontalGap
      ((-f.span nodeWidth horizontalGap).tdiv 2) 0, List.mem_map] at hpid
    obtain ⟨⟨_, s⟩, hs, rfl⟩ := hpid
    obtain ⟨centre, hspot⟩ := child_spot h.follows hs hcs ((hiff c).mpr hp)
    refine ⟨_, _, (h.position _ _).mpr ⟨_, hspot, rfl⟩, (h.position _ _).mpr ⟨s, hs, rfl⟩, ?_⟩
    show (s.level + 1) * (nodeHeight + verticalGap) = s.level * (nodeHeight + verticalGap) + _
    rw [Int.add_mul, Int.one_mul]
  apart x y a b hne ha hb htop := by
    obtain ⟨s, hs, rfl⟩ := (h.position x a).mp ha
    obtain ⟨t, ht, rfl⟩ := (h.position y b).mp hb
    have hlevel : s.level = t.level := Int.eq_of_mul_eq_mul_right (by decide) htop
    exact apart_of_ne (by decide) (by decide) hs ht (fun he => hne (Prod.mk.inj he).1) hlevel

/-- **The layout of subagents is a valid drawing of a forest, whatever the order of the nodes.** -/
theorem new_valid (hnodup : (nodes.map (·.id)).Nodup) :
    ∃ layout, TreeLayout.new nodes = some layout ∧
    Valid nodes layout ∧ ∀ nodes', nodes.Perm nodes' → TreeLayout.new nodes' = some layout := by
  obtain ⟨links, f, h⟩ := exists_drawn hnodup
  refine ⟨_, h.new, h.valid hnodup, fun nodes' hperm => ?_⟩
  obtain ⟨links', f', h'⟩ := exists_drawn ((hperm.map _).nodup_iff.mp hnodup)
  have hlinks : links' = links := by
    have hwalks := h'.walks
    rw [← hperm.length_eq, ← of_perm hnodup hperm, ← idsOf_perm hperm, h.walks] at hwalks
    exact (Option.some.inj hwalks).symm
  subst hlinks
  have hf : f' = f := h'.follows.unique h.follows (by rw [h'.tops, h.tops, idsOf_perm hperm])
  rw [h'.new, hf]

namespace Sample

/-- three nodes in a cycle and one that points away -/
def cycle : List LayoutNode := [⟨1, some 3⟩, ⟨2, some 1⟩, ⟨3, some 2⟩, ⟨4, some 9⟩]

theorem new_valid_cycle : ∃ layout, TreeLayout.new cycle = some layout ∧ Valid cycle layout ∧
    ∀ nodes', cycle.Perm nodes' → TreeLayout.new nodes' = some layout :=
  new_valid (by decide)

end Sample

end Orvek.Tui
