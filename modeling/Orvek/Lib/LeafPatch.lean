import Std.Data.ExtTreeMap.Lemmas
import Mathlib.Data.List.Induction

/-!
# Patching a tree by its leaves

A tree is an ordered map whose keys know their ancestors.  A patch names leaves only: the ones to take away and
the ones to write.  Directories follow: a removal may take the directories that it leaves empty, a write makes
the ones that are missing.

* `Ancestry`       the ancestors of a key, nearest first;
* `prune`, `remove`, `removeAll`   removals, and `removeAll_spec`: what is left after all of them;
* `makeDirs`, `write`, `writeAll`  writes, and `writeAll_spec`: what is there after all of them.
-/

set_option linter.unusedSectionVars false

namespace LeafPatch

/-- the ancestors of each key; the ones of the nearest are the others -/
structure Ancestry (κ : Type) where
  parents : κ → List κ
  tail : ∀ {q p rest}, parents q = p :: rest → parents p = rest

namespace Ancestry
variable {κ : Type} (A : Ancestry κ) {p q r : κ}

theorem of_append {a : List κ} {p : κ} {b : List κ} {q : κ} (h : A.parents q = a ++ p :: b) : A.parents p = b := by
  induction a generalizing q with
  | nil => exact A.tail h
  | cons x a ih => exact ih (A.tail h)

theorem trans (hp : p ∈ A.parents q) (hq : q ∈ A.parents r) : p ∈ A.parents r := by
  obtain ⟨a, b, he⟩ := List.append_of_mem hq
  rw [he]
  rw [A.of_append he] at hp
  exact List.mem_append_right _ (List.mem_cons_of_mem _ hp)

theorem irrefl (q : κ) : q ∉ A.parents q := by
  intro h
  obtain ⟨a, b, he⟩ := List.append_of_mem h
  have hlength := congrArg List.length he
  rw [A.of_append he, List.length_append, List.length_cons] at hlength
  omega

theorem asymm (hp : p ∈ A.parents q) : q ∉ A.parents p := fun hq => A.irrefl q (A.trans hq hp)

end Ancestry

section
variable {κ ν : Type} [DecidableEq κ] [Ord κ] [Std.TransOrd κ] [Std.LawfulEqOrd κ] (A : Ancestry κ)
  (isDir : ν → Bool) (newDir : ν)
variable {q : κ} {ps : List κ}

abbrev Tree (κ ν : Type) [Ord κ] : Type := Std.ExtTreeMap κ ν compare

theorem getElem?_erase (t : Tree κ ν) (k q : κ) : (t.erase k)[q]? = if q = k then none else t[q]? := by
  rw [Std.ExtTreeMap.getElem?_erase]
  exact if_congr (Std.LawfulEqCmp.compare_eq_iff_eq.trans eq_comm) rfl rfl

theorem getElem?_insert (t : Tree κ ν) (k q : κ) (v : ν) : (t.insert k v)[q]? = if q = k then some v else t[q]? := by
  rw [Std.ExtTreeMap.getElem?_insert]
  exact if_congr (Std.LawfulEqCmp.compare_eq_iff_eq.trans eq_comm) rfl rfl

variable {t : Tree κ ν}

theorem mem_keys {k : κ} : k ∈ t.keys ↔ t[k]? ≠ none := by
  rw [Std.ExtTreeMap.mem_keys, Std.ExtTreeMap.mem_iff_isSome_getElem?]
  cases t[k]? <;> simp

/-! ## removals -/

/-- a leaf that is taken away; one that `prunes` takes the directories with it that it leaves empty -/
structure Removal (κ : Type) where
  key : κ
  prunes : Bool

/-- something is below the key -/
def occupied (t : Tree κ ν) (p : κ) : Bool := t.keys.any fun q => p ∈ A.parents q

/-- the directories that are empty go, from the nearest one up -/
def prune (t : Tree κ ν) : List κ → Tree κ ν
  | [] => t
  | p :: ps => if occupied A t p then t else prune (t.erase p) ps

def remove (t : Tree κ ν) (x : Removal κ) : Tree κ ν :=
  if x.prunes then prune A (t.erase x.key) (A.parents x.key) else t.erase x.key

def removeAll (t : Tree κ ν) (xs : List (Removal κ)) : Tree κ ν := xs.foldl (remove A) t

/-- every key has its ancestors, and they are directories -/
def WellFormed (t : Tree κ ν) : Prop := ∀ k, t[k]? ≠ none → ∀ p ∈ A.parents k, ∃ d, t[p]? = some d ∧ isDir d = true

def below (xs : List (Removal κ)) (q : κ) : List (Removal κ) := xs.filter fun x => q ∈ A.parents x.key

def lastBelow (xs : List (Removal κ)) (q : κ) : Option (Removal κ) := (below A xs q).getLast?

def Touched (xs : List (Removal κ)) (q : κ) : Prop :=
  q ∈ xs.map Removal.key ∨ (lastBelow A xs q).any Removal.prunes = true

/-- all that is there at the key and below it is touched -/
def Hollow (t : Tree κ ν) (xs : List (Removal κ)) (q : κ) : Prop :=
  ∀ r, t[r]? ≠ none → (r = q ∨ q ∈ A.parents r) → Touched A xs r

variable {A isDir}

theorem occupied_iff {p : κ} : occupied A t p = true ↔ ∃ q, t[q]? ≠ none ∧ p ∈ A.parents q := by
  rw [occupied, List.any_eq_true]
  constructor
  · rintro ⟨q, hq, hp⟩
    exact ⟨q, mem_keys.mp hq, by simpa using hp⟩
  · rintro ⟨q, hq, hp⟩
    exact ⟨q, mem_keys.mpr hq, by simpa using hp⟩

variable {xs : List (Removal κ)} {x : Removal κ}

theorem mem_below : x ∈ below A xs q ↔ x ∈ xs ∧ q ∈ A.parents x.key := by
  simp [below]

theorem mem_of_lastBelow (h : lastBelow A xs q = some x) : x ∈ xs ∧ q ∈ A.parents x.key :=
  mem_below.mp (List.mem_of_getLast? h)

theorem lastBelow_ne_none (hx : x ∈ xs) (hbelow : q ∈ A.parents x.key) :
    ∃ y, lastBelow A xs q = some y := by
  refine Option.ne_none_iff_exists'.mp fun hnone => ?_
  rw [lastBelow, List.getLast?_eq_none_iff] at hnone
  have hmem := mem_below.mpr ⟨hx, hbelow⟩
  rw [hnone] at hmem
  cases hmem

theorem lastBelow_eq_some (hsorted : xs.Pairwise fun x y => compare x.key y.key = .lt) :
    lastBelow A xs q = some x ↔
      x ∈ xs ∧ q ∈ A.parents x.key ∧ ∀ y ∈ xs, q ∈ A.parents y.key → (compare y.key x.key).isLE = true := by
  have hsorted' : (below A xs q).Pairwise fun x y => compare x.key y.key = .lt := hsorted.filter _
  constructor
  · intro h
    obtain ⟨hx, hbelow⟩ := mem_of_lastBelow h
    refine ⟨hx, hbelow, fun y hy hq => ?_⟩
    have hmem := mem_below.mpr ⟨hy, hq⟩
    obtain ⟨ys, hys⟩ := List.getLast?_eq_some_iff.mp h
    rw [hys] at hmem hsorted'
    rcases List.mem_append.mp hmem with hmem | hmem
    · rw [(List.pairwise_append.mp hsorted').2.2 y hmem x List.mem_cons_self]
      rfl
    · rw [List.mem_singleton.mp hmem]
      exact Std.ReflCmp.isLE_rfl
  · rintro ⟨hx, hbelow, hlast⟩
    obtain ⟨l, l', hl⟩ := List.append_of_mem (mem_below.mpr ⟨hx, hbelow⟩)
    obtain rfl : l' = [] := by
      refine List.eq_nil_iff_forall_not_mem.mpr fun y hy => ?_
      obtain ⟨hy', hq⟩ := mem_below.mp (hl ▸ List.mem_append_right l (List.mem_cons_of_mem x hy))
      rw [hl] at hsorted'
      have hgreater := (List.pairwise_cons.mp (List.pairwise_append.mp hsorted').2.1).1 y hy
      have hle := hlast y hy' hq
      rw [Std.OrientedCmp.gt_of_lt hgreater] at hle
      cases hle
    rw [lastBelow, hl, List.getLast?_concat]

theorem lastBelow_concat (xs : List (Removal κ)) (x : Removal κ) (q : κ) :
    lastBelow A (xs ++ [x]) q = if q ∈ A.parents x.key then some x else lastBelow A xs q := by
  rw [lastBelow, below, List.filter_append]
  by_cases hq : q ∈ A.parents x.key
  · simp [hq]
  · simp [hq, lastBelow, below]

theorem touched_concat (xs : List (Removal κ)) (x : Removal κ) (hq : q ≠ x.key) :
    Touched A (xs ++ [x]) q ↔
      if q ∈ A.parents x.key then q ∈ xs.map Removal.key ∨ x.prunes = true else Touched A xs q := by
  have hkeys : q ∈ (xs ++ [x]).map Removal.key ↔ q ∈ xs.map Removal.key := by simp [hq]
  rw [Touched, hkeys, lastBelow_concat]
  split
  · rfl
  · rfl

theorem Hollow.below {p : κ} (h : Hollow A t xs p) (hq : p ∈ A.parents q) :
    Hollow A t xs q := fun r hr hat =>
  h r hr (.inr (hat.elim (fun he => he ▸ hq) fun hb => A.trans hq hb))

/-- the tree without the hollow keys, except for some of them -/
def Cleared (A : Ancestry κ) (t u : Tree κ ν) (xs : List (Removal κ)) (keep : List κ) : Prop :=
  ∀ q, u[q]? = none ∧ t[q]? = none ∨ u[q]? = none ∧ Hollow A t xs q ∧ q ∉ keep ∨
    u[q]? = t[q]? ∧ ¬(Hollow A t xs q ∧ q ∉ keep)

variable {u : Tree κ ν}

theorem prune_cleared (hx : x.prunes = true) (hps : ∃ a, A.parents x.key = a ++ ps)
    (h : Cleared A t u (xs ++ [x]) ps) : Cleared A t (prune A u ps) (xs ++ [x]) [] := by
  induction ps generalizing u with
  | nil => exact h
  | cons p ps ih =>
    obtain ⟨a, hparents⟩ := hps
    have hp : p ∈ A.parents x.key := by simp [hparents]
    have hrest : A.parents p = ps := A.of_append hparents
    have htouched : Touched A (xs ++ [x]) p := by
      refine (touched_concat xs x (ne_of_mem_of_not_mem hp (A.irrefl x.key))).mpr ?_
      rw [if_pos hp]
      exact .inr hx
    have hoccupied : occupied A u p = true ↔ ¬Hollow A t (xs ++ [x]) p := by
      rw [occupied_iff]
      constructor
      · rintro ⟨q, hq, hbelow⟩ hhollow
        rcases h q with ⟨hu, -⟩ | ⟨hu, -⟩ | ⟨-, hkept⟩
        · exact hq hu
        · exact hq hu
        · refine hkept ⟨hhollow.below hbelow, fun hmem => ?_⟩
          rcases List.mem_cons.mp hmem with rfl | hmem
          · exact A.irrefl _ hbelow
          · exact A.asymm hbelow (hrest ▸ hmem)
      · intro hnot
        obtain ⟨r, hr⟩ := not_forall.mp hnot
        obtain ⟨hr, hnot⟩ := Classical.not_imp.mp hr
        obtain ⟨hat, huntouched⟩ := Classical.not_imp.mp hnot
        rcases hat with rfl | hbelow
        · exact absurd htouched huntouched
        · refine ⟨r, ?_, hbelow⟩
          rcases h r with ⟨-, ht⟩ | ⟨-, hhollow, -⟩ | ⟨hu, -⟩
          · exact absurd ht hr
          · exact absurd (hhollow r hr (.inl rfl)) huntouched
          · rwa [hu]
    rw [prune]
    split
    · rename_i hstop
      have hnot := hoccupied.mp hstop
      intro q
      have hkeep : Hollow A t (xs ++ [x]) q → q ∉ p :: ps := by
        intro hhollow hmem
        rcases List.mem_cons.mp hmem with rfl | hmem
        · exact hnot hhollow
        · exact hnot (hhollow.below (hrest ▸ hmem))
      rcases h q with hnone | ⟨hu, hhollow, -⟩ | ⟨hu, hkept⟩
      · exact .inl hnone
      · exact .inr (.inl ⟨hu, hhollow, List.not_mem_nil⟩)
      · exact .inr (.inr ⟨hu, fun hh => hkept ⟨hh.1, hkeep hh.1⟩⟩)
    · rename_i hgo
      have hhollow : Hollow A t (xs ++ [x]) p := Classical.not_not.mp fun hnot => hgo (hoccupied.mpr hnot)
      refine ih ⟨a ++ [p], by simp [hparents]⟩ fun q => ?_
      rw [getElem?_erase]
      by_cases hq : q = p
      · subst hq
        rw [if_pos rfl]
        exact .inr (.inl ⟨rfl, hhollow, hrest ▸ A.irrefl q⟩)
      · rw [if_neg hq]
        have hmem : q ∉ p :: ps ↔ q ∉ ps := by simp [hq]
        have hsame := h q
        rw [hmem] at hsame
        exact hsame

/-- the leaf itself goes; what is above it is still there -/
theorem erase_cleared (hkey : t[x.key]? ≠ none) (hnothing : ∀ r, t[r]? ≠ none → x.key ∉ A.parents r)
    (hfresh : x.key ∉ xs.map Removal.key) (hbefore : ∀ y ∈ xs, t[y.key]? ≠ none) (h : Cleared A t u xs []) :
    Cleared A t (u.erase x.key) (xs ++ [x]) (A.parents x.key) := by
  have huntouched : ¬Touched A xs x.key := by
    rintro (hmem | hlast)
    · exact hfresh hmem
    · obtain ⟨y, hy, -⟩ := (Option.any_eq_true _ _).mp hlast
      obtain ⟨hy, hbelow⟩ := mem_of_lastBelow hy
      exact hnothing y.key (hbefore y hy) hbelow
  intro q
  rw [getElem?_erase]
  by_cases hq : q = x.key
  · subst hq
    rw [if_pos rfl]
    refine .inr (.inl ⟨rfl, fun r hr hat => ?_, A.irrefl _⟩)
    rcases hat with rfl | hbelow
    · exact .inl (by simp)
    · exact absurd hbelow (hnothing r hr)
  · rw [if_neg hq]
    by_cases habove : q ∈ A.parents x.key
    · rcases h q with hnone | ⟨-, hhollow, -⟩ | ⟨hu, -⟩
      · exact .inl hnone
      · exact absurd (hhollow x.key hkey (.inr habove)) huntouched
      · exact .inr (.inr ⟨hu, fun hh => hh.2 habove⟩)
    · -- what the last removal touches is the leaf and what is above it
      have hsame : Hollow A t (xs ++ [x]) q ↔ Hollow A t xs q := by
        refine forall_congr' fun r => forall_congr' fun hr => forall_congr' fun hat => ?_
        have hother : r ≠ x.key ∧ r ∉ A.parents x.key := by
          rcases hat with rfl | hbelow
          · exact ⟨hq, habove⟩
          · exact ⟨fun he => habove (he ▸ hbelow), fun hr' => habove (A.trans hbelow hr')⟩
        rw [touched_concat xs x hother.1, if_neg hother.2]
      rcases h q with hnone | ⟨hu, hhollow, -⟩ | ⟨hu, hkept⟩
      · exact .inl hnone
      · exact .inr (.inl ⟨hu, hsame.mpr hhollow, habove⟩)
      · exact .inr (.inr ⟨hu, fun hh => hkept ⟨hsame.mp hh.1, List.not_mem_nil⟩⟩)

theorem removeAll_cleared (hwf : WellFormed A isDir t) (hnodup : (xs.map Removal.key).Nodup)
    (hleaves : ∀ x ∈ xs, ∃ v, t[x.key]? = some v ∧ isDir v = false) :
    Cleared A t (removeAll A t xs) xs [] := by
  induction xs using List.reverseRecOn with
  | nil =>
    intro q
    by_cases hq : t[q]? = none
    · exact .inl ⟨hq, hq⟩
    · refine .inr (.inr ⟨rfl, fun hh => ?_⟩)
      rcases hh.1 q hq (.inl rfl) with hmem | hlast
      · cases hmem
      · cases hlast
  | append_singleton xs x ih =>
    rw [List.map_append] at hnodup
    obtain ⟨hnodup, -, hdisjoint⟩ := List.nodup_append.mp hnodup
    have hfresh : x.key ∉ xs.map Removal.key := fun hk => hdisjoint _ hk x.key (by simp) rfl
    have hdone := ih hnodup fun y hy => hleaves y (List.mem_append_left _ hy)
    obtain ⟨v, hv, hleaf⟩ := hleaves x (by simp)
    have hkey : t[x.key]? ≠ none := by simp [hv]
    have hnothing : ∀ r, t[r]? ≠ none → x.key ∉ A.parents r := by
      intro r hr hbelow
      obtain ⟨d, hd, hdir⟩ := hwf r hr x.key hbelow
      rw [hv] at hd
      obtain rfl := Option.some.inj hd
      exact absurd hdir (by simp [hleaf])
    have herased := erase_cleared hkey hnothing hfresh (fun y hy => by
      obtain ⟨w, hw, -⟩ := hleaves y (List.mem_append_left _ hy)
      simp [hw]) hdone
    rw [removeAll, List.foldl_append]
    show Cleared A t (remove A (removeAll A t xs) x) (xs ++ [x]) []
    rw [remove]
    split
    · rename_i hprunes
      exact prune_cleared hprunes ⟨[], rfl⟩ herased
    · rename_i hkeeps
      -- a directory above the leaf stays, whatever is left in it
      intro q
      rcases herased q with hnone | ⟨hu, hhollow, -⟩ | ⟨hu, hkept⟩
      · exact .inl hnone
      · exact .inr (.inl ⟨hu, hhollow, List.not_mem_nil⟩)
      · refine .inr (.inr ⟨hu, fun hh => hkept ⟨hh.1, fun habove => ?_⟩⟩)
        obtain ⟨d, hd, hdir⟩ := hwf x.key hkey q habove
        have htouched := hh.1 q (by simp [hd]) (.inl rfl)
        rw [touched_concat xs x (ne_of_mem_of_not_mem habove (A.irrefl x.key)), if_pos habove] at htouched
        rcases htouched with hmem | hprunes
        · obtain ⟨y, hy, rfl⟩ := List.mem_map.mp hmem
          obtain ⟨w, hw, hleaf'⟩ := hleaves y (List.mem_append_left _ hy)
          rw [hd] at hw
          obtain rfl := Option.some.inj hw
          exact absurd hdir (by simp [hleaf'])
        · exact hkeeps hprunes

/-- **What removals leave**: all but the keys that are hollow -/
theorem removeAll_spec (hwf : WellFormed A isDir t) (hnodup : (xs.map Removal.key).Nodup)
    (hleaves : ∀ x ∈ xs, ∃ v, t[x.key]? = some v ∧ isDir v = false) (q : κ) :
    (Hollow A t xs q → (removeAll A t xs)[q]? = none) ∧ (¬Hollow A t xs q → (removeAll A t xs)[q]? = t[q]?) := by
  rcases removeAll_cleared hwf hnodup hleaves q with ⟨hu, ht⟩ | ⟨hu, hhollow, -⟩ | ⟨hu, hkept⟩
  · exact ⟨fun _ => hu, fun _ => by rw [hu, ht]⟩
  · exact ⟨fun _ => hu, fun h => absurd hhollow h⟩
  · exact ⟨fun h => absurd ⟨h, List.not_mem_nil⟩ hkept, fun _ => hu⟩

theorem erase_sub {k : κ} (h : (t.erase k)[q]? ≠ none) : t[q]? ≠ none := by
  rw [getElem?_erase] at h
  split at h
  · exact absurd rfl h
  · exact h

theorem prune_sub (h : (prune A t ps)[q]? ≠ none) : t[q]? ≠ none := by
  induction ps generalizing t with
  | nil => exact h
  | cons p ps ih =>
    rw [prune] at h
    split at h
    · exact h
    · exact erase_sub (ih h)

theorem removeAll_sub (h : (removeAll A t xs)[q]? ≠ none) : t[q]? ≠ none := by
  induction xs generalizing t with
  | nil => exact h
  | cons x xs ih =>
    have hnext := ih h
    rw [remove] at hnext
    split at hnext
    · exact erase_sub (prune_sub hnext)
    · exact erase_sub hnext

/-! ## writes -/

variable (isDir) in
/-- the directories on the way, from the farthest one down -/
def makeDirs (t : Tree κ ν) : List κ → Option (Tree κ ν)
  | [] => some t
  | p :: ps =>
    match t[p]? with
    | none => makeDirs (t.insert p newDir) ps
    | some d => if isDir d then makeDirs t ps else none

variable (A isDir) in
/-- a leaf, in the place of another one or of nothing -/
def write (t : Tree κ ν) (w : κ × ν) : Option (Tree κ ν) := do
  let t ← makeDirs isDir newDir t (A.parents w.1).reverse
  if t[w.1]?.any isDir then none else some (t.insert w.1 w.2)

variable (A isDir) in
def writeAll (t : Tree κ ν) (ws : List (κ × ν)) : Option (Tree κ ν) := ws.foldlM (write A isDir newDir) t

variable {newDir}

theorem makeDirs_spec (hnew : isDir newDir = true) (hdirs : ∀ p ∈ ps, t[p]?.all isDir = true) :
    ∃ u, makeDirs isDir newDir t ps = some u ∧
      ∀ q, u[q]? = if t[q]? = none ∧ q ∈ ps then some newDir else t[q]? := by
  induction ps generalizing t with
  | nil => exact ⟨t, rfl, fun q => by simp⟩
  | cons p ps ih =>
    obtain ⟨hp, hps⟩ := List.forall_mem_cons.mp hdirs
    rw [makeDirs]
    cases hold : t[p]? with
    | some d =>
      rw [hold] at hp
      obtain ⟨u, hu, hspec⟩ := ih hps
      refine ⟨u, by rw [← hu]; exact if_pos hp, fun q => ?_⟩
      rw [hspec q]
      refine if_congr (and_congr_right fun hq => ?_) rfl rfl
      have hne : q ≠ p := by
        rintro rfl
        rw [hold] at hq
        cases hq
      simp [hne]
    | none =>
      obtain ⟨u, hu, hspec⟩ := @ih (t.insert p newDir) fun q hq => by
        rw [getElem?_insert]
        split
        · exact hnew
        · exact hps q hq
      refine ⟨u, hu, fun q => ?_⟩
      rw [hspec q, getElem?_insert]
      by_cases hq : q = p
      · subst hq
        simp [hold]
      · simp [hq]

theorem makeDirs_sub (h : makeDirs isDir newDir t ps = some u) (hq : u[q]? ≠ none) :
    t[q]? ≠ none ∨ q ∈ ps := by
  induction ps generalizing t with
  | nil =>
    obtain rfl := Option.some.inj h
    exact .inl hq
  | cons p ps ih =>
    rw [makeDirs] at h
    split at h
    · rcases ih h with hq' | hmem
      · rw [getElem?_insert] at hq'
        split at hq'
        · rename_i he
          exact .inr (he ▸ List.mem_cons_self)
        · exact .inl hq'
      · exact .inr (List.mem_cons_of_mem _ hmem)
    · split at h
      · exact (ih h).imp_right (List.mem_cons_of_mem _)
      · cases h

/-- writes add the leaves and what is above them -/
theorem writeAll_sub {ws : List (κ × ν)} (h : writeAll A isDir newDir t ws = some u) (hq : u[q]? ≠ none) :
    t[q]? ≠ none ∨ ∃ w ∈ ws, q = w.1 ∨ q ∈ A.parents w.1 := by
  induction ws generalizing t with
  | nil =>
    obtain rfl := Option.some.inj h
    exact .inl hq
  | cons w ws ih =>
    rw [writeAll, List.foldlM_cons] at h
    obtain ⟨t₁, hwrite, hrest⟩ := Option.bind_eq_some_iff.mp h
    rcases ih hrest with hq' | ⟨x, hx, hat⟩
    · obtain ⟨t₂, hdirs, hput⟩ := Option.bind_eq_some_iff.mp hwrite
      split at hput
      · cases hput
      · obtain rfl := Option.some.inj hput
        rw [getElem?_insert] at hq'
        split at hq'
        · rename_i he
          exact .inr ⟨w, List.mem_cons_self, .inl he⟩
        · rcases makeDirs_sub hdirs hq' with hold | hmem
          · exact .inl hold
          · exact .inr ⟨w, List.mem_cons_self, .inr (List.mem_reverse.mp hmem)⟩
    · exact .inr ⟨x, List.mem_cons_of_mem _ hx, hat⟩

/-- what the writes need: no directory where a leaf goes, and no leaf on the way -/
structure Writable (A : Ancestry κ) (isDir : ν → Bool) (t : Tree κ ν) (ws : List (κ × ν)) : Prop where
  nodup : (ws.map Prod.fst).Nodup
  free : ∀ w ∈ ws, t[w.1]?.any isDir = false
  way : ∀ w ∈ ws, ∀ p ∈ A.parents w.1, t[p]?.all isDir = true ∧ p ∉ ws.map Prod.fst

theorem write_spec (hnew : isDir newDir = true) {w : κ × ν} (hfree : t[w.1]?.any isDir = false)
    (hway : ∀ p ∈ A.parents w.1, t[p]?.all isDir = true) :
    ∃ u, write A isDir newDir t w = some u ∧ ∀ q, u[q]? =
      if q = w.1 then some w.2 else if t[q]? = none ∧ q ∈ A.parents w.1 then some newDir else t[q]? := by
  obtain ⟨u, hu, hspec⟩ := makeDirs_spec hnew fun p hp => hway p (List.mem_reverse.mp hp)
  have hown : u[w.1]? = t[w.1]? := by
    rw [hspec, if_neg]
    exact fun h => A.irrefl w.1 (List.mem_reverse.mp h.2)
  refine ⟨u.insert w.1 w.2, ?_, fun q => ?_⟩
  · rw [write, hu, Option.bind_eq_bind, Option.bind_some, hown, if_neg (by rw [hfree]; exact Bool.false_ne_true)]
  · rw [getElem?_insert, hspec]
    simp only [List.mem_reverse]

/-- **What writes give**: the leaves, what was there, and the directories that were missing -/
theorem writeAll_spec (hnew : isDir newDir = true) {t : Tree κ ν} {ws : List (κ × ν)} (h : Writable A isDir t ws) :
    ∃ u, writeAll A isDir newDir t ws = some u ∧ (∀ w ∈ ws, u[w.1]? = some w.2) ∧
      ∀ q, q ∉ ws.map Prod.fst →
        ((t[q]? ≠ none ∨ ∀ w ∈ ws, q ∉ A.parents w.1) → u[q]? = t[q]?) ∧
        (t[q]? = none → (∃ w ∈ ws, q ∈ A.parents w.1) → u[q]? = some newDir) := by
  induction ws generalizing t with
  | nil => exact ⟨t, rfl, nofun, fun q _ => ⟨fun _ => rfl, fun _ ⟨w, hw, _⟩ => nomatch hw⟩⟩
  | cons w ws ih =>
    obtain ⟨hnodup, hfree, hway⟩ := h
    obtain ⟨hfresh, hnodup⟩ := List.nodup_cons.mp hnodup
    obtain ⟨t₁, hwrite, hspec⟩ := write_spec hnew (hfree w List.mem_cons_self)
      fun p hp => (hway w List.mem_cons_self p hp).1
    have hkeep : ∀ q, q ≠ w.1 → q ∉ A.parents w.1 → t₁[q]? = t[q]? := by
      intro q hq hp
      rw [hspec, if_neg hq, if_neg fun h => hp h.2]
    have hrest : Writable A isDir t₁ ws := by
      refine ⟨hnodup, fun x hx => ?_, fun x hx p hp => ?_⟩
      · have hne : x.1 ≠ w.1 := fun he => hfresh (he ▸ List.mem_map_of_mem hx)
        rw [hkeep x.1 hne fun hmem => (hway w List.mem_cons_self x.1 hmem).2 (List.mem_cons_of_mem _
          (List.mem_map_of_mem hx))]
        exact hfree x (List.mem_cons_of_mem _ hx)
      · obtain ⟨hdirs, hout⟩ := hway x (List.mem_cons_of_mem _ hx) p hp
        obtain ⟨hne, hout⟩ := not_or.mp (mt List.mem_cons.mpr hout)
        refine ⟨?_, hout⟩
        rw [hspec, if_neg hne]
        split
        · exact hnew
        · exact hdirs
    obtain ⟨u, hall, hleaves, hothers⟩ := ih hrest
    refine ⟨u, ?_, fun x hx => ?_, fun q hq => ?_⟩
    · rw [writeAll, List.foldlM_cons, hwrite]
      exact hall
    · rcases List.mem_cons.mp hx with rfl | hx
      · have habove : ∀ y ∈ ws, x.1 ∉ A.parents y.1 := fun y hy hmem =>
          (hway y (List.mem_cons_of_mem _ hy) x.1 hmem).2 List.mem_cons_self
        rw [(hothers x.1 hfresh).1 (.inr habove), hspec, if_pos rfl]
      · exact hleaves x hx
    · obtain ⟨hne, hq⟩ := not_or.mp (mt List.mem_cons.mpr hq)
      obtain ⟨hsame, hmade⟩ := hothers q hq
      have hfirst := hspec q
      rw [if_neg hne] at hfirst
      constructor
      · rintro (hold | hnone)
        · rw [if_neg fun h => hold h.1] at hfirst
          rw [hsame (.inl (by rwa [hfirst])), hfirst]
        · obtain ⟨hp, hps⟩ := List.forall_mem_cons.mp hnone
          rw [hsame (.inr hps), hkeep q hne hp]
      · rintro hold ⟨x, hx, hp⟩
        by_cases hmem : q ∈ A.parents w.1
        · rw [if_pos ⟨hold, hmem⟩] at hfirst
          rw [hsame (.inl (by rw [hfirst]; exact Option.some_ne_none _)), hfirst]
        · rw [if_neg fun h => hmem h.2, hold] at hfirst
          rcases List.mem_cons.mp hx with rfl | hx
          · exact absurd hp hmem
          · exact hmade hfirst ⟨x, hx, hp⟩

end

end LeafPatch
