import Orvek.Lib.ThreeWay
import Orvek.Workspace.Links

/-!
# Merging two heads of a workspace

Private and user changes of one snapshot are merged path by path, and the tree they give together is
checked once more:

* `Reconcile.mergeEntry`      one path: the side that changed it, and for files also part by part;
* `Snapshot.reconcile`        the merged snapshot, or the paths in conflict;
* `Merged`, `Fault`           what a path of the result is, and what is wrong with a merged tree;
* `Conflicts.addAll`          what is reported of a list of conflicts;
* `reconcile_exact`           the merge is symmetric, and its three outcomes.
-/

set_option linter.unusedSectionVars false

namespace Orvek.Workspace
open Paths Checks ThreeWay

def maxConflictPaths : Nat := 64

/-! ## conflicts -/

structure Conflicts where
  paths : BTreeSet String
  truncated : Bool

namespace Conflicts

def empty : Conflicts := { paths := ∅, truncated := false }

def add (c : Conflicts) (path : String) : Conflicts :=
  if c.paths.size < maxConflictPaths then { c with paths := c.paths.insert path }
  else if path ∈ c.paths then c
  else { c with truncated := true }

def finish (c : Conflicts) : Except WorkspaceError Unit :=
  if c.paths.size = 0 then .ok () else .error (.reconcileConflict c.paths.toList c.truncated)

end Conflicts

/-! ## the merge -/

namespace Reconcile

def merge {α : Type} [DecidableEq α] (origin privateHead user : α) : Except Unit α :=
  if privateHead = user ∨ user = origin then .ok privateHead
  else if privateHead = origin then .ok user
  else .error ()

def mergeEntry (origin privateHead user : Option Entry) : Except Unit (Option Entry) :=
  if privateHead = user then .ok privateHead
  else if privateHead = origin then .ok user
  else if user = origin then .ok privateHead
  else
    match origin, privateHead, user with
    | some (.file base baseMode), some (.file left leftMode), some (.file right rightMode) => do
      let content ← merge base left right
      let mode ← merge baseMode leftMode rightMode
      .ok (some (.file content mode))
    | _, _, _ => .error ()

def validateExcluded (excluded : String) : Except WorkspaceError Unit :=
  refuseIf (4096 < excluded.utf8ByteSize ∨ (components excluded.toList).length ≠ 1 ∨
    safeRelative excluded.toList = false) (WorkspaceError.unsafePath excluded)

def validateEntry (e : String × Entry) : Except WorkspaceError Unit := do
  refuseIf (4096 < e.1.utf8ByteSize ∨ '\x00' ∈ e.1.toList ∨
    ∃ part ∈ split e.1.toList, part = [] ∨ part = ['.'] ∨ part = dotdot) (WorkspaceError.unsafePath e.1)
  match e.2 with
  | .file _ mode => refuseIf (0o7777 < mode) (WorkspaceError.unsafePath e.1)
  | .directory mode => refuseIf (0o7777 < mode) (WorkspaceError.unsafePath e.1)
  | .symlink target =>
    refuseIf (target.toList = [] ∨ 4096 < target.utf8ByteSize ∨ '\x00' ∈ target.toList)
      (WorkspaceError.unsafePath e.1)

def validate (s : Snapshot) : Except WorkspaceError Unit := do
  refuseIf (s.policy.maxFiles = 0 ∨ s.policy.maxBytes = 0) WorkspaceError.limit
  checkAll validateExcluded s.policy.excludedRoots
  checkAll validateEntry s.entries.toList
  s.validate

def mergePath (origin privateHead user : Snapshot) (acc : BTreeMap String Entry × Conflicts)
    (path : String) : BTreeMap String Entry × Conflicts :=
  match mergeEntry origin.entries[path]? privateHead.entries[path]? user.entries[path]? with
  | .ok (some entry) => (acc.1.insert path entry, acc.2)
  | .ok none => acc
  | .error () => (acc.1, acc.2.add path)

def checkPath (entries : BTreeMap String Entry) (conflicts : Conflicts) (e : String × Entry) :
    Except WorkspaceError Conflicts :=
  let conflicts := (Snapshot.parentsOf e.1).foldl
    (fun c p => if isDirectory entries[p]? then c else (c.add e.1).add p) conflicts
  match e.2 with
  | .symlink target => do
    let resolved ← resolveLink e.1 target
    .ok (if isFileOrDirectory entries[resolved]? then conflicts
      else (conflicts.add e.1).add resolved)
  | _ => .ok conflicts

/-- the keys of the three maps -/
def paths (origin privateHead user : Snapshot) : BTreeSet String :=
  .ofList (origin.entries.keys ++ privateHead.entries.keys ++ user.entries.keys)

end Reconcile

def Snapshot.reconcile (origin privateHead currentUser : Snapshot) :
    Except WorkspaceError Snapshot := do
  checkAll Reconcile.validate [origin, privateHead, currentUser]
  refuseIf (origin.policy ≠ privateHead.policy ∨ origin.policy ≠ currentUser.policy)
    WorkspaceError.reconcilePolicy
  let merged := (Reconcile.paths origin privateHead currentUser).toList.foldl
    (Reconcile.mergePath origin privateHead currentUser) (∅, .empty)
  merged.2.finish
  refuseIf (origin.policy.maxFiles < merged.1.size) WorkspaceError.limit
  let conflicts ← merged.1.toList.foldlM (Reconcile.checkPath merged.1) .empty
  conflicts.finish
  let result : Snapshot := { version := origin.version, policy := origin.policy, entries := merged.1 }
  result.validate
  .ok result

/-! ## the merged value of a path -/

/-- the value both sides agree on or one of them changed; of files, also in the content and in the
mode -/
inductive Merged : Option Entry → Option Entry → Option Entry → Option Entry → Prop
  | whole {o p u r : Option Entry} (h : Taken o p u r) : Merged o p u r
  | parts {base left right content : Digest} {baseMode leftMode rightMode mode : Nat}
      (hc : Taken base left right content) (hm : Taken baseMode leftMode rightMode mode) :
      Merged (some (.file base baseMode)) (some (.file left leftMode)) (some (.file right rightMode))
        (some (.file content mode))

namespace Merged

variable {o p u r r' : Option Entry}

theorem symm (h : Merged o p u r) : Merged o u p r := by
  cases h with
  | whole h => exact .whole h.symm
  | parts hc hm => exact .parts hc.symm hm.symm

theorem parts_of_whole {base left right : Digest} {baseMode leftMode rightMode : Nat}
    (h : Taken (some (Entry.file base baseMode)) (some (.file left leftMode))
      (some (.file right rightMode)) r) :
    ∃ content mode, r = some (.file content mode) ∧ Taken base left right content ∧
      Taken baseMode leftMode rightMode mode := by
  cases h with
  | agreed => exact ⟨_, _, rfl, .agreed _, .agreed _⟩
  | right => exact ⟨_, _, rfl, .right _, .right _⟩
  | left => exact ⟨_, _, rfl, .left _, .left _⟩

theorem unique (h : Merged o p u r) (h' : Merged o p u r') : r = r' := by
  cases h with
  | whole h =>
    cases h' with
    | whole h' => exact h.unique h'
    | parts hc' hm' =>
      obtain ⟨content, mode, rfl, hc, hm⟩ := parts_of_whole h
      rw [hc.unique hc', hm.unique hm']
  | parts hc hm =>
    cases h' with
    | whole h' =>
      obtain ⟨content, mode, rfl, hc', hm'⟩ := parts_of_whole h'
      rw [hc.unique hc', hm.unique hm']
    | parts hc' hm' => rw [hc.unique hc', hm.unique hm']

theorem of_left (h : Merged o o u r) : r = u := h.unique (.whole (.right u))

theorem symlink_of {target : String} (h : Merged o p u (some (.symlink target))) :
    p = some (.symlink target) ∨ u = some (.symlink target) := by
  cases h with
  | whole h =>
    cases h with
    | agreed => exact .inl rfl
    | right => exact .inr rfl
    | left => exact .inl rfl

theorem isSome_of (h : Merged o p u r) (hr : r.isSome = true) : p.isSome = true ∨ u.isSome = true := by
  cases h with
  | whole h =>
    cases h with
    | agreed => exact .inl hr
    | right => exact .inr hr
    | left => exact .inl hr
  | parts => exact .inl rfl

end Merged

namespace Reconcile

theorem merge_ok {α : Type} [DecidableEq α] {o p u r : α} : merge o p u = .ok r ↔ Taken o p u r := by
  have ok_iff {a : α} (h : Taken o p u a) : (Except.ok a : Except Unit α) = .ok r ↔ Taken o p u r :=
    ⟨fun he => Except.ok.inj he ▸ h, fun hr => congrArg Except.ok (h.unique hr)⟩
  unfold merge
  split_ifs with h h'
  · rcases h with rfl | rfl
    · exact ok_iff (.agreed p)
    · exact ok_iff (.left p)
  · subst h'
    exact ok_iff (.right u)
  · refine ⟨fun he => (nomatch he), fun hr => ?_⟩
    obtain h1 | h1 | h1 := taken_iff.mp ⟨r, hr⟩
    · exact absurd (.inl h1) h
    · exact absurd h1 h'
    · exact absurd (.inr h1) h

theorem mergeEntry_ok {o p u r : Option Entry} : mergeEntry o p u = .ok r ↔ Merged o p u r := by
  constructor
  · intro h
    unfold mergeEntry at h
    split_ifs at h with h1 h2 h3
    · cases h
      subst h1
      exact .whole (.agreed p)
    · cases h
      subst h2
      exact .whole (.right u)
    · cases h
      subst h3
      exact .whole (.left p)
    · split at h
      · obtain ⟨content, hc, h⟩ := bind_ok h
        obtain ⟨mode, hm, h⟩ := bind_ok h
        cases h
        exact .parts (merge_ok.mp hc) (merge_ok.mp hm)
      · cases h
  · intro h
    unfold mergeEntry
    split_ifs with h1 h2 h3
    · subst h1
      rw [h.unique (.whole (.agreed p))]
    · subst h2
      rw [h.of_left]
    · subst h3
      rw [h.unique (.whole (.left p))]
    · cases h with
      | whole h =>
        obtain h | h | h := taken_iff.mp ⟨r, h⟩
        · exact absurd h h1
        · exact absurd h h2
        · exact absurd h h3
      | parts hc hm =>
        show (merge _ _ _ >>= fun content => merge _ _ _ >>= fun mode => _) = _
        rw [merge_ok.mpr hc, ok_bind, merge_ok.mpr hm, ok_bind]

theorem mergeEntry_comm (o p u : Option Entry) : mergeEntry o p u = mergeEntry o u p := by
  cases h : mergeEntry o p u with
  | ok r => exact (mergeEntry_ok.mpr (mergeEntry_ok.mp h).symm).symm
  | error e =>
    cases h' : mergeEntry o u p with
    | ok r => rw [mergeEntry_ok.mpr (mergeEntry_ok.mp h').symm] at h; cases h
    | error e' => rfl

end Reconcile

/-! ## reporting conflicts -/

/-- the paths reported for what is wrong: all of it, unless the report is cut at its limit -/
structure Reports (wrong : String → Prop) (paths : List String) (truncated : Bool) : Prop where
  any : paths ≠ []
  sound : ∀ x ∈ paths, wrong x
  complete : truncated = false → ∀ x, wrong x → x ∈ paths
  limit : paths.length ≤ maxConflictPaths
  full : truncated = true → paths.length = maxConflictPaths

namespace Conflicts

def addAll (c : Conflicts) (l : List String) : Conflicts := l.foldl add c

theorem addAll_append (c : Conflicts) (l l' : List String) :
    c.addAll (l ++ l') = (c.addAll l).addAll l' := List.foldl_append

theorem addAll_ite (c : Conflicts) (b : Bool) (x y : String) :
    c.addAll (if b then [] else [x, y]) = if b then c else (c.add x).add y := by
  cases b <;> rfl

/-- the conflicts that adding a list of paths to none gives -/
structure Collected (l : List String) (c : Conflicts) : Prop where
  sound : ∀ x ∈ c.paths, x ∈ l
  complete : c.truncated = false → ∀ x ∈ l, x ∈ c.paths
  any : l ≠ [] → c.paths.size ≠ 0
  limit : c.paths.size ≤ maxConflictPaths
  full : c.truncated = true → c.paths.size = maxConflictPaths

variable {c : Conflicts} {l : List String} {x : String}

theorem Collected.empty : Collected [] empty where
  sound x h := absurd h Std.ExtTreeSet.not_mem_empty
  complete _ x h := nomatch h
  any h := absurd rfl h
  limit := by simp [Conflicts.empty]
  full h := nomatch h

theorem Collected.add (h : Collected l c) (x : String) : Collected (l ++ [x]) (c.add x) := by
  unfold Conflicts.add
  split_ifs with hs hx
  · have hle : (c.paths.insert x).size ≤ c.paths.size + 1 := Std.ExtTreeSet.size_insert_le
    have hmem : x ∈ c.paths.insert x := Std.ExtTreeSet.mem_insert_self
    refine ⟨fun y hy => ?_, fun ht y hy => ?_, fun _ h0 => ?_, ?_, fun ht => ?_⟩
    · rcases mem_insert_string.mp hy with rfl | hy
      · simp
      · exact List.mem_append_left _ (h.sound y hy)
    · rw [List.mem_append, List.mem_singleton] at hy
      exact mem_insert_string.mpr (hy.symm.imp_right (h.complete ht y))
    · have he : c.paths.insert x = ∅ := Std.ExtTreeSet.eq_empty_iff_size_eq_zero.mpr h0
      exact Std.ExtTreeSet.not_mem_empty (he ▸ hmem)
    · show (c.paths.insert x).size ≤ _
      omega
    · have := h.full ht
      omega
  · refine ⟨fun y hy => List.mem_append_left _ (h.sound y hy), fun ht y hy => ?_, fun _ => ?_, h.limit,
      h.full⟩
    · rw [List.mem_append, List.mem_singleton] at hy
      rcases hy with hy | rfl
      · exact h.complete ht y hy
      · exact hx
    · have : 0 < maxConflictPaths := by decide
      omega
  · have : 0 < maxConflictPaths := by decide
    have hl := h.limit
    exact ⟨fun y hy => List.mem_append_left _ (h.sound y hy), fun ht => (nomatch ht),
      fun _ => by show c.paths.size ≠ 0; omega, h.limit, fun _ => by show c.paths.size = _; omega⟩

theorem Collected.addAll (l' : List String) (h : Collected l c) : Collected (l ++ l') (c.addAll l') := by
  induction l' generalizing l c with
  | nil =>
    rw [List.append_nil]
    exact h
  | cons x l' ih =>
    rw [List.append_cons]
    exact ih (h.add x)

theorem finish_addAll (l : List String) :
    (l = [] ∧ (empty.addAll l).finish = .ok ()) ∨
      (l ≠ [] ∧ ∃ paths truncated, (empty.addAll l).finish = .error (.reconcileConflict paths truncated) ∧
        Reports (· ∈ l) paths truncated) := by
  by_cases hl : l = []
  · subst hl
    exact .inl ⟨rfl, rfl⟩
  · have h : Collected l (empty.addAll l) := by simpa using Collected.empty.addAll l
    refine .inr ⟨hl, _, _, if_neg (h.any hl), ⟨fun h0 => h.any hl ?_, fun x hx => ?_, fun ht x hx => ?_,
      ?_, fun ht => ?_⟩⟩
    · rw [← Std.ExtTreeSet.length_toList, h0, List.length_nil]
    · exact h.sound x (Std.ExtTreeSet.mem_toList.mp hx)
    · exact Std.ExtTreeSet.mem_toList.mpr (h.complete ht x hx)
    · rw [Std.ExtTreeSet.length_toList]
      exact h.limit
    · rw [Std.ExtTreeSet.length_toList]
      exact h.full ht

end Conflicts

/-! ## the first pass -/

section passes

variable {o p u : Snapshot}

def Merges (o p u : Snapshot) (m : BTreeMap String Entry) : Prop :=
  ∀ path : String, Merged o.entries[path]? p.entries[path]? u.entries[path]? m[path]?

/-- both sides changed the path, and not to the same value -/
def Clash (o p u : Snapshot) (path : String) : Prop :=
  ¬ ∃ r, Merged o.entries[path]? p.entries[path]? u.entries[path]? r

theorem Merges.symm {m : BTreeMap String Entry} (h : Merges o p u m) : Merges o u p m :=
  fun path => (h path).symm

theorem Merges.unique {m m' : BTreeMap String Entry} (h : Merges o p u m) (h' : Merges o p u m') :
    m = m' :=
  Std.ExtTreeMap.ext_getElem? fun path => (h path).unique (h' path)

namespace Reconcile

variable {path : String}

def mergedAt (o p u : Snapshot) (path : String) : Option Entry :=
  ((mergeEntry o.entries[path]? p.entries[path]? u.entries[path]?).toOption).join

def clashes (o p u : Snapshot) (path : String) : Bool :=
  mergeEntry o.entries[path]? p.entries[path]? u.entries[path]? = .error ()

attribute [grind =] clashes

theorem clashes_iff : clashes o p u path = true ↔ Clash o p u path := by
  rw [clashes, decide_eq_true_iff, Clash]
  constructor
  · rintro h ⟨r, hr⟩
    rw [mergeEntry_ok.mpr hr] at h
    cases h
  · intro h
    cases hm : mergeEntry o.entries[path]? p.entries[path]? u.entries[path]? with
    | ok r => exact absurd ⟨r, mergeEntry_ok.mp hm⟩ h
    | error e => rfl

attribute [grind =] mergedAt

theorem merged_mergedAt (h : clashes o p u path = false) :
    Merged o.entries[path]? p.entries[path]? u.entries[path]? (mergedAt o p u path) := by
  cases hm : mergeEntry o.entries[path]? p.entries[path]? u.entries[path]? with
  | ok r =>
    rw [mergedAt, hm]
    exact mergeEntry_ok.mp hm
  | error e =>
    rw [clashes, hm] at h
    simp at h

theorem foldl_mergePath (l : List String) (m : BTreeMap String Entry) (c : Conflicts) :
    (l.foldl (mergePath o p u) (m, c)).2 = c.addAll (l.filter (clashes o p u)) ∧
      ∀ path, (l.foldl (mergePath o p u) (m, c)).1[path]? =
        if path ∈ l then (mergedAt o p u path).or m[path]? else m[path]? := by
  induction l generalizing m c with
  | nil => exact ⟨rfl, fun path => rfl⟩
  | cons a l ih =>
    rw [List.foldl_cons]
    cases hm : mergeEntry o.entries[a]? p.entries[a]? u.entries[a]? with
    | ok r =>
      have hc : clashes o p u a = false := by rw [clashes, hm]; rfl
      have ha : mergedAt o p u a = r := by rw [mergedAt, hm]; rfl
      rw [List.filter_cons_of_neg (by simp [hc])]
      cases r with
      | none =>
        have hs : mergePath o p u (m, c) a = (m, c) := by rw [mergePath, hm]
        rw [hs]
        refine ⟨(ih m c).1, fun path => ?_⟩
        rw [(ih m c).2]
        by_cases hp : path = a
        · subst hp
          simp [ha]
        · simp [hp]
      | some e =>
        have hs : mergePath o p u (m, c) a = (m.insert a e, c) := by rw [mergePath, hm]
        rw [hs]
        refine ⟨(ih _ c).1, fun path => ?_⟩
        rw [(ih _ c).2, Std.ExtTreeMap.getElem?_insert]
        by_cases hp : path = a
        · subst hp
          simp [ha]
        · have hne : ¬ compare a path = .eq := fun he => hp (Std.LawfulEqCmp.compare_eq_iff_eq.mp he).symm
          simp [hp, hne]
    | error err =>
      have hc : clashes o p u a = true := by rw [clashes, hm]; rfl
      have ha : mergedAt o p u a = none := by rw [mergedAt, hm]; rfl
      have hs : mergePath o p u (m, c) a = (m, c.add a) := by rw [mergePath, hm]
      rw [List.filter_cons_of_pos hc, hs]
      refine ⟨(ih m _).1, fun path => ?_⟩
      rw [(ih m _).2]
      by_cases hp : path = a
      · subst hp
        simp [ha]
      · simp [hp]

theorem mem_paths : path ∈ (paths o p u).toList ↔
    path ∈ o.entries ∨ path ∈ p.entries ∨ path ∈ u.entries := by
  rw [Std.ExtTreeSet.mem_toList, paths, Std.ExtTreeSet.mem_ofList, List.contains_iff_mem,
    List.mem_append, List.mem_append, Std.ExtTreeMap.mem_keys, Std.ExtTreeMap.mem_keys,
    Std.ExtTreeMap.mem_keys, or_assoc]

theorem paths_comm : paths o p u = paths o u p := by
  refine Std.ExtTreeSet.ext_mem fun path => ?_
  rw [← Std.ExtTreeSet.mem_toList, ← Std.ExtTreeSet.mem_toList, mem_paths, mem_paths]
  exact or_congr_right or_comm

theorem absent_of_not_mem (h : path ∉ (paths o p u).toList) :
    clashes o p u path = false ∧ mergedAt o p u path = none := by
  rw [mem_paths, not_or, not_or] at h
  obtain ⟨ho, hp, hu⟩ := h
  have hm : mergeEntry o.entries[path]? p.entries[path]? u.entries[path]? = .ok none := by
    rw [Std.ExtTreeMap.getElem?_eq_none ho, Std.ExtTreeMap.getElem?_eq_none hp,
      Std.ExtTreeMap.getElem?_eq_none hu]
    rfl
  rw [clashes, mergedAt, hm]
  exact ⟨rfl, rfl⟩

/-- the map the first pass builds -/
def mergedMap (o p u : Snapshot) : BTreeMap String Entry :=
  ((paths o p u).toList.foldl (mergePath o p u) (∅, .empty)).1

/-- the paths the first pass reports -/
def clashList (o p u : Snapshot) : List String := (paths o p u).toList.filter (clashes o p u)

theorem mem_clashList : path ∈ clashList o p u ↔ Clash o p u path := by
  rw [clashList, List.mem_filter, clashes_iff, and_iff_right_iff_imp]
  intro h
  by_contra hn
  rw [← clashes_iff, (absent_of_not_mem hn).1] at h
  cases h

theorem merges_mergedMap (h : clashList o p u = []) : Merges o p u (mergedMap o p u) := by
  intro path
  have hget : (mergedMap o p u)[path]? = mergedAt o p u path := by
    rw [mergedMap, (foldl_mergePath _ _ _).2]
    split
    · simp
    · next hn => rw [(absent_of_not_mem hn).2, Std.ExtTreeMap.getElem?_empty]
  rw [hget]
  refine merged_mergedAt (Bool.eq_false_iff.mpr fun hc => ?_)
  have := mem_clashList.mpr (clashes_iff.mp hc)
  rw [h] at this
  cases this

end Reconcile

end passes

/-! ## the second pass -/

/-- what is wrong with an entry of a merged tree, and the other path it concerns: a parent that is not
a directory, or a link that names neither a file nor a directory -/
inductive Fault (m : BTreeMap String Entry) : String → String → Prop
  | parent {path q : String} {e : Entry} (h : m[path]? = some e) (hq : q ∈ Snapshot.parentsOf path)
      (hd : isDirectory m[q]? = false) : Fault m path q
  | link {path target q : String} (h : m[path]? = some (.symlink target))
      (hq : resolveLink path target = .ok q) (hd : isFileOrDirectory m[q]? = false) : Fault m path q

def Faulty (m : BTreeMap String Entry) (x : String) : Prop := ∃ path q, Fault m path q ∧ (x = path ∨ x = q)

/-- every link of the tree can be read as a path -/
def Resolves (m : BTreeMap String Entry) : Prop :=
  ∀ path target : String, m[path]? = some (.symlink target) → ∃ q, resolveLink path target = .ok q

namespace Reconcile

variable {m : BTreeMap String Entry}

def parentFaults (m : BTreeMap String Entry) (path : String) : List String :=
  (Snapshot.parentsOf path).flatMap fun q => if isDirectory m[q]? then [] else [path, q]

def linkFaults (m : BTreeMap String Entry) (path : String) : Entry → List String
  | .symlink target =>
    match resolveLink path target with
    | .ok q => if isFileOrDirectory m[q]? then [] else [path, q]
    | .error _ => []
  | _ => []

def faults (m : BTreeMap String Entry) (e : String × Entry) : List String :=
  parentFaults m e.1 ++ linkFaults m e.1 e.2

theorem foldl_parents (c : Conflicts) (path : String) :
    (Snapshot.parentsOf path).foldl
      (fun c q => if isDirectory m[q]? then c else (c.add path).add q) c = c.addAll (parentFaults m path) := by
  rw [Conflicts.addAll, parentFaults, List.foldl_flatMap]
  congr 1
  funext c q
  exact (Conflicts.addAll_ite c _ path q).symm

theorem checkPath_eq (hm : Resolves m) (c : Conflicts) {e : String × Entry} (he : m[e.1]? = some e.2) :
    checkPath m c e = .ok (c.addAll (faults m e)) := by
  obtain ⟨path, e⟩ := e
  rw [checkPath, faults, Conflicts.addAll_append, ← foldl_parents]
  cases e with
  | file content mode => rfl
  | directory mode => rfl
  | symlink target =>
    obtain ⟨q, hq⟩ := hm path target he
    have hl : linkFaults m path (.symlink target) =
        if isFileOrDirectory m[q]? then [] else [path, q] := by
      rw [linkFaults, hq]
    dsimp only
    rw [hl, hq, ok_bind, Conflicts.addAll_ite]

theorem foldlM_checkPath (hm : Resolves m) (l : List (String × Entry))
    (hl : ∀ e ∈ l, m[e.1]? = some e.2) (c : Conflicts) :
    l.foldlM (checkPath m) c = .ok (c.addAll (l.flatMap (faults m))) := by
  induction l generalizing c with
  | nil => rfl
  | cons e l ih =>
    rw [List.foldlM_cons, checkPath_eq hm c (hl e List.mem_cons_self), ok_bind,
      ih (fun e' he' => hl e' (List.mem_cons_of_mem _ he')), List.flatMap_cons,
      Conflicts.addAll_append]

/-- the paths the second pass reports -/
def faultList (m : BTreeMap String Entry) : List String := m.toList.flatMap (faults m)

theorem mem_parentFaults {path x : String} : x ∈ parentFaults m path ↔
    ∃ q ∈ Snapshot.parentsOf path, isDirectory m[q]? = false ∧ (x = path ∨ x = q) := by
  rw [parentFaults, List.mem_flatMap]
  refine exists_congr fun q => and_congr_right fun _ => ?_
  cases isDirectory m[q]? <;> simp

theorem mem_linkFaults {path x : String} {e : Entry} : x ∈ linkFaults m path e ↔
    ∃ target q, e = .symlink target ∧ resolveLink path target = .ok q ∧
      isFileOrDirectory m[q]? = false ∧ (x = path ∨ x = q) := by
  cases e with
  | file content mode => simp [linkFaults]
  | directory mode => simp [linkFaults]
  | symlink target =>
    cases hr : resolveLink path target with
    | error err => simp [linkFaults, hr]
    | ok q => cases hd : isFileOrDirectory m[q]? <;> simp [linkFaults, hr, hd]

theorem mem_faultList {x : String} : x ∈ faultList m ↔ Faulty m x := by
  rw [faultList, List.mem_flatMap]
  constructor
  · rintro ⟨⟨path, e⟩, he, hx⟩
    have hget : m[path]? = some e := Std.ExtTreeMap.mem_toList_iff_getElem?_eq_some.mp he
    rcases List.mem_append.mp hx with hx | hx
    · obtain ⟨q, hq, hd, hx⟩ := mem_parentFaults.mp hx
      exact ⟨path, q, .parent hget hq hd, hx⟩
    · obtain ⟨target, q, rfl, hq, hd, hx⟩ := mem_linkFaults.mp hx
      exact ⟨path, q, .link hget hq hd, hx⟩
  · rintro ⟨path, q, hf, hx⟩
    cases hf with
    | parent h hq hd =>
      exact ⟨_, Std.ExtTreeMap.mem_toList_iff_getElem?_eq_some.mpr h,
        List.mem_append_left _ (mem_parentFaults.mpr ⟨q, hq, hd, hx⟩)⟩
    | link h hq hd =>
      exact ⟨_, Std.ExtTreeMap.mem_toList_iff_getElem?_eq_some.mpr h,
        List.mem_append_right _ (mem_linkFaults.mpr ⟨_, q, rfl, hq, hd, hx⟩)⟩

theorem faultList_eq_nil : faultList m = [] ↔ ∀ path q, ¬ Fault m path q := by
  rw [List.eq_nil_iff_forall_not_mem]
  constructor
  · intro h path q hf
    exact h path (mem_faultList.mpr ⟨path, q, hf, .inl rfl⟩)
  · intro h x hx
    obtain ⟨path, q, hf, -⟩ := mem_faultList.mp hx
    exact h path q hf

end Reconcile

/-! ## a merged tree without faults is a snapshot -/

section valid

variable {s o p u : Snapshot} {m : BTreeMap String Entry}

theorem Snapshot.validate_link {path target : String} (hv : s.validate = .ok ())
    (h : s.entries[path]? = some (.symlink target)) :
    ∃ q, resolveLink path target = .ok q ∧ isFileOrDirectory s.entries[q]? = true := by
  have hv := validate_entries hv _ (mem_toList.mpr h)
  obtain ⟨-, hv⟩ := refuseIf_bind hv
  obtain ⟨_, -, hv⟩ := bind_ok hv
  obtain ⟨q, hq, hv⟩ := bind_ok hv
  refine ⟨q, hq, ?_⟩
  have := (not_or.mp (refuseIf_ok hv)).1
  simpa using this

theorem Snapshot.validate_limits (hv : s.validate = .ok ()) :
    s.version = 1 ∧ s.policy.maxFiles ≠ 0 ∧ s.policy.maxBytes ≠ 0 ∧
      s.entries.size ≤ s.policy.maxFiles := by
  obtain ⟨hversion, hv⟩ := refuseIf_bind hv
  obtain ⟨hlimits, -⟩ := refuseIf_bind hv
  rw [not_or, not_or, Nat.not_lt] at hlimits
  exact ⟨not_not.mp hversion, hlimits⟩

theorem Merges.resolves (hm : Merges o p u m) (hp : p.validate = .ok ()) (hu : u.validate = .ok ()) :
    Resolves m := by
  intro path target h
  have hmerged := hm path
  rw [h] at hmerged
  rcases hmerged.symlink_of with h | h
  · obtain ⟨q, hq, -⟩ := Snapshot.validate_link hp h
    exact ⟨q, hq⟩
  · obtain ⟨q, hq, -⟩ := Snapshot.validate_link hu h
    exact ⟨q, hq⟩

theorem Merges.safe (hm : Merges o p u m) (hp : p.validate = .ok ()) (hu : u.validate = .ok ())
    {path : String} {e : Entry} (h : m[path]? = some e) : safeRelative path.toList = true := by
  have hmerged := hm path
  rw [h] at hmerged
  rcases hmerged.isSome_of rfl with h | h
  · obtain ⟨e', he⟩ := Option.isSome_iff_exists.mp h
    exact (Snapshot.validate_checked hp he).safe
  · obtain ⟨e', he⟩ := Option.isSome_iff_exists.mp h
    exact (Snapshot.validate_checked hu he).safe

theorem Snapshot.no_fault (hv : s.validate = .ok ()) (path q : String) : ¬ Fault s.entries path q := by
  intro hf
  cases hf with
  | parent h hq hd =>
    rw [(validate_checked hv h).parents q hq] at hd
    cases hd
  | link h hq hd =>
    obtain ⟨q', hq', hd'⟩ := validate_link hv h
    cases hq.symm.trans hq'
    rw [hd'] at hd
    cases hd

theorem Snapshot.validate_of (hversion : s.version = 1) (hfiles : s.policy.maxFiles ≠ 0)
    (hbytes : s.policy.maxBytes ≠ 0) (hsize : s.entries.size ≤ s.policy.maxFiles)
    (hsafe : ∀ (path : String) (e : Entry), s.entries[path]? = some e → safeRelative path.toList = true)
    (hr : Resolves s.entries) (hf : ∀ path q, ¬ Fault s.entries path q) : s.validate = .ok () := by
  have parents {path : String} {e : Entry} (h : s.entries[path]? = some e) :
      ∀ q ∈ parentsOf path, isDirectory s.entries[q]? = true := by
    intro q hq
    cases hd : isDirectory s.entries[q]? with
    | true => rfl
    | false => exact absurd (.parent h hq hd) (hf path q)
  have hlimits : ¬ (s.policy.maxFiles = 0 ∨ s.policy.maxBytes = 0 ∨ s.policy.maxFiles < s.entries.size) := by
    rw [not_or, not_or, Nat.not_lt]
    exact ⟨hfiles, hbytes, hsize⟩
  show (refuseIf _ _ >>= fun _ => refuseIf _ _ >>= fun _ => checkAll s.validateEntry _) = _
  rw [refuseIf_of_not _ (not_not.mpr hversion), ok_bind, refuseIf_of_not _ hlimits, ok_bind]
  refine checkAll_of fun ⟨path, e⟩ he => ?_
  have he : s.entries[path]? = some e := mem_toList.mp he
  show (refuseIf _ _ >>= fun _ => checkAll _ _ >>= fun _ => _) = _
  rw [refuseIf_of_not _ (by rw [hsafe path e he]; exact Bool.noConfusion), ok_bind,
    checkAll_of (fun q hq => refuseIf_of_not _ (by rw [parents he q hq]; exact Bool.noConfusion)), ok_bind]
  cases e with
  | file content mode => rfl
  | directory mode => rfl
  | symlink target =>
    obtain ⟨q, hq⟩ := hr path target he
    have hd : isFileOrDirectory s.entries[q]? = true := by
      cases hd : isFileOrDirectory s.entries[q]? with
      | true => rfl
      | false => exact absurd (.link he hq hd) (hf path q)
    obtain ⟨e', he'⟩ : ∃ e', s.entries[q]? = some e' := by
      cases hg : s.entries[q]? with
      | some e' => exact ⟨e', rfl⟩
      | none =>
        rw [hg] at hd
        cases hd
    show (resolveLink path target >>= fun q => refuseIf _ _) = _
    rw [hq, ok_bind]
    refine refuseIf_of_not _ (not_or.mpr ⟨by rw [hd]; exact Bool.noConfusion, fun hany => ?_⟩)
    obtain ⟨x, hx, hnd⟩ := List.any_eq_true.mp hany
    rw [parents he' x hx] at hnd
    cases hnd

end valid

/-! ## the outcomes -/

/-- the three outcomes of a merge: a snapshot, the paths in conflict, or too many files -/
inductive Outcome (o p u : Snapshot) : Except WorkspaceError Snapshot → Prop
  | merged (r : Snapshot) (hversion : r.version = o.version) (hpolicy : r.policy = o.policy)
      (hm : Merges o p u r.entries) (hv : r.validate = .ok ()) : Outcome o p u (.ok r)
  | clashes {paths : List String} {truncated : Bool} (h : Reports (Clash o p u) paths truncated) :
      Outcome o p u (.error (.reconcileConflict paths truncated))
  | faults {paths : List String} {truncated : Bool} (m : BTreeMap String Entry) (hm : Merges o p u m)
      (hsize : m.size ≤ o.policy.maxFiles) (h : Reports (Faulty m) paths truncated) :
      Outcome o p u (.error (.reconcileConflict paths truncated))
  | limit (m : BTreeMap String Entry) (hm : Merges o p u m) (hsize : o.policy.maxFiles < m.size) :
      Outcome o p u (.error .limit)

section outcomes

open Reconcile

variable {o p u r : Snapshot}

theorem reconcile_eq (hs : checkAll Reconcile.validate [o, p, u] = .ok ())
    (hp : o.policy = p.policy) (hu : o.policy = u.policy) :
    o.reconcile p u = (do
      (Conflicts.empty.addAll (clashList o p u)).finish
      refuseIf (o.policy.maxFiles < (mergedMap o p u).size) WorkspaceError.limit
      let conflicts ← (mergedMap o p u).toList.foldlM (checkPath (mergedMap o p u)) .empty
      conflicts.finish
      let result : Snapshot := { version := o.version, policy := o.policy, entries := mergedMap o p u }
      result.validate
      .ok result) := by
  have hpolicy : ¬ (o.policy ≠ p.policy ∨ o.policy ≠ u.policy) :=
    not_or.mpr ⟨not_not.mpr hp, not_not.mpr hu⟩
  show (checkAll _ _ >>= fun _ => refuseIf _ _ >>= fun _ => _) = _
  rw [hs, ok_bind, refuseIf_of_not _ hpolicy, ok_bind]
  dsimp only
  rw [(foldl_mergePath _ _ _).1]
  rfl

theorem validate_snapshot {s : Snapshot} (h : Reconcile.validate s = .ok ()) : s.validate = .ok () := by
  obtain ⟨-, h⟩ := refuseIf_bind h
  obtain ⟨_, -, h⟩ := bind_ok h
  obtain ⟨_, -, h⟩ := bind_ok h
  exact h

theorem mem_toList_entry {m : BTreeMap String Entry} :
    ∀ e ∈ m.toList, m[e.1]? = some e.2 :=
  fun _ he => Std.ExtTreeMap.mem_toList_iff_getElem?_eq_some.mp he

theorem reconcile_outcome (hs : checkAll Reconcile.validate [o, p, u] = .ok ())
    (hp : o.policy = p.policy) (hu : o.policy = u.policy) : Outcome o p u (o.reconcile p u) := by
  have hvalid : ∀ s ∈ [o, p, u], s.validate = .ok () :=
    fun s h => validate_snapshot (checkAll_ok hs s h)
  have hvo := hvalid o (by simp)
  have hvp := hvalid p (by simp)
  have hvu := hvalid u (by simp)
  rw [reconcile_eq hs hp hu]
  rcases Conflicts.finish_addAll (clashList o p u) with ⟨hl, hf⟩ | ⟨-, paths, truncated, hf, hr⟩
  · have hm := merges_mergedMap hl
    rw [hf, ok_bind]
    by_cases hsize : o.policy.maxFiles < (mergedMap o p u).size
    · rw [refuseIf, if_pos hsize]
      exact .limit _ hm hsize
    · have hres := hm.resolves hvp hvu
      rw [refuseIf_of_not _ hsize, ok_bind, foldlM_checkPath hres _ mem_toList_entry, ok_bind]
      change Outcome o p u ((Conflicts.empty.addAll (faultList (mergedMap o p u))).finish >>= _)
      rcases Conflicts.finish_addAll (faultList (mergedMap o p u)) with
        ⟨hl, hf⟩ | ⟨-, paths, truncated, hf, hr⟩
      · obtain ⟨hversion, hfiles, hbytes, -⟩ := Snapshot.validate_limits hvo
        have hv : Snapshot.validate
            { version := o.version, policy := o.policy, entries := mergedMap o p u } = .ok () :=
          Snapshot.validate_of hversion hfiles hbytes (Nat.not_lt.mp hsize)
            (fun path e he => hm.safe hvp hvu he) hres (faultList_eq_nil.mp hl)
        rw [hf, ok_bind]
        show Outcome o p u (Snapshot.validate _ >>= _)
        rw [hv, ok_bind]
        exact .merged _ rfl rfl hm hv
      · rw [hf]
        refine .faults _ hm (Nat.not_lt.mp hsize) ⟨hr.any, ?_, ?_, hr.limit, hr.full⟩
        · exact fun x hx => mem_faultList.mp (hr.sound x hx)
        · exact fun ht x hx => hr.complete ht x (mem_faultList.mpr hx)
  · rw [hf]
    refine .clashes ⟨hr.any, ?_, ?_, hr.limit, hr.full⟩
    · exact fun x hx => mem_clashList.mp (hr.sound x hx)
    · exact fun ht x hx => hr.complete ht x (mem_clashList.mpr hx)

/-- a snapshot with the merged value of every path is the outcome -/
theorem reconcile_of_merges (hs : checkAll Reconcile.validate [o, p, u] = .ok ())
    (hp : o.policy = p.policy) (hu : o.policy = u.policy) (hversion : r.version = o.version)
    (hpolicy : r.policy = o.policy) (hm : Merges o p u r.entries) (hv : r.validate = .ok ()) :
    o.reconcile p u = .ok r := by
  have hout := reconcile_outcome hs hp hu
  generalize o.reconcile p u = x at hout
  cases hout with
  | merged r' hversion' hpolicy' hm' hv' =>
    obtain ⟨version, policy, entries⟩ := r
    obtain ⟨version', policy', entries'⟩ := r'
    have h1 : version' = version := hversion'.trans hversion.symm
    have h2 : policy' = policy := hpolicy'.trans hpolicy.symm
    have h3 : entries' = entries := hm'.unique hm
    rw [h1, h2, h3]
  | clashes h =>
    obtain ⟨x, hx⟩ := List.exists_mem_of_ne_nil _ h.any
    exact absurd ⟨_, hm x⟩ (h.sound x hx)
  | faults m hm' hsize h =>
    obtain ⟨x, hx⟩ := List.exists_mem_of_ne_nil _ h.any
    obtain ⟨path, q, hf, -⟩ := h.sound x hx
    rw [hm'.unique hm] at hf
    exact absurd hf (Snapshot.no_fault hv path q)
  | limit m hm' hsize =>
    rw [hm'.unique hm, ← hpolicy] at hsize
    exact absurd (Snapshot.validate_limits hv).2.2.2 (Nat.not_le.mpr hsize)

theorem checkAll_swap (hs : checkAll Reconcile.validate [o, p, u] = .ok ()) :
    checkAll Reconcile.validate [o, u, p] = .ok () := by
  refine checkAll_of fun s h => checkAll_ok hs s ?_
  simp only [List.mem_cons, List.not_mem_nil, or_false] at h ⊢
  tauto

theorem reconcile_comm (hs : checkAll Reconcile.validate [o, p, u] = .ok ())
    (hp : o.policy = p.policy) (hu : o.policy = u.policy) : o.reconcile p u = o.reconcile u p := by
  have hstep : mergePath o p u = mergePath o u p := by
    funext acc path
    rw [mergePath, mergePath, mergeEntry_comm]
  have hclash : clashes o p u = clashes o u p := by
    funext path
    rw [clashes, clashes, mergeEntry_comm]
  rw [reconcile_eq hs hp hu, reconcile_eq (checkAll_swap hs) hu hp, clashList, clashList, mergedMap,
    mergedMap, paths_comm, hstep, hclash]

end outcomes

/-- **The merge of two heads is symmetric, and its outcome is the merge of every path.**  When one of
the snapshots fails the checks of the merge, the error is that of such a snapshot.  Otherwise the two
heads can change places, a head without changes leaves the other one, and the outcome is the merged
snapshot, the conflicts of the paths, the faults of the merged tree or its size. -/
theorem reconcile_exact (o p u : Snapshot) (hp : o.policy = p.policy) (hu : o.policy = u.policy) :
    ((¬ ∀ s ∈ [o, p, u], Reconcile.validate s = .ok ()) →
      ∃ s ∈ [o, p, u], ∃ e, Reconcile.validate s = .error e ∧ o.reconcile p u = .error e) ∧
    ((∀ s ∈ [o, p, u], Reconcile.validate s = .ok ()) →
      o.reconcile p u = o.reconcile u p ∧
      (p = o → o.reconcile p u = .ok u) ∧
      (u = o → o.reconcile p u = .ok p) ∧
      Outcome o p u (o.reconcile p u)) := by
  constructor
  · intro h
    cases hs : checkAll Reconcile.validate [o, p, u] with
    | ok _ => exact absurd (checkAll_ok hs) h
    | error e =>
      obtain ⟨s, hmem, he⟩ := checkAll_error hs
      refine ⟨s, hmem, e, he, ?_⟩
      show (checkAll _ _ >>= _) = _
      rw [hs, error_bind]
  · intro h
    have hs := checkAll_of h
    have hvalid : ∀ s ∈ [o, p, u], s.validate = .ok () := fun s hm => validate_snapshot (h s hm)
    have version {s : Snapshot} (hm : s ∈ [o, p, u]) : s.version = o.version := by
      rw [(Snapshot.validate_limits (hvalid s hm)).1, (Snapshot.validate_limits (hvalid o (by simp))).1]
    refine ⟨reconcile_comm hs hp hu, ?_, ?_, reconcile_outcome hs hp hu⟩
    · rintro rfl
      exact reconcile_of_merges hs hp hu (version (by simp)) hu.symm (fun path => .whole (.right _))
        (hvalid u (by simp))
    · rintro rfl
      exact reconcile_of_merges hs hp hu (version (by simp)) hp.symm (fun path => .whole (.left _))
        (hvalid p (by simp))

/-! ## small trees -/

namespace Sample

def small (entries : List (String × Entry)) (maxFiles : Nat) : Snapshot where
  version := 1
  policy := { excludedRoots := [".git"], maxFiles, maxBytes := 1 }
  entries := .ofList entries

def note (mode : Nat) : Entry := .file ⟨7⟩ mode

end Sample

/-- one side changes the content of a file and the other its mode -/
theorem reconcile_exact_parts :
    let o := Sample.small [("a", .file ⟨7⟩ 0o644)] 4
    let p := Sample.small [("a", .file ⟨8⟩ 0o644)] 4
    let u := Sample.small [("a", .file ⟨7⟩ 0o755)] 4
    o.reconcile p u = o.reconcile u p ∧
      (o.reconcile p u).toOption.map (·.entries.toList) = some [("a", .file ⟨8⟩ 0o755)] :=
  ⟨((reconcile_exact _ _ _ (by decide +kernel) (by decide +kernel)).2 (by decide +kernel)).1,
    by decide +kernel⟩

theorem refused {x : Except WorkspaceError Snapshot} {e : WorkspaceError}
    (h : x.map (fun _ => ()) = .error e) : x = .error e := by
  cases x with
  | ok r => cases h
  | error e' =>
    cases h
    rfl

/-- two sides that each add a file can together have too many, and a snapshot that is valid in itself
can be refused -/
theorem reconcile_refuses :
    (∃ o p u : Snapshot, (∀ s ∈ [o, p, u], Reconcile.validate s = .ok () ∧ s.validate = .ok ()) ∧
      o.policy = p.policy ∧ o.policy = u.policy ∧ o.reconcile p u = .error .limit) ∧
    ∃ s : Snapshot, s.validate = .ok () ∧ s.reconcile s s = .error (.unsafePath "a") := by
  refine ⟨⟨Sample.small [] 1, Sample.small [("a", Sample.note 0o644)] 1,
    Sample.small [("b", Sample.note 0o644)] 1, by decide +kernel, by decide +kernel, by decide +kernel, ?_⟩,
    Sample.small [("a", Sample.note 0o10000)] 1, by decide +kernel, ?_⟩
  · exact refused (by decide +kernel)
  · exact refused (by decide +kernel)

end Orvek.Workspace
