import Orvek.Lib.LeafPatch
import Orvek.Workspace.Links

/-!
# Delivering a snapshot as a patch

A candidate is delivered as the patch of its files and links against a baseline.  Directories are not in a
patch: `representable` is there to refuse the candidates whose directories the patch does not bring about.

* `representable`       the checks on the changed paths;
* `gitTree`, `diffTree` what Git records of a snapshot, and the patch between two of them;
* `Patch.apply`         the patch on a tree of files;
* `applyAndCompare`, `build`   the result, which has to be the candidate;
* `reproduced_iff`      when it is: for the directories that the patch leaves empty.
-/

set_option linter.unusedSectionVars false

namespace Orvek.Delivery
open Paths Checks Workspace

variable {mode : Nat} {x : LeafPatch.Removal String}

inductive DeliveryError
  | unrepresentable (path : String) (reason : String)
  | reproductionMismatch (paths : List String)
  | workspace
  | command
  deriving DecidableEq

abbrev Entries : Type := BTreeMap String Workspace.Entry

/-! ## what is refused -/

def changedPaths (self other : Entries) : List String :=
  (Std.ExtTreeSet.ofList (self.keys ++ other.keys) compare).toList.filter fun path => self[path]? ≠ other[path]?

/-- `eq_ignore_ascii_case(".git")` for a component -/
def metadataPath (path : String) : Bool := (split path.toList).any fun part => part.map Char.toLower = ['.', 'g', 'i', 't']

def isLeaf (entry : Workspace.Entry) : Bool := !isDirectory (some entry)

/-- no file and no link has a name that starts with the path and a slash -/
def emptyDirectory (path : String) (entries : Entries) : Bool :=
  !entries.toList.any fun e => (path.toList ++ ['/']).isPrefixOf e.1.toList && isLeaf e.2

def gitMode (mode : Nat) : Bool := mode = 0o644 || mode = 0o755

/-- the entry of a changed path, before and after -/
def checkChange (path : String) (old new : Option Workspace.Entry) : Except DeliveryError Unit :=
  let refuse reason := Except.error (DeliveryError.unrepresentable path reason)
  match old, new with
  | _, some (.file _ mode) =>
    if gitMode mode = false then refuse "Git only records regular-file modes 0644 and 0755"
    else match old with
      | some (.file _ before) =>
        if before ≠ mode ∧ gitMode before = false then refuse "full permission changes are not representable in Git"
        else .ok ()
      | _ => .ok ()
  | some (.directory before), some (.directory mode) =>
    if before ≠ mode then refuse "Git does not record directory permission changes"
    else if mode ≠ 0o755 then refuse "new directory modes other than 0755 are not represented"
    else .ok ()
  | _, some (.directory mode) =>
    if mode ≠ 0o755 then refuse "new directory modes other than 0755 are not represented" else .ok ()
  | _, _ => .ok ()

def checkEmpty (path : String) (entries : Entries) : Except DeliveryError Unit :=
  refuseIf (isDirectory entries[path]? = true ∧ emptyDirectory path entries = true)
    (DeliveryError.unrepresentable path "Git cannot encode an added or deleted empty directory")

def checkPath (baseline candidate : Entries) (path : String) : Except DeliveryError Unit := do
  checkChange path baseline[path]? candidate[path]?
  checkEmpty path baseline
  checkEmpty path candidate

def checkMetadata (path : String) : Except DeliveryError Unit :=
  refuseIf (metadataPath path = true) (DeliveryError.unrepresentable path "Git metadata paths are forbidden")

def representable (baseline candidate : Snapshot) : Except DeliveryError Unit := do
  checkAll checkMetadata baseline.entries.keys
  checkAll checkMetadata candidate.entries.keys
  checkAll (checkPath baseline.entries candidate.entries) (changedPaths baseline.entries candidate.entries)

/-! ## patches -/

/-- what Git records of a file or a link -/
inductive GitEntry
  | file (executable : Bool) (content : Digest)
  | link (target : String)
  deriving DecidableEq

def gitEntry : Workspace.Entry → Option GitEntry
  | .file content mode => some (.file (mode &&& 0o111 ≠ 0) content)
  | .symlink target => some (.link target)
  | .directory _ => none

/-- what is written for it -/
def GitEntry.entry : GitEntry → Workspace.Entry
  | .file executable content => .file content (if executable then 0o755 else 0o644)
  | .link target => .symlink target

def GitEntry.sameKind : GitEntry → GitEntry → Bool
  | .file .., .file .. => true
  | .link _, .link _ => true
  | _, _ => false

def gitTree (entries : Entries) (path : String) : Option GitEntry := entries[path]?.bind gitEntry

/-- what goes, in the order of the paths, and what is written after that.  A change is a removal and a write;
only the removal of what is deleted prunes, and a file in the place of a link, or a link in the place of a
file, is deleted and added -/
structure Patch where
  removed : List (LeafPatch.Removal String)
  written : List (String × Workspace.Entry)

def diffTree (baseline candidate : Entries) : Patch where
  removed := baseline.keys.filterMap fun path => do
    let old ← gitTree baseline path
    if gitTree candidate path = some old then none
    else some ⟨path, !(gitTree candidate path).any old.sameKind⟩
  written := candidate.keys.filterMap fun path =>
    if gitTree baseline path = gitTree candidate path then none
    else (gitTree candidate path).map fun g => (path, g.entry)

/-! ## paths above a path -/

theorem above_dropWhile (r : List Seg) : above (r.dropWhile skipped) = above r := by
  induction r with
  | nil => rfl
  | cons s r ih =>
    rw [List.dropWhile_cons]
    split
    · rename_i hs
      rw [ih, above, if_pos hs]
    · rfl

theorem above_cons {r t : List Seg} {ts : List (List Seg)} (h : above r = t :: ts) :
    above t = ts ∧ t <:+ r ∧ ∀ s ∈ t.head?, skipped s = false := by
  induction r with
  | nil => cases h
  | cons s r ih =>
    rw [above] at h
    split at h
    · obtain ⟨hts, hsuffix, hhead⟩ := ih h
      exact ⟨hts, hsuffix.trans (List.suffix_cons s r), hhead⟩
    · obtain ⟨rfl, rfl⟩ := List.cons.inj h
      refine ⟨above_dropWhile r, (List.dropWhile_suffix _).trans (List.suffix_cons s r), fun x hx => ?_⟩
      cases hdrop : r.dropWhile skipped with
      | nil =>
        rw [hdrop] at hx
        cases hx
      | cons y l =>
        rw [hdrop] at hx
        cases hx
        have hfirst := List.head?_dropWhile_not skipped r
        rw [hdrop] at hfirst
        exact hfirst

theorem parentsOf_tail {path p : String} {rest : List String} (h : Snapshot.parentsOf path = p :: rest) :
    Snapshot.parentsOf p = rest := by
  rw [Snapshot.parentsOf, ancestors] at h
  cases habove : above (split path.toList).reverse with
  | nil =>
    rw [habove] at h
    cases h
  | cons t ts =>
    obtain ⟨hts, hsuffix, hhead⟩ := above_cons habove
    rw [habove] at h
    by_cases ht : t = []
    · subst ht
      obtain rfl : ts = [] := hts.symm
      cases h
    · obtain ⟨s, u, rfl⟩ := List.exists_cons_of_ne_nil ht
      have hs : skipped s = false := hhead s rfl
      have hslash : ∀ x ∈ (s :: u).reverse, '/' ∉ x := fun x hx =>
        slash_not_mem_split (List.mem_reverse.mp (hsuffix.subset (List.mem_reverse.mp hx)))
      have hsplit : split (join (s :: u).reverse) = (s :: u).reverse := split_join (by simp) hslash
      have hne : join (s :: u).reverse ≠ [] := by
        intro he
        rw [he] at hsplit
        have hone : (s :: u).reverse = [[]] := hsplit.symm
        have : s ∈ [([] : Seg)] := hone ▸ List.mem_reverse.mpr List.mem_cons_self
        rw [List.mem_singleton.mp this] at hs
        cases hs
      rw [List.map_cons, List.filter_cons_of_pos (by simpa using hne), List.map_cons] at h
      obtain ⟨rfl, rfl⟩ := List.cons.inj h
      rw [Snapshot.parentsOf, ancestors, String.toList_ofList, hsplit, List.reverse_reverse, hts]

def pathAncestry : LeafPatch.Ancestry String := ⟨Snapshot.parentsOf, parentsOf_tail⟩

/-- written as a scan writes it: names with one slash between them -/
def PlainPath (path : String) : Prop := ∀ s ∈ split path.toList, skipped s = false

instance : DecidablePred PlainPath :=
  fun path => inferInstanceAs (Decidable (∀ s ∈ split path.toList, skipped s = false))

theorem plainPath_ne_nil {path : String} (h : PlainPath path) : path.toList ≠ [] := by
  intro he
  rw [PlainPath, he] at h
  exact absurd (h [] (by decide)) (by decide)

theorem join_append {a b : List Seg} (ha : a ≠ []) (hb : b ≠ []) : join (a ++ b) = join a ++ '/' :: join b := by
  have hcons : ∀ (s : Seg) (l : List Seg), l ≠ [] → join (s :: l) = s ++ '/' :: join l := by
    intro s l hl
    obtain ⟨x, l, rfl⟩ := List.exists_cons_of_ne_nil hl
    simp [join, List.intercalate]
  induction a with
  | nil => exact absurd rfl ha
  | cons s a ih =>
    cases a with
    | nil =>
      rw [List.singleton_append, hcons s b hb]
      simp [join, List.intercalate]
    | cons t a =>
      rw [List.cons_append, hcons _ _ (by simp), ih (List.cons_ne_nil _ _), hcons s (t :: a) (List.cons_ne_nil _ _),
        List.append_assoc, List.cons_append]

theorem isPrefixOf_iff {path name : String} (hpath : PlainPath path) (hname : PlainPath name) :
    (path.toList ++ ['/']).isPrefixOf name.toList = true ↔ path ∈ Snapshot.parentsOf name := by
  rw [List.isPrefixOf_iff_prefix, Snapshot.parentsOf, List.mem_map]
  constructor
  · rintro ⟨rest, he⟩
    have hsplit : split name.toList = split path.toList ++ split rest := by
      rw [← he, List.append_assoc, List.singleton_append]
      exact List.splitOn_append_cons_self ..
    refine ⟨path.toList, List.mem_filter.mpr ⟨(mem_ancestors hname).mpr ⟨split path.toList, ?_, ?_, ?_⟩, ?_⟩,
      String.ofList_toList⟩
    · exact ⟨split rest, hsplit.symm⟩
    · intro hsame
      rw [hsplit] at hsame
      exact List.splitOn_ne_nil _ _ (List.self_eq_append_right.mp hsame)
    · exact (join_split _).symm
    · simpa using plainPath_ne_nil hpath
  · rintro ⟨a, ha, rfl⟩
    obtain ⟨ha, hne⟩ := List.mem_filter.mp ha
    obtain ⟨q, ⟨suffix, hsuffix⟩, hproper, rfl⟩ := (mem_ancestors hname).mp ha
    have hq : q ≠ [] := by
      rintro rfl
      simp [join, List.intercalate] at hne
    have hs : suffix ≠ [] := by
      rintro rfl
      rw [List.append_nil] at hsuffix
      exact hproper hsuffix
    refine ⟨join suffix, ?_⟩
    rw [String.toList_ofList, ← join_split name.toList, ← hsuffix, join_append hq hs, List.append_assoc]
    rfl

/-! ## applying a patch -/

def Patch.apply (patch : Patch) (entries : Entries) : Option Entries :=
  LeafPatch.writeAll pathAncestry (fun entry => isDirectory (some entry)) (.directory 0o755)
    (LeafPatch.removeAll pathAncestry entries patch.removed) patch.written

def applyAndCompare (materialized candidate : Entries) (patch : Patch) : Except DeliveryError Entries :=
  match patch.apply materialized with
  | none => .error .command
  | some observed =>
    if observed ≠ candidate then .error (.reproductionMismatch (changedPaths observed candidate))
    else .ok observed

/-! ## building one -/

/-- the path under which a scan finds what is written at a path -/
def diskPath (path : String) : String := String.ofList (join (names path.toList))

/-- the tree that is written for a snapshot: the modes of its directories are set from the last one -/
def onDisk (entries : Entries) : Entries :=
  .ofList (entries.toList.reverse.map fun e => (diskPath e.1, e.2)) compare

/-- a file or a link is made anew, in the place of nothing -/
def materialized (entries : Entries) : Except DeliveryError Entries := do
  refuseIf (∃ e ∈ entries.toList, ∃ f ∈ entries.toList, e.1 ≠ f.1 ∧ diskPath e.1 = diskPath f.1 ∧ isLeaf e.2 = true)
    .workspace
  .ok (onDisk entries)

/-- Git takes no path with an empty name, and none with a dot for a name -/
def index (entries : Entries) : Except DeliveryError Unit :=
  refuseIf (∃ e ∈ entries.toList, isLeaf e.2 = true ∧ ¬PlainPath e.1) .command

/-- what the builder does with its own patch -/
def build (baseline candidate : Snapshot) : Except DeliveryError Entries := do
  representable baseline candidate
  let disk ← materialized baseline.entries
  let _ ← materialized candidate.entries
  index baseline.entries
  index candidate.entries
  applyAndCompare disk candidate.entries (diffTree baseline.entries candidate.entries)

/-! ## leaves -/

def IsLeaf (entries : Entries) (path : String) : Prop := ∃ g, gitTree entries path = some g

/-- a tree of plain paths, whose directories are closed upwards -/
structure TreeOf (entries : Entries) : Prop where
  plain : ∀ path, entries[path]? ≠ none → PlainPath path
  closed : LeafPatch.WellFormed pathAncestry (fun entry => isDirectory (some entry)) entries

theorem treeOf {s : Snapshot} (hvalid : s.validate = .ok ()) (hplain : ∀ path ∈ s.entries.keys, PlainPath path) :
    TreeOf s.entries where
  plain path hpath := hplain path (LeafPatch.mem_keys.mpr hpath)
  closed := by
    intro path hpath p hp
    obtain ⟨entry, he⟩ := Option.ne_none_iff_exists'.mp hpath
    have hdir := (Snapshot.validate_checked hvalid he).parents p hp
    cases hentry : s.entries[p]? with
    | none =>
      rw [hentry] at hdir
      cases hdir
    | some d =>
      rw [hentry] at hdir
      exact ⟨d, rfl, hdir⟩

variable {entries : Entries} {path : String}

attribute [grind =] gitTree

theorem isLeaf_cases (entries : Entries) (path : String) :
    entries[path]? = none ∨ (∃ mode, entries[path]? = some (.directory mode)) ∨ IsLeaf entries path := by
  unfold IsLeaf gitTree
  cases entries[path]? with
  | none => exact .inl rfl
  | some entry =>
    cases entry with
    | file content mode => exact .inr (.inr ⟨_, rfl⟩)
    | directory mode => exact .inr (.inl ⟨mode, rfl⟩)
    | symlink target => exact .inr (.inr ⟨_, rfl⟩)

theorem IsLeaf.ne_none (h : IsLeaf entries path) : entries[path]? ≠ none := by
  obtain ⟨g, hg⟩ := h
  intro he
  rw [gitTree, he] at hg
  cases hg

theorem IsLeaf.not_directory (h : IsLeaf entries path) : entries[path]? ≠ some (.directory mode) := by
  obtain ⟨g, hg⟩ := h
  intro he
  rw [gitTree, he] at hg
  cases hg

theorem IsLeaf.isDirectory_eq (h : IsLeaf entries path) :
    ∃ entry, entries[path]? = some entry ∧ isDirectory (some entry) = false := by
  obtain ⟨entry, he⟩ := Option.ne_none_iff_exists'.mp h.ne_none
  refine ⟨entry, he, ?_⟩
  cases entry with
  | directory mode => exact absurd he h.not_directory
  | file content mode => rfl
  | symlink target => rfl

namespace TreeOf

theorem directory {q : String} (h : TreeOf entries) (hq : entries[q]? ≠ none) (hp : path ∈ Snapshot.parentsOf q) :
    ∃ mode, entries[path]? = some (.directory mode) := by
  obtain ⟨entry, he, hdir⟩ := h.closed q hq path hp
  cases entry with
  | directory mode => exact ⟨mode, he⟩
  | file content mode => cases hdir
  | symlink target => cases hdir

theorem nothing_below {q : String} (h : TreeOf entries) (hleaf : IsLeaf entries path) (hp : path ∈ Snapshot.parentsOf q) :
    entries[q]? = none := by
  by_contra hq
  obtain ⟨mode, he⟩ := h.directory hq hp
  exact hleaf.not_directory he

theorem not_empty (h : TreeOf entries) (hpath : entries[path]? ≠ none) (hempty : emptyDirectory path entries = false) :
    ∃ q, IsLeaf entries q ∧ path ∈ Snapshot.parentsOf q := by
  rw [emptyDirectory, Bool.not_eq_false', List.any_eq_true] at hempty
  obtain ⟨⟨q, entry⟩, hmem, hq⟩ := hempty
  obtain ⟨hbelow, hleaf⟩ := Bool.and_eq_true_iff.mp hq
  have he : entries[q]? = some entry := Std.ExtTreeMap.mem_toList_iff_getElem?_eq_some.mp hmem
  have hne : entries[q]? ≠ none := by simp [he]
  refine ⟨q, ?_, (isPrefixOf_iff (h.plain path hpath) (h.plain q hne)).mp hbelow⟩
  rcases isLeaf_cases entries q with hnone | ⟨mode, hdir⟩ | hl
  · exact absurd hnone hne
  · rw [he] at hdir
    obtain rfl := Option.some.inj hdir
    cases hleaf
  · exact hl

end TreeOf

/-! ## what is accepted -/

variable {a b : Entries}

theorem mem_changedPaths : path ∈ changedPaths a b ↔ a[path]? ≠ b[path]? := by
  rw [changedPaths, List.mem_filter, decide_eq_true_iff]
  refine and_iff_right_of_imp fun hne => ?_
  rw [Std.ExtTreeSet.mem_toList, Std.ExtTreeSet.mem_ofList, List.contains_iff_mem, List.mem_append, LeafPatch.mem_keys,
    LeafPatch.mem_keys]
  by_contra h
  obtain ⟨ha, hb⟩ := not_or.mp h
  exact hne (by rw [Classical.not_not.mp ha, Classical.not_not.mp hb])

/-- what the checks say of a path that changed -/
structure Accepted (a b : Entries) (path : String) : Prop where
  change : checkChange path a[path]? b[path]? = .ok ()
  before : isDirectory a[path]? = true → emptyDirectory path a = false
  after : isDirectory b[path]? = true → emptyDirectory path b = false

theorem accepted {baseline candidate : Snapshot} (h : representable baseline candidate = .ok ())
    (hchanged : baseline.entries[path]? ≠ candidate.entries[path]?) : Accepted baseline.entries candidate.entries path := by
  obtain ⟨_, -, h⟩ := bind_ok h
  obtain ⟨_, -, h⟩ := bind_ok h
  have hpath := checkAll_ok h path (mem_changedPaths.mpr hchanged)
  obtain ⟨_, hchange, hpath⟩ := bind_ok hpath
  obtain ⟨_, hbefore, hafter⟩ := bind_ok hpath
  refine ⟨hchange, fun hdir => ?_, fun hdir => ?_⟩
  · have := refuseIf_ok hbefore
    simpa [hdir] using this
  · have := refuseIf_ok hafter
    simpa [hdir] using this

theorem gitMode_eq (h : gitMode mode = true) : mode = if mode &&& 0o111 ≠ 0 then 0o755 else 0o644 := by
  rcases (Bool.or_eq_true _ _).mp h with h | h
  · obtain rfl := decide_eq_true_iff.mp h
    rfl
  · obtain rfl := decide_eq_true_iff.mp h
    rfl

theorem checkChange_file {old : Option Workspace.Entry} {content : Digest}
    (h : checkChange path old (some (.file content mode)) = .ok ()) :
    gitMode mode = true ∧ ∀ c before, old = some (.file c before) → before ≠ mode → gitMode before = true := by
  have hmode : gitMode mode = true := by
    by_contra hnot
    have hmode : gitMode mode = false := Bool.not_eq_true _ |>.mp hnot
    rcases old with _ | ⟨c, m⟩ | m | target <;> simp [checkChange, hmode] at h
  refine ⟨hmode, fun c before he hne => ?_⟩
  subst he
  by_contra hbefore
  simp [checkChange, hmode, hne, hbefore] at h

theorem checkChange_directory {old : Option Workspace.Entry}
    (h : checkChange path old (some (.directory mode)) = .ok ()) (hchanged : old ≠ some (.directory mode)) :
    mode = 0o755 ∧ ∀ before, old ≠ some (.directory before) := by
  have hkind : ∀ before, old ≠ some (.directory before) := by
    rintro before rfl
    have hne : before ≠ mode := fun he => hchanged (by rw [he])
    simp [checkChange, hne] at h
  refine ⟨?_, hkind⟩
  by_contra hmode
  rcases old with _ | ⟨content, m⟩ | m | target
  · simp [checkChange, hmode] at h
  · simp [checkChange, hmode] at h
  · exact hkind m rfl
  · simp [checkChange, hmode] at h

/-! ## the patch -/

variable {baseline candidate : Entries}

def Deleted (a b : Entries) (path : String) : Prop :=
  ∃ g, gitTree a path = some g ∧ (gitTree b path).any g.sameKind = false

theorem mem_removed : x ∈ (diffTree baseline candidate).removed ↔
    ∃ g, gitTree baseline x.key = some g ∧ gitTree candidate x.key ≠ some g ∧
      x.prunes = !(gitTree candidate x.key).any g.sameKind := by
  obtain ⟨path, prunes⟩ := x
  rw [diffTree, List.mem_filterMap]
  constructor
  · rintro ⟨p, -, hp⟩
    obtain ⟨g, hg, hp⟩ := Option.bind_eq_some_iff.mp hp
    split at hp
    · cases hp
    · rename_i hne
      obtain ⟨rfl, rfl⟩ := LeafPatch.Removal.mk.inj (Option.some.inj hp)
      exact ⟨g, hg, hne, rfl⟩
  · rintro ⟨g, hg, hne, hprunes⟩
    refine ⟨path, LeafPatch.mem_keys.mpr (IsLeaf.ne_none ⟨g, hg⟩), Option.bind_eq_some_iff.mpr ⟨g, hg, ?_⟩⟩
    rw [if_neg hne, ← hprunes]

theorem isLeaf_of_removed (hx : x ∈ (diffTree baseline candidate).removed) : IsLeaf baseline x.key := by
  obtain ⟨g, hg, -⟩ := mem_removed.mp hx
  exact ⟨g, hg⟩

theorem mem_removedPaths : path ∈ (diffTree baseline candidate).removed.map LeafPatch.Removal.key ↔
    IsLeaf baseline path ∧ gitTree baseline path ≠ gitTree candidate path := by
  rw [List.mem_map]
  constructor
  · rintro ⟨x, hx, rfl⟩
    obtain ⟨g, hg, hne, -⟩ := mem_removed.mp hx
    exact ⟨⟨g, hg⟩, fun hsame => hne (hsame ▸ hg)⟩
  · rintro ⟨⟨g, hg⟩, hne⟩
    refine ⟨⟨path, !(gitTree candidate path).any g.sameKind⟩, mem_removed.mpr ⟨g, hg, fun hsame => ?_, rfl⟩, rfl⟩
    exact hne (hg.trans hsame.symm)

theorem prunes_iff (hx : x ∈ (diffTree baseline candidate).removed) :
    x.prunes = true ↔ Deleted baseline candidate x.key := by
  obtain ⟨g, hg, -, hprunes⟩ := mem_removed.mp hx
  rw [hprunes, Bool.not_eq_true']
  constructor
  · exact fun hkind => ⟨g, hg, hkind⟩
  · rintro ⟨g', hg', hkind⟩
    obtain rfl := Option.some.inj (hg.symm.trans hg')
    exact hkind

theorem GitEntry.sameKind_self (g : GitEntry) : g.sameKind g = true := by cases g <;> rfl

theorem Deleted.mem_removed (h : Deleted baseline candidate path) :
    ∃ x ∈ (diffTree baseline candidate).removed, x.key = path := by
  obtain ⟨g, hg, hkind⟩ := h
  refine List.mem_map.mp (mem_removedPaths.mpr ⟨⟨g, hg⟩, fun hsame => ?_⟩)
  rw [← hsame, hg] at hkind
  exact absurd g.sameKind_self (by simpa using hkind)

theorem deleted_of_not_leaf (ha : IsLeaf baseline path) (hb : ¬IsLeaf candidate path) : Deleted baseline candidate path := by
  obtain ⟨g, hg⟩ := ha
  refine ⟨g, hg, ?_⟩
  rw [show gitTree candidate path = none from by_contra fun hne => hb (Option.ne_none_iff_exists'.mp hne)]
  rfl

theorem mem_written {entry : Workspace.Entry} : (path, entry) ∈ (diffTree baseline candidate).written ↔
    ∃ g, gitTree candidate path = some g ∧ gitTree baseline path ≠ some g ∧ entry = g.entry := by
  rw [diffTree, List.mem_filterMap]
  constructor
  · rintro ⟨p, -, hp⟩
    split at hp
    · cases hp
    · rename_i hne
      obtain ⟨g, hg, he⟩ := Option.map_eq_some_iff.mp hp
      obtain ⟨rfl, rfl⟩ := Prod.mk.inj he
      exact ⟨g, hg, by rwa [← hg], rfl⟩
  · rintro ⟨g, hg, hne, rfl⟩
    refine ⟨path, LeafPatch.mem_keys.mpr (IsLeaf.ne_none ⟨g, hg⟩), ?_⟩
    rw [hg, if_neg hne]
    rfl

theorem mem_writtenPaths : path ∈ (diffTree baseline candidate).written.map Prod.fst ↔
    IsLeaf candidate path ∧ gitTree baseline path ≠ gitTree candidate path := by
  rw [List.mem_map]
  constructor
  · rintro ⟨⟨p, entry⟩, hmem, rfl⟩
    obtain ⟨g, hg, hne, -⟩ := mem_written.mp hmem
    exact ⟨⟨g, hg⟩, by rwa [hg]⟩
  · rintro ⟨⟨g, hg⟩, hne⟩
    exact ⟨(path, g.entry), mem_written.mpr ⟨g, hg, by rwa [← hg], rfl⟩, rfl⟩

theorem removed_sorted : (diffTree baseline candidate).removed.Pairwise fun x y => compare x.key y.key = .lt := by
  refine List.Pairwise.filterMap _ (fun p q hpq x hx y hy => ?_) Std.ExtTreeMap.ordered_keys
  have hkey : ∀ {r : String} {z : LeafPatch.Removal String}, (do
      let old ← gitTree baseline r
      if gitTree candidate r = some old then none
      else some ⟨r, !(gitTree candidate r).any old.sameKind⟩ : Option (LeafPatch.Removal String)) = some z → z.key = r := by
    intro r z hz
    obtain ⟨g, -, hz⟩ := Option.bind_eq_some_iff.mp hz
    split at hz
    · cases hz
    · obtain rfl := Option.some.inj hz
      rfl
  rw [hkey hx, hkey hy]
  exact hpq

theorem nodup_removed : ((diffTree baseline candidate).removed.map LeafPatch.Removal.key).Nodup := by
  refine List.pairwise_map.mpr (removed_sorted.imp fun {x y} hlt he => ?_)
  have heq : compare x.key y.key = .eq := Std.LawfulEqCmp.compare_eq_iff_eq.mpr he
  rw [hlt] at heq
  cases heq

theorem nodup_keys (entries : Entries) : entries.keys.Nodup :=
  (Std.ExtTreeMap.distinct_keys (t := entries)).imp fun h he => h (Std.LawfulEqCmp.compare_eq_iff_eq.mpr he)

theorem sublist_filterMap {f : String → Option (String × Workspace.Entry)} (hf : ∀ p x, f p = some x → x.1 = p) (l : List String) :
    ((l.filterMap f).map Prod.fst).Sublist l := by
  induction l with
  | nil => exact List.Sublist.slnil
  | cons p l ih =>
    rw [List.filterMap_cons]
    cases hp : f p with
    | none => exact ih.cons p
    | some x =>
      rw [List.map_cons, hf p x hp]
      exact ih.cons_cons p

theorem nodup_written : ((diffTree baseline candidate).written.map Prod.fst).Nodup := by
  refine (sublist_filterMap (fun p x hp => ?_) candidate.keys).nodup (nodup_keys candidate)
  split at hp
  · cases hp
  · obtain ⟨g, -, rfl⟩ := Option.map_eq_some_iff.mp hp
    rfl

/-! ## what the patch does -/

/-- two trees that are accepted -/
structure AcceptedPair (a b : Entries) : Prop where
  before : TreeOf a
  after : TreeOf b
  accepted : ∀ path, a[path]? ≠ b[path]? → Accepted a b path

/-- everything below the directory goes, and in the directory and in each one below it the last file or link that
goes is deleted: with a change for the last one it would stay, empty, until that is written -/
def Emptied (a b : Entries) (path : String) : Prop :=
  (∀ q, IsLeaf a q → path ∈ Snapshot.parentsOf q → gitTree a q ≠ gitTree b q) ∧
    ∀ q, isDirectory a[q]? = true → (q = path ∨ path ∈ Snapshot.parentsOf q) →
      ∃ r, Deleted a b r ∧ q ∈ Snapshot.parentsOf r ∧
        ∀ s, IsLeaf a s → q ∈ Snapshot.parentsOf s → (compare s r).isLE = true

abbrev Hollow (a b : Entries) (path : String) : Prop :=
  LeafPatch.Hollow pathAncestry a (diffTree a b).removed path

abbrev Touched (a b : Entries) (path : String) : Prop := LeafPatch.Touched pathAncestry (diffTree a b).removed path

theorem isDirectory_of (h : entries[path]? = some (.directory mode)) :
    isDirectory entries[path]? = true := by
  rw [h]
  rfl

theorem IsLeaf.of_not_directory (hne : entries[path]? ≠ none) (hdir : isDirectory entries[path]? = false) :
    IsLeaf entries path := by
  rcases isLeaf_cases entries path with hnone | ⟨mode, hmode⟩ | hleaf
  · exact absurd hnone hne
  · rw [hmode] at hdir
    cases hdir
  · exact hleaf

theorem touched_leaf (h : TreeOf a) (hleaf : IsLeaf a path) :
    Touched a b path ↔ gitTree a path ≠ gitTree b path := by
  constructor
  · rintro (hmem | hlast)
    · exact (mem_removedPaths.mp hmem).2
    · obtain ⟨x, hx, -⟩ := (Option.any_eq_true _ _).mp hlast
      obtain ⟨hx, hbelow⟩ := LeafPatch.mem_of_lastBelow hx
      exact absurd (h.nothing_below hleaf hbelow) (isLeaf_of_removed hx).ne_none
  · exact fun hne => .inl (mem_removedPaths.mpr ⟨hleaf, hne⟩)

theorem touched_directory (hdir : isDirectory a[path]? = true) :
    Touched a b path ↔
      ∃ x, LeafPatch.lastBelow pathAncestry (diffTree a b).removed path = some x ∧ Deleted a b x.key := by
  constructor
  · rintro (hmem | hlast)
    · obtain ⟨entry, he, hnot⟩ := (mem_removedPaths.mp hmem).1.isDirectory_eq
      rw [he, hnot] at hdir
      cases hdir
    · obtain ⟨x, hx, hprunes⟩ := (Option.any_eq_true _ _).mp hlast
      exact ⟨x, hx, (prunes_iff (LeafPatch.mem_of_lastBelow hx).1).mp hprunes⟩
  · rintro ⟨x, hx, hdeleted⟩
    exact .inr ((Option.any_eq_true _ _).mpr ⟨x, hx, (prunes_iff (LeafPatch.mem_of_lastBelow hx).1).mpr hdeleted⟩)

theorem hollow_iff_emptied (h : TreeOf a) (hdir : a[path]? = some (.directory mode)) :
    Hollow a b path ↔ Emptied a b path := by
  constructor
  · intro hollow
    have hleaves : ∀ q, IsLeaf a q → path ∈ Snapshot.parentsOf q → gitTree a q ≠ gitTree b q :=
      fun q hq hp => (touched_leaf h hq).mp (hollow q hq.ne_none (.inr hp))
    refine ⟨hleaves, fun q hq hat => ?_⟩
    have hne : a[q]? ≠ none := by
      intro hnone
      rw [hnone] at hq
      cases hq
    obtain ⟨x, hx, hdeleted⟩ := (touched_directory hq).mp (hollow q hne hat)
    obtain ⟨-, hbelow, hlast⟩ := (LeafPatch.lastBelow_eq_some removed_sorted).mp hx
    refine ⟨x.key, hdeleted, hbelow, fun s hs hp => ?_⟩
    have hpath : path ∈ Snapshot.parentsOf s := by
      rcases hat with rfl | hat
      · exact hp
      · exact pathAncestry.trans hat hp
    obtain ⟨y, hy, rfl⟩ := List.mem_map.mp (mem_removedPaths.mpr ⟨hs, hleaves s hs hpath⟩)
    exact hlast y hy hp
  · rintro ⟨hleaves, hdirs⟩ r hr hat
    cases hkind : isDirectory a[r]? with
    | false =>
      have hleaf := IsLeaf.of_not_directory hr hkind
      refine (touched_leaf h hleaf).mpr ?_
      rcases hat with rfl | hat
      · exact absurd hdir hleaf.not_directory
      · exact hleaves r hleaf hat
    | true =>
      obtain ⟨k, hdeleted, hbelow, hlast⟩ := hdirs r hkind hat
      obtain ⟨x, hx, rfl⟩ := hdeleted.mem_removed
      refine (touched_directory hkind).mpr ⟨x, (LeafPatch.lastBelow_eq_some removed_sorted).mpr ⟨hx, hbelow, ?_⟩, hdeleted⟩
      exact fun y hy hp => hlast y.key (isLeaf_of_removed hy) hp

namespace AcceptedPair

variable {a b : Entries} (h : AcceptedPair a b)
include h

theorem hollow_of_changed (ha : IsLeaf a path) (hne : gitTree a path ≠ gitTree b path) : Hollow a b path := by
  rintro r hr (rfl | hbelow)
  · exact (touched_leaf h.before ha).mpr hne
  · exact absurd (h.before.nothing_below ha hbelow) hr

theorem hollow_of_deleted (ha : IsLeaf a path) (hb : ¬IsLeaf b path) : Hollow a b path := by
  refine h.hollow_of_changed ha fun hsame => hb ?_
  obtain ⟨g, hg⟩ := ha
  exact ⟨g, hsame ▸ hg⟩

/-- a directory that the candidate does not have goes with all that is in it -/
theorem hollow_of_gone {mode : Nat} (ha : a[path]? = some (.directory mode)) (hb : isDirectory b[path]? = false) :
    Hollow a b path := by
  have hbelow : ∀ q, path ∈ Snapshot.parentsOf q → b[q]? = none := by
    intro q hq
    by_contra hne
    obtain ⟨m, hm⟩ := h.after.directory hne hq
    rw [hm] at hb
    cases hb
  have hdeleted : ∀ q, IsLeaf a q → path ∈ Snapshot.parentsOf q → Deleted a b q :=
    fun q hq hp => deleted_of_not_leaf hq fun hleaf => hleaf.ne_none (hbelow q hp)
  intro r hr hat
  cases hkind : isDirectory a[r]? with
  | false =>
    have hleaf := IsLeaf.of_not_directory hr hkind
    rcases hat with rfl | hat
    · exact absurd ha hleaf.not_directory
    · exact h.hollow_of_deleted hleaf (fun hb => hb.ne_none (hbelow r hat)) r hr (.inl rfl)
  | true =>
    have hchanged : a[r]? ≠ b[r]? := by
      intro hsame
      rw [hsame] at hkind
      rcases hat with rfl | hat
      · rw [hb] at hkind
        cases hkind
      · rw [hbelow r hat] at hkind
        cases hkind
    have hunder : ∀ q, r ∈ Snapshot.parentsOf q → path ∈ Snapshot.parentsOf q := by
      intro q hq
      rcases hat with rfl | hat
      · exact hq
      · exact pathAncestry.trans hat hq
    obtain ⟨q, hq, hp⟩ := h.before.not_empty hr ((h.accepted r hchanged).before hkind)
    obtain ⟨x, hx, rfl⟩ := (hdeleted q hq (hunder q hp)).mem_removed
    obtain ⟨y, hy⟩ := LeafPatch.lastBelow_ne_none (A := pathAncestry) hx hp
    obtain ⟨hmem, hp⟩ := LeafPatch.mem_of_lastBelow hy
    exact (touched_directory hkind).mpr ⟨y, hy, hdeleted y.key (isLeaf_of_removed hmem) (hunder y.key hp)⟩

theorem not_hollow_of_same (ha : IsLeaf a path) (hsame : gitTree a path = gitTree b path) : ¬Hollow a b path :=
  fun hollow => (touched_leaf h.before ha).mp (hollow path ha.ne_none (.inl rfl)) hsame

theorem same_of_gitTree (hb : IsLeaf b path) (hsame : gitTree a path = gitTree b path) : a[path]? = b[path]? := by
  by_contra hchanged
  have hchange := (h.accepted path hchanged).change
  obtain ⟨g, hg⟩ := hb
  rw [hg] at hsame
  obtain ⟨old, hold, hgold⟩ := Option.bind_eq_some_iff.mp hsame
  obtain ⟨new, hnew, hgnew⟩ := Option.bind_eq_some_iff.mp hg
  rw [hold, hnew] at hchange hchanged
  cases old with
  | directory mode => cases hgold
  | symlink target =>
    obtain rfl := Option.some.inj hgold
    cases new with
    | file content mode => cases hgnew
    | directory mode => cases hgnew
    | symlink target' =>
      obtain rfl : target' = target := by cases hgnew; rfl
      exact hchanged rfl
  | file content mode =>
    obtain rfl := Option.some.inj hgold
    cases new with
    | directory mode => cases hgnew
    | symlink target => cases hgnew
    | file content' mode' =>
      obtain ⟨hexec, rfl⟩ := GitEntry.file.inj (Option.some.inj hgnew)
      obtain ⟨hmode', hmode⟩ := checkChange_file hchange
      have hbits : mode ≠ mode' := fun he => hchanged (by rw [he])
      refine hbits ?_
      rw [gitMode_eq (hmode content' mode rfl hbits), gitMode_eq hmode']
      exact if_congr (decide_eq_decide.mp hexec).symm rfl rfl

theorem entry_of_written {g : GitEntry} (hg : gitTree b path = some g) (hchanged : a[path]? ≠ b[path]?) :
    b[path]? = some g.entry := by
  have hchange := (h.accepted path hchanged).change
  obtain ⟨new, hnew, hgnew⟩ := Option.bind_eq_some_iff.mp hg
  rw [hnew] at hchange ⊢
  cases new with
  | directory mode => cases hgnew
  | symlink target =>
    obtain rfl := Option.some.inj hgnew
    rfl
  | file content mode =>
    obtain rfl := Option.some.inj hgnew
    have hmode := gitMode_eq (checkChange_file hchange).1
    rw [GitEntry.entry]
    simpa using hmode

theorem removed_spec (path : String) :
    (Hollow a b path → (LeafPatch.removeAll pathAncestry a (diffTree a b).removed)[path]? = none) ∧
    (¬Hollow a b path → (LeafPatch.removeAll pathAncestry a (diffTree a b).removed)[path]? = a[path]?) :=
  LeafPatch.removeAll_spec h.before.closed nodup_removed (fun _ hx => (isLeaf_of_removed hx).isDirectory_eq) path

theorem writable : LeafPatch.Writable pathAncestry (fun entry => isDirectory (some entry))
    (LeafPatch.removeAll pathAncestry a (diffTree a b).removed) (diffTree a b).written := by
  have hcases : ∀ path, (LeafPatch.removeAll pathAncestry a (diffTree a b).removed)[path]? = none ∨
      ¬Hollow a b path ∧ (LeafPatch.removeAll pathAncestry a (diffTree a b).removed)[path]? = a[path]? := by
    intro path
    by_cases hollow : Hollow a b path
    · exact .inl ((h.removed_spec path).1 hollow)
    · exact .inr ⟨hollow, (h.removed_spec path).2 hollow⟩
  refine ⟨nodup_written, fun w hw => ?_, fun w hw p hp => ?_⟩
  · have hleaf := (mem_writtenPaths.mp (List.mem_map_of_mem hw)).1
    rcases hcases w.1 with hnone | ⟨hkept, hsame⟩
    · rw [hnone]
      rfl
    · rw [hsame]
      rcases isLeaf_cases a w.1 with hnone | ⟨mode, hdir⟩ | hl
      · rw [hnone]
        rfl
      · obtain ⟨entry, he, hnot⟩ := hleaf.isDirectory_eq
        exact absurd (h.hollow_of_gone hdir (by rw [he, hnot])) hkept
      · obtain ⟨entry, he, hnot⟩ := hl.isDirectory_eq
        rw [he]
        exact hnot
  · have hleaf := (mem_writtenPaths.mp (List.mem_map_of_mem hw)).1
    obtain ⟨mode, hdir⟩ := h.after.directory hleaf.ne_none hp
    refine ⟨?_, fun hmem => (mem_writtenPaths.mp hmem).1.not_directory hdir⟩
    rcases hcases p with hnone | ⟨hkept, hsame⟩
    · rw [hnone]
      rfl
    · rw [hsame]
      rcases isLeaf_cases a p with hnone | ⟨m, hm⟩ | hl
      · rw [hnone]
        rfl
      · rw [hm]
        rfl
      · exact absurd (h.hollow_of_deleted hl fun hb => hb.not_directory hdir) hkept

/-- a directory is made on the way to a leaf that is written -/
def Remade (a b : Entries) (path : String) : Prop := ∃ w ∈ (diffTree a b).written, path ∈ Snapshot.parentsOf w.1

theorem remade_of_hollow {q : String} (hollow : Hollow a b path) (hq : IsLeaf b q) (hp : path ∈ Snapshot.parentsOf q) :
    Remade a b path := by
  obtain ⟨g, hg⟩ := hq
  refine ⟨(q, g.entry), mem_written.mpr ⟨g, hg, fun hsame => ?_, rfl⟩, hp⟩
  exact h.not_hollow_of_same ⟨g, hsame⟩ (hsame.trans hg.symm) (LeafPatch.Hollow.below hollow hp)

/-- **The tree after the patch**, at each path -/
theorem apply_spec : ∃ u, (diffTree a b).apply a = some u ∧ ∀ path,
    (IsLeaf b path → u[path]? = b[path]?) ∧
    (¬IsLeaf b path → ¬Hollow a b path → a[path]? ≠ none → u[path]? = a[path]?) ∧
    (¬IsLeaf b path → (Hollow a b path ∨ a[path]? = none) → Remade a b path → u[path]? = some (.directory 0o755)) ∧
    (¬IsLeaf b path → (Hollow a b path ∨ a[path]? = none) → ¬Remade a b path → u[path]? = none) := by
  obtain ⟨u, hu, hleaves, hothers⟩ :=
    @LeafPatch.writeAll_spec _ _ _ _ _ _ _ _ (.directory 0o755) rfl _ _ h.writable
  have hgone : ∀ path, Hollow a b path ∨ a[path]? = none →
      (LeafPatch.removeAll pathAncestry a (diffTree a b).removed)[path]? = none := by
    rintro path (hollow | hnone)
    · exact (h.removed_spec path).1 hollow
    · by_cases hollow : Hollow a b path
      · exact (h.removed_spec path).1 hollow
      · rw [(h.removed_spec path).2 hollow, hnone]
  have hunwritten : ∀ path, ¬IsLeaf b path → path ∉ (diffTree a b).written.map Prod.fst :=
    fun path hb hmem => hb (mem_writtenPaths.mp hmem).1
  refine ⟨u, hu, fun path => ⟨fun hb => ?_, fun hb hkept hne => ?_, fun hb hout hremade => ?_, fun hb hout hnot => ?_⟩⟩
  · obtain ⟨g, hg⟩ := hb
    by_cases hsame : gitTree a path = gitTree b path
    · have hkept : ¬Hollow a b path := h.not_hollow_of_same ⟨g, hsame.trans hg⟩ hsame
      have hout : path ∉ (diffTree a b).written.map Prod.fst := fun hmem => (mem_writtenPaths.mp hmem).2 hsame
      have hold := (h.removed_spec path).2 hkept
      have hne : a[path]? ≠ none := IsLeaf.ne_none ⟨g, hsame.trans hg⟩
      rw [(hothers path hout).1 (.inl (by rwa [hold])), hold]
      exact h.same_of_gitTree ⟨g, hg⟩ hsame
    · have hmem : (path, g.entry) ∈ (diffTree a b).written := mem_written.mpr ⟨g, hg, by rwa [← hg], rfl⟩
      rw [hleaves _ hmem]
      refine (h.entry_of_written hg fun he => hsame ?_).symm
      rw [gitTree, he, gitTree]
  · have hold := (h.removed_spec path).2 hkept
    rw [(hothers path (hunwritten path hb)).1 (.inl (by rwa [hold])), hold]
  · exact (hothers path (hunwritten path hb)).2 (hgone path hout) hremade
  · have hnone : ∀ w ∈ (diffTree a b).written, path ∉ pathAncestry.parents w.1 := fun w hw hp => hnot ⟨w, hw, hp⟩
    rw [(hothers path (hunwritten path hb)).1 (.inr hnone), hgone path hout]

theorem apply_other {u : Entries} (hu : (diffTree a b).apply a = some u)
    (hpath : ∀ mode, ¬(a[path]? = some (.directory mode) ∧ b[path]? = some (.directory mode) ∧ Hollow a b path)) :
    u[path]? = b[path]? := by
  obtain ⟨v, hv, hspec⟩ := h.apply_spec
  obtain rfl : v = u := Option.some.inj (hv.symm.trans hu)
  obtain ⟨hleaf, hkept, hmade, hnone⟩ := hspec path
  rcases isLeaf_cases b path with hb | ⟨mode, hb⟩ | hb
  · -- the candidate has nothing here
    have hnot : ¬IsLeaf b path := fun hl => hl.ne_none hb
    have hunmade : ¬Remade a b path := by
      rintro ⟨w, hw, hp⟩
      obtain ⟨m, hm⟩ := h.after.directory (mem_writtenPaths.mp (List.mem_map_of_mem hw)).1.ne_none hp
      rw [hb] at hm
      cases hm
    rw [hb]
    refine hnone hnot ?_ hunmade
    rcases isLeaf_cases a path with ha | ⟨m, ha⟩ | ha
    · exact .inr ha
    · exact .inl (h.hollow_of_gone ha (by rw [hb]; rfl))
    · exact .inl (h.hollow_of_deleted ha hnot)
  · -- a directory of the candidate
    have hnot : ¬IsLeaf b path := fun hl => hl.not_directory hb
    by_cases hsame : a[path]? = b[path]?
    · have hnohollow : ¬Hollow a b path := fun hollow => hpath mode ⟨hsame.trans hb, hb, hollow⟩
      rw [hkept hnot hnohollow (by rw [hsame, hb]; exact Option.some_ne_none _), hsame]
    · have haccepted := h.accepted path hsame
      have hchange := haccepted.change
      rw [hb] at hchange
      have hne : a[path]? ≠ some (.directory mode) := fun he => hsame (he.trans hb.symm)
      obtain ⟨rfl, hkind⟩ := checkChange_directory hchange hne
      obtain ⟨q, hq, hp⟩ := h.after.not_empty (by rw [hb]; exact Option.some_ne_none _)
        (haccepted.after (isDirectory_of hb))
      have hout : Hollow a b path ∨ a[path]? = none := by
        rcases isLeaf_cases a path with ha | ⟨m, ha⟩ | ha
        · exact .inr ha
        · exact absurd ha (hkind m)
        · exact .inl (h.hollow_of_deleted ha hnot)
      rw [hmade hnot hout ?_, hb]
      rcases hout with hollow | ha
      · exact h.remade_of_hollow hollow hq hp
      · obtain ⟨g, hg⟩ := hq
        refine ⟨(q, g.entry), mem_written.mpr ⟨g, hg, fun hold => ?_, rfl⟩, hp⟩
        obtain ⟨m, hm⟩ := h.before.directory (IsLeaf.ne_none ⟨g, hold⟩) hp
        rw [ha] at hm
        cases hm
  · exact hleaf hb

end AcceptedPair

/-! ## the tree on disk -/

theorem diskPath_of_plain (h : PlainPath path) : diskPath path = path := by
  rw [diskPath, names, named_of_none h, join_split, String.ofList_toList]

theorem plainPath_diskPath (h : safeRelative path.toList = true) : PlainPath (diskPath path) := by
  have hsplit : split (join (names path.toList)) = names path.toList :=
    split_join (safeRelative_plain h).2 fun s hs => (mem_names hs).1
  intro s hs
  rw [diskPath, String.toList_ofList, hsplit] at hs
  exact (mem_names hs).2

theorem plainPath_above {p : String} (h : PlainPath path) (hp : p ∈ Snapshot.parentsOf path) : PlainPath p := by
  obtain ⟨a, ha, rfl⟩ := List.mem_map.mp hp
  obtain ⟨ha, hne⟩ := List.mem_filter.mp ha
  obtain ⟨q, hq, -, rfl⟩ := (mem_ancestors h).mp ha
  have hq' : q ≠ [] := by
    rintro rfl
    simp [join, List.intercalate] at hne
  intro s hs
  rw [String.toList_ofList, split_join hq' fun s hs => slash_not_mem_split (hq.subset hs)] at hs
  exact h s (hq.subset hs)

def Plain (entries : Entries) : Prop := ∀ path, entries[path]? ≠ none → PlainPath path

theorem mem_toList {entry : Workspace.Entry} : (path, entry) ∈ entries.toList ↔ entries[path]? = some entry :=
  Std.ExtTreeMap.mem_toList_iff_getElem?_eq_some

theorem ne_none_of_mem {e : String × Workspace.Entry} (h : e ∈ entries.toList) : entries[e.1]? ≠ none := by
  rw [mem_toList.mp h]
  exact Option.some_ne_none _

theorem onDisk_of_plain (h : Plain entries) : onDisk entries = entries := by
  have hpaths : entries.toList.reverse.map (fun e => (diskPath e.1, e.2)) = entries.toList.reverse := by
    refine (List.map_congr_left fun e he => ?_).trans (List.map_id _)
    rw [diskPath_of_plain (h e.1 (ne_none_of_mem (List.mem_reverse.mp he)))]
    rfl
  rw [onDisk, hpaths]
  refine Std.ExtTreeMap.ext_getElem? fun k => ?_
  have hdistinct : entries.toList.reverse.Pairwise fun x y => ¬compare x.1 y.1 = .eq := by
    refine List.pairwise_reverse.mpr (Std.ExtTreeMap.distinct_keys_toList.imp fun hne he => hne ?_)
    exact Std.OrientedCmp.eq_symm he
  cases hk : entries[k]? with
  | some entry =>
    exact Std.ExtTreeMap.getElem?_ofList_of_mem Std.ReflCmp.compare_self hdistinct
      (List.mem_reverse.mpr (mem_toList.mpr hk))
  | none =>
    refine Std.ExtTreeMap.getElem?_ofList_of_contains_eq_false ?_
    refine Bool.eq_false_iff.mpr fun hmem => ?_
    obtain ⟨e, he, rfl⟩ := List.mem_map.mp (List.contains_iff_mem.mp hmem)
    exact ne_none_of_mem (List.mem_reverse.mp he) hk

theorem plain_onDisk (h : ∀ p : String, entries[p]? ≠ none → safeRelative p.toList = true) : Plain (onDisk entries) := by
  intro p hp
  have hmem := Std.ExtTreeMap.mem_ofList.mp (Std.ExtTreeMap.mem_iff_isSome_getElem?.mpr (Option.isSome_iff_ne_none.mpr hp))
  obtain ⟨x, hx, rfl⟩ := List.mem_map.mp (List.contains_iff_mem.mp hmem)
  obtain ⟨e, he, rfl⟩ := List.mem_map.mp hx
  exact plainPath_diskPath (h e.1 (ne_none_of_mem (List.mem_reverse.mp he)))

theorem materialized_ok {disk : Entries} (h : materialized entries = .ok disk) : disk = onDisk entries := by
  obtain ⟨-, h⟩ := refuseIf_bind h
  exact (Except.ok.inj h).symm

theorem materialized_of_plain (h : Plain entries) : materialized entries = .ok entries := by
  rw [materialized, refuseIf_of_not, onDisk_of_plain h]
  · rfl
  · rintro ⟨e, he, f, hf, hne, hsame, -⟩
    rw [diskPath_of_plain (h e.1 (ne_none_of_mem he)), diskPath_of_plain (h f.1 (ne_none_of_mem hf))] at hsame
    exact hne hsame

theorem isLeaf_iff {entry : Workspace.Entry} (h : entries[path]? = some entry) : isLeaf entry = true ↔ IsLeaf entries path := by
  cases entry with
  | directory mode => exact ⟨nofun, fun hl => absurd h hl.not_directory⟩
  | file content mode => exact ⟨fun _ => ⟨_, by rw [gitTree, h]; rfl⟩, fun _ => rfl⟩
  | symlink target => exact ⟨fun _ => ⟨_, by rw [gitTree, h]; rfl⟩, fun _ => rfl⟩

theorem index_ok_iff : index entries = .ok () ↔ ∀ path, IsLeaf entries path → PlainPath path := by
  have hpaths : (¬∃ e ∈ entries.toList, isLeaf e.2 = true ∧ ¬PlainPath e.1) ↔ ∀ path, IsLeaf entries path → PlainPath path := by
    constructor
    · intro h path hleaf
      obtain ⟨entry, he⟩ := Option.ne_none_iff_exists'.mp hleaf.ne_none
      exact by_contra fun hnot => h ⟨_, mem_toList.mpr he, (isLeaf_iff he).mpr hleaf, hnot⟩
    · rintro h ⟨e, he, hleaf, hnot⟩
      exact hnot (h e.1 ((isLeaf_iff (mem_toList.mp he)).mp hleaf))
  rw [← hpaths]
  exact ⟨refuseIf_ok, refuseIf_of_not _⟩

/-! ## when the candidate is reproduced -/

/-- a directory of both trees that the removals empty has the mode of a new one, and a file or a link of the
candidate below it -/
def Recoverable (a b : Entries) : Prop :=
  ∀ path mode, a[path]? = some (.directory mode) → b[path]? = some (.directory mode) → Emptied a b path →
    mode = 0o755 ∧ ∃ q, IsLeaf b q ∧ path ∈ Snapshot.parentsOf q

namespace AcceptedPair

variable {a b : Entries} (h : AcceptedPair a b)
include h

theorem apply_eq_iff : (diffTree a b).apply a = some b ↔ Recoverable a b := by
  obtain ⟨u, hu, hspec⟩ := h.apply_spec
  constructor
  · intro happly path mode ha hb hemptied
    obtain rfl : u = b := Option.some.inj (hu.symm.trans happly)
    have hnot : ¬IsLeaf u path := fun hl => hl.not_directory hb
    have hollow := (hollow_iff_emptied h.before ha).mpr hemptied
    obtain ⟨-, -, hmade, hnone⟩ := hspec path
    by_cases hremade : Remade a u path
    · have hmode := hmade hnot (.inl hollow) hremade
      rw [hb] at hmode
      obtain ⟨w, hw, hp⟩ := hremade
      exact ⟨by injection hmode with hmode; injection hmode,
        w.1, (mem_writtenPaths.mp (List.mem_map_of_mem hw)).1, hp⟩
    · rw [hnone hnot (.inl hollow) hremade] at hb
      cases hb
  · intro hrecoverable
    rw [hu]
    refine congrArg some (Std.ExtTreeMap.ext_getElem? fun path => ?_)
    by_cases hboth : ∃ mode, a[path]? = some (.directory mode) ∧ b[path]? = some (.directory mode) ∧ Hollow a b path
    · obtain ⟨mode, ha, hb, hollow⟩ := hboth
      obtain ⟨rfl, q, hq, hp⟩ := hrecoverable path mode ha hb ((hollow_iff_emptied h.before ha).mp hollow)
      rw [(hspec path).2.2.1 (fun hl => hl.not_directory hb) (.inl hollow) (h.remade_of_hollow hollow hq hp), hb]
    · exact h.apply_other hu fun mode hmode => hboth ⟨mode, hmode⟩

end AcceptedPair

theorem acceptedPair {baseline candidate : Snapshot} (hbaseline : baseline.validate = .ok ())
    (hcandidate : candidate.validate = .ok ()) (haccepted : representable baseline candidate = .ok ())
    (hplain : Plain baseline.entries) (hplain' : Plain candidate.entries) :
    AcceptedPair baseline.entries candidate.entries where
  before := treeOf hbaseline fun path hpath => hplain path (LeafPatch.mem_keys.mp hpath)
  after := treeOf hcandidate fun path hpath => hplain' path (LeafPatch.mem_keys.mp hpath)
  accepted _ := accepted haccepted

theorem safe_of_validate {s : Snapshot} (h : s.validate = .ok ()) (path : String) (hpath : s.entries[path]? ≠ none) :
    safeRelative path.toList = true := by
  obtain ⟨entry, he⟩ := Option.ne_none_iff_exists'.mp hpath
  exact (Snapshot.validate_checked h he).safe

theorem build_ok {baseline candidate : Snapshot} {observed : Entries} (h : build baseline candidate = .ok observed) :
    representable baseline candidate = .ok () ∧ index baseline.entries = .ok () ∧ index candidate.entries = .ok () ∧
      (diffTree baseline.entries candidate.entries).apply (onDisk baseline.entries) = some candidate.entries := by
  obtain ⟨_, hrepresentable, h⟩ := bind_ok h
  obtain ⟨disk, hdisk, h⟩ := bind_ok h
  obtain rfl := materialized_ok hdisk
  obtain ⟨_, -, h⟩ := bind_ok h
  obtain ⟨_, hbefore, h⟩ := bind_ok h
  obtain ⟨_, hafter, h⟩ := bind_ok h
  refine ⟨hrepresentable, hbefore, hafter, ?_⟩
  rw [applyAndCompare] at h
  split at h
  · cases h
  · rename_i u hu
    split at h
    · cases h
    · rename_i hsame
      rw [hu, Classical.not_not.mp hsame]

/-- a scan finds plain paths only -/
theorem plain_of_build {baseline candidate : Snapshot} (hbaseline : baseline.validate = .ok ())
    {observed : Entries} (h : build baseline candidate = .ok observed) :
    Plain baseline.entries ∧ Plain candidate.entries := by
  obtain ⟨hrepresentable, hbefore, hafter, happly⟩ := build_ok h
  have hplain : Plain candidate.entries := by
    intro path hpath
    rcases LeafPatch.writeAll_sub happly hpath with hold | ⟨w, hw, hat⟩
    · exact plain_onDisk (safe_of_validate hbaseline) path (LeafPatch.removeAll_sub hold)
    · have hleaf := index_ok_iff.mp hafter w.1 (mem_writtenPaths.mp (List.mem_map_of_mem hw)).1
      rcases hat with rfl | hp
      · exact hleaf
      · exact plainPath_above hleaf hp
  refine ⟨fun path hpath => ?_, hplain⟩
  by_cases hsame : baseline.entries[path]? = candidate.entries[path]?
  · exact hplain path (hsame ▸ hpath)
  · rcases isLeaf_cases baseline.entries path with hnone | ⟨mode, hdir⟩ | hleaf
    · exact absurd hnone hpath
    · -- a directory that changed has a file or a link below it
      have hempty := (accepted hrepresentable hsame).before (isDirectory_of hdir)
      rw [emptyDirectory, Bool.not_eq_false', List.any_eq_true] at hempty
      obtain ⟨e, he, hbelow⟩ := hempty
      obtain ⟨hunder, hleaf⟩ := Bool.and_eq_true_iff.mp hbelow
      have hplainBelow := index_ok_iff.mp hbefore e.1 ((isLeaf_iff (mem_toList.mp he)).mp hleaf)
      obtain ⟨rest, hrest⟩ := List.isPrefixOf_iff_prefix.mp hunder
      intro s hs
      refine hplainBelow s ?_
      rw [← hrest, List.append_assoc, List.singleton_append]
      rw [show split (path.toList ++ '/' :: rest) = split path.toList ++ split rest from List.splitOn_append_cons_self ..]
      exact List.mem_append_left _ hs
    · exact index_ok_iff.mp hbefore path hleaf

/-- **Representability**: for two snapshots that are accepted, the patch of their difference gives the candidate if
and only if their paths are as a scan writes them, and each directory of both that the removals empty has the mode
of a new one and a file or a link of the candidate below it -/
theorem reproduced_iff (baseline candidate : Snapshot) (hbaseline : baseline.validate = .ok ())
    (hcandidate : candidate.validate = .ok ()) (haccepted : representable baseline candidate = .ok ()) :
    build baseline candidate = .ok candidate.entries ↔
      Plain baseline.entries ∧ Plain candidate.entries ∧ Recoverable baseline.entries candidate.entries := by
  constructor
  · intro hbuild
    obtain ⟨hplain, hplain'⟩ := plain_of_build hbaseline hbuild
    obtain ⟨-, -, -, happly⟩ := build_ok hbuild
    rw [onDisk_of_plain hplain] at happly
    exact ⟨hplain, hplain', (acceptedPair hbaseline hcandidate haccepted hplain hplain').apply_eq_iff.mp happly⟩
  · rintro ⟨hplain, hplain', hrecoverable⟩
    have hpair := acceptedPair hbaseline hcandidate haccepted hplain hplain'
    have hbefore : index baseline.entries = .ok () := index_ok_iff.mpr fun path hleaf => hplain path hleaf.ne_none
    have hafter : index candidate.entries = .ok () := index_ok_iff.mpr fun path hleaf => hplain' path hleaf.ne_none
    have hcompare : applyAndCompare baseline.entries candidate.entries (diffTree baseline.entries candidate.entries) =
        .ok candidate.entries := by
      rw [applyAndCompare, hpair.apply_eq_iff.mpr hrecoverable]
      exact if_neg fun hne => hne rfl
    simp [build, haccepted, materialized_of_plain hplain, materialized_of_plain hplain', hbefore, hafter, hcompare, bind,
      Except.bind]

def sampleOf (entries : List (String × Workspace.Entry)) : Snapshot := ⟨1, ⟨[], 10, 10⟩, .ofList entries⟩

def renamedBefore : Snapshot :=
  sampleOf [("d", .directory 0o755), ("d/f", .file default 0o644), ("x", .file default 0o644)]

def renamedAfter : Snapshot :=
  sampleOf [("d", .directory 0o755), ("d/g", .file default 0o644), ("x", .symlink "d/g")]

/-- a file that is renamed in its directory: the directory goes with the old name and is made for the new one -/
theorem reproduced_iff_renamed : build renamedBefore renamedAfter = .ok renamedAfter.entries ∧
    Recoverable renamedBefore.entries renamedAfter.entries := by
  have hbuild : build renamedBefore renamedAfter = .ok renamedAfter.entries := by decide +kernel
  have hiff := reproduced_iff renamedBefore renamedAfter (by decide +kernel) (by decide +kernel) (by decide +kernel)
  exact ⟨hbuild, (hiff.mp hbuild).2.2⟩

def privateFiles (entries : List (String × Workspace.Entry)) : Snapshot := sampleOf (("d", .directory 0o700) :: entries)

/-- a file that becomes a link is deleted and added, and the directory that it was alone in is made again -/
example : build (privateFiles [("d/f", .file default 0o644)]) (privateFiles [("d/f", .symlink "g")]) =
    .error (.reproductionMismatch ["d"]) := by decide +kernel

/-- the order counts: the directory goes with the last file where that is deleted, and stays where it is changed -/
example : build (privateFiles [("d/f", .file default 0o644), ("d/g", .file default 0o644)])
      (privateFiles [("d/f", .file default 0o755)]) = .error (.reproductionMismatch ["d"]) ∧
    build (privateFiles [("d/f", .file default 0o644), ("d/g", .file default 0o644)])
      (privateFiles [("d/g", .file default 0o755)]) = .ok (privateFiles [("d/g", .file default 0o755)]).entries := by
  decide +kernel

def lastFileBefore : Snapshot := sampleOf [("d", .directory 0o755), ("d/f", .file default 0o644)]

def lastFileAfter : Snapshot := sampleOf [("d", .directory 0o755)]

/-- the last file of a directory that stays: the directory has not changed, so nothing checks that it is empty -/
theorem last_file_mismatch : ¬∀ baseline candidate : Snapshot, baseline.validate = .ok () → candidate.validate = .ok () →
    baseline.policy = candidate.policy → representable baseline candidate = .ok () →
      build baseline candidate = .ok candidate.entries := by
  intro hall
  have hbuild := hall lastFileBefore lastFileAfter (by decide +kernel) (by decide +kernel) rfl (by decide +kernel)
  have hmismatch : build lastFileBefore lastFileAfter = .error (.reproductionMismatch ["d"]) := by decide +kernel
  rw [hmismatch] at hbuild
  cases hbuild

end Orvek.Delivery
