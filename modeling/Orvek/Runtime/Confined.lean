import Orvek.Runtime.Receiver
import Mathlib.Data.List.Nodup
import Mathlib.Data.Nat.Basic
import Mathlib.Order.Basic

/-!
# The receiver stays below its root

* `resolve_named`, `resolveNew_named`   a path whose directories are there leads to its own text;
* `Confined`           what is below the root was created by the receiver, in directories of its own;
* `Live`, `Safe`       what holds as long as frames are taken, and what holds in the end;
* `Fed`                the sessions that any frames lead to;
* `receiver_confined`  whatever the guest sends.
-/

set_option linter.unusedSectionVars false

namespace Orvek.Runtime
open Paths Workspace

/-! ## paths -/

section
variable {tree : FileTree} {root l : Location} {path : String} {segs : List Seg}

/-- the walk over directories of those names follows no link -/
theorem walk_named (n : Nat) (hnames : ∀ s ∈ segs, skipped s = false ∧ s ≠ dotdot)
    (hdirs : ∀ q, q <+: segs → q ≠ segs → tree.isDirectory (l ++ q) = true)
    (hlast : segs ≠ [] → Solid tree (l ++ segs)) : tree.walk n l segs = some (l ++ segs) := by
  obtain ⟨follow, hwalk⟩ := walk_eq_steps tree n
  rw [hwalk]
  clear hwalk
  induction segs generalizing l with
  | nil => rw [FileTree.steps, List.append_nil]
  | cons s segs ih =>
    obtain ⟨⟨hs, hdot⟩, hnames⟩ := List.forall_mem_cons.mp hnames
    have hdir : tree.isDirectory l = true := by
      have := hdirs [] List.nil_prefix (List.cons_ne_nil s segs).symm
      rwa [List.append_nil] at this
    have hcons : ∀ q, l ++ [s] ++ q = l ++ s :: q := fun q => by rw [List.append_assoc]; rfl
    have hnext : segs ≠ [] → tree.isDirectory (l ++ [s]) = true := fun hne =>
      hdirs [s] ⟨segs, rfl⟩ fun he => hne (List.cons.inj he).2.symm
    have hsolid : Solid tree (l ++ [s]) := by
      rcases eq_or_ne segs [] with rfl | hne
      · exact hlast (List.cons_ne_nil s [])
      · exact solid_of_isDirectory (hnext hne)
    rw [steps_name hdir hs hdot hsolid, ih hnames, hcons]
    · intro q hq hne
      rw [hcons]
      exact hdirs (s :: q) (List.cons_prefix_cons.mpr ⟨rfl, hq⟩) fun he => hne (List.cons.inj he).2
    · intro _
      rw [hcons]
      exact hlast (List.cons_ne_nil s segs)

theorem safe_names (h : safe path = true) : ∀ s ∈ split path.toList, skipped s = false ∧ s ≠ dotdot := by
  simp only [safe, Bool.and_eq_true, List.all_eq_true, decide_eq_true_eq] at h
  intro s hs
  obtain ⟨⟨hempty, hdot⟩, hdotdot⟩ := h.1.2 s hs
  exact ⟨by simp [skipped, hempty, hdot], hdotdot⟩

theorem split_ne_nil (text : List Char) : split text ≠ [] := List.splitOn_ne_nil _ _

theorem origin_safe (h : safe path = true) : FileTree.origin root (split path.toList) = root := by
  cases hs : split path.toList with
  | nil => rfl
  | cons s rest =>
    have hne : s ≠ [] := by
      rintro rfl
      exact absurd (safe_names h [] (by rw [hs]; exact List.mem_cons_self)).1 (by decide)
    cases s with
    | nil => exact absurd rfl hne
    | cons c s => rfl

theorem mem_parentsOf (h : safe path = true) {a : String} :
    a ∈ Snapshot.parentsOf path ↔ ∃ q, q ≠ [] ∧ q <+: split path.toList ∧ q ≠ split path.toList ∧
      a = String.ofList (join q) := by
  have hnamed := fun s hs => (safe_names h s hs).1
  simp only [Snapshot.parentsOf, List.mem_map, List.mem_filter, decide_eq_true_eq, mem_ancestors hnamed]
  constructor
  · rintro ⟨_, ⟨⟨q, hpre, hne, rfl⟩, hempty⟩, rfl⟩
    exact ⟨q, fun he => hempty (he ▸ rfl), hpre, hne, rfl⟩
  · rintro ⟨q, hq, hpre, hne, rfl⟩
    refine ⟨join q, ⟨⟨q, hpre, hne, rfl⟩, fun hempty => ?_⟩, rfl⟩
    have hsplit := split_join hq fun s hs => slash_not_mem_split (hpre.subset hs)
    rw [hempty] at hsplit
    have hmem : ([] : Seg) ∈ split path.toList := hpre.subset (hsplit ▸ List.mem_singleton_self [])
    exact absurd (hnamed [] hmem) (by decide)

theorem split_parent {q : List Seg} (hq : q ≠ []) (hpre : q <+: split path.toList) :
    split (String.ofList (join q)).toList = q := by
  rw [String.toList_ofList]
  exact split_join hq fun s hs => slash_not_mem_split (hpre.subset hs)

theorem directories_named (h : safe path = true) (hroot : tree.isDirectory root = true)
    (hparents : ∀ a ∈ Snapshot.parentsOf path, tree.isDirectory (root ++ split a.toList) = true)
    {q : List Seg} (hpre : q <+: split path.toList) (hne : q ≠ split path.toList) :
    tree.isDirectory (root ++ q) = true := by
  rcases eq_or_ne q [] with rfl | hq
  · rw [List.append_nil]
    exact hroot
  · have := hparents _ ((mem_parentsOf h).mpr ⟨q, hq, hpre, hne, rfl⟩)
    rwa [split_parent hq hpre] at this

/-- **A safe path whose parents are directories leads where its text says.** -/
theorem resolve_named (h : safe path = true) (hroot : tree.isDirectory root = true)
    (hparents : ∀ a ∈ Snapshot.parentsOf path, tree.isDirectory (root ++ split a.toList) = true)
    (hsolid : Solid tree (root ++ split path.toList)) :
    resolve tree root path.toList = some (root ++ split path.toList) := by
  rw [resolve, origin_safe h]
  exact walk_named maxLinks (safe_names h) (fun q hq hne => directories_named h hroot hparents hq hne)
    fun _ => hsolid

theorem resolveNew_named (h : safe path = true) (hroot : tree.isDirectory root = true)
    (hparents : ∀ a ∈ Snapshot.parentsOf path, tree.isDirectory (root ++ split a.toList) = true) :
    resolveNew tree root path.toList = some (root ++ split path.toList) := by
  have hdirs : ∀ q, q <+: (split path.toList).dropLast → tree.isDirectory (root ++ q) = true := by
    intro q hq
    refine directories_named h hroot hparents (hq.trans (List.dropLast_prefix _)) fun he => ?_
    have hle := hq.length_le
    have hpos := List.length_pos_iff.mpr (split_ne_nil path.toList)
    rw [he, List.length_dropLast] at hle
    omega
  have hwalk : tree.walk maxLinks root (split path.toList).dropLast =
      some (root ++ (split path.toList).dropLast) :=
    walk_named maxLinks (fun s hs => safe_names h s (List.dropLast_subset _ hs))
      (fun q hq _ => hdirs q hq) fun _ => solid_of_isDirectory (hdirs _ (List.prefix_refl _))
  obtain ⟨name, hname⟩ : ∃ name, (split path.toList).getLast? = some name :=
    ⟨_, List.getLast?_eq_some_getLast (split_ne_nil path.toList)⟩
  obtain ⟨hskipped, hdot⟩ := safe_names h name (List.mem_of_getLast? hname)
  rw [resolveNew, origin_safe h, hwalk, hname]
  show (if (skipped name || decide (name = dotdot)) = true then none else _) = _
  rw [hskipped, decide_eq_false hdot, Bool.false_or, if_neg Bool.false_ne_true, List.append_assoc,
    List.dropLast_append_getLast? name hname]

end

/-! ## confinement -/

section
variable [Sha256] {decoder : Decoder} {io : HostIo} {host tree tree' : FileTree} {root : Location}
  {created : List String} {entries : BTreeMap String Workspace.Entry} {pending : Option PendingFile}
  {path : String}

/-- what is below the root was created by the receiver, and everything else is as it was -/
structure Confined (host : FileTree) (root : Location) (tree : FileTree) (created : List String)
    (entries : BTreeMap String Workspace.Entry) (pending : Option PendingFile) : Prop where
  safe : ∀ p ∈ created, Runtime.safe p = true
  nodup : created.Nodup
  directory : tree.isDirectory root = true
  outside : ∀ l, (∀ m, m ≠ [] → l ≠ root ++ m) → tree.node l = host.node l
  nodes : ∀ m, m ≠ [] → ∀ x, tree.node (root ++ m) = some x →
    (∀ target, x ≠ .symlink target) ∧ ∃ p ∈ created, m = split p.toList
  there : ∀ p ∈ created, tree.node (root ++ split p.toList) ≠ none
  directories : ∀ p mode, entries[p]? = some (.directory mode) →
    p ∈ created ∧ tree.isDirectory (root ++ split p.toList) = true
  parents : ∀ p ∈ created, ∀ a ∈ Snapshot.parentsOf p,
    a ∈ created ∧ tree.isDirectory (root ++ split a.toList) = true
  pending : ∀ file, pending = some file →
    file.path ∈ created ∧ file.file = root ++ split file.path.toList

/-- the directory that a transfer goes to is empty -/
structure Incoming (host : FileTree) (root : Location) : Prop where
  directory : host.isDirectory root = true
  empty : ∀ m, m ≠ [] → host.node (root ++ m) = none

theorem Incoming.confined (h : Incoming host root) : Confined host root host [] ∅ none where
  safe := fun _ hp => (nomatch hp)
  nodup := List.nodup_nil
  directory := h.directory
  outside := fun _ _ => rfl
  nodes := fun m hm x hx => by
    rw [h.empty m hm] at hx
    cases hx
  there := fun _ hp => (nomatch hp)
  directories := fun p mode hp => by
    rw [Std.ExtTreeMap.getElem?_empty] at hp
    cases hp
  parents := fun _ hp => (nomatch hp)
  pending := fun _ hf => (nomatch hf)

theorem Confined.way (h : Confined host root tree created entries pending)
    (hparents : ∀ a ∈ Snapshot.parentsOf path, isDirectory entries[a]? = true) :
    ∀ a ∈ Snapshot.parentsOf path, a ∈ created ∧ tree.isDirectory (root ++ split a.toList) = true := by
  intro a ha
  have hdir := hparents a ha
  cases hentry : entries[a]? with
  | none =>
    rw [hentry] at hdir
    cases hdir
  | some entry =>
    cases entry with
    | directory mode => exact h.directories a mode hentry
    | file content mode =>
      rw [hentry] at hdir
      cases hdir
    | symlink target =>
      rw [hentry] at hdir
      cases hdir

/-- **Something new under a safe path in a directory of the receiver.** -/
theorem Confined.add (h : Confined host root tree created entries none) {x : Node}
    (hsafe : Runtime.safe path = true) (hparents : ∀ a ∈ Snapshot.parentsOf path, isDirectory entries[a]? = true)
    (hx : ∀ target, x ≠ .symlink target) (hadd : tree.add (root ++ split path.toList) x = some tree') :
    Confined host root tree' (created ++ [path]) entries none := by
  obtain ⟨hfree, hnode⟩ := FileTree.add_node hadd
  have hgrows := (FileTree.add_spec hadd).1
  have hnew : path ∉ created := fun hp => h.there path hp hfree
  have hway := h.way hparents
  have hkeep : ∀ l, tree.node l ≠ none → tree'.node l ≠ none := by
    intro l hl
    rw [hnode]
    split
    · exact Option.some_ne_none x
    · exact hl
  refine ⟨?_, ?_, hgrows.isDirectory h.directory, ?_, ?_, ?_, ?_, ?_, fun _ hf => (nomatch hf)⟩
  · intro p hp
    rcases List.mem_append.mp hp with hp | hp
    · exact h.safe p hp
    · rw [List.mem_singleton.mp hp]
      exact hsafe
  · refine List.nodup_append.mpr ⟨h.nodup, List.nodup_singleton _, fun a ha b hb => ?_⟩
    rw [List.mem_singleton.mp hb]
    rintro rfl
    exact hnew ha
  · intro l hl
    rw [hnode, if_neg (hl _ (split_ne_nil _))]
    exact h.outside l hl
  · intro m hm y hy
    rw [hnode] at hy
    split at hy
    · rename_i he
      cases hy
      exact ⟨hx, path, List.mem_append_right _ (List.mem_singleton_self path), List.append_cancel_left he⟩
    · obtain ⟨hlink, p, hp, rfl⟩ := h.nodes m hm y hy
      exact ⟨hlink, p, List.mem_append_left _ hp, rfl⟩
  · intro p hp
    rcases List.mem_append.mp hp with hp | hp
    · exact hkeep _ (h.there p hp)
    · rw [List.mem_singleton.mp hp, hnode, if_pos rfl]
      exact Option.some_ne_none x
  · intro p mode hp
    obtain ⟨hcreated, hdir⟩ := h.directories p mode hp
    exact ⟨List.mem_append_left _ hcreated, hgrows.isDirectory hdir⟩
  · intro p hp a ha
    rcases List.mem_append.mp hp with hp | hp
    · obtain ⟨hcreated, hdir⟩ := h.parents p hp a ha
      exact ⟨List.mem_append_left _ hcreated, hgrows.isDirectory hdir⟩
    · rw [List.mem_singleton.mp hp] at ha
      obtain ⟨hcreated, hdir⟩ := hway a ha
      exact ⟨List.mem_append_left _ hcreated, hgrows.isDirectory hdir⟩

/-- what is there keeps its kind -/
theorem Confined.change (h : Confined host root tree created entries pending) {p : String}
    {f : Node → Node} (hf : ∀ x, (f x).isDirectory = x.isDirectory)
    (hlink : ∀ x, (∀ target, x ≠ .symlink target) → ∀ target, f x ≠ .symlink target)
    (hnode : ∀ k, tree'.node k = if k = root ++ split p.toList then (tree.node k).map f else tree.node k) :
    Confined host root tree' created entries pending := by
  have hdir : ∀ l, tree'.isDirectory l = tree.isDirectory l := by
    intro l
    rw [FileTree.isDirectory, FileTree.isDirectory, hnode]
    split
    · rw [Option.any_map]
      exact congrArg (fun g => (tree.node l).any g) (funext hf)
    · rfl
  refine ⟨h.safe, h.nodup, ?_, ?_, ?_, ?_, ?_, ?_, h.pending⟩
  · rw [hdir]
    exact h.directory
  · intro l hl
    rw [hnode, if_neg (hl _ (split_ne_nil _))]
    exact h.outside l hl
  · intro m hm y hy
    rw [hnode] at hy
    split at hy
    · obtain ⟨x, hx, rfl⟩ := Option.map_eq_some_iff.mp hy
      obtain ⟨hnolink, hcreated⟩ := h.nodes m hm x hx
      exact ⟨hlink x hnolink, hcreated⟩
    · exact h.nodes m hm y hy
  · intro q hq
    rw [hnode]
    split
    · rw [Ne, Option.map_eq_none_iff]
      exact h.there q hq
    · exact h.there q hq
  · intro q mode hq
    rw [hdir]
    exact h.directories q mode hq
  · intro q hq a ha
    rw [hdir]
    exact h.parents q hq a ha

theorem Confined.append (h : Confined host root tree created entries pending) (p : String)
    (data : List UInt8) :
    Confined host root (tree.append (root ++ split p.toList) data) created entries pending := by
  refine h.change (f := Node.append data) (fun x => ?_) (fun x hx target => ?_) fun _ => rfl
  · cases x <;> rfl
  · cases x with
    | symlink t => exact absurd rfl (hx t)
    | file bytes mode => exact Node.noConfusion
    | directory mode => exact Node.noConfusion

theorem Confined.setMode (h : Confined host root tree created entries pending) (p : String)
    (mode : Nat) :
    Confined host root (tree.setMode (root ++ split p.toList) mode) created entries pending := by
  refine h.change (f := Node.setMode mode) (fun x => ?_) (fun x hx target => ?_) fun _ => rfl
  · cases x <;> rfl
  · cases x with
    | symlink t => exact absurd rfl (hx t)
    | file bytes m => exact Node.noConfusion
    | directory m => exact Node.noConfusion

theorem Confined.setPending (h : Confined host root tree created entries pending)
    {file : Option PendingFile} (hfile : ∀ f, file = some f →
      f.path ∈ created ∧ f.file = root ++ split f.path.toList) :
    Confined host root tree created entries file :=
  ⟨h.safe, h.nodup, h.directory, h.outside, h.nodes, h.there, h.directories, h.parents, hfile⟩

theorem Confined.insert (h : Confined host root tree created entries pending) {entry : Workspace.Entry}
    (hentry : ∀ mode, entry = .directory mode →
      path ∈ created ∧ tree.isDirectory (root ++ split path.toList) = true) :
    Confined host root tree created (entries.insert path entry) pending := by
  refine ⟨h.safe, h.nodup, h.directory, h.outside, h.nodes, h.there, fun p mode hp => ?_, h.parents,
    h.pending⟩
  rw [Std.ExtTreeMap.getElem?_insert] at hp
  split at hp
  · rename_i heq
    rw [← Std.LawfulEqCmp.eq_of_compare heq]
    exact hentry mode (Option.some.inj hp)
  · exact h.directories p mode hp

end

/-! ## what a frame keeps -/

/-- the bytes that are still to come for the open file -/
def Session.left (s : Session) : Nat := (s.receiver.pending.map PendingFile.left).getD 0

/-- the files that are open, one or none -/
def Session.opened (s : Session) : Nat := if s.receiver.pending.isSome then 1 else 0

/-- what holds while frames are taken -/
structure Live (host : FileTree) (start : Receiver) (s : Session) : Prop where
  root : s.receiver.root = start.root
  limits : s.receiver.limits = start.limits
  outputLimit : s.receiver.outputLimit = start.outputLimit
  confined : Confined host start.root s.tree s.created s.receiver.report.entries s.receiver.pending
  fresh : ∀ file, s.receiver.pending = some file → file.path ∉ s.receiver.report.entries
  budget : s.written + s.left ≤ start.limits.workspaceBytes
  announced : s.written + s.left ≤ s.receiver.fileBytes
  count : s.receiver.report.entries.size + s.opened ≤ start.limits.workspaceInodes - 1
  paths : s.created.length ≤ s.receiver.report.entries.size + s.opened
  output : s.receiver.report.stdout.length + s.receiver.report.stderr.length ≤ start.outputLimit

/-- what holds even after a file operation of the host has failed -/
structure Safe (host : FileTree) (start : Receiver) (s : Session) : Prop where
  confined : Confined host start.root s.tree s.created s.receiver.report.entries s.receiver.pending
  bytes : s.written ≤ start.limits.workspaceBytes
  entries : s.receiver.report.entries.size ≤ start.limits.workspaceInodes - 1
  paths : s.created.length ≤ start.limits.workspaceInodes - 1
  output : s.receiver.report.stdout.length + s.receiver.report.stderr.length ≤ start.outputLimit

/-- every byte that was announced was written, or is still to come -/
def Session.Exact (s : Session) : Prop := s.receiver.fileBytes = s.written + s.left

/-- a frame leaves a safe session, and one that can go on unless the host has failed -/
structure Kept (host : FileTree) (start : Receiver) (s : Session) (result : Result) : Prop where
  safe : Safe host start result.2
  live : result.1 ≠ .error .io → Live host start result.2
  exact : result.1 = .ok () → s.Exact → result.2.Exact

section
variable [Sha256] {decoder : Decoder} {io : HostIo} {data : List UInt8} {host : FileTree}
  {start : Receiver} {s t : Session}
variable {path : String}

theorem Live.safe (h : Live host start s) : Safe host start s where
  confined := h.confined
  bytes := (Nat.le_add_right _ _).trans h.budget
  entries := (Nat.le_add_right _ _).trans h.count
  paths := h.paths.trans h.count
  output := h.output

theorem Live.taken (h : Live host start t) (hexact : s.Exact → t.Exact) : Kept host start s (.ok (), t) :=
  ⟨h.safe, fun _ => h, fun _ => hexact⟩

theorem Live.stopped (h : Live host start t) (error : RuntimeError) :
    Kept host start s (.error error, t) :=
  ⟨h.safe, fun _ => h, fun hok => (nomatch hok)⟩

theorem Live.refused (h : Live host start t) (text : String) :
    Kept host start s (Runtime.refused text t) := h.stopped _

attribute [grind =] Session.left Session.opened

theorem Live.counters (h : Live host start s) {r : Receiver}
    (hroot : r.root = s.receiver.root) (hlimits : r.limits = s.receiver.limits)
    (houtput : r.outputLimit = s.receiver.outputLimit)
    (hentries : r.report.entries = s.receiver.report.entries)
    (hpending : r.pending = s.receiver.pending) (hbytes : s.receiver.fileBytes ≤ r.fileBytes)
    (hlength : r.report.stdout.length + r.report.stderr.length ≤ start.outputLimit) :
    Live host start { s with receiver := r } := by
  have hleft : Session.left { s with receiver := r } = s.left := by
    rw [Session.left, Session.left, hpending]
  have hopened : Session.opened { s with receiver := r } = s.opened := by
    rw [Session.opened, Session.opened, hpending]
  refine ⟨hroot.trans h.root, hlimits.trans h.limits, houtput.trans h.outputLimit, ?_, ?_, ?_, ?_, ?_, ?_,
    hlength⟩
  · show Confined host start.root s.tree s.created r.report.entries r.pending
    rw [hentries, hpending]
    exact h.confined
  · show ∀ file, r.pending = some file → file.path ∉ r.report.entries
    rw [hentries, hpending]
    exact h.fresh
  · rw [hleft]
    exact h.budget
  · rw [hleft]
    exact h.announced.trans hbytes
  · show r.report.entries.size + _ ≤ _
    rw [hentries, hopened]
    exact h.count
  · show s.created.length ≤ r.report.entries.size + _
    rw [hentries, hopened]
    exact h.paths

theorem helloFrame_kept (h : Live host start s) : Kept host start s (helloFrame decoder data s) := by
  unfold helloFrame
  split
  · exact h.refused _
  · split
    · exact h.refused _
    · split
      · exact h.refused _
      · split
        · exact h.refused _
        · refine Live.taken ?_ fun hexact => hexact
          exact h.counters rfl rfl rfl rfl rfl le_rfl h.output

theorem outputFrame_kept (h : Live host start s) (kind : UInt8) :
    Kept host start s (outputFrame data s kind) := by
  unfold outputFrame
  split
  · exact h.refused _
  · split
    · exact h.refused _
    · rename_i hlimit
      rw [h.outputLimit] at hlimit
      split
      · refine Live.taken (h.counters rfl rfl rfl rfl rfl (Nat.le_refl _) ?_) fun hexact => hexact
        show (s.receiver.report.stdout ++ data).length + s.receiver.report.stderr.length ≤ _
        rw [List.length_append]
        omega
      · refine Live.taken (h.counters rfl rfl rfl rfl rfl (Nat.le_refl _) ?_) fun hexact => hexact
        show s.receiver.report.stdout.length + (s.receiver.report.stderr ++ data).length ≤ _
        rw [List.length_append]
        omega

theorem completeFrame_kept (h : Live host start s) :
    Kept host start s (completeFrame decoder data s) := by
  unfold completeFrame
  split
  · exact h.refused _
  · split
    · exact h.refused _
    · split
      · exact h.refused _
      · refine Live.taken ?_ fun hexact => hexact
        exact h.counters rfl rfl rfl rfl rfl le_rfl h.output

attribute [grind =] Session.Exact

/-- an open file that is complete gets its mode, and becomes an entry -/
theorem finishFile_kept (h : Live host start s) (hleft : s.left = 0) :
    Kept host start s (finishFile io s) := by
  unfold finishFile
  cases hpending : s.receiver.pending with
  | none => exact h.refused _
  | some file =>
    obtain ⟨hcreated, -⟩ := h.confined.pending file hpending
    have hdropped : Safe host start (s.setPending none) :=
      ⟨h.confined.setPending fun _ hf => (nomatch hf), h.safe.bytes, h.safe.entries, h.safe.paths,
        h.safe.output⟩
    have hfailed : Kept host start s (.error .io, s.setPending none) :=
      ⟨hdropped, fun hne => absurd rfl hne, fun hok => (nomatch hok)⟩
    simp only
    split
    · exact hfailed
    · split
      · exact hfailed
      · rename_i l hl
        -- the path leads to the file that was created under it
        have hsolid : Solid s.tree (start.root ++ split file.path.toList) := by
          obtain ⟨x, hx⟩ := Option.ne_none_iff_exists'.mp (h.confined.there _ hcreated)
          exact ⟨x, hx, (h.confined.nodes _ (split_ne_nil _) x hx).1⟩
        have hresolve : resolve s.tree s.receiver.root file.path.toList =
            some (start.root ++ split file.path.toList) := by
          rw [h.root]
          exact resolve_named (h.confined.safe _ hcreated) h.confined.directory
            (fun a ha => (h.confined.parents _ hcreated a ha).2) hsolid
        have hl : (if io.setPermissions = true then resolve s.tree s.receiver.root file.path.toList
          else none) = some l := hl
        rw [hresolve] at hl
        split at hl
        · cases hl
          have hsize : (s.receiver.report.entries.insert file.path (.file (Digest.of file.hashed)
              file.mode)).size = s.receiver.report.entries.size + 1 := by
            refine Std.ExtTreeMap.size_insert.trans (if_neg fun hin => ?_)
            exact h.fresh file hpending (Std.ExtTreeMap.mem_iff_contains.mpr hin)
          have hopened : s.opened = 1 := by
            rw [Session.opened, hpending]
            rfl
          have hcount := h.count
          have hpaths := h.paths
          have hbudget := h.budget
          have hannounced := h.announced
          rw [hopened] at hcount hpaths
          rw [hleft, Nat.add_zero] at hbudget hannounced
          refine Live.taken ⟨h.root, h.limits, h.outputLimit, ?_, ?_, hbudget, hannounced, ?_, ?_,
            h.output⟩ fun hexact => ?_
          · have hclosed : Confined host start.root s.tree s.created s.receiver.report.entries none :=
              h.confined.setPending fun _ hf => (nomatch hf)
            refine (hclosed.setMode file.path file.mode).insert fun mode he => ?_
            cases he
          · intro f hf
            cases hf
          · exact hsize.le.trans hcount
          · exact hpaths.trans hsize.ge
          · rw [Session.Exact, hleft] at hexact
            exact hexact
        · cases hl

theorem dataFrame_kept (h : Live host start s) : Kept host start s (dataFrame io data s) := by
  unfold dataFrame
  cases hpending : s.receiver.pending with
  | none => exact h.refused _
  | some file =>
    obtain ⟨hcreated, hfile⟩ := h.confined.pending file hpending
    have hleft : s.left = file.left := by
      rw [Session.left, hpending]
      rfl
    have hbudget := h.budget
    have hannounced := h.announced
    rw [hleft] at hbudget hannounced
    simp only
    split
    · exact h.refused _
    · rename_i hfits
      rw [not_or, not_or] at hfits
      split
      · rename_i n _
        -- the write has failed: what it has written is no more than what was still to come
        have htake : (data.take n).length ≤ data.length := List.length_take_le' _ _
        refine ⟨⟨?_, ?_, h.safe.entries, h.safe.paths, h.safe.output⟩, fun hne => absurd rfl hne,
          fun hok => (nomatch hok)⟩
        · show Confined host start.root (s.tree.append file.file _) _ _ _
          rw [hfile]
          exact h.confined.append _ _
        · show s.written + (data.take n).length ≤ _
          omega
      · have hopened : s.opened = 1 := by
          rw [Session.opened, hpending]
          rfl
        have hlive : Live host start ((s.append file.file data).setPending (some { file with
            hashed := file.hashed ++ data
            left := file.left - data.length })) := by
          refine ⟨h.root, h.limits, h.outputLimit, ?_, ?_, ?_, ?_, ?_, ?_, h.output⟩
          · show Confined host start.root (s.tree.append file.file data) _ _ _
            rw [hfile]
            refine (h.confined.append file.path data).setPending fun f hf => ?_
            cases hf
            exact ⟨hcreated, rfl⟩
          · intro f hf
            cases hf
            exact h.fresh file hpending
          · show s.written + data.length + (file.left - data.length) ≤ _
            omega
          · show s.written + data.length + (file.left - data.length) ≤ _
            exact le_trans (by omega) hannounced
          · have hcount := h.count
            rw [hopened] at hcount
            exact hcount
          · have hpaths := h.paths
            rw [hopened] at hpaths
            exact hpaths
        have hexact : s.Exact → ((s.append file.file data).setPending (some { file with
            hashed := file.hashed ++ data
            left := file.left - data.length })).Exact := by
          intro hexact
          rw [Session.Exact, hleft] at hexact
          show s.receiver.fileBytes = s.written + data.length + (file.left - data.length)
          omega
        split
        · rename_i hzero
          have hdone := @finishFile_kept _ io _ _ _ hlive hzero
          exact ⟨hdone.safe, hdone.live, fun hok hs => hdone.exact hok (hexact hs)⟩
        · exact hlive.taken hexact

theorem size_insert {entries : BTreeMap String Workspace.Entry} (h : path ∉ entries) (e : Workspace.Entry) :
    (entries.insert path e).size = entries.size + 1 :=
  Std.ExtTreeMap.size_insert.trans (if_neg fun hin => h (Std.ExtTreeMap.mem_iff_contains.mpr hin))

/-- an entry of the tree that has passed the checks of its path -/
structure Admitted (s : Session) (path : String) : Prop where
  closed : s.receiver.pending = none
  safe : Runtime.safe path = true
  fresh : path ∉ s.receiver.report.entries
  parents : ∀ a ∈ Snapshot.parentsOf path, isDirectory s.receiver.report.entries[a]? = true
  room : s.receiver.report.entries.size + 1 ≤ s.receiver.limits.workspaceInodes - 1

theorem makeNew_ok (h : Live host start s) (hadmitted : Admitted s path) {b : Bool} {x : Node}
    {l : Location} (hmake : s.makeNew b x path = some (l, t)) :
    l = start.root ++ split path.toList ∧ ∃ tree, s.tree.add l x = some tree ∧
      t = { s with tree := tree, created := s.created ++ [path] } := by
  obtain ⟨k, hk, hmake⟩ := Option.bind_eq_some_iff.mp hmake
  obtain ⟨tree, htree, hmake⟩ := Option.bind_eq_some_iff.mp hmake
  rw [h.root, resolveNew_named hadmitted.safe h.confined.directory fun a ha =>
    (h.confined.way hadmitted.parents a ha).2] at hk
  cases hk
  split at hmake
  · cases hmake
    exact ⟨rfl, tree, htree, rfl⟩
  · cases hmake

theorem Admitted.left (hadmitted : Admitted s path) : s.left = 0 := by
  rw [Session.left, hadmitted.closed]
  rfl

theorem Admitted.opened {path : String} (hadmitted : Admitted s path) : s.opened = 0 := by
  rw [Session.opened, hadmitted.closed]
  rfl

theorem Live.listed (h : Live host start s) (hadmitted : Admitted s path) {tree : FileTree}
    {created : List String} {entry : Workspace.Entry}
    (hconfined : Confined host start.root tree created (s.receiver.report.entries.insert path entry) none)
    (hlength : created.length ≤ s.created.length + 1) :
    Live host start (Session.insertEntry path entry { s with tree := tree, created := created }) := by
  have hsize := size_insert hadmitted.fresh entry
  have hopened := hadmitted.opened
  have hpaths := h.paths
  have hroom := hadmitted.room
  rw [hopened] at hpaths
  rw [h.limits] at hroom
  refine ⟨h.root, h.limits, h.outputLimit, ?_, ?_, h.budget, h.announced, ?_, ?_, h.output⟩
  · show Confined host start.root tree created (s.receiver.report.entries.insert path entry)
      s.receiver.pending
    rw [hadmitted.closed]
    exact hconfined
  · intro file hfile
    cases hadmitted.closed.symm.trans hfile
  · show (s.receiver.report.entries.insert path entry).size + s.opened ≤ _
    rw [hsize, hopened]
    exact hroom
  · show created.length ≤ (s.receiver.report.entries.insert path entry).size + s.opened
    rw [hsize, hopened]
    omega

def Session.openFile (root : Location) (tree : FileTree) (path : String) (mode bytes : Nat) (s : Session) :
    Session :=
  Session.setPending (some ⟨path, root ++ split path.toList, mode, bytes, []⟩)
    { s.setFileBytes (s.receiver.fileBytes + bytes) with tree := tree, created := s.created ++ [path] }

theorem Live.openFile (h : Live host start s) (hadmitted : Admitted s path) (mode : Nat)
    {tree : FileTree} {bytes : Nat}
    (hadded : Confined host start.root tree (s.created ++ [path]) s.receiver.report.entries none)
    (hlimit : s.receiver.fileBytes + bytes ≤ start.limits.workspaceBytes) :
    Live host start (s.openFile start.root tree path mode bytes) := by
  have hannounced := h.announced
  have hpaths := h.paths
  have hroom := hadmitted.room
  rw [hadmitted.left] at hannounced
  rw [hadmitted.opened] at hpaths
  rw [h.limits] at hroom
  refine ⟨h.root, h.limits, h.outputLimit, ?_, ?_, ?_, ?_, ?_, ?_, h.output⟩
  · refine hadded.setPending fun f hf => ?_
    cases hf
    exact ⟨List.mem_append_right _ (List.mem_singleton_self path), rfl⟩
  · intro f hf
    cases hf
    exact hadmitted.fresh
  · show s.written + bytes ≤ _
    omega
  · show s.written + bytes ≤ s.receiver.fileBytes + bytes
    omega
  · exact hroom
  · show (s.created ++ [path]).length ≤ _ + 1
    rw [List.length_append, List.length_singleton]
    exact Nat.succ_le_succ hpaths

theorem Session.Exact.openFile (hexact : s.Exact) (hleft : s.left = 0) (root : Location)
    (tree : FileTree) (path : String) (mode bytes : Nat) :
    (s.openFile root tree path mode bytes).Exact := by
  rw [Session.Exact, hleft] at hexact
  show s.receiver.fileBytes + bytes = s.written + bytes
  omega

theorem placeEntry_directory (h : Live host start s) (mode : Nat) (hadmitted : Admitted s path) :
    Kept host start s (placeEntry io s (.directory path mode)) := by
  rw [placeEntry]
  split
  · exact h.refused _
  · split
    · exact h.stopped _
    · rename_i l t hmake
      obtain ⟨rfl, tree, hadd, rfl⟩ := makeNew_ok h hadmitted hmake
      have hadded := (hadmitted.closed ▸ h.confined).add hadmitted.safe hadmitted.parents
        (fun _ => Node.noConfusion) hadd
      refine Live.taken (h.listed hadmitted (hadded.insert fun _ _ => ?_) ?_) fun hexact => hexact
      · refine ⟨List.mem_append_right _ (List.mem_singleton_self path), ?_⟩
        rw [FileTree.isDirectory, (FileTree.add_spec hadd).2.1]
        rfl
      · rw [List.length_append, List.length_singleton]

theorem placeEntry_symlink (h : Live host start s) (target : String) (hadmitted : Admitted s path) :
    Kept host start s (placeEntry io s (.symlink path target)) := by
  have hconfined : Confined host start.root s.tree s.created s.receiver.report.entries none :=
    hadmitted.closed ▸ h.confined
  rw [placeEntry]
  split
  · exact h.refused _
  · refine Live.taken (h.listed hadmitted (hconfined.insert fun _ he => ?_) (Nat.le_succ _))
      fun hexact => hexact
    exact Workspace.Entry.noConfusion he

theorem placeEntry_file (h : Live host start s) (mode bytes : Nat) (hadmitted : Admitted s path) :
    Kept host start s (placeEntry io s (.file path mode bytes)) := by
  have hcounted : Live host start (s.setFileBytes (s.receiver.fileBytes + bytes)) :=
    h.counters rfl rfl rfl rfl rfl (Nat.le_add_right _ _) h.output
  rw [placeEntry]
  split
  · exact h.refused _
  · split
    · exact h.refused _
    · simp only
      split
      · exact hcounted.refused _
      · rename_i hlimit
        have hlimit : ¬ s.receiver.limits.workspaceBytes < s.receiver.fileBytes + bytes := hlimit
        rw [h.limits] at hlimit
        split
        · exact hcounted.stopped _
        · rename_i l t hmake
          have hadmitted' : Admitted (s.setFileBytes (s.receiver.fileBytes + bytes)) path :=
            ⟨hadmitted.closed, hadmitted.safe, hadmitted.fresh, hadmitted.parents, hadmitted.room⟩
          obtain ⟨rfl, tree, hadd, rfl⟩ := makeNew_ok hcounted hadmitted' hmake
          have hadded := (hadmitted.closed ▸ h.confined).add hadmitted.safe hadmitted.parents
            (fun _ => Node.noConfusion) hadd
          have hlive := h.openFile hadmitted mode hadded (Nat.not_lt.mp hlimit)
          have hexact := fun hs : s.Exact =>
            hs.openFile hadmitted.left start.root tree path mode bytes
          split
          · rename_i hzero
            have hdone := @finishFile_kept _ io _ _ _ hlive hzero
            exact ⟨hdone.safe, hdone.live, fun hok hs => hdone.exact hok (hexact hs)⟩
          · exact hlive.taken hexact

theorem placeEntry_kept (h : Live host start s) {entry : WireEntry} (hadmitted : Admitted s entry.path) :
    Kept host start s (placeEntry io s entry) := by
  cases entry with
  | directory path mode => exact placeEntry_directory h mode hadmitted
  | symlink path target => exact placeEntry_symlink h target hadmitted
  | file path mode bytes => exact placeEntry_file h mode bytes hadmitted

theorem entryFrame_kept (h : Live host start s) :
    Kept host start s (entryFrame decoder io data s) := by
  unfold entryFrame
  split
  · exact h.refused _
  · rename_i hopen
    rw [not_or] at hopen
    have hcounted : Live host start { s with receiver := { s.receiver with
        metadataBytes := s.receiver.metadataBytes + data.length } } :=
      h.counters rfl rfl rfl rfl rfl (Nat.le_refl _) h.output
    simp only
    split
    · exact hcounted.refused _
    · rename_i hmetadata
      rw [not_or] at hmetadata
      split
      · exact hcounted.refused _
      · rename_i entry _
        split
        · exact hcounted.refused _
        · rename_i hpath
          rw [not_or] at hpath
          split
          · exact hcounted.refused _
          · rename_i hparents
            have hadmitted : Admitted { s with receiver := { s.receiver with
                metadataBytes := s.receiver.metadataBytes + data.length } } entry.path := by
              refine ⟨Option.not_isSome_iff_eq_none.mp hopen.2, Bool.of_not_eq_false hpath.1, fun hin => ?_,
                fun a ha => ?_, ?_⟩
              · exact hpath.2 (Std.ExtTreeMap.mem_iff_contains.mp hin)
              · by_contra hdir
                exact hparents (List.any_eq_true.mpr ⟨a, ha, by simpa using hdir⟩)
              · exact Nat.succ_le_of_lt (Nat.not_le.mp hmetadata.2)
            have hplaced := @placeEntry_kept _ io _ _ _ hcounted _ hadmitted
            exact ⟨hplaced.safe, hplaced.live, fun hok hs => hplaced.exact hok hs⟩

/-- **Whatever a frame is, it leaves a safe session.** -/
theorem frame_kept (decoder : Decoder) (io : HostIo) (h : Live host start s) (f : Frame) :
    Kept host start s (Receiver.frame decoder io s f) := by
  unfold Receiver.frame
  split
  · exact h.refused _
  · split
    · exact h.refused _
    · split
      · exact helloFrame_kept h
      · split
        · exact outputFrame_kept h _
        · split
          · exact entryFrame_kept h
          · split
            · exact dataFrame_kept h
            · split
              · exact completeFrame_kept h
              · exact h.refused _

/-! ## any frames -/

/-- the sessions that frames lead to; `clean` as long as every frame was taken.  The receiver is given
no more frames once a file operation of the host has failed. -/
inductive Fed (decoder : Decoder) (start : Session) : Bool → Session → Prop
  | start : Fed decoder start true start
  | taken {clean : Bool} {s t : Session} {io : HostIo} {f : Frame} (hs : Fed decoder start clean s)
      (hframe : Receiver.frame decoder io s f = (.ok (), t)) : Fed decoder start clean t
  | refused {clean : Bool} {s t : Session} {io : HostIo} {f : Frame} {text : String}
      (hs : Fed decoder start clean s)
      (hframe : Receiver.frame decoder io s f = (.error (.setup text), t)) : Fed decoder start false t

/-- a transfer into an empty directory of the host -/
def Session.begin (host : FileTree) (receiver : Receiver) : Session := ⟨receiver, host, [], 0⟩

theorem Live.begin {root : Location} (h : Incoming host root) (nonce jobId : String) (readonly : Bool)
    (limits : ExecutionLimits) (outputLimit : Nat) :
    Live host (.new root nonce jobId readonly limits outputLimit)
      (.begin host (.new root nonce jobId readonly limits outputLimit)) where
  root := rfl
  limits := rfl
  outputLimit := rfl
  confined := h.confined
  fresh := fun _ hf => (nomatch hf)
  budget := Nat.zero_le _
  announced := Nat.zero_le _
  count := by
    show (∅ : BTreeMap String Workspace.Entry).size + 0 ≤ _
    rw [Std.ExtTreeMap.size_empty]
    exact Nat.zero_le _
  paths := Nat.zero_le _
  output := Nat.zero_le _

theorem Fed.live {clean : Bool} (hstart : Live host start s) (hexact : s.Exact) (h : Fed decoder s clean t) :
    Live host start t ∧ (clean = true → t.Exact) := by
  induction h with
  | start => exact ⟨hstart, fun _ => hexact⟩
  | @taken _ _ _ io f hs hframe ih =>
    obtain ⟨hlive, hclean⟩ := ih
    have hkept := frame_kept decoder io hlive f
    rw [hframe] at hkept
    exact ⟨hkept.live fun he => (by cases he), fun hc => hkept.exact rfl (hclean hc)⟩
  | @refused _ _ _ io f _ hs hframe ih =>
    have hkept := frame_kept decoder io ih.1 f
    rw [hframe] at hkept
    exact ⟨hkept.live fun he => (by cases he), fun hc => (by cases hc)⟩

theorem Fed.safe {root : Location} {nonce jobId : String} {readonly : Bool} {limits : ExecutionLimits}
    {outputLimit : Nat} {clean : Bool} (hincoming : Incoming host root)
    (hfed : Fed decoder (.begin host (.new root nonce jobId readonly limits outputLimit)) clean s) :
    Safe host (.new root nonce jobId readonly limits outputLimit) s ∧ ∀ (io : HostIo) (f : Frame),
      Safe host (.new root nonce jobId readonly limits outputLimit) (Receiver.frame decoder io s f).2 := by
  have hlive := (hfed.live (Live.begin hincoming nonce jobId readonly limits outputLimit) rfl).1
  exact ⟨hlive.safe, fun io f => (frame_kept decoder io hlive f).safe⟩

theorem completeFrame_ok (h : (completeFrame decoder data s).1 = .ok ()) :
    s.receiver.pending = none ∧ ∃ complete, decoder.complete data = some complete ∧
      complete.entries = s.receiver.report.entries.size ∧ complete.bytes = s.receiver.fileBytes := by
  unfold completeFrame at h
  split at h
  · cases h
  · rename_i hpending
    split at h
    · cases h
    · rename_i complete hcomplete
      split at h
      · cases h
      · rename_i hchecks
        simp only [not_or, not_not] at hchecks
        exact ⟨Option.not_isSome_iff_eq_none.mp hpending, complete, hcomplete, hchecks.2.2.2.1,
          hchecks.2.2.2.2.1⟩

theorem frame_complete (h : (Receiver.frame decoder io s ⟨Wire.complete, data⟩).1 = .ok ()) :
    (completeFrame decoder data s).1 = .ok () := by
  unfold Receiver.frame at h
  split at h
  · cases h
  · split at h
    · cases h
    · exact h

theorem frame_completed (h : s.receiver.report.complete.isSome = true) (f : Frame) :
    Receiver.frame decoder io s f = refused "data after executor completion" s := if_pos h

/-- **Whatever frames a guest sends: all that the receiver creates stands below its root, each thing
once, in directories that it has created itself, and without a link; bytes, entries and output stay
within their limits; a transfer is completed only when no file is open and the counts are right, and
nothing is taken afterwards.** -/
theorem receiver_confined (decoder : Decoder) {host : FileTree} {root : Location}
    (hincoming : Incoming host root) (nonce jobId : String) (readonly : Bool) (limits : ExecutionLimits)
    (outputLimit : Nat) {clean : Bool} {s : Session}
    (hfed : Fed decoder (.begin host (.new root nonce jobId readonly limits outputLimit)) clean s) :
    Safe host (.new root nonce jobId readonly limits outputLimit) s ∧
      ∀ (io : HostIo) (f : Frame),
        Safe host (.new root nonce jobId readonly limits outputLimit)
          (Receiver.frame decoder io s f).2 ∧
        (s.receiver.report.complete.isSome = true → (Receiver.frame decoder io s f).1 ≠ .ok ()) ∧
        (f.kind = Wire.complete → (Receiver.frame decoder io s f).1 = .ok () →
          s.receiver.pending = none ∧ ∃ complete, decoder.complete f.data = some complete ∧
            complete.entries = s.receiver.report.entries.size ∧
            complete.bytes = s.receiver.fileBytes ∧ (clean = true → complete.bytes = s.written)) := by
  obtain ⟨hlive, hexact⟩ := hfed.live (Live.begin hincoming nonce jobId readonly limits outputLimit) rfl
  refine ⟨hlive.safe, fun io f => ⟨(frame_kept decoder io hlive f).safe, fun hcomplete => ?_, fun hkind hok => ?_⟩⟩
  · rw [frame_completed hcomplete]
    exact fun he => (nomatch he)
  · obtain ⟨kind, data⟩ := f
    cases hkind
    obtain ⟨hpending, complete, hdecoded, hentries, hbytes⟩ := completeFrame_ok (frame_complete hok)
    refine ⟨hpending, complete, hdecoded, hentries, hbytes, fun hclean => ?_⟩
    have hleft : s.left = 0 := by
      rw [Session.left, hpending]
      rfl
    have hsum := hexact hclean
    rw [Session.Exact, hleft] at hsum
    exact hbytes.trans hsum

end

namespace ReceiverSample

scoped instance sha256 : Sha256 := Sha256.standard

def decoder : Decoder where
  hello := fun _ => some ⟨Wire.version, "job", "nonce", 0, 1000, false, some ⟨1024, 1024, 16, 15⟩⟩
  entry := fun data => some (if data = [0] then .directory "out" 0o755 else .file "out/a" 0o644 3)
  complete := fun _ => some ⟨Wire.version, "nonce", .exited 0, true, 2, 3, true⟩

def start : Session :=
  .begin (FileTree.root 0o755) (.new [] "nonce" "job" false ⟨1024, 16⟩ 128)

/-- the frames one after the other, as long as each is taken -/
def transfer : Session → List Frame → Option Session
  | s, [] => some s
  | s, f :: fs =>
    match Receiver.frame decoder .good s f with
    | (.ok (), t) => transfer t fs
    | (.error _, _) => none

theorem fed_transfer {s t : Session} {fs : List Frame} (hs : Fed decoder start true s)
    (h : transfer s fs = some t) : Fed decoder start true t := by
  induction fs generalizing s with
  | nil => exact Option.some.inj h ▸ hs
  | cons f fs ih =>
    rw [transfer] at h
    split at h
    · rename_i u hframe
      exact ih (.taken hs hframe) h
    · cases h

/-- the command prints two bytes, and its workspace has one file; the content comes in two frames -/
def frames : List Frame :=
  [⟨Wire.hello, []⟩, ⟨Wire.stdout, [111, 107]⟩, ⟨Wire.entry, [0]⟩, ⟨Wire.entry, [1]⟩,
    ⟨Wire.fileData, [1, 2]⟩, ⟨Wire.fileData, [3]⟩, ⟨Wire.complete, []⟩]

end ReceiverSample

open ReceiverSample

theorem receiver_confined_transfer :
    ∃ s, transfer start frames = some s ∧ s.created = ["out", "out/a"] ∧ s.written = 3 ∧
      s.receiver.report.stdout = [111, 107] ∧
      Safe (FileTree.root 0o755) (.new [] "nonce" "job" false ⟨1024, 16⟩ 128) s ∧
      ∀ (io : HostIo) (f : Frame), (Receiver.frame decoder io s f).1 ≠ .ok () := by
  have hincoming : Incoming (FileTree.root 0o755) [] :=
    ⟨by decide, fun m hm => if_neg hm⟩
  have hrun : ((transfer start frames).map fun s => (s.created, s.written, s.receiver.report.stdout,
      s.receiver.report.complete.isSome)) = some (["out", "out/a"], 3, [111, 107], true) := by
    decide +kernel
  obtain ⟨s, hs, hseen⟩ := Option.map_eq_some_iff.mp hrun
  simp only [Prod.mk.injEq] at hseen
  obtain ⟨hcreated, hwritten, hstdout, hcomplete⟩ := hseen
  obtain ⟨hsafe, hnext⟩ :=
    receiver_confined decoder hincoming "nonce" "job" false ⟨1024, 16⟩ 128 (fed_transfer .start hs)
  exact ⟨s, hs, hcreated, hwritten, hstdout, hsafe, fun io f => (hnext io f).2.1 hcomplete⟩

end Orvek.Runtime
