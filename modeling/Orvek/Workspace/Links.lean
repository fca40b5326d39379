import Orvek.Workspace.Snapshot

/-!
# Where the links of a materialised snapshot lead

A snapshot is accepted when the target of each link, read as a text, names one of its files or
directories.  A file system reads the same target differently: it follows a link where it meets
one, and only then takes the `..` after it.

* `Placed`                      every entry of an accepted snapshot has its node in the tree;
* `lexical`                     the reading of a target that `resolveLink` makes;
* `stepsFromDirectories`        every `..`, dot and empty segment of a target comes after a
                                directory of the snapshot;
* `materialize_contained`       the links with such a target lead to an entry of the snapshot;
* `materialize_escapes`         another link leads out of the destination.
-/

set_option linter.unusedSectionVars false

namespace Orvek.Workspace
open Paths Checks

variable {dest : Location} {e : String × Entry} {t tree : FileTree} {s : Snapshot} {parts : List Seg}

/-! ## what the checks say -/

namespace Snapshot

variable {s : Snapshot}
variable {name : String}

def dirAt (s : Snapshot) (l : List Seg) : Bool :=
  l = [] || s.entries.toList.any fun e => names e.1.toList = l && isDirectory (some e.2)

theorem mem_toList {e : Entry} : (name, e) ∈ s.entries.toList ↔ s.entries[name]? = some e :=
  Std.ExtTreeMap.mem_toList_iff_getElem?_eq_some

theorem dirAt_names (h : isDirectory s.entries[name]? = true) : s.dirAt (names name.toList) = true := by
  rw [dirAt, Bool.or_eq_true, List.any_eq_true]
  cases he : s.entries[name]? with
  | none => rw [he] at h; cases h
  | some e =>
    rw [he] at h
    exact .inr ⟨(name, e), mem_toList.mpr he, by simpa using h⟩

/-- an entry that passed -/
structure EntryChecked (s : Snapshot) (name : String) : Prop where
  safe : safeRelative name.toList = true
  parents : ∀ p ∈ parentsOf name, isDirectory s.entries[p]? = true

theorem validate_entries (h : s.validate = .ok ()) :
    ∀ e ∈ s.entries.toList, s.validateEntry e = .ok () := by
  obtain ⟨-, h⟩ := refuseIf_bind h
  obtain ⟨-, h⟩ := refuseIf_bind h
  exact checkAll_ok h

theorem validate_checked (h : s.validate = .ok ()) {e : Entry} (he : s.entries[name]? = some e) :
    s.EntryChecked name := by
  have hv := validate_entries h _ (mem_toList.mpr he)
  obtain ⟨hsafe, hv⟩ := refuseIf_bind hv
  obtain ⟨u, hp, -⟩ := bind_ok hv
  refine ⟨by simpa using hsafe, fun p hm => ?_⟩
  simpa using refuseIf_ok (checkAll_ok hp p hm)

theorem dirAt_take (hp : ∀ p ∈ parentsOf name, isDirectory s.entries[p]? = true) {n : Nat}
    (hn : n < (names name.toList).length) : s.dirAt ((names name.toList).take n) = true := by
  obtain ⟨a, ha, he⟩ := exists_ancestor hn
  by_cases h0 : a = []
  · rw [← he, h0]
    rfl
  · have hmem : String.ofList a ∈ parentsOf name :=
      List.mem_map.mpr ⟨a, List.mem_filter.mpr ⟨ha, by simpa using h0⟩, rfl⟩
    have := dirAt_names (hp _ hmem)
    rwa [String.toList_ofList, he] at this

theorem dirAt_parent (h : s.validate = .ok ()) {l : List Seg} {seg : Seg}
    (hd : s.dirAt (l ++ [seg]) = true) : s.dirAt l = true := by
  rw [dirAt, Bool.or_eq_true, List.any_eq_true] at hd
  obtain h0 | ⟨⟨name, e⟩, hm, he⟩ := hd
  · simp at h0
  · simp only [Bool.and_eq_true, decide_eq_true_eq] at he
    have hn : l.length < (names name.toList).length := by rw [he.1]; simp
    have := dirAt_take (validate_checked h (mem_toList.mp hm)).parents hn
    rwa [he.1, List.take_left] at this

end Snapshot

/-! ## the nodes of the tree -/

def Placed (dest : Location) (e : String × Entry) (tree : FileTree) : Prop :=
  match e.2 with
  | .directory _ => tree.isDirectory (dest ++ names e.1.toList) = true
  | .file _ _ => ∃ bytes mode, tree.node (dest ++ names e.1.toList) = some (.file bytes mode)
  | .symlink target => tree.node (dest ++ names e.1.toList) = some (.symlink target.toList)

theorem Placed.grows {u : FileTree} (h : Placed dest e t) (hg : t.Grows u) : Placed dest e u := by
  obtain ⟨name, entry⟩ := e
  cases entry with
  | directory mode => exact hg.isDirectory h
  | file content mode =>
    obtain ⟨bytes, m, hn⟩ := h
    obtain ⟨y, hy, hlike⟩ := hg _ _ hn
    cases y with
    | file b m' => exact ⟨b, m', hy⟩
    | directory m' => cases hlike
    | symlink target => cases hlike
  | symlink target =>
    obtain ⟨y, hy, hlike⟩ := hg _ _ h
    cases y with
    | file b m' => cases hlike
    | directory m' => cases hlike
    | symlink target' =>
      cases hlike
      exact hy

theorem orIo_ok {path : String} {x : Option FileTree} (h : Snapshot.orIo path x = .ok t) : x = some t := by
  cases x with
  | none => cases h
  | some u =>
    cases h
    rfl

theorem place_ok {artifacts : Snapshot.ArtifactReads} {readonly : Bool} {u : FileTree}
    (h : Snapshot.place artifacts readonly dest t e = .ok u) :
    t.Grows u ∧ (names e.1.toList ≠ [] → (∀ target, e.2 ≠ .symlink target) → Placed dest e u) := by
  obtain ⟨name, entry⟩ := e
  obtain ⟨-, h⟩ := refuseIf_bind h
  obtain ⟨v, hv, h⟩ := bind_ok h
  have hg := FileTree.createDirAll_grows (orIo_ok hv)
  cases entry with
  | directory mode =>
    obtain ⟨-, h⟩ := refuseIf_bind h
    exact ⟨hg.trans (FileTree.createDirAll_grows (orIo_ok h)), fun hne _ =>
      FileTree.createDirAll_isDirectory (orIo_ok h) (.inr hne)⟩
  | file content mode =>
    obtain ⟨bytes, -, h⟩ := bind_ok h
    obtain ⟨-, h⟩ := refuseIf_bind h
    obtain ⟨hg', hn, -⟩ := FileTree.add_spec (orIo_ok h)
    exact ⟨hg.trans hg', fun _ _ => ⟨bytes, _, hn⟩⟩
  | symlink target =>
    cases h
    exact ⟨hg, fun _ hns => absurd rfl (hns target)⟩

theorem link_ok {u : FileTree} (h : Snapshot.link dest t e = .ok u) :
    t.Grows u ∧ ∀ target, e.2 = .symlink target → Placed dest e u ∧ target.toList ≠ [] := by
  obtain ⟨name, entry⟩ := e
  cases entry with
  | symlink target =>
    obtain ⟨hne, h⟩ := refuseIf_bind h
    obtain ⟨-, h⟩ := refuseIf_bind h
    obtain ⟨hg, hn, -⟩ := FileTree.add_spec (orIo_ok h)
    refine ⟨hg, fun target' he => ?_⟩
    cases he
    exact ⟨hn, fun h0 => hne (.inr (.inr h0))⟩
  | file content mode =>
    cases h
    exact ⟨.refl _, fun _ he => nomatch he⟩
  | directory mode =>
    cases h
    exact ⟨.refl _, fun _ he => nomatch he⟩

theorem chmod_grows (readonly : Bool) (dest : Location) (l : List (String × Entry)) (t : FileTree) :
    t.Grows (l.foldl (Snapshot.chmod readonly dest) t) := by
  induction l generalizing t with
  | nil => exact .refl _
  | cons e l ih =>
    have hstep : t.Grows (Snapshot.chmod readonly dest t e) := by
      unfold Snapshot.chmod
      split
      · exact FileTree.setMode_grows _ _
      · exact .refl _
    exact hstep.trans (ih _)

theorem materialize_placed {host : FileTree} {artifacts : Snapshot.ArtifactReads} {readonly : Bool}
    (h : s.materialize host dest artifacts readonly = .ok tree) :
    s.validate = .ok () ∧ tree.isDirectory dest = true ∧
      ∀ e ∈ s.entries.toList, Placed dest e tree ∧
        ∀ target, e.2 = .symlink target → target.toList ≠ [] := by
  obtain ⟨u, hverify, h⟩ := bind_ok h
  obtain ⟨v, hvalid, -⟩ := bind_ok hverify
  obtain ⟨-, h⟩ := refuseIf_bind h
  obtain ⟨t0, h0, h⟩ := bind_ok h
  obtain ⟨t1, h1, h⟩ := bind_ok h
  obtain ⟨t2, h2, h⟩ := bind_ok h
  cases h
  have hroot : t0.isDirectory dest = true := by
    rw [FileTree.isDirectory, (FileTree.add_spec (orIo_ok h0)).2.1]
    rfl
  have g1 : t0.Grows t1 :=
    foldlM_rel FileTree.Grows.refl FileTree.Grows.trans (fun hs => (place_ok hs).1) h1
  have g2 : t1.Grows t2 :=
    foldlM_rel FileTree.Grows.refl FileTree.Grows.trans (fun hs => (link_ok hs).1) h2
  have g3 := (chmod_grows readonly dest s.entries.toList.reverse t2).trans
    (FileTree.setMode_grows dest (Snapshot.modeFor readonly 0o755))
  have hfiles : ∀ e ∈ s.entries.toList, (∀ target, e.2 ≠ .symlink target) → Placed dest e t1 := by
    refine foldlM_each (P := fun (e : String × Entry) t => (∀ target, e.2 ≠ .symlink target) → Placed dest e t)
      (fun hs hp hns => (hp hns).grows (place_ok hs).1) (fun hm hs => ?_) h1
    have hsafe := (Snapshot.validate_checked hvalid (Snapshot.mem_toList.mp hm)).safe
    exact (place_ok hs).2 (safeRelative_plain hsafe).2
  have hlinks : ∀ e ∈ s.entries.toList, ∀ target, e.2 = .symlink target →
      Placed dest e t2 ∧ target.toList ≠ [] :=
    foldlM_each (P := fun (e : String × Entry) t => ∀ target, e.2 = .symlink target →
        Placed dest e t ∧ target.toList ≠ [])
      (fun hs hp target he => ⟨(hp target he).1.grows (link_ok hs).1, (hp target he).2⟩)
      (fun _ hs => (link_ok hs).2) h2
  refine ⟨hvalid, (g1.trans (g2.trans g3)).isDirectory hroot, fun e he => ⟨?_, fun target ht =>
    (hlinks e he target ht).2⟩⟩
  by_cases hs : ∀ target, e.2 ≠ .symlink target
  · exact (hfiles e he hs).grows (g2.trans g3)
  · push Not at hs
    obtain ⟨target, ht⟩ := hs
    exact (hlinks e he target ht).1.grows g3

/-! ## the reading of a target -/

/-- the segments of a target, applied to the names read so far -/
def lexical : List Seg → List Seg → Option (List Seg)
  | parts, [] => some parts
  | parts, s :: segs =>
    if skipped s then lexical parts segs
    else if s = dotdot then (if parts ≠ [] then lexical parts.dropLast segs else none)
    else lexical (parts ++ [s]) segs

attribute [grind =] lexical

theorem resolveParts_body {path : String} {segs p : List Seg}
    (h : resolveParts path parts (body segs) = .ok p) : lexical parts segs = some p := by
  induction segs generalizing parts with
  | nil =>
    cases h
    rfl
  | cons s segs ih =>
    rw [body] at h
    rw [lexical]
    split at h
    · rename_i hs
      rw [if_pos hs]
      exact ih h
    · rename_i hs
      rw [if_neg hs]
      split at h
      · rename_i hd
        rw [if_pos hd]
        simp only [resolveParts] at h
        split at h
        · rename_i hne
          rw [if_pos hne]
          exact ih h
        · cases h
      · rename_i hd
        rw [if_neg hd]
        exact ih h

theorem resolveParts_components {path : String} {p : List Seg} {target : List Char}
    (h : resolveParts path parts (components target) = .ok p) (hne : target ≠ []) :
    lexical parts (split target) = some p ∧ ∀ l, FileTree.origin l (split target) = l := by
  have hjoin := join_split target
  rw [components] at h
  cases hs : split target with
  | nil => exact absurd hs (List.splitOn_ne_nil _ _)
  | cons s segs =>
    simp only [hs] at h
    split at h
    · split at h
      · rename_i h1 h2
        rw [hs, h1, h2] at hjoin
        exact absurd hjoin.symm hne
      · cases h
    · rename_i h0
      have horigin : ∀ l, FileTree.origin l (s :: segs) = l := fun l => by
        cases s with
        | nil => exact absurd rfl h0
        | cons c cs => rfl
      refine ⟨?_, horigin⟩
      split at h
      · rename_i h1
        rw [lexical, if_pos (by simp [skipped, h1])]
        exact resolveParts_body h
      · exact resolveParts_body h

def Names (l : List Seg) : Prop := ∀ s ∈ l, '/' ∉ s ∧ skipped s = false

theorem Names.names_join {l : List Seg} (h : Names l) : names (join l) = l := by
  rw [Paths.names_join fun s hs => (h s hs).1, named_of_none fun s hs => (h s hs).2]

theorem lexical_names {segs p : List Seg} (h : lexical parts segs = some p) (hparts : Names parts)
    (hsegs : ∀ s ∈ segs, '/' ∉ s) : Names p := by
  induction segs generalizing parts with
  | nil =>
    cases h
    exact hparts
  | cons s segs ih =>
    have hrest : ∀ t ∈ segs, '/' ∉ t := fun t ht => hsegs t (List.mem_cons_of_mem _ ht)
    rw [lexical] at h
    split at h
    · exact ih h hparts hrest
    · rename_i hs
      split at h
      · split at h
        · exact ih h (fun t ht => hparts t (List.dropLast_subset parts ht)) hrest
        · cases h
      · refine ih h (fun t ht => ?_) hrest
        rcases List.mem_append.mp ht with ht | ht
        · exact hparts t ht
        · cases List.mem_singleton.mp ht
          exact ⟨hsegs s List.mem_cons_self, by simpa using hs⟩

/-! ## targets that step back from directories only -/

/-- every `..`, dot and empty segment stands where the names read so far are a directory -/
def Snapshot.stepsFromDirectories (s : Snapshot) : List Seg → List Seg → Bool
  | _, [] => true
  | parts, seg :: segs =>
    if skipped seg then s.dirAt parts && s.stepsFromDirectories parts segs
    else if seg = dotdot then s.dirAt parts && s.stepsFromDirectories parts.dropLast segs
    else s.stepsFromDirectories (parts ++ [seg]) segs

section
variable {s : Snapshot} {parts segs p : List Seg}

attribute [grind =] Snapshot.stepsFromDirectories

variable {tree : FileTree}

/-- the names read so far are a directory whenever something is left to read -/
theorem dirAt_of_steps (hvalid : s.validate = .ok ()) (hlex : lexical parts segs = some p)
    (hsteps : s.stepsFromDirectories parts segs = true)
    (hp : ∀ n < p.length, s.dirAt (p.take n) = true) (hne : segs ≠ []) :
    s.dirAt parts = true := by
  induction segs generalizing parts with
  | nil => exact absurd rfl hne
  | cons seg segs ih =>
    rw [Snapshot.stepsFromDirectories] at hsteps
    rw [lexical] at hlex
    split at hsteps
    · exact (Bool.and_eq_true_iff.mp hsteps).1
    · rename_i hs
      split at hsteps
      · exact (Bool.and_eq_true_iff.mp hsteps).1
      · rename_i hd
        rw [if_neg hs, if_neg hd] at hlex
        rcases eq_or_ne segs [] with rfl | hrest
        · cases hlex
          have := hp parts.length (by simp)
          rwa [List.take_left] at this
        · exact Snapshot.dirAt_parent hvalid (ih hlex hsteps hrest)

/-- a file or a directory stands there, and no link -/
def Solid (tree : FileTree) (l : Location) : Prop :=
  ∃ x, tree.node l = some x ∧ ∀ target, x ≠ .symlink target

theorem solid_of_isDirectory {l : Location} (h : tree.isDirectory l = true) : Solid tree l := by
  unfold FileTree.isDirectory at h
  cases hx : tree.node l with
  | none => rw [hx] at h; cases h
  | some x =>
    refine ⟨x, hx, fun target he => ?_⟩
    rw [hx, he] at h
    cases h

theorem steps_name {follow : Location → List Seg → Option Location} {l : Location} {seg : Seg}
    {rest : List Seg} (hdir : tree.isDirectory l = true) (hs : skipped seg = false) (hd : seg ≠ dotdot)
    (hsolid : Solid tree (l ++ [seg])) :
    tree.steps follow l (seg :: rest) = tree.steps follow (l ++ [seg]) rest := by
  obtain ⟨x, hx, hns⟩ := hsolid
  rw [FileTree.steps, if_pos hdir, if_neg (by simp [hs]), if_neg hd, hx]
  cases x with
  | file b m => rfl
  | directory m => rfl
  | symlink target => exact absurd rfl (hns target)

/-- the walk of such a target goes where its text says, and follows no link -/
theorem steps_lexical (hvalid : s.validate = .ok ()) {dest : Location}
    (htree : ∀ l, s.dirAt l = true → tree.isDirectory (dest ++ l) = true)
    (hlex : lexical parts segs = some p) (hsteps : s.stepsFromDirectories parts segs = true)
    (hp : ∀ n < p.length, s.dirAt (p.take n) = true) (hsolid : Solid tree (dest ++ p))
    (follow : Location → List Seg → Option Location) (rest : List Seg) :
    tree.steps follow (dest ++ parts) (segs ++ rest) = tree.steps follow (dest ++ p) rest := by
  induction segs generalizing parts with
  | nil =>
    cases hlex
    rfl
  | cons seg segs ih =>
    have hdir := htree parts (dirAt_of_steps hvalid hlex hsteps hp (by simp))
    rw [Snapshot.stepsFromDirectories] at hsteps
    rw [lexical] at hlex
    rw [List.cons_append]
    split at hsteps
    · rename_i hs
      rw [if_pos hs] at hlex
      rw [FileTree.steps, if_pos hdir, if_pos hs]
      exact ih hlex (Bool.and_eq_true_iff.mp hsteps).2
    · rename_i hs
      rw [if_neg hs] at hlex
      split at hsteps
      · rename_i hd
        rw [if_pos hd] at hlex
        split at hlex
        · rename_i hne
          rw [FileTree.steps, if_pos hdir, if_neg hs, if_pos hd, List.dropLast_append_of_ne_nil hne]
          exact ih hlex (Bool.and_eq_true_iff.mp hsteps).2
        · cases hlex
      · rename_i hd
        rw [if_neg hd] at hlex
        have hnext : Solid tree (dest ++ parts ++ [seg]) := by
          rw [List.append_assoc]
          rcases eq_or_ne segs [] with rfl | hrest
          · cases hlex
            exact hsolid
          · exact solid_of_isDirectory (htree _ (dirAt_of_steps hvalid hlex hsteps hp hrest))
        rw [steps_name hdir (by simpa using hs) hd hnext, List.append_assoc]
        exact ih hlex hsteps

end

/-! ## containment -/

/-- the link at `name` leads to a file or directory of the snapshot, below the destination -/
def Contained (s : Snapshot) (tree : FileTree) (dest : Location) (n : Nat) (name : String) : Prop :=
  ∃ key : String, tree.walk n dest (names name.toList) = some (dest ++ names key.toList) ∧
    isFileOrDirectory s.entries[key]? = true

theorem walk_eq_steps (tree : FileTree) (n : Nat) :
    ∃ follow, tree.walk n = tree.steps follow := by
  cases n with
  | zero => exact ⟨_, rfl⟩
  | succ n => exact ⟨_, rfl⟩

theorem validate_link (hvalid : s.validate = .ok ()) {name target : String}
    (he : s.entries[name]? = some (.symlink target)) (hne : target.toList ≠ []) :
    ∃ p, lexical (names name.toList).dropLast (split target.toList) = some p ∧
      (∀ l, FileTree.origin l (split target.toList) = l) ∧
      isFileOrDirectory s.entries[String.ofList (join p)]? = true ∧ names (join p) = p ∧
      ∀ n < p.length, s.dirAt (p.take n) = true := by
  have hsafe := (Snapshot.validate_checked hvalid he).safe
  have hv := Snapshot.validate_entries hvalid _ (Snapshot.mem_toList.mpr he)
  obtain ⟨-, hv⟩ := refuseIf_bind hv
  obtain ⟨-, -, hv⟩ := bind_ok hv
  obtain ⟨resolved, hr, hv⟩ := bind_ok hv
  have hok := refuseIf_ok hv
  simp only [not_or, Bool.not_eq_false, Bool.not_eq_true, List.any_eq_false] at hok
  obtain ⟨p, hp, hr⟩ := bind_ok hr
  obtain ⟨-, hr⟩ := refuseIf_bind hr
  cases hr
  obtain ⟨q, hq, hc⟩ := components_parent hsafe
  rw [hq, Option.getD_some, hc, List.map_map] at hp
  have hmap : (names name.toList).dropLast.map (asStr ∘ Component.normal) =
      (names name.toList).dropLast := List.map_id _
  rw [hmap] at hp
  obtain ⟨hlex, horigin⟩ := resolveParts_components hp hne
  have hnames : Names p := lexical_names hlex
    (fun t ht => mem_names (List.dropLast_subset _ ht)) fun t ht => slash_not_mem_split ht
  refine ⟨p, hlex, horigin, hok.1, hnames.names_join, fun n hn => ?_⟩
  have hnj : names (String.ofList (join p)).toList = p := by
    rw [String.toList_ofList, hnames.names_join]
  have hparents : ∀ a ∈ Snapshot.parentsOf (String.ofList (join p)),
      isDirectory s.entries[a]? = true := fun a ha => by simpa using hok.2 a ha
  have := Snapshot.dirAt_take hparents (n := n) (by rwa [hnj])
  rwa [hnj] at this

theorem dirAt_isDirectory (hroot : tree.isDirectory dest = true)
    (hplaced : ∀ e ∈ s.entries.toList, Placed dest e tree) (l : List Seg) (h : s.dirAt l = true) :
    tree.isDirectory (dest ++ l) = true := by
  rw [Snapshot.dirAt, Bool.or_eq_true, List.any_eq_true] at h
  obtain h0 | ⟨⟨name, e⟩, hm, he⟩ := h
  · rwa [of_decide_eq_true h0, List.append_nil]
  · simp only [Bool.and_eq_true, decide_eq_true_eq] at he
    have hp := hplaced _ hm
    cases e with
    | directory mode => rwa [← he.1]
    | file content mode => cases he.2
    | symlink target => cases he.2

theorem solid_of_entry (hplaced : ∀ e ∈ s.entries.toList, Placed dest e tree) {key : String}
    (h : isFileOrDirectory s.entries[key]? = true) : Solid tree (dest ++ names key.toList) := by
  cases he : s.entries[key]? with
  | none => rw [he] at h; cases h
  | some e =>
    have hp := hplaced _ (Snapshot.mem_toList.mpr he)
    cases e with
    | directory mode => exact solid_of_isDirectory hp
    | file content mode =>
      obtain ⟨b, m, hn⟩ := hp
      exact ⟨_, hn, fun _ h => nomatch h⟩
    | symlink target => rw [he] at h; cases h

theorem lexical_of_names (s : Snapshot) {l : List Seg}
    (h : ∀ t ∈ l, skipped t = false ∧ t ≠ dotdot) (parts : List Seg) :
    lexical parts l = some (parts ++ l) ∧ s.stepsFromDirectories parts l = true := by
  induction l generalizing parts with
  | nil => simp [lexical, Snapshot.stepsFromDirectories]
  | cons t l ih =>
    obtain ⟨hs, hd⟩ := h t List.mem_cons_self
    rw [lexical, Snapshot.stepsFromDirectories, List.append_cons parts t l]
    simp only [hs, hd, if_false, Bool.false_eq_true]
    exact ih (fun u hu => h u (List.mem_cons_of_mem _ hu)) _

theorem steps_parent {name : String} (hvalid : s.validate = .ok ()) (hchecked : s.EntryChecked name)
    (htree : ∀ l, s.dirAt l = true → tree.isDirectory (dest ++ l) = true)
    (follow : Location → List Seg → Option Location) (rest : List Seg) :
    tree.steps follow dest ((names name.toList).dropLast ++ rest) =
      tree.steps follow (dest ++ (names name.toList).dropLast) rest := by
  obtain ⟨hplain, hne⟩ := safeRelative_plain hchecked.safe
  have hnames : ∀ t ∈ (names name.toList).dropLast, skipped t = false ∧ t ≠ dotdot := by
    intro t ht
    have hm := List.dropLast_subset _ ht
    refine ⟨(mem_names hm).2, ?_⟩
    rintro rfl
    exact hplain.noParent (List.mem_filter.mp hm).1
  have hlen : (names name.toList).dropLast.length < (names name.toList).length := by
    rw [List.length_dropLast]
    exact Nat.sub_lt (List.length_pos_iff.mpr hne) Nat.one_pos
  have htake : ∀ m, m ≤ (names name.toList).dropLast.length →
      (names name.toList).dropLast.take m = (names name.toList).take m := fun m hm => by
    rw [List.dropLast_eq_take, List.take_take, Nat.min_eq_left (by simpa using hm)]
  have hdirs : ∀ m ≤ (names name.toList).dropLast.length,
      s.dirAt ((names name.toList).dropLast.take m) = true := fun m hm => by
    rw [htake m hm]
    exact Snapshot.dirAt_take hchecked.parents (by omega)
  have hend := hdirs _ (Nat.le_refl _)
  rw [List.take_length] at hend
  obtain ⟨hlex, hsteps⟩ := lexical_of_names s hnames []
  have := steps_lexical hvalid htree hlex hsteps (fun m hm => hdirs m (Nat.le_of_lt hm))
    (solid_of_isDirectory (htree _ hend)) follow rest
  rwa [List.append_nil] at this

/-- **A link whose target steps back from directories only leads to a file or a directory of the
snapshot**, and the walk follows no other link on its way. -/
theorem materialize_contained {s : Snapshot} {host tree : FileTree} {dest : Location}
    {artifacts : Snapshot.ArtifactReads} {readonly : Bool}
    (h : s.materialize host dest artifacts readonly = .ok tree) {name target : String}
    (he : s.entries[name]? = some (.symlink target))
    (hsteps : s.stepsFromDirectories (names name.toList).dropLast (split target.toList) = true)
    {n : Nat} (hn : 0 < n) : Contained s tree dest n name := by
  obtain ⟨hvalid, hroot, hentries⟩ := materialize_placed h
  have hplaced : ∀ e ∈ s.entries.toList, Placed dest e tree := fun e hm => (hentries e hm).1
  have hmem := Snapshot.mem_toList.mpr he
  have htree := dirAt_isDirectory hroot hplaced
  have hchecked := Snapshot.validate_checked hvalid he
  obtain ⟨hplain, hne⟩ := safeRelative_plain hchecked.safe
  obtain ⟨p, hlex, horigin, hfile, hnames, hp⟩ :=
    validate_link hvalid he ((hentries _ hmem).2 target rfl)
  have hkey : names (String.ofList (join p)).toList = p := by rw [String.toList_ofList, hnames]
  have hsolid := solid_of_entry hplaced hfile
  rw [hkey] at hsolid
  refine ⟨String.ofList (join p), ?_, hfile⟩
  rw [hkey]
  obtain ⟨n, rfl⟩ := Nat.exists_eq_succ_of_ne_zero (Nat.ne_of_gt hn)
  -- the way to the link, the link itself, and then its target from the directory that holds it
  have hlast := List.dropLast_append_getLast hne
  have hl := List.getLast_mem hne
  generalize (names name.toList).getLast hne = last at hlast hl
  have hlink : tree.node (dest ++ (names name.toList).dropLast ++ [last]) =
      some (.symlink target.toList) := by
    rw [List.append_assoc, hlast]
    exact hplaced _ hmem
  have hdir : tree.isDirectory (dest ++ (names name.toList).dropLast) = true := by
    have := tree.closed _ _ (by rw [hlink]; rfl)
    exact this
  obtain ⟨follow, hfollow⟩ := walk_eq_steps tree n
  calc tree.walk (n + 1) dest (names name.toList)
      = tree.steps (tree.walk n) dest ((names name.toList).dropLast ++ [last]) := by
        rw [hlast]
        rfl
    _ = tree.steps (tree.walk n) (dest ++ (names name.toList).dropLast) [last] :=
        steps_parent hvalid hchecked htree _ _
    _ = tree.walk n (dest ++ (names name.toList).dropLast) (split target.toList ++ []) := by
        have hd : last ≠ dotdot := by
          rintro rfl
          exact hplain.noParent (List.mem_filter.mp hl).1
        rw [FileTree.steps, if_pos hdir, if_neg (by simp [(mem_names hl).2]), if_neg hd, hlink]
        simp only [horigin]
    _ = some (dest ++ p) := by
        rw [hfollow, steps_lexical hvalid htree hlex hsteps hp hsolid follow []]
        rfl

/-! ## a link that leads out -/

/-- as many links as one walk may follow -/
def symloopMax : Nat := 40

def exampleHost : FileTree :=
  (((FileTree.root 0o755).add [['r']] (.directory 0o755)).bind fun t =>
    t.add [['r'], ['x']] (.file [] 0o600)).getD (FileTree.root 0o755)

def exampleDest : Location := [['r'], ['w']]

def steppingOutEntries : List (String × Entry) :=
  [("d", .directory 0o755), ("d/e", .directory 0o755), ("d/e/l", .symlink "../../t"),
    ("d/x", .file default 0o644), ("m", .symlink "d/e/l/../../x"), ("t", .directory 0o755)]

/-- `d/e/l` leads to `t`, so the two steps back in the target of `m` leave the destination -/
def steppingOut : Snapshot := ⟨1, ⟨[], 10, 10⟩, .ofList steppingOutEntries⟩

def steppingOutRun : Except WorkspaceError FileTree :=
  steppingOut.materialize exampleHost exampleDest (fun _ => .ok []) false

theorem steppingOut_materialized : ∃ tree, steppingOutRun = .ok tree := by
  have hok : steppingOutRun.isOk = true := by decide +kernel
  cases h : steppingOutRun with
  | error e => rw [h] at hok; cases hok
  | ok tree => exact ⟨tree, rfl⟩

theorem materialize_contained_steppingOut :
    ∃ tree, steppingOutRun = .ok tree ∧ Contained steppingOut tree exampleDest symloopMax "d/e/l" := by
  obtain ⟨tree, h⟩ := steppingOut_materialized
  have he : steppingOut.entries["d/e/l"]? = some (.symlink "../../t") := by decide +kernel
  exact ⟨tree, h, materialize_contained h he (by decide +kernel) (by decide)⟩

/-- an accepted snapshot whose link `m` leads to the file beside the destination -/
theorem materialize_escapes : steppingOut.validate = .ok () ∧ ∃ tree, steppingOutRun = .ok tree ∧
    steppingOut.entries["m"]? = some (.symlink "d/e/l/../../x") ∧
    tree.walk symloopMax exampleDest (names "m".toList) = some [['r'], ['x']] ∧
    ¬ Contained steppingOut tree exampleDest symloopMax "m" := by
  obtain ⟨tree, h⟩ := steppingOut_materialized
  have hwalk : (steppingOutRun.toOption.bind fun tree =>
      tree.walk symloopMax exampleDest (names "m".toList)) = some [['r'], ['x']] := by decide +kernel
  rw [h] at hwalk
  refine ⟨by decide +kernel, tree, h, by decide +kernel, hwalk, ?_⟩
  rintro ⟨key, hkey, -⟩
  have he := hwalk.symm.trans hkey
  simp [exampleDest] at he

end Orvek.Workspace
