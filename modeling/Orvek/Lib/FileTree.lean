import Orvek.Lib.Paths

/-!
# A tree of files, and how a path is walked in it

A tree assigns a node to every location, a location being a list of names under the root.  A
location can only hold something when the location above it is a directory, and the structure
carries that fact:

* `FileTree.add`             one more node, in an existing directory, where nothing was;
* `FileTree.createDirAll`    every directory on the way to a location;
* `FileTree.Grows`           what was there is still there, of the same kind;
* `FileTree.walk`            the path walk of POSIX: a link is followed where it stands, before the
                             segments after it, and `..` leads to the directory above the one that
                             was reached.
-/

namespace Paths

abbrev Location : Type := List Seg

inductive Node where
  | file (bytes : List UInt8) (mode : Nat)
  | directory (mode : Nat)
  | symlink (target : List Char)
  deriving DecidableEq, Repr

def Node.isDirectory : Node → Bool
  | .directory _ => true
  | _ => false

def Node.setMode (mode : Nat) : Node → Node
  | .file bytes _ => .file bytes mode
  | .directory _ => .directory mode
  | .symlink target => .symlink target

def Node.append (data : List UInt8) : Node → Node
  | .file bytes mode => .file (bytes ++ data) mode
  | x => x

/-- the same kind of node with the same content, whatever the mode -/
def Node.Like (a b : Node) : Prop := a.setMode 0 = b.setMode 0

theorem Node.Like.isDirectory {a b : Node} (h : a.Like b) : b.isDirectory = a.isDirectory := by
  unfold Like at h
  cases a <;> cases b <;> first | rfl | cases h

structure FileTree where
  node : Location → Option Node
  closed : ∀ l name, (node (l ++ [name])).isSome → (node l).any Node.isDirectory

namespace FileTree

/-- nothing but an empty root directory -/
def root (mode : Nat) : FileTree where
  node l := if l = [] then some (.directory mode) else none
  closed l name h := by
    rw [if_neg (by simp)] at h
    cases h

variable (tree : FileTree)

def isDirectory (l : Location) : Bool := (tree.node l).any Node.isDirectory

/-- a node where there was none, in the directory `l` -/
def put (l : Location) (name : Seg) (node : Node) (hdir : tree.isDirectory l = true)
    (hfree : tree.node (l ++ [name]) = none) : FileTree where
  node k := if k = l ++ [name] then some node else tree.node k
  closed k n h := by
    have hparent : (tree.node k).any Node.isDirectory := by
      split at h
      · rename_i he
        rw [(List.append_inj' he rfl).1]
        exact hdir
      · exact tree.closed k n h
    -- the new location itself was free, so it is not the directory above anything
    rw [if_neg]
    · exact hparent
    · rintro rfl
      rw [hfree] at hparent
      exact absurd hparent (by decide)

def add (l : Location) (node : Node) : Option FileTree :=
  match l.getLast? with
  | none => none
  | some name =>
    if hdir : tree.isDirectory l.dropLast = true then
      if hfree : tree.node (l.dropLast ++ [name]) = none then
        some (tree.put l.dropLast name node hdir hfree)
      else none
    else none

/-- another mode for what is at a location -/
def setMode (l : Location) (mode : Nat) : FileTree where
  node k := if k = l then (tree.node k).map (Node.setMode mode) else tree.node k
  closed k n h := by
    have hsome : (tree.node (k ++ [n])).isSome := by
      split at h
      · simpa using h
      · exact h
    have hk := tree.closed k n hsome
    split
    · rename_i he
      rw [Option.any_map]
      cases hn : tree.node k with
      | none => rw [hn] at hk; exact hk
      | some x => rw [hn] at hk; cases x <;> exact hk
    · exact hk

/-- more bytes at the end of the file at a location -/
def append (l : Location) (data : List UInt8) : FileTree where
  node k := if k = l then (tree.node k).map (Node.append data) else tree.node k
  closed k n h := by
    have hsome : (tree.node (k ++ [n])).isSome := by
      split at h
      · simpa using h
      · exact h
    have hk := tree.closed k n hsome
    split
    · rw [Option.any_map]
      cases hn : tree.node k with
      | none => rw [hn] at hk; exact hk
      | some x => rw [hn] at hk; cases x <;> exact hk
    · exact hk

/-- the directories `names`, one below the other, each made when it is missing -/
def createDirAll (mode : Nat) : FileTree → Location → List Seg → Option FileTree
  | tree, _, [] => some tree
  | tree, l, name :: names =>
    match tree.node (l ++ [name]) with
    | some (.directory _) => createDirAll mode tree (l ++ [name]) names
    | some _ => none
    | none => do
      let tree ← tree.add (l ++ [name]) (.directory mode)
      createDirAll mode tree (l ++ [name]) names

/-! ## growth -/

/-- nothing disappears and nothing changes its kind -/
def Grows (a b : FileTree) : Prop :=
  ∀ l x, a.node l = some x → ∃ y, b.node l = some y ∧ x.Like y

theorem Grows.refl (a : FileTree) : Grows a a := fun _ x h => ⟨x, h, rfl⟩

theorem Grows.trans {a b c : FileTree} (h : Grows a b) (h' : Grows b c) : Grows a c := by
  intro l x hx
  obtain ⟨y, hy, hxy⟩ := h l x hx
  obtain ⟨z, hz, hyz⟩ := h' l y hy
  exact ⟨z, hz, hxy.trans hyz⟩

variable {tree}
variable {t : FileTree} {l : Location}

theorem add_spec {x : Node} (h : tree.add l x = some t) :
    Grows tree t ∧ t.node l = some x ∧ tree.isDirectory l.dropLast = true := by
  unfold add at h
  split at h
  · cases h
  · rename_i name hl
    split at h
    · rename_i hdir
      split at h
      · rename_i hfree
        cases h
        have he : l = l.dropLast ++ [name] := (List.dropLast_append_getLast? name hl).symm
        refine ⟨fun k y hk => ⟨y, ?_, rfl⟩, ?_, hdir⟩
        · show (if k = l.dropLast ++ [name] then _ else _) = _
          rw [if_neg, hk]
          rintro rfl
          rw [hfree] at hk
          cases hk
        · exact if_pos he
      · cases h
    · cases h

theorem add_node {x : Node} (h : tree.add l x = some t) :
    tree.node l = none ∧ ∀ k, t.node k = if k = l then some x else tree.node k := by
  unfold add at h
  split at h
  · cases h
  · rename_i name hl
    split at h
    · split at h
      · rename_i hfree
        cases h
        have he : l.dropLast ++ [name] = l := List.dropLast_append_getLast? name hl
        rw [he] at hfree
        refine ⟨hfree, fun k => ?_⟩
        show (if k = l.dropLast ++ [name] then _ else _) = _
        rw [he]
      · cases h
    · cases h

theorem setMode_grows (l : Location) (mode : Nat) : Grows tree (tree.setMode l mode) := by
  intro k x hk
  by_cases he : k = l
  · refine ⟨x.setMode mode, ?_, by cases x <;> rfl⟩
    show (if k = l then _ else _) = _
    rw [if_pos he, hk]
    rfl
  · refine ⟨x, ?_, rfl⟩
    show (if k = l then _ else _) = _
    rw [if_neg he, hk]

theorem createDirAll_grows {mode : Nat} {names : List Seg} (h : createDirAll mode tree l names = some t) :
    Grows tree t := by
  induction names generalizing tree l with
  | nil =>
    cases h
    exact .refl _
  | cons name names ih =>
    rw [createDirAll] at h
    split at h
    · exact ih h
    · cases h
    · obtain ⟨u, hu, h⟩ := Option.bind_eq_some_iff.mp h
      exact (add_spec hu).1.trans (ih h)

theorem createDirAll_isDirectory {mode : Nat} {names : List Seg}
    (h : createDirAll mode tree l names = some t) (hdir : tree.isDirectory l = true ∨ names ≠ []) :
    t.isDirectory (l ++ names) = true := by
  induction names generalizing tree l with
  | nil =>
    cases h
    rw [List.append_nil]
    exact hdir.resolve_right fun hne => hne rfl
  | cons name names ih =>
    rw [createDirAll] at h
    rw [List.append_cons]
    split at h
    · rename_i m hm
      exact ih h (.inl (by rw [isDirectory, hm]; rfl))
    · cases h
    · obtain ⟨u, hu, h⟩ := Option.bind_eq_some_iff.mp h
      exact ih h (.inl (by rw [isDirectory, (add_spec hu).2.1]; rfl))

theorem Grows.isDirectory {a b : FileTree} (h : Grows a b) (hd : a.isDirectory l = true) :
    b.isDirectory l = true := by
  unfold FileTree.isDirectory at hd ⊢
  cases hx : a.node l with
  | none => rw [hx] at hd; cases hd
  | some x =>
    obtain ⟨y, hy, hlike⟩ := h l x hx
    rw [hx] at hd
    rw [hy]
    exact hlike.isDirectory.trans hd

/-! ## walking a path -/

/-- where the walk of a link's target begins: an absolute one at the root -/
def origin (l : Location) : List Seg → Location
  | [] :: _ => []
  | _ => l

/-- the walk itself; `follow` walks what is left when a link is met -/
def steps (tree : FileTree) (follow : Location → List Seg → Option Location) :
    Location → List Seg → Option Location
  | l, [] => some l
  | l, s :: segs =>
    if tree.isDirectory l then
      if skipped s then steps tree follow l segs
      else if s = dotdot then steps tree follow l.dropLast segs
      else match tree.node (l ++ [s]) with
        | none => none
        | some (.symlink target) => follow (origin l (split target)) (split target ++ segs)
        | some _ => steps tree follow (l ++ [s]) segs
    else none

/-- where a path leads from a location when at most `n` links may be followed -/
def walk (tree : FileTree) : Nat → Location → List Seg → Option Location
  | 0 => steps tree fun _ _ => none
  | n + 1 => steps tree (walk tree n)

end FileTree
end Paths
