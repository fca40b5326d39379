import Orvek.Text
import Orvek.Lib.Checks
import Orvek.Lib.FileTree

/-!
# Workspace snapshots

A snapshot is a map from relative path texts to files, directories and symbolic links.  It is
checked as a text, without a file system, and then written out below a new directory:

* `safeRelative`, `resolveLink`   the two tests on paths, on their texts alone;
* `Snapshot.validate`             what every snapshot must pass;
* `Snapshot.materialize`          the tree it becomes: directories and files, then links, then modes.

The destination is a location of the host's tree whose way has no symbolic link.
-/

set_option linter.unusedSectionVars false

namespace Orvek.Workspace
open Paths Checks

structure SnapshotPolicy where
  excludedRoots : List String
  maxFiles : Nat
  maxBytes : Nat
  deriving DecidableEq, Repr

def SnapshotPolicy.default : SnapshotPolicy where
  excludedRoots := [".git", ".orvek", ".Trash", "target", "node_modules", ".venv", ".terraform", ".env"]
  maxFiles := 100000
  maxBytes := 256 * 1024 * 1024

inductive Entry where
  | file (content : Digest) (mode : Nat)
  | directory (mode : Nat)
  | symlink (target : String)
  deriving DecidableEq, Repr

structure Snapshot where
  version : Nat
  policy : SnapshotPolicy
  entries : BTreeMap String Entry

inductive WorkspaceError where
  | reconcilePolicy
  | reconcileConflict (paths : List String) (truncated : Bool)
  | io (path : String)
  | artifact (error : ArtifactError)
  | unsafePath (path : String)
  | limit
  | destination
  | version
  deriving DecidableEq, Repr

/-! ## links -/

def asStr : Component → Seg
  | .rootDir => ['/']
  | .curDir => ['.']
  | .parentDir => dotdot
  | .normal name => name

/-- the components of a target, applied to the names read so far -/
def resolveParts (path : String) : List Seg → List Component → Except WorkspaceError (List Seg)
  | parts, [] => .ok parts
  | parts, .normal name :: rest => resolveParts path (parts ++ [name]) rest
  | parts, .parentDir :: rest =>
    if parts ≠ [] then resolveParts path parts.dropLast rest else .error (.unsafePath path)
  | parts, .curDir :: rest => resolveParts path parts rest
  | _, .rootDir :: _ => .error (.unsafePath path)

def resolveLink (path target : String) : Except WorkspaceError String := do
  let start := (components ((parent path.toList).getD [])).map asStr
  let parts ← resolveParts path start (components target.toList)
  refuseIf (join parts = []) (WorkspaceError.unsafePath path)
  .ok (String.ofList (join parts))

/-! ## the checks -/

def isDirectory : Option Entry → Bool
  | some (.directory _) => true
  | _ => false

def isFileOrDirectory : Option Entry → Bool
  | some (.file _ _) => true
  | some (.directory _) => true
  | _ => false

namespace Snapshot

variable (s : Snapshot)

/-- the ancestors of a path that are not empty, all of which must be directories -/
def parentsOf (path : String) : List String :=
  ((ancestors path.toList).filter (· ≠ [])).map String.ofList

def validateLink (path target : String) : Except WorkspaceError Unit := do
  let resolved ← resolveLink path target
  refuseIf (isFileOrDirectory s.entries[resolved]? = false ∨
    (parentsOf resolved).any fun p => !isDirectory s.entries[p]?) (WorkspaceError.unsafePath path)

def validateEntry (e : String × Entry) : Except WorkspaceError Unit := do
  refuseIf (safeRelative e.1.toList = false) (WorkspaceError.unsafePath e.1)
  checkAll (fun p => refuseIf (isDirectory s.entries[p]? = false) (WorkspaceError.unsafePath e.1))
    (parentsOf e.1)
  match e.2 with
  | .symlink target => s.validateLink e.1 target
  | _ => .ok ()

def validate : Except WorkspaceError Unit := do
  refuseIf (s.version ≠ 1) WorkspaceError.version
  refuseIf (s.policy.maxFiles = 0 ∨ s.policy.maxBytes = 0 ∨ s.policy.maxFiles < s.entries.size)
    WorkspaceError.limit
  checkAll s.validateEntry s.entries.toList

/-! ## writing it out -/

abbrev ArtifactReads : Type := Digest → Except ArtifactError (List UInt8)

def readArtifact (artifacts : ArtifactReads) (content : Digest) : Except WorkspaceError (List UInt8) :=
  (artifacts content).mapError .artifact

def verifyEntry (artifacts : ArtifactReads) (total : Nat) (e : String × Entry) :
    Except WorkspaceError Nat :=
  match e.2 with
  | .file content _ => do
    let bytes ← readArtifact artifacts content
    let total := satAdd64 total bytes.length
    refuseIf (s.policy.maxBytes < total) WorkspaceError.limit
    .ok total
  | _ => .ok total

def verifyArtifacts (artifacts : ArtifactReads) : Except WorkspaceError Unit := do
  s.validate
  let _ ← s.entries.toList.foldlM (s.verifyEntry artifacts) 0
  .ok ()

/-- the mode of a directory that was just made, until it is set -/
def createdMode : Nat := 0o755

def modeFor (readonly : Bool) (mode : Nat) : Nat :=
  if readonly then mode &&& (u32Max ^^^ 0o222) else mode

/-- an operating system call that answers with an error -/
def orIo (path : String) : Option FileTree → Except WorkspaceError FileTree
  | some tree => .ok tree
  | none => .error (.io path)

/-- a text that ends in a slash or in a dot segment names no new entry -/
def openEnded (path : String) : Bool := (split path.toList).getLast?.any skipped

/-- `create_dir_all`; a dot at the end is looked up in a directory that has to exist -/
def makeDirectory (dest : Location) (tree : FileTree) (path : String) : Except WorkspaceError FileTree := do
  let l := names path.toList
  refuseIf ((split path.toList).getLast? = some ['.'] ∧ tree.isDirectory (dest ++ l) = false)
    (WorkspaceError.io path)
  orIo path (tree.createDirAll createdMode dest l)

/-- the first pass: directories and files -/
def place (artifacts : ArtifactReads) (readonly : Bool) (dest : Location) (tree : FileTree)
    (e : String × Entry) : Except WorkspaceError FileTree := do
  let l := names e.1.toList
  refuseIf ('\x00' ∈ e.1.toList) (WorkspaceError.io e.1)
  let tree ← orIo e.1 (tree.createDirAll createdMode dest l.dropLast)
  match e.2 with
  | .directory _ => makeDirectory dest tree e.1
  | .file content mode => do
    let bytes ← readArtifact artifacts content
    refuseIf (openEnded e.1 = true) (WorkspaceError.io e.1)
    orIo e.1 (tree.add (dest ++ l) (.file bytes (modeFor readonly mode)))
  | .symlink _ => .ok tree

/-- the second pass: links -/
def link (dest : Location) (tree : FileTree) (e : String × Entry) : Except WorkspaceError FileTree :=
  match e.2 with
  | .symlink target => do
    refuseIf ('\x00' ∈ e.1.toList ∨ '\x00' ∈ target.toList ∨ target.toList = [])
      (WorkspaceError.io e.1)
    refuseIf (openEnded e.1 = true) (WorkspaceError.io e.1)
    orIo e.1 (tree.add (dest ++ names e.1.toList) (.symlink target.toList))
  | _ => .ok tree

/-- the last pass: the modes of the directories -/
def chmod (readonly : Bool) (dest : Location) (tree : FileTree) (e : String × Entry) : FileTree :=
  match e.2 with
  | .directory mode => tree.setMode (dest ++ names e.1.toList) (modeFor readonly mode)
  | _ => tree

def materialize (host : FileTree) (dest : Location) (artifacts : ArtifactReads) (readonly : Bool) :
    Except WorkspaceError FileTree := do
  s.verifyArtifacts artifacts
  refuseIf ((host.node dest).isSome = true) WorkspaceError.destination
  let tree ← orIo "" (host.add dest (.directory createdMode))
  let tree ← s.entries.toList.foldlM (place artifacts readonly dest) tree
  let tree ← s.entries.toList.foldlM (link dest) tree
  let tree := s.entries.toList.reverse.foldl (chmod readonly dest) tree
  .ok (tree.setMode dest (modeFor readonly 0o755))

end Snapshot
end Orvek.Workspace
