import Orvek.Workspace.Links

/-!
# What the host takes from a guest

The guest sends frames: a greeting, output, entries of a tree, the bytes of its files, and one frame
that completes the transfer.  The host writes the tree below an empty directory as it comes in.

* `Frame`, `Decoder`      a frame, and how its payload is read;
* `Session`               the receiver with the host's tree, and what it has created and written;
* `resolve`, `resolveNew` where a path leads on the host, links and all;
* `Receiver.frame`        what one frame does.
-/

set_option linter.unusedSectionVars false

namespace Orvek.Runtime
open Paths Workspace

/-! ## the frames -/

namespace Wire

def version : Nat := 2
def chunkBytes : Nat := 64 * 1024
def hello : UInt8 := 1
def stdout : UInt8 := 2
def stderr : UInt8 := 3
def entry : UInt8 := 4
def fileData : UInt8 := 5
def complete : UInt8 := 6

end Wire

structure Quota where
  totalBytes : Nat
  freeBytes : Nat
  totalInodes : Nat
  freeInodes : Nat
  deriving DecidableEq, Repr

structure Hello where
  version : Nat
  jobId : String
  nonce : String
  rootUid : Nat
  childUid : Nat
  readonly : Bool
  quota : Option Quota
  deriving DecidableEq, Repr

inductive GuestOutcome where
  | exited (code : Int)
  | cancelled
  | timedOut
  | outputLimit
  | memoryLimit
  | quotaLimit
  | invalidWorkspace
  | supervisorError
  deriving DecidableEq, Repr

def GuestOutcome.isExited : GuestOutcome → Bool
  | .exited _ => true
  | _ => false

structure Complete where
  version : Nat
  nonce : String
  outcome : GuestOutcome
  exported : Bool
  entries : Nat
  bytes : Nat
  quiescent : Bool
  deriving DecidableEq, Repr

inductive WireEntry where
  | directory (path : String) (mode : Nat)
  | file (path : String) (mode bytes : Nat)
  | symlink (path target : String)
  deriving DecidableEq, Repr

def WireEntry.path : WireEntry → String
  | .directory path _ => path
  | .file path _ _ => path
  | .symlink path _ => path

/-- `serde_json::from_slice` of each payload -/
structure Decoder where
  hello : List UInt8 → Option Hello
  entry : List UInt8 → Option WireEntry
  complete : List UInt8 → Option Complete

structure Frame where
  kind : UInt8
  data : List UInt8

/-! ## the receiver -/

/-- the limits that a transfer is held to -/
structure ExecutionLimits where
  workspaceBytes : Nat
  workspaceInodes : Nat
  deriving DecidableEq, Repr

/-- a failed file operation of the host, or a refusal -/
inductive RuntimeError where
  | setup (text : String)
  | io
  deriving DecidableEq, Repr

/-- a file that is open for writing; `hashed` is what its digest is taken of -/
structure PendingFile where
  path : String
  file : Location
  mode : Nat
  left : Nat
  hashed : List UInt8

structure GuestReport where
  stdout : List UInt8
  stderr : List UInt8
  complete : Option Complete
  entries : BTreeMap String Workspace.Entry

structure Receiver where
  report : GuestReport
  root : Location
  nonce : String
  jobId : String
  readonly : Bool
  limits : ExecutionLimits
  outputLimit : Nat
  metadataBytes : Nat
  fileBytes : Nat
  pending : Option PendingFile
  hello : Bool

def Receiver.new (root : Location) (nonce jobId : String) (readonly : Bool) (limits : ExecutionLimits)
    (outputLimit : Nat) : Receiver :=
  ⟨⟨[], [], none, ∅⟩, root, nonce, jobId, readonly, limits, outputLimit, 0, 0, none, false⟩

/-- the receiver and the tree of the host; `created` are the paths at which it has made something, and
`written` the bytes that it has written -/
structure Session where
  receiver : Receiver
  tree : FileTree
  created : List String
  written : Nat

/-- which file operations succeed while one frame is handled; a write that fails may have written
some bytes -/
structure HostIo where
  createDir : Bool
  openNew : Bool
  write : Option Nat
  syncAll : Bool
  setPermissions : Bool

def HostIo.good : HostIo := ⟨true, true, none, true, true⟩

abbrev Result := Except RuntimeError Unit × Session

def refused (text : String) (s : Session) : Result := (.error (.setup text), s)

def safe (path : String) : Bool :=
  path ≠ "" && strLen path ≤ 4096 && !path.toList.contains '\x00' &&
    (split path.toList).all (fun part => part ≠ [] && part ≠ ['.'] && part ≠ dotdot) &&
    (components path.toList).all Component.isNormal

def checkMode (mode : Nat) (directory : Bool) : Bool :=
  mode &&& (u32Max ^^^ 0o777) = 0 && mode &&& 0o400 ≠ 0 && (!directory || mode &&& 0o100 ≠ 0)

/-- the links that a host follows on one path -/
def maxLinks : Nat := 40

/-- where `root.join(path)` leads, all links followed -/
def resolve (tree : FileTree) (root : Location) (path : List Char) : Option Location :=
  tree.walk maxLinks (FileTree.origin root (split path)) (split path)

/-- where something new at `root.join(path)` comes to stand: the links before its name are followed -/
def resolveNew (tree : FileTree) (root : Location) (path : List Char) : Option Location := do
  let directory ← tree.walk maxLinks (FileTree.origin root (split path)) (split path).dropLast
  let name ← (split path).getLast?
  if skipped name || name = dotdot then none else some (directory ++ [name])

namespace Session

/-- `create_dir` or `create_new`: nothing may be there -/
def makeNew (succeeds : Bool) (node : Node) (path : String) (s : Session) : Option (Location × Session) := do
  let l ← resolveNew s.tree s.receiver.root path.toList
  let tree ← s.tree.add l node
  if succeeds then some (l, { s with tree := tree, created := s.created ++ [path] }) else none

def append (l : Location) (data : List UInt8) (s : Session) : Session :=
  { s with tree := s.tree.append l data, written := s.written + data.length }

def insertEntry (path : String) (entry : Workspace.Entry) (s : Session) : Session :=
  { s with receiver := { s.receiver with
    report := { s.receiver.report with entries := s.receiver.report.entries.insert path entry } } }

def setPending (file : Option PendingFile) (s : Session) : Session :=
  { s with receiver := { s.receiver with pending := file } }

def setFileBytes (bytes : Nat) (s : Session) : Session :=
  { s with receiver := { s.receiver with fileBytes := bytes } }

end Session

section
variable [Sha256] (decoder : Decoder) (io : HostIo) (data : List UInt8) (s : Session)

def finishFile : Result :=
  match s.receiver.pending with
  | none => refused "missing export file" s
  | some file =>
    let s := s.setPending none
    if io.syncAll = false then (.error .io, s)
    else
      match if io.setPermissions then resolve s.tree s.receiver.root file.path.toList else none with
      | none => (.error .io, s)
      | some l =>
        (.ok (), { s with tree := s.tree.setMode l file.mode }.insertEntry file.path
          (.file (Digest.of file.hashed) file.mode))

def helloFrame : Result :=
  if s.receiver.hello then refused "duplicate executor handshake" s
  else
    match decoder.hello data with
    | none => refused "invalid executor handshake" s
    | some hello =>
      if hello.version ≠ Wire.version ∨ hello.jobId ≠ s.receiver.jobId ∨ hello.nonce ≠ s.receiver.nonce ∨
          hello.rootUid ≠ 0 ∨ hello.childUid = 0 ∨ hello.readonly ≠ s.receiver.readonly then
        refused "executor identity mismatch" s
      else if s.receiver.readonly = false ∧ hello.quota.any (fun q => 0 < q.totalBytes &&
          q.totalBytes ≤ s.receiver.limits.workspaceBytes && 0 < q.totalInodes &&
          q.totalInodes ≤ s.receiver.limits.workspaceInodes) = false then
        refused "executor quota mismatch" s
      else (.ok (), { s with receiver := { s.receiver with hello := true } })

def outputFrame (kind : UInt8) : Result :=
  if s.receiver.report.entries.isEmpty = false ∨ s.receiver.pending.isSome = true then
    refused "late command output" s
  else if s.receiver.outputLimit <
      s.receiver.report.stdout.length + s.receiver.report.stderr.length + data.length then
    refused "executor output limit" s
  else if kind = Wire.stdout then
    (.ok (), { s with receiver := { s.receiver with
      report := { s.receiver.report with stdout := s.receiver.report.stdout ++ data } } })
  else
    (.ok (), { s with receiver := { s.receiver with
      report := { s.receiver.report with stderr := s.receiver.report.stderr ++ data } } })

/-- an entry that has passed the checks of its path -/
def placeEntry : WireEntry → Result
  | .directory path mode =>
    if checkMode mode true = false then refused "unsupported export permissions" s
    else
      match s.makeNew io.createDir (.directory Snapshot.createdMode) path with
      | none => (.error .io, s)
      | some (_, s) => (.ok (), s.insertEntry path (.directory mode))
  | .symlink path target =>
    if 4096 < strLen target ∨ '\x00' ∈ target.toList then refused "invalid link target" s
    else (.ok (), s.insertEntry path (.symlink target))
  | .file path mode bytes =>
    if checkMode mode false = false then refused "unsupported export permissions" s
    else if u64Max < s.receiver.fileBytes + bytes then refused "export size overflow" s
    else
      let s := s.setFileBytes (s.receiver.fileBytes + bytes)
      if s.receiver.limits.workspaceBytes < s.receiver.fileBytes then refused "export byte limit" s
      else
        match s.makeNew io.openNew (.file [] 0o600) path with
        | none => (.error .io, s)
        | some (l, s) =>
          let s := s.setPending (some ⟨path, l, mode, bytes, []⟩)
          if bytes = 0 then finishFile io s else (.ok (), s)

def entryFrame : Result :=
  if s.receiver.readonly = true ∨ s.receiver.pending.isSome = true then
    refused "unexpected export entry" s
  else
    let s := { s with receiver := { s.receiver with
      metadataBytes := s.receiver.metadataBytes + data.length } }
    if 8 * 1024 * 1024 < s.receiver.metadataBytes ∨
        s.receiver.limits.workspaceInodes - 1 ≤ s.receiver.report.entries.size then
      refused "export metadata limit" s
    else
      match decoder.entry data with
      | none => refused "invalid export entry" s
      | some entry =>
        if safe entry.path = false ∨ s.receiver.report.entries.contains entry.path = true then
          refused "invalid or duplicate export path" s
        else if (Snapshot.parentsOf entry.path).any (fun p =>
            !isDirectory s.receiver.report.entries[p]?) = true then
          refused "export parent is not a directory" s
        else placeEntry io s entry

def dataFrame : Result :=
  match s.receiver.pending with
  | none => refused "unrequested file data" s
  | some file =>
    if data = [] ∨ Wire.chunkBytes < data.length ∨ file.left < data.length then
      refused "file data length mismatch" s
    else
      match io.write with
      | some n => (.error .io, s.append file.file (data.take n))
      | none =>
        let s := (s.append file.file data).setPending (some { file with
          hashed := file.hashed ++ data
          left := file.left - data.length })
        if file.left - data.length = 0 then finishFile io s else (.ok (), s)

def completeFrame : Result :=
  if s.receiver.pending.isSome = true then refused "truncated file export" s
  else
    match decoder.complete data with
    | none => refused "invalid completion frame" s
    | some complete =>
      if complete.version ≠ Wire.version ∨ complete.nonce ≠ s.receiver.nonce ∨
          complete.quiescent = false ∨ complete.entries ≠ s.receiver.report.entries.size ∨
          complete.bytes ≠ s.receiver.fileBytes ∨
          (complete.exported = true ∧
            (s.receiver.readonly = true ∨ complete.outcome.isExited = false)) ∨
          (complete.exported = false ∧ s.receiver.report.entries.isEmpty = false) ∨
          (s.receiver.readonly = false ∧ complete.outcome.isExited = true ∧
            complete.exported = false) then
        refused "inconsistent executor completion" s
      else (.ok (), { s with receiver := { s.receiver with
        report := { s.receiver.report with complete := some complete } } })

/-- `Receiver::frame` -/
def Receiver.frame (f : Frame) : Result :=
  if s.receiver.report.complete.isSome = true then refused "data after executor completion" s
  else if s.receiver.hello = false ∧ f.kind ≠ Wire.hello then refused "missing executor handshake" s
  else if f.kind = Wire.hello then helloFrame decoder f.data s
  else if f.kind = Wire.stdout ∨ f.kind = Wire.stderr then outputFrame f.data s f.kind
  else if f.kind = Wire.entry then entryFrame decoder io f.data s
  else if f.kind = Wire.fileData then dataFrame io f.data s
  else if f.kind = Wire.complete then completeFrame decoder f.data s
  else refused "unknown executor frame" s

end

end Orvek.Runtime
