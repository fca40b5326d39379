import Mathlib.Algebra.Order.BigOperators.Group.List
import Mathlib.Algebra.Order.Ring.Nat
import Orvek.Lib.Worklist
import Orvek.Store.Commits
import Orvek.Workspace.Snapshot

/-!
# The artifacts behind an event

The artifacts that an event refers to are read, with all that they refer to themselves.  The same
artifact may be reached as several kinds, and then it is searched as each of them and counted once.

* `ArtifactStore.read`       reading an artifact, which checks its size and its digest;
* `Decoders.references`      what an artifact of a kind refers to;
* `verifyArtifactGraph`      the loop, for a number of rounds;
* `artifactGraph_exact`      it ends, and when it accepts.

`Env.verifyArtifactGraph` stands for this function in the operations of the store.
-/

set_option linter.unusedSectionVars false

namespace Orvek.ArtifactGraph
open Json Checks Worklist

structure ArtifactStore where
  files : BTreeMap Digest (List UInt8)
  maxArtifactBytes : Nat

/-- the digests of a `PatchValidationReceipt` -/
structure ReceiptDigests where
  baseline : Digest
  candidate : Digest
  patch : Digest
  appliedSnapshot : Digest
  observedSnapshot : Digest
  /-- of each command the inputs and outputs -/
  commands : List (Digest × Digest × Digest)

/-- `serde_json::from_slice`, at three types -/
structure Decoders where
  messages : List UInt8 → Option (List Value)
  snapshot : List UInt8 → Option Workspace.Snapshot
  receipt : List UInt8 → Option ReceiptDigests

section
variable [Sha256]
variable {bytes : List UInt8} {x : Digest × BlobKind} {l : List (Digest × BlobKind)}

namespace ArtifactStore

def read (a : ArtifactStore) (d : Digest) : Except ArtifactError (List UInt8) :=
  match a.files[d]? with
  | none => .error (.io "no such file")
  | some bytes =>
    if a.maxArtifactBytes < bytes.length then .error (.limit a.maxArtifactBytes)
    else if Digest.of bytes ≠ d then .error (.integrity d)
    else .ok bytes

end ArtifactStore

/-! ## references -/

def jsonError : StoreError := .json ⟨"artifact"⟩

def isMedia (part : Value) : Bool := part.fieldIs "type" "tact_image" || part.fieldIs "type"
    "tact_review"

/-- `media_references`, of the messages of an input -/
def mediaReferences (messages : List Value) : Except StoreError (List Digest) :=
  (messages.flatMap fun message =>
    (((message.index "content").asArray).getD []).filter isMedia).mapM fun part =>
      (digestFromValue (part.index "digest")).mapError StoreError.json

namespace Decoders
variable (decode : Decoders)

def fileContents (s : Workspace.Snapshot) : List Digest :=
  (valuesOf s.entries).filterMap fun
    | .file content _ => some content
    | _ => none

/-- what an artifact refers to, and as which kind; a snapshot that is none refers to nothing -/
def references (bytes : List UInt8) : BlobKind → Except StoreError (List (Digest × BlobKind))
  | .userInput =>
    match decode.messages bytes with
    | none => .error jsonError
    | some messages => (mediaReferences messages).map fun found => found.map fun d => (d, .plain)
  | .plain => .ok []
  | .snapshot =>
    match decode.snapshot bytes with
    | none => .ok []
    | some s => .ok ((fileContents s).map fun d => (d, .plain))
  | .patchReceipt =>
    match decode.receipt bytes with
    | none => .error jsonError
    | some r => .ok ([(r.baseline, .snapshot), (r.candidate, .snapshot),
        (r.appliedSnapshot, .snapshot),
        (r.observedSnapshot, .snapshot), (r.patch, .plain)] ++
        r.commands.flatMap fun c => [(c.1, .plain), (c.2.1, .plain), (c.2.2, .plain)])

end Decoders

/-! ## the loop -/

/-- what was counted, and its bytes -/
structure Counted where
  digests : List Digest
  total : Nat

/-- the bytes of an artifact are added once -/
def Counted.add (c : Counted) (d : Digest) (size : Nat) : Except StoreError Counted :=
  if d ∈ c.digests then .ok c
  else if u64Max < c.total + size then .error .budget
  else .ok ⟨d :: c.digests, c.total + size⟩

variable (a : ArtifactStore) (decode : Decoders) (limit : UInt64)

def visitBlob (c : Counted) (x : Digest × BlobKind) :
    Except StoreError (Counted × List (Digest × BlobKind)) := do
  let bytes ← (a.read x.1).mapError StoreError.artifact
  let c ← c.add x.1 bytes.length
  refuseIf (limit.toNat < c.total) StoreError.budget
  let found ← decode.references bytes x.2
  .ok (c, found)

/-- the loop over what is pending; its last element is taken first -/
def verifyArtifactGraph (n : Nat) (referenced : List (Digest × BlobKind)) :
    Option (Except StoreError Unit) :=
  (run (visitBlob a decode limit) n ⟨referenced.reverse, [], ⟨[], 0⟩⟩).map fun r => r.map fun _ =>
    ()

/-! ## what is reached -/

/-- what an artifact refers to, when it can be read and searched -/
def refers (x : Digest × BlobKind) : List (Digest × BlobKind) :=
  match a.read x.1 with
  | .error _ => []
  | .ok bytes =>
    match decode.references bytes x.2 with
    | .ok found => found
    | .error _ => []

/-- an artifact of a kind is reached from the first ones -/
abbrev Reached (referenced : List (Digest × BlobKind)) : Digest × BlobKind → Prop :=
  Reach (refers a decode) referenced

/-- inputs and receipts are what they are reached as; nothing is asked of the others -/
def WellFormed (bytes : List UInt8) : BlobKind → Prop
  | .userInput => ∃ messages, decode.messages bytes = some messages ∧
      ∀ message ∈ messages, ∀ part ∈ ((message.index "content").asArray).getD [],
        isMedia part = true → ∃ d, digestFromValue (part.index "digest") = .ok d
  | .patchReceipt => ∃ r, decode.receipt bytes = some r
  | _ => True

def size (d : Digest) : Nat :=
  match a.read d with
  | .ok bytes => bytes.length
  | .error _ => 0

variable {a decode limit}

theorem references_ok {kind : BlobKind} :
    (∃ found, decode.references bytes kind = .ok found) ↔ WellFormed decode bytes kind := by
  cases kind with
  | plain => exact ⟨fun _ => trivial, fun _ => ⟨[], rfl⟩⟩
  | snapshot =>
    refine ⟨fun _ => trivial, fun _ => ?_⟩
    unfold Decoders.references
    simp only
    cases decode.snapshot bytes with
    | none => exact ⟨[], rfl⟩
    | some s => exact ⟨_, rfl⟩
  | patchReceipt =>
    unfold Decoders.references WellFormed
    simp only
    cases decode.receipt bytes with
    | none => exact ⟨fun ⟨_, h⟩ => (nomatch h), fun ⟨_, h⟩ => (nomatch h)⟩
    | some r => exact ⟨fun _ => ⟨r, rfl⟩, fun _ => ⟨_, rfl⟩⟩
  | userInput =>
    unfold Decoders.references WellFormed
    simp only
    cases decode.messages bytes with
    | none => exact ⟨fun ⟨_, h⟩ => (nomatch h), fun ⟨_, h, _⟩ => (nomatch h)⟩
    | some messages =>
      have hparts : (∃ found, mediaReferences messages = .ok found) ↔
          ∀ message ∈ messages, ∀ part ∈ ((message.index "content").asArray).getD [],
            isMedia part = true → ∃ d, digestFromValue (part.index "digest") = .ok d := by
        unfold mediaReferences
        rw [mapM_ok]
        constructor
        · intro h message hmessage part hpart hmedia
          exact mapError_isOk.mp (h part (List.mem_flatMap.mpr ⟨message, hmessage,
            List.mem_filter.mpr ⟨hpart, hmedia⟩⟩))
        · intro h part hpart
          obtain ⟨message, hmessage, hpart⟩ := List.mem_flatMap.mp hpart
          obtain ⟨hpart, hmedia⟩ := List.mem_filter.mp hpart
          exact mapError_isOk.mpr (h message hmessage part hpart hmedia)
      constructor
      · rintro ⟨found, hfound⟩
        refine ⟨messages, rfl, hparts.mp ?_⟩
        simp only at hfound
        cases hm : mediaReferences messages with
        | error e => rw [hm] at hfound; cases hfound
        | ok l => exact ⟨l, rfl⟩
      · rintro ⟨messages', hsame, h⟩
        cases hsame
        obtain ⟨found, hfound⟩ := hparts.mpr h
        simp only
        rw [hfound]
        exact ⟨_, rfl⟩

/-! ## one visit -/

variable {c : Counted}

theorem visitBlob_ok {c' : Counted} {found : List (Digest × BlobKind)}
    (h : visitBlob a decode limit c x = .ok (c', found)) :
    ∃ bytes, a.read x.1 = .ok bytes ∧ c.add x.1 bytes.length = .ok c' ∧ c'.total ≤ limit.toNat ∧
      decode.references bytes x.2 = .ok found := by
  obtain ⟨bytes, hread, h⟩ := bind_ok h
  obtain ⟨c₁, hadd, h⟩ := bind_ok h
  obtain ⟨hlimit, h⟩ := refuseIf_bind h
  obtain ⟨found', hfound, h⟩ := bind_ok h
  cases h
  exact ⟨bytes, mapError_ok hread, hadd, Nat.le_of_not_lt hlimit, hfound⟩

theorem visitBlob_refers {c' : Counted} {found : List (Digest × BlobKind)}
    (h : visitBlob a decode limit c x = .ok (c', found)) : refers a decode x = found := by
  obtain ⟨bytes, hread, -, -, hfound⟩ := visitBlob_ok h
  unfold refers
  simp only [hread, hfound]

/-- what is counted after some visits -/
structure Counts (a : ArtifactStore) (l : List (Digest × BlobKind)) (c : Counted) : Prop where
  nodup : c.digests.Nodup
  mem : ∀ d, d ∈ c.digests ↔ ∃ kind, (d, kind) ∈ l
  total : c.total = (c.digests.map (size a)).sum

attribute [grind =] size

theorem Counts.add {c' : Counted} (h : Counts a l c) (hread : a.read x.1 = .ok bytes)
    (hadd : c.add x.1 bytes.length = .ok c') : Counts a (x :: l) c' := by
  have hsize : size a x.1 = bytes.length := by
    unfold size
    rw [hread]
  have hmem : ∀ d, (∃ kind, (d, kind) ∈ x :: l) ↔ d = x.1 ∨ ∃ kind, (d, kind) ∈ l := by
    intro d
    simp only [List.mem_cons]
    constructor
    · rintro ⟨kind, rfl | hk⟩
      · exact .inl rfl
      · exact .inr ⟨kind, hk⟩
    · rintro (rfl | ⟨kind, hk⟩)
      · exact ⟨x.2, .inl rfl⟩
      · exact ⟨kind, .inr hk⟩
  unfold Counted.add at hadd
  split at hadd
  · rename_i hold
    cases hadd
    refine ⟨h.nodup, fun d => ?_, h.total⟩
    rw [hmem, h.mem]
    exact ⟨.inr, fun hor => hor.elim (fun he => he ▸ (h.mem _).mp hold) id⟩
  · rename_i hnew
    split at hadd
    · cases hadd
    · cases hadd
      refine ⟨List.nodup_cons.mpr ⟨hnew, h.nodup⟩, fun d => ?_, ?_⟩
      · rw [hmem, List.mem_cons, h.mem]
      · rw [List.map_cons, List.sum_cons, hsize, ← h.total, Nat.add_comm]

theorem Counts.of_visits (h : Visits (visitBlob a decode limit) ⟨[], 0⟩ l c) :
    Counts a l c ∧ c.total ≤ limit.toNat := by
  induction h with
  | nil => exact ⟨⟨List.nodup_nil, fun d => ⟨nofun, fun ⟨_, h⟩ => (nomatch h)⟩, rfl⟩, Nat.zero_le _⟩
  | cons _ hx ih =>
    obtain ⟨bytes, hread, hadd, hlimit, -⟩ := visitBlob_ok hx
    exact ⟨ih.1.add hread hadd, hlimit⟩

theorem sum_le_of_subset {ds ds' : List Digest} (h : ds.Nodup) (hsub : ∀ d ∈ ds, d ∈ ds') :
    (ds.map (size a)).sum ≤ (ds'.map (size a)).sum := by
  obtain ⟨l, hperm, hsublist⟩ := List.Nodup.subperm h hsub
  rw [← (hperm.map (size a)).sum_eq]
  exact (hsublist.map (size a)).sum_le_sum fun _ _ => Nat.zero_le _

theorem visitBlob_succeeds {ds : List Digest} (hc : Counts a l c) (hread : a.read x.1 = .ok bytes)
    (hformed : WellFormed decode bytes x.2) (hds : ∀ d, (∃ kind, (d, kind) ∈ x :: l) → d ∈ ds)
    (hsum : (ds.map (size a)).sum ≤ limit.toNat) : ∃ r, visitBlob a decode limit c x = .ok r := by
  obtain ⟨found, hfound⟩ := references_ok.mpr hformed
  have hlimit : limit.toNat ≤ u64Max := by
    have := limit.toNat_lt
    unfold u64Max
    omega
  have hadd : ∃ c', c.add x.1 bytes.length = .ok c' := by
    unfold Counted.add
    split
    · exact ⟨c, rfl⟩
    · rename_i hnew
      have hle : ((x.1 :: c.digests).map (size a)).sum ≤ (ds.map (size a)).sum :=
        sum_le_of_subset (List.nodup_cons.mpr ⟨hnew, hc.nodup⟩) fun d hd => by
          rcases List.mem_cons.mp hd with rfl | hd
          · exact hds x.1 ⟨x.2, List.mem_cons_self⟩
          · obtain ⟨kind, hk⟩ := (hc.mem d).mp hd
            exact hds d ⟨kind, List.mem_cons_of_mem x hk⟩
      have hsize : size a x.1 = bytes.length := by
        unfold size
        rw [hread]
      rw [List.map_cons, List.sum_cons, hsize, ← hc.total] at hle
      rw [if_neg (by omega)]
      exact ⟨_, rfl⟩
  obtain ⟨c', hadd⟩ := hadd
  have hc' := hc.add hread hadd
  have hle : c'.total ≤ limit.toNat := by
    rw [hc'.total]
    exact (sum_le_of_subset hc'.nodup fun d hd => hds d ((hc'.mem d).mp hd)).trans hsum
  refine ⟨(c', found), ?_⟩
  unfold visitBlob
  rw [hread]
  show (c.add x.1 bytes.length >>= _) = _
  rw [hadd, ok_bind, refuseIf_of_not _ (Nat.not_lt.mpr hle), ok_bind, hfound]
  rfl

theorem visitBlob_stored {r : Counted × List (Digest × BlobKind)} (h : visitBlob a decode limit c x = .ok r)
    :
    x ∈ a.files.keys.flatMap fun d => [BlobKind.plain, .snapshot, .patchReceipt, .userInput].map
      fun kind => (d, kind) := by
  obtain ⟨bytes, hread, -⟩ := visitBlob_ok h
  refine List.mem_flatMap.mpr ⟨x.1, ?_, List.mem_map.mpr ⟨x.2, ?_, rfl⟩⟩
  · unfold ArtifactStore.read at hread
    split at hread
    · cases hread
    · rename_i bytes' hget
      exact Std.ExtTreeMap.mem_keys.mpr
        (Std.ExtTreeMap.isSome_getElem?_iff_mem.mp (by rw [hget]; rfl))
  · cases x.2 <;> decide

/-- **The artifacts behind an event are verified exactly.**  The loop ends, and it accepts if and
only if every artifact that is reached can be read, every input and receipt among them is well
formed, and the bytes of the distinct artifacts that are reached are within the limit. -/
theorem artifactGraph_exact (a : ArtifactStore) (decode : Decoders) (limit : UInt64)
    (referenced : List (Digest × BlobKind)) :
    ∃ n r, (∀ m, n ≤ m → verifyArtifactGraph a decode limit m referenced = some r) ∧
      (r = .ok () ↔
        (∀ x, Reached a decode referenced x →
          ∃ bytes, a.read x.1 = .ok bytes ∧ WellFormed decode bytes x.2) ∧
        ∃ ds : List Digest, ds.Nodup ∧ (∀ d, d ∈ ds ↔
          ∃ kind, Reached a decode referenced (d, kind)) ∧
          (ds.map (size a)).sum ≤ limit.toNat) := by
  have hgoing : Going (visitBlob a decode limit) (refers a decode) referenced ⟨[], 0⟩
      ⟨referenced.reverse, [], ⟨[], 0⟩⟩ := going_start
  obtain ⟨n, r, hr⟩ := run_ends (fun _ _ _ _ hv => visitBlob_refers hv)
    (fun _ _ _ hv => visitBlob_stored hv) hgoing
  have hresult := run_result (fun _ _ _ _ hv => visitBlob_refers hv) hgoing hr
  refine ⟨n, r.map fun _ => (), fun m hm => ?_, ?_⟩
  · unfold verifyArtifactGraph
    rw [run_more hr hm]
    rfl
  · cases r with
    | ok c =>
      obtain ⟨l, -, hmem, hvisits⟩ := hresult
      obtain ⟨hcounts, hlimit⟩ := Counts.of_visits hvisits
      refine ⟨fun _ => ⟨fun x hx => ?_, c.digests, hcounts.nodup, fun d => ?_, ?_⟩, fun _ => rfl⟩
      · obtain ⟨c', r', hv⟩ := hvisits.visited x ((hmem x).mpr hx)
        obtain ⟨bytes, hread, -, -, hfound⟩ := visitBlob_ok hv
        exact ⟨bytes, hread, references_ok.mp ⟨_, hfound⟩⟩
      · rw [hcounts.mem]
        exact exists_congr fun kind => hmem (d, kind)
      · rw [← hcounts.total]
        exact hlimit
    | error e =>
      obtain ⟨l, x, c, -, hreach, hvisits, hv⟩ := hresult
      refine ⟨nofun, fun ⟨hall, ds, _, hds, hsum⟩ => ?_⟩
      obtain ⟨bytes, hread, hformed⟩ := hall x (hreach x List.mem_cons_self)
      obtain ⟨r, hok⟩ := visitBlob_succeeds (Counts.of_visits hvisits).1 hread hformed
        (fun d ⟨kind, hk⟩ => (hds d).mpr ⟨kind, hreach _ hk⟩) hsum
      cases hv.symm.trans hok

end

/-! ## a snapshot that is none -/

section
open Orvek.Sample

def letter : ArtifactStore where
  files := .ofList [(Digest.of [120], ([120] : List UInt8))]
  maxArtifactBytes := 1

/-- the letter is no document of any type -/
def noDocument : Decoders := ⟨fun _ => none, fun _ => none, fun _ => none⟩

theorem artifactGraph_lenient : letter.read (Digest.of [120]) = .ok [120] ∧
    noDocument.snapshot [120] = none ∧
    verifyArtifactGraph letter noDocument 1 2 [(Digest.of [120], .snapshot)] = some (.ok ()) := by
  decide +kernel

end

end Orvek.ArtifactGraph
