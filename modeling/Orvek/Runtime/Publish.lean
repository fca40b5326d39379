import Orvek.Lib.Effects
import Orvek.Runtime.Receiver

/-!
# Publishing a guest's workspace

The guest's tree takes the place of the workspace by an exchange of the two directories.  What was
swapped out is compared with the baseline, and goes back when it is something else.

* `Standing`, `Stage`       what stands at a path, and the paths that a publication touches;
* `Interference`            what may happen before a file-system step: a change at the root, a failure;
* `Workspace.publish`       the publication, with its two exchanges;
* `Workspace.retain`        the guest's tree is kept beside the workspace;
* `Present`, `Preserves`    a tree that an exchange took from the root is still somewhere;
* `publish_preserves`       it is, if and only if no step fails between the exchange and its end.
-/

set_option linter.unusedSectionVars false

namespace Orvek.Runtime
open Effects Prog

/-- the entries of a snapshot, in the order of their paths -/
abbrev Entries := List (String × Workspace.Entry)

/-- `MetadataExt`: device and inode, and the bits of the mode -/
structure Metadata where
  identity : Nat × Nat
  isDirectory : Bool
  mode : Nat
  deriving DecidableEq, Repr

structure Standing (Tree : Type) extends Metadata where
  tree : Tree
  deriving DecidableEq, Repr

/-- what happens before a file-system step: something else may come to stand at the root, or
nothing, and the step itself may fail -/
structure Interference (Tree : Type) where
  change : Option (Option (Standing Tree))
  fault : Bool

structure RetainedGuest where
  jobId : Uuid
  baseline : Entries
  guest : Entries
  deriving DecidableEq, Repr

/-- the paths that a publication touches -/
structure Stage (Tree : Type) where
  root : Option (Standing Tree)
  /-- in the temporary directory -/
  incoming : Option (Standing Tree)
  /-- `.orvek-guest-results/<job>/tree` -/
  retained : Option (Standing Tree)
  resultsLink : Bool
  jobTaken : Bool
  receipt : Option RetainedGuest
  /-- the temporary directory outlives the workspace -/
  kept : Bool
  script : List (Interference Tree)
  /-- what the exchanges took from the root -/
  exchanged : List (Standing Tree)
  /-- what other changes took from the root after the last exchange -/
  taken : List (Standing Tree)
  /-- the root as it was last compared -/
  compared : Option (Standing Tree)

inductive Place where
  | root | incoming
  deriving DecidableEq, Repr

namespace Stage
variable {Tree : Type}

def at' (s : Stage Tree) : Place → Option (Standing Tree)
  | .root => s.root
  | .incoming => s.incoming

/-- a directory stands in one place -/
def possible (s : Stage Tree) (x : Option (Standing Tree)) : Bool :=
  x.all fun x => (s.incoming.all fun y => y.identity ≠ x.identity) &&
    s.retained.all fun y => y.identity ≠ x.identity

def interfere (change : Option (Option (Standing Tree))) (s : Stage Tree) : Stage Tree :=
  match change with
  | none => s
  | some x =>
    if s.possible x then { s with root := x, taken := s.root.toList ++ s.taken } else s

/-- what happens before the next step -/
def disturbed (s : Stage Tree) : Stage Tree :=
  match s.script with
  | [] => s
  | i :: rest => { s.interfere i.change with script := rest }

end Stage

abbrev Step (Tree α : Type) := Prog RuntimeError (Stage Tree) α

section
variable {Tree : Type}

/-- a file-system step, after what happens before it -/
def step {α : Type} (f : Stage Tree → Option (α × Stage Tree)) : Step Tree α := fun s =>
  if (s.script.head?.any Interference.fault) = true then (.error .io, s.disturbed)
  else match f s.disturbed with
    | none => (.error .io, s.disturbed)
    | some (a, t) => (.ok a, t)

/-- a step outside the paths of the stage -/
def touch : Step Tree Unit := step fun s => some ((), s)

def symlinkMetadata (place : Place) : Step Tree Metadata :=
  step fun s => (s.at' place).map fun x => (x.toMetadata, s)

/-- `Snapshot::scan`, which opens nothing but a directory -/
def scanAt (scan : Tree → Option Entries) (place : Place) : Step Tree Entries :=
  step fun s => (s.at' place).bind fun x =>
    if x.isDirectory then (scan x.tree).map fun entries =>
      (entries, match place with
        | .root => { s with compared := some x }
        | .incoming => s)
    else none

def matchesExact (scan : Tree → Option Entries) (entries : Entries) (place : Place) :
    Step Tree Bool := do
  let found ← scanAt scan place
  pure (found = entries : Bool)

/-- `rename` with the flag `EXCHANGE` -/
def exchange : Step Tree Unit :=
  step fun s => match s.root, s.incoming with
    | some r, some i => some ((), { s with
        root := some i
        incoming := some r
        exchanged := s.exchanged ++ [r]
        taken := [] })
    | _, _ => none

def setPermissions (mode : Nat) : Step Tree Unit :=
  step fun s => s.incoming.map fun x => ((), { s with incoming := some { x with mode := mode } })

structure Workspace where
  baseline : Entries
  identity : Nat × Nat
  mode : Nat

namespace Workspace
variable (w : Workspace) (scan : Tree → Option Entries)

def matchesBaseline (place : Place) : Step Tree Bool := do
  match ← (symlinkMetadata place).attempt with
  | .error _ => pure false
  | .ok m =>
    if m.isDirectory = true ∧ m.identity = w.identity ∧ m.mode = w.mode then
      match ← (matchesExact scan w.baseline place).attempt with
      | .error _ => pure false
      | .ok b => pure b
    else pure false

def retain (guest : Entries) (jobId : Uuid) : Step Tree Unit := do
  touch
  let link ← step fun s => some (s.resultsLink, s)
  refuse link (.setup "unsafe guest recovery directory")
  touch
  step fun s => if s.jobTaken then none else some ((), { s with jobTaken := true })
  step fun s => s.incoming.map fun x => ((), { s with incoming := none, retained := some x })
  touch
  step fun s => some ((), { s with receipt := some ⟨jobId, w.baseline, guest⟩ })
  touch
  touch
  touch

def preserveUnknown : Step Tree Unit := update fun s => { s with kept := true }

/-- `retain`, or else everything is kept -/
def retainOrKeep (guest : Entries) (jobId : Uuid) : Step Tree Bool := do
  match ← (w.retain guest jobId).attempt with
  | .error e =>
    preserveUnknown
    fail e
  | .ok _ => pure false

/-- the publication up to the exchange; each `stopped` is a cancellation or a deadline that has
passed -/
def approach (guest : Entries) (jobId : Uuid) (stopped stoppedAgain : Bool) :
    Step Tree (Bool ⊕ Metadata) := do
  if stopped then pure (.inl false)
  else if ← w.matchesBaseline scan .root then
    if stoppedAgain then pure (.inl false)
    else if guest = w.baseline then pure (.inl true)
    else do
      setPermissions w.mode
      let m ← symlinkMetadata .incoming
      pure (.inr m)
  else do
    let b ← w.retainOrKeep guest jobId
    pure (.inl b)

/-- the publication after the exchange -/
def conclude (guest : Entries) (jobId : Uuid) (new : Metadata) : Step Tree Bool := do
  if ← w.matchesBaseline scan .incoming then
    if ← matchesExact scan guest .root then do
      touch
      pure true
    else do
      preserveUnknown
      fail (.setup "published workspace changed during validation; recovery retained")
  else do
    let current ← symlinkMetadata .root
    if current.identity ≠ new.identity then do
      preserveUnknown
      fail (.setup "publication raced with another owner; recovery trees retained")
    else do
      exchange
      w.retainOrKeep guest jobId

def publish (guest : Entries) (jobId : Uuid) (stopped stoppedAgain : Bool) : Step Tree Bool := do
  match ← w.approach scan guest jobId stopped stoppedAgain with
  | .inl b => pure b
  | .inr new => do
    exchange
    w.conclude scan guest jobId new

end Workspace

/-- `Drop`: a temporary directory that is not kept is removed -/
def Stage.dropped (s : Stage Tree) : Stage Tree :=
  if s.kept then s else { s with incoming := none }

/-- a publication begins with the workspace and the tree that came in, two directories -/
structure Prepared (Tree : Type) where
  root : Standing Tree
  incoming : Standing Tree
  apart : root.identity ≠ incoming.identity
  resultsLink : Bool
  jobTaken : Bool

def Prepared.stage (p : Prepared Tree) (script : List (Interference Tree)) : Stage Tree where
  root := some p.root
  incoming := some p.incoming
  retained := none
  resultsLink := p.resultsLink
  jobTaken := p.jobTaken
  receipt := none
  kept := false
  script := script
  exchanged := []
  taken := []
  compared := none

/-! ## what has to be preserved -/

/-- a tree is at the root, in the retained directory or in a temporary directory that is still there
-/
def Present (x : Standing Tree) (s : Stage Tree) : Prop :=
  s.root = some x ∨ s.retained = some x ∨ s.incoming = some x

structure Workspace.IsBaseline (w : Workspace) (scan : Tree → Option Entries) (x : Standing Tree) :
    Prop where
  isDirectory : x.isDirectory = true
  identity : x.identity = w.identity
  mode : x.mode = w.mode
  entries : scan x.tree = some w.baseline

/-- what an exchange took from the root is still present when the workspace was dropped, or another
change took it from the root after it was back; or it was the baseline, and the guest's tree was at
the root when it was last compared -/
structure Preserves (w : Workspace) (scan : Tree → Option Entries) (guest : Entries)
    (result : Except RuntimeError Bool) (s : Stage Tree) : Prop where
  published : result = .ok true → (∀ x ∈ s.exchanged, w.IsBaseline scan x) ∧
    ∃ r, s.compared = some r ∧ scan r.tree = some guest
  kept : result ≠ .ok true → ∀ x ∈ s.exchanged, Present x s.dropped ∨ x ∈ s.taken

/-! ## steps -/

variable {s t : Stage Tree} {u : Standing Tree} {w : Workspace} {scan : Tree → Option Entries}
  {guest : Entries} {jobId : Uuid}

theorem interfere_cases (change : Option (Option (Standing Tree))) (s : Stage Tree) :
    s.interfere change = s ∨ ∃ x, s.possible x = true ∧
      s.interfere change = { s with root := x, taken := s.root.toList ++ s.taken } := by
  cases change with
  | none => exact .inl rfl
  | some x =>
    show (if s.possible x = true then _ else s) = s ∨ ∃ y, s.possible y = true ∧
      (if s.possible x = true then _ else s) = _
    by_cases hx : s.possible x = true
    · rw [if_pos hx]
      exact .inr ⟨x, hx, rfl⟩
    · rw [if_neg hx]
      exact .inl rfl

theorem disturbed_cases (s : Stage Tree) : ∃ script, s.disturbed = { s with script := script } ∨
    ∃ x, s.possible x = true ∧
      s.disturbed = { s with root := x, taken := s.root.toList ++ s.taken, script := script } := by
  cases hscript : s.script with
  | nil =>
    refine ⟨[], .inl ?_⟩
    simp only [Stage.disturbed, hscript]
    rw [← hscript]
  | cons i rest =>
    refine ⟨rest, ?_⟩
    simp only [Stage.disturbed, hscript]
    rcases interfere_cases i.change s with h | ⟨x, hx, h⟩
    · rw [h]
      exact .inl rfl
    · rw [h]
      exact .inr ⟨x, hx, rfl⟩

/-- a property that no change at the root can end -/
def Stable (p : Stage Tree → Prop) : Prop := ∀ s, p s → p s.disturbed

variable {p : Stage Tree → Prop}

theorem step_triple {α : Type} {f : Stage Tree → Option (α × Stage Tree)}
    {q : Except RuntimeError α → Stage Tree → Prop} (hp : Stable p)
    (hok : ∀ s a t, p s → f s = some (a, t) → q (.ok a) t) (herror : ∀ s, p s → q (.error .io) s) :
    Triple p (step f) q := by
  intro s hs
  have hd := hp s hs
  unfold step
  split
  · exact herror _ hd
  · cases hf : f s.disturbed with
    | none => exact herror _ hd
    | some done =>
      obtain ⟨a, t⟩ := done
      exact hok _ a t hd hf

theorem step_keeps {α : Type} {f : Stage Tree → Option (α × Stage Tree)} (hp : Stable p)
    (hf : ∀ s a t, p s → f s = some (a, t) → p t) : Prog.Keeps p (step f) :=
  step_triple hp hf fun _ hs => hs

theorem touch_keeps (hp : Stable p) : Prog.Keeps p touch :=
  step_keeps hp fun s a t hs h => by
    cases h
    exact hs

theorem symlinkMetadata_keeps (hp : Stable p) (place : Place) : Prog.Keeps p (symlinkMetadata place) :=
  step_keeps hp fun s a t hs h => by
    obtain ⟨x, -, h⟩ := Option.map_eq_some_iff.mp h
    cases h
    exact hs

/-- a property that does not depend on what was compared last -/
def Uncompared (p : Stage Tree → Prop) : Prop := ∀ s x, p s → p { s with compared := x }

theorem matchesExact_spec (scan : Tree → Option Entries) (hp : Stable p) (hc : Uncompared p)
    (entries : Entries) (place : Place) : Triple p (matchesExact scan entries place) fun r s => p s ∧
      (r = .ok true → ∃ x, x.isDirectory = true ∧ scan x.tree = some entries ∧
        s.at' place = some x ∧
        (place = .root → s.compared = some x)) := by
  refine Triple.bind (r := fun r s => p s ∧ ∀ found, r = .ok found → ∃ x, x.isDirectory = true ∧
    scan x.tree = some found ∧ s.at' place = some x ∧ (place = .root → s.compared = some x)) ?_ ?_
      ?_
  · refine step_triple hp (fun s a t hs h => ?_) fun s hs => ⟨hs, fun _ h => nomatch h⟩
    obtain ⟨x, hx, h⟩ := Option.bind_eq_some_iff.mp h
    split at h
    · rename_i hdir
      obtain ⟨entries, hentries, h⟩ := Option.map_eq_some_iff.mp h
      cases h
      refine ⟨?_, fun found hfound => ⟨x, hdir, ?_, ?_, ?_⟩⟩
      · cases place
        · exact hc s _ hs
        · exact hs
      · cases hfound
        exact hentries
      · cases place <;> exact hx
      · rintro rfl
        rfl
    · cases h
  · exact fun e s hs => ⟨hs.1, fun h => nomatch h⟩
  · intro found
    refine Triple.pure fun s hs => ⟨hs.1, fun h => ?_⟩
    obtain ⟨x, hdir, hscan, hx⟩ := hs.2 found rfl
    injection h with h
    exact ⟨x, hdir, of_decide_eq_true h ▸ hscan, hx⟩

theorem matchesBaseline_spec (hp : Stable p) (hc : Uncompared p) (place : Place) :
    Triple p (w.matchesBaseline scan place) fun r s => p s ∧ ∃ b, r = .ok b ∧
      (b = true → ∃ x, scan x.tree = some w.baseline ∧ s.at' place = some x ∧
        (place = .root → s.compared = some x)) := by
  refine Triple.bind (Triple.attempt (symlinkMetadata_keeps hp place)) ?_ fun r => ?_
  · rintro e s ⟨b, hb, -⟩
    cases hb
  · cases r with
    | error e =>
      exact Triple.pure fun s ⟨b, hb, hs⟩ => ⟨hs, false, rfl, fun h => by cases h⟩
    | ok m =>
      show Triple _ (if _ then _ else _) _
      split
      · refine Triple.bind (Triple.attempt ((matchesExact_spec scan hp hc w.baseline place).mono
          (fun s ⟨b, hb, hs⟩ => hs) fun _ _ h => h)) ?_ fun r => ?_
        · rintro e s ⟨b, hb, -⟩
          cases hb
        · cases r with
          | error e => exact Triple.pure fun s ⟨b, hb, hs⟩ => ⟨hs.1, false, rfl, fun h => by cases h⟩
          | ok b =>
            refine Triple.pure fun s ⟨b', hb, hs⟩ => ⟨hs.1, b, rfl, ?_⟩
            rintro rfl
            cases hb
            obtain ⟨x, -, hscan, hx⟩ := hs.2 rfl
            exact ⟨x, hscan, hx⟩
      · exact Triple.pure fun s ⟨b, hb, hs⟩ => ⟨hs, false, rfl, fun h => by cases h⟩

/-! ## where the trees are -/

/-- what is in the temporary directory is nowhere else -/
structure Apart (s : Stage Tree) : Prop where
  retained : s.retained = none
  root : ∀ y ∈ s.incoming, ∀ x ∈ s.root, x.identity ≠ y.identity
  taken : ∀ y ∈ s.incoming, ∀ x ∈ s.taken, x.identity ≠ y.identity

theorem Apart.disturbed (h : Apart s) : Apart s.disturbed := by
  obtain ⟨script, hs | ⟨x, hx, hs⟩⟩ := disturbed_cases s
  · rw [hs]
    exact ⟨h.retained, h.root, h.taken⟩
  · rw [hs]
    refine ⟨h.retained, fun y hy z hz => ?_, fun y hy z hz => ?_⟩
    · have hx : s.possible (some z) = true := (Option.mem_def.mp hz) ▸ hx
      unfold Stage.possible at hx
      rw [Option.all_some, Bool.and_eq_true] at hx
      have hincoming := hx.1
      rw [Option.mem_def.mp hy, Option.all_some, decide_eq_true_eq] at hincoming
      exact hincoming.symm
    · rcases List.mem_append.mp hz with hz | hz
      · exact h.root y hy z (Option.mem_toList.mp hz)
      · exact h.taken y hy z hz

/-- before the exchange -/
structure Early (s : Stage Tree) : Prop where
  exchanged : s.exchanged = []
  kept : s.kept = false
  apart : Apart s

/-- after the exchange: the tree that was taken from the root is in the temporary directory -/
structure Holding (u : Standing Tree) (s : Stage Tree) : Prop where
  exchanged : s.exchanged = [u]
  incoming : s.incoming = some u
  kept : s.kept = false
  apart : Apart s

/-- after the second exchange: the tree is back -/
structure Back (u x : Standing Tree) (s : Stage Tree) : Prop where
  exchanged : s.exchanged = [u, x]
  root : s.root = some u ∨ u ∈ s.taken
  incoming : s.incoming = some x
  retained : s.retained = none

/-- what was at the root instead of it is beside the workspace -/
structure Moved (u x : Standing Tree) (s : Stage Tree) : Prop where
  exchanged : s.exchanged = [u, x]
  root : s.root = some u ∨ u ∈ s.taken
  retained : s.retained = some x

theorem stable_of (hscript : ∀ s script, p s → p { s with script := script })
    (hroot : ∀ s x script, p s → s.possible x = true →
      p { s with root := x, taken := s.root.toList ++ s.taken, script := script }) : Stable p := by
  intro s hs
  obtain ⟨script, h | ⟨x, hx, h⟩⟩ := disturbed_cases s
  · rw [h]
    exact hscript s script hs
  · rw [h]
    exact hroot s x script hs hx

theorem exchanged_stable (l : List (Standing Tree)) : Stable fun s => s.exchanged = l :=
  stable_of (fun _ _ h => h) fun _ _ _ h _ => h

theorem early_stable : Stable (@Early Tree) := fun s h =>
  ⟨exchanged_stable [] s h.exchanged, stable_of (p := fun s => s.kept = false) (fun _ _ h => h)
    (fun _ _ _ h _ => h) s h.kept, h.apart.disturbed⟩

theorem holding_stable (u : Standing Tree) : Stable (Holding u) := fun s h =>
  ⟨exchanged_stable [u] s h.exchanged, stable_of (p := fun s => s.incoming = some u)
    (fun _ _ h => h)
    (fun _ _ _ h _ => h) s h.incoming, stable_of (p := fun s => s.kept = false) (fun _ _ h => h)
    (fun _ _ _ h _ => h) s h.kept, h.apart.disturbed⟩

theorem early_uncompared : Uncompared (@Early Tree) := fun _ _ h =>
  ⟨h.exchanged, h.kept, h.apart.retained, h.apart.root, h.apart.taken⟩

theorem holding_uncompared (u : Standing Tree) : Uncompared (Holding u) := fun _ _ h =>
  ⟨h.exchanged, h.incoming, h.kept, h.apart.retained, h.apart.root, h.apart.taken⟩

theorem root_or_taken {x : Option (Standing Tree)} (h : s.root = some u ∨ u ∈ s.taken) :
    x = some u ∨ u ∈ s.root.toList ++ s.taken := by
  refine .inr (List.mem_append.mpr (h.imp (fun h => ?_) id))
  rw [h]
  exact List.mem_singleton_self u

theorem back_stable (u x : Standing Tree) : Stable (Back u x) :=
  stable_of (fun _ _ h => ⟨h.exchanged, h.root, h.incoming, h.retained⟩) fun _ _ _ h _ =>
    ⟨h.exchanged, root_or_taken h.root, h.incoming, h.retained⟩

theorem moved_stable (u x : Standing Tree) : Stable (Moved u x) :=
  stable_of (fun _ _ h => ⟨h.exchanged, h.root, h.retained⟩) fun _ _ _ h _ =>
    ⟨h.exchanged, root_or_taken h.root, h.retained⟩

/-! ## the parts of a publication -/

/-- what does not depend on the recovery directory survives `retain` up to its renaming -/
theorem retain_spec {q : Stage Tree → Prop} (hp : Stable p) (hq : Stable q)
    (hjob : ∀ s, p s → p { s with jobTaken := true }) (hreceipt : ∀ s r, q s → q { s with receipt := r })
    (hmove : ∀ s x, p s → s.incoming = some x → q { s with incoming := none, retained := some x }) :
    Triple p (w.retain guest jobId) fun r s => (∃ e, r = .error e) ∧ (p s ∨ q s) ∨ q s := by
  have hstop : ∀ (e : RuntimeError) (s : Stage Tree), p s →
      (∃ e', (.error e : Except RuntimeError Unit) = .error e') ∧ (p s ∨ q s) ∨ q s :=
    fun e s hs => .inl ⟨⟨e, rfl⟩, .inl hs⟩
  have hstop' : ∀ (e : RuntimeError) (s : Stage Tree), q s →
      (∃ e', (.error e : Except RuntimeError Unit) = .error e') ∧ (p s ∨ q s) ∨ q s :=
    fun _ _ hs => .inr hs
  refine Triple.bind (touch_keeps hp) hstop fun _ => ?_
  have hlink : Prog.Keeps p (step fun s : Stage Tree => some (s.resultsLink, s)) :=
    step_keeps hp fun s a t hs h => by
      cases h
      exact hs
  refine Triple.bind hlink hstop fun link => ?_
  refine Triple.bind (Prog.Keeps.refuse link _) hstop fun _ => ?_
  refine Triple.bind (touch_keeps hp) hstop fun _ => ?_
  have hdirectory : Prog.Keeps p (step fun s : Stage Tree =>
      if s.jobTaken then none else some ((), { s with jobTaken := true })) :=
    step_keeps hp fun s a t hs h => by
      split at h
      · cases h
      · cases h
        exact hjob s hs
  refine Triple.bind hdirectory hstop fun _ => ?_
  have hrename : Triple p (step fun s : Stage Tree => s.incoming.map fun x =>
      ((), { s with incoming := none, retained := some x }))
      fun r s => (∃ e, r = .error e) ∧ p s ∨ r = .ok () ∧ q s := by
    refine step_triple hp (fun s a t hs h => ?_) fun s hs => .inl ⟨⟨_, rfl⟩, hs⟩
    obtain ⟨x, hx, h⟩ := Option.map_eq_some_iff.mp h
    cases h
    exact .inr ⟨rfl, hmove s x hs hx⟩
  refine Triple.bind hrename ?_ fun _ => ?_
  · rintro e s (⟨-, hs⟩ | ⟨h, -⟩)
    · exact hstop e s hs
    · cases h
  have hrest : Prog.Keeps q (do
      touch
      step fun s => some ((), { s with receipt := some ⟨jobId, w.baseline, guest⟩ })
      touch
      touch
      touch : Step Tree Unit) := by
    refine Prog.Keeps.bind (touch_keeps hq) fun _ => Prog.Keeps.bind ?_ fun _ => ?_
    · exact step_keeps hq fun s a t hs h => by
        cases h
        exact hreceipt s _ hs
    · exact Prog.Keeps.bind (touch_keeps hq) fun _ => Prog.Keeps.bind (touch_keeps hq) fun _ => touch_keeps hq
  refine hrest.mono (fun s hs => ?_) fun _ _ hs => .inr hs
  rcases hs with ⟨⟨e, he⟩, -⟩ | ⟨-, hs⟩
  · cases he
  · exact hs

/-- what was swapped out is back, and what was at the root instead is retained or kept -/
structure Settled (u x : Standing Tree) (s : Stage Tree) : Prop where
  exchanged : s.exchanged = [u, x]
  root : s.root = some u ∨ u ∈ s.taken
  present : s.kept = true ∧ s.incoming = some x ∨ s.retained = some x

theorem retainOrKeep_spec (w : Workspace) (guest : Entries) (jobId : Uuid) {q r : Stage Tree → Prop}
    (hp : Stable p) (hq : Stable q) (hjob : ∀ s, p s → p { s with jobTaken := true })
    (hreceipt : ∀ s r, q s → q { s with receipt := r })
    (hmove : ∀ s x, p s → s.incoming = some x → q { s with incoming := none, retained := some x })
    (hdone : ∀ s, q s → r s) (hkept : ∀ s, p s ∨ q s → r { s with kept := true }) :
    Triple p (w.retainOrKeep guest jobId) fun a s => a ≠ .ok true ∧ r s := by
  refine Triple.bind (Triple.attempt (retain_spec hp hq hjob hreceipt hmove)) ?_ fun a => ?_
  · rintro e s ⟨b, hb, -⟩
    cases hb
  · cases a with
    | ok u =>
      refine Triple.pure fun s ⟨b, hb, hs⟩ => ⟨fun h => (nomatch h), ?_⟩
      cases hb
      rcases hs with ⟨⟨e, he⟩, -⟩ | hs
      · cases he
      · exact hdone s hs
    | error e =>
      refine Triple.bind (r := fun _ s => r s)
        (Triple.update fun s ⟨b, hb, hs⟩ => ?_) ?_ fun _ => ?_
      · exact hkept s (hs.elim And.right .inr)
      · exact fun e s hs => ⟨fun h => (nomatch h), hs⟩
      · exact Triple.fail fun s hs => ⟨fun h => (nomatch h), hs⟩

theorem approach_spec (w : Workspace) (scan : Tree → Option Entries) (guest : Entries)
    (jobId : Uuid)
    (stopped stoppedAgain : Bool) :
    Triple Early (w.approach scan guest jobId stopped stoppedAgain) fun r s => s.exchanged = [] ∧
      (r = .ok (.inl true) → ∃ x, s.compared = some x ∧ scan x.tree = some guest) ∧
      (∀ m, r = .ok (.inr m) → Early s) := by
  unfold Workspace.approach
  split
  · exact Triple.pure fun s hs => ⟨hs.exchanged, fun h => (nomatch h), fun m h => (nomatch h)⟩
  · refine Triple.bind (matchesBaseline_spec early_stable early_uncompared .root) ?_ fun b => ?_
    · rintro e s ⟨-, b, hb, -⟩
      cases hb
    · cases b with
      | false =>
        have hretain : Triple (fun s : Stage Tree => s.exchanged = []) (w.retainOrKeep guest jobId)
            fun a s => a ≠ .ok true ∧ s.exchanged = [] :=
          retainOrKeep_spec w guest jobId (exchanged_stable []) (exchanged_stable [])
            (fun _ h => h) (fun _ _ h => h)
            (fun _ _ h _ => h) (fun _ h => h) fun _ h => h.elim id id
        refine Triple.bind (hretain.mono (fun s hs => hs.1.exchanged) fun _ _ h => h) ?_ fun b => ?_
        · exact fun e s hs => ⟨hs.2, fun h => (nomatch h), fun m h => (nomatch h)⟩
        · refine Triple.pure fun s hs => ⟨hs.2, fun h => ?_, fun m h => (nomatch h)⟩
          cases h
          exact absurd rfl hs.1
      | true =>
        show Triple _ (if _ then _ else if _ then _ else _) _
        split
        · exact Triple.pure fun s hs => ⟨hs.1.exchanged, fun h => (nomatch h),
            fun m h => (nomatch h)⟩
        · split
          · rename_i hsame
            refine Triple.pure fun s hs => ⟨hs.1.exchanged, fun _ => ?_, fun m h => (nomatch h)⟩
            obtain ⟨b, hb, hx⟩ := hs.2
            cases hb
            obtain ⟨x, hscan, -, hcompared⟩ := hx rfl
            exact ⟨x, hcompared rfl, hsame ▸ hscan⟩
          · have hmode : Prog.Keeps (@Early Tree) (setPermissions w.mode) :=
              step_keeps early_stable fun s a t hs h => by
                obtain ⟨x, hx, h⟩ := Option.map_eq_some_iff.mp h
                cases h
                refine ⟨hs.exchanged, hs.kept, hs.apart.retained, fun y hy => ?_, fun y hy => ?_⟩
                · cases hy
                  exact hs.apart.root x hx
                · cases hy
                  exact hs.apart.taken x hx
            refine Triple.bind (hmode.mono (fun s hs => hs.1) fun _ _ h => h) ?_ fun _ => ?_
            · exact fun e s hs => ⟨hs.exchanged, fun h => (nomatch h), fun m h => (nomatch h)⟩
            · refine Triple.bind (symlinkMetadata_keeps early_stable .incoming) ?_ fun m => ?_
              · exact fun e s hs => ⟨hs.exchanged, fun h => (nomatch h), fun m h => (nomatch h)⟩
              · exact Triple.pure fun s hs => ⟨hs.exchanged, fun h => (nomatch h), fun _ _ => hs⟩

/-! ## after the exchange -/

/-- no step fails before the trees are where they belong: the swapped-out tree is the baseline, and
the root can be compared with the guest's tree and its parent synchronised; or it is something else,
and the root can be looked at and the exchange be made once more -/
def Settling (w : Workspace) (scan : Tree → Option Entries) (guest : Entries) (new : Metadata)
    (s : Stage Tree) : Prop :=
  match w.matchesBaseline scan .incoming s with
  | (.ok true, s₁) => (matchesExact scan guest .root).Answers s₁ ∧
    ∀ s₂, matchesExact scan guest .root s₁ = (.ok true, s₂) → touch.Answers s₂
  | (_, s₁) => (symlinkMetadata .root).Answers s₁ ∧
    ∀ m s₂, symlinkMetadata .root s₁ = (.ok m, s₂) → m.identity = new.identity → exchange.Answers s₂

theorem Holding.lost (h : Holding u s) {e : RuntimeError} :
    ¬ Preserves w scan guest (.error e) s := by
  intro hp
  have hdropped : s.dropped = { s with incoming := none } := by
    unfold Stage.dropped
    rw [h.kept]
    rfl
  have hu := hp.kept (fun h => nomatch h) u (h.exchanged ▸ List.mem_singleton_self u)
  rw [hdropped] at hu
  rcases hu with (hroot | hretained | hincoming) | htaken
  · exact h.apart.root u h.incoming u hroot rfl
  · cases h.apart.retained.symm.trans hretained
  · cases hincoming
  · exact h.apart.taken u h.incoming u htaken rfl

theorem Holding.preserved (h : Holding u s) (e : RuntimeError) :
    Preserves w scan guest (.error e) { s with kept := true } where
  published := fun he => nomatch he
  kept := fun _ x hx => by
    have hx : x ∈ s.exchanged := hx
    rw [h.exchanged, List.mem_singleton] at hx
    subst hx
    exact .inl (.inr (.inr h.incoming))

theorem Settled.preserves {x : Standing Tree} (h : Settled u x s) {r : Except RuntimeError Bool}
    (hr : r ≠ .ok true) : Preserves w scan guest r s where
  published := fun he => absurd he hr
  kept := fun _ y hy => by
    have hroot : s.dropped.root = s.root := by
      unfold Stage.dropped
      split <;> rfl
    have hretained : s.dropped.retained = s.retained := by
      unfold Stage.dropped
      split <;> rfl
    rw [h.exchanged] at hy
    rcases List.mem_cons.mp hy with rfl | hy
    · exact h.root.imp (fun h => .inl (hroot.trans h)) id
    · rw [List.mem_singleton.mp hy]
      rcases h.present with ⟨hkept, hincoming⟩ | hx
      · refine .inl (.inr (.inr ?_))
        unfold Stage.dropped
        rw [if_pos hkept]
        exact hincoming
      · exact .inl (.inr (.inl (hretained.trans hx)))

theorem settle_back (h : Holding u s) (hex : exchange s = (.ok (), t)) :
    Preserves w scan guest (w.retainOrKeep guest jobId t).1 (w.retainOrKeep guest jobId t).2 := by
  obtain ⟨x, hback⟩ : ∃ x, Back u x t := by
    have hspec : Triple (Holding u) exchange fun r s => r = .ok () → ∃ x, Back u x s := by
      refine step_triple (holding_stable u) (fun s a t hs h => ?_) fun s hs h => nomatch h
      split at h
      · rename_i r i hr hi
        cases h
        rw [hs.incoming] at hi
        cases hi
        refine fun _ => ⟨r, ?_, .inl rfl, rfl, hs.apart.retained⟩
        show s.exchanged ++ [r] = _
        rw [hs.exchanged]
        rfl
      · cases h
    have hback := hspec s h
    rw [hex] at hback
    exact hback rfl
  have hsettled := retainOrKeep_spec w guest jobId (r := Settled u x)
    (back_stable u x) (moved_stable u x)
    (fun s h => ⟨h.exchanged, h.root, h.incoming, h.retained⟩)
    (fun s _ h => ⟨h.exchanged, h.root, h.retained⟩)
    (fun s y h hy => ⟨h.exchanged, h.root, hy.symm.trans h.incoming⟩)
    (fun s h => ⟨h.exchanged, h.root, .inr h.retained⟩)
    (fun s h => h.elim (fun h => ⟨h.exchanged, h.root, .inl ⟨rfl, h.incoming⟩⟩)
      fun h => ⟨h.exchanged, h.root, .inr h.retained⟩) t hback
  exact hsettled.2.preserves hsettled.1

/-- what is compared with the baseline in the temporary directory is what was swapped out -/
theorem matchesBaseline_incoming (w : Workspace) (scan : Tree → Option Entries) :
    Triple (Holding u) (w.matchesBaseline scan .incoming) fun r s =>
    Holding u s ∧ ∃ b, r = .ok b ∧ (b = true → w.IsBaseline scan u) := by
  have hmetadata : Triple (Holding u) (symlinkMetadata .incoming) fun r s =>
      Holding u s ∧ ∀ m, r = .ok m → m = u.toMetadata := by
    refine step_triple (holding_stable u) (fun s a t hs h => ?_) fun s hs =>
      ⟨hs, fun m h => by cases h⟩
    obtain ⟨x, hx, h⟩ := Option.map_eq_some_iff.mp h
    cases h
    cases hx.symm.trans hs.incoming
    exact ⟨hs, fun m hm => by cases hm; rfl⟩
  refine Triple.bind (Triple.attempt hmetadata) ?_ fun r => ?_
  · rintro e s ⟨b, hb, -⟩
    cases hb
  · cases r with
    | error e =>
      exact Triple.pure fun s ⟨b, hb, hs⟩ => ⟨hs.1, false, rfl, fun h => by cases h⟩
    | ok m =>
      show Triple _ (if _ then _ else _) _
      split
      · rename_i hm
        have hexact : Triple (fun s => Holding u s ∧ m = u.toMetadata)
            (matchesExact scan w.baseline .incoming) fun r s => (Holding u s ∧ m = u.toMetadata) ∧
              (r = .ok true → ∃ x, x.isDirectory = true ∧ scan x.tree = some w.baseline ∧
                s.at' .incoming = some x ∧ (Place.incoming = .root → s.compared = some x)) :=
          matchesExact_spec scan (fun s hs => ⟨holding_stable u s hs.1, hs.2⟩)
            (fun s x hs => ⟨holding_uncompared u s x hs.1, hs.2⟩) w.baseline .incoming
        refine Triple.bind (Triple.attempt (hexact.mono
          (fun s ⟨b, hb, hs⟩ => ⟨hs.1, hs.2 m (Except.ok.inj hb).symm⟩) fun _ _ h => h)) ?_ fun
            r => ?_
        · rintro e s ⟨b, hb, -⟩
          cases hb
        · cases r with
          | error e => exact Triple.pure fun s ⟨b, hb, hs⟩ =>
              ⟨hs.1.1, false, rfl, fun h => by cases h⟩
          | ok b =>
            refine Triple.pure fun s ⟨b', hb, hs⟩ => ⟨hs.1.1, b, rfl, ?_⟩
            rintro rfl
            cases hb
            obtain ⟨⟨hhold, hmeta⟩, hx⟩ := hs
            obtain ⟨x, hdir, hscan, hx, -⟩ := hx rfl
            cases hx.symm.trans hhold.incoming
            rw [hmeta] at hm
            exact ⟨hdir, hm.2.1, hm.2.2, hscan⟩
      · exact Triple.pure fun s ⟨b, hb, hs⟩ => ⟨hs.1, false, rfl, fun h => by cases h⟩

/-- **After the exchange nothing is lost exactly when no step fails before the trees are settled.**
-/
theorem conclude_preserves (new : Metadata) (h : Holding u s) :
    Preserves w scan guest (w.conclude scan guest jobId new s).1
      (w.conclude scan guest jobId new s).2 ↔
      Settling w scan guest new s := by
  have hbaseline := matchesBaseline_incoming w scan s h
  unfold Workspace.conclude Settling
  rcases hb : w.matchesBaseline scan .incoming s with ⟨r, s₁⟩
  rw [hb] at hbaseline
  obtain ⟨h₁, b, rfl, hu⟩ := hbaseline
  rw [bind_ok hb]
  cases b with
  | true =>
    have hexact := matchesExact_spec scan (holding_stable u) (holding_uncompared u) guest .root
      s₁ h₁
    show Preserves w scan guest ((matchesExact scan guest .root >>= _) s₁).1
      ((matchesExact scan guest .root >>= _) s₁).2 ↔ _ ∧ _
    rcases hm : matchesExact scan guest .root s₁ with ⟨e | b, s₂⟩
    · rw [bind_error hm]
      rw [hm] at hexact
      refine ⟨fun hp => absurd hp hexact.1.lost, fun ⟨⟨a, t, ha⟩, _⟩ => ?_⟩
      cases hm.symm.trans ha
    · rw [bind_ok hm]
      rw [hm] at hexact
      obtain ⟨h₂, hroot⟩ := hexact
      cases b with
      | false =>
        refine ⟨fun _ => ⟨⟨false, s₂, hm⟩, fun t ht => ?_⟩, fun _ => h₂.preserved _⟩
        cases ht
      | true =>
        obtain ⟨x, -, hscan, -, hcompared⟩ := hroot rfl
        have hx := hcompared rfl
        have htouch : Triple (fun s => Holding u s ∧ s.compared = some x) touch
            fun _ s => Holding u s ∧ s.compared = some x :=
          touch_keeps fun s hs => ⟨holding_stable u s hs.1, stable_of
            (p := fun s => s.compared = some x) (fun _ _ h => h) (fun _ _ _ h _ => h) s hs.2⟩
        have h₃ := htouch s₂ ⟨h₂, hx⟩
        show Preserves w scan guest ((touch >>= fun _ => pure true) s₂).1
          ((touch >>= fun _ => pure true) s₂).2 ↔ _
        rcases ht : touch s₂ with ⟨e | b, s₃⟩
        · rw [bind_error ht]
          rw [ht] at h₃
          refine ⟨fun hp => absurd hp h₃.1.lost, fun ⟨_, hanswers⟩ => ?_⟩
          obtain ⟨a, t, ha⟩ := hanswers s₂ rfl
          cases ht.symm.trans ha
        · rw [bind_ok ht]
          rw [ht] at h₃
          refine ⟨fun _ => ⟨⟨true, s₂, hm⟩, fun t ht' => ?_⟩,
            fun _ => ⟨fun _ => ⟨?_, x, h₃.2, hscan⟩, ?_⟩⟩
          · cases ht'
            exact ⟨b, s₃, ht⟩
          · intro y hy
            have hy : y ∈ s₃.exchanged := hy
            rw [h₃.1.exchanged, List.mem_singleton] at hy
            exact hy ▸ hu rfl
          · exact fun hne => absurd rfl hne
  | false =>
    have hstat := symlinkMetadata_keeps (holding_stable u) .root s₁ h₁
    show Preserves w scan guest ((symlinkMetadata .root >>= _) s₁).1
      ((symlinkMetadata .root >>= _) s₁).2 ↔ _ ∧ _
    rcases hm : symlinkMetadata .root s₁ with ⟨e | m, s₂⟩
    · rw [bind_error hm]
      rw [hm] at hstat
      refine ⟨fun hp => absurd hp hstat.lost, fun ⟨⟨a, t, ha⟩, _⟩ => ?_⟩
      cases hm.symm.trans ha
    · rw [bind_ok hm]
      rw [hm] at hstat
      by_cases hid : m.identity = new.identity
      · rw [if_neg (not_not.mpr hid)]
        rcases hex : exchange s₂ with ⟨e | v, s₃⟩
        · have hfailed : Triple (Holding u) exchange fun r s => ∀ e, r = .error e → Holding u s :=
            step_triple (holding_stable u) (fun s a t hs h e he => nomatch he) fun s hs _ _ => hs
          have h₃ := hfailed s₂ hstat
          rw [hex] at h₃
          rw [bind_error hex]
          refine ⟨fun hp => absurd hp (h₃ e rfl).lost, fun ⟨_, hanswers⟩ => ?_⟩
          obtain ⟨a, t, ha⟩ := hanswers m s₂ rfl hid
          cases hex.symm.trans ha
        · rw [bind_ok hex]
          refine ⟨fun _ => ⟨⟨m, s₂, hm⟩, fun m' t ht _ => ?_⟩, fun _ => settle_back hstat hex⟩
          cases ht
          exact ⟨v, s₃, hex⟩
      · rw [if_pos hid]
        refine ⟨fun _ => ⟨⟨m, s₂, hm⟩, fun m' t ht hm' => ?_⟩, fun _ => hstat.preserved _⟩
        cases ht
        exact absurd hm' hid

/-- **A publication preserves what stood at the root, whatever changes the root between its steps
and whichever of them fail, if and only if no step fails between the exchange and the place where
the trees are settled.** -/
theorem publish_preserves (w : Workspace) (scan : Tree → Option Entries) (guest : Entries)
    (jobId : Uuid)
    (stopped stoppedAgain : Bool) (p : Prepared Tree) (script : List (Interference Tree)) :
    Preserves w scan guest (w.publish scan guest jobId stopped stoppedAgain (p.stage script)).1
        (w.publish scan guest jobId stopped stoppedAgain (p.stage script)).2 ↔
      ∀ new s₁ s₂, w.approach scan guest jobId stopped stoppedAgain (p.stage script) =
        (.ok (.inr new), s₁) → exchange s₁ = (.ok (), s₂) → Settling w scan guest new s₂ := by
  have hearly : Early (p.stage script) := by
    refine ⟨rfl, rfl, rfl, fun y hy x hx => ?_, fun y _ x hx => nomatch hx⟩
    cases hy
    cases hx
    exact p.apart
  have happroach := approach_spec w scan guest jobId stopped stoppedAgain (p.stage script) hearly
  -- nothing was taken from the root without an exchange
  have hvacuous : ∀ {r : Except RuntimeError Bool} {s : Stage Tree}, s.exchanged = [] →
    r ≠ .ok true →
      Preserves w scan guest r s := fun hs hr =>
    ⟨fun he => absurd he hr, fun _ x hx => by rw [hs] at hx; cases hx⟩
  unfold Workspace.publish
  rcases ha : w.approach scan guest jobId stopped stoppedAgain (p.stage script) with ⟨e | a, s₁⟩
  · rw [ha] at happroach
    rw [bind_error ha]
    exact ⟨fun _ new _ _ h => (by cases h), fun _ => hvacuous happroach.1 fun h => (nomatch h)⟩
  · rw [ha] at happroach
    obtain ⟨hexchanged, hsame, hnew⟩ := happroach
    rw [bind_ok ha]
    cases a with
    | inl b =>
      refine ⟨fun _ new _ _ h => (by cases h), fun _ => ?_⟩
      cases b with
      | false => exact hvacuous hexchanged fun h => nomatch h
      | true =>
        refine ⟨fun _ => ⟨fun x hx => ?_, hsame rfl⟩, fun hne => absurd rfl hne⟩
        have hx : x ∈ s₁.exchanged := hx
        rw [hexchanged] at hx
        cases hx
    | inr new =>
      have h₁ := hnew new rfl
      have hswap : Triple (@Early Tree) exchange fun r s => s.exchanged = [] ∧ r ≠ .ok () ∨
          r = .ok () ∧ ∃ u, Holding u s := by
        refine step_triple early_stable (fun s a t hs h => ?_) fun s hs =>
          .inl ⟨hs.exchanged, fun h => nomatch h⟩
        split at h
        · rename_i r i hr hi
          cases h
          refine .inr ⟨rfl, r, ?_, rfl, hs.kept, hs.apart.retained, fun y hy x hx => ?_,
            fun y _ x hx => nomatch hx⟩
          · show s.exchanged ++ [r] = _
            rw [hs.exchanged]
            rfl
          · cases hy
            cases hx
            exact (hs.apart.root _ hi _ hr).symm
        · cases h
      have h₂ := hswap s₁ h₁
      show Preserves w scan guest ((exchange >>= _) s₁).1 ((exchange >>= _) s₁).2 ↔ _
      rcases hex : exchange s₁ with ⟨e | v, s₂⟩
      · rw [hex] at h₂
        rw [bind_error hex]
        refine ⟨fun _ new t t' h h' => ?_, fun _ => ?_⟩
        · cases h
          cases hex.symm.trans h'
        · rcases h₂ with ⟨h₂, -⟩ | ⟨h₂, -⟩
          · exact hvacuous h₂ fun h => nomatch h
          · cases h₂
      · rw [hex] at h₂
        rw [bind_ok hex]
        rcases h₂ with ⟨-, h₂⟩ | ⟨-, u, h₂⟩
        · exact absurd rfl h₂
        · refine (conclude_preserves new h₂).trans ⟨fun hs new' t t' h h' => ?_, fun hall => ?_⟩
          · cases h
            cases hex.symm.trans h'
            exact hs
          · exact hall new s₁ s₂ rfl hex

end

namespace PublishSample

/-- a tree is a number here, and its snapshot has it as a mode -/
def scan (n : Nat) : Option Entries := some [("src", .directory n)]

def workspace : Workspace := ⟨[("src", .directory 0)], (1, 10), 0o755⟩

def prepared : Prepared Nat where
  root := ⟨⟨(1, 10), true, 0o755⟩, 0⟩
  incoming := ⟨⟨(1, 20), true, 0o755⟩, 2⟩
  apart := by decide
  resultsLink := false
  jobTaken := false

/-- the workspace after a user has edited it -/
def edited : Standing Nat := ⟨⟨(1, 10), true, 0o755⟩, 1⟩

def quiet : Interference Nat := ⟨none, false⟩

/-- the edit comes right before the exchange, and then the root is moved away before it is looked at
-/
def script : List (Interference Nat) :=
  [quiet, quiet, quiet, quiet, ⟨some (some edited), false⟩, quiet, quiet, ⟨some none, false⟩]

def after : Except RuntimeError Bool × Stage Nat :=
  workspace.publish scan [("src", .directory 2)] ⟨0⟩ false false (prepared.stage script)

end PublishSample

open PublishSample

/-- the edited workspace is removed with the temporary directory -/
theorem publish_loses_edited : PublishSample.after.1.toOption = none ∧
    PublishSample.after.2.exchanged = [PublishSample.edited] ∧
    PublishSample.after.2.dropped.root = none ∧ PublishSample.after.2.dropped.retained = none ∧
      PublishSample.after.2.dropped.incoming = none ∧
    ¬ Preserves PublishSample.workspace PublishSample.scan [("src", .directory 2)] PublishSample.after.1
      PublishSample.after.2 := by
  have hexchanged : PublishSample.after.2.exchanged = [PublishSample.edited] := by decide
  have hroot : PublishSample.after.2.dropped.root = none := by decide
  have hretained : PublishSample.after.2.dropped.retained = none := by decide
  have hincoming : PublishSample.after.2.dropped.incoming = none := by decide
  have hfailed : PublishSample.after.1.toOption = none := by decide
  refine ⟨hfailed, hexchanged, hroot, hretained, hincoming, fun h => ?_⟩
  have hne : PublishSample.after.1 ≠ .ok true := fun h => by
    rw [h] at hfailed
    cases hfailed
  have hkept := h.kept hne PublishSample.edited (hexchanged ▸ List.mem_singleton_self PublishSample.edited)
  rcases hkept with (h | h | h) | h
  · cases hroot.symm.trans h
  · cases hretained.symm.trans h
  · cases hincoming.symm.trans h
  · exact absurd h (by decide)

end Orvek.Runtime
