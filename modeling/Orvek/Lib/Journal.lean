import Orvek.Lib.Checks

/-!
# Journals with checkpoints

A journal is a list of numbered rows, each with a hash that covers the row before it.  Reading a
journal folds its documents into a state; a checkpoint is a stored state that lets the reading
begin in the middle:

* `Format.advance`, `Format.replay`   one row, and a list of rows;
* `Format.Holds`                      the rows read from the beginning give this state and head;
* `Holds.append`                      one more row that is numbered and hashed after the last;
* `Holds.resume`                      reading on from any prefix that holds gives the same end;
* `Holds.linked`                      a row is hashed after the row before it;
* `Holds.invariant`                   what the first document establishes and every step keeps;
* `insertRow`, `latest`               the rows of a table in the order of their numbers, and the
                                      last checkpoint up to a number.
-/

namespace Journal
open Checks

structure Row (δ η : Type) where
  revision : Nat
  event : δ
  hash : η
  deriving DecidableEq

structure Checkpoint (τ η : Type) where
  revision : Nat
  state : τ
  head : η
  deriving DecidableEq

/-- one row of a table of states, with the rows of the journal and the checkpoints that belong to it -/
structure Aggregate (τ δ η : Type) where
  revision : Nat
  state : τ
  head : η
  events : List (Row δ η)
  checkpoints : List (Checkpoint τ η)
  deriving DecidableEq

/-- how documents become states: `create` reads the first one and `step` every other -/
structure Format (σ δ η ε : Type) where
  size : δ → Nat
  maxBytes : Nat
  hash : Nat → Option η → δ → η
  create : δ → Except ε σ
  step : σ → δ → Except ε σ
  badOrder : ε
  badHash : ε

structure Cursor (σ η : Type) where
  state : Option σ
  head : Option η
  sequence : Nat

def start {σ η : Type} : Cursor σ η := ⟨none, none, 0⟩

/-! ## tables -/

section
variable {δ η τ : Type}

/-- a new row, at its place in the order of the revisions; a second row of one revision is refused -/
def insertRow (r : Row δ η) : List (Row δ η) → Option (List (Row δ η))
  | [] => some [r]
  | x :: rows =>
    if x.revision = r.revision then none
    else if r.revision < x.revision then some (r :: x :: rows)
    else (insertRow r rows).map (x :: ·)

theorem insertRow_last {r : Row δ η} {rows : List (Row δ η)} (h : ∀ x ∈ rows, x.revision < r.revision) :
    insertRow r rows = some (rows ++ [r]) := by
  induction rows with
  | nil => rfl
  | cons x rows ih =>
    have hx := h x List.mem_cons_self
    rw [insertRow, if_neg (by omega), if_neg (by omega),
      ih fun y hy => h y (List.mem_cons_of_mem _ hy)]
    rfl

def putCheckpoint (c : Checkpoint τ η) (cs : List (Checkpoint τ η)) : List (Checkpoint τ η) :=
  c :: cs.filter fun d => d.revision ≠ c.revision

theorem mem_putCheckpoint {c d : Checkpoint τ η} {cs : List (Checkpoint τ η)}
    (h : d ∈ putCheckpoint c cs) : d = c ∨ d ∈ cs := by
  rcases List.mem_cons.mp h with rfl | h
  · exact .inl rfl
  · exact .inr (List.mem_filter.mp h).1

/-- the checkpoint of the greatest revision that is at most `last` -/
def latest (last : Nat) : List (Checkpoint τ η) → Option (Checkpoint τ η)
  | [] => none
  | c :: cs =>
    match latest last cs with
    | none => if c.revision ≤ last then some c else none
    | some d => if c.revision ≤ last ∧ d.revision < c.revision then some c else some d

theorem latest_mem {last : Nat} {cs : List (Checkpoint τ η)} {c : Checkpoint τ η}
    (h : latest last cs = some c) : c ∈ cs ∧ c.revision ≤ last := by
  induction cs with
  | nil => cases h
  | cons d cs ih =>
    rw [latest] at h
    split at h
    · split at h
      · cases h
        exact ⟨List.mem_cons_self, ‹_›⟩
      · cases h
    · rename_i e he
      split at h
      · rename_i hc
        cases h
        exact ⟨List.mem_cons_self, hc.1⟩
      · cases h
        obtain ⟨hm, hle⟩ := ih he
        exact ⟨List.mem_cons_of_mem _ hm, hle⟩

end

/-! ## reading -/

namespace Format
variable {σ δ η ε : Type} [DecidableEq η] (F : Format σ δ η ε)
variable {P : Nat → σ → Prop}

/-- what the next document makes of the state so far -/
def read : Option σ → δ → Except ε σ
  | none, d => F.create d
  | some s, d => F.step s d

def advance (c : Cursor σ η) (r : Row δ η) : Except ε (Cursor σ η) := do
  refuseIf (r.revision ≠ c.sequence + 1 ∨ F.maxBytes < F.size r.event) F.badOrder
  refuseIf (F.hash r.revision c.head r.event ≠ r.hash) F.badHash
  let state ← F.read c.state r.event
  pure ⟨some state, some (F.hash r.revision c.head r.event), c.sequence + 1⟩

def replay (c : Cursor σ η) (rows : List (Row δ η)) : Except ε (Cursor σ η) := rows.foldlM F.advance c

theorem replay_append (c : Cursor σ η) (a b : List (Row δ η)) :
    F.replay c (a ++ b) = (F.replay c a).bind fun c' => F.replay c' b := List.foldlM_append

variable {F}
variable {c c' : Cursor σ η}

theorem advance_ok {r : Row δ η} (h : F.advance c r = .ok c') :
    r.revision = c.sequence + 1 ∧ F.size r.event ≤ F.maxBytes ∧ c'.head = some r.hash ∧
      c'.sequence = c.sequence + 1 ∧ c'.state.isSome = true := by
  obtain ⟨horder, h⟩ := refuseIf_bind h
  obtain ⟨hhash, h⟩ := refuseIf_bind h
  obtain ⟨s, -, h⟩ := bind_ok h
  cases h
  rw [not_or, not_not, Nat.not_lt] at horder
  exact ⟨horder.1, horder.2, by rw [not_not.mp hhash], rfl, rfl⟩

attribute [grind =] advance

theorem advance_next (c : Cursor σ η) {d : δ} {s : σ} (hread : F.read c.state d = .ok s)
    (hsize : F.size d ≤ F.maxBytes) :
    F.advance c ⟨c.sequence + 1, d, F.hash (c.sequence + 1) c.head d⟩ =
      .ok ⟨some s, some (F.hash (c.sequence + 1) c.head d), c.sequence + 1⟩ := by
  rw [advance, refuseIf_of_not _ (by simp [hsize]), ok_bind, refuseIf_of_not _ (by simp), ok_bind,
    hread]
  rfl

variable {rows : List (Row δ η)}

theorem replay_numbered (h : F.replay c rows = .ok c') :
    c'.sequence = c.sequence + rows.length ∧ ∀ r ∈ rows, c.sequence < r.revision ∧
      r.revision ≤ c.sequence + rows.length := by
  induction rows generalizing c with
  | nil =>
    cases h
    exact ⟨rfl, fun _ hr => nomatch hr⟩
  | cons r rows ih =>
    obtain ⟨d, hd, h⟩ := bind_ok h
    obtain ⟨hr, -, -, hseq, -⟩ := advance_ok hd
    obtain ⟨hend, hrows⟩ := ih h
    rw [List.length_cons]
    refine ⟨by omega, fun x hx => ?_⟩
    rcases List.mem_cons.mp hx with rfl | hx
    · omega
    · have := hrows x hx
      omega

theorem replay_some (h : F.replay c rows = .ok c') (hne : rows ≠ []) :
    c'.state.isSome = true ∧ c'.head.isSome = true := by
  induction rows generalizing c with
  | nil => exact absurd rfl hne
  | cons r rows ih =>
    obtain ⟨d, hd, h⟩ := bind_ok h
    rcases eq_or_ne rows [] with rfl | hrest
    · cases h
      obtain ⟨-, -, hhead, -, hstate⟩ := advance_ok hd
      exact ⟨hstate, by rw [hhead]; rfl⟩
    · exact ih h hrest

theorem advance_read {r : Row δ η} (h : F.advance c r = .ok c') :
    ∃ s, F.read c.state r.event = .ok s ∧ c' = ⟨some s, some r.hash, c.sequence + 1⟩ := by
  obtain ⟨-, h⟩ := refuseIf_bind h
  obtain ⟨hhash, h⟩ := refuseIf_bind h
  obtain ⟨s, hread, h⟩ := bind_ok h
  cases h
  exact ⟨s, hread, by rw [not_not.mp hhash]⟩

theorem replay_invariant (hstep : ∀ {n s r s'}, r ∈ rows → P n s → F.step s r.event = .ok s' → P (n + 1) s')
    (h : F.replay c rows = .ok c') {s : σ} (hs : c.state = some s) (hP : P c.sequence s) :
    ∃ s', c'.state = some s' ∧ P c'.sequence s' := by
  induction rows generalizing c s with
  | nil =>
    cases h
    exact ⟨s, hs, hP⟩
  | cons r rows ih =>
    obtain ⟨d, hd, h⟩ := bind_ok h
    obtain ⟨t, hread, rfl⟩ := advance_read hd
    rw [hs] at hread
    exact ih (fun hr => hstep (List.mem_cons_of_mem r hr)) h rfl
      (hstep List.mem_cons_self hP hread)

/-- the rows, read from the beginning, give this state and this head -/
def Holds (F : Format σ δ η ε) (rows : List (Row δ η)) (s : σ) (h : η) : Prop :=
  F.replay start rows = .ok ⟨some s, some h, rows.length⟩

attribute [grind =] Journal.start

theorem Holds.create {d : δ} {s : σ} (h : F.create d = .ok s) (hsize : F.size d ≤ F.maxBytes) :
    F.Holds [⟨1, d, F.hash 1 none d⟩] s (F.hash 1 none d) := by
  show (F.advance start _ >>= _) = _
  rw [show F.advance start ⟨1, d, F.hash 1 none d⟩ = _ from advance_next start h hsize]
  rfl

variable {rows : List (Row δ η)} {s : σ} {h : η}

theorem Holds.numbered (H : F.Holds rows s h) : ∀ r ∈ rows, 0 < r.revision ∧ r.revision ≤ rows.length := by
  intro r hr
  have := (replay_numbered H).2 r hr
  simp only [start] at this
  omega

theorem replay_head (h : F.replay c rows = .ok c') : c'.head = (rows.getLast?.map Row.hash).or c.head := by
  induction rows generalizing c with
  | nil =>
    cases h
    rfl
  | cons r rows ih =>
    obtain ⟨d, hd, h⟩ := bind_ok h
    obtain ⟨-, -, hhead, -⟩ := advance_ok hd
    rw [ih h, hhead]
    cases rows with
    | nil => rfl
    | cons x rows =>
      have hlast : ∃ y, (x :: rows).getLast? = some y := ⟨_, List.getLast?_eq_some_getLast (by simp)⟩
      obtain ⟨y, hy⟩ := hlast
      rw [List.getLast?_cons_cons, hy]
      rfl

attribute [grind =] Holds

theorem Holds.linked (H : F.Holds rows s h) {before later : List (Row δ η)} {r : Row δ η}
    (hrows : rows = before ++ r :: later) : r.revision = before.length + 1 ∧
      F.size r.event ≤ F.maxBytes ∧
      F.hash r.revision (before.getLast?.map Row.hash) r.event = r.hash := by
  unfold Holds at H
  rw [hrows, replay_append] at H
  obtain ⟨c, hc, H⟩ := bind_ok H
  obtain ⟨d, hd, -⟩ := bind_ok H
  obtain ⟨hrev, hsize, -⟩ := advance_ok hd
  obtain ⟨-, hd⟩ := refuseIf_bind hd
  obtain ⟨hhash, -⟩ := refuseIf_bind hd
  have hseq := (replay_numbered hc).1
  have hhead := replay_head hc
  rw [show (start : Cursor σ η).head = none from rfl, Option.or_none] at hhead
  rw [hhead] at hhash
  exact ⟨by rw [hrev, hseq]; simp [start], hsize, not_not.mp hhash⟩

theorem Holds.course (hcreate : ∀ {d s}, F.create d = .ok s → P 1 s)
    (hstep : ∀ {n s r s'}, r ∈ rows → P n s → F.step s r.event = .ok s' → P (n + 1) s')
    (H : F.Holds rows s h) : P rows.length s := by
  cases rows with
  | nil => cases H
  | cons r rows =>
    obtain ⟨c, hc, hrest⟩ := bind_ok H
    obtain ⟨t, hread, rfl⟩ := advance_read hc
    obtain ⟨u, hu, hP⟩ := replay_invariant (fun hr => hstep (List.mem_cons_of_mem r hr)) hrest rfl
      (hcreate hread)
    cases hu
    exact hP

theorem Holds.invariant (hcreate : ∀ {d s}, F.create d = .ok s → P 1 s)
    (hstep : ∀ {n s d s'}, P n s → F.step s d = .ok s' → P (n + 1) s') (H : F.Holds rows s h) :
    P rows.length s :=
  H.course hcreate fun _ => hstep

theorem Holds.append (H : F.Holds rows s h) {d : δ} {s' : σ} (hstep : F.step s d = .ok s')
    (hsize : F.size d ≤ F.maxBytes) :
    F.Holds (rows ++ [⟨rows.length + 1, d, F.hash (rows.length + 1) (some h) d⟩]) s'
      (F.hash (rows.length + 1) (some h) d) := by
  unfold Holds at H ⊢
  rw [replay_append, H, List.length_append]
  show (F.advance ⟨some s, some h, rows.length⟩ _ >>= _) = _
  rw [show F.advance ⟨some s, some h, rows.length⟩ _ = _ from advance_next _ hstep hsize]
  rfl

theorem Holds.take (H : F.Holds rows s h) {k : Nat} (hpos : 0 < k) (hk : k ≤ rows.length) :
    ∃ t g, F.Holds (rows.take k) t g := by
  unfold Holds at H ⊢
  rw [← List.take_append_drop k rows, replay_append] at H
  obtain ⟨⟨state, head, sequence⟩, hc, -⟩ := bind_ok H
  have hlen : (rows.take k).length = k := by rw [List.length_take]; omega
  obtain ⟨hseq, -⟩ := replay_numbered hc
  obtain ⟨hstate, hhead⟩ := replay_some hc (List.ne_nil_of_length_pos (by omega))
  obtain ⟨t, rfl⟩ := Option.isSome_iff_exists.mp hstate
  obtain ⟨g, rfl⟩ := Option.isSome_iff_exists.mp hhead
  refine ⟨t, g, ?_⟩
  rw [hc]
  simp only [start, Nat.zero_add] at hseq
  rw [hseq]

theorem Holds.resume (H : F.Holds rows s h) {k : Nat} (hk : k ≤ rows.length) {t : σ} {g : η}
    (hp : F.Holds (rows.take k) t g) :
    F.replay ⟨some t, some g, k⟩ (rows.drop k) = .ok ⟨some s, some h, rows.length⟩ := by
  have hlen : (rows.take k).length = k := by rw [List.length_take]; omega
  unfold Holds at H hp
  rw [← List.take_append_drop k rows, replay_append, hp, hlen, List.take_append_drop] at H
  exact H

/-- the rows after a revision, and up to one, are those around its place in the list -/
theorem replay_filter (hr : F.replay c rows = .ok c') (k : Nat) :
    rows.filter (fun r => c.sequence + k < r.revision) = rows.drop k ∧
    rows.filter (fun r => r.revision ≤ c.sequence + k) = rows.take k := by
  induction rows generalizing c k with
  | nil => simp
  | cons r rows ih =>
    obtain ⟨d, hd, hr⟩ := bind_ok hr
    obtain ⟨hrev, -, -, hseq, -⟩ := advance_ok hd
    cases k with
    | zero =>
      have hall := (replay_numbered hr).2
      have hafter : ∀ x ∈ r :: rows, c.sequence < x.revision := fun x hx => by
        rcases List.mem_cons.mp hx with rfl | hx
        · omega
        · have := hall x hx
          omega
      refine ⟨List.filter_eq_self.mpr fun x hx => by simpa using hafter x hx, ?_⟩
      rw [List.take_zero, List.filter_eq_nil_iff]
      exact fun x hx => by simpa using hafter x hx
    | succ k =>
      obtain ⟨h1, h2⟩ := ih hr k
      rw [hseq, Nat.add_right_comm, Nat.add_assoc] at h1 h2
      rw [List.filter_cons, if_neg (by simp; omega), List.filter_cons, if_pos (by simp; omega)]
      exact ⟨h1, by rw [h2, List.take_succ_cons]⟩

theorem Holds.after (H : F.Holds rows s h) (k : Nat) :
    rows.filter (fun r => k < r.revision) = rows.drop k := by
  have := (replay_filter H k).1
  simpa [start] using this

theorem Holds.upTo (H : F.Holds rows s h) (k : Nat) :
    rows.filter (fun r => r.revision ≤ k) = rows.take k := by
  have := (replay_filter H k).2
  simpa [start] using this

end Format
end Journal
