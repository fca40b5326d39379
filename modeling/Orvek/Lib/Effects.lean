import Mathlib.Logic.Basic

/-!
# Computations that fail and leave their effects

A computation changes a state and may fail; what it has changed by then stays changed.

* `Prog`             such a computation, with `attempt` to look at its failure;
* `Prog.Triple`      what a computation leaves, of every state with a property;
* `Triple.bind`      the rule for a sequence, which may stop at its first part;
* `Prog.Keeps`       a property of states that survives success and failure;
* `Prog.Yields`      the same, and what is known of the result;
* `Prog.Answers`     the computation does not fail in this state.
-/

namespace Effects

/-- a computation with results in `α`; its effects stay when it fails -/
def Prog (ε σ α : Type) : Type := σ → Except ε α × σ

namespace Prog

variable {ε σ α β : Type} {x : Prog ε σ α} {f : α → Prog ε σ β} {s t : σ} {a : α} {e : ε}

def bind (x : Prog ε σ α) (f : α → Prog ε σ β) : Prog ε σ β := fun s =>
  match x s with
  | (.ok a, t) => f a t
  | (.error e, t) => (.error e, t)

instance : Monad (Prog ε σ) where
  pure a := fun s => (.ok a, s)
  bind := bind

def fail (e : ε) : Prog ε σ α := fun s => (.error e, s)

/-- one guard -/
def refuse (c : Bool) (e : ε) : Prog ε σ Unit := if c then fail e else pure ()

/-- the failure becomes a result -/
def attempt (x : Prog ε σ α) : Prog ε σ (Except ε α) := fun s => (.ok (x s).1, (x s).2)

def update (g : σ → σ) : Prog ε σ Unit := fun s => (.ok (), g s)

theorem bind_ok (h : x s = (.ok a, t)) : (x >>= f) s = f a t := by
  show bind x f s = _
  rw [bind, h]

theorem bind_error (h : x s = (.error e, t)) : (x >>= f) s = (.error e, t) := by
  show bind x f s = _
  rw [bind, h]

theorem bind_inv {b : β} (h : (x >>= f) s = (.ok b, t)) :
    ∃ a u, x s = (.ok a, u) ∧ f a u = (.ok b, t) := by
  rcases hx : x s with ⟨e | a, u⟩
  · rw [bind_error hx] at h
    cases h
  · rw [bind_ok hx] at h
    exact ⟨a, u, rfl, h⟩

theorem refuse_inv {c : Bool} {u : Unit} (h : (refuse c e : Prog ε σ Unit) s = (.ok u, t)) :
    c = false ∧ t = s := by
  cases c
  · cases h
    exact ⟨rfl, rfl⟩
  · cases h

theorem attempt_apply (x : Prog ε σ α) (s : σ) : x.attempt s = (.ok (x s).1, (x s).2) := rfl

/-- the computation does not fail in the state -/
def Answers (x : Prog ε σ α) (s : σ) : Prop := ∃ a t, x s = (.ok a, t)

/-! ## triples -/

variable {p p' : σ → Prop} {q r : Except ε α → σ → Prop} {q' : Except ε β → σ → Prop}

/-- from a state with `p` the computation comes to its result and a state that have `q` -/
def Triple (p : σ → Prop) (x : Prog ε σ α) (q : Except ε α → σ → Prop) : Prop :=
  ∀ s, p s → q (x s).1 (x s).2

theorem Triple.mono (h : Triple p x q) (hp : ∀ s, p' s → p s) (hq : ∀ a s, q a s → r a s) :
    Triple p' x r := fun s hs => hq _ _ (h s (hp s hs))

theorem Triple.pure (h : ∀ s, p s → q (.ok a) s) : Triple p (pure a) q := fun s hs => h s hs

theorem Triple.fail (h : ∀ s, p s → q (.error e) s) : Triple p (fail e) q := fun s hs => h s hs

theorem Triple.update {g : σ → σ} {q : Except ε Unit → σ → Prop} (h : ∀ s, p s → q (.ok ()) (g s)) :
    Triple p (update g) q := fun s hs => h s hs

theorem Triple.bind (hx : Triple p x r) (hstop : ∀ e s, r (.error e) s → q' (.error e) s)
    (hgo : ∀ a, Triple (r (.ok a)) (f a) q') : Triple p (x >>= f) q' := by
  intro s hs
  have hr := hx s hs
  rcases hrun : x s with ⟨e | a, t⟩
  · rw [hrun] at hr
    rw [bind_error hrun]
    exact hstop e t hr
  · rw [hrun] at hr
    rw [bind_ok hrun]
    exact hgo a t hr

theorem Triple.attempt (h : Triple p x q) :
    Triple p x.attempt fun a s => ∃ b, a = .ok b ∧ q b s := fun s hs => ⟨_, rfl, h s hs⟩

/-- the property survives the computation, whether it fails or not -/
def Keeps (p : σ → Prop) (x : Prog ε σ α) : Prop := Triple p x fun _ => p

theorem Keeps.run {r : Except ε α} (h : Keeps p x) (hs : p s) (hx : x s = (r, t)) : p t := by
  have ht := h s hs
  rwa [hx] at ht

theorem Keeps.pure (a : α) : Keeps p (Pure.pure a : Prog ε σ α) := Triple.pure fun _ hs => hs

theorem Keeps.fail (e : ε) : Keeps p (fail e : Prog ε σ α) := Triple.fail fun _ hs => hs

theorem Keeps.refuse (c : Bool) (e : ε) : Keeps p (refuse c e : Prog ε σ Unit) := by
  cases c
  · exact Keeps.pure ()
  · exact Keeps.fail e

theorem Keeps.bind (hx : Keeps p x) (hf : ∀ a, Keeps p (f a)) : Keeps p (x >>= f) :=
  Triple.bind hx (fun _ _ hs => hs) hf

theorem Keeps.ite {c : Prop} [Decidable c] {y : Prog ε σ α} (hx : Keeps p x) (hy : Keeps p y) :
    Keeps p (if c then x else y) := by
  split
  · exact hx
  · exact hy

theorem Keeps.attempt (h : Keeps p x) : Keeps p x.attempt := fun s hs => h s hs

/-- the property survives, and a result is good -/
def Yields (p : σ → Prop) (good : α → Prop) (x : Prog ε σ α) : Prop :=
  Triple p x fun r s => p s ∧ ∀ a, r = .ok a → good a

variable {good : α → Prop} {good' : β → Prop}

theorem Yields.keeps (h : Yields p good x) : Keeps p x := fun s hs => (h s hs).1

theorem Yields.run (h : Yields p good x) (hs : p s) (hx : x s = (.ok a, t)) : p t ∧ good a := by
  have ht := h s hs
  rw [hx] at ht
  exact ⟨ht.1, ht.2 a rfl⟩

theorem Yields.pure (h : good a) : Yields p good (Pure.pure a : Prog ε σ α) :=
  Triple.pure fun _ hs => ⟨hs, fun _ hb => Except.ok.inj hb ▸ h⟩

theorem Keeps.bind_yields (hx : Keeps p x) (hf : ∀ a, Yields p good' (f a)) :
    Yields p good' (x >>= f) :=
  Triple.bind hx (fun _ _ hs => ⟨hs, fun _ ha => by cases ha⟩) hf

theorem Yields.bind (hx : Yields p good x) (hf : ∀ a, good a → Yields p good' (f a)) :
    Yields p good' (x >>= f) :=
  Triple.bind hx (fun _ _ hs => ⟨hs.1, fun _ ha => by cases ha⟩) fun a s hs =>
    hf a (hs.2 a rfl) s hs.1

theorem Yields.then (hx : Yields p good x) (hf : ∀ a, good a → Keeps p (f a)) :
    Keeps p (x >>= f) :=
  Triple.bind hx (fun _ _ hs => hs.1) fun a s hs => hf a (hs.2 a rfl) s hs.1

end Prog

end Effects
