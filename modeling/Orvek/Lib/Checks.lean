import Mathlib.Data.List.Basic

/-!
# Checked computations

A function that can refuse its input is a chain of guards in `Except`.  The lemmas here take such
a chain apart once it has succeeded:

* `refuseIf`       one guard;
* `bind_ok`        a chain that succeeded has a successful first part and a successful rest;
* `checkAll`       one guard for every element of a list;
* `transaction`    a computation on a store that leaves all of its writes or none.
-/

namespace Checks

variable {ε α β : Type}
variable {x : Except ε α} {f : α → Except ε Unit} {l : List α}

/-- fail with `e` when the condition holds -/
def refuseIf (c : Prop) [Decidable c] (e : ε) : Except ε Unit := if c then .error e else .ok ()

theorem refuseIf_ok {c : Prop} [Decidable c] {e : ε} {u : Unit} (h : refuseIf c e = .ok u) : ¬ c := by
  unfold refuseIf at h
  split at h
  · cases h
  · assumption

theorem refuseIf_of_not {c : Prop} [Decidable c] (e : ε) (h : ¬ c) : refuseIf c e = .ok () := if_neg h

theorem bind_ok {f : α → Except ε β} {b : β} (h : (x >>= f) = .ok b) : ∃ a, x = .ok a ∧ f a = .ok b := by
  cases x with
  | error e => cases h
  | ok a => exact ⟨a, rfl, h⟩

theorem mapError_ok {ε' : Type} {f : ε → ε'} {a : α} (h : x.mapError f = .ok a) : x = .ok a := by
  cases x with
  | error e => cases h
  | ok b =>
    cases h
    rfl

theorem ok_bind (a : α) (f : α → Except ε β) : (Except.ok a >>= f) = f a := rfl

theorem error_bind (e : ε) (f : α → Except ε β) : (Except.error e >>= f) = .error e := rfl

theorem refuseIf_bind {c : Prop} [Decidable c] {e : ε} {f : Unit → Except ε β} {b : β}
    (h : (refuseIf c e >>= f) = .ok b) : ¬ c ∧ f () = .ok b := by
  obtain ⟨u, hu, hf⟩ := bind_ok h
  exact ⟨refuseIf_ok hu, hf⟩

/-- the same check on every element, in order -/
def checkAll (f : α → Except ε Unit) : List α → Except ε Unit
  | [] => .ok ()
  | a :: l => do f a; checkAll f l

theorem checkAll_ok {u : Unit} (h : checkAll f l = .ok u) : ∀ a ∈ l, f a = .ok () := by
  induction l with
  | nil => exact fun _ h => nomatch h
  | cons a l ih =>
    obtain ⟨_, ha, hl⟩ := bind_ok h
    intro x hx
    rcases List.mem_cons.mp hx with rfl | hx
    · exact ha
    · exact ih hl x hx

theorem checkAll_of (h : ∀ a ∈ l, f a = .ok ()) : checkAll f l = .ok () := by
  induction l with
  | nil => rfl
  | cons a l ih =>
    show (f a >>= fun _ => checkAll f l) = .ok ()
    rw [h a List.mem_cons_self, ok_bind, ih fun b hb => h b (List.mem_cons_of_mem _ hb)]

theorem checkAll_error {e : ε} (h : checkAll f l = .error e) : ∃ a ∈ l, f a = .error e := by
  induction l with
  | nil => cases h
  | cons a l ih =>
    cases ha : f a with
    | error e' =>
      have h : (f a >>= fun _ => checkAll f l) = .error e := h
      rw [ha, error_bind] at h
      exact ⟨a, List.mem_cons_self, ha.trans h⟩
    | ok _ =>
      have h : (f a >>= fun _ => checkAll f l) = .error e := h
      rw [ha, ok_bind] at h
      obtain ⟨b, hb, he⟩ := ih h
      exact ⟨b, List.mem_cons_of_mem _ hb, he⟩

theorem forM_ok : l.forM f = .ok () ↔ ∀ a ∈ l, f a = .ok () := by
  induction l with
  | nil => exact ⟨fun _ => nofun, fun _ => rfl⟩
  | cons a l ih =>
    rw [List.forall_mem_cons, ← ih]
    show (f a >>= fun _ => l.forM f) = .ok () ↔ _
    constructor
    · intro h
      obtain ⟨_, ha, hl⟩ := bind_ok h
      exact ⟨ha, hl⟩
    · rintro ⟨ha, hl⟩
      rw [ha, ok_bind]
      exact hl

theorem mapM_ok {f : α → Except ε β} : (∃ r, l.mapM f = .ok r) ↔ ∀ x ∈ l, ∃ y, f x = .ok y := by
  induction l with
  | nil => exact ⟨fun _ => nofun, fun _ => ⟨[], rfl⟩⟩
  | cons x l ih =>
    rw [List.forall_mem_cons, ← ih, List.mapM_cons]
    constructor
    · rintro ⟨r, h⟩
      obtain ⟨y, hy, h⟩ := bind_ok h
      obtain ⟨r', hr', -⟩ := bind_ok h
      exact ⟨⟨y, hy⟩, r', hr'⟩
    · rintro ⟨⟨y, hy⟩, r, hr⟩
      refine ⟨y :: r, ?_⟩
      rw [hy, ok_bind, hr, ok_bind]
      rfl

theorem mapM_getElem {f : α → Except ε β} {r : List β} (h : l.mapM f = .ok r) :
    r.length = l.length ∧ ∀ (i : Nat) (a : α), l[i]? = some a → ∃ b, f a = .ok b ∧ r[i]? = some b := by
  induction l generalizing r with
  | nil =>
    cases h
    exact ⟨rfl, fun i a ha => by simp at ha⟩
  | cons x l ih =>
    rw [List.mapM_cons] at h
    obtain ⟨y, hy, h⟩ := bind_ok h
    obtain ⟨r', hr', h⟩ := bind_ok h
    cases h
    obtain ⟨hlength, hget⟩ := ih hr'
    refine ⟨by rw [List.length_cons, List.length_cons, hlength], fun i a ha => ?_⟩
    cases i with
    | zero =>
      cases ha
      exact ⟨y, hy, rfl⟩
    | succ i => exact hget i a ha

theorem mapError_isOk {ε' : Type} {f : ε → ε'} : (∃ a, x.mapError f = .ok a) ↔ ∃ a, x = .ok a := by
  cases x with
  | ok a => exact ⟨fun _ => ⟨a, rfl⟩, fun _ => ⟨a, rfl⟩⟩
  | error e => exact ⟨fun ⟨_, h⟩ => (nomatch h), fun ⟨_, h⟩ => (nomatch h)⟩

/-! ## transactions -/

/-- what a transaction leaves: the writes of its body, or nothing of them when the body or the
commit fails -/
def transaction {σ : Type} (commit : Except ε Unit) (body : σ → Except ε (α × σ)) (s : σ) :
    Except ε α × σ :=
  match (do let done ← body s; commit; .ok done : Except ε (α × σ)) with
  | .ok (a, t) => (.ok a, t)
  | .error e => (.error e, s)

theorem transaction_cases {σ : Type} (commit : Except ε Unit) (body : σ → Except ε (α × σ)) (s : σ) :
    (∃ a t, body s = .ok (a, t) ∧ transaction commit body s = (.ok a, t)) ∨
      ∃ e, transaction commit body s = (.error e, s) := by
  unfold transaction
  cases hbody : body s with
  | error e => exact .inr ⟨e, rfl⟩
  | ok done =>
    obtain ⟨a, t⟩ := done
    cases commit with
    | error e => exact .inr ⟨e, rfl⟩
    | ok u => exact .inl ⟨a, t, rfl, rfl⟩

theorem transaction_error {σ : Type} (commit : Except ε Unit) {body : σ → Except ε (α × σ)} {s : σ} {e : ε}
    (h : body s = .error e) : transaction commit body s = (.error e, s) := by
  unfold transaction
  rw [h]
  rfl

/-! ## running over a list -/

section
variable {σ : Type} {f : σ → α → Except ε σ} {R : σ → σ → Prop}

theorem foldlM_rel (hrefl : ∀ s, R s s) (htrans : ∀ {a b c}, R a b → R b c → R a c)
    (hstep : ∀ {s a t}, f s a = .ok t → R s t) {l : List α} {s t : σ}
    (h : l.foldlM f s = .ok t) : R s t := by
  induction l generalizing s with
  | nil =>
    cases h
    exact hrefl _
  | cons a l ih =>
    obtain ⟨u, hu, h⟩ := bind_ok h
    exact htrans (hstep hu) (ih h)

theorem foldlM_each {P : α → σ → Prop} (hkeep : ∀ {s a t b}, f s a = .ok t → P b s → P b t)
    {l : List α} (hmake : ∀ {s a t}, a ∈ l → f s a = .ok t → P a t) {s t : σ}
    (h : l.foldlM f s = .ok t) : ∀ a ∈ l, P a t := by
  induction l generalizing s with
  | nil => exact fun _ hm => nomatch hm
  | cons a l ih =>
    obtain ⟨u, hu, hrest⟩ := bind_ok h
    intro b hb
    rcases List.mem_cons.mp hb with rfl | hb
    · have hrun : ∀ v, P b v → ∀ w, l.foldlM f v = .ok w → P b w := fun v hv w hw =>
        foldlM_rel (R := fun x y => P b x → P b y) (fun _ h => h) (fun h h' hx => h' (h hx))
          (fun hs => hkeep hs) hw hv
      exact hrun u (hmake List.mem_cons_self hu) t hrest
    · exact ih (fun hm => hmake (List.mem_cons_of_mem _ hm)) hrest b hb

end

end Checks
