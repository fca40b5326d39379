import Mathlib.Data.List.Basic

/-!
# Loops that read in pages

A store is read a page at a time, and every row of a page is worked on before the next one is read.
The rows of a page are as they were when it was read, and the work on one row leaves the others
alone, so that each row is met in the state it had before the loop.

* `Meets E m Q`    `m` ends with `Q`, or it fails and `E` says why it may;
* `sweep`          the loop;
* `sweep_meets`    its rule: an invariant over the rows that are done.
-/

set_option linter.unusedSectionVars false

namespace Sweep
variable {ε α β σ : Type} {E : Prop}
variable {m : Except ε α} {Q : α → Prop}

/-- a computation that ends with `Q`, or fails when it may -/
def Meets (E : Prop) (m : Except ε α) (Q : α → Prop) : Prop :=
  match m with
  | .ok a => Q a
  | .error _ => E

theorem Meets.of_ok {a : α} (hm : m = .ok a) (h : Q a) : Meets E m Q := by
  rw [hm]
  exact h

theorem Meets.bind {f : α → Except ε β} {P : α → Prop} {Q : β → Prop} (h : Meets E m P)
    (hf : ∀ a, P a → Meets E (f a) Q) : Meets E (m >>= f) Q := by
  cases m with
  | error e => exact h
  | ok a => exact hf a h

theorem Meets.mono {P : α → Prop} (h : Meets E m P) (hPQ : ∀ a, P a → Q a) : Meets E m Q := by
  cases m with
  | error e => exact h
  | ok a => exact hPQ a h

theorem Meets.weaken {F : Prop} (h : Meets E m Q) (hEF : E → F) : Meets F m Q := by
  cases m with
  | error e => exact hEF h
  | ok a => exact h

theorem Meets.total (h : Meets E m Q) (hE : ¬ E) : ∃ a, m = .ok a ∧ Q a := by
  cases m with
  | error e => exact absurd h hE
  | ok a => exact ⟨a, rfl, h⟩

theorem foldlM_meets (body : σ → α → Except ε σ) {I : List α → σ → Prop} (all : List α)
    (hbody : ∀ done a rest x, done ++ a :: rest = all → I done x →
      Meets E (body x a) (I (done ++ [a]))) (done rest : List α) (x : σ) (hall : done ++ rest = all)
    (h : I done x) : Meets E (rest.foldlM body x) (I all) := by
  induction rest generalizing done x with
  | nil =>
    rw [List.append_nil] at hall
    rw [← hall]
    exact h
  | cons a rest ih =>
    rw [List.foldlM_cons]
    refine (hbody done a rest x hall h).bind fun y hy => ?_
    exact ih (done ++ [a]) y (by rw [List.append_assoc]; exact hall) hy

/-- read a page, work on its rows, and go on after it unless it is the last one; every page but the
last has a row, so that the number of rows bounds the number of pages -/
def sweep (read : σ → Nat → Except ε (List α)) (body : σ → α → Except ε σ) (last : List α → Bool) :
    Nat → Nat → σ → Except ε σ
  | 0, _, x => .ok x
  | fuel + 1, offset, x => do
    let page ← read x offset
    let x ← page.foldlM body x
    if last page then .ok x else sweep read body last fuel (offset + page.length) x

theorem sweep_keeps (read : σ → Nat → Except ε (List α)) (body : σ → α → Except ε σ)
    (last : List α → Bool) {I : σ → Prop} (hbody : ∀ x a, I x → Meets True (body x a) I)
    (fuel offset : Nat) {x : σ} (h : I x) : Meets True (sweep read body last fuel offset x) I := by
  induction fuel generalizing offset x with
  | zero => exact h
  | succ fuel ih =>
    rw [sweep]
    cases read x offset with
    | error e => trivial
    | ok page =>
      have hpage : Meets True (page.foldlM body x) I :=
        foldlM_meets body page (I := fun _ => I) (fun _ a _ y _ => hbody y a) [] page x rfl h
      show Meets True (page.foldlM body x >>= _) _
      refine hpage.bind fun y hy => ?_
      split
      · exact hy
      · exact ih _ hy

section
variable (read : σ → Nat → Except ε (List α)) (body : σ → α → Except ε σ) (last : List α → Bool)
  (rows : List α) {n : Nat} {I : List α → σ → Prop}
  (hempty : last [] = true) (hshort : ∀ page, last page = true → page.length < n)
  (hread : ∀ done todo x, done ++ todo = rows → I done x → read x done.length = .ok (todo.take n))
  (hbody : ∀ done a rest x, done ++ a :: rest = rows → I done x →
    Meets E (body x a) (I (done ++ [a])))
include hempty hshort hread hbody

theorem sweep_from (fuel : Nat) (done todo : List α) (x : σ) (hrows : done ++ todo = rows)
    (hfuel : todo.length < fuel) (h : I done x) :
    Meets E (sweep read body last fuel done.length x) (I rows) := by
  induction fuel generalizing done todo x with
  | zero => cases hfuel
  | succ fuel ih =>
    have hsplit : done ++ todo.take n ++ todo.drop n = rows := by
      rw [List.append_assoc, List.take_append_drop]
      exact hrows
    -- the rows of the page, one after the other
    have hpage : Meets E ((todo.take n).foldlM body x) (I (done ++ todo.take n)) := by
      refine foldlM_meets body _ (fun d a rest y hd hy => ?_) done (todo.take n) x rfl h
      refine hbody d a (rest ++ todo.drop n) y ?_ hy
      rw [← hsplit, ← hd, List.append_assoc, List.cons_append]
    rw [sweep, hread done todo x hrows h]
    show Meets E ((todo.take n).foldlM body x >>= _) _
    refine hpage.bind fun y hy => ?_
    split
    · rename_i hlast
      have hlt := hshort _ hlast
      rw [List.length_take] at hlt
      have htake : todo.take n = todo := List.take_of_length_le (by omega)
      rw [htake, hrows] at hy
      exact hy
    · rename_i hlast
      have hne : todo.take n ≠ [] := by
        intro h0
        rw [h0] at hlast
        exact hlast hempty
      have hpos := List.length_pos_iff.mpr hne
      rw [List.length_take] at hpos
      have hrest := ih (done ++ todo.take n) (todo.drop n) y hsplit
        (by rw [List.length_drop]; omega) hy
      rwa [List.length_append] at hrest

/-- **The rule for a sweep**: an invariant that the work on each row carries on holds at the end. -/
theorem sweep_meets (fuel : Nat) {x : σ} (hfuel : rows.length < fuel) (h : I [] x) :
    Meets E (sweep read body last fuel 0 x) (I rows) :=
  sweep_from read body last rows hempty hshort hread hbody fuel [] rows x rfl hfuel h

end

end Sweep
