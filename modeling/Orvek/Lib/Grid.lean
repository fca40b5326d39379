import Mathlib.Data.List.Chain
import Mathlib.Data.Nat.Count
import Mathlib.Algebra.BigOperators.Group.List.Basic
import Mathlib.Tactic.Ring

/-!
# Evenly spaced points, and windows over them

A schedule has the points `first`, `first + step`, `first + 2 * step`, and so on.  A window stands
for a run of them: its first point, its latest one, and how many there are.

* `points`         how many points of the schedule lie below a bound;
* `Window`         a run of points;
* `Covers`         windows that follow one another, from the first point up to the next one;
* `Covers.points`  together they hold every point below the next one, each of them once.
-/

set_option linter.unusedSectionVars false

namespace Grid

/-! ## points -/

/-- `t` is a point of the schedule -/
def On (first step t : Nat) : Prop := first ≤ t ∧ step ∣ t - first

instance (first step t : Nat) : Decidable (On first step t) := by
  unfold On
  infer_instance

def points (first step bound : Nat) : Nat := Nat.count (On first step) bound

section
variable {first step : Nat}

attribute [grind =] points

theorem points_zero : points first step first = 0 := by
  unfold points
  rw [Nat.count_eq_card_filter_range, Finset.card_eq_zero, Finset.filter_eq_empty_iff]
  intro t ht hon
  exact absurd hon.1 (by simpa using ht)

theorem count_gap (first n k : Nat) (hk : k < step) :
    points first step (first + n * step + 1 + k) = points first step (first + n * step) + 1 := by
  unfold points
  induction k with
  | zero =>
    have hon : On first step (first + n * step) := ⟨Nat.le_add_right _ _, by
      rw [Nat.add_sub_cancel_left]
      exact dvd_mul_left step n⟩
    rw [Nat.add_zero, Nat.count_succ, if_pos hon]
  | succ k ih =>
    have hoff : ¬ On first step (first + n * step + 1 + k) := by
      rintro ⟨-, hdvd⟩
      rw [show first + n * step + 1 + k - first = k + 1 + n * step by omega,
        Nat.dvd_add_left (dvd_mul_left step n)] at hdvd
      exact absurd (Nat.le_of_dvd (by omega) hdvd) (by omega)
    rw [← Nat.add_assoc, Nat.count_succ, if_neg hoff, Nat.add_zero]
    exact ih (by omega)

/-- below the `n`th point there are `n` points -/
theorem points_at (hstep : 0 < step) (n : Nat) : points first step (first + n * step) = n := by
  induction n with
  | zero =>
    rw [Nat.zero_mul, Nat.add_zero]
    exact points_zero
  | succ n ih =>
    have hgap := count_gap first n (step - 1) (Nat.sub_lt hstep Nat.one_pos)
    rw [ih, show first + n * step + 1 + (step - 1) = first + (n + 1) * step by
      rw [Nat.add_mul]
      omega] at hgap
    exact hgap

end

/-! ## windows -/

/-- a run of points -/
structure Window where
  first : Nat
  latest : Nat
  count : Nat
  deriving DecidableEq, Repr

/-- a run of `w.count` points that begins with the point `next` -/
structure Window.From (step next : Nat) (w : Window) : Prop where
  first : w.first = next
  pos : 0 < w.count
  latest : w.latest + step = next + w.count * step

/-- how many points the windows stand for -/
def total (ws : List Window) : Nat := (ws.map Window.count).sum

/-- windows that follow one another; `next` is the first point after them -/
inductive Covers (step first : Nat) : List Window → Nat → Prop
  | nil : Covers step first [] first
  | snoc {ws : List Window} {next : Nat} {w : Window} (h : Covers step first ws next)
      (hw : w.From step next) : Covers step first (ws ++ [w]) (w.latest + step)

section
variable {step first next : Nat} {ws : List Window} {w : Window}

theorem total_snoc : total (ws ++ [w]) = total ws + w.count := by
  simp [total]

theorem Covers.next_eq (h : Covers step first ws next) : next = first + total ws * step := by
  induction h with
  | nil => simp [total]
  | @snoc ws next w h hw ih =>
    rw [total_snoc, hw.latest, ih, Nat.add_mul]
    omega

/-- **The windows hold every point below the next one.** -/
theorem Covers.points (h : Covers step first ws next) (hstep : 0 < step) :
    total ws = points first step next := by
  rw [h.next_eq, points_at hstep]

/-- every window holds as many points as it says -/
theorem Covers.counts (h : Covers step first ws next) (hstep : 0 < step) : ∀ w ∈ ws,
    Grid.points first step (w.latest + 1) = Grid.points first step w.first + w.count := by
  induction h with
  | nil => exact fun w hw => nomatch hw
  | @snoc ws next w h hw ih =>
    intro v hv
    rcases List.mem_append.mp hv with hv | hv
    · exact ih v hv
    · cases List.mem_singleton.mp hv
      have hnext := (h.snoc hw).next_eq
      rw [total_snoc] at hnext
      have hlatest : w.latest = first + (total ws + w.count - 1) * step := by
        rw [Nat.sub_mul, Nat.add_mul]
        rw [Nat.add_mul] at hnext
        have hone : 1 * step ≤ w.count * step := Nat.mul_le_mul_right step hw.pos
        omega
      have hgap := count_gap first (total ws + w.count - 1) 0 hstep
      rw [Nat.add_zero, ← hlatest, hlatest, points_at hstep, ← hlatest] at hgap
      rw [hgap, hw.first, ← h.points hstep]
      have := hw.pos
      omega

theorem Window.From.le (hw : w.From step next) : next ≤ w.latest := by
  have hone : 1 * step ≤ w.count * step := Nat.mul_le_mul_right step hw.pos
  have hlatest := hw.latest
  omega

theorem Covers.before_next (h : Covers step first ws next) (hstep : 0 < step) : ∀ w ∈ ws,
    w.first ≤ w.latest ∧ w.latest < next := by
  induction h with
  | nil => exact fun w hw => nomatch hw
  | @snoc ws next w h hw ih =>
    intro v hv
    have hle := hw.le
    rcases List.mem_append.mp hv with hv | hv
    · have hold := ih v hv
      omega
    · cases List.mem_singleton.mp hv
      rw [hw.first]
      omega

theorem Covers.begins (h : Covers step first ws next) : ∀ w ∈ ws.head?, w.first = first := by
  induction h with
  | nil => exact fun w hw => nomatch hw
  | @snoc ws next w h hw ih =>
    cases h with
    | nil =>
      intro v hv
      cases hv
      exact hw.first
    | @snoc us next' u h' hu =>
      intro v hv
      refine ih v ?_
      cases us with
      | nil => exact hv
      | cons a us => exact hv

theorem Covers.ends (h : Covers step first ws next) : ∀ w ∈ ws.getLast?, w.latest + step = next := by
  cases h with
  | nil => exact fun w hw => nomatch hw
  | @snoc ws next w h hw =>
    intro v hv
    rw [List.getLast?_append, List.getLast?_singleton, Option.some_or] at hv
    cases hv
    rfl

/-- **Every window begins one step after the end of the window before it.** -/
theorem Covers.consecutive (h : Covers step first ws next) :
    ws.IsChain fun a b => b.first = a.latest + step := by
  induction h with
  | nil => exact .nil
  | @snoc ws next w h hw ih =>
    rw [List.isChain_append]
    refine ⟨ih, .singleton w, fun a ha b hb => ?_⟩
    cases hb
    rw [hw.first, h.ends a ha]

/-- **No two windows meet.** -/
theorem Covers.disjoint (h : Covers step first ws next) (hstep : 0 < step) :
    ws.Pairwise fun a b => a.latest < b.first := by
  induction h with
  | nil => exact .nil
  | @snoc ws next w h hw ih =>
    rw [List.pairwise_append]
    refine ⟨ih, List.pairwise_singleton _ _, fun a ha b hb => ?_⟩
    cases List.mem_singleton.mp hb
    rw [hw.first]
    exact (h.before_next hstep a ha).2

end

end Grid
