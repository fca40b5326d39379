import Mathlib.Logic.Basic

/-!
# Three-way merging

Two sides change one origin independently.  The merged value is the common one, or that of the only
side that changed it:

* `Taken`            the merged value of an origin and its two sides;
* `Taken.symm`       the two sides can change places;
* `Taken.unique`     there is at most one merged value;
* `taken_iff`        there is one unless both sides changed the origin to different values.
-/

namespace ThreeWay

variable {α : Type} {origin left right a b : α}

inductive Taken (origin : α) : α → α → α → Prop
  | agreed (x : α) : Taken origin x x x
  | right (x : α) : Taken origin origin x x
  | left (x : α) : Taken origin x origin x

theorem Taken.symm (h : Taken origin left right a) : Taken origin right left a := by
  cases h with
  | agreed => exact .agreed _
  | right => exact .left _
  | left => exact .right _

theorem Taken.unique (ha : Taken origin left right a) (hb : Taken origin left right b) : a = b := by
  cases ha with
  | agreed => cases hb <;> rfl
  | right => cases hb <;> rfl
  | left => cases hb <;> rfl

theorem taken_iff : (∃ a, Taken origin left right a) ↔ left = right ∨ left = origin ∨ right = origin := by
  constructor
  · rintro ⟨a, h⟩
    cases h with
    | agreed => exact .inl rfl
    | right => exact .inr (.inl rfl)
    | left => exact .inr (.inr rfl)
  · rintro (rfl | rfl | rfl)
    · exact ⟨_, .agreed left⟩
    · exact ⟨_, .right right⟩
    · exact ⟨_, .left left⟩

end ThreeWay
