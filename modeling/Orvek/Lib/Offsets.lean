import Orvek.Lib.Encoded
import Orvek.Lib.Texts

/-!
# Byte offsets in a text

Positions in a text are numbers of bytes in UTF-8; one that is inside a character is no position.

* `cut`          a text in two parts, where the first one has so many bytes;
* `slice`        the part between two positions;
* `IsBoundary`   a position between two characters, or at an end.
-/

set_option linter.unusedSectionVars false

namespace Offsets
open Texts Json

abbrev size (l : Text) : Nat := utf8Length l

theorem size_nil : size [] = 0 := rfl

theorem size_append (a b : Text) : size (a ++ b) = size a + size b := utf8Length_append a b

theorem size_pos {l : Text} (h : l ≠ []) : 0 < size l := by
  cases l with
  | nil => exact absurd rfl h
  | cons c l =>
    rw [size, utf8Length_cons]
    have := c.utf8Size_pos
    omega

theorem size_eq_zero {l : Text} : size l = 0 ↔ l = [] := by
  constructor
  · intro h
    by_contra hne
    exact absurd h (size_pos hne).ne'
  · rintro rfl
    rfl

/-- `str::split_at_checked` -/
def cut : Nat → Text → Option (Text × Text)
  | 0, l => some ([], l)
  | _ + 1, [] => none
  | n + 1, c :: l =>
    if c.utf8Size ≤ n + 1 then (cut (n + 1 - c.utf8Size) l).map fun p => (c :: p.1, p.2) else none

theorem cut_append (a b : Text) : cut (size a) (a ++ b) = some (a, b) := by
  induction a with
  | nil => rw [List.nil_append, size_nil, cut]
  | cons c a ih =>
    have hsize : size (c :: a) = c.utf8Size + size a := rfl
    have hpos := c.utf8Size_pos
    obtain ⟨n, hn⟩ : ∃ n, size (c :: a) = n + 1 := ⟨size (c :: a) - 1, by omega⟩
    rw [hn, List.cons_append, cut, if_pos (by omega), show n + 1 - c.utf8Size = size a by omega, ih]
    rfl

theorem append_of_le {a b x y : Text} (h : a ++ b = x ++ y) (hsize : size a ≤ size x) : ∃ m, x = a ++ m ∧ b = m ++ y := by
  rcases List.append_eq_append_iff.mp h with ⟨m, hx, hb⟩ | ⟨m, ha, hy⟩
  · exact ⟨m, hx, hb⟩
  · rw [ha, size_append] at hsize
    obtain rfl := size_eq_zero.mp (by omega : size m = 0)
    exact ⟨[], by simpa using ha.symm, by simpa using hy.symm⟩

/-- `str::get` of a range -/
def slice (l : Text) (start stop : Nat) : Option Text :=
  if start ≤ stop then (cut start l).bind fun p => (cut (stop - start) p.2).map Prod.fst else none

theorem slice_append (a m b : Text) : slice (a ++ (m ++ b)) (size a) (size a + size m) = some m := by
  rw [slice, if_pos (Nat.le_add_right _ _), cut_append, Option.bind_some, Nat.add_sub_cancel_left, cut_append]
  rfl

/-- `str::is_char_boundary` -/
def IsBoundary (l : Text) (position : Nat) : Prop := ∃ a b, l = a ++ b ∧ size a = position

theorem IsBoundary.le {l : Text} {position : Nat} (h : IsBoundary l position) : position ≤ size l := by
  obtain ⟨a, b, rfl, rfl⟩ := h
  rw [size_append]
  exact Nat.le_add_right _ _

theorem isBoundary_append (a b : Text) : IsBoundary (a ++ b) (size a) := ⟨a, b, rfl, rfl⟩

theorem isBoundary_zero (l : Text) : IsBoundary l 0 := ⟨[], l, rfl, rfl⟩

theorem isBoundary_size (l : Text) : IsBoundary l (size l) := ⟨l, [], (List.append_nil l).symm, rfl⟩

end Offsets
