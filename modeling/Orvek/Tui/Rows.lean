import Orvek.Tui.Layout

/-!
# Positions on the visual lines

A position of the draft is on one row: the one that it is in, or the one that ends there, unless the next
row begins right there.

* `OnRow`              a position on a row, with what is before and after it on the row;
* `exists_onRow`       every position is on some row;
* `locateCursor_onRow` the row and the column that `locateCursor` finds;
* `byteAtColumn_row`   the position that `byteAtColumn` finds on a row.
-/

set_option linter.unusedSectionVars false

namespace Orvek.Tui
open Texts Offsets Clusters

section
variable [UnicodeText]
variable {rows : List Row}

/-- the row `r` has the position, with `before` and `after` on it; at its end only if no row begins there -/
structure OnRow (rows : List Row) (position : Nat) (above : List Row) (r : Row) (below : List Row)
    (before after : Text) : Prop where
  rows : rows = above ++ r :: below
  text : r.clusters.flatten = before ++ after
  position : position = size (textOf above) + size before
  stays : after ≠ [] ∨ r.newline = true ∨ below = []

def Row.GoesOn (r : Row) (below : List Row) : Prop := r.newline = false ∧ below ≠ []

theorem size_text (r : Row) : size r.text = size r.clusters.flatten + if r.newline then 1 else 0 := by
  rw [Row.text, size_append]
  cases r.newline <;> rfl

theorem exists_onRow {a b : Text} (htext : textOf rows = a ++ b)
    (hlast : ∃ r, rows.getLast? = some r ∧ r.newline = false) :
    ∃ above r below before after, OnRow rows (size a) above r below before after := by
  induction rows generalizing a with
  | nil =>
    obtain ⟨r, hr, -⟩ := hlast
    cases hr
  | cons r rows ih =>
    rw [textOf_cons, Row.text, List.append_assoc] at htext
    have hdeeper : ∀ m, textOf rows = m ++ b → size a = size r.text + size m → rows ≠ [] →
        ∃ above r' below before after, OnRow (r :: rows) (size a) above r' below before after := by
      intro m hm hsize hne
      have hlast' : ∃ s, rows.getLast? = some s ∧ s.newline = false := by
        obtain ⟨s, hs, hnewline⟩ := hlast
        exact ⟨s, by rwa [List.getLast?_cons_of_ne_nil hne] at hs, hnewline⟩
      obtain ⟨above, r', below, before, after, hrows, htext', hposition, hstays⟩ := ih hm hlast'
      refine ⟨r :: above, r', below, before, after, by rw [hrows]; rfl, htext', ?_, hstays⟩
      rw [textOf_cons, size_append, hsize, hposition, Nat.add_assoc]
    have hlone : rows = [] → r.newline = false := by
      rintro rfl
      obtain ⟨s, hs, hnewline⟩ := hlast
      rwa [← Option.some.inj hs] at hnewline
    have hhere : ∀ m, r.clusters.flatten = a ++ m → (m ≠ [] ∨ r.newline = true ∨ rows = []) →
        ∃ above r' below before after, OnRow (r :: rows) (size a) above r' below before after :=
      fun m hm hstays => ⟨[], r, rows, a, m, rfl, hm, (Nat.zero_add _).symm, hstays⟩
    have hend : a = r.clusters.flatten →
        ∃ above r' below before after, OnRow (r :: rows) (size a) above r' below before after := by
      intro ha
      by_cases hstays : r.newline = true ∨ rows = []
      · exact hhere [] (by rw [ha, List.append_nil]) (.inr hstays)
      · obtain ⟨hnewline, hne⟩ := not_or.mp hstays
        rw [ha, if_neg hnewline, List.nil_append] at htext
        refine hdeeper [] (List.append_cancel_left htext) ?_ hne
        rw [ha, size_text, if_neg hnewline]
        rfl
    rcases List.append_eq_append_iff.mp htext with ⟨m, ha, hrest⟩ | ⟨m, hflat, -⟩
    · cases m with
      | nil => exact hend (by rw [ha, List.append_nil])
      | cons c m =>
        rcases Bool.eq_false_or_eq_true r.newline with hnewline | hnewline
        · rw [if_pos hnewline, List.singleton_append] at hrest
          obtain ⟨rfl, hm⟩ := List.cons.inj hrest
          refine hdeeper m hm ?_ fun h => absurd (hlone h) (by rw [hnewline]; decide)
          rw [ha, size_append, size_text, if_pos hnewline, Nat.add_assoc]
          rfl
        · rw [if_neg (by rw [hnewline]; exact Bool.false_ne_true), List.nil_append] at hrest
          refine hdeeper (c :: m) hrest ?_ ?_
          · rw [ha, size_append, size_text, if_neg (by rw [hnewline]; exact Bool.false_ne_true), Nat.add_zero]
          · rintro rfl
            cases hrest
    · cases m with
      | nil => exact hend (by rw [hflat, List.append_nil])
      | cons c m => exact hhere (c :: m) hflat (.inl (List.cons_ne_nil c m))

/-! ## the row of a position -/

theorem slice_before {pre flat before after post : Text} (h : flat = before ++ after) :
    Offsets.slice (pre ++ (flat ++ post)) (size pre) (min (size pre + size before) (size pre + size flat)) = some before := by
  rw [h, size_append, Nat.min_eq_left (by omega), List.append_assoc]
  exact Offsets.slice_append pre before (after ++ post)

theorem locateLoop_here {pre : Text} {r : Row} {below : List Row} {before after : Text}
    (hfits : graphemes r.clusters.flatten = r.clusters) (htext : r.clusters.flatten = before ++ after)
    (hstays : after ≠ [] ∨ r.newline = true ∨ below = []) (i : Nat) :
    locateLoop (pre ++ textOf (r :: below)) (size pre + size before) i (placed (size pre) (r :: below)) =
      some (i, terminalTextWidth before) := by
  have hslice := @slice_before _ pre _ before after ((if r.newline then ['\n'] else []) ++ textOf below) htext
  have hsize : size r.clusters.flatten = size before + size after := by rw [htext, size_append]
  rw [placed, locateLoop, textOf_cons, Row.text, List.append_assoc]
  split
  · rw [hslice]
    rfl
  · rename_i hbeyond
    have hle := (not_or.mp hbeyond).1
    simp only at hle
    have hafter : after = [] := size_eq_zero.mp (by omega)
    subst hafter
    rw [List.append_nil] at htext
    have hwidth : r.width = terminalTextWidth before := by rw [terminalTextWidth, ← htext, hfits, Row.width]
    have hnext : ((placed (size pre + size r.text) below).head?.any (·.start = size pre + size before)) = false := by
      cases below with
      | nil => rfl
      | cons b below =>
        have hnewline : r.newline = true := by
          rcases hstays with h | h | h
          · exact absurd rfl h
          · exact h
          · cases h
        rw [placed, List.head?_cons, Option.any_some, decide_eq_false_iff_not, size_text, if_pos hnewline, htext]
        simp only
        omega
    rw [if_pos ⟨by rw [htext], hnext⟩, hwidth]

theorem locateLoop_below {pre : Text} {a : Row} {position : Nat} (ha : a.text ≠ []) (hne : rows ≠ [])
    (hposition : size pre + size a.text ≤ position) (text : Text) (i : Nat) :
    locateLoop text position i (placed (size pre) (a :: rows)) =
      locateLoop text position (i + 1) (placed (size pre + size a.text) rows) := by
  have hpos := size_pos ha
  have hsize := size_text a
  obtain ⟨r, rows, rfl⟩ := List.exists_cons_of_ne_nil hne
  rw [placed, locateLoop, if_neg (by simp only; omega)]
  split
  · rename_i hat
    obtain ⟨hstop, hnext⟩ := hat
    rw [placed, List.head?_cons, Option.any_some, decide_eq_false_iff_not] at hnext
    have hle : size a.clusters.flatten ≤ size a.text := by omega
    exact absurd (show size pre + size a.text = position by simp only at hstop; omega) hnext
  · rfl

theorem locateLoop_onRow {pre : Text} {rows above below : List Row} {r : Row} {position : Nat} {before after : Text}
    (hon : OnRow rows position above r below before after) (hfits : graphemes r.clusters.flatten = r.clusters)
    (hfilled : ∀ a ∈ above, a.text ≠ []) (i : Nat) :
    locateLoop (pre ++ textOf rows) (size pre + position) i (placed (size pre) rows) =
      some (i + above.length, terminalTextWidth before) := by
  obtain ⟨rfl, htext, rfl, hstays⟩ := hon
  induction above generalizing pre i with
  | nil =>
    rw [show textOf [] = [] from rfl, size_nil, Nat.zero_add]
    exact locateLoop_here hfits htext hstays i
  | cons a above ih =>
    obtain ⟨ha, habove⟩ := List.forall_mem_cons.mp hfilled
    have hrest := @ih (pre ++ a.text) habove (i + 1)
    rw [List.cons_append, textOf_cons, textOf_cons, size_append,
      locateLoop_below ha (by simp) (by omega), ← size_append]
    rw [size_append, List.append_assoc] at hrest
    rw [size_append, Nat.add_assoc (size a.text), ← Nat.add_assoc (size pre), hrest, List.length_cons]
    congr 2
    omega

theorem locateCursor_onRow {width : Nat} {above below : List Row} {r : Row} {position : Nat}
    {before after : Text} (hwrapped : Wrapped width rows)
    (hon : OnRow rows position above r below before after) :
    locateCursor (textOf rows) (placed 0 rows) position = some (above.length, terminalTextWidth before) := by
  have hfits := (hwrapped.fits r (by rw [hon.rows]; simp)).clusters
  have hfilled : ∀ a ∈ above, a.text ≠ [] := by
    intro a ha
    refine hwrapped.filled a ?_
    rw [hon.rows, List.dropLast_append_of_ne_nil (List.cons_ne_nil _ _)]
    exact List.mem_append_left _ ha
  have hloop := @locateLoop_onRow _ [] _ _ _ _ _ _ _ hon hfits hfilled 0
  rw [size_nil, Nat.zero_add, Nat.zero_add] at hloop
  exact hloop

/-! ## the position at a column -/

theorem columnLoop_spec {target : Nat} {gs : List Text} (hclusters : ∀ g ∈ gs, IsCluster g) {column : Nat}
    (hcolumn : column ≤ target) (offset : Nat) :
    (column + rowWidth gs ≤ target ∧ columnLoop target gs offset column = none) ∨
      (target < column + rowWidth gs ∧ ∃ k < gs.length,
        columnLoop target gs offset column = some (offset + size (gs.take k).flatten)) := by
  induction gs generalizing offset column with
  | nil => exact .inl ⟨hcolumn, rfl⟩
  | cons g gs ih =>
    obtain ⟨hg, hgs⟩ := List.forall_mem_cons.mp hclusters
    have hwidth : rowWidth (g :: gs) = graphemeWidth g + rowWidth gs := rfl
    rw [columnLoop, hg.width, hwidth]
    split
    · rename_i hlt
      exact .inr ⟨by omega, 0, by simp, rfl⟩
    · rename_i hle
      rcases ih hgs (Nat.le_of_not_lt hle) (offset + size g) with ⟨hall, hnone⟩ | ⟨hsome, k, hk, hfound⟩
      · exact .inl ⟨by omega, hnone⟩
      · refine .inr ⟨by omega, k + 1, Nat.succ_lt_succ hk, ?_⟩
        rw [hfound, List.take_succ_cons, List.flatten_cons, size_append, Nat.add_assoc]

theorem byteAtColumn_row {above below : List Row} {r : Row} (hfits : graphemes r.clusters.flatten = r.clusters)
    (target : Nat) :
    ∃ before after, byteAtColumn (textOf (above ++ r :: below))
        ⟨size (textOf above), size (textOf above) + size r.clusters.flatten, r.width⟩ target =
          some (size (textOf above) + size before) ∧
      r.clusters.flatten = before ++ after ∧ (after = [] ↔ r.width ≤ target) := by
  have hclusters : ∀ g ∈ r.clusters, IsCluster g := fun g hg => isCluster_of_mem (hfits ▸ hg)
  have hslice : Offsets.slice (textOf (above ++ r :: below)) (size (textOf above))
      (size (textOf above) + size r.clusters.flatten) = some r.clusters.flatten := by
    rw [textOf_append, textOf_cons, Row.text, List.append_assoc]
    exact Offsets.slice_append _ _ _
  rw [byteAtColumn, hslice, Option.map_some, hfits]
  rcases columnLoop_spec hclusters (Nat.zero_le target) 0 with ⟨hall, hnone⟩ | ⟨hsome, k, hk, hfound⟩
  · rw [Nat.zero_add] at hall
    exact ⟨r.clusters.flatten, [], by rw [hnone]; rfl, (List.append_nil _).symm, iff_of_true rfl hall⟩
  · rw [Nat.zero_add] at hsome hfound
    have hdrop : (r.clusters.drop k).flatten ≠ [] := by
      intro h
      have hmem : r.clusters[k] ∈ r.clusters.drop k := List.mem_drop_iff_getElem.mpr ⟨0, by simpa using hk, by simp⟩
      exact (hclusters _ (List.getElem_mem hk)).ne_nil (List.flatten_eq_nil_iff.mp h _ hmem)
    refine ⟨(r.clusters.take k).flatten, (r.clusters.drop k).flatten, ?_, ?_, iff_of_false hdrop ?_⟩
    · rw [hfound]
      rfl
    · rw [← List.flatten_append, List.take_append_drop]
    · exact Nat.not_le.mpr hsome

end

end Orvek.Tui
