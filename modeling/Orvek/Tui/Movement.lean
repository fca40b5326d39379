import Orvek.Tui.Composer
import Orvek.Tui.Rows

/-!
# Moving through the visual lines

The end of a line that goes on in the next one is the start of the next one, and that is where
`locateCursor` finds it.  A move to such an end is on the row after the one it was for.

* `Laid`               the rows that the draft is wrapped into;
* `moveVertical_row`   the row that one step goes to;
* `Moves`, `Clear`     what the moves are for, and the drafts where they do it;
* `moves_iff`          on all other drafts one of them does not.
-/

set_option linter.unusedSectionVars false

namespace Orvek.Tui
open Texts Offsets Clusters

section
variable [UnicodeText]

namespace Composer

variable {c : Composer} {rows above below : List Row} {r : Row} {before after : Text}

def wrapWidth (c : Composer) : Nat := max c.lastWidth 1

def layout (c : Composer) : Option VisualLayout := VisualLayout.new c.draft c.cursor c.wrapWidth

def row (c : Composer) : Option Nat := c.layout.map (·.cursorRow)

/-- the column that a move up or down is for -/
def desired (c : Composer) (column : Nat) : Nat := c.preferredColumn.getD column

def upTimes : Nat → Composer → Option Composer
  | 0, c => some c
  | k + 1, c => do
    let (_, c) ← c.moveVertical (-1)
    upTimes k c

/-! ## the rows of a draft -/

structure Laid (c : Composer) (rows : List Row) : Prop where
  lines : wrapText c.draft c.wrapWidth = some (placed 0 rows)
  text : textOf rows = c.draft
  wrapped : Wrapped c.wrapWidth rows

theorem exists_laid (c : Composer) : ∃ rows, Laid c rows := by
  obtain ⟨rows, hlines, htext, hwrapped⟩ := wrapText_rows c.draft (Nat.le_max_right c.lastWidth 1)
  exact ⟨rows, hlines, htext, hwrapped⟩

theorem Laid.exists_onRow (h : Laid c rows) (hcursor : IsBoundary c.draft c.cursor) :
    ∃ above r below before after, OnRow rows c.cursor above r below before after := by
  obtain ⟨a, b, hdraft, hsize⟩ := hcursor
  rw [← hsize]
  exact Tui.exists_onRow (h.text.trans hdraft) h.wrapped.last

attribute [grind =] layout

theorem Laid.layout_eq (h : Laid c rows) (hon : OnRow rows c.cursor above r below before after) :
    c.layout = some ⟨placed 0 rows, above.length, terminalTextWidth before⟩ := by
  have hwidth : max c.wrapWidth 1 = c.wrapWidth := Nat.max_eq_left (Nat.le_max_right _ _)
  rw [layout, VisualLayout.new, hwidth, h.lines, Option.bind_eq_bind, Option.bind_some, ← h.text,
    locateCursor_onRow h.wrapped hon]
  rfl

theorem Laid.row_eq (h : Laid c rows) (hon : OnRow rows c.cursor above r below before after) :
    c.row = some above.length := by
  rw [row, h.layout_eq hon]
  rfl

theorem getElem?_placed :
    (placed 0 (above ++ r :: below))[above.length]? =
      some ⟨size (textOf above), size (textOf above) + size r.clusters.flatten, r.width⟩ := by
  rw [placed_append, Nat.zero_add, List.getElem?_append_right (by rw [length_placed]), length_placed, Nat.sub_self]
  rfl

theorem onRow_below {width : Nat} (hwrapped : Wrapped width rows) (hrows : rows = above ++ r :: below)
    (hgoes : r.GoesOn below) :
    ∃ r' below', OnRow rows (size (textOf above) + size r.clusters.flatten) (above ++ [r]) r' below' [] r'.clusters.flatten := by
  obtain ⟨hnewline, hne⟩ := hgoes
  obtain ⟨r', below, rfl⟩ := List.exists_cons_of_ne_nil hne
  refine ⟨r', below, by rw [hrows]; simp, rfl, ?_, ?_⟩
  · rw [textOf_append, size_append, textOf_cons, size_append, size_text, hnewline]
    rfl
  · by_cases hbelow : below = []
    · exact .inr (.inr hbelow)
    · have hfilled : r'.text ≠ [] := by
        refine hwrapped.filled r' ?_
        rw [hrows, show above ++ r :: r' :: below = (above ++ [r, r']) ++ below by simp,
          List.dropLast_append_of_ne_nil hbelow]
        simp
      rw [Row.text] at hfilled
      rcases Bool.eq_false_or_eq_true r'.newline with hr | hr
      · exact .inr (.inl hr)
      · rw [hr] at hfilled
        exact .inl (by simpa using hfilled)

theorem byteAtColumn_onRow {width : Nat} (hwrapped : Wrapped width rows)
    (hrows : rows = above ++ r :: below) (target : Nat) :
    ∃ position, byteAtColumn (textOf rows)
        ⟨size (textOf above), size (textOf above) + size r.clusters.flatten, r.width⟩ target = some position ∧
      (¬(r.GoesOn below ∧ r.width ≤ target) → ∃ before after, OnRow rows position above r below before after) ∧
      (r.GoesOn below ∧ r.width ≤ target → ∃ r' below' after, OnRow rows position (above ++ [r]) r' below' [] after) := by
  have hfits := (hwrapped.fits r (by rw [hrows]; simp)).clusters
  obtain ⟨before, after, hbyte, htext, hend⟩ := @byteAtColumn_row _ above below r hfits target
  refine ⟨size (textOf above) + size before, by rw [hrows]; exact hbyte, fun h => ?_, fun ⟨hgoes, hwidth⟩ => ?_⟩
  · refine ⟨before, after, hrows, htext, rfl, ?_⟩
    by_contra hleaves
    obtain ⟨hafter, hleaves⟩ := not_or.mp hleaves
    obtain ⟨hnewline, hbelow⟩ := not_or.mp hleaves
    exact h ⟨⟨Bool.not_eq_true _ ▸ hnewline, hbelow⟩, hend.mp (Classical.not_not.mp hafter)⟩
  · obtain rfl := hend.mpr hwidth
    rw [List.append_nil] at htext
    obtain ⟨r', below', hon⟩ := onRow_below hwrapped hrows hgoes
    exact ⟨r', below', _, htext ▸ hon⟩

/-! ## one step -/

def Swallows (rows : List Row) (column i : Nat) : Prop :=
  ∃ above r below, rows = above ++ r :: below ∧ above.length = i ∧ r.GoesOn below ∧ r.width ≤ column

theorem split_at {i : Nat} (h : i < rows.length) :
    ∃ above r below, rows = above ++ r :: below ∧ above.length = i := by
  refine ⟨rows.take i, rows[i], rows.drop (i + 1), ?_, by rw [List.length_take]; omega⟩
  rw [← List.drop_eq_getElem_cons h, List.take_append_drop]

theorem split_unique {above' below' : List Row} {r' : Row} (h : rows = above ++ r :: below)
    (h' : rows = above' ++ r' :: below') (hlength : above.length = above'.length) :
    above = above' ∧ r = r' ∧ below = below' := by
  obtain ⟨habove, hrest⟩ := List.append_inj (h.symm.trans h') hlength
  obtain ⟨hr, hbelow⟩ := List.cons.inj hrest
  exact ⟨habove, hr, hbelow⟩

/-- a step up or down goes to the row next to it, or ends below that one -/
theorem moveVertical_row (h : Laid c rows) (himages : c.images = [])
    (hon : OnRow rows c.cursor above r below before after) (direction : Int) :
    (((above.length + direction).toNat = above.length ∨ rows.length ≤ (above.length + direction).toNat) ∧
        c.moveVertical direction = some (false, c)) ∨
      ∃ position, ¬((above.length + direction).toNat = above.length ∨ rows.length ≤ (above.length + direction).toNat) ∧
        c.moveVertical direction = some (true, { c with
          cursor := position, preferredColumn := some (c.desired (terminalTextWidth before)) }) ∧
        ∃ above' r' below' before' after', OnRow rows position above' r' below' before' after' ∧
          (¬Swallows rows (c.desired (terminalTextWidth before)) (above.length + direction).toNat →
            above'.length = (above.length + direction).toNat) ∧
          (Swallows rows (c.desired (terminalTextWidth before)) (above.length + direction).toNat →
            above'.length = (above.length + direction).toNat + 1) := by
  have hlayout := h.layout_eq hon
  rw [layout, wrapWidth] at hlayout
  rw [moveVertical, hlayout, Option.bind_eq_bind, Option.bind_some]
  simp only [length_placed]
  generalize (above.length + direction).toNat = target
  by_cases hstays : target = above.length ∨ rows.length ≤ target
  · exact .inl ⟨hstays, if_pos hstays⟩
  · right
    obtain ⟨above', r', below', hrows, hlength⟩ := split_at (Nat.lt_of_not_le (not_or.mp hstays).2)
    have hline : (placed 0 rows)[target]? =
        some ⟨size (textOf above'), size (textOf above') + size r'.clusters.flatten, r'.width⟩ := by
      rw [hrows, ← hlength]
      exact getElem?_placed
    obtain ⟨position, hbyte, hhere, hbelow⟩ := byteAtColumn_onRow h.wrapped hrows (c.desired (terminalTextWidth before))
    rw [if_neg hstays]
    simp only [hline, Option.bind_eq_bind, Option.bind_some, himages, List.find?_nil, Option.map_none, Option.getD_none]
    rw [← h.text]
    have hbyte' := hbyte
    rw [desired] at hbyte'
    refine ⟨position, hstays, ?_, ?_⟩
    · rw [hbyte']
      rfl
    · by_cases hswallows : r'.GoesOn below' ∧ r'.width ≤ c.desired (terminalTextWidth before)
      · obtain ⟨s, below'', after', hon'⟩ := hbelow hswallows
        refine ⟨_, _, _, _, _, hon', fun hnot => absurd ?_ hnot, fun _ => by rw [List.length_append, hlength]; rfl⟩
        exact ⟨above', r', below', hrows, hlength, hswallows⟩
      · obtain ⟨before', after', hon'⟩ := hhere hswallows
        refine ⟨_, _, _, _, _, hon', fun _ => hlength, fun ⟨a, s, b, hsplit, ha, hs⟩ => ?_⟩
        obtain ⟨-, rfl, rfl⟩ := split_unique hsplit hrows (ha.trans hlength.symm)
        exact absurd hs hswallows

/-- `Home` stays on the row, and `End` does unless the row goes on in the next one -/
theorem moveToVisualEdge_row (h : Laid c rows) (hon : OnRow rows c.cursor above r below before after)
    (stop : Bool) :
    ∃ moved c', c.moveToVisualEdge stop = some (moved, c') ∧
      (¬(stop = true ∧ r.GoesOn below) → c'.row = some above.length) ∧
      (stop = true ∧ r.GoesOn below → c'.row = some (above.length + 1)) := by
  have hlayout := h.layout_eq hon
  rw [layout, wrapWidth] at hlayout
  have hline : (placed 0 rows)[above.length]? =
      some ⟨size (textOf above), size (textOf above) + size r.clusters.flatten, r.width⟩ := by
    rw [hon.rows]
    exact getElem?_placed
  rw [moveToVisualEdge, hlayout, Option.bind_eq_bind, Option.bind_some]
  simp only [hline, Option.bind_eq_bind, Option.bind_some]
  generalize htarget : (if stop = true then size (textOf above) + size r.clusters.flatten else size (textOf above)) = target
  -- the row of the target is the row after the move, also if the cursor is there already
  have hmove : ∀ {above' r' below' before' after'}, OnRow rows target above' r' below' before' after' →
      ∃ moved c', (if target = c.cursor then some (false, c)
        else some (true, { c with cursor := target, preferredColumn := none })) = some (moved, c') ∧
        c'.row = some above'.length := by
    intro above' r' below' before' after' hon'
    by_cases hsame : target = c.cursor
    · exact ⟨false, c, if_pos hsame, h.row_eq (hsame ▸ hon')⟩
    · have hlaid : Laid { c with cursor := target, preferredColumn := none } rows := ⟨h.lines, h.text, h.wrapped⟩
      exact ⟨true, _, if_neg hsame, hlaid.row_eq hon'⟩
  by_cases hleaves : stop = true ∧ r.GoesOn below
  · obtain ⟨r', below', hon'⟩ := onRow_below h.wrapped hon.rows hleaves.2
    rw [if_pos hleaves.1] at htarget
    rw [htarget] at hon'
    obtain ⟨moved, c', hstep, hrow⟩ := hmove hon'
    exact ⟨moved, c', hstep, fun hnot => absurd hleaves hnot, fun _ => by rw [hrow, List.length_append]; rfl⟩
  · have hon' : ∃ before' after', OnRow rows target above r below before' after' := by
      cases stop with
      | false =>
        refine ⟨[], r.clusters.flatten, hon.rows, rfl, htarget.symm, ?_⟩
        have hstays := hon.stays
        rw [hon.text]
        by_cases hempty : before ++ after = []
        · exact hstays.imp_left fun hafter => absurd (List.append_eq_nil_iff.mp hempty).2 hafter
        · exact .inl hempty
      | true =>
        refine ⟨r.clusters.flatten, [], hon.rows, (List.append_nil _).symm, htarget.symm, ?_⟩
        by_contra hstays
        obtain ⟨hnewline, hbelow⟩ := not_or.mp (not_or.mp hstays).2
        exact hleaves ⟨rfl, Bool.not_eq_true _ ▸ hnewline, hbelow⟩
    obtain ⟨before', after', hon'⟩ := hon'
    obtain ⟨moved, c', hstep, hrow⟩ := hmove hon'
    exact ⟨moved, c', hstep, fun _ => hrow, fun h => absurd h hleaves⟩

/-! ## up and up -/

theorem upTimes_reaches {column i : Nat} (h : Laid c rows) (himages : c.images = [])
    (hon : OnRow rows c.cursor above r below before after) (hlength : above.length = i)
    (hcolumn : c.desired (terminalTextWidth before) = column) (hclear : ∀ j < i, ¬Swallows rows column j) :
    ∃ k c', upTimes k c = some c' ∧ c'.row = some 0 := by
  induction i generalizing c above r below before after with
  | zero => exact ⟨0, c, rfl, by rw [h.row_eq hon, hlength]⟩
  | succ i ih =>
    have htarget : ((above.length : Int) + -1).toNat = i := by omega
    have hrows : i < rows.length := by
      rw [hon.rows, List.length_append]
      omega
    rcases moveVertical_row h himages hon (-1) with ⟨hstays, -⟩ | ⟨position, -, hstep, above', r', below', before',
      after', hon', hhere, -⟩
    · omega
    · rw [htarget, hcolumn] at hhere
      have hlaid : Laid { c with cursor := position, preferredColumn := some (c.desired (terminalTextWidth before)) }
        rows := ⟨h.lines, h.text, h.wrapped⟩
      obtain ⟨k, c', hup, hrow⟩ := ih hlaid himages hon' (hhere (hclear i (Nat.lt_succ_self i))) hcolumn
        fun j hj => hclear j (Nat.lt_succ_of_lt hj)
      refine ⟨k + 1, c', ?_, hrow⟩
      rw [upTimes, hstep]
      exact hup

/-- behind such a row the steps come back to where they are -/
theorem upTimes_stays {column j : Nat} (hswallows : Swallows rows column j) {k : Nat} {c' : Composer}
    (h : Laid c rows) (himages : c.images = []) (hon : OnRow rows c.cursor above r below before after)
    (hbehind : j < above.length) (hcolumn : c.desired (terminalTextWidth before) = column)
    (hup : upTimes k c = some c') : ∃ i, c'.row = some i ∧ j < i := by
  induction k generalizing c above r below before after with
  | zero =>
    obtain rfl := Option.some.inj hup
    exact ⟨_, h.row_eq hon, hbehind⟩
  | succ k ih =>
    have htarget : ((above.length : Int) + -1).toNat = above.length - 1 := by omega
    rcases moveVertical_row h himages hon (-1) with ⟨-, hstep⟩ | ⟨position, -, hstep, above', r', below', before',
      after', hon', hhere, hnext⟩
    · rw [upTimes, hstep] at hup
      exact ih h himages hon hbehind hcolumn hup
    · rw [upTimes, hstep] at hup
      rw [htarget, hcolumn] at hhere hnext
      refine ih (c := { c with cursor := position, preferredColumn := some _ }) ⟨h.lines, h.text, h.wrapped⟩ himages hon'
        ?_ hcolumn hup
      by_cases hlands : Swallows rows column (above.length - 1)
      · rw [hnext hlands]
        omega
      · rw [hhere hlands]
        have hne : above.length - 1 ≠ j := fun he => hlands (he ▸ hswallows)
        omega

/-! ## what the moves are for -/

structure Moves (c : Composer) : Prop where
  tiles : ∃ rows, wrapText c.draft c.wrapWidth = some (placed 0 rows) ∧ textOf rows = c.draft ∧
    ∀ r ∈ rows, r.Fits c.wrapWidth
  vertical : ∀ direction : Int, direction = -1 ∨ direction = 1 →
    ∃ moved c', c.moveVertical direction = some (moved, c') ∧
      (moved = true → ∃ i j : Nat, c.row = some i ∧ c'.row = some j ∧ (j : Int) = i + direction)
  edge : ∀ stop, ∃ moved c', c.moveToVisualEdge stop = some (moved, c') ∧ c'.row = c.row
  up : ∃ k c', upTimes k c = some c' ∧ c'.row = some 0

def goesOn (ls : List VisualLine) (i : Nat) : Bool :=
  match ls[i]?, ls[i + 1]? with
  | some line, some next => line.stop = next.start
  | _, _ => false

/-- the line of the cursor does not go on in the next one, and no line up to the one after it both goes on and is
as narrow as the column that is aimed at -/
def Clear (c : Composer) : Prop :=
  ∃ layout, c.layout = some layout ∧ goesOn layout.lines layout.cursorRow = false ∧
    ∀ i ≤ layout.cursorRow + 1, ∀ line, layout.lines[i]? = some line → goesOn layout.lines i = true →
      c.desired layout.cursorColumn < line.width

theorem goesOn_placed : goesOn (placed 0 (above ++ r :: below)) above.length = true ↔ r.GoesOn below := by
  rw [goesOn, getElem?_placed]
  cases below with
  | nil =>
    rw [List.getElem?_eq_none (by simp [length_placed])]
    exact iff_of_false Bool.false_ne_true fun h => h.2 rfl
  | cons r' below =>
    have hnext := @getElem?_placed _ (above ++ [r]) below r'
    rw [List.append_assoc, List.length_append, List.length_singleton, List.singleton_append] at hnext
    rw [hnext, textOf_append, size_append, textOf_cons, size_append, size_text]
    show decide (_ = _) = true ↔ _
    rw [decide_eq_true_iff, Row.GoesOn]
    cases r.newline with
    | false => exact iff_of_true rfl ⟨rfl, List.cons_ne_nil _ _⟩
    | true =>
      refine iff_of_false (fun h => ?_) fun h => absurd h.1 (by decide)
      have hnil : size (textOf []) = 0 := rfl
      rw [if_pos rfl, hnil] at h
      simp only at h
      omega

theorem swallows_iff {column i : Nat} :
    Swallows rows column i ↔ ∃ line, (placed 0 rows)[i]? = some line ∧ goesOn (placed 0 rows) i = true ∧
      line.width ≤ column := by
  constructor
  · rintro ⟨above, r, below, rfl, rfl, hgoes, hwidth⟩
    exact ⟨_, getElem?_placed, goesOn_placed.mpr hgoes, hwidth⟩
  · rintro ⟨line, hline, hgoes, hwidth⟩
    have hi : i < rows.length := by
      rw [← length_placed 0 rows]
      exact (List.getElem?_eq_some_iff.mp hline).1
    obtain ⟨above, r, below, rfl, rfl⟩ := split_at hi
    rw [getElem?_placed] at hline
    obtain rfl := Option.some.inj hline
    exact ⟨above, r, below, rfl, rfl, goesOn_placed.mp hgoes, hwidth⟩

theorem clear_iff (h : Laid c rows) (hon : OnRow rows c.cursor above r below before after) :
    Clear c ↔ ¬r.GoesOn below ∧ ∀ i ≤ above.length + 1, ¬Swallows rows (c.desired (terminalTextWidth before)) i := by
  have hgoes : goesOn (placed 0 rows) above.length = false ↔ ¬r.GoesOn below := by
    rw [← Bool.not_eq_true, hon.rows, goesOn_placed]
  constructor
  · rintro ⟨layout, hlayout, hrow, hwide⟩
    rw [h.layout_eq hon] at hlayout
    obtain rfl := Option.some.inj hlayout
    refine ⟨hgoes.mp hrow, fun i hi hswallows => ?_⟩
    obtain ⟨line, hline, hon', hwidth⟩ := swallows_iff.mp hswallows
    exact absurd (hwide i hi line hline hon') (Nat.not_lt.mpr hwidth)
  · rintro ⟨hrow, hclear⟩
    refine ⟨_, h.layout_eq hon, hgoes.mpr hrow, fun i hi line hline hon' => ?_⟩
    exact Nat.lt_of_not_le fun hwidth => hclear i hi (swallows_iff.mpr ⟨line, hline, hon', hwidth⟩)

/-- the moves go where they say exactly on the drafts where no line swallows one of them -/
theorem moves_iff (c : Composer) (himages : c.images = []) (hcursor : IsBoundary c.draft c.cursor) :
    Moves c ↔ Clear c := by
  obtain ⟨rows, h⟩ := exists_laid c
  obtain ⟨above, r, below, before, after, hon⟩ := h.exists_onRow hcursor
  have hrow := h.row_eq hon
  have hlength : above.length < rows.length := by
    rw [hon.rows, List.length_append]
    simp
  rw [clear_iff h hon]
  constructor
  · intro hmoves
    have hedge : ¬r.GoesOn below := by
      intro hgoes
      obtain ⟨moved, c', hstep, hsame⟩ := hmoves.edge true
      obtain ⟨moved', c'', hstep', -, hnext⟩ := moveToVisualEdge_row h hon true
      obtain ⟨-, rfl⟩ := Prod.mk.inj (Option.some.inj (hstep.symm.trans hstep'))
      rw [hnext ⟨rfl, hgoes⟩, hrow] at hsame
      exact absurd (Option.some.inj hsame) (Nat.succ_ne_self _)
    refine ⟨hedge, fun i hi hswallows => ?_⟩
    rcases Nat.lt_trichotomy i above.length with hlt | rfl | hlt
    · -- the row is above the cursor
      obtain ⟨k, c', hup, hfirst⟩ := hmoves.up
      obtain ⟨j, hj, hbehind⟩ := upTimes_stays hswallows h himages hon hlt rfl hup
      rw [hfirst] at hj
      obtain rfl := Option.some.inj hj
      exact absurd hbehind (Nat.not_lt_zero i)
    · obtain ⟨above', r', below', hsplit, hlength', hgoes, -⟩ := hswallows
      obtain ⟨-, rfl, rfl⟩ := split_unique hsplit hon.rows hlength'
      exact hedge hgoes
    · -- it is the one below
      have hi' : i = above.length + 1 := by omega
      have htarget : ((above.length : Int) + 1).toNat = i := by omega
      have hrows : i < rows.length := by
        obtain ⟨above', r', below', hsplit, rfl, -⟩ := hswallows
        rw [hsplit, List.length_append]
        simp
      obtain ⟨moved, c', hstep, hmoved⟩ := hmoves.vertical 1 (.inr rfl)
      rcases moveVertical_row h himages hon 1 with ⟨hstays, -⟩ | ⟨position, -, hstep', above', r', below', before',
        after', hon', -, hnext⟩
      · omega
      · obtain ⟨rfl, rfl⟩ := Prod.mk.inj (Option.some.inj (hstep.symm.trans hstep'))
        obtain ⟨a, b, ha, hb, hab⟩ := hmoved rfl
        rw [htarget] at hnext
        have hlaid : Laid { c with cursor := position, preferredColumn := some (c.desired (terminalTextWidth before)) }
          rows := ⟨h.lines, h.text, h.wrapped⟩
        rw [hlaid.row_eq hon'] at hb
        rw [hrow] at ha
        obtain rfl := Option.some.inj ha
        obtain rfl := Option.some.inj hb
        have := hnext hswallows
        omega
  · rintro ⟨hedge, hclear⟩
    refine ⟨⟨rows, h.lines, h.text, h.wrapped.fits⟩, fun direction hdirection => ?_, fun stop => ?_, ?_⟩
    · rcases moveVertical_row h himages hon direction with ⟨-, hstep⟩ | ⟨position, hmoves, hstep, above', r', below',
        before', after', hon', hhere, -⟩
      · exact ⟨false, c, hstep, fun hm => absurd hm Bool.false_ne_true⟩
      · have hlaid : Laid { c with cursor := position, preferredColumn := some (c.desired (terminalTextWidth before)) }
          rows := ⟨h.lines, h.text, h.wrapped⟩
        refine ⟨true, _, hstep, fun _ => ⟨_, _, hrow, hlaid.row_eq hon', ?_⟩⟩
        rw [hhere (hclear _ (by omega))]
        omega
    · obtain ⟨moved, c', hstep, hsame, -⟩ := moveToVisualEdge_row h hon stop
      exact ⟨moved, c', hstep, by rw [hrow, hsame fun hgoes => hedge hgoes.2]⟩
    · exact upTimes_reaches h himages hon rfl rfl fun j hj => hclear j (by omega)

end Composer

end

/-- each character is a cluster of its own, one column wide -/
@[reducible] def plainText : UnicodeText := ⟨fun _ _ => false, List.length, Char.isAlphanum⟩

/-- two lines at a width of four columns; the first one goes on in the second one and is two columns wide -/
def wordsDraft : Composer := { Composer.new with draft := ['a', ' ', 'b', 'b', 'b'], lastWidth := 4 }

theorem moves_iff_short :
    @Composer.Moves plainText { wordsDraft with draft := ['a', ' ', 'b'], cursor := 1 } ↔
      @Composer.Clear plainText { wordsDraft with draft := ['a', ' ', 'b'], cursor := 1 } :=
  @Composer.moves_iff plainText _ rfl ⟨['a'], [' ', 'b'], rfl, rfl⟩

/-- at the end of the second line, `Up` goes to the start of it -/
theorem up_stays_on_its_row :
    ¬∀ (unicode : UnicodeText) (c : Composer), c.images = [] → IsBoundary c.draft c.cursor → @Composer.Moves unicode c := by
  intro h
  have hmoves := h plainText { wordsDraft with cursor := 5 } rfl (isBoundary_size wordsDraft.draft)
  obtain ⟨moved, c', hstep, hmoved⟩ := @Composer.Moves.vertical plainText _ hmoves (-1) (.inl rfl)
  have hstart : @Composer.moveVertical plainText { wordsDraft with cursor := 5 } (-1) =
      some (true, { wordsDraft with cursor := 2, preferredColumn := some 3 }) := by decide +kernel
  obtain ⟨rfl, rfl⟩ := Prod.mk.inj (Option.some.inj (hstep.symm.trans hstart))
  obtain ⟨i, j, hi, hj, hij⟩ := hmoved rfl
  have hfirst : @Composer.row plainText { wordsDraft with cursor := 5 } = some 1 := by decide +kernel
  have hsecond : @Composer.row plainText { wordsDraft with cursor := 2, preferredColumn := some 3 } = some 1 := by
    decide +kernel
  rw [hfirst] at hi
  rw [hsecond] at hj
  obtain rfl := Option.some.inj hi
  obtain rfl := Option.some.inj hj
  omega

end Orvek.Tui
