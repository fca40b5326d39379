import Orvek.Context.Render
import Orvek.Lib.Encoded

/-!
# What a bitmap page shows

The rows of a page are measured by one loop and painted by another one, which computes the columns
again.  Here the two are held against each other:

* `columnAt`         the column of a byte of a row, with the tabs before it expanded;
* `drawn`            the characters of a row with their columns;
* `RowShows`            a row of cells shows these characters and nothing else;
* `renderChecked`    the renderer with each of its indices checked;
* `PageShows`        what a page shows of its source;
* `render_shows`     no index is out of bounds, and the pages show the whole text.
-/

set_option linter.unusedSectionVars false

namespace Orvek
open Json Checks

variable {column : Nat} {l : List UInt8}

/-! ## columns -/

def advance (column : Nat) (b : UInt8) : Nat :=
  if b = tab then column + (tabColumns - column % tabColumns) else column + 1

def columnAt (row : List UInt8) (k : Nat) : Nat := (row.take k).foldl advance 0

/-- a byte that has a glyph -/
def drawable (b : UInt8) : Bool := 32 ≤ b.toNat && b.toNat ≤ 126

/-- the characters of a row up to its end, with their columns -/
def drawn : List UInt8 → Nat → List (Nat × UInt8)
  | [], _ => []
  | b :: rest, column =>
    if b = carriageReturn ∨ b = newline then []
    else if b = tab then drawn rest (column + (tabColumns - column % tabColumns))
    else (column, b) :: drawn rest (column + 1)

attribute [grind =] drawn

theorem drawn_ge {text : List UInt8} : ∀ d ∈ drawn text column, column ≤ d.1 := by
  induction text generalizing column with
  | nil => exact fun _ h => (nomatch h)
  | cons b text ih =>
    intro d hd
    unfold drawn at hd
    split at hd
    · cases hd
    · split at hd
      · have := ih d hd
        omega
      · rcases List.mem_cons.mp hd with rfl | hd
        · exact Nat.le_refl _
        · have := ih d hd
          omega

theorem drawn_pairwise (text : List UInt8) (column : Nat) :
    (drawn text column).Pairwise fun d e => d.1 < e.1 := by
  induction text generalizing column with
  | nil => exact List.Pairwise.nil
  | cons b text ih =>
    unfold drawn
    split
    · exact List.Pairwise.nil
    · split
      · exact ih _
      · exact List.Pairwise.cons (fun d hd => drawn_ge d hd) (ih _)

theorem drawn_lt (h : column ≤ renderColumns) :
    ∀ d ∈ drawn (l.take (rowLength l column)) column, d.1 < renderColumns := by
  have hcolumns : renderColumns = 192 := rfl
  have htabs : tabColumns = 8 := rfl
  induction l generalizing column with
  | nil => exact fun _ h => (nomatch h)
  | cons b l ih =>
    intro d hd
    unfold rowLength at hd
    split at hd
    · rename_i hnl
      subst hnl
      cases hd
    · split at hd
      · rename_i hcr
        subst hcr
        cases hd
      · rename_i hnl hcr
        split at hd
        · cases hd
        · rename_i hfull
          split at hd
          · rename_i htab
            rw [Nat.add_comm, List.take_succ_cons, drawn, if_neg (by simp [hnl, hcr]),
              if_pos htab] at hd
            have hnext : column + (tabColumns - column % tabColumns) ≤ renderColumns := by
              rw [htabs]
              omega
            exact ih hnext d hd
          · rename_i htab
            rw [Nat.add_comm, List.take_succ_cons, drawn, if_neg (by simp [hnl, hcr]),
              if_neg htab] at hd
            rcases List.mem_cons.mp hd with rfl | hd
            · show column < renderColumns
              omega
            · exact ih (by omega) d hd

theorem mem_drawn (hr : Renderable l) {k : Nat} {b : UInt8} (hk : k < rowLength l column)
    (hb : l[k]? = some b) (hdraw : drawable b = true) :
    ((l.take k).foldl advance column, b) ∈ drawn (l.take (rowLength l column)) column := by
  induction l generalizing column k with
  | nil => cases hb
  | cons a l ih =>
    unfold rowLength at hk ⊢
    split at hk
    · rename_i hnl
      obtain rfl : k = 0 := by omega
      cases hb
      subst hnl
      exact absurd hdraw (by decide)
    · rename_i hnl
      rw [if_neg hnl]
      split at hk
      · -- the line feed of the pair is the only other byte of the row
        rename_i hcr
        subst hcr
        cases k with
        | zero =>
          cases hb
          exact absurd hdraw (by decide)
        | succ k =>
          obtain rfl : k = 0 := by omega
          have hpair := hr.1
          cases l with
          | nil => cases hb
          | cons c l =>
            cases hb
            have hc : b = newline := by simpa [supported, carriageReturn, newline, tab] using hpair
            subst hc
            exact absurd hdraw (by decide)
      · rename_i hcr
        rw [if_neg hcr]
        split at hk
        · omega
        · rename_i hfull
          rw [if_neg hfull]
          split at hk
          · rename_i htab
            rw [if_pos htab, Nat.add_comm, List.take_succ_cons, drawn, if_neg (by simp [hnl, hcr]),
              if_pos htab]
            cases k with
            | zero =>
              cases hb
              subst htab
              exact absurd hdraw (by decide)
            | succ k =>
              have hrest : k < rowLength l (column + (tabColumns - column % tabColumns)) := by omega
              have h := ih hr.2 hrest hb
              rw [List.take_succ_cons, List.foldl_cons, advance, if_pos htab]
              exact h
          · rename_i htab
            rw [if_neg htab, Nat.add_comm, List.take_succ_cons, drawn, if_neg (by simp [hnl, hcr]),
              if_neg htab]
            cases k with
            | zero =>
              cases hb
              exact List.mem_cons_self
            | succ k =>
              have hrest : k < rowLength l (column + 1) := by omega
              have h := ih hr.2 hrest hb
              rw [List.take_succ_cons, List.foldl_cons, advance, if_neg htab]
              exact List.mem_cons_of_mem _ h

/-- what is drawn of a text that can be rendered has glyphs -/
theorem drawn_drawable (h : Renderable l) (n column : Nat) :
    ∀ d ∈ drawn (l.take n) column, drawable d.2 = true := by
  induction l generalizing n column with
  | nil =>
    rw [List.take_nil]
    exact fun _ h => (nomatch h)
  | cons b l ih =>
    cases n with
    | zero => exact fun _ h => (nomatch h)
    | succ n =>
      intro d hd
      rw [List.take_succ_cons, drawn] at hd
      split at hd
      · cases hd
      · rename_i hbreak
        split at hd
        · exact ih h.2 n _ d hd
        · rename_i htab
          rcases List.mem_cons.mp hd with rfl | hd
          · have hb := h.1
            simp only [not_or] at hbreak
            simpa [supported, drawable, hbreak, htab] using hb
          · exact ih h.2 n _ d hd

/-- a row ends behind a line feed, or where no line feed follows -/
theorem rowLength_end (hr : Renderable l) (column : Nat) :
    (∃ n, rowLength l column = n + 1 ∧ l[n]? = some newline) ∨
      l[rowLength l column]? ≠ some newline := by
  induction l generalizing column with
  | nil => exact Or.inr (fun h => nomatch h)
  | cons b l ih =>
    unfold rowLength
    split
    · rename_i hnl
      subst hnl
      exact Or.inl ⟨0, rfl, rfl⟩
    · rename_i hnl
      split
      · rename_i hcr
        subst hcr
        have hpair := hr.1
        cases l with
        | nil => exact absurd hpair (by decide)
        | cons c l =>
          have hc : c = newline := by simpa [supported, carriageReturn, newline, tab] using hpair
          exact Or.inl ⟨1, rfl, by rw [hc]; rfl⟩
      · split
        · exact Or.inr (fun h => hnl (Option.some.inj h))
        · have hstep (m : Nat) (h : (∃ n, m = n + 1 ∧ l[n]? = some newline) ∨ l[m]? ≠ some newline)
            :
              (∃ n, 1 + m = n + 1 ∧ (b :: l)[n]? = some newline) ∨
                (b :: l)[1 + m]? ≠ some newline := by
            rcases h with ⟨n, rfl, hn⟩ | h
            · exact Or.inl ⟨n + 1, Nat.add_comm _ _, hn⟩
            · rw [Nat.add_comm 1 m]
              exact Or.inr h
          split
          · exact hstep _ (ih hr.2 _)
          · exact hstep _ (ih hr.2 _)

/-! ## pixels -/

def cellIndex (row i column : Nat) : Nat :=
  (row * cellHeight + 1 + i) * rowBytes + (renderMargin / 8 + column)

/-- one line of a glyph -/
def ink (host : RenderHost) (b : UInt8) (i : Nat) : UInt8 :=
  host.font.getD ((b.toNat - ' '.toNat) * fontHeight + i) 0

theorem cellIndex_inj {row i row' i' column' : Nat} (hi : i < fontHeight) (hi' : i' < fontHeight)
    (hc : column < renderColumns) (hc' : column' < renderColumns)
    (h : cellIndex row i column = cellIndex row' i' column') : row = row' ∧ i = i' ∧ column = column' := by
  have h1 : fontHeight = 13 := rfl
  have h2 : renderColumns = 192 := rfl
  unfold cellIndex at h
  rw [show cellHeight = 16 from rfl, show rowBytes = 196 from rfl,
    show renderMargin / 8 = 2 from rfl] at h
  omega

section
variable {f : Nat → UInt8 → UInt8} {idx : Nat → Nat}

/-- changes at places that are computed one after the other -/
def modifyAll (idx : Nat → Nat) (f : Nat → UInt8 → UInt8) (n : Nat) (pixels : List UInt8) :
    List UInt8 :=
  (List.range n).foldl (fun pixels i => pixels.modify (idx i) (f i)) pixels

theorem modifyAll_succ (n : Nat) (pixels : List UInt8) :
    modifyAll idx f (n + 1) pixels = (modifyAll idx f n pixels).modify (idx n) (f n) := by
  rw [modifyAll, List.range_succ, List.foldl_append]
  rfl

theorem length_modifyAll (n : Nat) (pixels : List UInt8) :
    (modifyAll idx f n pixels).length = pixels.length := by
  induction n with
  | zero => rfl
  | succ n ih => rw [modifyAll_succ, List.length_modify, ih]

theorem modifyAll_other (n : Nat) (pixels : List UInt8) {k : Nat} (h : ∀ i < n, idx i ≠ k) :
    (modifyAll idx f n pixels)[k]? = pixels[k]? := by
  induction n with
  | zero => rfl
  | succ n ih =>
    rw [modifyAll_succ, List.getElem?_modify_ne _ _ (h n (Nat.lt_succ_self n)),
      ih fun i hi => h i (Nat.lt_succ_of_lt hi)]

theorem modifyAll_at (n : Nat) (pixels : List UInt8) {i : Nat} (hi : i < n)
    (hinj : ∀ j < n, idx j = idx i → j = i) :
    (modifyAll idx f n pixels)[idx i]? = pixels[idx i]?.map (f i) := by
  induction n with
  | zero => cases hi
  | succ n ih =>
    rw [modifyAll_succ]
    by_cases hn : i = n
    · subst hn
      rw [List.getElem?_modify_eq, modifyAll_other]
      · rfl
      · intro j hj he
        have := hinj j (Nat.lt_succ_of_lt hj) he
        omega
    · have hne : idx n ≠ idx i := fun he => hn (hinj n (Nat.lt_succ_self n) he).symm
      rw [List.getElem?_modify_ne _ _ hne,
        ih (by omega) fun j hj he => hinj j (Nat.lt_succ_of_lt hj) he]

end

section
variable (host : RenderHost)
variable {pixels : List UInt8} {row : Nat} {cells : List (Nat × UInt8)}

theorem length_paintGlyph (pixels : List UInt8) (b : UInt8) (column row : Nat) :
    (paintGlyph host pixels b column row).length = pixels.length := length_modifyAll _ _

theorem paintGlyph_other {b : UInt8} {column k : Nat} (h : ∀ i < fontHeight, cellIndex row i column ≠ k) :
    (paintGlyph host pixels b column row)[k]? = pixels[k]? := modifyAll_other _ _ h

theorem paintGlyph_at {b : UInt8} {column i : Nat} (hi : i < fontHeight) (hc : column < renderColumns) :
    (paintGlyph host pixels b column row)[cellIndex row i column]? =
      pixels[cellIndex row i column]?.map fun pixel => pixel &&& ~~~ ink host b i := by
  exact modifyAll_at fontHeight pixels hi fun j hj he => (cellIndex_inj hj hi hc hc he).2.1

/-- the painting of characters that have their columns -/
def paintCells (row : Nat) (cells : List (Nat × UInt8)) (pixels : List UInt8) : List UInt8 :=
  cells.foldl (fun pixels d => paintGlyph host pixels d.2 d.1 row) pixels

theorem paintRow_eq (row : Nat) (text : List UInt8) (column : Nat) (pixels : List UInt8) :
    paintRow host row text column pixels = paintCells host row (drawn text column) pixels := by
  induction text generalizing column pixels with
  | nil => rfl
  | cons b text ih =>
    unfold paintRow drawn
    split
    · rfl
    · split
      · exact ih _ _
      · exact ih _ _

theorem length_paintCells (row : Nat) (cells : List (Nat × UInt8)) (pixels : List UInt8) :
    (paintCells host row cells pixels).length = pixels.length := by
  induction cells generalizing pixels with
  | nil => rfl
  | cons d cells ih =>
    show (paintCells host row cells (paintGlyph host pixels d.2 d.1 row)).length = _
    rw [ih, length_paintGlyph]

theorem paintCells_other {k : Nat} (pixels : List UInt8)
    (h : ∀ d ∈ cells, ∀ i < fontHeight, cellIndex row i d.1 ≠ k) :
    (paintCells host row cells pixels)[k]? = pixels[k]? := by
  induction cells generalizing pixels with
  | nil => rfl
  | cons d cells ih =>
    show (paintCells host row cells (paintGlyph host pixels d.2 d.1 row))[k]? = _
    rw [ih _ fun e he => h e (List.mem_cons_of_mem _ he),
      paintGlyph_other host (h d List.mem_cons_self)]

/-- the byte that is shown in a column: the glyph of its character, or white -/
def cellByte (cells : List (Nat × UInt8)) (column i : Nat) : UInt8 :=
  match cells.find? fun d => d.1 = column with
  | some d => ~~~ ink host d.2 i
  | none => 0xff

def RowShows (pixels : List UInt8) (row : Nat) (cells : List (Nat × UInt8)) : Prop :=
  ∀ i < fontHeight, ∀ column < renderColumns,
    pixels[cellIndex row i column]? = some (cellByte host cells column i)

theorem white_and (x : UInt8) : 0xff &&& x = x := by
  apply UInt8.eq_of_toBitVec_eq
  exact BitVec.allOnes_and

theorem paintCells_shows (hblank : RowShows host pixels row [])
    (hcells : cells.Pairwise fun d e => d.1 < e.1) (hcolumns : ∀ d ∈ cells, d.1 < renderColumns) :
    RowShows host (paintCells host row cells pixels) row cells := by
  intro i hi column hc
  have hpaint : (paintCells host row cells pixels)[cellIndex row i column]? =
      match cells.find? fun d => d.1 = column with
      | some d => pixels[cellIndex row i column]?.map fun pixel => pixel &&& ~~~ ink host d.2 i
      | none => pixels[cellIndex row i column]? := by
    clear hblank
    induction cells generalizing pixels with
    | nil => rfl
    | cons d cells ih =>
      have htail := (List.pairwise_cons.mp hcells).2
      have hd := hcolumns d List.mem_cons_self
      have hrest : ∀ e ∈ cells, e.1 < renderColumns := fun e he =>
        hcolumns e (List.mem_cons_of_mem _ he)
      show (paintCells host row cells (paintGlyph host pixels d.2 d.1 row))[_]? = _
      rw [ih htail hrest]
      by_cases hd1 : d.1 = column
      · -- no later character has this column
        have hnone : cells.find? (fun e => e.1 = column) = none := by
          rw [List.find?_eq_none]
          intro e he
          have := (List.pairwise_cons.mp hcells).1 e he
          simp only [decide_eq_true_eq]
          omega
        rw [hnone, List.find?_cons_of_pos (by simpa using hd1)]
        subst hd1
        exact paintGlyph_at host hi hd
      · have hother : (paintGlyph host pixels d.2 d.1 row)[cellIndex row i column]? =
            pixels[cellIndex row i column]? := by
          refine paintGlyph_other host fun j hj he => hd1 ?_
          exact (cellIndex_inj hj hi hd hc he).2.2
        rw [List.find?_cons_of_neg (by simpa using hd1), hother]
  rw [hpaint, hblank i hi column hc]
  unfold cellByte
  cases cells.find? fun d => d.1 = column with
  | none => rfl
  | some d => exact congrArg some (white_and _)

def SameRow (row : Nat) (a b : List UInt8) : Prop :=
  ∀ i < fontHeight, ∀ column < renderColumns,
    a[cellIndex row i column]? = b[cellIndex row i column]?

theorem SameRow.shows {a b : List UInt8} (h : SameRow row a b) (hb : RowShows host b row cells) :
    RowShows host a row cells := by
  intro i hi column hc
  rw [h i hi column hc, hb i hi column hc]

theorem paintCells_sameRow {row' : Nat} (pixels : List UInt8) (hcolumns : ∀ d ∈ cells, d.1 < renderColumns)
    (hne : row ≠ row') : SameRow row' (paintCells host row cells pixels) pixels := by
  intro i hi column hc
  refine paintCells_other host pixels fun d hd j hj he => hne ?_
  exact (cellIndex_inj hj hi (hcolumns d hd) hc he).1

/-! ## the rows of a page -/

def rowText (text : List UInt8) (start : Nat) : List UInt8 :=
    (text.take (rowEnd text start)).drop start

theorem rowText_eq (text : List UInt8) (start : Nat) :
    rowText text start = (text.drop start).take (rowLength (text.drop start) 0) := by
  rw [rowText, rowEnd, List.drop_take, Nat.add_sub_cancel_left]

theorem rowText_columns (text : List UInt8) (start : Nat) :
    ∀ d ∈ drawn (rowText text start) 0, d.1 < renderColumns := by
  rw [rowText_eq]
  exact drawn_lt (Nat.zero_le _)

/-- where the rows of a page start, counted from its first -/
def rowOffset (text : List UInt8) : Nat → Nat → Nat
  | start, 0 => start
  | start, r + 1 => rowOffset text (rowEnd text start) r

def paintCopies (base n : Nat) (row : List UInt8) (pixels : List UInt8) : List UInt8 :=
  (List.range n).foldl (fun pixels copy => paintRow host (base + copy) row 0 pixels) pixels

theorem paintCopies_succ (base n : Nat) (row pixels : List UInt8) :
    paintCopies host base (n + 1) row pixels =
      paintCells host (base + n) (drawn row 0) (paintCopies host base n row pixels) := by
  rw [paintCopies, List.range_succ, List.foldl_append]
  exact paintRow_eq host _ _ _ _

theorem length_paintCopies (base n : Nat) (row pixels : List UInt8) :
    (paintCopies host base n row pixels).length = pixels.length := by
  induction n with
  | zero => rfl
  | succ n ih => rw [paintCopies_succ, length_paintCells, ih]

theorem paintCopies_sameRow {base n row' : Nat} {row : List UInt8} (pixels : List UInt8)
    (hcolumns : ∀ d ∈ drawn row 0, d.1 < renderColumns) (hne : ∀ copy < n, base + copy ≠ row') :
    SameRow row' (paintCopies host base n row pixels) pixels := by
  induction n with
  | zero => exact fun _ _ _ _ => rfl
  | succ n ih =>
    intro i hi column hc
    rw [paintCopies_succ, paintCells_sameRow host _ hcolumns (hne n (Nat.lt_succ_self n)) i hi
      column hc,
      ih (fun copy hcopy => hne copy (Nat.lt_succ_of_lt hcopy)) i hi column hc]

theorem paintCopies_shows {base n : Nat} {row : List UInt8}
    (hcolumns : ∀ d ∈ drawn row 0, d.1 < renderColumns)
    (hblank : ∀ copy < n, RowShows host pixels (base + copy) []) :
    ∀ copy < n, RowShows host (paintCopies host base n row pixels) (base + copy) (drawn row 0) := by
  induction n with
  | zero => exact fun _ h => (nomatch h)
  | succ n ih =>
    intro copy hcopy
    have hbefore := fun c (hc : c < n) => hblank c (Nat.lt_succ_of_lt hc)
    rw [paintCopies_succ]
    by_cases hlast : copy = n
    · subst hlast
      have hsame : SameRow (base + copy) (paintCopies host base copy row pixels) pixels :=
        paintCopies_sameRow host pixels hcolumns (by omega)
      exact paintCells_shows host (hsame.shows host (hblank copy hcopy))
        (drawn_pairwise _ _) hcolumns
    · have hsame := paintCells_sameRow host (paintCopies host base n row pixels) hcolumns
        (show base + n ≠ base + copy by omega)
      exact hsame.shows host (ih hbefore copy (by omega))

variable (text : List UInt8) (repeats : Nat)

theorem paintRows_succ (count row offset : Nat) (pixels : List UInt8) :
    paintRows host text repeats (count + 1) row offset pixels =
      paintRows host text repeats count (row + 1) (rowEnd text offset)
        (paintCopies host (headerRows + row * repeats) repeats (rowText text offset) pixels) := rfl

theorem length_paintRows (count row offset : Nat) (pixels : List UInt8) :
    (paintRows host text repeats count row offset pixels).length = pixels.length := by
  induction count generalizing row offset pixels with
  | zero => rfl
  | succ count ih => rw [paintRows_succ, ih, length_paintCopies]

theorem paintRows_sameRow (count row offset : Nat) (pixels : List UInt8) {row' : Nat}
    (h : row' < headerRows + row * repeats) :
    SameRow row' (paintRows host text repeats count row offset pixels) pixels := by
  induction count generalizing row offset pixels with
  | zero => exact fun _ _ _ _ => rfl
  | succ count ih =>
    intro i hi column hc
    have hnext : row' < headerRows + (row + 1) * repeats := by
      rw [Nat.succ_mul]
      omega
    rw [paintRows_succ, ih _ _ _ hnext i hi column hc]
    exact paintCopies_sameRow host pixels (rowText_columns text offset) (by omega) i hi column hc

theorem paintRows_shows {count : Nat} (offset : Nat) (hblank : ∀ r < count, ∀ copy < repeats,
      RowShows host pixels (headerRows + (row + r) * repeats + copy) []) :
    ∀ r < count, ∀ copy < repeats,
      RowShows host (paintRows host text repeats count row offset pixels)
        (headerRows + (row + r) * repeats + copy)
          (drawn (rowText text (rowOffset text offset r)) 0) := by
  induction count generalizing row offset pixels with
  | zero => exact fun _ h => (nomatch h)
  | succ count ih =>
    have hcolumns := rowText_columns text offset
    intro r hr copy hcopy
    rw [paintRows_succ]
    cases r with
    | zero =>
      have hfirst : ∀ copy < repeats, RowShows host pixels (headerRows + row * repeats + copy) [] :=
        fun c hc => hblank 0 (Nat.succ_pos _) c hc
      have hshows := paintCopies_shows host hcolumns hfirst copy hcopy
      refine (paintRows_sameRow host text repeats count (row + 1) _ _ ?_).shows host hshows
      rw [Nat.succ_mul, Nat.add_zero]
      omega
    | succ r =>
      have hlater : ∀ r < count, ∀ copy < repeats, RowShows host
          (paintCopies host (headerRows + row * repeats) repeats (rowText text offset) pixels)
          (headerRows + (row + 1 + r) * repeats + copy) [] := by
        intro r hr copy hcopy
        have hrow : row + 1 + r = row + (r + 1) := by omega
        rw [hrow]
        refine (paintCopies_sameRow host pixels hcolumns ?_).shows host
          (hblank (r + 1) (Nat.succ_lt_succ hr) copy hcopy)
        intro c hc
        have : (row + (r + 1)) * repeats = row * repeats + (r * repeats + repeats) := by
          rw [Nat.add_mul, Nat.succ_mul]
        omega
      have hrow : row + (r + 1) = row + 1 + r := by omega
      rw [hrow]
      exact ih (rowEnd text offset) hlater r (Nat.lt_of_succ_lt_succ hr) copy hcopy

end

/-! ## the page -/

/-- all characters of a text have glyphs -/
def Printable (s : String) : Prop := ∀ c ∈ s.toList, 32 ≤ c.toNat ∧ c.toNat ≤ 126

instance (s : String) : Decidable (Printable s) :=
  @List.decidableBAll Char (fun c => 32 ≤ c.toNat ∧ c.toNat ≤ 126) (fun _ => inferInstance) s.toList

theorem Printable.append {s t : String} (hs : Printable s) (ht : Printable t) :
    Printable (s ++ t) := by
  intro c hc
  rw [String.toList_append] at hc
  exact (List.mem_append.mp hc).elim (hs c) (ht c)

theorem printable_bytes {s : String} (h : Printable s) :
    strBytes s = s.toList.map fun c => c.toNat.toUInt8 := by
  have hcs : ∀ cs : List Char, (∀ c ∈ cs, 32 ≤ c.toNat ∧ c.toNat ≤ 126) →
      utf8 cs = cs.map fun c => c.toNat.toUInt8 := by
    intro cs hcs
    induction cs with
    | nil => rfl
    | cons c cs ih =>
      have hc := hcs c List.mem_cons_self
      have hone : c.utf8Size = 1 :=
        Char.utf8Size_eq_one_iff.mpr (UInt32.le_iff_toNat_le.mpr (by show c.toNat ≤ 127; omega))
      show String.utf8EncodeChar c ++ utf8 cs = _
      rw [String.utf8EncodeChar_eq_singleton hone, ih fun d hd => hcs d (List.mem_cons_of_mem _ hd)]
      rfl
  exact hcs s.toList h

theorem drawn_bytes (h : ∀ b ∈ l, drawable b = true) (column : Nat) :
    ∀ d ∈ drawn l column, d.1 < column + l.length ∧ drawable d.2 = true := by
  induction l generalizing column with
  | nil => exact fun _ h => (nomatch h)
  | cons b l ih =>
    have hb := h b List.mem_cons_self
    have hbreak : ¬ (b = carriageReturn ∨ b = newline) := by
      rintro (rfl | rfl) <;> exact absurd hb (by decide)
    have htab : b ≠ tab := by
      rintro rfl
      exact absurd hb (by decide)
    intro d hd
    rw [drawn, if_neg hbreak, if_neg htab] at hd
    rw [List.length_cons]
    rcases List.mem_cons.mp hd with rfl | hd
    · exact ⟨by show column < _; omega, hb⟩
    · have := ih (fun c hc => h c (List.mem_cons_of_mem _ hc)) (column + 1) d hd
      exact ⟨by omega, this.2⟩

theorem drawn_printable {s : String} (h : Printable s) (hlen : s.length ≤ renderColumns) :
    ∀ d ∈ drawn (strBytes s) 0, d.1 < renderColumns ∧ drawable d.2 = true := by
  rw [printable_bytes h]
  have hbytes : ∀ b ∈ s.toList.map (fun c => c.toNat.toUInt8), drawable b = true := by
    intro b hb
    obtain ⟨c, hc, rfl⟩ := List.mem_map.mp hb
    obtain ⟨h1, h2⟩ := h c hc
    have hval : c.toNat.toUInt8.toNat = c.toNat := UInt8.toNat_ofNat_of_lt' (by
      show c.toNat < 256
      omega)
    simp [drawable, hval, h1, h2]
  intro d hd
  obtain ⟨h1, h2⟩ := drawn_bytes hbytes 0 d hd
  rw [List.length_map, String.length_toList] at h1
  exact ⟨by omega, h2⟩

theorem printable_of_digits {cs : List Char} (h : ∀ c ∈ cs, c.isDigit = true) :
    Printable (String.ofList cs) := by
  intro c hc
  rw [String.toList_ofList] at hc
  have hd := h c hc
  simp only [Char.isDigit, ge_iff_le, Bool.and_eq_true, decide_eq_true_eq] at hd
  have h1 : 48 ≤ c.toNat := hd.1
  have h2 : c.toNat ≤ 57 := hd.2
  omega

theorem printable_showUsize (n : Nat) : Printable (showUsize n) := by
  rw [showUsize, Nat.toString_eq_ofList_toDigits]
  exact printable_of_digits fun _ hc => Nat.isDigit_of_mem_toDigits (by decide) (by decide) hc

theorem printable_digest (d : Digest) : Printable d.display := by
  have hhex : ∀ n < 16, 32 ≤ (hexDigit n).toNat ∧ (hexDigit n).toNat ≤ 126 := by decide
  intro c hc
  rw [Digest.display, String.toList_ofList] at hc
  obtain ⟨i, -, rfl⟩ := List.mem_map.mp hc
  exact hhex _ (Nat.mod_lt _ (by decide))

/-- the first line of the header -/
def heading (source : Digest) : String := "SOURCE " ++ source.display

/-- the second line of the header -/
def locator (profile : RenderProfile) (page start stop : Nat) : String :=
  "PROFILE " ++ profile.id ++ " | PAGE " ++ showUsize (page + 1) ++ " | BYTES " ++
    showUsize start ++ ".." ++ showUsize stop

theorem drawn_heading (source : Digest) :
    ∀ d ∈ drawn (strBytes (heading source)) 0, d.1 < renderColumns ∧ drawable d.2 = true := by
  have hlength : (heading source).length = 71 := by
    rw [heading, String.length_append, Digest.length_display]
    rfl
  have hstart : Printable "SOURCE " := by decide
  exact drawn_printable (hstart.append (printable_digest source)) (by rw [hlength]; decide)

theorem drawn_locator (profile : RenderProfile) (page start stop : Nat) :
    ∀ d ∈ drawn (strBytes (locator profile page start stop)) 0,
      d.1 < renderColumns ∧ drawable d.2 = true := by
  have h1 : Printable "PROFILE " := by decide
  have h2 : Printable profile.id := by cases profile <;> decide
  have h3 : Printable " | PAGE " := by decide
  have h4 : Printable " | BYTES " := by decide
  have h5 : Printable ".." := by decide
  have hprint := ((((((h1.append h2).append h3).append (printable_showUsize (page + 1))).append
    h4).append (printable_showUsize start)).append h5).append (printable_showUsize stop)
  have hid : profile.id.length ≤ 28 := by cases profile <;> decide
  have hl1 := length_showUsize (page + 1)
  have hl2 := length_showUsize start
  have hl3 := length_showUsize stop
  refine drawn_printable hprint ?_
  show (locator profile page start stop).length ≤ renderColumns
  simp only [locator, String.length_append]
  rw [show "PROFILE ".length = 8 from rfl, show " | PAGE ".length = 8 from rfl,
    show " | BYTES ".length = 9 from rfl, show "..".length = 2 from rfl,
    show renderColumns = 192 from rfl]
  omega

/-- the first byte of the line below the header, and the one after its last -/
def separatorStart : Nat := (2 * cellHeight + cellHeight / 2) * rowBytes + renderMargin / 8
def separatorStop : Nat := (2 * cellHeight + cellHeight / 2) * rowBytes +
    (renderWidth - renderMargin) / 8

theorem separator_le : separatorStart ≤ separatorStop := by decide

def fillZero (first last : Nat) (pixels : List UInt8) : List UInt8 :=
  pixels.take first ++ List.replicate (last - first) 0 ++ pixels.drop last

theorem length_fillZero {first last : Nat} {pixels : List UInt8} (h1 : first ≤ last)
    (h2 : last ≤ pixels.length) : (fillZero first last pixels).length = pixels.length := by
  simp only [fillZero, List.length_append, List.length_take, List.length_replicate,
    List.length_drop]
  omega

theorem fillZero_after {first last : Nat} {pixels : List UInt8} (h1 : first ≤ last)
    (h2 : last ≤ pixels.length) {k : Nat} (hk : last ≤ k) :
    (fillZero first last pixels)[k]? = pixels[k]? := by
  have hlength : (pixels.take first ++ List.replicate (last - first) (0 : UInt8)).length =
    last := by
    simp only [List.length_append, List.length_take, List.length_replicate]
    omega
  rw [fillZero, List.getElem?_append_right (by rw [hlength]; exact hk), hlength, List.getElem?_drop]
  congr 1
  omega

section
variable (host : RenderHost) (source : Digest) (profile : RenderProfile)
    (page start stop rows : Nat)

def ground : List UInt8 :=
  fillZero separatorStart separatorStop
    (paintRow host 1 (strBytes (locator profile page start stop)) 0
      (paintRow host 0 (strBytes (heading source)) 0
        (List.replicate (rowBytes * pageHeight profile rows) 0xff)))

theorem paintPage_eq (text : List UInt8) :
    paintPage host text source profile page start stop rows =
      paintRows host text profile.lineRepeat rows 0 start
        (ground host source profile page start stop rows) := rfl

/-- the height has room for the header, the rows and the footer, and the least page for the header
-/
theorem pageHeight_ge (hrows : rows ≤ bodyRows profile) :
    (headerRows + rows * profile.lineRepeat + footerRows) * cellHeight ≤ pageHeight profile rows ∧
      64 ≤ pageHeight profile rows := by
  have hmax : (headerRows + rows * profile.lineRepeat + footerRows) * cellHeight ≤ 1568 := by
    cases profile with
    | patchAligned8On16 =>
      have h : rows ≤ 94 := hrows
      show (3 + rows * 1 + 1) * 16 ≤ 1568
      omega
    | patchAligned8On16Repeated =>
      have h : rows ≤ 47 := hrows
      show (3 + rows * 2 + 1) * 16 ≤ 1568
      omega
  have hmin : 64 ≤ (headerRows + rows * profile.lineRepeat + footerRows) * cellHeight := by
    show 64 ≤ (3 + rows * profile.lineRepeat + 1) * 16
    omega
  rw [pageHeight, nextMultipleOf, show patchPixels = 32 from rfl,
    show renderMaxHeight = 1568 from rfl]
  omega

theorem length_ground (hrows : rows ≤ bodyRows profile) :
    (ground host source profile page start stop rows).length = rowBytes * pageHeight profile
    rows := by
  have hheight := (pageHeight_ge profile rows hrows).2
  have hlength : (paintRow host 1 (strBytes (locator profile page start stop)) 0
      (paintRow host 0 (strBytes (heading source)) 0
        (List.replicate (rowBytes * pageHeight profile rows) 0xff))).length =
      rowBytes * pageHeight profile rows := by
    rw [paintRow_eq, paintRow_eq, length_paintCells, length_paintCells, List.length_replicate]
  rw [ground, length_fillZero (by decide), hlength]
  rw [hlength]
  show 40 * 196 + 194 ≤ 196 * _
  omega

theorem ground_shows {row : Nat} (hrows : rows ≤ bodyRows profile) (hheader : headerRows ≤ row)
    (hrow : (row + 1) * cellHeight ≤ pageHeight profile rows) :
    RowShows host (ground host source profile page start stop rows) row [] := by
  have hheight := (pageHeight_ge profile rows hrows).2
  have h1 : headerRows = 3 := rfl
  have h2 : cellHeight = 16 := rfl
  rw [h2] at hrow
  have hblank : RowShows host (List.replicate (rowBytes * pageHeight profile rows) 0xff) row [] := by
    intro i hi column hc
    rw [List.getElem?_replicate_of_lt]
    · rfl
    · have h3 : fontHeight = 13 := rfl
      have h4 : renderColumns = 192 := rfl
      show (row * 16 + 1 + i) * 196 + (2 + column) < 196 * _
      omega
  intro i hi column hc
  have hseparator : separatorStop ≤ cellIndex row i column := by
    show 40 * 196 + 194 ≤ (row * 16 + 1 + i) * 196 + (2 + column)
    omega
  have hlength : separatorStop ≤ (paintRow host 1 (strBytes (locator profile page start stop)) 0
      (paintRow host 0 (strBytes (heading source)) 0
        (List.replicate (rowBytes * pageHeight profile rows) 0xff))).length := by
    rw [paintRow_eq, paintRow_eq, length_paintCells, length_paintCells, List.length_replicate]
    show 40 * 196 + 194 ≤ 196 * _
    omega
  rw [ground, fillZero_after (by decide) hlength hseparator, paintRow_eq, paintRow_eq]
  rw [paintCells_sameRow host _ (fun d hd => (drawn_locator profile page start stop d hd).1)
    (show 1 ≠ row by omega) i hi column hc]
  rw [paintCells_sameRow host _ (fun d hd => (drawn_heading source d hd).1)
    (show 0 ≠ row by omega) i hi column hc]
  exact hblank i hi column hc

end

/-! ## the renderer with its indices checked -/

theorem pageRows_snd (text : List UInt8) (budget stop rows : Nat) :
    (pageRows text budget stop rows).2 ≤ rows + budget := by
  induction budget generalizing stop rows with
  | zero => exact Nat.le_refl _
  | succ budget ih =>
    unfold pageRows
    split
    · have := ih (rowEnd text stop) (rows + 1)
      omega
    · exact Nat.le_add_right _ _

/-- `pixels[k] = f(pixels[k])` -/
def modifyChecked (pixels : List UInt8) (k : Nat) (f : UInt8 → UInt8) : Option (List UInt8) :=
  if k < pixels.length then some (pixels.modify k f) else none

/-- `l[start..stop]` -/
def sliceChecked (l : List UInt8) (start stop : Nat) : Option (List UInt8) :=
  if start ≤ stop ∧ stop ≤ l.length then some ((l.take stop).drop start) else none

section
variable [Sha256] (host : RenderHost) (seg : Nat)

/-- a glyph; the subtraction of the first code may not wrap around -/
def paintGlyphChecked (pixels : List UInt8) (b : UInt8) (column row : Nat) : Option (List UInt8) :=
  if b.toNat < ' '.toNat then none
  else do
    let glyph ← sliceChecked host.font ((b.toNat - ' '.toNat) * fontHeight)
      ((b.toNat - ' '.toNat) * fontHeight + fontHeight)
    (List.range fontHeight).foldlM (fun pixels i =>
      modifyChecked pixels (cellIndex row i column) fun pixel => pixel &&& ~~~ (glyph.getD i 0))
        pixels

def paintRowChecked (row : Nat) : List UInt8 → Nat → List UInt8 → Option (List UInt8)
  | [], _, pixels => some pixels
  | b :: rest, column, pixels =>
    if b = carriageReturn ∨ b = newline then some pixels
    else if b = tab then
      paintRowChecked row rest (column + (tabColumns - column % tabColumns)) pixels
    else do
      let pixels ← paintGlyphChecked host pixels b column row
      paintRowChecked row rest (column + 1) pixels

def paintRowsChecked (text : List UInt8) (repeats : Nat) :
    Nat → Nat → Nat → List UInt8 → Option (List UInt8)
  | 0, _, _, pixels => some pixels
  | count + 1, row, offset, pixels => do
    let next := rowEnd text offset
    let pixels ← (List.range repeats).foldlM (fun pixels copy => do
      let line ← sliceChecked text offset next
      paintRowChecked host (headerRows + row * repeats + copy) line 0 pixels) pixels
    paintRowsChecked text repeats count (row + 1) next pixels

def paintPageChecked (text : List UInt8) (source : Digest) (profile : RenderProfile)
    (page start stop rows : Nat) : Option (List UInt8) := do
  let blank := List.replicate (rowBytes * pageHeight profile rows) (0xff : UInt8)
  let pixels ← paintRowChecked host 0 (strBytes (heading source)) 0 blank
  let pixels ← paintRowChecked host 1 (strBytes (locator profile page start stop)) 0 pixels
  let _ ← sliceChecked pixels separatorStart separatorStop
  paintRowsChecked host text profile.lineRepeat rows 0 start
    (fillZero separatorStart separatorStop pixels)

def renderPagesChecked (text : List UInt8) (source : Digest) (profile : RenderProfile)
    (limits : RenderLimits) :
    Nat → Nat → Nat → List RenderedPage → Option (Except Ineligible (List RenderedPage))
  | 0, start, _, pages =>
    if start < text.length then
      if host.cancelled seg (.page pages.length) then some (.error .cancelled)
      else some (.error .limit)
    else some (.ok pages)
  | left + 1, start, pngBytes, pages =>
    if start < text.length then
      if host.cancelled seg (.page pages.length) = true then some (.error .cancelled)
      else
        let (stop, rows) := pageRows text (bodyRows profile) start 0
        let height := pageHeight profile rows
        (paintPageChecked host text source profile pages.length start stop rows).bind fun pixels =>
          match host.encodePng pixels height (limits.maxPngBytes - pngBytes) with
          | none => some (.error .limit)
          | some png =>
            if usizeMax < pngBytes + png.length then some (.error .limit)
            else renderPagesChecked text source profile limits left stop (pngBytes + png.length)
              (pages ++ [⟨start, stop, renderWidth, height, png⟩])
    else some (.ok pages)

/-- `render`, which gives nothing when an index is out of bounds -/
def renderChecked (text : List UInt8) (source : Digest) (profile : RenderProfile)
    (limits : RenderLimits) : Option (Except Ineligible (List RenderedPage)) :=
  if text = [] ∨ limits.maxPages = 0 ∨ limits.maxPngBytes = 0 then some (.error .limit)
  else
    match scan host seg 0 text with
    | .error e => some (.error e)
    | .ok _ => renderPagesChecked host seg text source profile limits limits.maxPages 0 0 []

/-! ### no index is out of bounds -/

theorem foldlM_modifyChecked {idx : Nat → Nat} {f g : Nat → UInt8 → UInt8} (n : Nat)
    (pixels : List UInt8) (hidx : ∀ i < n, idx i < pixels.length) (hfg : ∀ i < n, f i = g i) :
    (List.range n).foldlM (fun pixels i => modifyChecked pixels (idx i) (f i)) pixels =
      some (modifyAll idx g n pixels) := by
  induction n with
  | zero => rfl
  | succ n ih =>
    rw [List.range_succ, List.foldlM_append, ih (fun i hi => hidx i (Nat.lt_succ_of_lt hi))
      (fun i hi => hfg i (Nat.lt_succ_of_lt hi)), modifyAll_succ, ← hfg n (Nat.lt_succ_self n)]
    have hlast : idx n < (modifyAll idx g n pixels).length := by
      rw [length_modifyAll]
      exact hidx n (Nat.lt_succ_self n)
    show (modifyChecked (modifyAll idx g n pixels) (idx n) (f n) >>= pure) = _
    rw [modifyChecked, if_pos hlast]
    rfl

section
variable (hfont : host.font.length = 95 * fontHeight)
variable {pixels : List UInt8}

include hfont

theorem paintGlyphChecked_eq {b : UInt8} {column row : Nat} (hb : drawable b = true)
    (hc : column < renderColumns) (hlength : (row + 1) * cellHeight * rowBytes ≤ pixels.length) :
    paintGlyphChecked host pixels b column row = some (paintGlyph host pixels b column row) := by
  obtain ⟨hlow, hhigh⟩ : 32 ≤ b.toNat ∧ b.toNat ≤ 126 := by simpa [drawable] using hb
  have h1 : fontHeight = 13 := rfl
  have h2 : renderColumns = 192 := rfl
  have h3 : ' '.toNat = 32 := rfl
  obtain ⟨glyph, hslice, hglyph⟩ : ∃ glyph,
      sliceChecked host.font ((b.toNat - ' '.toNat) * fontHeight)
        ((b.toNat - ' '.toNat) * fontHeight + fontHeight) = some glyph ∧
      ∀ i < fontHeight, glyph.getD i 0 = ink host b i := by
    have hinside : (b.toNat - ' '.toNat) * fontHeight + fontHeight ≤ host.font.length := by
      rw [hfont, h1, h3]
      omega
    refine ⟨_, if_pos ⟨Nat.le_add_right _ _, hinside⟩, fun i hi => ?_⟩
    · rw [List.getD_eq_getElem?_getD, List.getElem?_drop, List.getElem?_take_of_lt (by omega), ink,
        List.getD_eq_getElem?_getD]
  rw [paintGlyphChecked, if_neg (by rw [h3]; omega), hslice]
  show (List.range fontHeight).foldlM (fun pixels i => modifyChecked pixels (cellIndex row i column)
    fun pixel => pixel &&& ~~~ (glyph.getD i 0)) pixels = some (modifyAll _ _ fontHeight pixels)
  have hidx : ∀ i < fontHeight, cellIndex row i column < pixels.length := by
    intro i hi
    rw [show cellHeight = 16 from rfl, show rowBytes = 196 from rfl] at hlength
    show (row * 16 + 1 + i) * 196 + (2 + column) < pixels.length
    omega
  refine foldlM_modifyChecked fontHeight pixels hidx fun i hi => ?_
  funext pixel
  rw [hglyph i hi]
  rfl

theorem paintRowChecked_eq {row : Nat} {text : List UInt8} {column : Nat}
    (hdrawn : ∀ d ∈ drawn text column, d.1 < renderColumns ∧ drawable d.2 = true)
    (hlength : (row + 1) * cellHeight * rowBytes ≤ pixels.length) :
    paintRowChecked host row text column pixels = some (paintRow host row text column pixels) := by
  induction text generalizing column pixels with
  | nil => rfl
  | cons b text ih =>
    unfold drawn at hdrawn
    unfold paintRowChecked paintRow
    split
    · rfl
    · rename_i hbreak
      rw [if_neg hbreak] at hdrawn
      split
      · rename_i htab
        rw [if_pos htab] at hdrawn
        exact ih hdrawn hlength
      · rename_i htab
        rw [if_neg htab] at hdrawn
        obtain ⟨hc, hb⟩ := hdrawn _ List.mem_cons_self
        rw [paintGlyphChecked_eq host hfont hb hc hlength]
        refine ih (fun d hd => hdrawn d (List.mem_cons_of_mem _ hd)) ?_
        rw [length_paintGlyph]
        exact hlength

theorem paintCopiesChecked_eq {text : List UInt8} {offset base n : Nat}
    (hslice : sliceChecked text offset (rowEnd text offset) = some (rowText text offset))
    (hdrawn : ∀ d ∈ drawn (rowText text offset) 0, d.1 < renderColumns ∧ drawable d.2 = true)
    (hlength : (base + n) * cellHeight * rowBytes ≤ pixels.length) :
    (List.range n).foldlM (fun pixels copy => do
      let line ← sliceChecked text offset (rowEnd text offset)
      paintRowChecked host (base + copy) line 0 pixels) pixels =
      some (paintCopies host base n (rowText text offset) pixels) := by
  rw [hslice]
  induction n with
  | zero => rfl
  | succ n ih =>
    have hbefore : (base + n) * cellHeight * rowBytes ≤ pixels.length := by
      refine Nat.le_trans (Nat.mul_le_mul_right _ (Nat.mul_le_mul_right _ ?_)) hlength
      omega
    have hlast := length_paintCopies host base n (rowText text offset) pixels
    rw [List.range_succ, List.foldlM_append, ih hbefore]
    show (paintRowChecked host (base + n) (rowText text offset) 0 _ >>= pure) = _
    rw [paintRowChecked_eq host hfont hdrawn (by rw [hlast]; exact hlength), paintCopies_succ,
      ← paintRow_eq]
    rfl

theorem paintRowsChecked_eq {text : List UInt8} (hr : Renderable text) (repeats : Nat)
    {count row offset : Nat} (hoffset : offset ≤ text.length)
    (hlength : (headerRows + (row + count) * repeats) * cellHeight * rowBytes ≤ pixels.length) :
    paintRowsChecked host text repeats count row offset pixels =
      some (paintRows host text repeats count row offset pixels) := by
  induction count generalizing row offset pixels with
  | zero => rfl
  | succ count ih =>
    have hnext := rowEnd_le hr hoffset
    have hslice : sliceChecked text offset (rowEnd text offset) = some (rowText text offset) :=
      if_pos ⟨Nat.le_add_right _ _, hnext⟩
    have hdrawn : ∀ d ∈ drawn (rowText text offset) 0, d.1 < renderColumns ∧
      drawable d.2 = true := by
      intro d hd
      refine ⟨rowText_columns text offset d hd, ?_⟩
      rw [rowText_eq] at hd
      exact drawn_drawable (hr.drop offset) _ _ d hd
    have hrows : headerRows + row * repeats + repeats ≤ headerRows +
      (row + (count + 1)) * repeats := by
      have : (row + 1) * repeats ≤ (row + (count + 1)) * repeats :=
        Nat.mul_le_mul_right _ (by omega)
      rw [Nat.succ_mul] at this
      omega
    have hcopies := paintCopiesChecked_eq host hfont hslice hdrawn
      (Nat.le_trans (Nat.mul_le_mul_right _ (Nat.mul_le_mul_right _ hrows)) hlength)
    show ((List.range repeats).foldlM _ pixels >>= fun pixels =>
      paintRowsChecked host text repeats count (row + 1) (rowEnd text offset) pixels) = _
    rw [hcopies, paintRows_succ]
    refine ih hnext ?_
    rw [length_paintCopies]
    have : row + 1 + count = row + (count + 1) := by omega
    rw [this]
    exact hlength

theorem paintPageChecked_eq {text : List UInt8} (hr : Renderable text) (source : Digest)
    (profile : RenderProfile) (page start stop : Nat) {rows : Nat} (hstart : start ≤ text.length)
    (hrows : rows ≤ bodyRows profile) :
    paintPageChecked host text source profile page start stop rows =
      some (paintPage host text source profile page start stop rows) := by
  obtain ⟨hheight, hmin⟩ := pageHeight_ge profile rows hrows
  have hground := length_ground host source profile page start stop rows hrows
  have hblank : (List.replicate (rowBytes * pageHeight profile rows) (0xff : UInt8)).length =
      rowBytes * pageHeight profile rows := List.length_replicate
  have hfirst : (0 + 1) * cellHeight * rowBytes ≤
      (List.replicate (rowBytes * pageHeight profile rows) (0xff : UInt8)).length := by
    rw [hblank]
    show (0 + 1) * 16 * 196 ≤ 196 * _
    omega
  have hsecond : (1 + 1) * cellHeight * rowBytes ≤ (paintRow host 0 (strBytes (heading source)) 0
      (List.replicate (rowBytes * pageHeight profile rows) 0xff)).length := by
    rw [paintRow_eq, length_paintCells, hblank]
    show (1 + 1) * 16 * 196 ≤ 196 * _
    omega
  have hline : separatorStop ≤ (paintRow host 1 (strBytes (locator profile page start stop)) 0
      (paintRow host 0 (strBytes (heading source)) 0
        (List.replicate (rowBytes * pageHeight profile rows) 0xff))).length := by
    rw [paintRow_eq, paintRow_eq, length_paintCells, length_paintCells, hblank]
    show 40 * 196 + 194 ≤ 196 * _
    omega
  have hbody : (headerRows + (0 + rows) * profile.lineRepeat) * cellHeight * rowBytes ≤
      (ground host source profile page start stop rows).length := by
    rw [hground, Nat.mul_comm rowBytes]
    refine Nat.mul_le_mul_right _ (Nat.le_trans (Nat.mul_le_mul_right _ ?_) hheight)
    rw [Nat.zero_add]
    omega
  have hrest := paintRowsChecked_eq host hfont hr profile.lineRepeat hstart hbody
  rw [paintPage_eq, ← hrest]
  unfold paintPageChecked
  simp only [paintRowChecked_eq host hfont (drawn_heading source) hfirst, Option.bind_eq_bind,
    Option.bind_some, paintRowChecked_eq host hfont (drawn_locator profile page start stop) hsecond,
    sliceChecked, if_pos (And.intro separator_le hline), ground]

theorem renderPagesChecked_eq {text : List UInt8} (hr : Renderable text) (source : Digest)
    (profile : RenderProfile) (limits : RenderLimits) (left start pngBytes : Nat)
    (pages : List RenderedPage) (hstart : start ≤ text.length) :
    renderPagesChecked host seg text source profile limits left start pngBytes pages =
      some (renderPages host seg text source profile limits left start pngBytes pages) := by
  induction left generalizing start pngBytes pages with
  | zero =>
    unfold renderPagesChecked renderPages
    split
    · split
      · rfl
      · rfl
    · rfl
  | succ left ih =>
    unfold renderPagesChecked renderPages
    split
    · split
      · rename_i hcancelled
        rw [refuseIf, if_pos hcancelled]
        rfl
      · rename_i hcancelled
        have hrows := pageRows_snd text (bodyRows profile) start 0
        rw [Nat.zero_add] at hrows
        have hstop := (pageRows_bounds hr (bodyRows profile) start 0 hstart).2
        rw [refuseIf_of_not _ hcancelled]
        dsimp only
        rw [paintPageChecked_eq host hfont hr source profile _ start _ hstart hrows]
        simp only [Option.bind_some, ok_bind]
        generalize host.encodePng _ _ _ = encoded
        cases encoded with
        | none => rfl
        | some png =>
          dsimp only
          by_cases hfull : usizeMax < pngBytes + png.length
          · rw [if_pos hfull, refuseIf, if_pos hfull]
            rfl
          · rw [if_neg hfull, refuseIf_of_not _ hfull]
            exact ih _ _ _ hstop
    · rfl

theorem renderChecked_eq (text : List UInt8) (source : Digest) (profile : RenderProfile)
    (limits : RenderLimits) :
    renderChecked host seg text source profile limits =
      some (render host seg text source profile limits) := by
  unfold renderChecked render
  split
  · rename_i hempty
    rw [refuseIf, if_pos hempty]
    rfl
  · rename_i hempty
    rw [refuseIf_of_not _ hempty, ok_bind]
    cases hscan : scan host seg 0 text with
    | error e => rfl
    | ok u =>
      exact renderPagesChecked_eq host seg hfont (scan_ok hscan) source profile limits
        limits.maxPages 0 0 [] (Nat.zero_le _)

end

end

/-! ## what the pages show -/

section
variable [Sha256]

/-- an offset between the two bytes of a line end -/
def InsidePair (text : List UInt8) (k : Nat) : Prop :=
  0 < k ∧ text[k - 1]? = some carriageReturn ∧ text[k]? = some newline

/-- a page made of these rows and pixels shows its part of the text -/
structure PageShows (host : RenderHost) (text : List UInt8) (profile : RenderProfile)
    (page : RenderedPage) (rows : Nat) (pixels : List UInt8) : Prop where
  /-- the page is its rows, one after the other -/
  stop : page.stop = rowOffset text page.start rows
  /-- no row is empty, and all lie in the text -/
  ordered : ∀ r < rows, rowOffset text page.start r < rowOffset text page.start (r + 1) ∧
    rowOffset text page.start (r + 1) ≤ text.length
  /-- neither the page nor a row starts or ends inside a line end of two bytes -/
  whole : ∀ r ≤ rows, ¬ InsidePair text (rowOffset text page.start r)
  /-- the height is that of the rows, and the pixels fill it -/
  height : page.height = pageHeight profile rows ∧
    (headerRows + rows * profile.lineRepeat + footerRows) * cellHeight ≤ page.height ∧
    pixels.length = rowBytes * page.height
  /-- each character is in its row and, with the tabs before it expanded, in its column -/
  painted : ∀ r < rows, ∀ copy < profile.lineRepeat, ∀ k b,
    rowOffset text page.start r + k < rowOffset text page.start (r + 1) →
    text[rowOffset text page.start r + k]? = some b → drawable b = true →
    columnAt (rowText text (rowOffset text page.start r)) k < renderColumns ∧
    ∀ i < fontHeight, pixels[cellIndex (headerRows + r * profile.lineRepeat + copy) i
      (columnAt (rowText text (rowOffset text page.start r)) k)]? = some (~~~ ink host b i)
  /-- a column of a row without a character is white -/
  blank : ∀ r < rows, ∀ copy < profile.lineRepeat, ∀ column < renderColumns,
    (∀ d ∈ drawn (rowText text (rowOffset text page.start r)) 0, d.1 ≠ column) →
    ∀ i < fontHeight,
      pixels[cellIndex (headerRows + r * profile.lineRepeat + copy) i column]? = some 0xff

theorem cellByte_of_mem {host : RenderHost} {cells : List (Nat × UInt8)} {column i : Nat}
    {b : UInt8}
    (hcells : cells.Pairwise fun d e => d.1 < e.1) (h : (column, b) ∈ cells) :
    cellByte host cells column i = ~~~ ink host b i := by
  have hfind : cells.find? (fun d => d.1 = column) = some (column, b) := by
    induction cells with
    | nil => cases h
    | cons d cells ih =>
      obtain ⟨hd, htail⟩ := List.pairwise_cons.mp hcells
      rcases List.mem_cons.mp h with rfl | h
      · rw [List.find?_cons_of_pos (by simp)]
      · have := hd _ h
        rw [List.find?_cons_of_neg (by simp; omega), ih htail h]
  rw [cellByte, hfind]

theorem cellByte_of_none {host : RenderHost} {cells : List (Nat × UInt8)} {column : Nat} (i : Nat)
    (h : ∀ d ∈ cells, d.1 ≠ column) : cellByte host cells column i = 0xff := by
  have hfind : cells.find? (fun d => d.1 = column) = none := by
    rw [List.find?_eq_none]
    intro d hd
    simpa using h d hd
  rw [cellByte, hfind]

theorem pageRows_offset (text : List UInt8) (budget stop rows : Nat) :
    ∃ n ≤ budget, pageRows text budget stop rows = (rowOffset text stop n, rows + n) ∧
      ∀ r < n, rowOffset text stop r < text.length := by
  induction budget generalizing stop rows with
  | zero => exact ⟨0, Nat.le_refl _, rfl, fun _ h => nomatch h⟩
  | succ budget ih =>
    unfold pageRows
    split
    · rename_i hlt
      obtain ⟨n, hn, he, hin⟩ := ih (rowEnd text stop) (rows + 1)
      refine ⟨n + 1, Nat.succ_le_succ hn, ?_, ?_⟩
      · rw [he, Nat.add_right_comm]
        rfl
      · intro r hr
        cases r with
        | zero => exact hlt
        | succ r => exact hin r (Nat.lt_of_succ_lt_succ hr)
    · exact ⟨0, Nat.zero_le _, rfl, fun _ h => nomatch h⟩

theorem rowOffset_succ (text : List UInt8) (start r : Nat) :
    rowOffset text start (r + 1) = rowEnd text (rowOffset text start r) := by
  induction r generalizing start with
  | zero => rfl
  | succ r ih => exact ih (rowEnd text start)

theorem rowEnd_whole {text : List UInt8} (hr : Renderable text) (start : Nat) :
    ¬ InsidePair text (rowEnd text start) := by
  rintro ⟨-, hcr, hnl⟩
  have hend := rowLength_end (hr.drop start) 0
  rw [List.getElem?_drop] at hend
  rcases hend with ⟨n, hn, hline⟩ | hend
  · rw [List.getElem?_drop] at hline
    have hlast : rowEnd text start - 1 = start + n := by
      unfold rowEnd
      omega
    rw [hlast, hline] at hcr
    exact absurd hcr (by decide)
  · exact hend hnl

theorem paintPage_shows (host : RenderHost) {text : List UInt8} (hr : Renderable text)
    (source : Digest)
    (profile : RenderProfile) (index start : Nat) (png : List UInt8)
    (hwhole : ¬ InsidePair text start) :
    PageShows host text profile
      ⟨start, (pageRows text (bodyRows profile) start 0).1, renderWidth,
        pageHeight profile (pageRows text (bodyRows profile) start 0).2, png⟩
      (pageRows text (bodyRows profile) start 0).2
      (paintPage host text source profile index start (pageRows text (bodyRows profile) start 0).1
        (pageRows text (bodyRows profile) start 0).2) := by
  obtain ⟨rows, hrows, hpage, hin⟩ := pageRows_offset text (bodyRows profile) start 0
  rw [Nat.zero_add] at hpage
  rw [hpage]
  obtain ⟨hheight, hmin⟩ := pageHeight_ge profile rows hrows
  have hground := length_ground host source profile index start
    (rowOffset text start rows) rows hrows
  have hcell (r copy : Nat) (hrow : r < rows) (hcopy : copy < profile.lineRepeat) :
      RowShows host (paintPage host text source profile index start (rowOffset text start rows) rows)
        (headerRows + r * profile.lineRepeat + copy)
          (drawn (rowText text (rowOffset text start r)) 0) := by
    have hblank : ∀ r < rows, ∀ copy < profile.lineRepeat,
        RowShows host (ground host source profile index start (rowOffset text start rows) rows)
          (headerRows + (0 + r) * profile.lineRepeat + copy) [] := by
      intro r hrow copy hcopy
      refine ground_shows host source profile index start _ rows hrows (by omega) ?_
      refine Nat.le_trans (Nat.mul_le_mul_right _ ?_) hheight
      have : (r + 1) * profile.lineRepeat ≤ rows * profile.lineRepeat := Nat.mul_le_mul_right _ hrow
      rw [Nat.succ_mul] at this
      rw [Nat.zero_add]
      omega
    have hshows := paintRows_shows host text profile.lineRepeat start hblank r hrow copy hcopy
    rw [Nat.zero_add] at hshows
    exact hshows
  have hordered (r : Nat) (hrow : r < rows) : rowOffset text start r < rowOffset text start
    (r + 1) ∧
      rowOffset text start (r + 1) ≤ text.length := by
    rw [rowOffset_succ]
    exact ⟨lt_rowEnd hr (hin r hrow), rowEnd_le hr (Nat.le_of_lt (hin r hrow))⟩
  refine ⟨rfl, hordered, ?_, ⟨rfl, hheight, ?_⟩, ?_, ?_⟩
  · intro r hle
    cases r with
    | zero => exact hwhole
    | succ r =>
      rw [rowOffset_succ]
      exact rowEnd_whole hr _
  · rw [paintPage_eq, length_paintRows, hground]
  · intro r hrow copy hcopy k b hk hb hdraw
    have hmeasured : k < rowLength (text.drop (rowOffset text start r)) 0 := by
      rw [rowOffset_succ, rowEnd] at hk
      exact Nat.lt_of_add_lt_add_left hk
    have hmem := mem_drawn (hr.drop _) hmeasured (by rw [List.getElem?_drop]; exact hb) hdraw
    rw [← rowText_eq] at hmem
    have htake : (text.drop (rowOffset text start r)).take k =
        (rowText text (rowOffset text start r)).take k := by
      rw [rowText_eq, List.take_take, Nat.min_eq_left (Nat.le_of_lt hmeasured)]
    rw [htake] at hmem
    have hcolumn := rowText_columns text _ _ hmem
    refine ⟨hcolumn, fun i hi => ?_⟩
    rw [columnAt, hcell r copy hrow hcopy i hi _ hcolumn, cellByte_of_mem (drawn_pairwise _ _) hmem]
  · intro r hrow copy hcopy column hcolumn hnone i hi
    rw [hcell r copy hrow hcopy i hi column hcolumn, cellByte_of_none i hnone]

/-- the pages made so far show their parts of the text -/
def AllShow (host : RenderHost) (text : List UInt8) (profile : RenderProfile)
    (pages : List RenderedPage) : Prop :=
  ∀ page ∈ pages, ∃ rows pixels limit, host.encodePng pixels page.height limit = some page.png ∧
    PageShows host text profile page rows pixels

theorem renderPages_shows {host : RenderHost} {seg : Nat} {text : List UInt8} {source : Digest}
    {profile : RenderProfile} {limits : RenderLimits} (hr : Renderable text)
    (left start pngBytes : Nat) (pages result : List RenderedPage) (hs : start ≤ text.length)
    (hwhole : ¬ InsidePair text start) (hpages : AllShow host text profile pages)
    (h : renderPages host seg text source profile limits left start pngBytes pages = .ok result) :
    AllShow host text profile result := by
  induction left generalizing start pngBytes pages with
  | zero =>
    unfold renderPages at h
    split at h
    · split at h <;> cases h
    · cases h
      exact hpages
  | succ left ih =>
    unfold renderPages at h
    split at h
    · rename_i hlt
      obtain ⟨_, h⟩ := refuseIf_bind h
      dsimp only at h
      split at h
      · cases h
      · rename_i png hpng
        obtain ⟨_, h⟩ := refuseIf_bind h
        have hshow := paintPage_shows host hr source profile pages.length start png hwhole
        refine ih _ _ _ (pageRows_bounds hr _ _ _ hs).2 ?_ ?_ h
        · have hend := hshow.whole _ (Nat.le_refl _)
          rw [← hshow.stop] at hend
          exact hend
        · intro page hpage
          rcases List.mem_append.mp hpage with hpage | hpage
          · exact hpages page hpage
          · rw [List.mem_singleton.mp hpage]
            exact ⟨_, _, _, hpng, hshow⟩
    · cases h
      exact hpages

/-- **The pages of a text show all of it.**  No index of the renderer is ever out of bounds; the
ranges of the pages are not empty, follow each other and cover the text; no row or page ends inside
a line end of two bytes; and each character is painted in its row and in its column, on every page
and in every copy. -/
theorem render_shows (host : RenderHost) (hfont : host.font.length = 95 * fontHeight) (seg : Nat)
    (text : List UInt8) (source : Digest) (profile : RenderProfile) (limits : RenderLimits) :
    renderChecked host seg text source profile limits =
        some (render host seg text source profile limits) ∧
      ∀ pages, render host seg text source profile limits = .ok pages →
        Renderable text ∧ Chain 0 (pages.map RenderedPage.range) text.length ∧
          AllShow host text profile pages := by
  refine ⟨renderChecked_eq host seg hfont text source profile limits, fun pages h => ?_⟩
  have hchain := (render_covers h).2.chain
  obtain ⟨_, h⟩ := refuseIf_bind h
  obtain ⟨_, hscan, h⟩ := bind_ok h
  refine ⟨scan_ok hscan, hchain, ?_⟩
  exact renderPages_shows (scan_ok hscan) _ 0 0 [] pages (Nat.zero_le _)
    (fun hpair => absurd hpair.1 (Nat.lt_irrefl 0)) (fun _ h => nomatch h) h

end

namespace Sample

/-- a host that never cancels, with an empty font of the right size and an encoder of its own -/
def renderHost : RenderHost where
  cancelled := fun _ _ => false
  writeFault := fun _ _ => none
  maxArtifactBytes := 1000
  font := List.replicate (95 * fontHeight) 0
  encodePng := fun _ _ _ => some [137]

/-- two rows, with a tab and a line end of two bytes -/
theorem render_shows_rows : ∃ pages,
    render renderHost 0 [97, 9, 98, 13, 10, 99] ⟨0⟩ .patchAligned8On16Repeated
      ⟨4, 1000⟩ = .ok pages ∧
      Renderable [97, 9, 98, 13, 10, 99] ∧
      Chain 0 (pages.map RenderedPage.range) 6 ∧
      AllShow renderHost [97, 9, 98, 13, 10, 99] .patchAligned8On16Repeated pages := by
  have hrender : render renderHost 0 [97, 9, 98, 13, 10, 99] ⟨0⟩ .patchAligned8On16Repeated
      ⟨4, 1000⟩ = .ok [⟨0, 6, 1568, 128, [137]⟩] := by decide +kernel
  exact ⟨_, hrender, (@render_shows .standard renderHost List.length_replicate 0 _ _ _ _).2 _ hrender⟩

end Sample

end Orvek
