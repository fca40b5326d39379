import Orvek.Lib.Clusters
import Orvek.Lib.Offsets
import Orvek.Text

/-!
# The visual lines of the composer

The draft is wrapped at a width: at line feeds, after white space, and inside long words.  What the crates
for Unicode text answer is a parameter.

* `graphemes`, `terminalTextWidth`   the clusters of a text, and the columns that they take;
* `wrapText`                         the visual lines;
* `locateCursor`, `byteAtColumn`     from a position to a row and a column, and back;
* `Row`, `placed`                    the same lines as clusters, with or without a line feed after them;
* `wrapText_rows`                    what the lines are, for every text and width.
-/

set_option linter.unusedSectionVars false

namespace Orvek.Tui
open Texts Offsets Clusters

/-- what `unicode_segmentation` and `unicode_width` answer, and `char::is_alphanumeric` -/
class UnicodeText where
  joins : Text → Char → Bool
  width : Text → Nat
  isAlphanumeric : Char → Bool

structure VisualLine where
  start : Nat
  stop : Nat
  width : Nat
  deriving DecidableEq

structure VisualLayout where
  lines : List VisualLine
  cursorRow : Nat
  cursorColumn : Nat

section
variable [UnicodeText]

/-- `str::graphemes` -/
def graphemes (l : Text) : List Text := clusters UnicodeText.joins l

def graphemeWidth (g : Text) : Nat :=
  if g = ['\t'] then 4 else if g.any isControl then 1 else UnicodeText.width g

def rowWidth (gs : List Text) : Nat := (gs.map graphemeWidth).sum

def terminalTextWidth (l : Text) : Nat := rowWidth (graphemes l)

/-! ## wrapping -/

/-- the loop over the graphemes: where the line can end, and where it ends after white space -/
def fillLine (width lineStart : Nat) : List Text → Nat → Nat → Option Nat → Nat × Option Nat
  | [], candidateEnd, _, lastWordBreak => (candidateEnd, lastWordBreak)
  | g :: gs, candidateEnd, used, lastWordBreak =>
    if lineStart < candidateEnd ∧ width < used + terminalTextWidth g then (candidateEnd, lastWordBreak)
    else
      -- the grapheme starts where the line can end so far
      let candidateEnd := candidateEnd + size g
      let used := used + terminalTextWidth g
      let lastWordBreak := if g.all isWhitespace then some candidateEnd else lastWordBreak
      if width ≤ used then (candidateEnd, lastWordBreak)
      else fillLine width lineStart gs candidateEnd used lastWordBreak

/-- where the line that starts here ends; a line that goes on breaks after white space where it can -/
def lineEnd (width lineStart stop : Nat) (gs : List Text) : Option Nat :=
  let (candidateEnd, lastWordBreak) := fillLine width lineStart gs lineStart 0 none
  let candidateEnd := if candidateEnd = lineStart then gs.head?.map fun g => candidateEnd + size g
    else some candidateEnd
  candidateEnd.map fun candidateEnd =>
    if candidateEnd < stop then (lastWordBreak.filter fun b => lineStart < b).getD candidateEnd else candidateEnd

def wrapLoop (text : Text) (stop width : Nat) : Nat → Nat → List VisualLine → Option (List VisualLine)
  | 0, _, _ => none
  | fuel + 1, lineStart, ls =>
    if lineStart < stop then do
      let rest ← Offsets.slice text lineStart stop
      match lineEnd width lineStart stop (graphemes rest) with
      | none => some ls
      | some lineEnd =>
        let line ← Offsets.slice text lineStart lineEnd
        wrapLoop text stop width fuel lineEnd (ls ++ [⟨lineStart, lineEnd, terminalTextWidth line⟩])
    else some ls

def wrapLogicalLine (text : Text) (start stop width : Nat) (ls : List VisualLine) : Option (List VisualLine) :=
  if start = stop then some (ls ++ [⟨start, stop, 0⟩])
  else wrapLoop text stop width (stop - start + 1) start ls

def logicalLoop (text : Text) (width : Nat) : Nat → Nat → List VisualLine → Option (List VisualLine)
  | 0, _, _ => none
  | fuel + 1, logicalStart, ls => do
    let (_, rest) ← cut logicalStart text
    if '\n' ∈ rest then
      let newline := logicalStart + size (rest.takeWhile (· ≠ '\n'))
      let ls ← wrapLogicalLine text logicalStart newline width ls
      if newline + 1 = size text then some (ls ++ [⟨newline + 1, newline + 1, 0⟩])
      else logicalLoop text width fuel (newline + 1) ls
    else wrapLogicalLine text logicalStart (size text) width ls

def wrapText (text : Text) (width : Nat) : Option (List VisualLine) := do
  let ls ← logicalLoop text width (size text + 1) 0 []
  let ls := if ls = [] then [⟨0, 0, 0⟩] else ls
  if size text = (ls.getLast?.map (·.stop)).getD 0 ∧ ls.getLast?.any (·.width = width) then
    some (ls ++ [⟨size text, size text, 0⟩])
  else some ls

/-! ## rows and columns -/

/-- the loop over the lines; behind all of them the position is taken to be on the last one -/
def locateLoop (text : Text) (cursor : Nat) : Nat → List VisualLine → Option (Nat × Nat)
  | _, [] => none
  | row, line :: rest =>
    if cursor < line.stop ∨ (line.start = line.stop ∧ cursor = line.start) then
      (Offsets.slice text line.start (min cursor line.stop)).map fun before => (row, terminalTextWidth before)
    else if cursor = line.stop ∧ (rest.head?.any (·.start = cursor)) = false then some (row, line.width)
    else if rest = [] then some (row, line.width)
    else locateLoop text cursor (row + 1) rest

def locateCursor (text : Text) (ls : List VisualLine) (cursor : Nat) : Option (Nat × Nat) :=
  locateLoop text cursor 0 ls

def VisualLayout.new (text : Text) (cursor width : Nat) : Option VisualLayout := do
  let ls ← wrapText text (max width 1)
  let (row, column) ← locateCursor text ls cursor
  return ⟨ls, row, column⟩

/-- the loop over the graphemes of a line: where the one is that goes beyond the column -/
def columnLoop (target : Nat) : List Text → Nat → Nat → Option Nat
  | [], _, _ => none
  | g :: gs, offset, column =>
    if target < column + terminalTextWidth g then some offset
    else columnLoop target gs (offset + size g) (column + terminalTextWidth g)

def byteAtColumn (text : Text) (line : VisualLine) (target : Nat) : Option Nat :=
  (Offsets.slice text line.start line.stop).map fun piece =>
    ((columnLoop target (graphemes piece) 0 0).map (line.start + ·)).getD line.stop

/-! ## rows -/

/-- a visual line as the clusters in it, and whether a line feed comes after it -/
structure Row where
  clusters : List Text
  newline : Bool

def Row.width (r : Row) : Nat := rowWidth r.clusters

def Row.text (r : Row) : Text := r.clusters.flatten ++ if r.newline then ['\n'] else []

def textOf (rows : List Row) : Text := rows.flatMap Row.text

/-- the rows one after the other, from a position on -/
def placed : Nat → List Row → List VisualLine
  | _, [] => []
  | start, r :: rows => ⟨start, start + size r.clusters.flatten, r.width⟩ :: placed (start + size r.text) rows

/-- a row as wide as it may be, unless it is one cluster -/
structure Row.Fits (width : Nat) (r : Row) : Prop where
  clusters : graphemes r.clusters.flatten = r.clusters
  width : r.width ≤ width ∨ r.clusters.length = 1

/-- rows at a width; only the last one can be without anything, and no line feed comes after it -/
structure Wrapped (width : Nat) (rows : List Row) : Prop where
  fits : ∀ r ∈ rows, r.Fits width
  filled : ∀ r ∈ rows.dropLast, r.text ≠ []
  last : ∃ r, rows.getLast? = some r ∧ r.newline = false

theorem textOf_cons (r : Row) (rows : List Row) : textOf (r :: rows) = r.text ++ textOf rows := List.flatMap_cons ..

theorem textOf_append (a b : List Row) : textOf (a ++ b) = textOf a ++ textOf b := List.flatMap_append

theorem placed_append (start : Nat) (a b : List Row) :
    placed start (a ++ b) = placed start a ++ placed (start + size (textOf a)) b := by
  induction a generalizing start with
  | nil => rfl
  | cons r a ih =>
    rw [List.cons_append, placed, placed, ih, List.cons_append, textOf_cons, size_append, Nat.add_assoc]

theorem length_placed (start : Nat) (rows : List Row) : (placed start rows).length = rows.length := by
  induction rows generalizing start with
  | nil => rfl
  | cons r rows ih => rw [placed, List.length_cons, List.length_cons, ih]

theorem rowWidth_append (a b : List Text) : rowWidth (a ++ b) = rowWidth a + rowWidth b := by
  rw [rowWidth, List.map_append, List.sum_append]
  rfl

theorem rowWidth_take_le {i j : Nat} (h : i ≤ j) (gs : List Text) : rowWidth (gs.take i) ≤ rowWidth (gs.take j) := by
  obtain ⟨k, rfl⟩ := Nat.exists_eq_add_of_le h
  rw [List.take_add, rowWidth_append]
  exact Nat.le_add_right _ _

theorem graphemes_part {l : Text} {gs hs : List Text} (h : graphemes l = gs) (hi : hs <:+: gs) :
    graphemes hs.flatten = hs := clusters_between h hi

theorem flatten_graphemes (l : Text) : (graphemes l).flatten = l := flatten_clusters l

theorem graphemes_ne_nil {l : Text} : ∀ g ∈ graphemes l, g ≠ [] := fun _ hg => clusters_ne_nil hg

def IsCluster (g : Text) : Prop := graphemes g = [g]

theorem isCluster_of_mem {l g : Text} (h : g ∈ graphemes l) : IsCluster g := by
  obtain ⟨before, after, he⟩ := List.append_of_mem h
  have hpart := @graphemes_part _ _ _ [g] rfl ⟨before, after, by rw [he, List.append_assoc]; rfl⟩
  rwa [List.flatten_singleton] at hpart

theorem IsCluster.ne_nil {g : Text} (h : IsCluster g) : g ≠ [] := by
  rintro rfl
  exact List.cons_ne_nil _ _ h.symm

attribute [grind =] terminalTextWidth

theorem IsCluster.width {g : Text} (h : IsCluster g) : terminalTextWidth g = graphemeWidth g := by
  rw [terminalTextWidth, h]
  exact Nat.add_zero _

/-! ## one line -/

/-- the first graphemes up to one of them -/
def EndsAt (start : Nat) (gs : List Text) (n stop : Nat) : Prop :=
  1 ≤ n ∧ n ≤ gs.length ∧ stop = start + size (gs.take n).flatten

theorem fillLine_spec {width start : Nat} {done gs : List Text} {used : Nat} {brk : Option Nat}
    (hclusters : ∀ g ∈ done ++ gs, IsCluster g) (hne : done ++ gs ≠ []) (hused : used = rowWidth done)
    (hfits : done = [] ∨ done.length = 1 ∨ used ≤ width)
    (hbrk : ∀ b, brk = some b → ∃ j, j ≤ done.length ∧ EndsAt start (done ++ gs) j b) :
    ∃ k, EndsAt start (done ++ gs) k (fillLine width start gs (start + size done.flatten) used brk).1 ∧
      (k = 1 ∨ rowWidth ((done ++ gs).take k) ≤ width) ∧
      ∀ b, (fillLine width start gs (start + size done.flatten) used brk).2 = some b →
        ∃ j, j ≤ k ∧ EndsAt start (done ++ gs) j b := by
  induction gs generalizing done used brk with
  | nil =>
    rw [List.append_nil] at hne hbrk ⊢
    have hpos := List.length_pos_iff.mpr hne
    refine ⟨done.length, ⟨hpos, Nat.le_refl _, by rw [List.take_length]; rfl⟩, ?_, fun b hb => ?_⟩
    · rw [List.take_length, ← hused]
      exact hfits.resolve_left hne
    · exact hbrk b hb
  | cons g gs ih =>
    rw [fillLine]
    split
    · rename_i hstop
      have hdone : done ≠ [] := by
        rintro rfl
        exact absurd hstop.1 (Nat.lt_irrefl _)
      refine ⟨done.length, ⟨List.length_pos_iff.mpr hdone, by simp, by rw [List.take_left]⟩, ?_, fun b hb => ?_⟩
      · rw [List.take_left, ← hused]
        exact hfits.resolve_left hdone
      · exact hbrk b hb
    · rename_i hgo
      have hsame : done ++ g :: gs = (done ++ [g]) ++ gs := by simp
      have hstop : start + size done.flatten + size g = start + size (done ++ [g]).flatten := by
        rw [List.flatten_append, size_append, List.flatten_singleton, Nat.add_assoc]
      have hwidth : used + terminalTextWidth g = rowWidth (done ++ [g]) := by
        rw [rowWidth_append, hused, (hclusters g (by simp)).width]
        rfl
      have hone : (done ++ [g]).length = 1 ∨ used + terminalTextWidth g ≤ width := by
        by_cases hdone : done = []
        · exact .inl (by rw [hdone]; rfl)
        · refine .inr (Nat.not_lt.mp fun hlt => hgo ⟨?_, hlt⟩)
          have := size_pos (show done.flatten ≠ [] from fun h => by
            obtain ⟨x, l, rfl⟩ := List.exists_cons_of_ne_nil hdone
            exact (hclusters x (by simp)).ne_nil (List.append_eq_nil_iff.mp h).1)
          omega
      have hends : EndsAt start (done ++ g :: gs) (done.length + 1) (start + size (done ++ [g]).flatten) := by
        refine ⟨Nat.le_add_left _ _, by simp, ?_⟩
        rw [hsame, List.take_left' (by simp)]
      have hbrk' : ∀ b, (if g.all isWhitespace then some (start + size (done ++ [g]).flatten) else brk) = some b →
          ∃ j, j ≤ (done ++ [g]).length ∧ EndsAt start (done ++ g :: gs) j b := by
        intro b hb
        split at hb
        · obtain rfl := Option.some.inj hb
          exact ⟨done.length + 1, by simp, hends⟩
        · obtain ⟨j, hj, he⟩ := hbrk b hb
          exact ⟨j, by rw [List.length_append]; omega, he⟩
      simp only [hstop]
      split
      · refine ⟨done.length + 1, hends, ?_, fun b hb => ?_⟩
        · rw [hsame, List.take_left' (by simp), ← hwidth]
          exact hone.imp (fun h => by rwa [List.length_append] at h) id
        · obtain ⟨j, hj, he⟩ := hbrk' b hb
          exact ⟨j, by simpa using hj, he⟩
      · rw [hsame] at hbrk' hclusters hne ⊢
        exact ih hclusters hne hwidth (.inr hone) hbrk'

theorem lineEnd_spec {width start : Nat} (stop : Nat) {gs : List Text} (hclusters : ∀ g ∈ gs, IsCluster g) (hne : gs ≠ []) :
    ∃ n e, lineEnd width start stop gs = some e ∧ EndsAt start gs n e ∧ (n = 1 ∨ rowWidth (gs.take n) ≤ width) := by
  obtain ⟨k, hends, hfits, hbrk⟩ := @fillLine_spec _ width start [] gs 0 none hclusters hne rfl (.inl rfl) nofun
  unfold lineEnd
  rw [show start + size (List.flatten []) = start from rfl, List.nil_append] at hends hbrk
  generalize fillLine width start gs start 0 none = p at hends hbrk
  obtain ⟨candidateEnd, lastWordBreak⟩ := p
  obtain ⟨hk, hle, hstop⟩ := hends
  have hgo : candidateEnd ≠ start := by
    intro he
    have htake : (gs.take k).flatten ≠ [] := by
      obtain ⟨g, l, rfl⟩ := List.exists_cons_of_ne_nil hne
      obtain ⟨k, rfl⟩ := Nat.exists_eq_add_of_le' hk
      intro h
      exact (hclusters g List.mem_cons_self).ne_nil (List.append_eq_nil_iff.mp h).1
    have := size_pos htake
    simp only at hstop
    omega
  simp only [if_neg hgo, Option.map_some]
  split
  · cases lastWordBreak with
    | none => exact ⟨k, candidateEnd, rfl, ⟨hk, hle, hstop⟩, hfits⟩
    | some b =>
      obtain ⟨j, hj, hjends⟩ := hbrk b rfl
      rw [Option.filter_some]
      split
      · refine ⟨j, b, rfl, hjends, hfits.imp (fun h => ?_) (rowWidth_take_le hj gs).trans⟩
        have := hjends.1
        omega
      · exact ⟨k, candidateEnd, rfl, ⟨hk, hle, hstop⟩, hfits⟩
  · exact ⟨k, candidateEnd, rfl, ⟨hk, hle, hstop⟩, hfits⟩

theorem length_le_size {gs : List Text} (h : ∀ g ∈ gs, g ≠ []) : gs.length ≤ size gs.flatten := by
  induction gs with
  | nil => exact Nat.zero_le _
  | cons g gs ih =>
    obtain ⟨hg, hgs⟩ := List.forall_mem_cons.mp h
    rw [List.flatten_cons, size_append, List.length_cons]
    have := size_pos hg
    have := ih hgs
    omega

/-- rows inside one logical line -/
structure Inner (width : Nat) (rows : List Row) : Prop where
  fits : ∀ r ∈ rows, r.Fits width
  inner : ∀ r ∈ rows, r.newline = false
  filled : ∀ r ∈ rows, r.clusters ≠ []

theorem wrapLoop_rows {pre post : Text} {gs : List Text} {width fuel : Nat} (ls : List VisualLine)
    (hgs : graphemes gs.flatten = gs) (hfuel : gs.length < fuel) :
    ∃ rows, wrapLoop (pre ++ (gs.flatten ++ post)) (size pre + size gs.flatten) width fuel (size pre) ls =
        some (ls ++ placed (size pre) rows) ∧
      textOf rows = gs.flatten ∧ Inner width rows ∧ (gs ≠ [] → rows ≠ []) := by
  induction fuel generalizing pre gs ls with
  | zero => exact absurd hfuel (Nat.not_lt_zero _)
  | succ fuel ih =>
    have hclusters : ∀ g ∈ gs, IsCluster g := fun g hg => isCluster_of_mem (hgs ▸ hg)
    rw [wrapLoop]
    rcases eq_or_ne gs [] with rfl | hne
    · refine ⟨[], ?_, rfl, ⟨nofun, nofun, nofun⟩, fun h => absurd rfl h⟩
      rw [if_neg (by rw [List.flatten_nil, size_nil]; omega)]
      exact congrArg some (List.append_nil ls).symm
    · obtain ⟨n, e, hend, ⟨hn, hle, rfl⟩, hfits⟩ := @lineEnd_spec _ width (size pre) (size pre + size gs.flatten) gs
        hclusters hne
      have htake := graphemes_part hgs (List.take_prefix n gs).isInfix
      have hdrop := graphemes_part hgs (List.drop_suffix n gs).isInfix
      have hsplit : gs.flatten = (gs.take n).flatten ++ (gs.drop n).flatten := by
        rw [← List.flatten_append, List.take_append_drop]
      have hline : Offsets.slice (pre ++ (gs.flatten ++ post)) (size pre) (size pre + size (gs.take n).flatten) =
          some (gs.take n).flatten := by
        rw [hsplit, List.append_assoc]
        exact Offsets.slice_append _ _ _
      have hwidth : terminalTextWidth (gs.take n).flatten = rowWidth (gs.take n) := by
        rw [terminalTextWidth, htake]
      obtain ⟨rows, hrows, htextOf, hinner, -⟩ := @ih (pre ++ (gs.take n).flatten) (gs.drop n)
        (ls ++ [⟨size pre, size pre + size (gs.take n).flatten, rowWidth (gs.take n)⟩]) hdrop
        (by rw [List.length_drop]; omega)
      have hpos : 0 < size gs.flatten := (List.length_pos_iff.mpr hne).trans_le (length_le_size fun g hg => (hclusters g hg).ne_nil)
      refine ⟨⟨gs.take n, false⟩ :: rows, ?_, ?_, ?_, fun _ => List.cons_ne_nil _ _⟩
      · rw [if_pos (by omega), Offsets.slice_append]
        show (match lineEnd width (size pre) (size pre + size gs.flatten) (graphemes gs.flatten) with
          | none => some ls
          | some lineEnd => _) = _
        rw [hgs, hend]
        show (Offsets.slice _ (size pre) _).bind _ = _
        rw [hline, Option.bind_some, hwidth]
        have hstep := hrows
        rw [size_append, Nat.add_assoc, ← size_append, ← hsplit, List.append_assoc, ← List.append_assoc _ _ post,
          ← hsplit] at hstep
        rw [hstep, List.append_assoc]
        show _ = some (ls ++ (⟨_, _, _⟩ :: placed (size pre + size (_ ++ [])) rows))
        rw [List.append_nil, List.singleton_append]
        rfl
      · rw [textOf_cons, htextOf, hsplit]
        exact congrArg (· ++ _) (List.append_nil _)
      · have hfirst : Row.Fits width ⟨gs.take n, false⟩ := by
          refine ⟨htake, hfits.symm.imp_right fun h => ?_⟩
          rw [List.length_take, h]
          omega
        refine ⟨?_, ?_, ?_⟩
        · exact List.forall_mem_cons.mpr ⟨hfirst, hinner.fits⟩
        · exact List.forall_mem_cons.mpr ⟨rfl, hinner.inner⟩
        · refine List.forall_mem_cons.mpr ⟨fun h => ?_, hinner.filled⟩
          have hlen := congrArg List.length h
          rw [List.length_take, List.length_nil] at hlen
          omega

/-! ## all lines -/

attribute [grind =] Row.text

theorem wrapLogicalLine_rows (pre l post : Text) (width : Nat) (ls : List VisualLine) :
    ∃ rows last, wrapLogicalLine (pre ++ (l ++ post)) (size pre) (size pre + size l) width ls =
        some (ls ++ placed (size pre) (rows ++ [last])) ∧
      textOf (rows ++ [last]) = l ∧ (∀ r ∈ rows ++ [last], r.Fits width) ∧ (∀ r ∈ rows, r.text ≠ []) ∧
      last.newline = false := by
  rcases eq_or_ne l [] with rfl | hl
  · refine ⟨[], ⟨[], false⟩, ?_, rfl, ?_, nofun, rfl⟩
    · rw [wrapLogicalLine, if_pos (by rw [size_nil, Nat.add_zero])]
      rfl
    · intro r hr
      rw [List.nil_append, List.mem_singleton] at hr
      rw [hr]
      exact ⟨rfl, .inl (Nat.zero_le _)⟩
  · have hsame := flatten_graphemes l
    have hpos := size_pos hl
    obtain ⟨rows, hrows, htext, hinner, hne⟩ := @wrapLoop_rows _ pre post (graphemes l) width (size l + 1) ls
      (by rw [hsame]) (Nat.lt_succ_of_le ((length_le_size graphemes_ne_nil).trans_eq (by rw [hsame])))
    have hgs : graphemes l ≠ [] := fun h => hl (by rw [← hsame, h]; rfl)
    rw [hsame] at hrows htext
    obtain ⟨rows, last, rfl⟩ := (List.eq_nil_or_concat rows).resolve_left (hne hgs)
    rw [List.concat_eq_append] at hrows htext hinner
    refine ⟨rows, last, ?_, htext, hinner.fits, fun r hr => ?_, hinner.inner last (by simp)⟩
    · rw [wrapLogicalLine, if_neg (by omega), show size pre + size l - size pre + 1 = size l + 1 by omega]
      exact hrows
    · have hmem : r ∈ rows ++ [last] := List.mem_append_left _ hr
      have hfits := (hinner.fits r hmem).clusters
      obtain ⟨g, gs, hg⟩ := List.exists_cons_of_ne_nil (hinner.filled r hmem)
      have hgne : g ≠ [] := by
        refine graphemes_ne_nil (l := r.clusters.flatten) g ?_
        rw [hfits, hg]
        exact List.mem_cons_self
      rw [Row.text, hg, List.flatten_cons]
      simp [hgne]

theorem placed_newline (start : Nat) (rows : List Row) (last : Row) :
    placed start (rows ++ [{ last with newline := true }]) = placed start (rows ++ [last]) := by
  rw [placed_append, placed_append]
  rfl

theorem Wrapped.append {width : Nat} {a b : List Row} (ha : ∀ r ∈ a, r.Fits width) (hfilled : ∀ r ∈ a, r.text ≠ [])
    (hb : Wrapped width b) : Wrapped width (a ++ b) := by
  obtain ⟨r, hr, hlast⟩ := hb.last
  have hne : b ≠ [] := by
    rintro rfl
    cases hr
  refine ⟨?_, ?_, r, ?_, hlast⟩
  · intro x hx
    exact (List.mem_append.mp hx).elim (ha x) (hb.fits x)
  · intro x hx
    rw [List.dropLast_append_of_ne_nil hne] at hx
    exact (List.mem_append.mp hx).elim (hfilled x) (hb.filled x)
  · rw [List.getLast?_append_of_ne_nil _ hne, hr]

theorem wrapped_singleton {width : Nat} {r : Row} (hr : r.Fits width) (hlast : r.newline = false) : Wrapped width [r] :=
  ⟨fun _ hx => List.mem_singleton.mp hx ▸ hr, nofun, r, rfl, hlast⟩

theorem takeWhile_newline {l : Text} (h : '\n' ∉ l) (rest : Text) : (l ++ '\n' :: rest).takeWhile (· ≠ '\n') = l := by
  have hall : ∀ x ∈ l, decide (x ≠ '\n') = true := fun _ hx => decide_eq_true fun he => h (he ▸ hx)
  rw [List.takeWhile_append_of_pos hall, List.takeWhile_cons_of_neg (by simp), List.append_nil]

theorem logicalLoop_rows {pre rest : Text} {width fuel : Nat} (ls : List VisualLine) (hfuel : size rest < fuel) :
    ∃ rows, logicalLoop (pre ++ rest) width fuel (size pre) ls = some (ls ++ placed (size pre) rows) ∧
      textOf rows = rest ∧ Wrapped width rows := by
  induction fuel generalizing pre rest ls with
  | zero => exact absurd hfuel (Nat.not_lt_zero _)
  | succ fuel ih =>
    rw [logicalLoop, cut_append]
    show ∃ rows, (if '\n' ∈ rest then _ else _) = _ ∧ _
    by_cases hnewline : '\n' ∈ rest
    · obtain ⟨l, tail, hl, rfl⟩ : ∃ l tail, '\n' ∉ l ∧ rest = l ++ '\n' :: tail := by
        obtain ⟨l, tail, he, hl⟩ := List.eq_append_cons_of_mem hnewline
        exact ⟨l, tail, hl, he⟩
      obtain ⟨rows, last, hrows, htext, hfits, hfilled, hlast⟩ := wrapLogicalLine_rows pre l ('\n' :: tail) width ls
      rw [if_pos hnewline, takeWhile_newline hl, hrows, Option.bind_eq_bind, Option.bind_some]
      have hsize : size (l ++ '\n' :: tail) = size l + 1 + size tail := by
        rw [size_append]
        show size l + (1 + size tail) = _
        omega
      have hstart : size pre + size l + 1 = size (pre ++ (l ++ ['\n'])) := by
        rw [size_append, size_append, Nat.add_assoc]
        rfl
      have htextOf : ∀ tailRows, textOf ((rows ++ [{ last with newline := true }]) ++ tailRows) =
          l ++ '\n' :: textOf tailRows := by
        intro tailRows
        have hl : textOf (rows ++ [{ last with newline := true }]) = l ++ ['\n'] := by
          rw [← htext, textOf_append, textOf_append, List.append_assoc]
          congr 1
          simp [textOf, Row.text, hlast]
        rw [textOf_append, hl, List.append_assoc, List.singleton_append]
      have hclosed : ∀ r ∈ rows ++ [{ last with newline := true }], r.Fits width ∧ r.text ≠ [] := by
        intro r hr
        rcases List.mem_append.mp hr with hr | hr
        · exact ⟨hfits r (List.mem_append_left _ hr), hfilled r hr⟩
        · rw [List.mem_singleton.mp hr]
          obtain ⟨hclusters, hwidth⟩ := hfits last (by simp)
          exact ⟨⟨hclusters, hwidth⟩, by simp [Row.text]⟩
      have hplaced : ∀ tailRows, placed (size pre) ((rows ++ [{ last with newline := true }]) ++ tailRows) =
          placed (size pre) (rows ++ [last]) ++ placed (size pre + size l + 1) tailRows := by
        intro tailRows
        have hempty := htextOf []
        rw [List.append_nil] at hempty
        rw [placed_append, placed_newline, hempty, size_append, ← Nat.add_assoc]
        rfl
      split
      · rename_i hend
        have htail : tail = [] := by
          rw [size_append, hsize] at hend
          exact size_eq_zero.mp (by omega)
        subst htail
        refine ⟨(rows ++ [{ last with newline := true }]) ++ [⟨[], false⟩], ?_, htextOf _, ?_⟩
        · rw [hplaced, List.append_assoc]
          rfl
        · exact .append (fun r hr => (hclosed r hr).1) (fun r hr => (hclosed r hr).2)
            (wrapped_singleton ⟨rfl, .inl (Nat.zero_le _)⟩ rfl)
      · obtain ⟨tailRows, htail, htailText, hwrapped⟩ := @ih (pre ++ (l ++ ['\n'])) tail
          (ls ++ placed (size pre) (rows ++ [last])) (by omega)
        refine ⟨(rows ++ [{ last with newline := true }]) ++ tailRows, ?_, by rw [htextOf, htailText], ?_⟩
        · have hsame : pre ++ (l ++ ['\n']) ++ tail = pre ++ (l ++ '\n' :: tail) := by simp
          rw [hsame, ← hstart] at htail
          rw [hplaced]
          exact htail.trans (congrArg some (List.append_assoc ..))
        · exact .append (fun r hr => (hclosed r hr).1) (fun r hr => (hclosed r hr).2) hwrapped
    · obtain ⟨rows, last, hrows, htext, hfits, hfilled, hlast⟩ := wrapLogicalLine_rows pre rest [] width ls
      rw [List.append_nil] at hrows
      rw [if_neg hnewline, size_append, hrows]
      exact ⟨rows ++ [last], rfl, htext, .append (fun r hr => hfits r (List.mem_append_left _ hr)) hfilled
        (wrapped_singleton (hfits last (by simp)) hlast)⟩

theorem wrapText_rows (text : Text) {width : Nat} (hwidth : 1 ≤ width) :
    ∃ rows, wrapText text width = some (placed 0 rows) ∧ textOf rows = text ∧ Wrapped width rows := by
  obtain ⟨rows, hrows, htext, hwrapped⟩ := @logicalLoop_rows _ [] text width (size text + 1) [] (Nat.lt_succ_self _)
  obtain ⟨last, hlast, hnewline⟩ := hwrapped.last
  obtain ⟨rows, rfl⟩ := List.getLast?_eq_some_iff.mp hlast
  have hne : placed 0 (rows ++ [last]) ≠ [] := by
    rw [← List.length_pos_iff, length_placed]
    simp
  have hlastLine : (placed 0 (rows ++ [last])).getLast? =
      some ⟨size (textOf rows), size (textOf rows) + size last.clusters.flatten, last.width⟩ := by
    rw [placed_append, Nat.zero_add]
    exact List.getLast?_concat ..
  have hstop : size (textOf rows) + size last.clusters.flatten = size text := by
    rw [← htext, textOf_append, size_append]
    simp [textOf, Row.text, hnewline]
  have hloop : logicalLoop text width (size text + 1) 0 [] = some (placed 0 (rows ++ [last])) := hrows
  have hall : textOf (rows ++ [last] ++ [⟨[], false⟩]) = text := by
    rw [textOf_append, htext]
    exact List.append_nil text
  rw [wrapText, hloop, Option.bind_eq_bind, Option.bind_some]
  simp only [if_neg hne, hlastLine, Option.map_some, Option.getD_some, Option.any_some, decide_eq_true_eq]
  split
  · rename_i hfull
    have hfits := hwrapped.fits last (by simp)
    have hclusters : last.clusters ≠ [] := by
      intro h
      have : last.width = 0 := by rw [Row.width, h]; rfl
      omega
    refine ⟨rows ++ [last] ++ [⟨[], false⟩], ?_, hall, ?_⟩
    · rw [placed_append 0 (rows ++ [last]), htext, Nat.zero_add]
      rfl
    · refine .append hwrapped.fits (fun r hr => ?_) (wrapped_singleton ⟨rfl, .inl (Nat.zero_le _)⟩ rfl)
      rcases List.mem_append.mp hr with hr | hr
      · exact hwrapped.filled r (by rwa [List.dropLast_concat])
      · rw [List.mem_singleton.mp hr]
        intro h
        have hflat : last.clusters.flatten = [] := (List.append_eq_nil_iff.mp h).1
        have hsame := hfits.clusters
        rw [hflat] at hsame
        exact hclusters hsame.symm
  · exact ⟨rows ++ [last], rfl, htext, hwrapped⟩

end

end Orvek.Tui
