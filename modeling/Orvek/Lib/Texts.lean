import Mathlib.Data.List.DropRight
import Orvek.Lib.Decimals

/-!
# Reading a text by lines, prefixes and separators

* `stripPrefix`     what follows a text at the beginning;
* `splitOnceAt`     what is before and after the first occurrence of a text;
* `words`           the pieces between ASCII white space;
* `parseUnsigned`   decimal digits up to a largest number, with a plus sign or without one;
* `lines`           the lines of a text; a carriage return before a line feed belongs to the line end,
                    and one at the end of an unfinished line does not;
* `unlines`         lines with a line feed after each.
-/

set_option linter.unusedSectionVars false

namespace Texts
open Decimals

abbrev Text : Type := List Char

/-! ## prefixes -/

def stripPrefix : Text → Text → Option Text
  | [], l => some l
  | _ :: _, [] => none
  | x :: p, y :: l => if x = y then stripPrefix p l else none

attribute [grind =] stripPrefix

theorem stripPrefix_some {p l r : Text} : stripPrefix p l = some r ↔ l = p ++ r := by
  induction p generalizing l with
  | nil => exact ⟨fun h => Option.some.inj h, fun h => congrArg some h⟩
  | cons x p ih =>
    cases l with
    | nil => exact ⟨fun h => (nomatch h), fun h => (nomatch h)⟩
    | cons y l =>
      rw [stripPrefix, List.cons_append, List.cons.injEq]
      split
      · rename_i hx
        rw [ih]
        exact ⟨fun h => ⟨hx.symm, h⟩, fun h => h.2⟩
      · rename_i hx
        exact ⟨fun h => (nomatch h), fun h => absurd h.1.symm hx⟩

theorem stripPrefix_append (p l : Text) : stripPrefix p (p ++ l) = some l := stripPrefix_some.mpr rfl

theorem stripPrefix_none {p l : Text} : stripPrefix p l = none ↔ ¬ p <+: l := by
  rw [Option.eq_none_iff_forall_not_mem]
  constructor
  · rintro h ⟨r, hr⟩
    exact h r (stripPrefix_some.mpr hr.symm)
  · exact fun h r hr => h ⟨r, (stripPrefix_some.mp hr).symm⟩

/-! ## separators -/

def splitOnceAt (separator : Text) : Text → Option (Text × Text)
  | [] => (stripPrefix separator []).map fun r => ([], r)
  | x :: l =>
    match stripPrefix separator (x :: l) with
    | some r => some ([], r)
    | none => (splitOnceAt separator l).map fun r => (x :: r.1, r.2)

theorem splitOnceAt_append {x : Char} {separator a b : Text} (h : x ∉ a) :
    splitOnceAt (x :: separator) (a ++ (x :: separator ++ b)) = some (a, b) := by
  induction a with
  | nil =>
    rw [List.nil_append, List.cons_append, splitOnceAt, ← List.cons_append, stripPrefix_append]
  | cons y a ih =>
    have hy : x ≠ y := fun he => h (he ▸ List.mem_cons_self)
    rw [List.cons_append, splitOnceAt, stripPrefix, if_neg hy]
    simp only
    rw [ih fun hm => h (List.mem_cons_of_mem y hm)]
    rfl

theorem splitOnceAt_none {x : Char} {separator l : Text} (h : x ∉ l) : splitOnceAt (x :: separator) l = none := by
  induction l with
  | nil => rfl
  | cons y l ih =>
    have hy : x ≠ y := fun he => h (he ▸ List.mem_cons_self)
    rw [splitOnceAt, stripPrefix, if_neg hy]
    simp only
    rw [ih fun hm => h (List.mem_cons_of_mem y hm)]
    rfl

/-- `char::is_ascii_whitespace` -/
def isAsciiWhitespace (c : Char) : Bool :=
  c = ' ' || c = '\t' || c = '\n' || c = '\x0c' || c = '\r'

/-- the pieces between white space, where `word` has been read of the first one -/
def wordsFrom (word : Text) : Text → List Text
  | [] => if word = [] then [] else [word]
  | c :: l =>
    if isAsciiWhitespace c then (if word = [] then wordsFrom [] l else word :: wordsFrom [] l)
    else wordsFrom (word ++ [c]) l

/-- `str::split_ascii_whitespace` -/
def words (l : Text) : List Text := wordsFrom [] l

theorem words_nil : words [] = [] := rfl

attribute [grind =] wordsFrom

theorem wordsFrom_append {w : Text} (hw : ∀ x ∈ w, isAsciiWhitespace x = false) (word l : Text) :
    wordsFrom word (w ++ l) = wordsFrom (word ++ w) l := by
  induction w generalizing word with
  | nil => rw [List.nil_append, List.append_nil]
  | cons x w ih =>
    rw [List.cons_append, wordsFrom, hw x List.mem_cons_self, if_neg Bool.false_ne_true,
      ih (fun y hy => hw y (List.mem_cons_of_mem x hy)), List.append_assoc, List.singleton_append]

theorem words_word {w : Text} {c : Char} (hne : w ≠ []) (hw : ∀ x ∈ w, isAsciiWhitespace x = false)
    (hc : isAsciiWhitespace c = true) (l : Text) : words (w ++ c :: l) = w :: words l := by
  rw [words, wordsFrom_append hw, List.nil_append, wordsFrom, if_pos hc, if_neg hne]
  rfl

theorem words_concat {c : Char} (h : isAsciiWhitespace c = true) (l : Text) :
    words (l ++ [c]) = words l := by
  suffices hfrom : ∀ word, wordsFrom word (l ++ [c]) = wordsFrom word l from hfrom []
  intro word
  induction l generalizing word with
  | nil =>
    show (if isAsciiWhitespace c then _ else _) = _
    rw [if_pos h]
    rfl
  | cons x l ih => rw [List.cons_append, wordsFrom, wordsFrom, ih, ih]

/-! ## numbers -/

/-- `str::parse` at an unsigned type whose largest number is `max` -/
def parseUnsigned (max : Nat) : Text → Option Nat
  | '+' :: l => (readNat l).filter fun n => decide (n ≤ max)
  | l => (readNat l).filter fun n => decide (n ≤ max)

theorem readNat_toDigits (n : Nat) : readNat (Nat.toDigits 10 n) = some n :=
  readNat_some.mpr ⟨⟨Nat.toDigits_ne_nil, numeric_toDigits n⟩, number_toDigits n⟩

theorem parseUnsigned_toDigits (max n : Nat) :
    parseUnsigned max (Nat.toDigits 10 n) = if n ≤ max then some n else none := by
  have hread : (readNat (Nat.toDigits 10 n)).filter (fun n => decide (n ≤ max)) =
      if n ≤ max then some n else none := by
    rw [readNat_toDigits, Option.filter_some]
    simp
  have hplus := (numeric_toDigits n).ne (x := '+') rfl
  unfold parseUnsigned
  split
  · rename_i l he
    exact absurd rfl (hplus '+' (he ▸ List.mem_cons_self))
  · exact hread

/-! ## lines -/

/-- a line without the carriage return at its end -/
def chomp (line : Text) : Text := if line.getLast? = some '\r' then line.dropLast else line

attribute [grind =] chomp

theorem chomp_of_ne {line : Text} (h : line.getLast? ≠ some '\r') : chomp line = line := if_neg h

/-- `chomp` sees the end only -/
theorem chomp_append {a : Text} (ha : a.getLast? ≠ some '\r') (b : Text) : chomp (a ++ b) = a ++ chomp b := by
  rcases eq_or_ne b [] with rfl | hb
  · rw [List.append_nil, chomp_of_ne ha]
    exact (List.append_nil a).symm
  · unfold chomp
    rw [List.getLast?_append_of_ne_nil _ hb]
    split
    · exact List.dropLast_append_of_ne_nil hb
    · rfl

theorem chomp_eq_self {line : Text} : chomp line = line ↔ line.getLast? ≠ some '\r' := by
  constructor
  · intro h hr
    rw [chomp, if_pos hr] at h
    have hlen := congrArg List.length h
    rw [List.length_dropLast] at hlen
    have hpos : 0 < line.length := List.length_pos_iff.mpr fun h0 => by simp [h0] at hr
    omega
  · exact chomp_of_ne

theorem chomp_start (line : Text) : chomp line <+: line := by
  unfold chomp
  split
  · exact List.dropLast_prefix line
  · exact List.prefix_rfl

theorem words_chomp (line : Text) : words (chomp line) = words line := by
  unfold chomp
  split
  · rename_i h
    conv_rhs => rw [← List.dropLast_append_getLast? '\r' h]
    exact (words_concat (by decide) _).symm
  · rfl

/-- `str::lines` -/
def lines (l : Text) : List Text :=
  let pieces := l.splitOn '\n'
  pieces.dropLast.map chomp ++ (pieces.getLast?.toList.filter (· ≠ []))

def unlines (ls : List Text) : Text := ls.flatMap fun line => line ++ ['\n']

attribute [grind =] unlines

theorem unlines_cons (line : Text) (ls : List Text) : unlines (line :: ls) = line ++ '\n' :: unlines ls := by
  simp [unlines]

theorem unlines_append (a b : List Text) : unlines (a ++ b) = unlines a ++ unlines b := by
  simp [unlines]

variable {ls : List Text}

theorem splitOn_unlines (h : ∀ line ∈ ls, '\n' ∉ line) {last : Text} (hlast : '\n' ∉ last) :
    (unlines ls ++ last).splitOn '\n' = ls ++ [last] := by
  induction ls with
  | nil => exact List.splitOn_eq_singleton hlast
  | cons line ls ih =>
    rw [unlines_cons, List.append_assoc, List.cons_append,
      List.splitOn_append_cons_self_of_not_mem (h line List.mem_cons_self),
      ih fun l hl => h l (List.mem_cons_of_mem line hl), List.cons_append]

theorem lines_unlines (h : ∀ line ∈ ls, '\n' ∉ line) : lines (unlines ls) = ls.map chomp := by
  have hsplit : (unlines ls ++ []).splitOn '\n' = ls ++ [[]] := splitOn_unlines h (by simp)
  rw [List.append_nil] at hsplit
  rw [lines, hsplit]
  simp

theorem lines_unfinished {last : Text} (h : ∀ line ∈ ls, '\n' ∉ line) (hlast : '\n' ∉ last)
    (hne : last ≠ []) : lines (unlines ls ++ last) = ls.map chomp ++ [last] := by
  rw [lines, splitOn_unlines h hlast]
  simp [hne]

theorem intercalate_eq {last : Text} : ['\n'].intercalate (ls ++ [last]) = unlines ls ++ last := by
  induction ls with
  | nil => simp [unlines]
  | cons line ls ih =>
    have hne : ls ++ [last] ≠ [] := by simp
    rw [List.cons_append, List.intercalate_cons_of_ne_nil hne, ih, unlines_cons]
    simp

theorem rdropWhile_newlines {l : Text} (h : l.getLast? ≠ some '\n') (n : Nat) :
    (l ++ List.replicate n '\n').rdropWhile (· = '\n') = l := by
  induction n with
  | zero =>
    rw [List.replicate_zero, List.append_nil, List.rdropWhile_eq_self_iff]
    intro hl he
    exact h (by rw [List.getLast?_eq_some_getLast hl]; simpa using he)
  | succ n ih =>
    rw [List.replicate_succ', ← List.append_assoc, List.rdropWhile_concat_pos _ _ _ (by simp)]
    exact ih

end Texts
