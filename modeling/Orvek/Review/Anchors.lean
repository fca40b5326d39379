import Orvek.Lib.QuotedNames
import Orvek.Text

/-!
# The lines that a review comment can stand at

`containsAnchor` reads a patch of Git and answers whether some lines of a file are in it:

* `decodeGitPath`, `patchPath`   the name after `--- ` or `+++ `;
* `parseHunkHeader`              where a hunk begins on either side, and how many lines it has;
* `scan`                         the loop over the lines, with the names of the file that is read;
* `Change`, `Written`, `Patch`   what Git writes of the files that changed;
* `anchors_exact`                the answer is true exactly for the lines of the changed files.
-/

set_option linter.unusedSectionVars false

namespace Orvek.Review
open Json Texts UnifiedDiff QuotedNames

inductive PatchSide where
  | additions | deletions
  deriving DecidableEq

/-! ## names -/

/-- the byte that a letter after a backslash stands for -/
def decodeLetter : UInt8 → Option UInt8
  | 0x61 => some 0x07
  | 0x62 => some 0x08
  | 0x66 => some 0x0c
  | 0x6e => some 0x0a
  | 0x72 => some 0x0d
  | 0x74 => some 0x09
  | 0x76 => some 0x0b
  | 0x5c => some 0x5c
  | 0x22 => some 0x22
  | _ => none

/-- what stands after a backslash, and the bytes that follow it -/
def decodeEscape : List UInt8 → Option (UInt8 × List UInt8)
  | [] => none
  | escaped :: rest =>
    if isOctal escaped then readOctal 3 0 (escaped :: rest)
    else (decodeLetter escaped).map fun value => (value, rest)

theorem decodeEscape_length {bytes rest : List UInt8} {value : UInt8} (h : decodeEscape bytes = some (value, rest)) :
    rest.length ≤ bytes.length := by
  cases bytes with
  | nil => cases h
  | cons escaped bytes =>
    rw [decodeEscape] at h
    split at h
    · exact readOctal_length h
    · obtain ⟨_, -, he⟩ := Option.map_eq_some_iff.mp h
      exact (Prod.mk.inj he).2 ▸ Nat.le_succ _

/-- the loop over the bytes between the quotation marks -/
def decodeBytes : List UInt8 → Option (List UInt8)
  | [] => some []
  | b :: rest =>
    if b ≠ backslash then (decodeBytes rest).map (b :: ·)
    else match h : decodeEscape rest with
      | none => none
      | some (value, left) =>
        have : left.length ≤ rest.length := decodeEscape_length h
        (decodeBytes left).map (value :: ·)
termination_by bytes => bytes.length
decreasing_by all_goals (rw [List.length_cons]; omega)

/-- what stands between two quotation marks -/
def unquote (value : Text) : Option Text :=
  (stripPrefix ['"'] value).bind fun rest => if rest.getLast? = some '"' then some rest.dropLast else none

def decodeGitPath (value : Text) : Option Text :=
  match unquote value with
  | none => some value
  | some quoted => (decodeBytes (utf8 quoted)).bind fun bytes => (fromUtf8 bytes).map String.toList

def patchPath (value : Text) : Option Text :=
  let value := value.takeWhile (· ≠ '\t')
  if value = devNull then none
  else (decodeGitPath value).map fun value =>
    (stripPrefix ['a', '/'] value <|> stripPrefix ['b', '/'] value).getD value

/-! ## hunks -/

def parseHunkRange (value : Text) : Option (Nat × Nat) :=
  let (start, count) := (splitOnceAt [','] value).getD (value, ['1'])
  match parseUnsigned u32Max start, parseUnsigned u32Max count with
  | some start, some count => some (start, count)
  | _, _ => none

def parseHunkHeader (line : Text) : Option (Nat × Nat × Nat × Nat) := do
  let header ← stripPrefix ['@', '@', ' ', '-'] line
  let (old, remainder) ← splitOnceAt [' ', '+'] header
  let (new, _) ← splitOnceAt [' ', '@', '@'] remainder
  let (oldStart, oldCount) ← parseHunkRange old
  let (newStart, newCount) ← parseHunkRange new
  return (oldStart, oldCount, newStart, newCount)

def checkedAdd32 (a b : Nat) : Option Nat := if a + b ≤ u32Max then some (a + b) else none

/-- some lines of a file on a side -/
structure Anchor where
  path : Text
  side : PatchSide
  startLine : Nat
  endLine : Nat

/-- the test of one hunk, whose lines on the side begin at `first` -/
def Anchor.inHunk (a : Anchor) (candidate : Option Text) (first count : Nat) : Bool :=
  if candidate ≠ some a.path ∨ count = 0 then false
  else match checkedAdd32 first (count - 1) with
    | none => false
    | some last => first ≤ a.startLine && a.endLine ≤ last

/-! ## the loop -/

/-- the loop over the lines, with the names on the two sides that were read last -/
def scan (a : Anchor) : Option Text → Option Text → List Text → Bool
  | _, _, [] => false
  | oldPath, newPath, line :: rest =>
    if gitMark <+: line then scan a none none rest
    else match stripPrefix oldMark line with
    | some value => scan a (patchPath value) newPath rest
    | none =>
      match stripPrefix newMark line with
      | some value => scan a oldPath (patchPath value) rest
      | none =>
        match parseHunkHeader line with
        | none => scan a oldPath newPath rest
        | some (oldStart, oldCount, newStart, newCount) =>
          let found := match a.side with
            | .additions => a.inHunk newPath newStart newCount
            | .deletions => a.inHunk oldPath oldStart oldCount
          if found then true else scan a oldPath newPath rest

def containsAnchor (patch path : Text) (side : PatchSide) (startLine endLine : Nat) : Bool :=
  if startLine = 0 ∨ endLine < startLine then false
  else scan ⟨path, side, startLine, endLine⟩ none none (lines patch)

/-! ## what Git writes -/

/-- the name of a side after `--- ` or `+++ `; a tab follows a name with a space -/
def label (mark : Char) (path : Text) (content : Option Text) : Text :=
  if content.isSome then quoted (mark :: '/' :: path) ++ (if ' ' ∈ path then ['\t'] else []) else devNull

/-- a line between the header of Git and the names is none of the lines that the loop looks for -/
def Quiet (line : Text) : Prop :=
  '\n' ∉ line ∧ ¬ gitMark <+: line ∧ ¬ oldMark <+: line ∧ ¬ newMark <+: line ∧
    ¬ ['@', '@', ' ', '-'] <+: line

/-- a line as it stands in the file -/
def lineContent (l : Line) : Text := l.text ++ if l.unterminated then [] else ['\n']

/-- only the last line may go without a line feed, and only when there is something in it -/
def Ended (ls : List Line) : Prop :=
  (∀ l ∈ ls.dropLast, l.unterminated = false) ∧ ∀ l ∈ ls, l.unterminated = true → l.text ≠ []

/-- one side of the hunk is the whole file -/
structure Whole (ls : List Line) (r : Range) (content : Text) : Prop where
  text : ls.flatMap lineContent = content
  ended : Ended ls
  count : r.count = ls.length
  start : r.start = if r.count = 0 then 0 else 1

/-- a hunk with the whole of both files as context -/
structure FullContext (h : Hunk) (old new : Text) : Prop where
  old : Whole (h.lines.filter fun l => l.kind.isOld) h.old old
  new : Whole (h.lines.filter fun l => l.kind.isNew) h.new new

/-- a file that changed: a text, which may be missing on one side, or a change that has no lines, such as
one of bytes that are no text, or of the mode only -/
inductive Change where
  | text (path : Text) (old new : Option Text) (changed : old ≠ new)
  | other (path : Text)

def Change.path : Change → Text
  | .text path _ _ _ => path
  | .other path => path

def Change.content (side : PatchSide) : Change → Option Text
  | .text _ old new _ => match side with
    | .additions => new
    | .deletions => old
  | .other _ => none

def headerTokens (path : Text) (extended : List Text) : List Token :=
  .git (quoted ('a' :: '/' :: path) ++ ' ' :: quoted ('b' :: '/' :: path)) :: extended.map .extended

/-- the lines that Git writes of a change -/
inductive Written : Change → List Token → Prop
  | lines {path : Text} {old new : Option Text} {changed : old ≠ new} {extended : List Text} {h : Hunk}
      (quiet : ∀ line ∈ extended, Quiet line) (full : FullContext h (old.getD []) (new.getD []))
      (nonempty : h.lines ≠ []) :
      Written (.text path old new changed)
        (headerTokens path extended ++ .oldName (label 'a' path old) :: .newName (label 'b' path new) :: h.tokens)
  | empty {path : Text} {old new : Option Text} {changed : old ≠ new} {extended : List Text}
      (quiet : ∀ line ∈ extended, Quiet line) (old_empty : old.getD [] = []) (new_empty : new.getD [] = []) :
      Written (.text path old new changed) (headerTokens path extended)
  | other {path : Text} {extended : List Text} (quiet : ∀ line ∈ extended, Quiet line) :
      Written (.other path) (headerTokens path extended)

def Patch (changes : List Change) (patch : Text) : Prop :=
  ∃ sections, List.Forall₂ Written changes sections ∧ patch = unlines (sections.flatten.map Token.line)

def maxPatchBytes : Nat := 32 * 1024 * 1024

/-! ## the name is read back -/

attribute [grind =] decodeBytes

theorem decodeBytes_cons {b : UInt8} (h : b ≠ backslash) (rest : List UInt8) :
    decodeBytes (b :: rest) = (decodeBytes rest).map (b :: ·) := by
  rw [decodeBytes, if_pos h]

theorem decodeBytes_escape {value : UInt8} {bytes rest : List UInt8} (h : decodeEscape bytes = some (value, rest)) :
    decodeBytes (backslash :: bytes) = (decodeBytes rest).map (value :: ·) := by
  rw [decodeBytes, if_neg (not_not.mpr rfl)]
  split
  · rename_i hnone
    rw [h] at hnone
    cases hnone
  · rename_i x left hsome
    rw [h] at hsome
    cases hsome
    rfl

theorem decodeEscape_letter {b x : UInt8} (h : letter b = some x) (rest : List UInt8) :
    decodeEscape (x :: rest) = some (b, rest) := by
  unfold letter at h
  split at h <;> first | cases h; done | (obtain rfl := Option.some.inj h; rfl)

theorem decodeEscape_octal (b : UInt8) (rest : List UInt8) : decodeEscape (octal b ++ rest) = some (b, rest) :=
  (if_pos (digit_octal _).1).trans (readOctal_octal b rest)

theorem decodeBytes_escapeByte (b : UInt8) (rest : List UInt8) :
    decodeBytes (escapeByte b ++ rest) = (decodeBytes rest).map (b :: ·) := by
  unfold escapeByte
  split
  · rename_i hbare
    refine decodeBytes_cons ?_ rest
    rintro rfl
    cases hbare
  · split
    · rename_i x hx
      exact decodeBytes_escape (decodeEscape_letter hx rest)
    · exact decodeBytes_escape (decodeEscape_octal b rest)

theorem decodeBytes_escapes (bytes : List UInt8) : decodeBytes (bytes.flatMap escapeByte) = some bytes := by
  induction bytes with
  | nil => rw [List.flatMap_nil, decodeBytes]
  | cons b bytes ih => rw [List.flatMap_cons, decodeBytes_escapeByte, ih, Option.map_some]

theorem decodeGitPath_quoted {c : Char} (hc : c ≠ '"') (name : Text) :
    decodeGitPath (quoted (c :: name)) = some (c :: name) := by
  unfold quoted
  split
  · have hunquote : unquote (c :: name) = none := by
      show (if '"' = c then _ else none).bind _ = none
      rw [if_neg (Ne.symm hc)]
      rfl
    rw [decodeGitPath, hunquote]
  · have hunquote : ∀ l : Text, unquote ('"' :: (l ++ ['"'])) = some l := by
      intro l
      show (if (l ++ ['"']).getLast? = some '"' then some (l ++ ['"']).dropLast else none) = some l
      rw [if_pos (List.getLast?_concat ..), List.dropLast_concat]
    rw [decodeGitPath, hunquote]
    simp only
    rw [utf8_ascii fun b hb => (escapes_visible _ b hb).2, decodeBytes_escapes, Option.bind_some, fromUtf8_utf8,
      Option.map_some, String.toList_ofList]

theorem patchPath_label {c : Char} (hc : c = 'a' ∨ c = 'b') (path : Text) (content : Option Text) :
    patchPath (label c path content) = if content.isSome then some path else none := by
  unfold label
  split
  · have htab : '\t' ∉ quoted (c :: '/' :: path) := control_not_mem (by decide) _
    have htake : (quoted (c :: '/' :: path) ++ (if ' ' ∈ path then ['\t'] else [])).takeWhile (· ≠ '\t') =
        quoted (c :: '/' :: path) := by
      have hname : ∀ x ∈ quoted (c :: '/' :: path), decide (x ≠ '\t') = true :=
        fun x hx => decide_eq_true fun he => htab (he ▸ hx)
      rw [List.takeWhile_append_of_pos hname]
      split <;> simp
    have hquote : c ≠ '"' := by rcases hc with rfl | rfl <;> decide
    have hdecode := decodeGitPath_quoted hquote ('/' :: path)
    have hnull : quoted (c :: '/' :: path) ≠ devNull := by
      intro he
      rw [he] at hdecode
      have hplain : decodeGitPath devNull = some devNull := rfl
      rw [hplain] at hdecode
      have := (List.cons.inj (Option.some.inj hdecode)).1
      rcases hc with rfl | rfl <;> cases this
    unfold patchPath
    rw [htake, if_neg hnull, hdecode]
    rcases hc with rfl | rfl <;> rfl
  · have htake : devNull.takeWhile (· ≠ '\t') = devNull := rfl
    unfold patchPath
    rw [htake, if_pos rfl]

/-! ## hunk headers -/

theorem parseHunkRange_text {r : Range} (hstart : r.start ≤ u32Max) (hcount : r.count ≤ u32Max) :
    parseHunkRange r.text = some (r.start, r.count) := by
  have hone : parseUnsigned u32Max ['1'] = some 1 := rfl
  have hcomma : ',' ∉ Nat.toDigits 10 r.start := fun h =>
    (Decimals.numeric_toDigits r.start).ne rfl ',' h rfl
  have hread : parseHunkRange r.text = match parseUnsigned u32Max (Nat.toDigits 10 r.start),
      parseUnsigned u32Max (if r.short then ['1'] else Nat.toDigits 10 r.count) with
      | some start, some count => some (start, count)
      | _, _ => none := by
    unfold parseHunkRange Range.text
    by_cases hshort : r.short = true
    · rw [if_pos hshort, if_pos hshort, List.append_nil, splitOnceAt_none hcomma]
      rfl
    · have hsplit : splitOnceAt [','] (Nat.toDigits 10 r.start ++ ',' :: Nat.toDigits 10 r.count) =
          some (Nat.toDigits 10 r.start, Nat.toDigits 10 r.count) := splitOnceAt_append hcomma
      rw [if_neg hshort, if_neg hshort, hsplit]
      rfl
  rw [hread, parseUnsigned_toDigits, if_pos hstart]
  split_ifs with hshort
  · rw [hone, r.short_one hshort]
  · rw [parseUnsigned_toDigits, if_pos hcount]

theorem parseHunkHeader_header {old new : Range} (heading : Text) (hold : old.start ≤ u32Max ∧ old.count ≤ u32Max)
    (hnew : new.start ≤ u32Max ∧ new.count ≤ u32Max) :
    parseHunkHeader (hunkHeader old new heading) = some (old.start, old.count, new.start, new.count) := by
  have hspace : ∀ r : Range, ' ' ∉ r.text := fun r => range_ne rfl (by decide)
  unfold parseHunkHeader
  rw [hunkHeader, stripPrefix_append]
  show (splitOnceAt [' ', '+'] _).bind _ = _
  rw [splitOnceAt_append (hspace old)]
  show (splitOnceAt [' ', '@', '@'] _).bind _ = _
  rw [splitOnceAt_append (hspace new)]
  show (parseHunkRange old.text).bind _ = _
  rw [parseHunkRange_text hold.1 hold.2]
  show (parseHunkRange new.text).bind _ = _
  rw [parseHunkRange_text hnew.1 hnew.2]
  rfl

theorem parseHunkHeader_none {line : Text} (h : ¬ ['@', '@', ' ', '-'] <+: line) : parseHunkHeader line = none := by
  unfold parseHunkHeader
  rw [stripPrefix_none.mpr h]
  rfl

/-! ## the lines of a file -/

theorem Whole.lines {ls : List Line} {r : Range} {content : Text} (h : Whole ls r content) :
    (Texts.lines content).length = r.count := by
  have hone : ∀ l : Line, '\n' ∉ l.text := fun l => l.oneLine
  rw [h.count, ← h.text]
  obtain ⟨hinit, hlast⟩ := h.ended
  rcases List.eq_nil_or_concat ls with rfl | ⟨ls, l, rfl⟩
  · rfl
  · rw [List.concat_eq_append, List.dropLast_concat] at hinit
    rw [List.concat_eq_append] at hlast ⊢
    have hls : ls.flatMap lineContent = unlines (ls.map (·.text)) := by
      rw [unlines, List.flatMap_map]
      refine List.flatMap_congr fun x hx => ?_
      rw [lineContent, hinit x hx, if_neg Bool.false_ne_true]
    have htexts : ∀ x ∈ ls.map (·.text), '\n' ∉ x := by
      intro x hx
      obtain ⟨y, -, rfl⟩ := List.mem_map.mp hx
      exact hone y
    rw [List.flatMap_append, hls, List.flatMap_singleton]
    cases hl : l.unterminated with
    | true =>
      rw [lineContent, hl, if_pos rfl, List.append_nil, lines_unfinished htexts (hone l)]
      · simp
      · exact hlast l (List.mem_append_right _ (List.mem_singleton.mpr rfl)) hl
    | false =>
      have hall : ∀ x ∈ ls.map (·.text) ++ [l.text], '\n' ∉ x := by
        intro x hx
        rcases List.mem_append.mp hx with hx | hx
        · exact htexts x hx
        · rw [List.mem_singleton.mp hx]
          exact hone l
      have hlines : unlines (ls.map (·.text)) ++ lineContent l = unlines (ls.map (·.text) ++ [l.text]) := by
        rw [unlines_append, lineContent, hl]
        simp [unlines]
      rw [hlines, lines_unlines hall]
      simp

/-! ## the loop over the lines of a change -/

section
variable {a : Anchor}
variable {rest : List Text}

/-- what is left to read does not depend on the names -/
def Fresh (a : Anchor) (rest : List Text) : Prop :=
  ∀ oldPath newPath, scan a oldPath newPath rest = scan a none none rest

theorem scan_git (oldPath newPath : Option Text) (names : Text) (rest : List Text) :
    scan a oldPath newPath ((gitMark ++ names) :: rest) = scan a none none rest :=
  if_pos (List.prefix_append ..)

theorem scan_old (oldPath newPath : Option Text) (value : Text) (rest : List Text) :
    scan a oldPath newPath ((oldMark ++ value) :: rest) = scan a (patchPath value) newPath rest := rfl

theorem scan_new (oldPath newPath : Option Text) (value : Text) (rest : List Text) :
    scan a oldPath newPath ((newMark ++ value) :: rest) = scan a oldPath (patchPath value) rest := rfl

theorem scan_hunk {old new : Range} (oldPath newPath : Option Text) (heading : Text) (rest : List Text)
    (hold : old.start ≤ u32Max ∧ old.count ≤ u32Max) (hnew : new.start ≤ u32Max ∧ new.count ≤ u32Max) :
    scan a oldPath newPath (hunkHeader old new heading :: rest) =
      ((match a.side with
        | .additions => a.inHunk newPath new.start new.count
        | .deletions => a.inHunk oldPath old.start old.count) || scan a oldPath newPath rest) := by
  have hparse := parseHunkHeader_header heading hold hnew
  obtain ⟨tail, htail⟩ : ∃ tail, hunkHeader old new heading = '@' :: '@' :: ' ' :: tail := ⟨_, rfl⟩
  rw [htail] at hparse ⊢
  show (match parseHunkHeader ('@' :: '@' :: ' ' :: tail) with
    | none => _
    | some (oldStart, oldCount, newStart, newCount) => _) = _
  rw [hparse]
  cases a.side <;> simp only [Bool.if_true_left, Bool.decide_eq_true]

theorem scan_quiet {line : Text} (h : Quiet line) (oldPath newPath : Option Text) (rest : List Text) :
    scan a oldPath newPath (line :: rest) = scan a oldPath newPath rest := by
  obtain ⟨-, hgit, hold, hnew, hhunk⟩ := h
  rw [scan, if_neg hgit, stripPrefix_none.mpr hold, stripPrefix_none.mpr hnew, parseHunkHeader_none hhunk]

theorem quiet_chomp {line : Text} (h : Quiet line) : Quiet (chomp line) := by
  obtain ⟨hone, hgit, hold, hnew, hhunk⟩ := h
  have hsub := chomp_start line
  exact ⟨fun hm => hone (hsub.subset hm), fun hp => hgit (hp.trans hsub), fun hp => hold (hp.trans hsub),
    fun hp => hnew (hp.trans hsub), fun hp => hhunk (hp.trans hsub)⟩

theorem scan_body {c : Char} {text : Text} (hgit : c ≠ 'd') (hhunk : c ≠ '@') (oldPath newPath : Option Text)
    (rest : List Text) :
    ∃ oldPath' newPath', scan a oldPath newPath ((c :: text) :: rest) = scan a oldPath' newPath' rest := by
  have hmark : ¬ gitMark <+: c :: text := fun hp => hgit (List.cons_prefix_cons.mp hp).1.symm
  have hheader : ¬ ['@', '@', ' ', '-'] <+: c :: text := fun hp => hhunk (List.cons_prefix_cons.mp hp).1.symm
  rw [scan, if_neg hmark]
  split
  · exact ⟨_, _, rfl⟩
  split
  · exact ⟨_, _, rfl⟩
  rw [parseHunkHeader_none hheader]
  exact ⟨_, _, rfl⟩

/-- a line of a hunk, or the mark after it -/
def InHunk : Token → Prop
  | .body _ _ => True
  | .unterminated => True
  | _ => False

theorem inHunk_line {t : Token} (h : InHunk t) : ∃ c text, (chompToken t).line = c :: text ∧ c ≠ 'd' ∧ c ≠ '@' := by
  cases t with
  | body kind text => exact ⟨kind.mark, chomp text, rfl, by cases kind <;> decide, by cases kind <;> decide⟩
  | unterminated =>
    obtain ⟨rest, he, -⟩ := unterminatedMark_eq
    exact ⟨'\\', rest, he, by decide, by decide⟩
  | _ => cases h

/-- the lines as the loop gets them -/
def readLines (ts : List Token) : List Text := ts.map fun t => (chompToken t).line

theorem scan_inHunk (hrest : Fresh a rest) {ts : List Token} (hts : ∀ t ∈ ts, InHunk t) :
    Fresh a (readLines ts ++ rest) ∧ scan a none none (readLines ts ++ rest) = scan a none none rest := by
  have hscan : ∀ oldPath newPath, scan a oldPath newPath (readLines ts ++ rest) = scan a none none rest := by
    induction ts with
    | nil => exact hrest
    | cons t ts ih =>
      obtain ⟨ht, hts⟩ := List.forall_mem_cons.mp hts
      obtain ⟨c, text, hline, hgit, hhunk⟩ := inHunk_line ht
      intro oldPath newPath
      obtain ⟨oldPath', newPath', hstep⟩ := @scan_body a c text hgit hhunk oldPath newPath (readLines ts ++ rest)
      show scan a oldPath newPath ((chompToken t).line :: (readLines ts ++ rest)) = _
      rw [hline, hstep, ih hts]
  exact ⟨fun oldPath newPath => (hscan oldPath newPath).trans (hscan none none).symm, hscan none none⟩

theorem scan_extended {extended : List Text} (h : ∀ line ∈ extended, Quiet line) (oldPath newPath : Option Text)
    (rest : List Text) :
    scan a oldPath newPath (readLines (extended.map .extended) ++ rest) = scan a oldPath newPath rest := by
  induction extended with
  | nil => rfl
  | cons line extended ih =>
    obtain ⟨hline, hextended⟩ := List.forall_mem_cons.mp h
    show scan a oldPath newPath (chomp line :: (readLines (extended.map .extended) ++ rest)) = _
    rw [scan_quiet (quiet_chomp hline), ih hextended]

theorem scan_header {extended : List Text} (h : ∀ line ∈ extended, Quiet line) (path : Text)
    (oldPath newPath : Option Text) (rest : List Text) :
    scan a oldPath newPath (readLines (headerTokens path extended) ++ rest) = scan a none none rest := by
  show scan a oldPath newPath ((gitMark ++ chomp _) :: (readLines (extended.map .extended) ++ rest)) = _
  rw [scan_git, scan_extended h]

theorem inHunk_iff {candidate : Option Text} {first count : Nat} : a.inHunk candidate first count = true ↔
    candidate = some a.path ∧ count ≠ 0 ∧ first + (count - 1) ≤ u32Max ∧ first ≤ a.startLine ∧
      a.endLine ≤ first + (count - 1) := by
  unfold Anchor.inHunk checkedAdd32
  split
  · rename_i h
    constructor
    · exact fun hf => (nomatch hf)
    · rintro ⟨hc, h0, -⟩
      exact (h.elim (fun hne => hne hc) h0).elim
  · rename_i h
    obtain ⟨hc, h0⟩ := not_or.mp h
    rw [not_not] at hc
    by_cases hfits : first + (count - 1) ≤ u32Max
    · rw [if_pos hfits]
      simp [hc, h0, hfits]
    · rw [if_neg hfits]
      simp [hfits]

theorem inHunk_whole {ls : List Line} {r : Range} {content : Option Text} {c : Char} {path : Text}
    (h : Whole ls r (content.getD [])) (hc : c = 'a' ∨ c = 'b') (hfits : r.count ≤ u32Max)
    (hstart : 1 ≤ a.startLine) (hend : a.startLine ≤ a.endLine) :
    a.inHunk (patchPath (label c path content)) r.start r.count = true ↔
      path = a.path ∧ ∃ text, content = some text ∧ a.endLine ≤ (lines text).length := by
  have hlines := h.lines
  rw [inHunk_iff, patchPath_label hc, h.start]
  cases content with
  | none =>
    have hzero : r.count = 0 := hlines.symm.trans rfl
    simp [hzero]
  | some text =>
    replace hlines : (lines text).length = r.count := hlines
    simp only [Option.isSome_some, if_true, Option.some.injEq, exists_eq_left', hlines]
    refine and_congr_right fun _ => ?_
    by_cases hzero : r.count = 0
    · simp only [hzero, if_true]
      omega
    · simp only [if_neg hzero]
      omega

def Has (a : Anchor) (c : Change) : Prop :=
  c.path = a.path ∧ ∃ content, c.content a.side = some content ∧ a.endLine ≤ (lines content).length

theorem length_lineTokens (ls : List Line) : ls.length ≤ (lineTokens ls).length := by
  induction ls with
  | nil => exact Nat.le_refl _
  | cons l ls ih =>
    rw [lineTokens_cons, List.length_append, List.length_cons, Line.tokens, List.length_cons]
    omega

theorem inHunk_tokens (ls : List Line) : ∀ t ∈ lineTokens ls, InHunk t := by
  intro t ht
  obtain ⟨l, -, ht⟩ := List.mem_flatMap.mp ht
  rcases List.mem_cons.mp ht with rfl | ht
  · trivial
  · split at ht
    · rw [List.mem_singleton.mp ht]
      trivial
    · cases ht

theorem scan_lines {path : Text} {old new : Option Text} {h : Hunk}
    (hfull : FullContext h (old.getD []) (new.getD [])) (hsmall : h.lines.length ≤ u32Max)
    (hstart : 1 ≤ a.startLine) (hend : a.startLine ≤ a.endLine) (hrest : Fresh a rest) :
    scan a none none (readLines (.oldName (label 'a' path old) :: .newName (label 'b' path new) :: h.tokens) ++ rest) =
        true ↔
      (path = a.path ∧ ∃ content, (match a.side with | .additions => new | .deletions => old) = some content ∧
        a.endLine ≤ (lines content).length) ∨ scan a none none rest = true := by
  have hchomp : ∀ (c : Char) (content : Option Text), chomp (label c path content) = label c path content := by
    intro c content
    refine chomp_of_ne fun he => ?_
    have hm := List.mem_of_getLast? he
    unfold label at hm
    split at hm
    · rcases List.mem_append.mp hm with hm | hm
      · exact control_not_mem (by decide) _ hm
      · split at hm
        · cases List.mem_singleton.mp hm
        · cases hm
    · exact absurd hm (by decide)
  have hcount : ∀ {r : Range} {p : Line → Bool} {content : Text}, Whole (h.lines.filter p) r content →
      r.count ≤ u32Max := by
    intro r p content hw
    rw [hw.count]
    exact (List.length_filter_le p h.lines).trans hsmall
  have hone : ∀ {r : Range} {p : Line → Bool} {content : Text}, Whole (h.lines.filter p) r content →
      r.start ≤ u32Max := by
    intro r p content hw
    rw [hw.start]
    split <;> decide
  show scan a none none ((oldMark ++ chomp (label 'a' path old)) :: (newMark ++ chomp (label 'b' path new)) ::
    hunkHeader h.old h.new (chomp h.heading) :: (readLines (lineTokens h.lines) ++ rest)) = true ↔ _
  rw [hchomp, hchomp, scan_old, scan_new, scan_hunk _ _ _ _ ⟨hone hfull.old, hcount hfull.old⟩
    ⟨hone hfull.new, hcount hfull.new⟩, Bool.or_eq_true]
  obtain ⟨hfresh, hbody⟩ := scan_inHunk hrest (inHunk_tokens h.lines)
  rw [hfresh, hbody]
  refine or_congr_left ?_
  cases a.side with
  | additions => exact inHunk_whole hfull.new (.inr rfl) (hcount hfull.new) hstart hend
  | deletions => exact inHunk_whole hfull.old (.inl rfl) (hcount hfull.old) hstart hend

theorem scan_written {c : Change} {ts : List Token} (h : Written c ts) (hsmall : ts.length ≤ u32Max)
    (hstart : 1 ≤ a.startLine) (hend : a.startLine ≤ a.endLine) (hrest : Fresh a rest) :
    Fresh a (readLines ts ++ rest) ∧
      (scan a none none (readLines ts ++ rest) = true ↔ Has a c ∨ scan a none none rest = true) := by
  have hheader : ∀ {path : Text} {extended : List Text} (quiet : ∀ line ∈ extended, Quiet line) (tail : List Text),
      Fresh a (readLines (headerTokens path extended) ++ tail) := by
    intro path extended quiet tail oldPath newPath
    rw [scan_header quiet, scan_header quiet]
  cases h with
  | @lines path old new changed extended h quiet full nonempty =>
    have hread : ∀ ts : List Token, readLines (headerTokens path extended ++ ts) ++ rest =
        readLines (headerTokens path extended) ++ (readLines ts ++ rest) := by
      intro ts
      rw [readLines, List.map_append, List.append_assoc]
      rfl
    rw [hread, scan_header quiet]
    refine ⟨hheader quiet _, ?_⟩
    have hlines : h.lines.length ≤ u32Max := by
      have hlen := length_lineTokens h.lines
      rw [List.length_append, List.length_cons, List.length_cons, Hunk.tokens, List.length_cons] at hsmall
      omega
    exact scan_lines full hlines hstart hend hrest
  | @empty path old new changed extended quiet old_empty new_empty =>
    rw [scan_header quiet]
    refine ⟨hheader quiet _, ?_⟩
    rw [iff_or_self]
    rintro ⟨-, content, hcontent, hle⟩
    have hempty : content = [] := by
      cases hside : a.side with
      | additions =>
        rw [hside] at hcontent
        rw [show new = some content from hcontent] at new_empty
        exact new_empty
      | deletions =>
        rw [hside] at hcontent
        rw [show old = some content from hcontent] at old_empty
        exact old_empty
    rw [hempty] at hle
    exact absurd (hstart.trans (hend.trans hle)) (by decide)
  | @other path extended quiet =>
    rw [scan_header quiet]
    refine ⟨hheader quiet _, ?_⟩
    rw [iff_or_self]
    rintro ⟨-, content, hcontent, -⟩
    cases hcontent

theorem scan_patch {changes : List Change} {sections : List (List Token)} (h : List.Forall₂ Written changes sections)
    (hsmall : sections.flatten.length ≤ u32Max) (hstart : 1 ≤ a.startLine) (hend : a.startLine ≤ a.endLine) :
    Fresh a (readLines sections.flatten) ∧
      (scan a none none (readLines sections.flatten) = true ↔ ∃ c ∈ changes, Has a c) := by
  induction h with
  | nil => exact ⟨fun _ _ => rfl, by simp [readLines, scan]⟩
  | @cons c ts changes sections hc _ ih =>
    rw [List.flatten_cons, List.length_append] at hsmall
    obtain ⟨hfresh, hiff⟩ := ih (by omega)
    have hread : readLines (List.flatten (ts :: sections)) = readLines ts ++ readLines sections.flatten := by
      rw [List.flatten_cons, readLines, List.map_append]
      rfl
    obtain ⟨hfresh', hiff'⟩ := scan_written hc (by omega) hstart hend hfresh
    rw [hread]
    refine ⟨hfresh', ?_⟩
    rw [hiff', hiff]
    simp

end

/-! ## the patch -/

theorem headerTokens_oneLine {extended : List Text} (h : ∀ line ∈ extended, Quiet line) (path : Text) :
    ∀ t ∈ headerTokens path extended, '\n' ∉ t.line := by
  intro t ht
  rcases List.mem_cons.mp ht with rfl | ht
  · have hquoted : ∀ name : Text, '\n' ∉ quoted name := fun name => control_not_mem (by decide) name
    show '\n' ∉ gitMark ++ _
    simp [gitMark, hquoted]
  · obtain ⟨line, hline, rfl⟩ := List.mem_map.mp ht
    exact (h line hline).1

theorem label_oneLine (c : Char) (path : Text) (content : Option Text) : '\n' ∉ label c path content := by
  unfold label
  split
  · rw [List.mem_append, not_or]
    refine ⟨control_not_mem (by decide) _, ?_⟩
    split <;> decide
  · decide

theorem written_oneLine {c : Change} {ts : List Token} (h : Written c ts) : ∀ t ∈ ts, '\n' ∉ t.line := by
  cases h with
  | @lines path old new changed extended h quiet full nonempty =>
    intro t ht
    rcases List.mem_append.mp ht with ht | ht
    · exact headerTokens_oneLine quiet path t ht
    · rcases List.mem_cons.mp ht with rfl | ht
      · show '\n' ∉ oldMark ++ _
        simp [oldMark, label_oneLine]
      · rcases List.mem_cons.mp ht with rfl | ht
        · show '\n' ∉ newMark ++ _
          simp [newMark, label_oneLine]
        · exact (h.single t ht).1
  | empty quiet _ _ => exact headerTokens_oneLine quiet _
  | other quiet => exact headerTokens_oneLine quiet _

theorem length_unlines (ls : List Text) : ls.length ≤ (unlines ls).length := by
  induction ls with
  | nil => exact Nat.le_refl _
  | cons line ls ih =>
    rw [unlines_cons, List.length_append, List.length_cons, List.length_cons]
    omega

/-- a comment can stand exactly at the lines of the texts that changed -/
theorem anchors_exact {changes : List Change} {patch : Text} (h : Patch changes patch)
    (hsize : (utf8 patch).length ≤ maxPatchBytes) (path : Text) (side : PatchSide) (startLine endLine : Nat) :
    containsAnchor patch path side startLine endLine = true ↔
      ∃ c ∈ changes, c.path = path ∧ ∃ content, c.content side = some content ∧
        1 ≤ startLine ∧ startLine ≤ endLine ∧ endLine ≤ (lines content).length := by
  obtain ⟨sections, hwritten, rfl⟩ := h
  have hone : ∀ line ∈ sections.flatten.map Token.line, '\n' ∉ line := by
    intro line hline
    obtain ⟨t, ht, rfl⟩ := List.mem_map.mp hline
    obtain ⟨ts, hts, ht⟩ := List.mem_flatten.mp ht
    obtain ⟨i, hi, rfl⟩ := List.mem_iff_getElem.mp hts
    exact written_oneLine (hwritten.get (hwritten.length_eq ▸ hi) hi) t ht
  have hlines : lines (unlines (sections.flatten.map Token.line)) = readLines sections.flatten := by
    rw [lines_unlines hone, List.map_map]
    exact List.map_congr_left fun t _ => (chompToken_line t).symm
  have hsmall : sections.flatten.length ≤ u32Max := by
    have hlen := length_unlines (sections.flatten.map Token.line)
    rw [List.length_map] at hlen
    have hbytes := length_le_utf8Length (unlines (sections.flatten.map Token.line))
    rw [← length_utf8] at hbytes
    exact hlen.trans (hbytes.trans (hsize.trans (by decide)))
  unfold containsAnchor
  split
  · rename_i hrange
    constructor
    · exact fun hf => (nomatch hf)
    · rintro ⟨c, -, -, content, -, h1, h2, -⟩
      omega
  · rename_i hrange
    rw [not_or] at hrange
    have hstart : 1 ≤ startLine := by omega
    have hend : startLine ≤ endLine := by omega
    rw [hlines, (@scan_patch ⟨path, side, startLine, endLine⟩ changes sections hwritten hsmall hstart hend).2]
    simp only [Has, hstart, hend, true_and]

namespace AnchorSample

/-- a new file with one line, whose name has a letter that is quoted and a space -/
def added : Change := .text ['é', ' ', 'b'] none (some ['x', '\n']) nofun

def addedHunk : Hunk where
  old := ⟨0, 0, false, nofun⟩
  new := ⟨1, 1, true, fun _ => rfl⟩
  heading := []
  lines := [⟨.addition, ['x'], false, by decide⟩]
  oneLine := by decide
  old_count := rfl
  new_count := rfl

def addedTokens : List Token :=
  headerTokens ['é', ' ', 'b'] ["new file mode 100644".toList] ++
    .oldName (label 'a' ['é', ' ', 'b'] none) :: .newName (label 'b' ['é', ' ', 'b'] (some ['x', '\n'])) ::
      addedHunk.tokens

def addedPatch : Text := unlines (addedTokens.map Token.line)

theorem addedFull : FullContext addedHunk [] ['x', '\n'] where
  old := ⟨rfl, ⟨nofun, nofun⟩, rfl, rfl⟩
  new := ⟨rfl, ⟨nofun, by decide⟩, rfl, rfl⟩

theorem added_patch : Patch [added] addedPatch := by
  have hquiet : ∀ line ∈ ["new file mode 100644".toList], Quiet line := by
    intro line hline
    rw [List.mem_singleton.mp hline]
    simp [Quiet, gitMark, oldMark, newMark]
  exact ⟨[addedTokens], .cons (.lines hquiet addedFull (List.cons_ne_nil _ _)) .nil, by simp [addedPatch]⟩

end AnchorSample

open AnchorSample

theorem anchors_exact_added : containsAnchor addedPatch ['é', ' ', 'b'] .additions 1 1 = true ↔
    ∃ c ∈ [added], c.path = ['é', ' ', 'b'] ∧ ∃ content, c.content .additions = some content ∧
      1 ≤ 1 ∧ 1 ≤ 1 ∧ 1 ≤ (lines content).length :=
  anchors_exact added_patch (by decide) _ _ _ _

end Orvek.Review
