import Orvek.Lib.UnifiedDiff
import Orvek.Text

/-!
# The diff that the transcript shows

`parse` reads a diff line by line, in the unified format or in that of `apply_patch`, and tells
headers from content by how a line begins:

* `Reader`, `step`   the state of the loop and one line of it;
* `parse`            the files with hunks, each line with its numbers;
* `heard`            the line that the loop takes a line of a unified diff for;
* `rowsOf`           what is read of the lines, by files and hunks;
* `parse_shows`      for which unified diffs the reading is the diff.
-/

set_option linter.unusedSectionVars false

namespace Orvek.Tui.Diff
open Texts UnifiedDiff

variable {c : Char} {l : Text} {t : Token} {old new : Nat} (ts : List Token)

abbrev DiffLineKind : Type := Kind

structure DiffLine where
  kind : DiffLineKind
  text : Text
  oldLine : Option Nat
  newLine : Option Nat
  deriving DecidableEq

/-- the next numbers on the old and on the new side -/
abbrev Marks : Type := Option Nat × Option Nat

structure Hunk where
  heading : Text
  lines : List DiffLine
  nextOldLine : Option Nat
  nextNewLine : Option Nat
  relativeLines : Bool

def Hunk.default : Hunk := ⟨[], [], some 1, some 1, true⟩

def Hunk.marks (h : Hunk) : Marks := (h.nextOldLine, h.nextNewLine)

structure FileDiff where
  path : Text
  hunks : List Hunk

/-! ## one line -/

def trim (l : Text) : Text := (l.dropWhile isWhitespace).rdropWhile isWhitespace

def starMark : Text := ['*', '*', '*', ' ']
def hunkMark : Text := ['@', '@']
def placeholder : Text := "diff".toList

def isBeginPatch (line : Text) : Bool := line = starMark ++ "Begin Patch".toList

def isEndPatch (line : Text) : Bool :=
  line = starMark ++ "End Patch".toList || line = starMark ++ "End of File".toList

def cleanPath (path : Text) : Option Text :=
  match (words (trim path)).head? with
  | none => none
  | some path =>
    if path = devNull then none
    else some ((stripPrefix ['a', '/'] path <|> stripPrefix ['b', '/'] path).getD path)

def gitPath (line : Text) : Option Text := do
  let paths ← stripPrefix gitMark line
  let path ← (words paths)[1]?
  cleanPath path

def patchPath (line : Text) : Option Text :=
  ["Add File: ", "Update File: ", "Delete File: ", "Move to: "].findSome? fun name : String =>
    stripPrefix (starMark ++ name.toList) line

/-- the text between the at signs of a hunk header, and what follows them -/
def hunkBody (line : Text) : Text := trim (line.dropWhile (· = '@'))

def parseHunkHeading (line : Text) : Text :=
  let body := hunkBody line
  let (ranges, context) := match splitOnceAt hunkMark body with
    | some (ranges, context) => (trim ranges, trim context)
    | none => (body, [])
  let tokens := words ranges
  let old := tokens[0]?.filter fun range => range.head? = some '-'
  let new := tokens[1]?.filter fun range => range.head? = some '+'
  match old, new with
  | some old, some new =>
    if context = [] then old ++ " → ".toList ++ new
    else old ++ " → ".toList ++ new ++ " · ".toList ++ context
  | _, _ => body

def rangeStart (range : Text) (mark : Char) : Option Nat := do
  let range ← stripPrefix [mark] range
  parseUnsigned u64Max (range.takeWhile (· ≠ ','))

def hunkStarts (line : Text) : Marks :=
  let body := hunkBody line
  let ranges := match splitOnceAt hunkMark body with
    | some (ranges, _) => ranges
    | none => body
  let tokens := words ranges
  (tokens[0]?.bind (rangeStart · '-'), tokens[1]?.bind (rangeStart · '+'))

def diffLine : Text → Option (DiffLineKind × Text)
  | '+' :: line => some (.addition, line)
  | '-' :: line => some (.deletion, line)
  | ' ' :: line => some (.context, line)
  | line => if unterminatedMark <+: line then none else some (.context, line)

def metadataPrefixes : List String :=
  ["index ", "new file mode ", "deleted file mode ", "old mode ", "new mode ", "similarity index ",
    "dissimilarity index ", "rename from ", "rename to ", "copy from ", "copy to ", "Binary files "]

def isDiffMetadata (line : Text) : Bool := metadataPrefixes.any fun start => decide (start.toList <+: line)

def takenBy (kind : DiffLineKind) (m : Marks) : Marks :=
  (if kind.isOld then m.1 else none, if kind.isNew then m.2 else none)

def Hunk.takeLineNumbers (h : Hunk) (kind : DiffLineKind) : Marks × Hunk :=
  (takenBy kind h.marks,
    { h with
      nextOldLine := if kind.isOld then h.nextOldLine.map (satAdd64 · 1) else h.nextOldLine
      nextNewLine := if kind.isNew then h.nextNewLine.map (satAdd64 · 1) else h.nextNewLine })

/-! ## the loop -/

structure Reader where
  files : List FileDiff
  currentFile : Option Nat
  currentHunk : Option Nat
  oldPath : Option Text
  applyPatchFormat : Bool

namespace Reader
variable (r : Reader)

def start : Reader := ⟨[], none, none, none, false⟩

def hunkCount (files : List FileDiff) (file : Nat) : Nat := (files[file]?.map (·.hunks.length)).getD 0

def pushFile (path : Text) : Reader :=
  { r with files := r.files ++ [⟨path, []⟩], currentFile := some r.files.length }

def ensureFile : Reader × Nat :=
  match r.currentFile with
  | some index => (r, index)
  | none => (r.pushFile placeholder, r.files.length)

/-- a header that names the file -/
def openFile (path : Text) : Reader := { r.pushFile path with currentHunk := none, oldPath := none }

def readOldName (path : Text) : Reader :=
  let r := if r.currentFile.any fun file => hunkCount r.files file ≠ 0
    then { r with currentFile := none, currentHunk := none } else r
  { r with oldPath := cleanPath path }

def readNewName (path : Text) : Reader :=
  let (path, oldPath) := match cleanPath path with
    | some path => (some path, r.oldPath)
    | none => (r.oldPath, none)
  let r := { r with oldPath }
  match r.currentFile, path with
  | none, some path => r.pushFile path
  | _, _ => r

def pushHunk (file : Nat) (hunk : Hunk) : Reader :=
  { r with
    files := r.files.modify file fun f => { f with hunks := f.hunks ++ [hunk] }
    currentHunk := some (hunkCount r.files file) }

def readHunk (line : Text) : Reader :=
  let (r, file) := r.ensureFile
  let (oldStart, newStart) := hunkStarts line
  let relativeLines := oldStart.isNone && newStart.isNone
  let first : Option Nat := if relativeLines then some 1 else none
  r.pushHunk file ⟨parseHunkHeading line, [], oldStart <|> first, newStart <|> first, relativeLines⟩

def addLine (kind : DiffLineKind) (text : Text) (hunk : Hunk) : Hunk :=
  let (numbers, hunk) := hunk.takeLineNumbers kind
  { hunk with lines := hunk.lines ++ [⟨kind, text, numbers.1, numbers.2⟩] }

def readLine (kind : DiffLineKind) (text : Text) : Reader :=
  let (r, file) := r.ensureFile
  let r := if r.currentHunk.isNone then r.pushHunk file .default else r
  { r with files := r.files.modify file fun f =>
      { f with hunks := f.hunks.modify (r.currentHunk.getD 0) (addLine kind text) } }

def step (line : Text) : Reader :=
  if isBeginPatch line then { r with applyPatchFormat := true }
  else if isEndPatch line then r
  else match gitPath line with
  | some path => r.openFile path
  | none =>
    match patchPath line with
    | some path => { r.openFile path with applyPatchFormat := true }
    | none =>
      match if r.applyPatchFormat then none else stripPrefix oldMark line with
      | some path => r.readOldName path
      | none =>
        match if r.applyPatchFormat then none else stripPrefix newMark line with
        | some path => r.readNewName path
        | none =>
          if hunkMark <+: line then r.readHunk line
          else if isDiffMetadata line then r
          else match diffLine line with
          | none => r
          | some (kind, text) => r.readLine kind text

end Reader

def parse (source : Text) : List FileDiff :=
  let r := (lines (source.rdropWhile (· = '\n'))).foldl Reader.step .start
  let files := if r.files = [] then [⟨placeholder, [.default]⟩] else r.files
  files.filter fun file => file.hunks ≠ []

def changeCounts (ls : List DiffLine) : Nat × Nat :=
  ls.foldl (fun counts line => match line.kind with
    | .addition => (counts.1 + 1, counts.2)
    | .deletion => (counts.1, counts.2 + 1)
    | .context => counts) (0, 0)

/-! ## what a diff says -/

/-- the lines of a hunk with their numbers, from the first ones on -/
def numbered : Nat → Nat → List Line → List DiffLine
  | _, _, [] => []
  | old, new, l :: ls =>
    ⟨l.kind, l.text, if l.kind.isOld then some old else none, if l.kind.isNew then some new else none⟩ ::
      numbered (if l.kind.isOld then old + 1 else old) (if l.kind.isNew then new + 1 else new) ls

def withHunks (files : List File) : List File := files.filter (·.hunks ≠ [])

def shown (files : List File) : List (List (List DiffLine)) :=
  (withHunks files).map fun f => f.hunks.map fun h => numbered h.old.start h.new.start h.lines

def changes (kind : Kind) (f : File) : Nat := (f.hunks.flatMap (·.lines)).countP (·.kind = kind)

/-- the text of a diff, with any number of line feeds at its end -/
def diffText (files : List File) (newlines : Nat) : Text :=
  ['\n'].intercalate ((fileTokens files).map Token.line) ++ List.replicate newlines '\n'

/-- the transcript shows the files with hunks, their lines with the numbers of the hunk headers, and
how many were added and deleted -/
structure Shows (files : List File) (source : Text) : Prop where
  lines : (parse source).map (fun f => f.hunks.map (·.lines)) = shown files
  counts : (parse source).map (fun f => changeCounts (f.hunks.flatMap (·.lines))) =
    (withHunks files).map fun f => (changes .addition f, changes .deletion f)

def DiffLine.Fits (l : DiffLine) : Prop :=
  (∀ n, l.oldLine = some n → n ≤ u64Max) ∧ ∀ n, l.newLine = some n → n ≤ u64Max

/-- no line of the diff is taken for another one -/
structure Readable (files : List File) : Prop where
  nonempty : files ≠ []
  names : ∀ names, Token.git names ∈ fileTokens files → (gitPath (gitMark ++ names)).isSome = true
  deletions : ∀ text, Token.body .deletion text ∈ fileTokens files → ¬ ['-', '-', ' '] <+: text
  additions : ∀ text, Token.body .addition text ∈ fileTokens files → ¬ ['+', '+', ' '] <+: text
  returns : ∀ kind text, Token.body kind text ∈ (fileTokens files).dropLast → text.getLast? ≠ some '\r'
  numbers : ∀ l ∈ linesOf (shown files), l.Fits

/-! ## how a line is taken -/

def heard : Token → Token
  | .git names =>
    if (gitPath (gitMark ++ names)).isSome then .git names else .body .context (gitMark ++ names)
  | .body .deletion text =>
    match stripPrefix ['-', '-', ' '] text with
    | some path => .oldName path
    | none => .body .deletion text
  | .body .addition text =>
    match stripPrefix ['+', '+', ' '] text with
    | some path => .newName path
    | none => .body .addition text
  | t => t

/-- the lines of Git that the loop knows are the ones that Git writes -/
def Known : Token → Prop
  | .extended line => Extended line
  | _ => True

theorem isDiffMetadata_of_extended {line : Text} (h : Extended line) : isDiffMetadata line = true := by
  obtain ⟨keyword, hk, hp⟩ := h
  exact List.any_eq_true.mpr ⟨keyword, hk, by simpa using hp⟩

theorem not_begin (h : c ≠ '*') : isBeginPatch (c :: l) = false := by
  rw [isBeginPatch, decide_eq_false_iff_not]
  exact fun he => h (List.cons.inj he).1

theorem not_end (h : c ≠ '*') : isEndPatch (c :: l) = false := by
  rw [isEndPatch, Bool.or_eq_false_iff, decide_eq_false_iff_not, decide_eq_false_iff_not]
  exact ⟨fun he => h (List.cons.inj he).1, fun he => h (List.cons.inj he).1⟩

theorem patchPath_none (h : c ≠ '*') : patchPath (c :: l) = none := by
  rw [patchPath, List.findSome?_eq_none_iff]
  intro name _
  show (if '*' = c then _ else none) = none
  rw [if_neg (Ne.symm h)]

theorem not_hunk (h : c ≠ '@') : ¬ hunkMark <+: c :: l :=
  fun hp => h (List.cons_prefix_cons.mp hp).1.symm

theorem not_unterminated (h : c ≠ '\\') : ¬ unterminatedMark <+: c :: l :=
  fun hp => h (List.cons_prefix_cons.mp hp).1.symm

theorem gitPath_none (h : c ≠ 'd') : gitPath (c :: l) = none := by
  show (stripPrefix gitMark (c :: l)).bind _ = none
  rw [show stripPrefix gitMark (c :: l) = none from if_neg (Ne.symm h)]
  rfl

section
variable {r : Reader}

theorem step_rest (hr : r.applyPatchFormat = false) {c : Char} {l : Text} (hstar : c ≠ '*')
    (hgit : gitPath (c :: l) = none) :
    r.step (c :: l) =
      match stripPrefix oldMark (c :: l) with
      | some path => r.readOldName path
      | none =>
        match stripPrefix newMark (c :: l) with
        | some path => r.readNewName path
        | none =>
          if hunkMark <+: c :: l then r.readHunk (c :: l)
          else if isDiffMetadata (c :: l) then r
          else match diffLine (c :: l) with
          | none => r
          | some (kind, text) => r.readLine kind text := by
  rw [Reader.step, not_begin hstar, not_end hstar, if_neg Bool.false_ne_true, if_neg Bool.false_ne_true,
    hgit, patchPath_none hstar, hr]
  rfl

theorem step_git {names path : Text} (h : gitPath (gitMark ++ names) = some path) :
    r.step (gitMark ++ names) = r.openFile path := by
  have hbegin : isBeginPatch (gitMark ++ names) = false := not_begin (by decide)
  have hend : isEndPatch (gitMark ++ names) = false := not_end (by decide)
  rw [Reader.step, hbegin, hend, if_neg Bool.false_ne_true, if_neg Bool.false_ne_true, h]

theorem keyword_spec : ∀ keyword ∈ keywords, ∃ c rest, keyword.toList = c :: rest ∧
    c ∉ ['*', '-', '+', '@', ' '] ∧ stripPrefix gitMark keyword.toList = none ∧
    stripPrefix keyword.toList gitMark = none := by
  intro keyword hk
  simp only [keywords, List.mem_cons, List.not_mem_nil, or_false] at hk
  rcases hk with rfl | rfl | rfl | rfl | rfl | rfl | rfl | rfl | rfl | rfl | rfl | rfl <;>
    exact ⟨_, _, rfl, by decide, by simp [gitMark, stripPrefix], by simp [gitMark, stripPrefix]⟩

theorem step_extended (hr : r.applyPatchFormat = false) {line : Text} (h : Extended line) :
    r.step line = r := by
  have hmeta := isDiffMetadata_of_extended h
  obtain ⟨keyword, hk, rest, rfl⟩ := h
  obtain ⟨c, k, he, hc, hgit, hgit'⟩ := keyword_spec keyword hk
  simp only [List.mem_cons, List.not_mem_nil, or_false, not_or] at hc
  obtain ⟨hstar, hminus, hplus, hat, -⟩ := hc
  have hpath : gitPath (keyword.toList ++ rest) = none := by
    rw [gitPath, stripPrefix_none.mpr]
    · rfl
    · intro hp
      rcases List.prefix_or_prefix_of_prefix hp (List.prefix_append keyword.toList rest) with hp | hp
      · exact stripPrefix_none.mp hgit hp
      · exact stripPrefix_none.mp hgit' hp
  rw [he, List.cons_append] at hpath hmeta ⊢
  rw [step_rest hr hstar hpath, show stripPrefix oldMark (c :: (k ++ rest)) = none from if_neg (Ne.symm hminus),
    show stripPrefix newMark (c :: (k ++ rest)) = none from if_neg (Ne.symm hplus)]
  simp only
  rw [if_neg (not_hunk hat), if_pos hmeta]

theorem step_oldName (hr : r.applyPatchFormat = false) (path : Text) :
    r.step (oldMark ++ path) = r.readOldName path := by
  show r.step ('-' :: ('-' :: '-' :: ' ' :: path)) = _
  rw [step_rest hr (by decide) (gitPath_none (by decide))]
  rfl

theorem step_newName (hr : r.applyPatchFormat = false) (path : Text) :
    r.step (newMark ++ path) = r.readNewName path := by
  show r.step ('+' :: ('+' :: '+' :: ' ' :: path)) = _
  rw [step_rest hr (by decide) (gitPath_none (by decide))]
  rfl

theorem step_hunk (hr : r.applyPatchFormat = false) (old new : Range) (heading : Text) :
    r.step (hunkHeader old new heading) = r.readHunk (hunkHeader old new heading) := by
  obtain ⟨rest, hrest⟩ : ∃ rest, hunkHeader old new heading = '@' :: '@' :: rest := ⟨_, rfl⟩
  rw [hrest, step_rest hr (by decide) (gitPath_none (by decide))]
  show (if hunkMark <+: _ then _ else _) = _
  rw [if_pos ⟨rest, rfl⟩]

attribute [grind =] isDiffMetadata

theorem not_metadata {c : Char} (hc : c ∈ ['*', '-', '+', '@', ' ']) (text : Text) :
    isDiffMetadata (c :: text) = false := by
  rw [isDiffMetadata, List.any_eq_false]
  intro keyword hk hp
  obtain ⟨d, k, he, hd, -⟩ := keyword_spec keyword hk
  rw [he, decide_eq_true_eq, List.cons_prefix_cons] at hp
  exact hd (hp.1 ▸ hc)

theorem step_body (hr : r.applyPatchFormat = false) {kind : Kind} {text : Text}
    (h : heard (.body kind text) = .body kind text) :
    r.step (kind.mark :: text) = r.readLine kind text := by
  cases kind with
  | context =>
    show r.step (' ' :: text) = _
    rw [step_rest hr (by decide) (gitPath_none (by decide))]
    show (if hunkMark <+: ' ' :: text then _ else _) = _
    rw [if_neg (not_hunk (by decide)), not_metadata (by decide), if_neg Bool.false_ne_true]
    rfl
  | deletion =>
    have hnone : stripPrefix ['-', '-', ' '] text = none := by
      cases hs : stripPrefix ['-', '-', ' '] text with
      | none => rfl
      | some path => simp [heard, hs] at h
    show r.step ('-' :: text) = _
    rw [step_rest hr (by decide) (gitPath_none (by decide)),
      show stripPrefix oldMark ('-' :: text) = none from hnone]
    show (if hunkMark <+: '-' :: text then _ else _) = _
    rw [if_neg (not_hunk (by decide)), not_metadata (by decide), if_neg Bool.false_ne_true]
    rfl
  | addition =>
    have hnone : stripPrefix ['+', '+', ' '] text = none := by
      cases hs : stripPrefix ['+', '+', ' '] text with
      | none => rfl
      | some path => simp [heard, hs] at h
    show r.step ('+' :: text) = _
    rw [step_rest hr (by decide) (gitPath_none (by decide)),
      show stripPrefix newMark ('+' :: text) = none from hnone]
    show (if hunkMark <+: '+' :: text then _ else _) = _
    rw [if_neg (not_hunk (by decide)), not_metadata (by decide), if_neg Bool.false_ne_true]
    rfl

theorem step_unterminated (hr : r.applyPatchFormat = false) : r.step unterminatedMark = r := by
  obtain ⟨rest, he, -⟩ := unterminatedMark_eq
  have hline : diffLine unterminatedMark = none := by
    show (if unterminatedMark <+: unterminatedMark then none else some (Kind.context, unterminatedMark)) = none
    rw [if_pos List.prefix_rfl]
  have hmeta : isDiffMetadata unterminatedMark = false := by
    rw [isDiffMetadata, List.any_eq_false]
    simp only [metadataPrefixes, unterminatedMark]
    simp
  rw [he] at hline hmeta ⊢
  rw [step_rest hr (by decide) (gitPath_none (by decide)), hmeta, hline]
  show (if hunkMark <+: '\\' :: rest then _ else _) = _
  rw [if_neg (not_hunk (by decide)), if_neg Bool.false_ne_true]

theorem step_unnamed (hr : r.applyPatchFormat = false) {names : Text}
    (h : gitPath (gitMark ++ names) = none) :
    r.step (gitMark ++ names) = r.readLine .context (gitMark ++ names) := by
  obtain ⟨rest, he⟩ : ∃ rest, gitMark ++ names = 'd' :: 'i' :: 'f' :: rest := ⟨_, rfl⟩
  have hmeta : isDiffMetadata (gitMark ++ names) = false := by
    rw [isDiffMetadata, List.any_eq_false]
    intro keyword hk hp
    rw [decide_eq_true_eq] at hp
    obtain ⟨-, -, -, -, hgit, hgit'⟩ := keyword_spec keyword hk
    rcases List.prefix_or_prefix_of_prefix hp (List.prefix_append gitMark names) with hp | hp
    · exact stripPrefix_none.mp hgit' hp
    · exact stripPrefix_none.mp hgit hp
  have hline : diffLine (gitMark ++ names) = some (.context, gitMark ++ names) := by
    rw [he]
    show (if unterminatedMark <+: 'd' :: 'i' :: 'f' :: rest then none else some (Kind.context, _)) = _
    rw [if_neg (not_unterminated (by decide))]
  rw [he] at h hmeta hline ⊢
  rw [step_rest hr (by decide) h, hmeta, hline]
  show (if hunkMark <+: 'd' :: 'i' :: 'f' :: rest then _ else _) = _
  rw [if_neg (not_hunk (by decide)), if_neg Bool.false_ne_true]

end

/-! ## the numbers of a hunk header -/

/-- a number that a `u64` can hold -/
def fit (n : Nat) : Option Nat := if n ≤ u64Max then some n else none

theorem rdropWhile_append {a : Text} (hc : isWhitespace c = false) (b : Text) :
    ∃ t, (a ++ c :: b).rdropWhile isWhitespace = a ++ c :: t := by
  induction b using List.reverseRecOn with
  | nil =>
    refine ⟨[], ?_⟩
    rw [List.rdropWhile_concat_neg _ _ _ (by simp [hc])]
  | append_singleton b x ih =>
    by_cases hx : isWhitespace x = true
    · obtain ⟨t, ht⟩ := ih
      refine ⟨t, ?_⟩
      rw [← List.cons_append, ← List.append_assoc, List.rdropWhile_concat_pos _ _ _ hx, ht]
    · refine ⟨b ++ [x], ?_⟩
      rw [← List.cons_append, ← List.append_assoc, List.rdropWhile_concat_neg _ _ _ hx]

theorem hunkBody_header (old new : Range) (heading : Text) : ∃ t,
    hunkBody (hunkHeader old new heading) =
      ('-' :: old.text ++ ' ' :: ('+' :: new.text ++ [' '])) ++ (hunkMark ++ t) := by
  obtain ⟨t, ht⟩ := rdropWhile_append (c := '@') (by decide) (a := '-' :: old.text ++ ' ' ::
    ('+' :: new.text ++ [' ', '@'])) heading
  refine ⟨t, ?_⟩
  show List.rdropWhile isWhitespace ('-' :: (old.text ++ (' ' :: '+' :: (new.text ++ (' ' :: '@' :: '@' :: heading))))) = _
  simpa [hunkMark] using ht

theorem words_ranges (old new : Range) :
    words ('-' :: old.text ++ ' ' :: ('+' :: new.text ++ [' '])) = ['-' :: old.text, '+' :: new.text] := by
  have hrange : ∀ r : Range, ∀ x ∈ r.text, isAsciiWhitespace x = false := by
    intro r x hx
    have hne : ∀ y : Char, y.isDigit = false → y ≠ ',' → x ≠ y := by
      rintro y hy hc rfl
      exact range_ne hy hc hx
    simp only [isAsciiWhitespace, Bool.or_eq_false_iff, decide_eq_false_iff_not]
    exact ⟨⟨⟨⟨hne _ rfl (by decide), hne _ rfl (by decide)⟩, hne _ rfl (by decide)⟩,
      hne _ rfl (by decide)⟩, hne _ rfl (by decide)⟩
  have hmarked : ∀ (c : Char) (r : Range), isAsciiWhitespace c = false →
      ∀ x ∈ c :: r.text, isAsciiWhitespace x = false := by
    intro c r hc x hx
    rcases List.mem_cons.mp hx with rfl | hx
    · exact hc
    · exact hrange r x hx
  rw [words_word (List.cons_ne_nil _ _) (hmarked '-' old (by decide)) (by decide),
    words_word (List.cons_ne_nil _ _) (hmarked '+' new (by decide)) (by decide), words_nil]

theorem takeWhile_range (r : Range) : r.text.takeWhile (· ≠ ',') = Nat.toDigits 10 r.start := by
  have hdigits : ∀ c ∈ Nat.toDigits 10 r.start, decide (c ≠ ',') = true := fun c hc => by
    simpa using (Decimals.numeric_toDigits r.start).ne rfl c hc
  rw [Range.text, List.takeWhile_append_of_pos hdigits]
  split
  · rw [List.takeWhile_nil, List.append_nil]
  · rw [List.takeWhile_cons_of_neg (by simp), List.append_nil]

theorem rangeStart_text (r : Range) (mark : Char) : rangeStart (mark :: r.text) mark = fit r.start := by
  show (stripPrefix [mark] ([mark] ++ r.text)).bind _ = _
  rw [stripPrefix_append, Option.bind_some, takeWhile_range, parseUnsigned_toDigits]
  rfl

theorem hunkStarts_header (old new : Range) (heading : Text) :
    hunkStarts (hunkHeader old new heading) = (fit old.start, fit new.start) := by
  obtain ⟨t, ht⟩ := hunkBody_header old new heading
  have hat : '@' ∉ '-' :: old.text ++ ' ' :: ('+' :: new.text ++ [' ']) := by
    have hrange : ∀ r : Range, '@' ∉ r.text := fun r => range_ne rfl (by decide)
    simp [hrange]
  have hsplit : splitOnceAt hunkMark (hunkBody (hunkHeader old new heading)) =
      some ('-' :: old.text ++ ' ' :: ('+' :: new.text ++ [' ']), t) := by
    rw [ht]
    exact splitOnceAt_append hat
  simp only [hunkStarts, hsplit, words_ranges]
  show (rangeStart ('-' :: old.text) '-', rangeStart ('+' :: new.text) '+') = _
  rw [rangeStart_text, rangeStart_text]

/-! ## what is read of the lines -/

/-- the first numbers of a hunk, and the number after a number -/
structure Numbering where
  first : Nat → Nat → Marks
  next : Nat → Nat

def Numbering.advance (N : Numbering) (m : Marks) (kind : Kind) : Marks :=
  (if kind.isOld then m.1.map N.next else m.1, if kind.isNew then m.2.map N.next else m.2)

/-- as `step` counts -/
def counted : Numbering where
  first old new :=
    let first : Option Nat := if (fit old).isNone && (fit new).isNone then some 1 else none
    (fit old <|> first, fit new <|> first)
  next n := satAdd64 n 1

/-- as the headers say -/
def stated : Numbering where
  first old new := (some old, some new)
  next n := n + 1

def fresh : Marks := (some 1, some 1)

def lineAt (m : Marks) (kind : Kind) (text : Text) : DiffLine :=
  ⟨kind, text, (takenBy kind m).1, (takenBy kind m).2⟩

def rowsOf (N : Numbering) : Marks → List Token → List (Row DiffLine)
  | _, [] => []
  | _, .git _ :: ts => .file :: rowsOf N fresh ts
  | _, .oldName _ :: ts => .file :: rowsOf N fresh ts
  | _, .hunk old new _ :: ts => .hunk :: rowsOf N (N.first old.start new.start) ts
  | m, .body kind text :: ts => .line (lineAt m kind text) :: rowsOf N (N.advance m kind) ts
  | m, _ :: ts => rowsOf N m ts

def shownFiles (files : List FileDiff) : List (List (List DiffLine)) :=
  (files.filter (·.hunks ≠ [])).map fun f => f.hunks.map (·.lines)

theorem shownFiles_append (a b : List FileDiff) : shownFiles (a ++ b) = shownFiles a ++ shownFiles b := by
  rw [shownFiles, List.filter_append, List.map_append]
  rfl

theorem shownFiles_empty (path : Text) : shownFiles [⟨path, []⟩] = [] := rfl

/-- the state after some lines, and the rows that were read -/
inductive Reads : Reader → Groups DiffLine → Marks → Prop
  | outside {files : List FileDiff} {path : Option Text} :
      Reads ⟨files, none, none, path, false⟩ ⟨shownFiles files, []⟩ fresh
  | opened {files : List FileDiff} {name : Text} {path : Option Text} :
      Reads ⟨files ++ [⟨name, []⟩], some files.length, none, path, false⟩ ⟨shownFiles files, []⟩ fresh
  | inside {files : List FileDiff} {name : Text} {path : Option Text} {hunks : List Hunk} {h : Hunk} :
      Reads ⟨files ++ [⟨name, hunks ++ [h]⟩], some files.length, some hunks.length, path, false⟩
        ⟨shownFiles files, (hunks ++ [h]).map (·.lines)⟩ h.marks

namespace Reads
variable {r : Reader} {g : Groups DiffLine} {m : Marks}

theorem unified (h : Reads r g m) : r.applyPatchFormat = false := by
  cases h <;> rfl

theorem hunkCount_last (files : List FileDiff) (f : FileDiff) :
    Reader.hunkCount (files ++ [f]) files.length = f.hunks.length := by
  rw [Reader.hunkCount, List.getElem?_concat_length]
  rfl

theorem modify_last {α : Type} (l : List α) (a : α) (f : α → α) : (l ++ [a]).modify l.length f = l ++ [f a] := by
  rw [List.modify_eq_set_getElem?, List.getElem?_concat_length]
  simp

theorem shown (h : Reads r g m) : shownFiles r.files = g.result := by
  cases h with
  | outside => exact (List.append_nil _).symm
  | opened =>
    rw [shownFiles_append, shownFiles_empty]
    rfl
  | inside =>
    rw [shownFiles_append, Groups.result, if_neg (by simp)]
    simp [shownFiles]

theorem openFile (h : Reads r g m) (path : Text) : Reads (r.openFile path) (g.step .file) fresh := by
  show Reads ⟨r.files ++ [⟨path, []⟩], some r.files.length, none, none, r.applyPatchFormat⟩ ⟨g.result, []⟩ fresh
  rw [h.unified, ← h.shown]
  exact .opened

theorem readOldName (h : Reads r g m) (path : Text) : Reads (r.readOldName path) (g.step .file) fresh := by
  have hshown := h.shown
  show Reads _ ⟨g.result, []⟩ fresh
  rw [← hshown]
  cases h with
  | outside => exact .outside
  | @opened files name _ =>
    have hcount : (some files.length).any (fun file => decide
        (Reader.hunkCount (files ++ [⟨name, []⟩]) file ≠ 0)) = false := by
      rw [Option.any_some, hunkCount_last]
      rfl
    rw [Reader.readOldName]
    simp only [hcount, Bool.false_eq_true, if_false]
    rw [shownFiles_append, shownFiles_empty, List.append_nil]
    exact .opened
  | @inside files name _ hunks h =>
    have hcount : (some files.length).any (fun file => decide
        (Reader.hunkCount (files ++ [⟨name, hunks ++ [h]⟩]) file ≠ 0)) = true := by
      rw [Option.any_some, hunkCount_last]
      simp
    rw [Reader.readOldName]
    simp only [hcount, if_true]
    exact .outside

theorem readNewName (h : Reads r g m) (path : Text) : Reads (r.readNewName path) g m := by
  cases h with
  | outside =>
    unfold Reader.readNewName
    cases hp : cleanPath path with
    | some p => exact .opened
    | none =>
      rename_i files name
      cases name with
      | none => exact .outside
      | some p => exact .opened
  | opened =>
    unfold Reader.readNewName
    cases cleanPath path <;> exact .opened
  | inside =>
    unfold Reader.readNewName
    cases cleanPath path <;> exact .inside

attribute [grind =] Orvek.Tui.Diff.Reader.pushHunk

theorem pushHunk {files : List FileDiff} {name : Text} {hunks : List Hunk} {path : Option Text}
    {current : Option Nat} (h : Hunk) :
    Reader.pushHunk ⟨files ++ [⟨name, hunks⟩], some files.length, current, path, false⟩ files.length h =
      ⟨files ++ [⟨name, hunks ++ [h]⟩], some files.length, some hunks.length, path, false⟩ := by
  simp only [Reader.pushHunk, modify_last, hunkCount_last]

attribute [grind =] Orvek.Tui.Diff.Reader.ensureFile

theorem readHunk (h : Reads r g m) (old new : Range) (heading : Text) :
    Reads (r.readHunk (hunkHeader old new heading)) (g.step .hunk) (counted.first old.start new.start) := by
  have hempty : ∀ (files : List FileDiff) (name : Text) (path : Option Text) (current : Option Nat) (x : Hunk),
      x.lines = [] → Reads (Reader.pushHunk ⟨files ++ [⟨name, []⟩], some files.length, current, path, false⟩
        files.length x) ⟨shownFiles files, [[]]⟩ x.marks := by
    intro files name path current x hx
    rw [pushHunk, ← hx]
    exact @inside files name path [] x
  cases h with
  | outside =>
    simp only [Reader.readHunk, Reader.ensureFile, Reader.pushFile, hunkStarts_header]
    exact hempty _ _ _ _ _ rfl
  | opened =>
    simp only [Reader.readHunk, Reader.ensureFile, hunkStarts_header]
    exact hempty _ _ _ _ _ rfl
  | @inside files name path hunks h =>
    simp only [Reader.readHunk, Reader.ensureFile, hunkStarts_header]
    rw [pushHunk]
    show Reads _ ⟨_, (hunks ++ [h]).map (·.lines) ++ [[]]⟩ _
    have hread := @inside files name path (hunks ++ [h]) ⟨parseHunkHeading (hunkHeader old new heading), [],
      (counted.first old.start new.start).1, (counted.first old.start new.start).2,
      (fit old.start).isNone && (fit new.start).isNone⟩
    rw [List.map_append, List.map_singleton] at hread
    exact hread

theorem addLine {files : List FileDiff} {name : Text} {hunks : List Hunk} {h : Hunk} {path : Option Text}
    (kind : Kind) (text : Text) :
    Reads (Reader.readLine ⟨files ++ [⟨name, hunks ++ [h]⟩], some files.length, some hunks.length, path,
        false⟩ kind text)
      ⟨shownFiles files, Groups.addLine (lineAt h.marks kind text) ((hunks ++ [h]).map (·.lines))⟩
      (counted.advance h.marks kind) := by
  simp only [Reader.readLine, Reader.ensureFile, Option.isNone_some, Bool.false_eq_true, if_false,
    Option.getD_some, modify_last]
  rw [List.map_append, List.map_singleton, Groups.addLine_concat]
  have hread := @inside files name path hunks (Reader.addLine kind text h)
  rw [List.map_append, List.map_singleton] at hread
  exact hread

theorem firstLine {files : List FileDiff} {name : Text} {path : Option Text} (kind : Kind) (text : Text) :
    Reads (Reader.readLine ⟨files ++ [⟨name, []⟩], some files.length, none, path, false⟩ kind text)
      ⟨shownFiles files, [[lineAt fresh kind text]]⟩ (counted.advance fresh kind) := by
  have hsame : Reader.readLine ⟨files ++ [⟨name, []⟩], some files.length, none, path, false⟩ kind text =
      Reader.readLine ⟨files ++ [⟨name, [.default]⟩], some files.length, some 0, path, false⟩ kind text := by
    simp only [Reader.readLine, Reader.ensureFile, Option.isNone_none, if_true, pushHunk]
    rfl
  rw [hsame]
  exact @addLine files name [] .default path kind text

theorem readLine (h : Reads r g m) (kind : Kind) (text : Text) :
    Reads (r.readLine kind text) (g.step (.line (lineAt m kind text))) (counted.advance m kind) := by
  cases h with
  | @outside files path => exact @firstLine files placeholder path kind text
  | opened => exact firstLine kind text
  | inside => exact addLine kind text

theorem step {t : Token} (h : Reads r g m) (hk : Known t) : ∃ m', Reads (r.step t.line)
    ((rowsOf counted m [heard t]).foldl Groups.step g) m' ∧
      ∀ ts, rowsOf counted m (heard t :: ts) = rowsOf counted m [heard t] ++ rowsOf counted m' ts := by
  have hr := h.unified
  cases t with
  | git names =>
    show ∃ m', Reads (r.step (gitMark ++ names)) _ m' ∧ _
    rw [heard]
    cases hp : gitPath (gitMark ++ names) with
    | some path =>
      rw [step_git hp]
      exact ⟨fresh, h.openFile path, fun _ => rfl⟩
    | none =>
      rw [step_unnamed hr hp]
      exact ⟨_, h.readLine .context _, fun _ => rfl⟩
  | extended line =>
    show ∃ m', Reads (r.step line) _ m' ∧ _
    rw [step_extended hr hk]
    exact ⟨m, h, fun _ => rfl⟩
  | oldName path =>
    show ∃ m', Reads (r.step (oldMark ++ path)) _ m' ∧ _
    rw [step_oldName hr]
    exact ⟨fresh, h.readOldName path, fun _ => rfl⟩
  | newName path =>
    show ∃ m', Reads (r.step (newMark ++ path)) _ m' ∧ _
    rw [step_newName hr]
    exact ⟨m, h.readNewName path, fun _ => rfl⟩
  | hunk old new heading =>
    show ∃ m', Reads (r.step (hunkHeader old new heading)) _ m' ∧ _
    rw [step_hunk hr]
    exact ⟨_, h.readHunk old new heading, fun _ => rfl⟩
  | unterminated =>
    show ∃ m', Reads (r.step unterminatedMark) _ m' ∧ _
    rw [step_unterminated hr]
    exact ⟨m, h, fun _ => rfl⟩
  | body kind text =>
    by_cases hb : heard (.body kind text) = .body kind text
    · show ∃ m', Reads (r.step (kind.mark :: text)) _ m' ∧ _
      rw [step_body hr hb, hb]
      exact ⟨_, h.readLine kind text, fun _ => rfl⟩
    · -- the line is a mark of a header, and its text the name after it
      cases kind with
      | context => exact absurd rfl hb
      | deletion =>
        cases hs : stripPrefix ['-', '-', ' '] text with
        | none => exact absurd (by simp [heard, hs]) hb
        | some path =>
          have hheard : heard (.body .deletion text) = .oldName path := by simp [heard, hs]
          rw [hheard, stripPrefix_some.mp hs]
          show ∃ m', Reads (r.step (oldMark ++ path)) _ m' ∧ _
          rw [step_oldName hr]
          exact ⟨fresh, h.readOldName path, fun _ => rfl⟩
      | addition =>
        cases hs : stripPrefix ['+', '+', ' '] text with
        | none => exact absurd (by simp [heard, hs]) hb
        | some path =>
          have hheard : heard (.body .addition text) = .newName path := by simp [heard, hs]
          rw [hheard, stripPrefix_some.mp hs]
          show ∃ m', Reads (r.step (newMark ++ path)) _ m' ∧ _
          rw [step_newName hr]
          exact ⟨m, h.readNewName path, fun _ => rfl⟩

theorem run {ts : List Token} (h : Reads r g m) (hk : ∀ t ∈ ts, Known t) :
    ∃ m', Reads ((ts.map Token.line).foldl Reader.step r)
      ((rowsOf counted m (ts.map heard)).foldl Groups.step g) m' := by
  induction ts generalizing r g m with
  | nil => exact ⟨m, h⟩
  | cons t ts ih =>
    obtain ⟨ht, hts⟩ := List.forall_mem_cons.mp hk
    obtain ⟨m1, hstep, hrows⟩ := h.step ht
    obtain ⟨m', hrun⟩ := ih hstep hts
    refine ⟨m', ?_⟩
    rw [List.map_cons, List.map_cons, List.foldl_cons, hrows, List.foldl_append]
    exact hrun

end Reads

/-! ## the rows of a diff -/

theorem rowsOf_append (N : Numbering) (m : Marks) (a : List Token) :
    ∃ m', ∀ b, rowsOf N m (a ++ b) = rowsOf N m a ++ rowsOf N m' b := by
  induction a generalizing m with
  | nil => exact ⟨m, fun _ => rfl⟩
  | cons t a ih =>
    have hcons : ∀ m1 (row : List (Row DiffLine)), (∀ ts, rowsOf N m (t :: ts) = row ++ rowsOf N m1 ts) →
        ∃ m', ∀ b, rowsOf N m (t :: a ++ b) = rowsOf N m (t :: a) ++ rowsOf N m' b := by
      intro m1 row hrow
      obtain ⟨m', hm'⟩ := ih m1
      refine ⟨m', fun b => ?_⟩
      rw [List.cons_append, hrow, hrow, hm', List.append_assoc]
    cases t with
    | git names => exact hcons fresh [.file] fun _ => rfl
    | oldName path => exact hcons fresh [.file] fun _ => rfl
    | hunk old new heading => exact hcons _ [.hunk] fun _ => rfl
    | body kind text => exact hcons _ [_] fun _ => rfl
    | extended line => exact hcons m [] fun _ => rfl
    | newName path => exact hcons m [] fun _ => rfl
    | unterminated => exact hcons m [] fun _ => rfl

theorem rows_lines (c : List (List (List DiffLine))) (hs : List (List DiffLine)) (ls : List Line)
    (h : List DiffLine) (old new : Nat) :
    (rowsOf stated (some old, some new) (lineTokens ls)).foldl Groups.step ⟨c, hs ++ [h]⟩ =
      ⟨c, hs ++ [h ++ numbered old new ls]⟩ := by
  induction ls generalizing h old new with
  | nil => rw [numbered, List.append_nil]; rfl
  | cons l ls ih =>
    have hrow : rowsOf stated (some old, some new) (lineTokens (l :: ls)) =
        .line (lineAt (some old, some new) l.kind l.text) ::
          rowsOf stated (stated.advance (some old, some new) l.kind) (lineTokens ls) := by
      rw [lineTokens_cons, Line.tokens]
      split <;> rfl
    have hnext : stated.advance (some old, some new) l.kind =
        (some (if l.kind.isOld then old + 1 else old), some (if l.kind.isNew then new + 1 else new)) := by
      cases l.kind <;> rfl
    rw [hrow, List.foldl_cons, hnext]
    show List.foldl Groups.step ⟨c, Groups.addLine _ (hs ++ [h])⟩ _ = _
    rw [Groups.addLine_concat, ih, numbered, List.append_assoc]
    rfl

theorem rows_hunks (c : List (List (List DiffLine))) (hunks : List UnifiedDiff.Hunk)
    (hs : List (List DiffLine)) (m : Marks) :
    (rowsOf stated m (hunkTokens hunks)).foldl Groups.step ⟨c, hs⟩ =
      ⟨c, hs ++ hunks.map fun h => numbered h.old.start h.new.start h.lines⟩ := by
  induction hunks generalizing hs m with
  | nil => rw [List.map_nil, List.append_nil]; rfl
  | cons h hunks ih =>
    obtain ⟨m', hm'⟩ := rowsOf_append stated (some h.old.start, some h.new.start) (lineTokens h.lines)
    have hrows : rowsOf stated m (hunkTokens (h :: hunks)) =
        .hunk :: (rowsOf stated (some h.old.start, some h.new.start) (lineTokens h.lines) ++
          rowsOf stated m' (hunkTokens hunks)) := by
      rw [hunkTokens_cons, ← hm']
      rfl
    rw [hrows, List.foldl_cons, List.foldl_append]
    show List.foldl Groups.step (List.foldl Groups.step ⟨c, hs ++ [[]]⟩ _) _ = _
    rw [rows_lines, ih, List.nil_append, List.map_cons, List.append_assoc]
    rfl

/-- what a file adds to the files that were read -/
def shownFile (f : File) : List (List (List DiffLine)) :=
  if f.hunks = [] then [] else [f.hunks.map fun h => numbered h.old.start h.new.start h.lines]

theorem shown_cons (f : File) (files : List File) : shown (f :: files) = shownFile f ++ shown files := by
  unfold shown shownFile withHunks
  by_cases h : f.hunks = []
  · rw [if_pos h, List.filter_cons_of_neg (by simpa using h)]
    rfl
  · rw [if_neg h, List.filter_cons_of_pos (by simpa using h)]
    rfl

theorem rows_header (N : Numbering) (m : Marks) (h : Header) (g : Groups DiffLine) :
    ((rowsOf N m h.tokens).foldl Groups.step g).result = g.result := by
  cases h with
  | plain => rfl
  | git names extended =>
    have hskip : ∀ m, rowsOf N m (extended.map Token.extended) = [] := by
      intro m
      induction extended with
      | nil => rfl
      | cons line extended ih => exact ih
    show (List.foldl Groups.step (g.step .file) (rowsOf N fresh (extended.map Token.extended))).result = _
    rw [hskip]
    exact List.append_nil _

theorem rows_file (m : Marks) (f : File) (g : Groups DiffLine) :
    ((rowsOf stated m f.tokens).foldl Groups.step g).result = g.result ++ shownFile f := by
  obtain ⟨m', hm'⟩ := rowsOf_append stated m f.header.tokens
  rw [File.tokens, hm', List.foldl_append, shownFile, ← rows_header stated m f.header g]
  generalize (rowsOf stated m f.header.tokens).foldl Groups.step g = g'
  by_cases h : f.hunks = []
  · rw [if_pos h, if_pos h, List.append_nil]
    rfl
  · rw [if_neg h, if_neg h]
    show (List.foldl Groups.step ⟨g'.result, []⟩ (rowsOf stated fresh (hunkTokens f.hunks))).result = _
    rw [rows_hunks, List.nil_append, Groups.result, if_neg (by simpa using h)]

theorem rows_files (m : Marks) (files : List File) (g : Groups DiffLine) :
    ((rowsOf stated m (fileTokens files)).foldl Groups.step g).result = g.result ++ shown files := by
  induction files generalizing m g with
  | nil => exact (List.append_nil _).symm
  | cons f files ih =>
    obtain ⟨m', hm'⟩ := rowsOf_append stated m f.tokens
    rw [fileTokens_cons, hm', List.foldl_append, ih, rows_file, shown_cons, List.append_assoc]

theorem grouped_files (files : List File) : grouped (rowsOf stated fresh (fileTokens files)) = shown files :=
  rows_files fresh files ⟨[], []⟩

/-! ## carriage returns -/

theorem known_chomp (h : Known t) : Known (chompToken t) := by
  cases t with
  | extended line =>
    obtain ⟨keyword, hk, rest, rfl⟩ := h
    have hlast : keyword.toList.getLast? ≠ some '\r' := by
      simp only [keywords, List.mem_cons, List.not_mem_nil, or_false] at hk
      rcases hk with rfl | rfl | rfl | rfl | rfl | rfl | rfl | rfl | rfl | rfl | rfl | rfl <;> simp
    exact ⟨keyword, hk, chomp rest, (chomp_append hlast rest).symm⟩
  | _ => trivial

/-- the lines as `str::lines` gives them: only the last one may keep a carriage return -/
def seen (ts : List Token) : List Token := ts.dropLast.map chompToken ++ ts.getLast?.toList

theorem seen_concat (t : Token) : seen (ts ++ [t]) = ts.map chompToken ++ [t] := by
  rw [seen, List.dropLast_concat, List.getLast?_concat]
  rfl

theorem known_tokens (files : List File) : ∀ t ∈ fileTokens files, Known t := by
  intro t ht
  cases t with
  | extended line =>
    obtain ⟨f, -, ht⟩ := List.mem_flatMap.mp ht
    rcases List.mem_append.mp ht with ht | ht
    · cases hh : f.header with
      | plain => rw [hh] at ht; cases ht
      | git names extended =>
        rw [hh] at ht
        have hone := f.header_oneLine
        rw [hh] at hone
        obtain ht | ht := List.mem_cons.mp ht
        · cases ht
        · obtain ⟨l, hl, he⟩ := List.mem_map.mp ht
          cases he
          exact (hone.2 line hl).2
    · split at ht
      · cases ht
      · obtain ht | ht := List.mem_cons.mp ht
        · cases ht
        · obtain ht | ht := List.mem_cons.mp ht
          · cases ht
          · obtain ⟨h, -, ht⟩ := List.mem_flatMap.mp ht
            obtain ht | ht := List.mem_cons.mp ht
            · cases ht
            · obtain ⟨l, -, ht⟩ := List.mem_flatMap.mp ht
              obtain ht | ht := List.mem_cons.mp ht
              · cases ht
              · split at ht
                · cases List.mem_singleton.mp ht
                · cases ht
  | _ => trivial

theorem lines_text (files : List File) (newlines : Nat) :
    lines ((diffText files newlines).rdropWhile (· = '\n')) = (seen (fileTokens files)).map Token.line := by
  have hsingle := fileTokens_single files
  rw [diffText]
  rcases List.eq_nil_or_concat (fileTokens files) with h | ⟨ts, t, h⟩
  · rw [h]
    show lines (([] ++ List.replicate newlines '\n').rdropWhile _) = []
    rw [rdropWhile_newlines (by simp)]
    rfl
  · rw [List.concat_eq_append] at h
    rw [h] at hsingle ⊢
    obtain ⟨hinit, hlast⟩ := List.forall_mem_append.mp hsingle
    obtain ⟨hnewline, hne⟩ := hlast t (List.mem_singleton.mpr rfl)
    have hlines : ∀ line ∈ ts.map Token.line, '\n' ∉ line := by
      intro line hl
      obtain ⟨u, hu, rfl⟩ := List.mem_map.mp hl
      exact (hinit u hu).1
    rw [List.map_append, List.map_singleton, intercalate_eq, rdropWhile_newlines, lines_unfinished hlines hnewline hne,
      seen_concat, List.map_append, List.map_map, List.map_map, List.map_singleton]
    · congr 1
      exact List.map_congr_left fun u _ => (chompToken_line u).symm
    · rw [List.getLast?_append_of_ne_nil _ hne]
      exact fun he => hnewline (List.mem_of_getLast? he)

/-! ## what is taken for something else -/

/-- a line that is taken for what it is -/
def plain : Token → Bool
  | .git names => (gitPath (gitMark ++ names)).isSome
  | .body .deletion text => (stripPrefix ['-', '-', ' '] text).isNone
  | .body .addition text => (stripPrefix ['+', '+', ' '] text).isNone
  | _ => true

attribute [grind =] plain

theorem heard_of_plain (h : plain t = true) : heard t = t := by
  cases t with
  | git names => exact if_pos h
  | body kind text =>
    cases kind with
    | context => rfl
    | deletion =>
      rw [plain, Option.isNone_iff_eq_none] at h
      simp only [heard, h]
    | addition =>
      rw [plain, Option.isNone_iff_eq_none] at h
      simp only [heard, h]
  | _ => rfl

theorem isNone_stripPrefix_chomp {p : Text} (hp : p.getLast? ≠ some '\r') (text : Text) :
    (stripPrefix p (chomp text)).isNone = (stripPrefix p text).isNone := by
  cases hs : stripPrefix p text with
  | some rest =>
    rw [stripPrefix_some.mp hs, chomp_append hp, stripPrefix_append]
    rfl
  | none =>
    rw [stripPrefix_none] at hs
    rw [stripPrefix_none.mpr fun hp => hs (hp.trans (chomp_start text))]

theorem plain_chomp (t : Token) : plain (chompToken t) = plain t := by
  cases t with
  | git names =>
    have hpath : gitPath (gitMark ++ chomp names) = gitPath (gitMark ++ names) := by
      simp only [gitPath, stripPrefix_append, Option.bind_eq_bind, Option.bind_some, words_chomp]
    show (gitPath (gitMark ++ chomp names)).isSome = _
    rw [hpath]
    rfl
  | body kind text =>
    cases kind with
    | context => rfl
    | deletion => exact isNone_stripPrefix_chomp (by decide) text
    | addition => exact isNone_stripPrefix_chomp (by decide) text
  | _ => rfl

/-- a line of a hunk whose kind has the property -/
def isBody (p : Kind → Bool) : Token → Bool
  | .body kind _ => p kind
  | _ => false

def isGit : Token → Bool
  | .git _ => true
  | _ => false

attribute [grind =] isBody

theorem context_heard (t : Token) :
    isBody (· = .context) (heard t) = (isBody (· = .context) t || (isGit t && !plain t)) := by
  cases t with
  | git names =>
    show isBody _ (if _ then _ else _) = _
    cases h : (gitPath (gitMark ++ names)).isSome <;> simp [plain, isBody, isGit, h]
  | body kind text =>
    cases kind with
    | context => rfl
    | deletion => cases hs : stripPrefix ['-', '-', ' '] text <;> simp [heard, hs, isBody, isGit]
    | addition => cases hs : stripPrefix ['+', '+', ' '] text <;> simp [heard, hs, isBody, isGit]
  | _ => rfl

theorem changed_heard (t : Token) :
    isBody (· ≠ .context) (heard t) = (isBody (· ≠ .context) t && plain t) := by
  cases t with
  | git names =>
    show isBody _ (if _ then _ else _) = _
    cases h : (gitPath (gitMark ++ names)).isSome <;> simp [isBody]
  | body kind text =>
    cases kind with
    | context => rfl
    | deletion => cases hs : stripPrefix ['-', '-', ' '] text <;> simp [heard, hs, isBody, plain]
    | addition => cases hs : stripPrefix ['+', '+', ' '] text <;> simp [heard, hs, isBody, plain]
  | _ => rfl

theorem countP_rows (N : Numbering) (m : Marks) (ts : List Token) (p : Kind → Bool) :
    (rowLines (rowsOf N m ts)).countP (fun l => p l.kind) = ts.countP (isBody p) := by
  induction ts generalizing m with
  | nil => rfl
  | cons t ts ih =>
    cases t with
    | body kind text =>
      show (lineAt m kind text :: rowLines (rowsOf N (N.advance m kind) ts)).countP _ = _
      rw [List.countP_cons, List.countP_cons, ih]
      rfl
    | git names => exact (ih fresh).trans (List.countP_cons_of_neg (by simp [isBody])).symm
    | oldName path => exact (ih fresh).trans (List.countP_cons_of_neg (by simp [isBody])).symm
    | hunk old new heading => exact (ih _).trans (List.countP_cons_of_neg (by simp [isBody])).symm
    | extended line => exact (ih m).trans (List.countP_cons_of_neg (by simp [isBody])).symm
    | newName path => exact (ih m).trans (List.countP_cons_of_neg (by simp [isBody])).symm
    | unterminated => exact (ih m).trans (List.countP_cons_of_neg (by simp [isBody])).symm

theorem countP_seen {p : Token → Bool} (hp : ∀ t, p (chompToken t) = p t) (ts : List Token) :
    (seen ts).countP p = ts.countP p := by
  rcases List.eq_nil_or_concat ts with rfl | ⟨ts, t, rfl⟩
  · rfl
  · rw [List.concat_eq_append, seen_concat, List.countP_append, List.countP_append, List.countP_map]
    congr 1
    exact List.countP_congr fun u _ => by rw [Function.comp_apply, hp]

theorem imp_of_countP_eq {α : Type} {p q : α → Bool} {l : List α} (h : ∀ x ∈ l, p x = true → q x = true)
    (he : l.countP p = l.countP q) : ∀ x ∈ l, q x = true → p x = true := by
  induction l with
  | nil => exact fun x hx => (nomatch hx)
  | cons a l ih =>
    obtain ⟨ha, hl⟩ := List.forall_mem_cons.mp h
    have hle := List.countP_mono_left hl
    rw [List.countP_cons, List.countP_cons] at he
    have htail : l.countP p = l.countP q := by
      by_cases hpa : p a = true
      · rw [if_pos hpa, if_pos (ha hpa)] at he
        omega
      · rw [if_neg hpa] at he
        split at he <;> omega
    have hhead : q a = true → p a = true := fun hqa => by
      by_contra hpa
      rw [if_neg hpa, if_pos hqa] at he
      omega
    exact List.forall_mem_cons.mpr ⟨hhead, ih hl htail⟩

/-- when the kinds of the lines are the right ones, no line was taken for something else -/
theorem plain_of_kinds {ts : List Token}
    (h : ∀ p : Kind → Bool, ((seen ts).map heard).countP (isBody p) = ts.countP (isBody p)) :
    ∀ t ∈ ts, plain t = true := by
  have hcount : ∀ p : Kind → Bool, (∀ t, isBody p (heard (chompToken t)) = isBody p (heard t)) →
      ts.countP (isBody p) = ts.countP fun t => isBody p (heard t) := by
    intro p hp
    rw [← h p, List.countP_map, ← countP_seen (p := fun t => isBody p (heard t)) hp]
    rfl
  have hsame : ∀ (p : Kind → Bool) t, isBody p (chompToken t) = isBody p t := fun p t => by cases t <;> rfl
  have hgit : ∀ t, isGit (chompToken t) = isGit t := fun t => by cases t <;> rfl
  have hcontext := hcount (· = .context) fun t => by
    rw [context_heard, context_heard, hsame, hgit, plain_chomp]
  have hchanged := hcount (· ≠ .context) fun t => by
    rw [changed_heard, changed_heard, hsame, plain_chomp]
  intro t ht
  by_contra hp
  rw [Bool.not_eq_true] at hp
  cases t with
  | git names =>
    have himp := imp_of_countP_eq (fun t _ hc => by rw [context_heard, hc]; rfl) hcontext _ ht
    rw [context_heard, hp] at himp
    exact absurd (himp rfl) (by simp [isBody])
  | body kind text =>
    have himp := imp_of_countP_eq (fun t _ hc => by
      rw [changed_heard, Bool.and_eq_true] at hc
      exact hc.1) hchanged.symm _ ht
    rw [changed_heard, hp, Bool.and_false] at himp
    cases kind with
    | context => cases hp
    | deletion => exact absurd (himp rfl) Bool.false_ne_true
    | addition => exact absurd (himp rfl) Bool.false_ne_true
  | _ => cases hp


/-! ## where the numbers and the texts agree -/

/-- a number that was counted, beside the one that the header says -/
def Side (m : Option Nat) (n : Nat) : Prop :=
  m = some (min n u64Max) ∨ (u64Max < n ∧ ∀ j, m = some j → j < n)

def Sides (m : Marks) (old new : Nat) : Prop := Side m.1 old ∧ Side m.2 new

theorem Side.next {m : Option Nat} {n : Nat} (h : Side m n) : Side (m.map counted.next) (n + 1) := by
  rcases h with rfl | ⟨hn, hm⟩
  · refine .inl ?_
    show some (min (min n u64Max + 1) u64Max) = _
    congr 1
    omega
  · refine .inr ⟨by omega, fun j hj => ?_⟩
    obtain ⟨i, hi, rfl⟩ := Option.map_eq_some_iff.mp hj
    have := hm i hi
    show min (i + 1) u64Max < n + 1
    omega

/-- a number is right when a `u64` can hold it -/
theorem Side.eq_iff {m : Option Nat} {n : Nat} (h : Side m n) : m = some n ↔ n ≤ u64Max := by
  rcases h with rfl | ⟨hn, hm⟩
  · rw [Option.some_inj]
    omega
  · constructor
    · intro he
      exact absurd (hm n he) (lt_irrefl n)
    · intro hle
      omega

theorem side_fit (n : Nat) (first : Option Nat) (h : ∀ j, first = some j → j = 1) :
    Side (fit n <|> first) n := by
  unfold fit
  split
  · rename_i hn
    exact .inl (by rw [min_eq_left hn]; rfl)
  · rename_i hn
    refine .inr ⟨by omega, fun j hj => ?_⟩
    have := h j hj
    have : 1 ≤ u64Max := by decide
    omega

theorem sides_first (old new : Nat) : Sides (counted.first old new) old new := by
  have hone : ∀ (b : Bool) (j : Nat), (if b = true then some 1 else none) = some j → j = 1 := by
    intro b j h
    split at h
    · exact (Option.some.inj h).symm
    · cases h
  exact ⟨side_fit old _ (hone _), side_fit new _ (hone _)⟩

theorem sides_fresh : Sides fresh 1 1 := ⟨.inl (by decide), .inl (by decide)⟩

variable {m : Marks}

theorem Sides.advance (h : Sides m old new) (kind : Kind) :
    Sides (counted.advance m kind) (if kind.isOld then old + 1 else old) (if kind.isNew then new + 1 else new) := by
  cases kind with
  | context => exact ⟨h.1.next, h.2.next⟩
  | addition => exact ⟨h.1, h.2.next⟩
  | deletion => exact ⟨h.1.next, h.2⟩

theorem Sides.lineAt_eq (h : Sides m old new) (kind : Kind) (text' text : Text) :
    lineAt m kind text' = lineAt (some old, some new) kind text ↔
      text' = text ∧ (lineAt (some old, some new) kind text).Fits := by
  have hside : ∀ (m : Option Nat) (n : Nat), Side m n → ∀ b : Bool,
      (if b then m else none) = (if b then some n else none) ↔
        ∀ k, (if b then some n else none) = some k → k ≤ u64Max := by
    intro m n hs b
    cases b with
    | false => simp
    | true => simpa using hs.eq_iff
  simp only [lineAt, DiffLine.mk.injEq, true_and, takenBy, DiffLine.Fits]
  rw [hside m.1 old h.1, hside m.2 new h.2]

/-- the same line, or the line without its carriage return -/
def Near (t' t : Token) : Prop := t' = chompToken t ∨ t' = t

/-- a line of a hunk with the text that it has in the diff -/
def SameText (t' t : Token) : Prop := ∀ kind text', t' = .body kind text' → t = .body kind text'

theorem rows_token (h : Sides m old new) {t' : Token} (ht : Near t' t) :
    ∃ rows' rows m1 old1 new1, Sides m1 old1 new1 ∧
      (∀ ts, rowsOf counted m (t' :: ts) = rows' ++ rowsOf counted m1 ts) ∧
      (∀ ts, rowsOf stated (some old, some new) (t :: ts) =
        rows ++ rowsOf stated (some old1, some new1) ts) ∧
      rows'.map Row.blank = rows.map Row.blank ∧
      (rowLines rows' = rowLines rows ↔ SameText t' t ∧ ∀ l ∈ rowLines rows, l.Fits) := by
  have hnone : ∀ {t' t : Token}, (∀ kind text, t' ≠ .body kind text) →
      (([] : List DiffLine) = [] ↔ SameText t' t ∧ ∀ l ∈ ([] : List DiffLine), l.Fits) := by
    intro t' t hne
    exact ⟨fun _ => ⟨fun kind text he => absurd he (hne kind text), by simp⟩, fun _ => rfl⟩
  cases t with
  | body kind text =>
    obtain ⟨text', rfl⟩ : ∃ text', t' = .body kind text' := by
      rcases ht with rfl | rfl
      · exact ⟨_, rfl⟩
      · exact ⟨_, rfl⟩
    refine ⟨[.line (lineAt m kind text')], [.line (lineAt (some old, some new) kind text)], _, _, _,
      h.advance kind, fun _ => rfl, fun ts => ?_, rfl, ?_⟩
    · cases kind <;> rfl
    · show [lineAt m kind text'] = [lineAt (some old, some new) kind text] ↔
        SameText _ _ ∧ ∀ l ∈ [lineAt (some old, some new) kind text], l.Fits
      rw [List.cons.injEq, and_iff_left rfl, h.lineAt_eq, List.forall_mem_singleton]
      refine and_congr_left fun _ => ⟨?_, fun hs => ?_⟩
      · rintro rfl _ _ he
        exact he
      · exact (Token.body.inj (hs kind text' rfl)).2.symm
  | git names =>
    rcases ht with rfl | rfl <;>
      exact ⟨[.file], [.file], _, _, _, sides_fresh, fun _ => rfl, fun _ => rfl, rfl, hnone (by simp [chompToken])⟩
  | oldName path =>
    rcases ht with rfl | rfl <;>
      exact ⟨[.file], [.file], _, _, _, sides_fresh, fun _ => rfl, fun _ => rfl, rfl, hnone (by simp [chompToken])⟩
  | hunk o n heading =>
    rcases ht with rfl | rfl <;>
      exact ⟨[.hunk], [.hunk], _, _, _, sides_first o.start n.start, fun _ => rfl, fun _ => rfl, rfl,
        hnone (by simp [chompToken])⟩
  | extended line =>
    rcases ht with rfl | rfl <;>
      exact ⟨[], [], _, _, _, h, fun _ => rfl, fun _ => rfl, rfl, hnone (by simp [chompToken])⟩
  | newName path =>
    rcases ht with rfl | rfl <;>
      exact ⟨[], [], _, _, _, h, fun _ => rfl, fun _ => rfl, rfl, hnone (by simp [chompToken])⟩
  | unterminated =>
    rcases ht with rfl | rfl <;>
      exact ⟨[], [], _, _, _, h, fun _ => rfl, fun _ => rfl, rfl, hnone (by simp [chompToken])⟩

theorem rows_blank {ts' ts : List Token} (hts : List.Forall₂ Near ts' ts) (h : Sides m old new) :
    (rowsOf counted m ts').map Row.blank = (rowsOf stated (some old, some new) ts).map Row.blank := by
  induction hts generalizing m old new with
  | nil => rfl
  | cons ht _ ih =>
    obtain ⟨rows', rows, m1, old1, new1, h1, hcounted, hstated, hblank, -⟩ := rows_token h ht
    rw [hcounted, hstated, List.map_append, List.map_append, hblank, ih h1]

theorem rows_agree {ts' ts : List Token} (hts : List.Forall₂ Near ts' ts) (h : Sides m old new) :
    rowLines (rowsOf counted m ts') = rowLines (rowsOf stated (some old, some new) ts) ↔
      List.Forall₂ SameText ts' ts ∧ ∀ l ∈ rowLines (rowsOf stated (some old, some new) ts), l.Fits := by
  induction hts generalizing m old new with
  | nil => exact ⟨fun _ => ⟨.nil, fun l hl => (nomatch hl)⟩, fun _ => rfl⟩
  | cons ht _ ih =>
    obtain ⟨rows', rows, m1, old1, new1, h1, hcounted, hstated, hblank, heq⟩ := rows_token h ht
    have hsplit : ∀ a b : List DiffLine, rowLines rows' ++ a = rowLines rows ++ b ↔
        rowLines rows' = rowLines rows ∧ a = b := fun a b =>
      ⟨fun h => List.append_inj h (length_of_blank hblank), fun h => by rw [h.1, h.2]⟩
    rw [hcounted, hstated, rowLines_append, rowLines_append, hsplit, heq, ih h1, List.forall₂_cons,
      List.forall_mem_append]
    tauto
theorem seen_near : List.Forall₂ Near (seen ts) ts := by
  rcases List.eq_nil_or_concat ts with rfl | ⟨ts, t, rfl⟩
  · exact .nil
  · rw [List.concat_eq_append, seen_concat]
    induction ts with
    | nil => exact .cons (.inr rfl) .nil
    | cons u ts ih => exact .cons (.inl rfl) ih

theorem sameText_chomp (t : Token) :
    SameText (chompToken t) t ↔ ∀ kind text, t = .body kind text → text.getLast? ≠ some '\r' := by
  cases t with
  | body kind text =>
    constructor
    · rintro h _ _ ⟨⟩
      exact chomp_eq_self.mp (Token.body.inj (h kind (chomp text) rfl)).2.symm
    · intro h _ _ he
      rw [chompToken, chomp_eq_self.mpr (h kind text rfl)] at he
      exact he
  | _ => exact ⟨fun _ _ _ he => (nomatch he), fun _ _ _ he => (nomatch he)⟩

theorem sameText_seen : List.Forall₂ SameText (seen ts) ts ↔
    ∀ kind text, Token.body kind text ∈ ts.dropLast → text.getLast? ≠ some '\r' := by
  rcases List.eq_nil_or_concat ts with rfl | ⟨ts, t, rfl⟩
  · exact ⟨fun _ _ _ h => (nomatch h), fun _ => .nil⟩
  · rw [List.concat_eq_append, seen_concat, List.dropLast_concat]
    induction ts with
    | nil => exact ⟨fun _ _ _ h => (nomatch h), fun _ => .cons (fun _ _ he => he) .nil⟩
    | cons u ts ih =>
      rw [List.map_cons, List.cons_append, List.cons_append, List.forall₂_cons, ih, sameText_chomp]
      constructor
      · rintro ⟨hu, hts⟩ kind text hm
        rcases List.mem_cons.mp hm with he | hm
        · exact hu kind text he.symm
        · exact hts kind text hm
      · intro h
        exact ⟨fun kind text he => h kind text (he ▸ List.mem_cons_self),
          fun kind text hm => h kind text (List.mem_cons_of_mem u hm)⟩

/-! ## a diff with a file has a file to show -/

section
variable {r : Reader}

theorem pushFile_files (path : Text) : (r.pushFile path).files ≠ [] := by
  show r.files ++ _ ≠ []
  simp

theorem modify_ne_nil {α : Type} {l : List α} (h : l ≠ []) (n : Nat) (f : α → α) : l.modify n f ≠ [] := by
  rw [← List.length_pos_iff, List.length_modify]
  exact List.length_pos_iff.mpr h

theorem ensureFile_files (h : r.currentFile = none ∨ r.files ≠ []) : r.ensureFile.1.files ≠ [] := by
  unfold Reader.ensureFile
  cases hc : r.currentFile with
  | none => exact pushFile_files _
  | some index => exact h.resolve_left (by rw [hc]; simp)

theorem readHunk_files (h : r.currentFile = none ∨ r.files ≠ []) (line : Text) : (r.readHunk line).files ≠ [] :=
  modify_ne_nil (ensureFile_files h) _ _

theorem readLine_files (h : r.currentFile = none ∨ r.files ≠ []) (kind : Kind) (text : Text) :
    (r.readLine kind text).files ≠ [] := by
  have hensure := ensureFile_files h
  unfold Reader.readLine
  generalize r.ensureFile = e at hensure
  obtain ⟨r, file⟩ := e
  refine modify_ne_nil ?_ _ _
  split
  · exact modify_ne_nil hensure _ _
  · exact hensure

theorem readNewName_files (h : r.files ≠ []) (path : Text) : (r.readNewName path).files ≠ [] := by
  unfold Reader.readNewName
  cases cleanPath path <;> simp only <;> split <;> first | exact h | exact pushFile_files _

theorem readOldName_files (path : Text) : (r.readOldName path).files = r.files := by
  unfold Reader.readOldName
  simp only
  split <;> rfl

theorem step_files (h : r.files ≠ []) (line : Text) : (r.step line).files ≠ [] := by
  unfold Reader.step
  split
  · exact h
  split
  · exact h
  split
  · exact pushFile_files _
  split
  · exact pushFile_files _
  split
  · rw [readOldName_files]
    exact h
  split
  · exact readNewName_files h _
  split
  · exact readHunk_files (.inr h) line
  split
  · exact h
  split
  · exact h
  · exact readLine_files (.inr h) _ _

theorem run_files (h : r.files ≠ []) (ls : List Text) : (ls.foldl Reader.step r).files ≠ [] := by
  induction ls generalizing r with
  | nil => exact h
  | cons line ls ih => exact ih (step_files h line)

theorem Reads.files {g : Groups DiffLine} {m : Marks} (h : Reads r g m) {t : Token}
    (ht : isGit t = true ∨ ∃ old new heading, t = .hunk old new heading) : (r.step t.line).files ≠ [] := by
  have hfile : r.currentFile = none ∨ r.files ≠ [] := by
    cases h with
    | outside => exact .inl rfl
    | opened => exact .inr (by simp)
    | inside => exact .inr (by simp)
  rcases ht with ht | ⟨old, new, heading, rfl⟩
  · cases t with
    | git names =>
      show (r.step (gitMark ++ names)).files ≠ []
      cases hp : gitPath (gitMark ++ names) with
      | some path =>
        rw [step_git hp]
        exact pushFile_files path
      | none =>
        rw [step_unnamed h.unified hp]
        exact readLine_files hfile _ _
    | _ => cases ht
  · show (r.step (hunkHeader old new heading)).files ≠ []
    rw [step_hunk h.unified]
    exact readHunk_files hfile _

theorem Reads.run_files {g : Groups DiffLine} {m : Marks} {ts : List Token} (h : Reads r g m)
    (hk : ∀ t ∈ ts, Known t) (ht : ∃ t ∈ ts, isGit t = true ∨ ∃ old new heading, t = .hunk old new heading) :
    ((ts.map Token.line).foldl Reader.step r).files ≠ [] := by
  obtain ⟨t, hm, ht⟩ := ht
  obtain ⟨a, b, rfl⟩ := List.append_of_mem hm
  have ha : ∀ u ∈ a, Known u := fun u hu => hk u (List.mem_append_left _ hu)
  obtain ⟨m', hrun⟩ := h.run ha
  rw [List.map_append, List.map_cons, List.foldl_append, List.foldl_cons]
  exact Diff.run_files (hrun.files ht) _

end

theorem file_opens (f : File) : ∃ t ∈ f.tokens, isGit t = true ∨ ∃ old new heading, t = .hunk old new heading := by
  cases hh : f.header with
  | git names extended =>
    refine ⟨.git names, ?_, .inl rfl⟩
    rw [File.tokens, hh]
    exact List.mem_cons_self
  | plain =>
    have hne := f.plain_hunks (by rw [hh]; rfl)
    obtain ⟨h, hunks, he⟩ := List.exists_cons_of_ne_nil hne
    refine ⟨.hunk h.old h.new h.heading, ?_, .inr ⟨_, _, _, rfl⟩⟩
    rw [File.tokens, hh, if_neg hne, he, hunkTokens_cons]
    simp [Header.tokens, Hunk.tokens]

theorem opens_chomp (h : isGit t = true ∨ ∃ old new heading, t = .hunk old new heading) :
    isGit (chompToken t) = true ∨ ∃ old new heading, chompToken t = .hunk old new heading := by
  rcases h with h | ⟨old, new, heading, rfl⟩
  · cases t with
    | git names => exact .inl rfl
    | _ => cases h
  · exact .inr ⟨old, new, chomp heading, rfl⟩

/-! ## the counts -/

theorem changeCounts_eq (ls : List DiffLine) :
    changeCounts ls = (ls.countP (·.kind = .addition), ls.countP (·.kind = .deletion)) := by
  suffices h : ∀ a d : Nat, ls.foldl (fun counts line => match line.kind with
      | .addition => (counts.1 + 1, counts.2)
      | .deletion => (counts.1, counts.2 + 1)
      | .context => counts) (a, d) =
      (a + ls.countP (·.kind = .addition), d + ls.countP (·.kind = .deletion)) by
    rw [changeCounts, h, Nat.zero_add, Nat.zero_add]
  induction ls with
  | nil => exact fun _ _ => rfl
  | cons l ls ih =>
    intro a d
    rw [List.foldl_cons, List.countP_cons, List.countP_cons]
    cases l.kind <;> simp only <;> rw [ih] <;> simp <;> omega

theorem countP_numbered (kind : Kind) (old new : Nat) (ls : List Line) :
    (numbered old new ls).countP (·.kind = kind) = ls.countP (·.kind = kind) := by
  induction ls generalizing old new with
  | nil => rfl
  | cons l ls ih => rw [numbered, List.countP_cons, List.countP_cons, ih]

theorem changeCounts_shown (f : File) :
    changeCounts (f.hunks.map fun h => numbered h.old.start h.new.start h.lines).flatten =
      (changes .addition f, changes .deletion f) := by
  have hcount : ∀ kind : Kind, (f.hunks.map fun h => numbered h.old.start h.new.start h.lines).flatten.countP
      (·.kind = kind) = changes kind f := by
    intro kind
    rw [changes, List.countP_flatten, List.countP_flatMap, List.map_map]
    congr 1
    exact List.map_congr_left fun h _ => countP_numbered kind _ _ h.lines
  rw [changeCounts_eq, hcount, hcount]

theorem shows_iff (files : List File) (source : Text) :
    Shows files source ↔ (parse source).map (fun f => f.hunks.map (·.lines)) = shown files := by
  refine ⟨fun h => h.lines, fun h => ⟨h, ?_⟩⟩
  have hcounts : (parse source).map (fun f => changeCounts (f.hunks.flatMap (·.lines))) =
      ((parse source).map fun f => f.hunks.map (·.lines)).map fun hunks => changeCounts hunks.flatten := by
    rw [List.map_map]
    exact List.map_congr_left fun f _ => by rw [List.flatMap_def]; rfl
  rw [hcounts, h, shown, List.map_map]
  exact List.map_congr_left fun f _ => changeCounts_shown f

/-! ## the reading of a diff -/

def readRows (files : List File) : List (Row DiffLine) :=
  rowsOf counted fresh ((seen (fileTokens files)).map heard)

theorem parse_shown {files : List File} (h : files ≠ []) (newlines : Nat) :
    (parse (diffText files newlines)).map (fun f => f.hunks.map (·.lines)) = grouped (readRows files) := by
  have hknown : ∀ t ∈ seen (fileTokens files), Known t := by
    intro t ht
    rcases List.mem_append.mp ht with ht | ht
    · obtain ⟨u, hu, rfl⟩ := List.mem_map.mp ht
      exact known_chomp (known_tokens files u (List.dropLast_subset _ hu))
    · exact known_tokens files t (List.mem_of_getLast? (Option.mem_toList.mp ht))
  have hstart : Reads .start ⟨[], []⟩ fresh := @Reads.outside [] none
  obtain ⟨m', hrun⟩ := hstart.run hknown
  have hopens : ∃ t ∈ seen (fileTokens files), isGit t = true ∨ ∃ old new heading, t = .hunk old new heading := by
    obtain ⟨f, fs, rfl⟩ := List.exists_cons_of_ne_nil h
    obtain ⟨t, ht, hopen⟩ := file_opens f
    rw [fileTokens_cons]
    rcases List.eq_nil_or_concat (f.tokens ++ fileTokens fs) with he | ⟨ts, u, he⟩
    · exact absurd (he ▸ List.mem_append_left _ ht : t ∈ []) List.not_mem_nil
    · have hm : t ∈ ts ++ [u] := List.concat_eq_append ▸ he ▸ List.mem_append_left _ ht
      rw [he, List.concat_eq_append, seen_concat]
      rcases List.mem_append.mp hm with hm | hm
      · exact ⟨_, List.mem_append_left _ (List.mem_map_of_mem hm), opens_chomp hopen⟩
      · exact ⟨t, List.mem_append_right _ hm, hopen⟩
  have hfiles := hstart.run_files hknown hopens
  rw [parse, lines_text, if_neg hfiles]
  exact hrun.shown

theorem heard_seen {files : List File} (h : ∀ t ∈ fileTokens files, plain t = true) :
    readRows files = rowsOf counted fresh (seen (fileTokens files)) := by
  have hseen : (seen (fileTokens files)).map heard = (seen (fileTokens files)).map id := by
    refine List.map_congr_left fun t ht => heard_of_plain ?_
    rcases List.mem_append.mp ht with ht | ht
    · obtain ⟨u, hu, rfl⟩ := List.mem_map.mp ht
      rw [plain_chomp]
      exact h u (List.dropLast_subset _ hu)
    · exact h t (List.mem_of_getLast? (Option.mem_toList.mp ht))
  rw [readRows, hseen, List.map_id]

theorem rowLines_stated (files : List File) :
    rowLines (rowsOf stated fresh (fileTokens files)) = linesOf (shown files) := by
  rw [← grouped_files, linesOf_grouped]

theorem rowLines_seen (files : List File) :
    rowLines (rowsOf counted fresh (seen (fileTokens files))) = linesOf (shown files) ↔
      (∀ kind text, Token.body kind text ∈ (fileTokens files).dropLast → text.getLast? ≠ some '\r') ∧
        ∀ l ∈ linesOf (shown files), l.Fits := by
  have hagree := rows_agree (seen_near (fileTokens files)) sides_fresh
  rw [show (some 1, some 1) = fresh from rfl] at hagree
  rwa [rowLines_stated, sameText_seen] at hagree

theorem readable_of_shows {files : List File} {newlines : Nat} (h : Shows files (diffText files newlines)) :
    Readable files := by
  have hlines := h.lines
  have hne : files ≠ [] := by
    rintro rfl
    have hempty : (parse (diffText [] newlines)).map (fun f => f.hunks.map (·.lines)) = [[[]]] := by
      rw [parse, lines_text]
      rfl
    rw [hempty] at hlines
    cases hlines
  rw [parse_shown hne] at hlines
  have hrows : rowLines (readRows files) = linesOf (shown files) := by rw [← linesOf_grouped, hlines]
  have hplain : ∀ t ∈ fileTokens files, plain t = true := by
    refine plain_of_kinds fun p => ?_
    rw [← countP_rows counted fresh _ p, ← countP_rows stated fresh _ p, rowLines_stated]
    exact congrArg _ hrows
  rw [heard_seen hplain, rowLines_seen] at hrows
  exact {
    nonempty := hne
    names := fun names ht => hplain _ ht
    deletions := fun text ht => stripPrefix_none.mp (Option.isNone_iff_eq_none.mp (hplain _ ht))
    additions := fun text ht => stripPrefix_none.mp (Option.isNone_iff_eq_none.mp (hplain _ ht))
    returns := hrows.1
    numbers := hrows.2 }

theorem shows_of_readable {files : List File} (h : Readable files) (newlines : Nat) :
    Shows files (diffText files newlines) := by
  have hplain : ∀ t ∈ fileTokens files, plain t = true := by
    intro t ht
    cases t with
    | git names => exact h.names names ht
    | body kind text =>
      cases kind with
      | context => rfl
      | deletion => exact Option.isNone_iff_eq_none.mpr (stripPrefix_none.mpr (h.deletions text ht))
      | addition => exact Option.isNone_iff_eq_none.mpr (stripPrefix_none.mpr (h.additions text ht))
    | _ => rfl
  have hblank := rows_blank (seen_near (fileTokens files)) sides_fresh
  rw [shows_iff, parse_shown h.nonempty, heard_seen hplain, ← grouped_files]
  exact (grouped_eq hblank).mpr (((rowLines_seen files).mpr ⟨h.returns, h.numbers⟩).trans (rowLines_stated files).symm)

/-- the transcript shows the diff exactly when no line of it is taken for something else -/
theorem parse_shows (files : List File) (newlines : Nat) :
    Shows files (diffText files newlines) ↔ Readable files :=
  ⟨readable_of_shows, fun h => shows_of_readable h newlines⟩

/-- a comment that is deleted from an SQL file -/
def commentDeleted : File where
  header := .git ("a/q.sql b/q.sql".toList) []
  oldName := "a/q.sql".toList
  newName := "b/q.sql".toList
  hunks := [{
    old := ⟨1, 3, false, fun h => nomatch h⟩
    new := ⟨1, 2, false, fun h => nomatch h⟩
    heading := []
    lines := [⟨.deletion, ['-', '-', ' ', 'x'], false, by decide⟩, ⟨.context, [';'], false, by decide⟩,
      ⟨.context, ['y'], false, by decide⟩]
    oneLine := List.not_mem_nil
    old_count := rfl
    new_count := rfl }]
  header_oneLine := ⟨by decide, fun _ h => nomatch h⟩
  old_oneLine := by decide
  new_oneLine := by decide
  plain_hunks := fun h => nomatch h

/-- the deleted comment is read as the name of a file, and is not shown -/
theorem parse_loses_comment : ¬ Shows [commentDeleted] (diffText [commentDeleted] 0) := by
  intro h
  have hmem : Token.body .deletion ['-', '-', ' ', 'x'] ∈ fileTokens [commentDeleted] := by
    simp [fileTokens, File.tokens, commentDeleted, Header.tokens, hunkTokens, Hunk.tokens, lineTokens, Line.tokens]
  exact (readable_of_shows h).deletions _ hmem ⟨['x'], rfl⟩

end Orvek.Tui.Diff
