import Orvek.Lib.Texts

/-!
# The unified diff format

A diff is a list of files with their hunks, written line by line:

* `Token`          one line of the text: a header, a hunk header, or a line of a hunk;
* `Hunk`, `File`   the parts of a diff, whose hunk headers count the lines of both sides;
* `fileTokens`     the lines a diff is written in, none of them empty or longer than one line;
* `Row`, `grouped` what is read of a diff line by line, put together by files and hunks.
-/

set_option linter.unusedSectionVars false

namespace UnifiedDiff
open Texts

inductive Kind where
  | context | addition | deletion
  deriving DecidableEq, Repr

def Kind.mark : Kind → Char
  | .context => ' '
  | .addition => '+'
  | .deletion => '-'

/-- a line of the old side -/
def Kind.isOld : Kind → Bool
  | .addition => false
  | _ => true

/-- a line of the new side -/
def Kind.isNew : Kind → Bool
  | .deletion => false
  | _ => true

/-- the first line and the number of lines of one side; a count of one may be left out -/
structure Range where
  start : Nat
  count : Nat
  short : Bool
  short_one : short = true → count = 1
  deriving DecidableEq

def Range.text (r : Range) : Text :=
  Nat.toDigits 10 r.start ++ if r.short then [] else ',' :: Nat.toDigits 10 r.count

theorem mem_range {r : Range} {c : Char} (h : c ∈ r.text) : c.isDigit = true ∨ c = ',' := by
  rcases List.mem_append.mp h with h | h
  · exact .inl (Decimals.numeric_toDigits _ c h)
  · split at h
    · cases h
    · rcases List.mem_cons.mp h with rfl | h
      · exact .inr rfl
      · exact .inl (Decimals.numeric_toDigits _ c h)

theorem range_ne {r : Range} {x : Char} (hdigit : x.isDigit = false) (hcomma : x ≠ ',') : x ∉ r.text := by
  intro hx
  rcases mem_range hx with h | h
  · rw [hdigit] at h
    cases h
  · exact hcomma h

/-! ## lines -/

inductive Token where
  | git (names : Text)
  | extended (line : Text)
  | oldName (path : Text)
  | newName (path : Text)
  | hunk (old new : Range) (heading : Text)
  | body (kind : Kind) (text : Text)
  | unterminated

def gitMark : Text := ['d', 'i', 'f', 'f', ' ', '-', '-', 'g', 'i', 't', ' ']
def oldMark : Text := ['-', '-', '-', ' ']
def newMark : Text := ['+', '+', '+', ' ']
/-- what stands for the name of a side that a file does not have -/
def devNull : Text := "/dev/null".toList
def unterminatedMark : Text := '\\' :: " No newline at end of file".toList

theorem unterminatedMark_eq : ∃ rest, unterminatedMark = '\\' :: rest ∧ '\n' ∉ rest :=
  ⟨" No newline at end of file".toList, rfl, by simp⟩

def hunkHeader (old new : Range) (heading : Text) : Text :=
  ['@', '@', ' ', '-'] ++ (old.text ++ ([' ', '+'] ++ (new.text ++ ([' ', '@', '@'] ++ heading))))

def Token.line : Token → Text
  | .git names => gitMark ++ names
  | .extended line => line
  | .oldName path => oldMark ++ path
  | .newName path => newMark ++ path
  | .hunk old new heading => hunkHeader old new heading
  | .body kind text => kind.mark :: text
  | .unterminated => unterminatedMark

/-- the beginnings of the lines that Git writes between its header and the names -/
def keywords : List String :=
  ["index ", "new file mode ", "deleted file mode ", "old mode ", "new mode ", "similarity index ",
    "dissimilarity index ", "rename from ", "rename to ", "copy from ", "copy to ", "Binary files "]

def Extended (line : Text) : Prop := ∃ keyword ∈ keywords, keyword.toList <+: line

/-! ## hunks and files -/

structure Line where
  kind : Kind
  text : Text
  unterminated : Bool
  oneLine : '\n' ∉ text

def Line.tokens (l : Line) : List Token :=
  .body l.kind l.text :: if l.unterminated then [.unterminated] else []

structure Hunk where
  old : Range
  new : Range
  heading : Text
  lines : List Line
  oneLine : '\n' ∉ heading
  old_count : old.count = lines.countP fun l => l.kind.isOld
  new_count : new.count = lines.countP fun l => l.kind.isNew

def lineTokens (lines : List Line) : List Token := lines.flatMap Line.tokens

def Hunk.tokens (h : Hunk) : List Token := .hunk h.old h.new h.heading :: lineTokens h.lines

def hunkTokens (hunks : List Hunk) : List Token := hunks.flatMap Hunk.tokens

inductive Header where
  | git (names : Text) (extended : List Text)
  | plain

def Header.isPlain : Header → Bool
  | .plain => true
  | .git _ _ => false

def Header.tokens : Header → List Token
  | .git names extended => .git names :: extended.map .extended
  | .plain => []

def Header.OneLine : Header → Prop
  | .git names extended => '\n' ∉ names ∧ ∀ line ∈ extended, '\n' ∉ line ∧ Extended line
  | .plain => True

/-- a file of a diff; after the header of Git the two names stand only before hunks -/
structure File where
  header : Header
  oldName : Text
  newName : Text
  hunks : List Hunk
  header_oneLine : header.OneLine
  old_oneLine : '\n' ∉ oldName
  new_oneLine : '\n' ∉ newName
  plain_hunks : header.isPlain = true → hunks ≠ []

def File.tokens (f : File) : List Token :=
  f.header.tokens ++
    if f.hunks = [] then [] else .oldName f.oldName :: .newName f.newName :: hunkTokens f.hunks

def fileTokens (files : List File) : List Token := files.flatMap File.tokens

theorem lineTokens_cons (l : Line) (ls : List Line) : lineTokens (l :: ls) = l.tokens ++ lineTokens ls :=
  List.flatMap_cons ..

theorem hunkTokens_cons (h : Hunk) (hs : List Hunk) : hunkTokens (h :: hs) = h.tokens ++ hunkTokens hs :=
  List.flatMap_cons ..

theorem fileTokens_cons (f : File) (fs : List File) : fileTokens (f :: fs) = f.tokens ++ fileTokens fs :=
  List.flatMap_cons ..

/-! ## every line is one line -/

def Token.Single (t : Token) : Prop := '\n' ∉ t.line ∧ t.line ≠ []

theorem hunkHeader_oneLine {old new : Range} {heading : Text} (h : '\n' ∉ heading) :
    '\n' ∉ hunkHeader old new heading := by
  have hrange : ∀ r : Range, '\n' ∉ r.text := fun r => range_ne rfl (by decide)
  simp [hunkHeader, hrange, h]

theorem single_mark {c : Char} {m rest : Text} (hc : '\n' ∉ c :: m) (h : '\n' ∉ rest) :
    '\n' ∉ c :: m ++ rest ∧ c :: m ++ rest ≠ [] :=
  ⟨fun hm => (List.mem_append.mp hm).elim hc h, List.cons_ne_nil _ _⟩

theorem single_unterminated : Token.unterminated.Single := by
  obtain ⟨rest, he, hrest⟩ := unterminatedMark_eq
  show '\n' ∉ unterminatedMark ∧ unterminatedMark ≠ []
  rw [he]
  exact single_mark (m := []) (by decide) hrest

theorem Line.single (l : Line) : ∀ t ∈ l.tokens, t.Single := by
  have hmark : ∀ k : Kind, '\n' ∉ [k.mark] := fun k => by cases k <;> decide
  intro t ht
  rcases List.mem_cons.mp ht with rfl | ht
  · exact single_mark (m := []) (hmark l.kind) l.oneLine
  · split at ht
    · rw [List.mem_singleton.mp ht]
      exact single_unterminated
    · cases ht

theorem Hunk.single (h : Hunk) : ∀ t ∈ h.tokens, t.Single := by
  intro t ht
  rcases List.mem_cons.mp ht with rfl | ht
  · exact ⟨hunkHeader_oneLine h.oneLine, List.cons_ne_nil _ _⟩
  · obtain ⟨l, -, ht⟩ := List.mem_flatMap.mp ht
    exact l.single t ht

theorem Extended.ne_nil {line : Text} (h : Extended line) : line ≠ [] := by
  rintro rfl
  obtain ⟨keyword, hk, hp⟩ := h
  rw [List.prefix_nil, String.toList_eq_nil_iff] at hp
  subst hp
  exact absurd hk (by simp [keywords])

theorem Header.single {h : Header} (hone : h.OneLine) : ∀ t ∈ h.tokens, t.Single := by
  cases h with
  | plain => exact fun t ht => (nomatch ht)
  | git names extended =>
    intro t ht
    rcases List.mem_cons.mp ht with rfl | ht
    · exact single_mark (by decide) hone.1
    · obtain ⟨line, hline, rfl⟩ := List.mem_map.mp ht
      exact ⟨(hone.2 line hline).1, (hone.2 line hline).2.ne_nil⟩

theorem File.single (f : File) : ∀ t ∈ f.tokens, t.Single := by
  intro t ht
  rcases List.mem_append.mp ht with ht | ht
  · exact Header.single f.header_oneLine t ht
  · split at ht
    · cases ht
    · rcases List.mem_cons.mp ht with rfl | ht
      · exact single_mark (by decide) f.old_oneLine
      · rcases List.mem_cons.mp ht with rfl | ht
        · exact single_mark (by decide) f.new_oneLine
        · obtain ⟨h, -, ht⟩ := List.mem_flatMap.mp ht
          exact h.single t ht

theorem fileTokens_single (files : List File) : ∀ t ∈ fileTokens files, t.Single := by
  intro t ht
  obtain ⟨f, -, ht⟩ := List.mem_flatMap.mp ht
  exact f.single t ht

/-! ## carriage returns -/

/-- a line without the carriage return at its end -/
def chompToken : Token → Token
  | .git names => .git (chomp names)
  | .extended line => .extended (chomp line)
  | .oldName path => .oldName (chomp path)
  | .newName path => .newName (chomp path)
  | .hunk old new heading => .hunk old new (chomp heading)
  | .body kind text => .body kind (chomp text)
  | .unterminated => .unterminated

theorem chompToken_line (t : Token) : (chompToken t).line = chomp t.line := by
  cases t with
  | git names => exact (chomp_append (by decide) names).symm
  | extended line => rfl
  | oldName path => exact (chomp_append (by decide) path).symm
  | newName path => exact (chomp_append (by decide) path).symm
  | hunk old new heading =>
    have happ : ∀ text, hunkHeader old new text =
        ('@' :: '@' :: ' ' :: '-' :: old.text ++ ' ' :: '+' :: new.text ++ [' ', '@', '@']) ++ text := by
      intro text
      simp [hunkHeader]
    show hunkHeader old new (chomp heading) = chomp (hunkHeader old new heading)
    rw [happ, happ, chomp_append]
    rw [List.getLast?_append_of_ne_nil _ (by simp)]
    decide
  | body kind text =>
    refine (chomp_append (a := [kind.mark]) ?_ text).symm
    cases kind <;> decide
  | unterminated =>
    refine (chomp_of_ne ?_).symm
    show unterminatedMark.getLast? ≠ some '\r'
    simp [unterminatedMark]

/-! ## what is read, by files and hunks -/

/-- a file begins, a hunk begins, or a line is read -/
inductive Row (α : Type) where
  | file
  | hunk
  | line (a : α)

/-- a row without what was read -/
def Row.blank {α : Type} : Row α → Row Unit
  | .file => .file
  | .hunk => .hunk
  | .line _ => .line ()

/-- the files with hunks that were read, and the hunks of the file that is being read -/
structure Groups (α : Type) where
  closed : List (List (List α))
  hunks : List (List α)

namespace Groups
variable {α : Type}

def result (g : Groups α) : List (List (List α)) := g.closed ++ if g.hunks = [] then [] else [g.hunks]

def addLine (a : α) (hunks : List (List α)) : List (List α) :=
  if hunks = [] then [[a]] else hunks.modify (hunks.length - 1) (· ++ [a])

def step (g : Groups α) : Row α → Groups α
  | .file => ⟨g.result, []⟩
  | .hunk => ⟨g.closed, g.hunks ++ [[]]⟩
  | .line a => ⟨g.closed, addLine a g.hunks⟩

theorem addLine_concat (a : α) (hunks : List (List α)) (h : List α) :
    addLine a (hunks ++ [h]) = hunks ++ [h ++ [a]] := by
  unfold addLine
  rw [if_neg (by simp), List.length_append, List.length_singleton, Nat.add_sub_cancel,
    List.modify_eq_set_getElem?]
  simp

end Groups

section
variable {α : Type}

def grouped (rows : List (Row α)) : List (List (List α)) := (rows.foldl Groups.step ⟨[], []⟩).result

def linesOf (files : List (List (List α))) : List α := files.flatten.flatten

def rowLines : List (Row α) → List α
  | [] => []
  | .line a :: rows => a :: rowLines rows
  | _ :: rows => rowLines rows

theorem linesOf_result (g : Groups α) : linesOf g.result = linesOf g.closed ++ g.hunks.flatten := by
  unfold Groups.result linesOf
  split
  · rename_i h
    simp [h]
  · simp

theorem flatten_addLine (a : α) (hunks : List (List α)) :
    (Groups.addLine a hunks).flatten = hunks.flatten ++ [a] := by
  rcases List.eq_nil_or_concat hunks with rfl | ⟨hs, h, rfl⟩
  · rfl
  · rw [List.concat_eq_append, Groups.addLine_concat]
    simp

variable (rows : List (Row α))

theorem linesOf_foldl (g : Groups α) :
    linesOf (rows.foldl Groups.step g).result = linesOf g.result ++ rowLines rows := by
  induction rows generalizing g with
  | nil => rw [List.foldl_nil, rowLines, List.append_nil]
  | cons r rows ih =>
    rw [List.foldl_cons, ih]
    cases r with
    | file =>
      rw [show g.step .file = ⟨g.result, []⟩ from rfl, linesOf_result, List.flatten_nil, List.append_nil]
      rfl
    | hunk =>
      rw [show g.step .hunk = ⟨g.closed, g.hunks ++ [[]]⟩ from rfl, linesOf_result, linesOf_result]
      simp [rowLines]
    | line a =>
      rw [show g.step (.line a) = ⟨g.closed, Groups.addLine a g.hunks⟩ from rfl, linesOf_result,
        flatten_addLine, linesOf_result, rowLines]
      simp

theorem linesOf_grouped : linesOf (grouped rows) = rowLines rows :=
  linesOf_foldl rows ⟨[], []⟩

theorem rowLines_append (a b : List (Row α)) : rowLines (a ++ b) = rowLines a ++ rowLines b := by
  induction a with
  | nil => rfl
  | cons r a ih =>
    cases r with
    | file => exact ih
    | hunk => exact ih
    | line x => exact congrArg (x :: ·) ih

theorem rowLines_blank : rowLines (rows.map Row.blank) = (rowLines rows).map fun _ => () := by
  induction rows with
  | nil => rfl
  | cons r rows ih =>
    cases r with
    | file => exact ih
    | hunk => exact ih
    | line x => exact congrArg (() :: ·) ih

variable {rows' : List (Row α)}

theorem length_of_blank {rows : List (Row α)} (h : rows.map Row.blank = rows'.map Row.blank) :
    (rowLines rows).length = (rowLines rows').length := by
  have hlines := congrArg rowLines h
  rw [rowLines_blank, rowLines_blank] at hlines
  simpa using congrArg List.length hlines

theorem eq_of_blank {rows : List (Row α)} (h : rows.map Row.blank = rows'.map Row.blank)
    (hl : rowLines rows = rowLines rows') : rows = rows' := by
  induction rows generalizing rows' with
  | nil =>
    rw [List.map_nil, eq_comm, List.map_eq_nil_iff] at h
    exact h.symm
  | cons r rows ih =>
    cases rows' with
    | nil => cases h
    | cons r' rows' =>
      obtain ⟨hr, htail⟩ := List.cons.inj h
      cases r with
      | file =>
        cases r' <;> try cases hr
        exact congrArg (Row.file :: ·) (ih htail hl)
      | hunk =>
        cases r' <;> try cases hr
        exact congrArg (Row.hunk :: ·) (ih htail hl)
      | line a =>
        cases r' <;> try cases hr
        obtain ⟨ha, hl⟩ := List.cons.inj hl
        rw [ih htail hl, ha]

theorem grouped_eq {rows : List (Row α)} (h : rows.map Row.blank = rows'.map Row.blank) :
    grouped rows = grouped rows' ↔ rowLines rows = rowLines rows' := by
  constructor
  · intro he
    rw [← linesOf_grouped, he, linesOf_grouped]
  · intro hl
    rw [eq_of_blank h hl]

end

end UnifiedDiff
