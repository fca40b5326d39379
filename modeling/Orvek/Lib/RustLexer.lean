import Mathlib.Data.List.TakeWhile
import Mathlib.Tactic.Push
import Mathlib.Data.List.Infix

/-!
# Tokens of Rust

The lexical structure of Rust (2021 and later) as far as it decides which text belongs to comments: comments,
literals, lifetimes, words and single characters. Every source that Rust accepts is read here with the same comments
and literals; some sources that Rust rejects are read too (a word right before a quotation mark, a number in a form
of its own). A letter before the quote of a byte or C literal is a word of its own, which moves no bound; the letters
of a raw string belong to it. The identifier characters from 128 on are a parameter.

* `blockBody`, `stringBody`, `rawBody`, `escapeBody`   what follows the opening of a token, up to its end;
* `literal`, `quoteToken`, `wordToken`, `token`         the first token;
* `lex`                  all tokens, after a byte order mark and a shebang line;
* `token_text`, `lex_texts`                             the texts of the tokens make up the source;
* `tokens_more`          the number of characters is enough for the number of tokens.
-/

set_option linter.unusedSectionVars false

namespace RustLexer

variable {found : List Char × List Char} {cs : List Char}

inductive Kind
  | lineComment
  | blockComment
  | string
  | rawString
  | character
  | lifetime
  | rawIdentifier
  | word
  | shebang
  /- white space, punctuation, a byte order mark -/
  | other
  deriving DecidableEq

structure Token where
  kind : Kind
  text : List Char
  deriving DecidableEq

def Token.isComment (t : Token) : Bool := t.kind = .lineComment || t.kind = .blockComment

/-! ## bodies -/

def push (front : List Char) (found : List Char × List Char) : List Char × List Char := (front ++ found.1, found.2)

/-- inside a block comment, with a number of further comments open in it -/
def blockBody : Nat → List Char → Option (List Char × List Char)
  | depth, '/' :: '*' :: cs => (blockBody (depth + 1) cs).map (push ['/', '*'])
  | 0, '*' :: '/' :: cs => some (['*', '/'], cs)
  | depth + 1, '*' :: '/' :: cs => (blockBody depth cs).map (push ['*', '/'])
  | depth, c :: cs => (blockBody depth cs).map (push [c])
  | _, [] => none

/-- inside a string with escapes -/
def stringBody : List Char → Option (List Char × List Char)
  | '"' :: cs => some (['"'], cs)
  | '\\' :: c :: cs => (stringBody cs).map (push ['\\', c])
  | c :: cs => (stringBody cs).map (push [c])
  | [] => none

/-- inside a raw string with a number of hashes -/
def rawBody (hashes : Nat) : List Char → Option (List Char × List Char)
  | [] => none
  | c :: cs =>
    if c = '"' ∧ List.replicate hashes '#' <+: cs then some ('"' :: List.replicate hashes '#', cs.drop hashes)
    else (rawBody hashes cs).map (push [c])

def isHex (c : Char) : Bool :=
  c.isDigit || decide ('a'.toNat ≤ c.toNat ∧ c.toNat ≤ 'f'.toNat) || decide ('A'.toNat ≤ c.toNat ∧ c.toNat ≤ 'F'.toNat)

/-- after the backslash of a character literal -/
def escapeBody : List Char → Option (List Char × List Char)
  | 'x' :: a :: b :: '\'' :: cs => if isHex a && isHex b then some (['x', a, b, '\''], cs) else none
  | 'u' :: '\x7b' :: cs =>
    match cs.dropWhile fun c => isHex c || c = '_' with
    | '\x7d' :: '\'' :: rest =>
      some ('u' :: '\x7b' :: (cs.takeWhile fun c => isHex c || c = '_') ++ ['\x7d', '\''], rest)
    | _ => none
  | c :: '\'' :: cs => if c ∈ ['n', 'r', 't', '\\', '0', '\'', '"'] then some ([c, '\''], cs) else none
  | _ => none

/-! ## tokens -/

section
variable (xidStart xidContinue : Char → Bool)

def idStart (c : Char) : Bool := c = '_' || c.isAlpha || (decide (128 ≤ c.toNat) && xidStart c)
def idContinue (c : Char) : Bool := c = '_' || c.isAlphanum || (decide (128 ≤ c.toNat) && xidContinue c)

def nameChar (c : Char) : Bool := idStart xidStart c || idContinue xidContinue c || c.isDigit

/-- a literal with its suffix, after what opens it -/
def literal (kind : Kind) (front : List Char) (found : List Char × List Char) : Token × List Char :=
  match found.2 with
  | c :: cs =>
    if idStart xidStart c then
      (⟨kind, front ++ found.1 ++ c :: cs.takeWhile (idContinue xidContinue)⟩, cs.dropWhile (idContinue xidContinue))
    else (⟨kind, front ++ found.1⟩, c :: cs)
  | [] => (⟨kind, front ++ found.1⟩, [])

/-- a lifetime whose name begins with a character; not one that a quote follows -/
def lifetime (front : List Char) (c : Char) (cs : List Char) : Option (Token × List Char) :=
  if (cs.dropWhile (idContinue xidContinue)).head? = some '\'' then none
  else some (⟨.lifetime, front ++ c :: cs.takeWhile (idContinue xidContinue)⟩, cs.dropWhile (idContinue xidContinue))

/-- after a single quote -/
def quoteToken : List Char → Option (Token × List Char)
  | '\\' :: cs => (escapeBody cs).map (literal xidStart xidContinue .character ['\'', '\\'])
  | c :: '\'' :: cs =>
    if c ∈ ['\'', '\n', '\r', '\t'] then none
    else some (literal xidStart xidContinue .character ['\''] ([c, '\''], cs))
  | 'r' :: '#' :: c :: cs =>
    if idStart xidStart c then lifetime xidContinue ['\'', 'r', '#'] c cs else some (⟨.lifetime, ['\'', 'r']⟩, '#' :: c :: cs)
  | c :: cs => if idStart xidStart c then lifetime xidContinue ['\''] c cs else none
  | [] => none

/-- a word, unless it opens a raw string or a raw identifier -/
def wordToken (word rest : List Char) : Option (Token × List Char) :=
  let hashes := (rest.takeWhile (· = '#')).length
  if word ∈ [['r'], ['b', 'r'], ['c', 'r']] then
    match rest.dropWhile (· = '#') with
    | '"' :: cs =>
      (rawBody hashes cs).map (literal xidStart xidContinue .rawString (word ++ List.replicate hashes '#' ++ ['"']))
    | c :: cs =>
      if word = ['r'] ∧ hashes = 1 ∧ idStart xidStart c = true then
        some (⟨.rawIdentifier, 'r' :: '#' :: c :: cs.takeWhile (idContinue xidContinue)⟩,
          cs.dropWhile (idContinue xidContinue))
      else some (⟨.word, word⟩, rest)
    | [] => some (⟨.word, word⟩, rest)
  else some (⟨.word, word⟩, rest)

/-- the first token and what follows it -/
def token (c : Char) (cs : List Char) : Option (Token × List Char) :=
  if c = '/' ∧ cs.head? = some '/' then
    some (⟨.lineComment, (c :: cs).takeWhile (· ≠ '\n')⟩, (c :: cs).dropWhile (· ≠ '\n'))
  else if c = '/' ∧ cs.head? = some '*' then
    (blockBody 0 cs.tail).map fun found => (⟨.blockComment, '/' :: '*' :: found.1⟩, found.2)
  else if c = '"' then (stringBody cs).map (literal xidStart xidContinue .string ['"'])
  else if c = '\'' then quoteToken xidStart xidContinue cs
  else if idStart xidStart c || c.isDigit then
    wordToken xidStart xidContinue (c :: cs.takeWhile (idContinue xidContinue)) (cs.dropWhile (idContinue xidContinue))
  else some (⟨.other, [c]⟩, cs)

/-- at most a number of tokens -/
def tokens : Nat → List Char → Option (List Token)
  | _, [] => some []
  | 0, _ :: _ => none
  | fuel + 1, c :: cs =>
    (token xidStart xidContinue c cs).bind fun (t, rest) => (tokens fuel rest).map (t :: ·)

/-! ## the beginning of a source -/

def isLexWhitespace (c : Char) : Bool :=
  c.toNat ∈ [0x9, 0xA, 0xB, 0xC, 0xD, 0x20, 0x85, 0x200E, 0x200F, 0x2028, 0x2029]

def Token.isDoc (t : Token) : Bool :=
  match t.text with
  | '/' :: '/' :: '/' :: '/' :: _ => false
  | '/' :: '*' :: '*' :: '*' :: _ => false
  | ['/', '*', '*', '/'] => false
  | '/' :: _ :: '!' :: _ => true
  | '/' :: '/' :: '/' :: _ => true
  | '/' :: '*' :: '*' :: _ => true
  | _ => false

/-- whether an opening bracket is the next token but for white space and plain comments -/
def attributeFollows : Nat → List Char → Bool
  | fuel + 1, c :: cs =>
    match token xidStart xidContinue c cs with
    | some (t, rest) =>
      if (t.isComment && !t.isDoc) || (t.kind = .other && isLexWhitespace c) then attributeFollows fuel rest
      else c = '['
    | none => false
  | _, _ => false

def shebang : List Char → List Token × List Char
  | '#' :: '!' :: cs =>
    if attributeFollows xidStart xidContinue cs.length cs then ([], '#' :: '!' :: cs)
    else ([⟨.shebang, '#' :: '!' :: cs.takeWhile (· ≠ '\n')⟩], cs.dropWhile (· ≠ '\n'))
  | source => ([], source)

def byteOrderMark : Char := Char.ofNat 0xFEFF

def mark : List Char → List Token × List Char
  | [] => ([], [])
  | c :: cs => if c = byteOrderMark then ([⟨.other, [c]⟩], cs) else ([], c :: cs)

/-- the tokens of a source, `none` where it has none -/
def lex (source : List Char) : Option (List Token) :=
  let (first, rest) := mark source
  let (line, rest) := shebang xidStart xidContinue rest
  (tokens xidStart xidContinue rest.length rest).map (first ++ line ++ ·)

end

/-! ## the texts of the tokens -/

theorem text_of_push {front l : List Char} {read : Option (List Char × List Char)}
    (hread : ∀ found, read = some found → l = found.1 ++ found.2) (h : read.map (push front) = some found) :
    front ++ l = found.1 ++ found.2 := by
  obtain ⟨inner, hinner, rfl⟩ := Option.map_eq_some_iff.mp h
  rw [hread inner hinner, push, List.append_assoc]

theorem blockBody_text {depth : Nat} (h : blockBody depth cs = some found) : cs = found.1 ++ found.2 := by
  induction depth, cs using blockBody.induct generalizing found with
  | case1 depth cs ih => exact text_of_push (fun _ => ih) h
  | case2 cs => exact Option.some.inj h ▸ rfl
  | case3 depth cs ih => exact text_of_push (fun _ => ih) h
  | case4 depth c cs hopen hzero hclose ih =>
    rw [blockBody] at h
    · exact text_of_push (fun _ => ih) h
    all_goals assumption
  | case5 => cases h

theorem stringBody_text (h : stringBody cs = some found) : cs = found.1 ++ found.2 := by
  induction cs using stringBody.induct generalizing found with
  | case1 cs => exact Option.some.inj h ▸ rfl
  | case2 c cs ih => exact text_of_push (fun _ => ih) h
  | case3 c cs hquote hescape ih =>
    rw [stringBody] at h
    · exact text_of_push (fun _ => ih) h
    all_goals assumption
  | case4 => cases h

theorem rawBody_text {hashes : Nat} (h : rawBody hashes cs = some found) : cs = found.1 ++ found.2 := by
  induction cs generalizing found with
  | nil => cases h
  | cons c cs ih =>
    rw [rawBody] at h
    split at h
    · rename_i hend
      obtain ⟨rfl, rest, rfl⟩ := hend
      rw [List.drop_left' List.length_replicate] at h
      exact Option.some.inj h ▸ rfl
    · exact text_of_push (fun _ => ih) h

theorem escapeBody_text (h : escapeBody cs = some found) : cs = found.1 ++ found.2 := by
  unfold escapeBody at h
  split at h
  · split at h
    · exact Option.some.inj h ▸ rfl
    · cases h
  · split at h
    · rename_i cs _ rest hrest
      obtain rfl := Option.some.inj h
      have hsplit := @List.takeWhile_append_dropWhile _ (fun c => isHex c || decide (c = '_')) cs
      rw [hrest] at hsplit
      rw [List.append_assoc, List.cons_append, List.cons_append]
      exact congrArg ('u' :: '\x7b' :: ·) hsplit.symm
    · cases h
  · split at h
    · exact Option.some.inj h ▸ rfl
    · cases h
  · cases h

theorem isHex_ne {c : Char} (h : isHex c = true ∨ c = '_') : c ∉ ['/', '#', '"'] := by
  intro hc
  simp only [List.mem_cons, List.not_mem_nil, or_false] at hc
  rcases hc with rfl | rfl | rfl
  all_goals revert h; decide

/-- an escape ends with a quote; before it stands one character, or no slash, no hash and no quotation mark -/
theorem escapeBody_shape (h : escapeBody cs = some found) :
    ∃ inner, found.1 = inner ++ ['\''] ∧ ((∀ c ∈ inner, c ∉ ['/', '#', '"']) ∨ inner = ['"']) := by
  unfold escapeBody at h
  split at h
  · split at h
    · rename_i a b cs hhex
      cases h
      rw [Bool.and_eq_true] at hhex
      refine ⟨['x', a, b], rfl, .inl ?_⟩
      simp only [List.forall_mem_cons]
      exact ⟨by decide, isHex_ne (.inl hhex.1), isHex_ne (.inl hhex.2), nofun⟩
    · cases h
  · split at h
    · rename_i cs _ rest hrest
      cases h
      refine ⟨'u' :: '\x7b' :: (cs.takeWhile fun c => isHex c || decide (c = '_')) ++ ['\x7d'], ?_, .inl ?_⟩
      · rw [List.append_assoc]
        rfl
      · rw [List.forall_mem_append, List.forall_mem_cons, List.forall_mem_cons]
        refine ⟨⟨by decide, by decide, fun c hc => isHex_ne ?_⟩, List.forall_mem_singleton.mpr (by decide)⟩
        simpa using List.mem_takeWhile_imp hc
    · cases h
  · split at h
    · rename_i c cs _ hescape
      cases h
      refine ⟨[c], rfl, ?_⟩
      by_cases hquote : c = '"'
      · exact .inr (by rw [hquote])
      · refine .inl (List.forall_mem_singleton.mpr fun hc => ?_)
        simp only [List.mem_cons, List.not_mem_nil, or_false] at hc
        rcases hc with rfl | rfl | rfl
        · exact absurd hescape (by decide)
        · exact absurd hescape (by decide)
        · exact hquote rfl
    · cases h
  · cases h

section
variable {xidStart xidContinue : Char → Bool}

attribute [grind =] nameChar

variable {c : Char} {cs front rest word after source : List Char}

theorem punctuation (hc : c ∈ ['"', '/', '#', '\'']) : c ≠ '_' ∧ c.isAlpha = false ∧ c.isAlphanum = false ∧
    c.isDigit = false ∧ ¬ 128 ≤ c.toNat := by
  simp only [List.mem_cons, List.not_mem_nil, or_false] at hc
  rcases hc with rfl | rfl | rfl | rfl
  all_goals exact ⟨by decide, rfl, rfl, rfl, by decide⟩

theorem nameChar_ne (h : nameChar xidStart xidContinue c = true) : c ∉ ['"', '/', '#', '\''] := by
  intro hc
  obtain ⟨hline, halpha, halphanum, hdigit, hsmall⟩ := punctuation hc
  simp [nameChar, idStart, idContinue, hline, halpha, halphanum, hdigit, hsmall] at h

theorem nameChar_takeWhile (cs : List Char) :
    ∀ c ∈ cs.takeWhile (idContinue xidContinue), nameChar xidStart xidContinue c = true := by
  intro c hc
  rw [nameChar, List.mem_takeWhile_imp hc, Bool.or_true, Bool.true_or]

theorem dropWhile_head (cs : List Char) : (cs.dropWhile (idContinue xidContinue)).head? ≠ some 'r' := by
  intro h
  have hnot := List.head?_dropWhile_not (idContinue xidContinue) cs
  rw [h] at hnot
  have hletter : Char.isAlphanum 'r' = true := by decide
  exact absurd hnot (by simp [idContinue, hletter])

variable (xidStart xidContinue) in
theorem literal_suffix (kind : Kind) (front : List Char) (found : List Char × List Char) :
    ∃ suffix, (literal xidStart xidContinue kind front found).1 = ⟨kind, front ++ found.1 ++ suffix⟩ ∧
      found.2 = suffix ++ (literal xidStart xidContinue kind front found).2 ∧
      (∀ c ∈ suffix, nameChar xidStart xidContinue c = true) ∧
      (suffix = [] ∨ (literal xidStart xidContinue kind front found).2.head? ≠ some 'r') := by
  obtain ⟨text, rest⟩ := found
  cases rest with
  | nil => exact ⟨[], by rw [literal, List.append_nil], rfl, nofun, .inl rfl⟩
  | cons c cs =>
    rw [literal]
    dsimp only
    split
    · rename_i hstart
      refine ⟨c :: cs.takeWhile (idContinue xidContinue), rfl, ?_, ?_, .inr (dropWhile_head cs)⟩
      · rw [List.cons_append, List.takeWhile_append_dropWhile]
      · refine List.forall_mem_cons.mpr ⟨?_, nameChar_takeWhile cs⟩
        rw [nameChar, hstart, Bool.true_or, Bool.true_or]
    · exact ⟨[], by rw [List.append_nil], rfl, nofun, .inl rfl⟩

variable (xidStart xidContinue) in
theorem literal_text (kind : Kind) (front : List Char) (found : List Char × List Char) :
    (literal xidStart xidContinue kind front found).1.text ++ (literal xidStart xidContinue kind front found).2 =
      front ++ (found.1 ++ found.2) := by
  obtain ⟨suffix, htoken, hrest, -, -⟩ :=
    literal_suffix xidStart xidContinue kind front found
  rw [htoken, List.append_assoc, ← hrest, List.append_assoc]

variable {t : Token}

theorem text_of_literal {read : Option (List Char × List Char)} {kind : Kind} {l : List Char}
    (hread : ∀ found, read = some found → l = found.1 ++ found.2)
    (h : read.map (literal xidStart xidContinue kind front) = some (t, rest)) :
    front ++ l = t.text ++ rest := by
  obtain ⟨found, hfound, h⟩ := Option.map_eq_some_iff.mp h
  have htext := literal_text xidStart xidContinue kind front found
  rw [h] at htext
  rw [htext, hread found hfound]

theorem lifetime_text (h : lifetime xidContinue front c cs = some (t, rest)) :
    front ++ c :: cs = t.text ++ rest := by
  unfold lifetime at h
  split at h
  · cases h
  · cases h
    rw [List.append_assoc, List.cons_append, List.takeWhile_append_dropWhile]

theorem quoteToken_cases {found : Token × List Char} (h : quoteToken xidStart xidContinue cs = some found) :
    (∃ cs' body, cs = '\\' :: cs' ∧ escapeBody cs' = some body ∧
        found = literal xidStart xidContinue .character ['\'', '\\'] body) ∨
      (∃ c cs', cs = c :: '\'' :: cs' ∧ found = literal xidStart xidContinue .character ['\''] ([c, '\''], cs')) ∨
      (∃ c cs', cs = 'r' :: '#' :: c :: cs' ∧ idStart xidStart c = true ∧
        lifetime xidContinue ['\'', 'r', '#'] c cs' = some found) ∨
      (∃ cs', cs = 'r' :: '#' :: cs' ∧ found = (⟨.lifetime, ['\'', 'r']⟩, '#' :: cs')) ∨
      ∃ c cs', cs = c :: cs' ∧ idStart xidStart c = true ∧ lifetime xidContinue ['\''] c cs' = some found := by
  unfold quoteToken at h
  split at h
  · obtain ⟨body, hbody, rfl⟩ := Option.map_eq_some_iff.mp h
    exact .inl ⟨_, body, rfl, hbody, rfl⟩
  · split at h
    · cases h
    · exact .inr (.inl ⟨_, _, rfl, (Option.some.inj h).symm⟩)
  · split at h
    · rename_i hstart
      exact .inr (.inr (.inl ⟨_, _, rfl, hstart, h⟩))
    · exact .inr (.inr (.inr (.inl ⟨_, rfl, (Option.some.inj h).symm⟩)))
  · split at h
    · rename_i hstart
      exact .inr (.inr (.inr (.inr ⟨_, _, rfl, hstart, h⟩)))
    · cases h
  · cases h

theorem quoteToken_text (h : quoteToken xidStart xidContinue cs = some (t, rest)) :
    '\'' :: cs = t.text ++ rest := by
  rcases quoteToken_cases h with ⟨cs', body, rfl, hbody, hfound⟩ | ⟨c, cs', rfl, hfound⟩ | ⟨c, cs', rfl, -, hfound⟩ |
    ⟨cs', rfl, hfound⟩ | ⟨c, cs', rfl, -, hfound⟩
  · have htext := literal_text xidStart xidContinue .character ['\'', '\\'] body
    rw [← hfound, ← escapeBody_text hbody] at htext
    exact htext.symm
  · have htext := literal_text xidStart xidContinue .character ['\''] ([c, '\''], cs')
    rw [← hfound] at htext
    exact htext.symm
  · exact lifetime_text hfound
  · cases hfound
    rfl
  · exact lifetime_text hfound

def rawLetters : List (List Char) := [['r'], ['b', 'r'], ['c', 'r']]

/-- hashes and a quotation mark -/
def opensRaw (cs : List Char) : Bool := (cs.dropWhile (· = '#')).head? = some '"'

theorem hashes_split (cs : List Char) :
    cs = List.replicate (cs.takeWhile (· = '#')).length '#' ++ cs.dropWhile (· = '#') := by
  have hhashes := List.eq_replicate_of_mem fun c hc =>
    of_decide_eq_true (@List.mem_takeWhile_imp _ (fun c => decide (c = '#')) cs c hc)
  rw [← hhashes, List.takeWhile_append_dropWhile]

theorem wordToken_cases {found : Token × List Char}
    (h : wordToken xidStart xidContinue word after = some found) :
    (¬(word ∈ rawLetters ∧ opensRaw after = true) ∧ found = (⟨.word, word⟩, after)) ∨
      (∃ hashes cs body, word ∈ rawLetters ∧ after = List.replicate hashes '#' ++ '"' :: cs ∧
        rawBody hashes cs = some body ∧ found = literal xidStart xidContinue .rawString
          (word ++ List.replicate hashes '#' ++ ['"']) body) ∨
      ∃ c cs, word = ['r'] ∧ after = '#' :: c :: cs ∧ idStart xidStart c = true ∧
        found = (⟨.rawIdentifier, 'r' :: '#' :: c :: cs.takeWhile (idContinue xidContinue)⟩,
          cs.dropWhile (idContinue xidContinue)) := by
  have hsplit := hashes_split after
  unfold wordToken at h
  dsimp only at h
  split at h
  · rename_i hword
    split at h
    · rename_i cs hcs
      obtain ⟨body, hbody, rfl⟩ := Option.map_eq_some_iff.mp h
      exact .inr (.inl ⟨_, cs, body, hword, hcs ▸ hsplit, hbody, rfl⟩)
    · rename_i c cs hquote hcs
      split at h
      · rename_i hraw
        obtain ⟨hr, hone, hstart⟩ := hraw
        rw [hone, hcs] at hsplit
        exact .inr (.inr ⟨c, cs, hr, hsplit, hstart, (Option.some.inj h).symm⟩)
      · refine .inl ⟨fun hopens => ?_, (Option.some.inj h).symm⟩
        have hhead := of_decide_eq_true hopens.2
        rw [hcs] at hhead
        exact hquote (Option.some.inj hhead)
    · rename_i hcs
      refine .inl ⟨fun hopens => ?_, (Option.some.inj h).symm⟩
      have hhead := of_decide_eq_true hopens.2
      rw [hcs] at hhead
      cases hhead
  · rename_i hword
    exact .inl ⟨fun hopens => hword hopens.1, (Option.some.inj h).symm⟩

theorem wordToken_text (h : wordToken xidStart xidContinue word after = some (t, rest)) :
    word ++ after = t.text ++ rest := by
  rcases wordToken_cases h with ⟨-, hfound⟩ | ⟨hashes, cs, body, -, rfl, hbody, hfound⟩ | ⟨c, cs, rfl, rfl, -, hfound⟩
  · cases hfound
    rfl
  · have htext := literal_text xidStart xidContinue .rawString
      (word ++ List.replicate hashes '#' ++ ['"']) body
    rw [← hfound, ← rawBody_text hbody] at htext
    rw [htext, List.append_assoc, List.append_assoc]
    rfl
  · cases hfound
    exact congrArg ('r' :: '#' :: c :: ·) List.takeWhile_append_dropWhile.symm

attribute [grind =] token

theorem token_text (h : token xidStart xidContinue c cs = some (t, rest)) : c :: cs = t.text ++ rest := by
  unfold token at h
  split at h
  · cases h
    exact (@List.takeWhile_append_dropWhile _ (fun x => decide (x ≠ '\n')) (c :: cs)).symm
  split at h
  · rename_i hblock
    obtain ⟨rfl, hstar⟩ := hblock
    obtain ⟨cs, rfl⟩ := List.head?_eq_some_iff.mp hstar
    obtain ⟨found, hfound, h⟩ := Option.map_eq_some_iff.mp h
    cases h
    exact congrArg ('/' :: '*' :: ·) (blockBody_text hfound)
  split at h
  · rename_i hquote
    exact hquote ▸ text_of_literal (fun _ => stringBody_text) h
  split at h
  · rename_i hquote
    exact hquote ▸ quoteToken_text h
  split at h
  · rw [← wordToken_text h, List.cons_append, List.takeWhile_append_dropWhile]
  · cases h
    rfl

theorem literal_kind {kind : Kind} {found : List Char × List Char}
    (h : literal xidStart xidContinue kind front found = (t, rest)) : t.kind = kind := by
  obtain ⟨suffix, htoken, -⟩ := literal_suffix xidStart xidContinue kind front found
  rw [h] at htoken
  rw [show t = _ from htoken]

theorem wordToken_kind (h : wordToken xidStart xidContinue word after = some (t, rest)) :
    t.kind = .word ∨ t.kind = .rawString ∨ t.kind = .rawIdentifier := by
  rcases wordToken_cases h with ⟨-, hfound⟩ | ⟨hashes, cs, body, -, -, -, hfound⟩ | ⟨c, cs, -, -, -, hfound⟩
  · cases hfound
    exact .inl rfl
  · exact .inr (.inl (literal_kind hfound.symm))
  · cases hfound
    exact .inr (.inr rfl)

theorem lifetime_kind (h : lifetime xidContinue front c cs = some (t, rest)) : t.kind = .lifetime := by
  unfold lifetime at h
  split at h
  · cases h
  · cases h
    rfl

theorem quoteToken_kind (h : quoteToken xidStart xidContinue cs = some (t, rest)) :
    t.kind = .character ∨ t.kind = .lifetime := by
  rcases quoteToken_cases h with ⟨cs', body, -, -, hfound⟩ | ⟨c, cs', -, hfound⟩ | ⟨c, cs', -, -, hfound⟩ |
    ⟨cs', -, hfound⟩ | ⟨c, cs', -, -, hfound⟩
  · exact .inl (literal_kind hfound.symm)
  · exact .inl (literal_kind hfound.symm)
  · exact .inr (lifetime_kind hfound)
  · cases hfound
    exact .inr rfl
  · exact .inr (lifetime_kind hfound)

theorem not_comment (h : t.kind ≠ .lineComment ∧ t.kind ≠ .blockComment) : t.isComment = false := by
  rw [Token.isComment, decide_eq_false h.1, decide_eq_false h.2]
  rfl

theorem comment_start (h : token xidStart xidContinue c cs = some (t, rest)) (hcomment : t.isComment = true)
    :
    ∃ text, t.text = '/' :: text := by
  have hnot : t.kind ≠ .lineComment ∧ t.kind ≠ .blockComment → ∃ text, t.text = '/' :: text := fun hkind =>
    absurd hcomment (by rw [not_comment hkind]; decide)
  unfold token at h
  split at h
  · rename_i hline
    obtain ⟨rfl, -⟩ := hline
    cases h
    exact ⟨_, rfl⟩
  split at h
  · obtain ⟨found, -, h⟩ := Option.map_eq_some_iff.mp h
    cases h
    exact ⟨_, rfl⟩
  split at h
  · obtain ⟨found, -, h⟩ := Option.map_eq_some_iff.mp h
    exact hnot (literal_kind h ▸ by decide)
  split at h
  · rcases quoteToken_kind h with hkind | hkind
    · exact hnot (hkind ▸ by decide)
    · exact hnot (hkind ▸ by decide)
  split at h
  · rcases wordToken_kind h with hkind | hkind | hkind
    · exact hnot (hkind ▸ by decide)
    · exact hnot (hkind ▸ by decide)
    · exact hnot (hkind ▸ by decide)
  · cases h
    exact hnot ⟨nofun, nofun⟩

theorem quoteToken_quote (h : quoteToken xidStart xidContinue cs = some (t, rest))
    (hkind : t.kind = .character) (hquote : '"' ∈ t.text) :
    ∃ front name, t.text = front ++ '"' :: '\'' :: name ∧ (front = ['\''] ∨ front = ['\'', '\\']) ∧
      ∀ x ∈ name, nameChar xidStart xidContinue x = true := by
  have hsuffix : ∀ {name : List Char}, (∀ x ∈ name, nameChar xidStart xidContinue x = true) → '"' ∉ name :=
    fun hname hmem => nameChar_ne (hname _ hmem) List.mem_cons_self
  rcases quoteToken_cases h with ⟨cs', body, -, hbody, hfound⟩ | ⟨c, cs', -, hfound⟩ | ⟨c, cs', -, -, hfound⟩ |
    ⟨cs', -, hfound⟩ | ⟨c, cs', -, -, hfound⟩
  · obtain ⟨name, htoken, -, hname, -⟩ :=
      literal_suffix xidStart xidContinue .character ['\'', '\\'] body
    obtain ⟨inner, hinner, hplain | rfl⟩ := escapeBody_shape hbody
    · rw [← hfound] at htoken
      rw [show t = _ from htoken, hinner] at hquote
      rcases List.mem_append.mp hquote with hbefore | hafter
      · rcases List.mem_append.mp hbefore with hfront | hescape
        · exact absurd hfront (by decide)
        · rcases List.mem_append.mp hescape with hmem | hmem
          · exact absurd (hplain _ hmem) (by decide)
          · exact absurd hmem (by decide)
      · exact absurd hafter (hsuffix hname)
    · rw [← hfound] at htoken
      refine ⟨['\'', '\\'], name, ?_, .inr rfl, hname⟩
      rw [show t = _ from htoken, hinner]
      rfl
  · obtain ⟨name, htoken, -, hname, -⟩ :=
      literal_suffix xidStart xidContinue .character ['\''] ([c, '\''], cs')
    rw [← hfound] at htoken
    have hc : c = '"' := by
      rw [show t = _ from htoken] at hquote
      rcases List.mem_append.mp hquote with hbefore | hafter
      · simpa [eq_comm] using hbefore
      · exact absurd hafter (hsuffix hname)
    refine ⟨['\''], name, ?_, .inl rfl, hname⟩
    rw [show t = _ from htoken, hc]
    rfl
  · exact absurd ((lifetime_kind hfound).symm.trans hkind) (by decide)
  · cases hfound
    cases hkind
  · exact absurd ((lifetime_kind hfound).symm.trans hkind) (by decide)

theorem character_quote (h : token xidStart xidContinue c cs = some (t, rest)) (hkind : t.kind = .character)
    (hquote : '"' ∈ t.text) :
    ∃ front name, t.text = front ++ '"' :: '\'' :: name ∧ (front = ['\''] ∨ front = ['\'', '\\']) ∧
      ∀ x ∈ name, nameChar xidStart xidContinue x = true := by
  unfold token at h
  split at h
  · cases h
    cases hkind
  split at h
  · obtain ⟨found, -, h⟩ := Option.map_eq_some_iff.mp h
    cases h
    cases hkind
  split at h
  · obtain ⟨found, -, h⟩ := Option.map_eq_some_iff.mp h
    exact absurd ((literal_kind h).symm.trans hkind) (by decide)
  split at h
  · exact quoteToken_quote h hkind hquote
  split at h
  · rcases wordToken_kind h with hkind' | hkind' | hkind'
    · exact absurd (hkind'.symm.trans hkind) (by decide)
    · exact absurd (hkind'.symm.trans hkind) (by decide)
    · exact absurd (hkind'.symm.trans hkind) (by decide)
  · cases h
    cases hkind

variable {ts : List Token}

theorem tokens_texts {fuel : Nat} (h : tokens xidStart xidContinue fuel cs = some ts) :
    ts.flatMap Token.text = cs := by
  induction fuel generalizing cs ts with
  | zero =>
    cases cs with
    | nil => exact Option.some.inj h ▸ rfl
    | cons c cs => cases h
  | succ fuel ih =>
    cases cs with
    | nil => exact Option.some.inj h ▸ rfl
    | cons c cs =>
      obtain ⟨⟨t, rest⟩, ht, h⟩ := Option.bind_eq_some_iff.mp h
      obtain ⟨ts, hts, rfl⟩ := Option.map_eq_some_iff.mp h
      rw [List.flatMap_cons, ih hts, token_text ht]

variable (xidStart xidContinue) in
theorem shebang_cases (source : List Char) : shebang xidStart xidContinue source = ([], source) ∨
    ∃ cs, source = '#' :: '!' :: cs ∧ shebang xidStart xidContinue source =
      ([⟨.shebang, '#' :: '!' :: cs.takeWhile (· ≠ '\n')⟩], cs.dropWhile (· ≠ '\n')) := by
  unfold shebang
  split
  · rename_i cs
    split
    · exact .inl rfl
    · exact .inr ⟨cs, rfl, rfl⟩
  · exact .inl rfl

theorem mark_cases (source : List Char) : mark source = ([], source) ∨
    ∃ cs, source = byteOrderMark :: cs ∧ mark source = ([⟨.other, [byteOrderMark]⟩], cs) := by
  cases source with
  | nil => exact .inl rfl
  | cons c cs =>
    by_cases hc : c = byteOrderMark
    · exact .inr ⟨cs, by rw [hc], by rw [mark, if_pos hc, hc]⟩
    · exact .inl (if_neg hc)

theorem lex_some (h : lex xidStart xidContinue source = some ts) :
    ∃ rest, ts = (mark source).1 ++ ((shebang xidStart xidContinue (mark source).2).1 ++ rest) ∧
      tokens xidStart xidContinue (shebang xidStart xidContinue (mark source).2).2.length
        (shebang xidStart xidContinue (mark source).2).2 = some rest := by
  obtain ⟨rest, hrest, rfl⟩ := Option.map_eq_some_iff.mp h
  exact ⟨rest, List.append_assoc _ _ _, hrest⟩

theorem literal_ne {kind : Kind} (hfront : front ≠ []) {found : List Char × List Char}
    (h : literal xidStart xidContinue kind front found = (t, rest)) : t.text ≠ [] := by
  obtain ⟨suffix, htoken, -⟩ := literal_suffix xidStart xidContinue kind front found
  rw [h] at htoken
  rw [show t = _ from htoken, List.append_assoc]
  exact List.append_ne_nil_of_left_ne_nil hfront _

theorem lifetime_ne (h : lifetime xidContinue front c cs = some (t, rest)) : t.text ≠ [] := by
  unfold lifetime at h
  split at h
  · cases h
  · cases h
    exact List.append_ne_nil_of_right_ne_nil _ (List.cons_ne_nil _ _)

theorem token_ne (h : token xidStart xidContinue c cs = some (t, rest)) : t.text ≠ [] := by
  unfold token at h
  split at h
  · rename_i hline
    obtain ⟨rfl, -⟩ := hline
    cases h
    exact List.cons_ne_nil _ _
  split at h
  · obtain ⟨found, -, h⟩ := Option.map_eq_some_iff.mp h
    cases h
    exact List.cons_ne_nil _ _
  split at h
  · obtain ⟨found, -, h⟩ := Option.map_eq_some_iff.mp h
    exact literal_ne (List.cons_ne_nil _ _) h
  split at h
  · rcases quoteToken_cases h with ⟨cs', body, -, -, hfound⟩ | ⟨c, cs', -, hfound⟩ | ⟨c, cs', -, -, hfound⟩ |
      ⟨cs', -, hfound⟩ | ⟨c, cs', -, -, hfound⟩
    · exact literal_ne (List.cons_ne_nil _ _) hfound.symm
    · exact literal_ne (List.cons_ne_nil _ _) hfound.symm
    · exact lifetime_ne hfound
    · cases hfound
      exact List.cons_ne_nil _ _
    · exact lifetime_ne hfound
  split at h
  · rcases wordToken_cases h with ⟨-, hfound⟩ | ⟨hashes, cs, body, -, -, -, hfound⟩ | ⟨c, cs, -, -, -, hfound⟩
    · cases hfound
      exact List.cons_ne_nil _ _
    · exact literal_ne (List.append_ne_nil_of_right_ne_nil _ (List.cons_ne_nil _ _)) hfound.symm
    · cases hfound
      exact List.cons_ne_nil _ _
  · cases h
    exact List.cons_ne_nil _ _

theorem tokens_more {n : Nat} (h : cs.length ≤ n) :
    tokens xidStart xidContinue n cs = tokens xidStart xidContinue cs.length cs := by
  induction hlength : cs.length using Nat.strongRecOn generalizing cs n with
  | _ m ih =>
    cases cs with
    | nil =>
      cases n with
      | zero => cases m <;> rfl
      | succ n => cases m <;> rfl
    | cons c cs =>
      rw [List.length_cons] at h hlength
      obtain ⟨n, rfl⟩ : ∃ k, n = k + 1 := ⟨n - 1, by omega⟩
      subst hlength
      rw [tokens, tokens]
      cases ht : token xidStart xidContinue c cs with
      | none => rfl
      | some found =>
        obtain ⟨t, rest⟩ := found
        have hle : rest.length ≤ cs.length := by
          have hsplit := congrArg List.length (token_text ht)
          have hpos := List.length_pos_iff.mpr (token_ne ht)
          rw [List.length_cons, List.length_append] at hsplit
          omega
        have hfirst := ih rest.length (by omega) (n := n) (by omega) rfl
        have hsecond := ih rest.length (by omega) (n := cs.length) hle rfl
        exact congrArg (Option.map (t :: ·)) (hfirst.trans hsecond.symm)

theorem right_of_append {α : Type} {first rest a b : List α} {t : α} (h : first ++ rest = a ++ t :: b)
    (hfirst : t ∉ first) : ∃ a', rest = a' ++ t :: b := by
  rcases List.append_eq_append_iff.mp h with ⟨a', rfl, hrest⟩ | ⟨c, rfl, hc⟩
  · exact ⟨a', hrest⟩
  · cases c with
    | nil => exact ⟨[], hc.symm⟩
    | cons x c =>
      obtain ⟨rfl, -⟩ := List.cons.inj hc
      exact absurd (List.mem_append_right a List.mem_cons_self) hfirst

theorem tokens_at {fuel : Nat} {a b : List Token}
    (h : tokens xidStart xidContinue fuel cs = some (a ++ t :: b)) :
    ∃ c cs', token xidStart xidContinue c cs' = some (t, b.flatMap Token.text) := by
  induction fuel generalizing cs a with
  | zero =>
    cases cs with
    | nil => exact absurd (Option.some.inj h).symm (by simp)
    | cons c cs => cases h
  | succ fuel ih =>
    cases cs with
    | nil => exact absurd (Option.some.inj h).symm (by simp)
    | cons c cs =>
      obtain ⟨⟨t', rest⟩, ht, h⟩ := Option.bind_eq_some_iff.mp h
      obtain ⟨ts, hts, heq⟩ := Option.map_eq_some_iff.mp h
      cases a with
      | nil =>
        obtain ⟨rfl, rfl⟩ := List.cons.inj heq
        exact ⟨c, cs, by rw [tokens_texts hts, ht]⟩
      | cons x a =>
        obtain ⟨-, rfl⟩ := List.cons.inj heq
        exact ih hts

theorem lex_at {a b : List Token} (h : lex xidStart xidContinue source = some (a ++ t :: b)) :
    (∃ c cs, token xidStart xidContinue c cs = some (t, b.flatMap Token.text)) ∨ t = ⟨.other, [byteOrderMark]⟩ ∨
      (t.kind = .shebang ∧
        ((b.flatMap Token.text).head? = none ∨ (b.flatMap Token.text).head? = some '\n')) := by
  obtain ⟨rest, heq, hrest⟩ := lex_some h
  by_cases hmark : t ∈ (mark source).1
  · rcases mark_cases source with hnone | ⟨cs, -, hsome⟩
    · rw [hnone] at hmark
      cases hmark
    · rw [hsome] at hmark
      exact .inr (.inl (List.mem_singleton.mp hmark))
  obtain ⟨a', heq⟩ := right_of_append heq.symm hmark
  rcases shebang_cases xidStart xidContinue (mark source).2 with hnone | ⟨cs, -, hsome⟩
  · rw [hnone] at heq hrest
    rw [List.nil_append] at heq
    rw [heq] at hrest
    exact .inl (tokens_at hrest)
  · rw [hsome] at heq hrest
    cases a' with
    | cons x a' =>
      obtain ⟨-, rfl⟩ := List.cons.inj heq
      exact .inl (tokens_at hrest)
    | nil =>
      rw [List.singleton_append, List.nil_append] at heq
      obtain ⟨rfl, rfl⟩ := List.cons.inj heq
      refine .inr (.inr ⟨rfl, ?_⟩)
      rw [tokens_texts hrest]
      have hnot := List.head?_dropWhile_not (fun c => decide (c ≠ '\n')) cs
      dsimp only
      cases hc : (cs.dropWhile (· ≠ '\n')).head? with
      | none => exact .inl rfl
      | some c =>
        rw [hc] at hnot
        exact .inr (by simpa using hnot)

theorem lex_texts (h : lex xidStart xidContinue source = some ts) : ts.flatMap Token.text = source := by
  obtain ⟨rest, rfl, hrest⟩ := lex_some h
  have hline : (shebang xidStart xidContinue (mark source).2).1.flatMap Token.text ++
      (shebang xidStart xidContinue (mark source).2).2 = (mark source).2 := by
    rcases shebang_cases xidStart xidContinue (mark source).2 with hnone | ⟨cs, hcs, hsome⟩
    · rw [hnone]
      rfl
    · rw [hsome, hcs, List.flatMap_cons, List.flatMap_nil, List.append_nil]
      exact congrArg ('#' :: '!' :: ·) List.takeWhile_append_dropWhile
  rw [List.flatMap_append, List.flatMap_append, tokens_texts hrest, hline]
  rcases mark_cases source with hnone | ⟨cs, hcs, hsome⟩
  · rw [hnone]
    rfl
  · rw [hsome, hcs]
    rfl

end

end RustLexer
