import Orvek.Lib.RustLexer
import Orvek.Sloppiness.Strip

/-!
# Which bytes the Rust scanner takes for comments

The scanner of `stripRustComments` beside the tokens of the language. It has no state for a character literal and
none for a name, so that three kinds of token are misread.

* `Exact`          exactly the bytes of comments are blanked;
* `Misread`        a token that the scanner reads in another way;
* `Quiet`          a character that leaves the scanner in code; `word_passes`;
* `block_passes`, `string_passes`, `raw_passes`   the other states, over the body of a token;
* `token_passes`, `lex_passes`   over tokens that are not misread the scanner comes back to code;
* `exact_of_legible`, `inexact_of_quote`   exact where no token is misread, and not after a quotation mark in a
                   character literal if a comment comes before the next one.
-/

set_option linter.unusedSectionVars false

namespace Orvek.Sloppiness
open Json Scanner RustLexer

variable {c : Char} {cs after : List Char} {found : List Char × List Char} {source : String}

/-! ## what is expected -/

def cleaned (t : Token) : List UInt8 := if t.isComment then (utf8 t.text).map blanked else utf8 t.text

/-- the output is the source with the bytes of comments blanked and no others -/
def Exact (source : String) (ts : List Token) : Prop :=
  ∃ out, stripRustComments source = some out ∧ utf8 out.toList = ts.flatMap cleaned

/-- a character literal with a quotation mark, a name right before a quotation mark that its last letter turns into
a raw string, a shebang line with a mark in it -/
def Misread (t : Token) (after : List Char) : Prop :=
  (t.kind = .character ∧ '"' ∈ t.text) ∨ (t.text.getLast? = some 'r' ∧ opensRaw after = true) ∨
    (t.kind = .shebang ∧ ('"' ∈ t.text ∨ ['/', '/'] <:+: t.text ∨ ['/', '*'] <:+: t.text))

instance (t : Token) (after : List Char) : Decidable (Misread t after) := by
  unfold Misread
  infer_instance

def Legible (after : List Char) : List Token → Prop
  | [] => True
  | t :: ts => ¬Misread t (ts.flatMap Token.text ++ after) ∧ Legible after ts

instance decidableLegible (after : List Char) : (ts : List Token) → Decidable (Legible after ts)
  | [] => isTrue trivial
  | _ :: ts => @instDecidableAnd _ _ inferInstance (decidableLegible after ts)

/-! ## bytes and characters -/

theorem utf8_single (c : Char) : utf8 [c] = String.utf8EncodeChar c := List.append_nil _

theorem utf8_cons_low (h : c.toNat < 128) (cs : List Char) :
    utf8 (c :: cs) = UInt8.ofNat c.toNat :: utf8 cs := by
  rw [utf8_cons, utf8_low h]
  rfl

theorem low_ne {x : Char} (hc : c.toNat < 128) (hx : x.toNat < 128) (h : c ≠ x) :
    UInt8.ofNat c.toNat ≠ UInt8.ofNat x.toNat := by
  intro he
  refine h ((single_iff hx).mp ?_)
  rw [utf8_low hc, he]
  exact List.mem_singleton_self _

theorem utf8_hashes (n : Nat) : utf8 (List.replicate n '#') = List.replicate n hash := by
  induction n with
  | zero => rfl
  | succ n ih => rw [List.replicate_succ, List.replicate_succ, utf8_cons, ih]; rfl

theorem low_hashes (n : Nat) : ∀ c ∈ List.replicate n '#', c.toNat < 128 := by
  intro c hc
  rw [List.eq_of_mem_replicate hc]
  decide

theorem low_pair {x y : Char} (hx : x.toNat < 128) (hy : y.toNat < 128) : ∀ c ∈ [x, y], c.toNat < 128 :=
  List.forall_mem_cons.mpr ⟨hx, List.forall_mem_singleton.mpr hy⟩

theorem startsWith_chars {marker : String} {front : List Char} (hmarker : marker.toList = front)
    (hascii : ∀ c ∈ front, c.toNat < 128) : startsWith (utf8 cs) marker = true ↔ front <+: cs := by
  rw [startsWith_iff, hmarker]
  constructor
  · rintro ⟨bytes, h⟩
    obtain ⟨cs', rfl, -⟩ := ascii_front hascii h.symm
    exact List.prefix_append _ _
  · rintro ⟨rest, rfl⟩
    rw [utf8_append]
    exact List.prefix_append _ _

theorem slashes_chars : startsWith (utf8 cs) "//" = true ↔ ['/', '/'] <+: cs :=
  startsWith_chars (by decide) (low_pair (by decide) (by decide))

theorem slashStar_chars : startsWith (utf8 cs) "/*" = true ↔ ['/', '*'] <+: cs :=
  startsWith_chars (by decide) (low_pair (by decide) (by decide))

theorem starSlash_chars : startsWith (utf8 cs) "*/" = true ↔ ['*', '/'] <+: cs :=
  startsWith_chars (by decide) (low_pair (by decide) (by decide))

theorem opensRaw_replicate (n : Nat) (rest : List Char) : opensRaw (List.replicate n '#' ++ '"' :: rest) = true := by
  rw [opensRaw, List.dropWhile_append_of_pos fun c hc => decide_eq_true (List.eq_of_mem_replicate hc)]
  rfl

theorem rawStringStart_chars {hashes consumed : Nat}
    (h : rawStringStart (utf8 cs) = some (hashes, consumed)) :
    ∃ rest, opensRaw rest = true ∧ (cs = 'r' :: rest ∨ cs = 'b' :: 'r' :: rest) := by
  obtain ⟨letters, rest, hletters, hbytes, -⟩ := rawStringStart_some h
  have hfront : ∀ front : List Char, (∀ c ∈ front, c.toNat < 128) → utf8 front = letters →
      ∃ rest, opensRaw rest = true ∧ cs = front ++ rest := by
    intro front hascii hutf8
    have hwhole : utf8 cs = utf8 (front ++ (List.replicate hashes '#' ++ ['"'])) ++ rest := by
      rw [hbytes, utf8_append, utf8_append, utf8_hashes, hutf8, ← List.append_assoc, List.append_assoc _ _ rest]
      rfl
    obtain ⟨cs', rfl, -⟩ := ascii_front (by
      rw [List.forall_mem_append, List.forall_mem_append]
      exact ⟨hascii, low_hashes hashes, List.forall_mem_singleton.mpr (by decide)⟩) hwhole
    refine ⟨List.replicate hashes '#' ++ '"' :: cs', opensRaw_replicate hashes cs', ?_⟩
    rw [List.append_assoc, List.append_assoc]
    rfl
  rcases hletters with rfl | rfl
  · obtain ⟨rest, hopens, hcs⟩ := hfront ['r'] (List.forall_mem_singleton.mpr (by decide)) rfl
    exact ⟨rest, hopens, .inl hcs⟩
  · obtain ⟨rest, hopens, hcs⟩ := hfront ['b', 'r'] (low_pair (by decide) (by decide)) rfl
    exact ⟨rest, hopens, .inr hcs⟩

/-! ## in code -/

/-- a character that is copied in code and leaves the scanner there -/
structure Quiet (c : Char) (after : List Char) : Prop where
  quote : c ≠ '"'
  slash : c = '/' → after.head? ≠ some '/' ∧ after.head? ≠ some '*'
  raw : c = 'r' → ¬opensRaw after = true
  byte : c = 'b' → ∀ rest, after = 'r' :: rest → ¬opensRaw rest = true

theorem char_copied {s : State} (hcopies : Copies rustStep s)
    (hlow : c.toNat < 128 → rustStep s (UInt8.ofNat c.toNat) (utf8 cs) = some ⟨[UInt8.ofNat c.toNat], s, utf8 cs⟩)
    :
    Passes rustStep s (utf8 (c :: cs)) (utf8 [c]) s (utf8 cs) := by
  rcases high_or_single c with ⟨h, hc⟩ | ⟨-, -, hhigh⟩
  · rw [utf8_cons_low h, utf8_single, hc]
    exact passes_turn (hlow h)
  · have hpasses := @passes_each _ _ _ rustStep s id _ (utf8 cs) fun b hb l => hcopies b (hhigh b hb) l
    rw [List.map_id] at hpasses
    rwa [utf8_cons, utf8_single]

theorem quiet_passes (h : Quiet c cs) :
    Passes rustStep .code (utf8 (c :: cs)) (utf8 [c]) .code (utf8 cs) := by
  refine char_copied (fun b hb l => high_code hb) fun hlow => ?_
  have hwhole := utf8_cons_low hlow cs
  refine code_other ?_ ?_ ?_ ?_
  · rw [← hwhole, slashes_chars]
    rintro ⟨rest, hrest⟩
    obtain ⟨hc, rfl⟩ := List.cons.inj hrest
    exact (h.slash hc.symm).1 rfl
  · rw [← hwhole, slashStar_chars]
    rintro ⟨rest, hrest⟩
    obtain ⟨hc, rfl⟩ := List.cons.inj hrest
    exact (h.slash hc.symm).2 rfl
  · exact low_ne hlow (by decide) h.quote
  · rw [← hwhole, Option.eq_none_iff_forall_ne_some]
    rintro ⟨hashes, consumed⟩ hraw
    obtain ⟨rest, hopens, hcs | hcs⟩ := rawStringStart_chars hraw
    · obtain ⟨hc, rfl⟩ := List.cons.inj hcs
      exact h.raw hc hopens
    · obtain ⟨hc, rfl⟩ := List.cons.inj hcs
      exact h.byte hc rest rfl hopens

theorem quiet_plain (h : c ∉ ['"', '/', 'r', 'b']) (cs : List Char) : Quiet c cs := by
  rw [List.mem_cons, List.mem_cons, List.mem_cons, List.mem_singleton, not_or, not_or, not_or] at h
  obtain ⟨hquote, hslash, hr, hb⟩ := h
  exact ⟨hquote, fun hc => absurd hc hslash, fun hc => absurd hc hr, fun hc => absurd hc hb⟩

theorem quiet_before {d : Char} (hc : c ≠ '"') (hd : d ∉ ['/', '*', '#', '"', 'r']) (cs : List Char) :
    Quiet c (d :: cs) := by
  simp only [List.mem_cons, List.not_mem_nil, or_false, not_or] at hd
  obtain ⟨hslash, hstar, hhash, hquote, hr⟩ := hd
  refine ⟨hc, fun _ => ⟨fun h => hslash (Option.some.inj h), fun h => hstar (Option.some.inj h)⟩, fun _ hopens => ?_,
    fun _ rest hrest => absurd (List.cons.inj hrest).1 hr⟩
  rw [opensRaw, List.dropWhile_cons_of_neg (by simpa using hhash)] at hopens
  exact hquote (Option.some.inj (of_decide_eq_true hopens))

theorem opensRaw_word {word : List Char} (hword : ∀ c ∈ word, c ∉ ['"', '/', '#'])
    (hafter : word = [] → ¬opensRaw after = true) : ¬opensRaw (word ++ after) = true := by
  cases word with
  | nil => exact hafter rfl
  | cons c word =>
    have hc := hword c List.mem_cons_self
    rw [List.mem_cons, List.mem_cons, List.mem_singleton, not_or, not_or] at hc
    intro hopens
    rw [List.cons_append, opensRaw, List.dropWhile_cons_of_neg (by simpa using hc.2.2)] at hopens
    exact hc.1 (Option.some.inj (of_decide_eq_true hopens))

/-- a word, with the letters of its end not read as those of a raw string -/
theorem word_passes {word after : List Char} (hword : ∀ c ∈ word, c ∉ ['"', '/', '#']) (hafter : after.head? ≠ some 'r')
    (hend : word.getLast? = some 'r' → ¬opensRaw after = true) :
    Passes rustStep .code (utf8 (word ++ after)) (utf8 word) .code (utf8 after) := by
  induction word with
  | nil => exact .refl _ _
  | cons c word ih =>
    obtain ⟨hc, hrest⟩ := List.forall_mem_cons.mp hword
    rw [List.mem_cons, List.mem_cons, List.mem_singleton, not_or, not_or] at hc
    have hquiet : Quiet c (word ++ after) := by
      refine ⟨hc.1, fun h => absurd h hc.2.1, fun h => ?_, fun h rest he => ?_⟩
      · exact opensRaw_word hrest fun hnil => hend (by rw [hnil, h]; rfl)
      · cases word with
        | nil => exact absurd (congrArg List.head? he) hafter
        | cons d word =>
          obtain ⟨rfl, rfl⟩ := List.cons.inj he
          refine opensRaw_word (fun x hx => hrest x (List.mem_cons_of_mem _ hx)) fun hnil => hend ?_
          rw [hnil]
          rfl
    have hlast : word.getLast? = some 'r' → ¬opensRaw after = true := fun h =>
      hend (by rw [List.getLast?_cons, h]; rfl)
    have hpasses := (quiet_passes hquiet).trans (ih hrest hlast)
    rwa [← utf8_append] at hpasses

/-! ## in literals and block comments -/

theorem high_string : Copies rustStep .string := by
  intro b hb l
  have hne : ∀ x : UInt8, x < 128 → b ≠ x := fun x hx he => absurd hb (UInt8.not_le.mpr (he ▸ hx))
  rw [string_other fun h => hne backslash (by decide) h.1, if_neg (hne quotationMark (by decide))]

theorem string_escaped (c : Char) (cs : List Char) :
    Passes rustStep .string (utf8 ('\\' :: c :: cs)) (utf8 ['\\', c]) .string (utf8 cs) := by
  obtain ⟨next, more, hc, hmore⟩ := tail_high c
  exact escaped_passes high_string (utf8_low (by decide)) hc hmore (string_escape next)

theorem string_char (hquote : c ≠ '"') (hescape : c = '\\' → cs = []) :
    Passes rustStep .string (utf8 (c :: cs)) (utf8 [c]) .string (utf8 cs) := by
  refine char_copied high_string fun hlow => ?_
  have hne : UInt8.ofNat c.toNat ≠ quotationMark := low_ne (x := '"') hlow (by decide) hquote
  rw [string_other, if_neg hne]
  rintro ⟨hbackslash, hrest⟩
  have hc : c = '\\' := by
    by_contra hc
    exact low_ne (x := '\\') hlow (by decide) hc hbackslash
  exact hrest (by rw [hescape hc]; rfl)

theorem string_passes (h : stringBody cs = some found) :
    Passes rustStep .string (utf8 cs) (utf8 found.1) .code (utf8 found.2) := by
  induction cs using stringBody.induct generalizing found with
  | case1 cs =>
    cases h
    rw [utf8_cons_low (by decide)]
    exact passes_turn (string_other fun h => absurd h.1 (by decide))
  | case2 c cs ih =>
    obtain ⟨inner, hinner, rfl⟩ := Option.map_eq_some_iff.mp h
    rw [push, utf8_append]
    exact (string_escaped c cs).trans (ih hinner)
  | case3 c cs hquote hescape ih =>
    rw [stringBody] at h
    · obtain ⟨inner, hinner, rfl⟩ := Option.map_eq_some_iff.mp h
      have hrest : c = '\\' → cs = [] := fun hc => by
        cases cs with
        | nil => rfl
        | cons d cs => exact absurd rfl (hescape d cs hc)
      rw [push, utf8_append]
      exact (string_char hquote hrest).trans (ih hinner)
    all_goals assumption
  | case4 => cases h

/-- in a string up to a character, with no quotation mark on the way -/
theorem string_goes_on {x : Char} (hx : x ≠ '"' ∧ x ≠ '\\') (rest : List Char) : ∀ text : List Char, '"' ∉ text →
    Passes rustStep .string (utf8 (text ++ x :: rest)) (utf8 (text ++ [x])) .string (utf8 rest)
  | [], _ => string_char hx.1 fun h => absurd h hx.2
  | [c], hquote => by
    by_cases hc : c = '\\'
    · exact hc ▸ string_escaped x rest
    · have hchar : Passes rustStep .string (utf8 (c :: x :: rest)) (utf8 [c]) .string (utf8 (x :: rest)) :=
        string_char (fun h => hquote (h ▸ List.mem_cons_self)) fun h => absurd h hc
      have hpasses := hchar.trans (string_char hx.1 fun h => absurd h hx.2)
      rwa [← utf8_append] at hpasses
  | c :: d :: text, hquote => by
    rw [List.mem_cons, not_or] at hquote
    obtain ⟨hne, hquote⟩ := hquote
    by_cases hc : c = '\\'
    · have hpasses := (string_escaped d (text ++ x :: rest)).trans
        (string_goes_on hx rest text fun hmem => hquote (List.mem_cons_of_mem d hmem))
      rw [← utf8_append] at hpasses
      exact hc ▸ hpasses
    · have hchar : Passes rustStep .string (utf8 (c :: d :: text ++ x :: rest)) (utf8 [c]) .string
          (utf8 (d :: text ++ x :: rest)) := string_char (fun h => hne h.symm) fun h => absurd h hc
      have hpasses := hchar.trans (string_goes_on hx rest (d :: text) hquote)
      rwa [← utf8_append] at hpasses

theorem high_raw (hashes : Nat) : Copies rustStep (.raw hashes) := by
  intro b hb l
  refine raw_other fun h => ?_
  obtain ⟨after, hbytes⟩ := rawStringEnd_iff.mp h
  have hquote : b = quotationMark := (List.cons.inj hbytes).1
  exact absurd hb (UInt8.not_le.mpr (hquote ▸ by decide))

theorem raw_passes {hashes : Nat} (h : rawBody hashes cs = some found) :
    Passes rustStep (.raw hashes) (utf8 cs) (utf8 found.1) .code (utf8 found.2) := by
  induction cs generalizing found with
  | nil => cases h
  | cons c cs ih =>
    rw [rawBody] at h
    split at h
    · rename_i hend
      obtain ⟨rfl, rest, rfl⟩ := hend
      rw [List.drop_left' List.length_replicate] at h
      cases h
      have hturn := passes_turn (raw_end hashes (utf8 rest))
      rw [utf8_cons_low (by decide), utf8_cons_low (by decide), utf8_append, utf8_hashes]
      exact hturn
    · rename_i hend
      obtain ⟨inner, hinner, rfl⟩ := Option.map_eq_some_iff.mp h
      have hcopied : Passes rustStep (.raw hashes) (utf8 (c :: cs)) (utf8 [c]) (.raw hashes) (utf8 cs) := by
        refine char_copied (high_raw hashes) fun hlow => raw_other fun hraw => hend ?_
        rw [← utf8_cons_low hlow] at hraw
        obtain ⟨after, hbytes⟩ := rawStringEnd_iff.mp hraw
        have hfront : utf8 (c :: cs) = utf8 ('"' :: List.replicate hashes '#') ++ after := by
          rw [hbytes, utf8_cons_low (by decide), utf8_hashes]
          rfl
        obtain ⟨cs', hcs, -⟩ := ascii_front (List.forall_mem_cons.mpr ⟨by decide, low_hashes hashes⟩) hfront
        obtain ⟨rfl, rfl⟩ := List.cons.inj hcs
        exact ⟨rfl, List.prefix_append _ _⟩
      rw [push, utf8_append]
      exact hcopied.trans (ih hinner)

theorem char_blanked {depth : Nat} (hopen : ¬['/', '*'] <+: c :: cs) (hclose : ¬['*', '/'] <+: c :: cs) :
    Passes rustStep (.block depth) (utf8 (c :: cs)) ((utf8 [c]).map blanked)
      (.block depth) (utf8 cs) := by
  rcases high_or_single c with ⟨hlow, hc⟩ | ⟨-, -, hhigh⟩
  · rw [utf8_cons_low hlow, utf8_single, hc]
    refine passes_turn (block_byte depth ?_ ?_)
    · rwa [← utf8_cons_low hlow, slashStar_chars]
    · rwa [← utf8_cons_low hlow, starSlash_chars]
  · rw [utf8_cons, utf8_single]
    refine passes_each fun b hb l => ?_
    have hne : ∀ x : UInt8, x < 128 → b ≠ x := fun x hx he => absurd (hhigh b hb) (UInt8.not_le.mpr (he ▸ hx))
    exact block_byte depth (not_startsWith utf8_slashStar (hne 47 (by decide)))
      (not_startsWith utf8_starSlash (hne 42 (by decide)))

theorem block_passes {depth : Nat} (h : blockBody depth cs = some found) :
    Passes rustStep (.block (depth + 1)) (utf8 cs) ((utf8 found.1).map blanked) .code (utf8 found.2) := by
  induction depth, cs using blockBody.induct generalizing found with
  | case1 depth cs ih =>
    obtain ⟨inner, hinner, rfl⟩ := Option.map_eq_some_iff.mp h
    have hturn := passes_turn (block_opens (depth + 1) (slashStar_chars.mpr ⟨cs, rfl⟩))
    rw [push, utf8_append, List.map_append]
    exact hturn.trans (ih hinner)
  | case2 cs =>
    cases h
    exact passes_turn (block_closes 0 (starSlash_chars.mpr ⟨cs, rfl⟩))
  | case3 depth cs ih =>
    obtain ⟨inner, hinner, rfl⟩ := Option.map_eq_some_iff.mp h
    have hturn := passes_turn (block_closes (depth + 1) (starSlash_chars.mpr ⟨cs, rfl⟩))
    rw [push, utf8_append, List.map_append]
    exact hturn.trans (ih hinner)
  | case4 depth c cs hopen hzero hclose ih =>
    rw [blockBody] at h
    · obtain ⟨inner, hinner, rfl⟩ := Option.map_eq_some_iff.mp h
      have hblanked : Passes rustStep (.block (depth + 1)) (utf8 (c :: cs)) ((utf8 [c]).map blanked)
          (.block (depth + 1)) (utf8 cs) := by
        refine char_blanked ?_ ?_
        · rintro ⟨rest, hrest⟩
          obtain ⟨hc, rfl⟩ := List.cons.inj hrest
          exact hopen rest hc.symm rfl
        · rintro ⟨rest, hrest⟩
          obtain ⟨hc, rfl⟩ := List.cons.inj hrest
          cases depth with
          | zero => exact hzero rest rfl hc.symm rfl
          | succ depth => exact hclose depth rest rfl hc.symm rfl
      rw [push, utf8_append, List.map_append]
      exact hblanked.trans (ih hinner)
    all_goals assumption
  | case5 => cases h

/-! ## over a token -/

section
variable {xidStart xidContinue : Char → Bool}
variable {found : List Char × List Char} {t : Token} {rest cs : List Char} (front : List Char)

theorem nameChar_plain {name : List Char} (h : ∀ c ∈ name, nameChar xidStart xidContinue c = true) :
    ∀ c ∈ name, c ∉ ['"', '/', '#'] := by
  intro c hc hmem
  refine nameChar_ne (h c hc) ?_
  exact List.mem_append_left ['\''] hmem

theorem suffix_passes {kind : Kind} {front : List Char}
    (h : literal xidStart xidContinue kind front found = (t, rest)) (hmisread : ¬Misread t rest) :
    ∃ suffix, t = ⟨kind, front ++ found.1 ++ suffix⟩ ∧
      Passes rustStep .code (utf8 found.2) (utf8 suffix) .code (utf8 rest) := by
  obtain ⟨suffix, htoken, hrest, hname, hhead⟩ :=
    literal_suffix xidStart xidContinue kind front found
  rw [h] at htoken hrest hhead
  refine ⟨suffix, htoken, ?_⟩
  rw [hrest]
  rcases hhead with rfl | hhead
  · exact .refl _ _
  · refine word_passes (nameChar_plain hname) hhead fun hlast hopens => hmisread (.inr (.inl ⟨?_, hopens⟩))
    rw [show t = ⟨kind, front ++ found.1 ++ suffix⟩ from htoken, List.getLast?_append, hlast]
    rfl

theorem quote_passes (cs : List Char) :
    Passes rustStep .code (utf8 ('\'' :: cs)) (utf8 ['\'']) .code (utf8 cs) := quiet_passes (quiet_plain (by decide) cs)

theorem escape_passes (h : escapeBody cs = some found) (hquote : '"' ∉ found.1) :
    Passes rustStep .code (utf8 cs) (utf8 found.1) .code (utf8 found.2) := by
  obtain ⟨inner, hinner, hplain⟩ := escapeBody_shape h
  have hword : ∀ c ∈ inner, c ∉ ['"', '/', '#'] := by
    intro c hc
    rcases hplain with hplain | rfl
    · have hnot := hplain c hc
      simp only [List.mem_cons, List.not_mem_nil, or_false, not_or] at hnot ⊢
      exact ⟨hnot.2.2, hnot.1, hnot.2.1⟩
    · exact absurd (hinner ▸ List.mem_cons_self) hquote
  have hpasses := @word_passes inner ('\'' :: found.2) hword (by simp) fun _ => by simp [opensRaw]
  rw [escapeBody_text h, hinner, List.append_assoc, utf8_append inner ['\'']]
  exact hpasses.trans (quote_passes found.2)

theorem character_passes (h : literal xidStart xidContinue .character front found = (t, rest))
    (hmisread : ¬Misread t rest)
    (hfront : '"' ∉ front ++ found.1 → Passes rustStep .code (utf8 (front ++ cs)) (utf8 (front ++ found.1)) .code
      (utf8 found.2)) : Passes rustStep .code (utf8 (front ++ cs)) (cleaned t) .code (utf8 rest) := by
  obtain ⟨suffix, rfl, hsuffix⟩ := suffix_passes h hmisread
  have hquote : '"' ∉ front ++ found.1 := fun hmem => hmisread (.inl ⟨rfl, List.mem_append_left _ hmem⟩)
  have hpasses := (hfront hquote).trans hsuffix
  rwa [← utf8_append] at hpasses

theorem name_passes (hfront : front ∈ [['\''], ['\'', 'r', '#'], ['r', '#']]) {c : Char}
    (hstart : idStart xidStart c = true)
    (hend : (front ++ c :: cs.takeWhile (idContinue xidContinue)).getLast? = some 'r' →
      ¬opensRaw (cs.dropWhile (idContinue xidContinue)) = true) :
    Passes rustStep .code (utf8 (front ++ c :: cs)) (utf8 (front ++ c :: cs.takeWhile (idContinue xidContinue))) .code
      (utf8 (cs.dropWhile (idContinue xidContinue))) := by
  have hname : ∀ x ∈ c :: cs.takeWhile (idContinue xidContinue), nameChar xidStart xidContinue x = true := by
    refine List.forall_mem_cons.mpr ⟨?_, nameChar_takeWhile cs⟩
    rw [nameChar, hstart, Bool.true_or, Bool.true_or]
  have hword := word_passes (nameChar_plain hname) (dropWhile_head cs) fun hlast => hend (by
    rw [List.getLast?_append, hlast]
    rfl)
  rw [List.cons_append, List.takeWhile_append_dropWhile] at hword
  have hraw : Passes rustStep .code (utf8 ('r' :: '#' :: c :: cs)) (utf8 ['r', '#']) .code (utf8 (c :: cs)) := by
    have hc := nameChar_plain hname c List.mem_cons_self
    rw [List.mem_cons, List.mem_cons, List.mem_singleton, not_or, not_or] at hc
    have hr : Quiet 'r' ('#' :: c :: cs) := by
      refine ⟨by decide, fun h => absurd h (by decide), fun _ hopens => ?_, fun h => absurd h (by decide)⟩
      rw [opensRaw, List.dropWhile_cons_of_pos (by decide),
        List.dropWhile_cons_of_neg (by simpa using hc.2.2)] at hopens
      exact hc.1 (Option.some.inj (of_decide_eq_true hopens))
    exact (quiet_passes hr).trans (quiet_passes (quiet_plain (by decide) _))
  rw [utf8_append front (c :: cs.takeWhile _)]
  simp only [List.mem_cons, List.not_mem_nil, or_false] at hfront
  rcases hfront with rfl | rfl | rfl
  · exact (quote_passes _).trans hword
  · exact ((quote_passes _).trans hraw).trans hword
  · exact hraw.trans hword

theorem lifetime_passes (hfront : front ∈ [['\''], ['\'', 'r', '#'], ['r', '#']]) {c : Char}
    (hstart : idStart xidStart c = true) (h : lifetime xidContinue front c cs = some (t, rest))
    (hmisread : ¬Misread t rest) :
    Passes rustStep .code (utf8 (front ++ c :: cs)) (cleaned t) .code (utf8 rest) := by
  unfold lifetime at h
  split at h
  · cases h
  · cases h
    exact name_passes front hfront hstart fun hlast hopens => hmisread (.inr (.inl ⟨hlast, hopens⟩))

theorem quoteToken_passes (h : quoteToken xidStart xidContinue cs = some (t, rest))
    (hmisread : ¬Misread t rest) :
    Passes rustStep .code (utf8 ('\'' :: cs)) (cleaned t) .code (utf8 rest) := by
  rcases quoteToken_cases h with ⟨cs', body, rfl, hbody, hfound⟩ | ⟨c, cs', rfl, hfound⟩ |
    ⟨c, cs', rfl, hstart, hfound⟩ | ⟨cs', rfl, hfound⟩ | ⟨c, cs', rfl, hstart, hfound⟩
  · refine character_passes ['\'', '\\'] hfound.symm hmisread fun hquote => ?_
    have hopening : Passes rustStep .code (utf8 ('\'' :: '\\' :: cs')) (utf8 ['\'', '\\']) .code (utf8 cs') :=
      (quote_passes _).trans (quiet_passes (quiet_plain (by decide) _))
    rw [utf8_append ['\'', '\\'] body.1]
    exact hopening.trans (escape_passes hbody fun hmem => hquote (List.mem_append_right _ hmem))
  · refine character_passes ['\''] hfound.symm hmisread fun hquote => ?_
    have hc : c ≠ '"' := fun hc => hquote (hc ▸ List.mem_cons_of_mem _ List.mem_cons_self)
    have hchar : Passes rustStep .code (utf8 (c :: '\'' :: cs')) (utf8 [c]) .code (utf8 ('\'' :: cs')) :=
      quiet_passes (quiet_before hc (by decide) cs')
    have hpasses := ((quote_passes (c :: '\'' :: cs')).trans hchar).trans (quote_passes cs')
    rwa [← utf8_append, ← utf8_append] at hpasses
  · exact lifetime_passes ['\'', 'r', '#'] (by decide) hstart hfound hmisread
  · cases hfound
    have hr : Quiet 'r' ('#' :: cs') :=
      ⟨by decide, fun h => absurd h (by decide), fun _ hopens => hmisread (.inr (.inl ⟨rfl, hopens⟩)),
        fun h => absurd h (by decide)⟩
    exact (quote_passes _).trans (quiet_passes hr)
  · exact lifetime_passes ['\''] (by decide) hstart hfound hmisread

theorem opening_passes {word : List Char} (hword : word ∈ rawLetters) (hashes : Nat) (cs : List Char) :
    Passes rustStep .code (utf8 (word ++ List.replicate hashes '#' ++ '"' :: cs))
      (utf8 (word ++ List.replicate hashes '#' ++ ['"'])) (.raw hashes) (utf8 cs) := by
  have hraw : ∀ front : List Char, RawLetters (utf8 front) →
      Passes rustStep .code (utf8 (front ++ List.replicate hashes '#' ++ '"' :: cs))
        (utf8 (front ++ List.replicate hashes '#' ++ ['"'])) (.raw hashes) (utf8 cs) := by
    intro front hletters
    have hstart := rawStringStart_eq hletters hashes (utf8 cs)
    have hwhole : utf8 (front ++ List.replicate hashes '#' ++ '"' :: cs) =
        utf8 front ++ List.replicate hashes hash ++ quotationMark :: utf8 cs := by
      rw [utf8_append, utf8_append, utf8_hashes, utf8_cons_low (by decide)]
      rfl
    have hread : utf8 (front ++ List.replicate hashes '#' ++ ['"']) =
        utf8 front ++ List.replicate hashes hash ++ [quotationMark] := by
      rw [utf8_append, utf8_append, utf8_hashes]
      rfl
    obtain ⟨b, bytes, hb⟩ := List.exists_cons_of_ne_nil (fun hnil : utf8 front = [] => by
      rcases hletters with h | h
      · exact absurd (hnil.symm.trans h) (by decide)
      · exact absurd (hnil.symm.trans h) (by decide))
    have hlength : (utf8 front).length + hashes + 1 =
        (utf8 (front ++ List.replicate hashes '#' ++ ['"'])).length := by
      rw [hread, List.length_append, List.length_append, List.length_replicate]
      rfl
    rw [hlength, ← hwhole] at hstart
    have hcons : utf8 (front ++ List.replicate hashes '#' ++ '"' :: cs) =
        b :: (bytes ++ List.replicate hashes hash ++ quotationMark :: utf8 cs) := by
      rw [hwhole, hb]
      rfl
    have happend : utf8 (front ++ List.replicate hashes '#' ++ '"' :: cs) =
        utf8 (front ++ List.replicate hashes '#' ++ ['"']) ++ utf8 cs := by
      rw [hwhole, hread, List.append_assoc _ [quotationMark]]
      rfl
    rw [hcons] at happend hstart ⊢
    exact passes_turn (code_raw happend hstart)
  simp only [rawLetters, List.mem_cons, List.not_mem_nil, or_false] at hword
  rcases hword with rfl | rfl | rfl
  · exact hraw ['r'] (.inl rfl)
  · exact hraw ['b', 'r'] (.inr rfl)
  · exact (quiet_passes (quiet_plain (by decide) _)).trans (hraw ['r'] (.inl rfl))

theorem wordToken_passes {word after : List Char}
    (hword : ∀ c ∈ word, nameChar xidStart xidContinue c = true) (hafter : after.head? ≠ some 'r')
    (h : wordToken xidStart xidContinue word after = some (t, rest)) (hmisread : ¬Misread t rest) :
    Passes rustStep .code (utf8 (word ++ after)) (cleaned t) .code (utf8 rest) := by
  rcases wordToken_cases h with ⟨-, hfound⟩ | ⟨hashes, cs, body, hraw, rfl, hbody, hfound⟩ |
    ⟨c, cs, rfl, rfl, hstart, hfound⟩
  · cases hfound
    exact word_passes (nameChar_plain hword) hafter fun hlast hopens => hmisread (.inr (.inl ⟨hlast, hopens⟩))
  · obtain ⟨suffix, rfl, hsuffix⟩ := suffix_passes hfound.symm hmisread
    have hpasses := ((opening_passes hraw hashes cs).trans (raw_passes hbody)).trans hsuffix
    rw [← utf8_append, ← utf8_append] at hpasses
    rwa [← List.append_assoc]
  · cases hfound
    exact name_passes ['r', '#'] (by decide) hstart fun hlast hopens => hmisread (.inr (.inl ⟨hlast, hopens⟩))

theorem line_passes (cs : List Char) : Passes rustStep .code (utf8 ('/' :: '/' :: cs))
    (cleaned ⟨.lineComment, ('/' :: '/' :: cs).takeWhile (· ≠ '\n')⟩) .code
    (utf8 (('/' :: '/' :: cs).dropWhile (· ≠ '\n'))) := by
  obtain ⟨htake, hdrop⟩ := @takeWhile_utf8 '\n' (by decide) ('/' :: '/' :: cs)
  have hturn := passes_turn (code_line (slashes_chars.mpr ⟨cs, rfl⟩ : startsWith (utf8 ('/' :: '/' :: cs)) "//" = true))
  have hspaces : cleaned ⟨.lineComment, ('/' :: '/' :: cs).takeWhile (· ≠ '\n')⟩ =
      ((utf8 ('/' :: '/' :: cs)).takeWhile (· ≠ newline)).map fun _ => space := by
    refine (congrArg (List.map blanked) htake.symm).trans (List.map_congr_left fun b hb => if_neg ?_)
    exact of_decide_eq_true (@List.mem_takeWhile_imp _ (fun x => decide (x ≠ newline)) _ b hb)
  rw [hspaces, ← hdrop]
  exact hturn

attribute [grind =] cleaned

theorem token_passes {c : Char} (h : token xidStart xidContinue c cs = some (t, rest))
    (hmisread : ¬Misread t rest) :
    Passes rustStep .code (utf8 (c :: cs)) (cleaned t) .code (utf8 rest) := by
  unfold token at h
  split at h
  · rename_i hline
    obtain ⟨rfl, hslash⟩ := hline
    obtain ⟨cs, rfl⟩ := List.head?_eq_some_iff.mp hslash
    cases h
    exact line_passes cs
  rename_i hline
  split at h
  · rename_i hblock
    obtain ⟨rfl, hstar⟩ := hblock
    obtain ⟨cs, rfl⟩ := List.head?_eq_some_iff.mp hstar
    obtain ⟨found, hfound, h⟩ := Option.map_eq_some_iff.mp h
    cases h
    have hturn := passes_turn (code_block (slashStar_chars.mpr ⟨cs, rfl⟩))
    exact hturn.trans (block_passes hfound)
  rename_i hblock
  split at h
  · rename_i hquote
    subst hquote
    obtain ⟨found, hfound, h⟩ := Option.map_eq_some_iff.mp h
    obtain ⟨suffix, rfl, hsuffix⟩ := suffix_passes h hmisread
    have hturn := passes_turn (@code_quote (utf8 cs))
    have hpasses := (hturn.trans (string_passes hfound)).trans hsuffix
    rw [show cleaned ⟨.string, ['"'] ++ found.1 ++ suffix⟩ = utf8 (['"'] ++ found.1 ++ suffix) from rfl, utf8_append,
      utf8_append]
    exact hpasses
  rename_i hquote
  split at h
  · rename_i hquote
    subst hquote
    exact quoteToken_passes h hmisread
  split at h
  · rename_i hstart
    have hname : ∀ x ∈ c :: cs.takeWhile (idContinue xidContinue), nameChar xidStart xidContinue x = true := by
      refine List.forall_mem_cons.mpr ⟨?_, nameChar_takeWhile cs⟩
      rw [nameChar, Bool.or_right_comm, hstart, Bool.true_or]
    have hpasses := wordToken_passes hname (dropWhile_head cs) h hmisread
    rwa [List.cons_append, List.takeWhile_append_dropWhile] at hpasses
  · rename_i hstart
    cases h
    refine quiet_passes ⟨hquote, fun hc => ?_, fun hc => ?_, fun hc => ?_⟩
    · exact ⟨fun hhead => hline ⟨hc, hhead⟩, fun hhead => hblock ⟨hc, hhead⟩⟩
    · subst hc
      exact absurd rfl hstart
    · subst hc
      exact absurd rfl hstart

end

/-! ## the beginning of a source -/

theorem opensRaw_append {text : List Char} (hquote : '"' ∉ text) (h : opensRaw (text ++ after) = true) :
    opensRaw after = true := by
  induction text with
  | nil => exact h
  | cons c text ih =>
    rw [List.mem_cons, not_or] at hquote
    by_cases hc : c = '#'
    · refine ih hquote.2 ?_
      rw [hc, List.cons_append, opensRaw, List.dropWhile_cons_of_pos (by decide)] at h
      exact h
    · rw [List.cons_append, opensRaw, List.dropWhile_cons_of_neg (by simpa using hc)] at h
      exact absurd (Option.some.inj (of_decide_eq_true h)).symm hquote.1

theorem plainLine_passes {text : List Char} (hquote : '"' ∉ text) (hline : ¬['/', '/'] <:+: text)
    (hblock : ¬['/', '*'] <:+: text) (hafter : after.head? = none ∨ after.head? = some '\n') :
    Passes rustStep .code (utf8 (text ++ after)) (utf8 text) .code (utf8 after) := by
  have hhead : ∀ c, c ≠ '\n' → after.head? ≠ some c := by
    intro c hc h
    rcases hafter with hnone | hnewline
    · cases hnone.symm.trans h
    · exact hc (Option.some.inj (h.symm.trans hnewline))
  have hopens : ¬opensRaw after = true := by
    cases after with
    | nil => decide
    | cons c after =>
      rcases hafter with hnone | hnewline
      · cases hnone
      · cases Option.some.inj hnewline
        simp [opensRaw]
  induction text with
  | nil => exact .refl _ _
  | cons c text ih =>
    have hrest : ∀ l, ¬l <:+: c :: text → ¬l <:+: text := fun l h hl => h (hl.trans (List.suffix_cons c text).isInfix)
    have hnext : ∀ d, c = '/' → (text ++ after).head? = some d → d ≠ '\n' → ['/', d] <:+: c :: text := by
      intro d hc h hd
      cases text with
      | nil => exact absurd h (hhead d hd)
      | cons x text =>
        obtain rfl : x = d := Option.some.inj h
        rw [hc]
        exact (List.prefix_append ['/', x] text).isInfix
    rw [List.mem_cons, not_or] at hquote
    have hquiet : Quiet c (text ++ after) := by
      refine ⟨fun h => hquote.1 h.symm, fun hc => ⟨fun h => ?_, fun h => ?_⟩,
        fun _ h => hopens (opensRaw_append hquote.2 h), fun _ rest he h => ?_⟩
      · exact hline (hnext '/' hc h (by decide))
      · exact hblock (hnext '*' hc h (by decide))
      · cases text with
        | nil => exact hhead 'r' (by decide) (congrArg List.head? he)
        | cons x text =>
          obtain ⟨rfl, rfl⟩ := List.cons.inj he
          exact hopens (opensRaw_append (fun hmem => hquote.2 (List.mem_cons_of_mem _ hmem)) h)
    have hpasses := (quiet_passes hquiet).trans (ih hquote.2 (hrest _ hline) (hrest _ hblock))
    rwa [← utf8_append] at hpasses

/-! ## over a source -/

section
variable {xidStart xidContinue : Char → Bool} {source : List Char}

theorem lex_token_passes {a b : List Token} {t : Token} (h : lex xidStart xidContinue source = some (a ++ t :: b))
    (hmisread : ¬Misread t (b.flatMap Token.text)) : Passes rustStep .code (utf8 (t.text ++ b.flatMap Token.text))
      (cleaned t) .code (utf8 (b.flatMap Token.text)) := by
  rcases lex_at h with ⟨c, cs, htoken⟩ | rfl | ⟨hshebang, hhead⟩
  · rw [← token_text htoken]
    exact token_passes htoken hmisread
  · exact quiet_passes (quiet_plain (by decide) _)
  · have hpasses := plainLine_passes (fun hmem => hmisread (.inr (.inr ⟨hshebang, .inl hmem⟩)))
      (fun hmem => hmisread (.inr (.inr ⟨hshebang, .inr (.inl hmem)⟩)))
      (fun hmem => hmisread (.inr (.inr ⟨hshebang, .inr (.inr hmem)⟩))) hhead
    rwa [cleaned, Token.isComment, hshebang]

theorem lex_passes {p a b : List Token} (h : lex xidStart xidContinue source = some (p ++ (a ++ b)))
    (hlegible : Legible (b.flatMap Token.text) a) :
    Passes rustStep .code (utf8 ((a ++ b).flatMap Token.text)) (a.flatMap cleaned) .code
      (utf8 (b.flatMap Token.text)) := by
  induction a generalizing p with
  | nil => exact .refl _ _
  | cons t a ih =>
    obtain ⟨hmisread, hlegible⟩ := hlegible
    rw [← List.flatMap_append] at hmisread
    have hrest : lex xidStart xidContinue source = some (p ++ [t] ++ (a ++ b)) := by
      rw [h, List.append_assoc]
      rfl
    exact (lex_token_passes h hmisread).trans (ih hrest hlegible)

end

theorem strip_of_yields {bytes : List UInt8} (h : Yields rustStep .code (utf8 source.toList) bytes) :
    ∃ out, stripRustComments source = some out ∧ utf8 out.toList = bytes := by
  have hloop := loop_of_yields rust_blanking.reads (s := .code) trivial h (Nat.le_refl _)
  obtain ⟨out, hout, -⟩ := stripRustComments_layout source
  refine ⟨out, hout, ?_⟩
  rw [stripRustComments, hloop] at hout
  exact utf8_fromUtf8 hout

theorem exact_of_legible {xidStart xidContinue : Char → Bool} {ts : List Token}
    (h : lex xidStart xidContinue source.toList = some ts) (hlegible : Legible [] ts) :
    Exact source ts := by
  have hpasses := lex_passes (p := []) (a := ts) (b := []) (by rw [List.append_nil]; exact h) hlegible
  rw [List.append_nil, lex_texts h] at hpasses
  have hyields := hpasses [] (.done _)
  rw [List.append_nil] at hyields
  exact strip_of_yields hyields

theorem cleaned_other {t : Token} (h : t.isComment = false) : cleaned t = utf8 t.text := by rw [cleaned, h]; rfl

theorem cleaned_others {ts : List Token} (h : ∀ t ∈ ts, t.isComment = false) :
    ts.flatMap cleaned = utf8 (ts.flatMap Token.text) := by
  induction ts with
  | nil => rfl
  | cons t ts ih =>
    obtain ⟨ht, hts⟩ := List.forall_mem_cons.mp h
    rw [List.flatMap_cons, List.flatMap_cons, utf8_append, cleaned_other ht, ih hts]

/-- After a quotation mark in a character literal a comment stays in the output, unless another mark comes first. -/
theorem inexact_of_quote {xidStart xidContinue : Char → Bool} {a b d : List Token} {q c : Token}
    (h : lex xidStart xidContinue source.toList = some (a ++ q :: (b ++ c :: d)))
    (hlegible : Legible ((q :: (b ++ c :: d)).flatMap Token.text) a) (hkind : q.kind = .character)
    (hquote : '"' ∈ q.text) (hb : ∀ t ∈ b, t.isComment = false ∧ '"' ∉ t.text) (hc : c.isComment = true) :
    ¬Exact source (a ++ q :: (b ++ c :: d)) := by
  obtain ⟨front, name, htext, hfront, hname⟩ : ∃ front name, q.text = front ++ '"' :: '\'' :: name ∧
      (front = ['\''] ∨ front = ['\'', '\\']) ∧ ∀ x ∈ name, nameChar xidStart xidContinue x = true := by
    rcases lex_at h with ⟨x, cs, htoken⟩ | rfl | ⟨hshebang, -⟩
    · exact character_quote htoken hkind hquote
    · cases hkind
    · exact absurd (hshebang.symm.trans hkind) (by decide)
  obtain ⟨text, hcomment⟩ : ∃ text, c.text = '/' :: text := by
    have hat : lex xidStart xidContinue source.toList = some (a ++ q :: b ++ c :: d) := by
      rw [h, List.append_assoc]
      rfl
    rcases lex_at hat with ⟨x, cs, htoken⟩ | rfl | ⟨hshebang, -⟩
    · exact comment_start htoken hc
    · cases hc
    · rw [Token.isComment, hshebang] at hc
      cases hc
  have hopening : ∀ cs, Passes rustStep .code (utf8 (front ++ '"' :: cs)) (utf8 (front ++ ['"'])) .string (utf8 cs) := by
    intro cs
    have hturn := passes_turn (@code_quote (utf8 cs))
    rcases hfront with rfl | rfl
    · exact (quote_passes _).trans hturn
    · exact ((quote_passes _).trans (quiet_passes (quiet_plain (by decide) _))).trans hturn
  have hplain : '"' ∉ '\'' :: name ++ b.flatMap Token.text := by
    intro hmem
    rcases List.mem_append.mp hmem with hmem | hmem
    · rcases List.mem_cons.mp hmem with hmem | hmem
      · exact absurd hmem (by decide)
      · exact nameChar_ne (hname _ hmem) List.mem_cons_self
    · obtain ⟨t, ht, hmem⟩ := List.mem_flatMap.mp hmem
      exact (hb t ht).2 hmem
  have hrest : (q :: (b ++ c :: d)).flatMap Token.text =
      front ++ '"' :: ('\'' :: name ++ b.flatMap Token.text ++ '/' :: (text ++ d.flatMap Token.text)) := by
    rw [List.flatMap_cons, List.flatMap_append, List.flatMap_cons, htext, hcomment]
    simp only [List.append_assoc, List.cons_append]
  have hrun := lex_passes (p := []) (a := a) (b := q :: (b ++ c :: d)) h hlegible
  rw [lex_texts h, hrest] at hrun
  have hlast := (hrun.trans (hopening _)).trans (string_goes_on (x := '/') (by decide) _ _ hplain)
  obtain ⟨after, hafter⟩ := yields_utf8 (fun s c cs hs => rust_blanking.crosses hs c cs)
    (s := .string) trivial (text ++ d.flatMap Token.text)
  obtain ⟨out, hout, hbytes⟩ := strip_of_yields (hlast _ hafter)
  rintro ⟨out', hout', hexpected⟩
  obtain rfl := Option.some.inj (hout.symm.trans hout')
  have hbefore : (q :: b).flatMap cleaned = utf8 (front ++ ['"']) ++ utf8 ('\'' :: name ++ b.flatMap Token.text) := by
    rw [cleaned_others (List.forall_mem_cons.mpr ⟨not_comment (by rw [hkind]; decide), fun t ht => (hb t ht).1⟩),
      List.flatMap_cons, htext, ← utf8_append]
    simp only [List.append_assoc, List.cons_append, List.nil_append]
  have hspace : ∃ more, cleaned c = space :: more := by
    rw [cleaned, hc, if_pos rfl, hcomment, utf8_cons_low (by decide)]
    exact ⟨_, rfl⟩
  obtain ⟨more, hspace⟩ := hspace
  rw [hbytes, List.flatMap_append, ← List.cons_append, List.flatMap_append, hbefore, List.flatMap_cons, hspace,
    utf8_append _ ['/']] at hexpected
  simp only [List.append_assoc, List.append_cancel_left_eq] at hexpected
  exact absurd (List.cons.inj hexpected).1 (by decide)

/-- Where no token is misread exactly the comments of a source are blanked; where the first misread token is a character
literal with a quotation mark and the next comment comes before the next such mark, they are not. -/
theorem comments_exact {xidStart xidContinue : Char → Bool} {source : String} {ts : List Token}
    (h : lex xidStart xidContinue source.toList = some ts) :
    (Legible [] ts → Exact source ts) ∧
      ∀ a q b c d, ts = a ++ q :: (b ++ c :: d) → Legible ((q :: (b ++ c :: d)).flatMap Token.text) a →
        q.kind = .character → '"' ∈ q.text → (∀ t ∈ b, t.isComment = false ∧ '"' ∉ t.text) → c.isComment = true →
          ¬Exact source ts := by
  refine ⟨exact_of_legible h, ?_⟩
  rintro a q b c d rfl hlegible hkind hquote hb hc
  exact inexact_of_quote h hlegible hkind hquote hb hc

theorem comments_exact_sample :
    Exact "'a' /*\n*/" [⟨.character, ['\'', 'a', '\'']⟩, ⟨.other, [' ']⟩, ⟨.blockComment, ['/', '*', '\n', '*', '/']⟩] ∧
      ¬Exact "'\"'//" [⟨.character, ['\'', '"', '\'']⟩, ⟨.lineComment, ['/', '/']⟩] := by
  have hplain : lex (fun _ => false) (fun _ => false) "'a' /*\n*/".toList = some [⟨.character, ['\'', 'a', '\'']⟩,
      ⟨.other, [' ']⟩, ⟨.blockComment, ['/', '*', '\n', '*', '/']⟩] := by decide +kernel
  have hquote : lex (fun _ => false) (fun _ => false) "'\"'//".toList = some [⟨.character, ['\'', '"', '\'']⟩,
      ⟨.lineComment, ['/', '/']⟩] := by decide +kernel
  exact ⟨(comments_exact hplain).1 (by decide), (comments_exact hquote).2 [] _ [] _ [] rfl trivial rfl (by decide) nofun rfl⟩

/-- in a source with a quotation mark in a character literal a comment stays -/
theorem quote_literal_comment : ¬∀ ts, lex (fun _ => false) (fun _ => false) "const Q: char = '\"'; // c\n".toList = some ts →
    Exact "const Q: char = '\"'; // c\n" ts := by
  intro h
  have hlex : lex (fun _ => false) (fun _ => false) "const Q: char = '\"'; // c\n".toList = some [
      ⟨.word, "const".toList⟩, ⟨.other, [' ']⟩, ⟨.word, ['Q']⟩, ⟨.other, [':']⟩, ⟨.other, [' ']⟩,
      ⟨.word, "char".toList⟩, ⟨.other, [' ']⟩, ⟨.other, ['=']⟩, ⟨.other, [' ']⟩, ⟨.character, ['\'', '"', '\'']⟩,
      ⟨.other, [';']⟩, ⟨.other, [' ']⟩, ⟨.lineComment, "// c".toList⟩, ⟨.other, ['\n']⟩] := by decide +kernel
  obtain ⟨out, hout, hbytes⟩ := h _ hlex
  have hsame : stripRustComments "const Q: char = '\"'; // c\n" = some "const Q: char = '\"'; // c\n" := by
    decide +kernel
  obtain rfl := Option.some.inj (hout.symm.trans hsame)
  exact absurd hbytes (by decide +kernel)

end Orvek.Sloppiness
