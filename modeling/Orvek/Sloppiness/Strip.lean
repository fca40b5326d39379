import Orvek.Lib.Encoded
import Orvek.Lib.Scanner
import Orvek.Lib.Texts
import Orvek.Text

/-!
# Comments blanked out of a source

The cleaned text that findings are looked for in: comments become spaces, so that an offset of the cleaned text is
an offset of the source.

* `rustStep`, `stripRustComments`   the scanner for Rust, over bytes;
* `genericStep`, `stripComments`    the scanner for all other languages, with their comment markers;
* `languageProfiles`, `detect`      the languages, and which one a file is in;
* `Layout`                          what findings rely on: same length, same newlines, bytes kept or blanked;
* `Move`, `Blanking`                the turns that a scanner may take, and a scanner that takes no others;
* `Blanking.layout`                 such a scanner ends, with UTF-8 and the layout of its source;
* `rust_blanking`, `generic_blanking`         both scanners are such;
* `strip_layout`                    in every language the layout is kept.
-/

set_option linter.unusedSectionVars false

namespace Orvek.Sloppiness
open Json Scanner

variable {source marker : String} {bytes : List UInt8}

/-! ## bytes -/

def newline : UInt8 := 10
def space : UInt8 := 32
def quotationMark : UInt8 := 34
def hash : UInt8 := 35
def apostrophe : UInt8 := 39
def backslash : UInt8 := 92
def backtick : UInt8 := 96
def letterB : UInt8 := 98
def letterR : UInt8 := 114

/-- `bytes.starts_with(marker.as_bytes())` -/
def startsWith (bytes : List UInt8) (marker : String) : Bool := (utf8 marker.toList).isPrefixOf bytes

/-- `&bytes[..n]`, a panic past the end -/
def sliceTo (bytes : List UInt8) (n : Nat) : Option (List UInt8) :=
  if n ≤ bytes.length then some (bytes.take n) else none

/-- what a byte inside a comment becomes -/
def blanked (b : UInt8) : UInt8 := if b = newline then newline else space

/-! ## Rust -/

inductive State
  | code
  | block (depth : Nat)
  | string
  | raw (hashes : Nat)
  deriving DecidableEq

def rawStringStart (bytes : List UInt8) : Option (Nat × Nat) :=
  let letters :=
    if bytes.head? = some letterR then some 1
    else if bytes.head? = some letterB ∧ bytes[1]? = some letterR then some 2
    else none
  letters.bind fun start =>
    let hashes := ((bytes.drop start).takeWhile (· = hash)).length
    if bytes[start + hashes]? = some quotationMark then some (hashes, start + hashes + 1) else none

def rawStringEnd (bytes : List UInt8) (hashes : Nat) : Bool :=
  bytes.head? = some quotationMark && decide (1 + hashes ≤ bytes.length) &&
    ((bytes.drop 1).take hashes).all (· = hash)

def rustStep : State → UInt8 → List UInt8 → Option (Turn State UInt8 UInt8)
  | .code, b, rest =>
    if startsWith (b :: rest) "//" then
      some ⟨((b :: rest).takeWhile (· ≠ newline)).map fun _ => space, .code, (b :: rest).dropWhile (· ≠ newline)⟩
    else if startsWith (b :: rest) "/*" then some ⟨[space, space], .block 1, rest.drop 1⟩
    else if b = quotationMark then some ⟨[b], .string, rest⟩
    else
      match rawStringStart (b :: rest) with
      | some (hashes, consumed) =>
        (sliceTo (b :: rest) consumed).map fun read => ⟨read, .raw hashes, (b :: rest).drop consumed⟩
      | none => some ⟨[b], .code, rest⟩
  | .block depth, b, rest =>
    if startsWith (b :: rest) "/*" then some ⟨[space, space], .block (depth + 1), rest.drop 1⟩
    else if startsWith (b :: rest) "*/" then
      if depth = 1 then some ⟨[space, space], .code, rest.drop 1⟩
      -- `depth - 1` of a `usize`
      else if depth = 0 then none
      else some ⟨[space, space], .block (depth - 1), rest.drop 1⟩
    else some ⟨[blanked b], .block depth, rest⟩
  | .string, b, rest =>
    if b = backslash ∧ rest ≠ [] then
      (sliceTo (b :: rest) 2).map fun read => ⟨read, .string, rest.drop 1⟩
    else some ⟨[b], if b = quotationMark then .code else .string, rest⟩
  | .raw hashes, b, rest =>
    if rawStringEnd (b :: rest) hashes then
      (sliceTo (b :: rest) (hashes + 1)).map fun read => ⟨read, .code, rest.drop hashes⟩
    else some ⟨[b], .raw hashes, rest⟩

/-- `none` for a panic, a loop without an end or an output that is not UTF-8 -/
def stripRustComments (source : String) : Option String :=
  let bytes := utf8 source.toList
  (loop rustStep bytes.length .code bytes).bind fromUtf8

/-! ## all other languages -/

structure Reading where
  quote : Option UInt8
  blockEnd : Option String
  deriving DecidableEq

def genericStep (lineComments : List String) (blockComments : List (String × String)) :
    Reading → UInt8 → List UInt8 → Option (Turn Reading UInt8 UInt8)
  | ⟨quote, some finish⟩, b, rest =>
    if startsWith (b :: rest) finish then
      some ⟨List.replicate (strLen finish) space, ⟨quote, none⟩, (b :: rest).drop (strLen finish)⟩
    else some ⟨[blanked b], ⟨quote, some finish⟩, rest⟩
  | ⟨some delimiter, none⟩, b, rest =>
    match decide (b = backslash), rest with
    | true, next :: rest => some ⟨[b, next], ⟨some delimiter, none⟩, rest⟩
    | _, rest => some ⟨[b], ⟨if b = delimiter then none else some delimiter, none⟩, rest⟩
  | ⟨none, none⟩, b, rest =>
    -- blocks first: some languages begin their block marker with a line marker
    match blockComments.find? fun block => startsWith (b :: rest) block.1 with
    | some (start, finish) =>
      some ⟨List.replicate (strLen start) space, ⟨none, some finish⟩, (b :: rest).drop (strLen start)⟩
    | none =>
      match lineComments.find? fun marker => startsWith (b :: rest) marker with
      | some marker =>
        let after := (b :: rest).drop (strLen marker)
        some ⟨List.replicate (strLen marker) space ++ (after.takeWhile (· ≠ newline)).map fun _ => space,
          ⟨none, none⟩, after.dropWhile (· ≠ newline)⟩
      | none =>
        some ⟨[b], ⟨if b = apostrophe ∨ b = quotationMark ∨ b = backtick then some b else none, none⟩, rest⟩

def stripComments (source : String) (lineComments : List String) (blockComments : List (String × String)) :
    Option String :=
  let bytes := utf8 source.toList
  (loop (genericStep lineComments blockComments) bytes.length ⟨none, none⟩ bytes).bind fromUtf8

/-! ## languages -/

inductive Analyzer
  | rust
  | generic
  deriving DecidableEq

structure Language where
  name : String
  analyzer : Analyzer
  lineComments : List String
  blockComments : List (String × String)
  deriving DecidableEq

def Language.stripComments (language : Language) (source : String) : Option String :=
  if language.analyzer = .rust then stripRustComments source
  else Sloppiness.stripComments source language.lineComments language.blockComments

structure LanguageProfile where
  name : String
  extensions : List String
  analyzer : Analyzer
  lineComments : List String
  blockComments : List (String × String)

def LanguageProfile.language (p : LanguageProfile) : Language :=
  ⟨p.name, p.analyzer, p.lineComments, p.blockComments⟩

def noBlocks : List (String × String) := []
def hashLine : List String := ["#"]
def slash : List String := ["//"]
def hashSlash : List String := ["#", "//"]
def dash : List String := ["--"]
def semicolon : List String := [";"]
def percent : List String := ["%"]
def bang : List String := ["!"]
def quoteLine : List String := ["'"]
def cobol : List String := ["*>"]
def cBlock : List (String × String) := [("/*", "*/")]
def htmlBlock : List (String × String) := [("<!--", "-->")]
def mlBlock : List (String × String) := [("(*", "*)")]
def haskellBlock : List (String × String) := [("\x7b-", "-\x7d")]
def luaBlock : List (String × String) := [("--[[", "]]")]
def juliaBlock : List (String × String) := [("#=", "=#")]
def batch : List String := ["rem ", "::"]
def percentSlash : List String := ["%", "//"]

def languageProfiles : List LanguageProfile := [
  ⟨"rust", ["rs"], .rust, slash, cBlock⟩,
  ⟨"python", ["py", "pyi", "pyw"], .generic, hashLine, noBlocks⟩,
  ⟨"javascript", ["js", "mjs", "cjs", "jsx"], .generic, slash, cBlock⟩,
  ⟨"typescript", ["ts", "mts", "cts", "tsx"], .generic, slash, cBlock⟩,
  ⟨"go", ["go"], .generic, slash, cBlock⟩,
  ⟨"c", ["c", "h"], .generic, slash, cBlock⟩,
  ⟨"c++", ["cc", "cpp", "cxx", "hh", "hpp", "hxx"], .generic, slash, cBlock⟩,
  ⟨"c#", ["cs"], .generic, slash, cBlock⟩,
  ⟨"java", ["java"], .generic, slash, cBlock⟩,
  ⟨"kotlin", ["kt", "kts"], .generic, slash, cBlock⟩,
  ⟨"swift", ["swift"], .generic, slash, cBlock⟩,
  ⟨"scala", ["scala", "sc"], .generic, slash, cBlock⟩,
  ⟨"dart", ["dart"], .generic, slash, cBlock⟩,
  ⟨"groovy", ["groovy", "gradle"], .generic, slash, cBlock⟩,
  ⟨"php", ["php", "phtml"], .generic, hashSlash, cBlock⟩,
  ⟨"ruby", ["rb", "rake", "gemspec"], .generic, hashLine, noBlocks⟩,
  ⟨"shell", ["sh", "bash", "zsh", "fish"], .generic, hashLine, noBlocks⟩,
  ⟨"perl", ["pl", "pm", "t"], .generic, hashLine, noBlocks⟩,
  ⟨"r", ["r"], .generic, hashLine, noBlocks⟩,
  ⟨"julia", ["jl"], .generic, hashLine, juliaBlock⟩,
  ⟨"lua", ["lua"], .generic, dash, luaBlock⟩,
  ⟨"sql", ["sql"], .generic, dash, cBlock⟩,
  ⟨"haskell", ["hs", "lhs"], .generic, dash, haskellBlock⟩,
  ⟨"erlang", ["erl", "hrl"], .generic, percent, noBlocks⟩,
  ⟨"elixir", ["ex", "exs"], .generic, hashLine, noBlocks⟩,
  ⟨"clojure", ["clj", "cljs", "cljc", "edn"], .generic, semicolon, noBlocks⟩,
  ⟨"lisp", ["lisp", "lsp", "el", "scm", "rkt"], .generic, semicolon, noBlocks⟩,
  ⟨"ocaml", ["ml", "mli"], .generic, [], mlBlock⟩,
  ⟨"f#", ["fs", "fsx", "fsi"], .generic, slash, mlBlock⟩,
  ⟨"visual-basic", ["vb", "vbs"], .generic, quoteLine, noBlocks⟩,
  ⟨"fortran", ["f", "f77", "f90", "f95", "f03", "f08"], .generic, bang, noBlocks⟩,
  ⟨"ada", ["adb", "ads"], .generic, dash, noBlocks⟩,
  ⟨"objective-c-or-matlab", ["m"], .generic, percentSlash, cBlock⟩,
  ⟨"objective-c++", ["mm"], .generic, slash, cBlock⟩,
  ⟨"solidity", ["sol"], .generic, slash, cBlock⟩,
  ⟨"zig", ["zig"], .generic, slash, cBlock⟩,
  ⟨"nim", ["nim"], .generic, hashLine, noBlocks⟩,
  ⟨"crystal", ["cr"], .generic, hashLine, noBlocks⟩,
  ⟨"assembly", ["asm", "s", "inc"], .generic, semicolon, noBlocks⟩,
  ⟨"cobol", ["cob", "cbl"], .generic, cobol, noBlocks⟩,
  ⟨"pascal", ["pas", "pp"], .generic, slash, mlBlock⟩,
  ⟨"protobuf", ["proto"], .generic, slash, cBlock⟩,
  ⟨"graphql", ["graphql", "gql"], .generic, hashLine, noBlocks⟩,
  ⟨"markup", ["html", "htm", "xml", "svg"], .generic, [], htmlBlock⟩,
  ⟨"component-markup", ["vue", "svelte"], .generic, slash, htmlBlock⟩,
  ⟨"stylesheet", ["css", "scss", "sass", "less"], .generic, slash, cBlock⟩,
  ⟨"json", ["json", "jsonc"], .generic, slash, cBlock⟩,
  ⟨"toml", ["toml"], .generic, hashLine, noBlocks⟩,
  ⟨"yaml", ["yaml", "yml"], .generic, hashLine, noBlocks⟩,
  ⟨"hcl", ["tf", "tfvars", "hcl"], .generic, hashSlash, cBlock⟩,
  ⟨"nix", ["nix"], .generic, hashLine, cBlock⟩,
  ⟨"cmake", ["cmake"], .generic, hashLine, noBlocks⟩,
  ⟨"make", ["mk"], .generic, hashLine, noBlocks⟩,
  ⟨"powershell", ["ps1", "psm1"], .generic, hashLine, cBlock⟩,
  ⟨"batch", ["bat", "cmd"], .generic, batch, noBlocks⟩,
  ⟨"tex", ["tex", "sty", "cls"], .generic, percent, noBlocks⟩]

def ignoredFileNames : List String := [".ds_store", "cargo.lock", "package-lock.json", "pnpm-lock.yaml", "yarn.lock",
  "poetry.lock", "composer.lock", "go.sum", "license", "license.md", "license.txt", "notice", "notice.md", "readme",
  "readme.md", "changelog", "changelog.md"]

def ignoredExtensions : List String := ["md", "mdx", "rst", "txt", "lock", "sum", "log", "csv", "tsv", "pdf", "doc",
  "docx", "rtf", "png", "jpg", "jpeg", "gif", "webp", "ico", "bmp", "tiff", "mp3", "mp4", "mov", "avi", "wav", "flac",
  "zip", "gz", "bz2", "xz", "7z", "tar", "dmg", "iso", "woff", "woff2", "ttf", "otf", "db", "sqlite", "sqlite3",
  "class", "jar", "o", "a", "so", "dylib", "dll", "exe", "bin", "wasm", "map", "snap"]

def generic (name : String) (lineComments : List String) (blockComments : List (String × String)) : Language :=
  ⟨name, .generic, lineComments, blockComments⟩

/-- `to_ascii_lowercase` -/
def asciiLowercase (s : String) : String := String.ofList (s.toList.map Char.toLower)

def languageForFileName (name : String) : Option Language :=
  if name ∈ ["dockerfile", "containerfile"] then some (generic "dockerfile" hashLine noBlocks)
  else if name ∈ ["makefile", "gnumakefile"] then some (generic "make" hashLine noBlocks)
  else if name ∈ ["cmakelists.txt"] then some (generic "cmake" hashLine noBlocks)
  else if name ∈ ["rakefile", "gemfile", "podfile", "vagrantfile"] then some (generic "ruby" hashLine noBlocks)
  else if name ∈ ["jenkinsfile"] then some (generic "groovy" slash cBlock)
  else if name ∈ ["justfile"] then some (generic "just" hashLine noBlocks)
  else if name ∈ ["build", "workspace"] then some (generic "starlark" hashLine noBlocks)
  else none

def languageForExtension (extension : String) : Option Language :=
  (languageProfiles.find? fun profile => decide (extension ∈ profile.extensions)).map LanguageProfile.language

/-- `text.contains(part)` -/
def containsPart (text : List Char) (part : String) : Bool := text.tails.any (part.toList.isPrefixOf ·)

def languageForShebang (source : String) : Option Language :=
  (Texts.lines source.toList).head?.bind fun line =>
    (Texts.stripPrefix ['#', '!'] line).map fun command =>
      let first := command.map Char.toLower
      let (name, comments) :=
        if containsPart first "python" then ("python", hashLine)
        else if containsPart first "ruby" then ("ruby", hashLine)
        else if containsPart first "perl" then ("perl", hashLine)
        else if containsPart first "node" || containsPart first "deno" then ("javascript", slash)
        else if containsPart first "php" then ("php", hashSlash)
        else if containsPart first "sh" || containsPart first "fish" then ("shell", hashLine)
        else ("script", hashLine)
      generic name comments noBlocks

def looksTextual (source : String) : Bool :=
  !(utf8 source.toList).contains 0 &&
    decide (((source.toList.filter fun c => isControl c && !isWhitespace c).take 2).length < 2)

/-- the file name and the extension of a path stand for the path -/
def detect (fileName extension : Option String) (source : String) : Option Language :=
  if !looksTextual source then none
  else
    fileName.bind fun fileName =>
      let lowerName := asciiLowercase fileName
      if lowerName ∈ ignoredFileNames then none
      else
        match languageForFileName lowerName with
        | some language => some language
        | none =>
          match extension with
          | none => languageForShebang source
          | some extension =>
            let extension := asciiLowercase extension
            if extension ∈ ignoredExtensions then none
            else some ((languageForExtension extension).getD ⟨extension, .generic, [], noBlocks⟩)

/-! ## the layout -/

structure Layout (source out : String) : Prop where
  length : strLen out = strLen source
  newlines : ∀ i : Nat, (utf8 out.toList)[i]? = some newline ↔ (utf8 source.toList)[i]? = some newline
  bytes : ∀ i : Nat, (utf8 out.toList)[i]? = (utf8 source.toList)[i]? ∨ (utf8 out.toList)[i]? = some space

/-- one byte of the source and the byte at its place in the output -/
def Kept (a b : UInt8) : Prop := b = a ∨ (b = space ∧ a ≠ newline)

theorem kept_blanked (b : UInt8) : Kept b (blanked b) := by
  by_cases hb : b = newline
  · exact .inl (by rw [blanked, if_pos hb, hb])
  · exact .inr ⟨if_neg hb, hb⟩

theorem kept_self (l : List UInt8) : List.Forall₂ Kept l l := List.forall₂_same.mpr fun _ _ => .inl rfl

theorem kept_spaces {l : List UInt8} (h : ∀ b ∈ l, b ≠ newline) : List.Forall₂ Kept l (l.map fun _ => space) := by
  rw [List.forall₂_map_right_iff, List.forall₂_same]
  exact fun b hb => .inr ⟨rfl, h b hb⟩

theorem kept_at {l l' : List UInt8} (h : List.Forall₂ Kept l l') (i : Nat) :
    (l'[i]? = some newline ↔ l[i]? = some newline) ∧ (l'[i]? = l[i]? ∨ l'[i]? = some space) := by
  induction h generalizing i with
  | nil => exact ⟨Iff.rfl, .inl rfl⟩
  | @cons a b l l' hab _ ih =>
    cases i with
    | succ i => simpa using ih i
    | zero =>
      rw [List.getElem?_cons_zero, List.getElem?_cons_zero]
      rcases hab with rfl | ⟨rfl, ha⟩
      · exact ⟨Iff.rfl, .inl rfl⟩
      · refine ⟨⟨fun h => ?_, fun h => absurd (Option.some.inj h) ha⟩, .inr rfl⟩
        exact absurd (Option.some.inj h) (by decide)

theorem layout_of_kept {out : String} (h : List.Forall₂ Kept (utf8 source.toList) (utf8 out.toList)) :
    Layout source out where
  length := by
    rw [strLen_eq, strLen_eq, ← length_utf8, ← length_utf8]
    exact h.length_eq.symm
  newlines := fun i => (kept_at h i).1
  bytes := fun i => (kept_at h i).2

/-! ## scanners that blank -/

section
variable {σ : Type} (step : σ → UInt8 → List UInt8 → Option (Turn σ UInt8 UInt8)) (Inv : σ → Prop)

def Copies (s : σ) : Prop := ∀ b, 128 ≤ b → ∀ l, step s b l = some ⟨[b], s, l⟩
def Blanks (s : σ) : Prop := ∀ b, 128 ≤ b → ∀ l, step s b l = some ⟨[space], s, l⟩

/-- bytes of a marker -/
def Visible (l : List UInt8) : Prop := ∀ b ∈ l, b < 128 ∧ b ≠ newline

instance (l : List UInt8) : Decidable (Visible l) := List.decidableBAll (fun b => b < 128 ∧ b ≠ newline) l

/-- what a turn reads and what it is -/
inductive Move (s : σ) : List UInt8 → Turn σ UInt8 UInt8 → Prop
  | copied (b : UInt8) (s' : σ) (rest : List UInt8) : Move s [b] ⟨[b], s', rest⟩
  | ascii (read : List UInt8) (s' : σ) (rest : List UInt8) (h : ∀ b ∈ read, b < 128) : Move s read ⟨read, s', rest⟩
  /- the byte after a backslash may begin a character whose other bytes are copied in the next turns -/
  | escaped (next : UInt8) (rest : List UInt8) (h : Copies step s) :
      Move s [backslash, next] ⟨[backslash, next], s, rest⟩
  | byte (b : UInt8) (s' : σ) (rest : List UInt8) : Move s [b] ⟨[blanked b], s', rest⟩
  | line (marker after : List UInt8) (s' : σ) (h : Visible marker) :
      Move s (marker ++ after.takeWhile (· ≠ newline))
        ⟨(marker ++ after.takeWhile (· ≠ newline)).map fun _ => space, s', after.dropWhile (· ≠ newline)⟩
  | marker (marker : List UInt8) (s' : σ) (rest : List UInt8) (h : Visible marker) :
      Move s marker ⟨marker.map fun _ => space, s', rest⟩

structure Blanking : Prop where
  moves : ∀ s b rest, Inv s → ∃ t read, step s b rest = some t ∧ Inv t.state ∧ read ≠ [] ∧
    b :: rest = read ++ t.rest ∧ Move step s read t
  high : ∀ s, Inv s → Copies step s ∨ Blanks step s

variable {step} {Inv}

theorem Move.kept {s : σ} {read : List UInt8} {t : Turn σ UInt8 UInt8} (h : Move step s read t) :
    List.Forall₂ Kept read t.emitted := by
  cases h with
  | copied b s' rest => exact kept_self [b]
  | ascii read s' rest => exact kept_self read
  | escaped next rest => exact kept_self _
  | byte b s' rest => exact .cons (kept_blanked b) .nil
  | line marker after s' h =>
    refine kept_spaces fun b hb => ?_
    rcases List.mem_append.mp hb with hb | hb
    · exact (h b hb).2
    · simpa using List.mem_takeWhile_imp hb
  | marker marker s' rest h => exact kept_spaces fun b hb => (h b hb).2

theorem Blanking.reads (h : Blanking step Inv) : Reads step Inv Kept := by
  intro s b rest t hs ht
  obtain ⟨t', read, ht', hinv, hne, hread, hmove⟩ := h.moves s b rest hs
  obtain rfl := Option.some.inj (ht.symm.trans ht')
  exact ⟨hinv, read, hne, hread, hmove.kept⟩

theorem Move.whole {s : σ} {read : List UInt8} {t : Turn σ UInt8 UInt8} (h : Move step s read t) {c : Char} {b : UInt8}
    (hc : String.utf8EncodeChar c = [b]) {cs : List Char} (hread : b :: utf8 cs = read ++ t.rest) :
    (∃ emitted cs', t.emitted = utf8 emitted ∧ t.rest = utf8 cs') ∨
      (Copies step s ∧ t.state = s ∧ ∃ next, read = [backslash, next] ∧ t.emitted = [backslash, next]) := by
  have hwhole : utf8 (c :: cs) = read ++ t.rest := by rw [utf8_cons, hc, List.singleton_append, hread]
  cases h with
  | copied x s' rest =>
    obtain ⟨rfl, hrest⟩ := List.cons.inj hread
    refine .inl ⟨[c], cs, ?_, hrest.symm⟩
    rw [utf8_cons, hc]
    rfl
  | ascii read s' rest hascii =>
    obtain ⟨emitted, cs', he, hrest⟩ := ascii_append hascii hwhole
    exact .inl ⟨emitted, cs', he, hrest⟩
  | escaped next rest hcopies => exact .inr ⟨hcopies, rfl, next, rfl, rfl⟩
  | byte x s' rest =>
    obtain ⟨rfl, hrest⟩ := List.cons.inj hread
    by_cases hb : b = newline
    · refine .inl ⟨['\n'], cs, ?_, hrest.symm⟩
      rw [blanked, if_pos hb]
      rfl
    · refine .inl ⟨[' '], cs, ?_, hrest.symm⟩
      rw [blanked, if_neg hb]
      rfl
  | line marker after s' h =>
    rw [List.append_assoc, List.takeWhile_append_dropWhile] at hwhole
    obtain ⟨-, cs', -, rfl⟩ := ascii_append (fun x hx => (h x hx).1) hwhole
    exact .inl ⟨_, _, utf8_spaces _, (@takeWhile_utf8 '\n' (by decide) cs').2⟩
  | marker marker s' rest h =>
    obtain ⟨-, cs', -, hrest⟩ := ascii_append (fun x hx => (h x hx).1) hwhole
    exact .inl ⟨_, cs', utf8_spaces _, hrest⟩

theorem tail_high (c : Char) : ∃ b more, String.utf8EncodeChar c = b :: more ∧ ∀ x ∈ more, 128 ≤ x := by
  rcases high_or_single c with ⟨-, hc⟩ | ⟨-, hne, hhigh⟩
  · exact ⟨_, [], hc, nofun⟩
  · obtain ⟨b, more, hc⟩ := List.exists_cons_of_ne_nil hne
    exact ⟨b, more, hc, fun x hx => hhigh x (hc ▸ List.mem_cons_of_mem b hx)⟩

theorem escaped_passes {s : σ} (hcopies : Copies step s) {c d : Char} {b next : UInt8} {more : List UInt8}
    (hc : String.utf8EncodeChar c = [b]) (hd : String.utf8EncodeChar d = next :: more) (hmore : ∀ x ∈ more, 128 ≤ x)
    {cs : List Char} (h : step s b (next :: (more ++ utf8 cs)) = some ⟨[b, next], s, more ++ utf8 cs⟩) :
    Passes step s (utf8 (c :: d :: cs)) (utf8 [c, d]) s (utf8 cs) := by
  have hfirst : Passes step s (b :: next :: (more ++ utf8 cs)) [b, next] s (more ++ utf8 cs) := passes_turn h
  have hrest := @passes_each _ _ _ step s id more (utf8 cs) fun x hx l => hcopies x (hmore x hx) l
  rw [List.map_id] at hrest
  have hemitted : utf8 [c, d] = [b, next] ++ more := by
    rw [utf8_cons, utf8_cons, hc, hd]
    exact congrArg (b :: next :: ·) (List.append_nil more)
  rw [utf8_cons, utf8_cons, hc, hd, hemitted]
  exact hfirst.trans hrest

theorem Blanking.crosses (h : Blanking step Inv) {s : σ} (hs : Inv s) (c : Char) (cs : List Char) :
    Crosses step Inv s c cs := by
  rcases high_or_single c with ⟨-, hc⟩ | ⟨-, -, hhigh⟩
  · obtain ⟨t, read, ht, hinv, -, hread, hmove⟩ := h.moves s _ (utf8 cs) hs
    rcases hmove.whole hc hread with ⟨emitted, cs', hemitted, hrest⟩ | ⟨hcopies, hstate, next, rfl, hemitted⟩
    · exact crosses_turn h.reads hs hc ht hemitted hrest
    · cases cs with
      | nil => exact absurd (congrArg List.length hread) (by simp [utf8])
      | cons d cs =>
        obtain ⟨next', more, hd, hmore⟩ := tail_high d
        rw [utf8_cons, hd, List.cons_append] at hread
        obtain ⟨hb, hread⟩ := List.cons.inj hread
        obtain ⟨rfl, hrest⟩ := List.cons.inj hread
        rw [utf8_cons, hd, List.cons_append, hb] at ht
        rw [hb] at hc
        have hstep : step s backslash (next' :: (more ++ utf8 cs)) = some ⟨[backslash, next'], s, more ++ utf8 cs⟩ := by
          rw [ht, hrest, ← hemitted]
          exact congrArg (fun s' => some (Turn.mk t.emitted s' t.rest)) hstate
        refine ⟨s, cs, [c, d], hs, ?_, escaped_passes hcopies hc hd hmore hstep⟩
        rw [utf8_cons, List.length_append]
        exact Nat.le_add_left _ _
  · rcases h.high s hs with hcopies | hblanks
    · exact crosses_copied hs fun b hb l => hcopies b (hhigh b hb) l
    · exact crosses_spaces hs fun b hb l => hblanks b (hhigh b hb) l

theorem Blanking.layout (h : Blanking step Inv) {s : σ} (hs : Inv s) (source : String) :
    ∃ out, (loop step (utf8 source.toList).length s (utf8 source.toList)).bind fromUtf8 = some out ∧
      Layout source out := by
  obtain ⟨out, hout⟩ := yields_utf8 (fun s c cs hs => h.crosses hs c cs) hs source.toList
  refine ⟨String.ofList out, ?_, ?_⟩
  · rw [loop_of_yields h.reads hs hout (Nat.le_refl _), Option.bind_some, fromUtf8_utf8]
  · refine layout_of_kept ?_
    rw [String.toList_ofList]
    exact hout.forall₂ h.reads hs

end

/-! ## the scanner for Rust -/

theorem startsWith_iff :
    startsWith bytes marker = true ↔ utf8 marker.toList <+: bytes := List.isPrefixOf_iff_prefix

theorem startsWith_pair {x y b : UInt8} {rest : List UInt8} (hmarker : utf8 marker.toList = [x, y])
    (h : startsWith (b :: rest) marker = true) : b = x ∧ rest = y :: rest.drop 1 := by
  rw [startsWith_iff, hmarker, List.cons_prefix_cons] at h
  obtain ⟨rfl, rest', rfl⟩ := h
  exact ⟨rfl, rfl⟩

theorem utf8_slashes : utf8 "//".toList = [47, 47] := by decide
theorem utf8_slashStar : utf8 "/*".toList = [47, 42] := by decide
theorem utf8_starSlash : utf8 "*/".toList = [42, 47] := by decide

theorem sliceTo_eq (front rest : List UInt8) : sliceTo (front ++ rest) front.length = some front := by
  rw [sliceTo, if_pos (by rw [List.length_append]; exact Nat.le_add_right _ _), List.take_left]

def RawLetters (letters : List UInt8) : Prop := letters = [letterR] ∨ letters = [letterB, letterR]

theorem takeWhile_replicate {l rest : List UInt8} {x y : UInt8} (n : Nat) (hy : y ≠ x) (h : l = y :: rest) :
    (List.replicate n x ++ l).takeWhile (· = x) = List.replicate n x := by
  rw [List.takeWhile_append_of_pos fun a ha => decide_eq_true (List.eq_of_mem_replicate ha), h,
    List.takeWhile_cons_of_neg (by simpa using hy), List.append_nil]

theorem rawStringStart_eq {letters : List UInt8} (hletters : RawLetters letters) (hashes : Nat) (rest : List UInt8) :
    rawStringStart (letters ++ List.replicate hashes hash ++ quotationMark :: rest) =
      some (hashes, letters.length + hashes + 1) := by
  have hwhile := @takeWhile_replicate _ rest hash quotationMark hashes (by decide) rfl
  have hat : (List.replicate hashes hash ++ quotationMark :: rest)[hashes]? = some quotationMark := by
    rw [List.getElem?_append_right (by rw [List.length_replicate]), List.length_replicate, Nat.sub_self]
    rfl
  rw [List.append_assoc]
  generalize List.replicate hashes hash ++ quotationMark :: rest = l at hwhile hat ⊢
  rcases hletters with rfl | rfl
  · have hone : (letterR :: l)[1 + hashes]? = some quotationMark := by
      rw [Nat.add_comm]
      exact hat
    simp [rawStringStart, hwhile, hone]
  · have htwo : (letterB :: letterR :: l)[2 + hashes]? = some quotationMark := by
      rw [Nat.add_comm]
      exact hat
    simp [rawStringStart, hwhile, htwo, show letterB ≠ letterR by decide]

theorem rawStringStart_some {hashes consumed : Nat} (h : rawStringStart bytes = some (hashes, consumed)) :
    ∃ letters rest, RawLetters letters ∧ bytes = letters ++ List.replicate hashes hash ++ quotationMark :: rest ∧
      consumed = letters.length + hashes + 1 := by
  unfold rawStringStart at h
  obtain ⟨start, hstart, h⟩ := Option.bind_eq_some_iff.mp h
  dsimp only at h
  have hletters : RawLetters (bytes.take start) ∧ (bytes.take start).length = start := by
    split at hstart
    · obtain rfl := Option.some.inj hstart
      rename_i hr
      obtain ⟨rest, rfl⟩ := List.head?_eq_some_iff.mp hr
      exact ⟨.inl rfl, rfl⟩
    split at hstart
    · obtain rfl := Option.some.inj hstart
      rename_i hbr
      obtain ⟨rest, rfl⟩ := List.head?_eq_some_iff.mp hbr.1
      obtain ⟨rest', rfl⟩ := List.head?_eq_some_iff.mp (List.head?_eq_getElem? ▸ hbr.2)
      exact ⟨.inr rfl, rfl⟩
    · cases hstart
  split at h
  · rename_i hquote
    obtain ⟨rfl, rfl⟩ := Prod.mk.inj (Option.some.inj h)
    have hhashes := List.eq_replicate_of_mem fun x hx =>
      of_decide_eq_true (@List.mem_takeWhile_imp _ (fun x => decide (x = hash)) (bytes.drop start) x hx)
    have hsplit := @List.takeWhile_append_dropWhile _ (fun x => decide (x = hash)) (bytes.drop start)
    rw [← List.getElem?_drop, ← hsplit, List.getElem?_append_right (by rw [hsplit]), hsplit,
      Nat.sub_self, ← List.head?_eq_getElem?] at hquote
    obtain ⟨rest, hrest⟩ := List.head?_eq_some_iff.mp hquote
    rw [hrest, hhashes] at hsplit
    refine ⟨bytes.take start, rest, hletters.1, ?_, by rw [hletters.2]⟩
    rw [List.append_assoc, hsplit, List.take_append_drop]
  · cases h

theorem ascii_hashes (n : Nat) : ∀ b ∈ List.replicate n hash, b < 128 := by
  intro b hb
  rw [List.eq_of_mem_replicate hb]
  decide

theorem rawStringStart_read {hashes consumed : Nat} (h : rawStringStart bytes = some (hashes, consumed)) :
    ∃ read rest, bytes = read ++ rest ∧ consumed = read.length ∧ 0 < consumed ∧ ∀ b ∈ read, b < 128 := by
  obtain ⟨letters, rest, hletters, hbytes, hconsumed⟩ := rawStringStart_some h
  refine ⟨letters ++ List.replicate hashes hash ++ [quotationMark], rest, ?_, ?_, hconsumed ▸ Nat.succ_pos _, ?_⟩
  · rw [hbytes, List.append_assoc _ [quotationMark]]
    rfl
  · rw [hconsumed, List.length_append, List.length_append, List.length_replicate]
    rfl
  · have hascii : ∀ b ∈ letters, b < 128 := by
      have hvisible : Visible [letterR] ∧ Visible [letterB, letterR] := by decide
      rcases hletters with rfl | rfl
      · exact fun b hb => (hvisible.1 b hb).1
      · exact fun b hb => (hvisible.2 b hb).1
    rw [List.forall_mem_append, List.forall_mem_append]
    exact ⟨⟨hascii, ascii_hashes hashes⟩, List.forall_mem_singleton.mpr (by decide)⟩

theorem rawStringEnd_iff {hashes : Nat} :
    rawStringEnd bytes hashes = true ↔ ∃ rest, bytes = quotationMark :: List.replicate hashes hash ++ rest := by
  rw [rawStringEnd, Bool.and_eq_true, Bool.and_eq_true, decide_eq_true_eq, decide_eq_true_eq, List.all_eq_true]
  constructor
  · rintro ⟨⟨hquote, hle⟩, hall⟩
    obtain ⟨rest, rfl⟩ := List.head?_eq_some_iff.mp hquote
    rw [List.length_cons, Nat.add_comm] at hle
    have hhashes : rest.take hashes = List.replicate hashes hash :=
      List.eq_replicate_iff.mpr ⟨List.length_take_of_le (Nat.le_of_succ_le_succ hle),
        fun x hx => of_decide_eq_true (hall x hx)⟩
    refine ⟨rest.drop hashes, ?_⟩
    rw [← hhashes, List.cons_append, List.take_append_drop]
  · rintro ⟨rest, rfl⟩
    refine ⟨⟨rfl, ?_⟩, ?_⟩
    · rw [List.length_append, List.length_cons, List.length_replicate]
      omega
    · intro x hx
      rw [List.cons_append, List.drop_one, List.tail_cons, List.take_left' List.length_replicate] at hx
      exact decide_eq_true (List.eq_of_mem_replicate hx)

def State.Inside : State → Prop
  | .block depth => 0 < depth
  | _ => True

section
variable {b : UInt8} {rest : List UInt8}

attribute [grind =] rustStep

theorem code_line (h : startsWith (b :: rest) "//" = true) : rustStep .code b rest =
    some ⟨((b :: rest).takeWhile (· ≠ newline)).map fun _ => space, .code, (b :: rest).dropWhile (· ≠ newline)⟩ := by
  rw [rustStep, if_pos h]

theorem code_block (h : startsWith (b :: rest) "/*" = true) :
    rustStep .code b rest = some ⟨[space, space], .block 1, rest.drop 1⟩ := by
  obtain ⟨rfl, hrest⟩ := startsWith_pair utf8_slashStar h
  have hline : ¬startsWith (47 :: rest) "//" = true := by
    intro hline
    obtain ⟨-, hrest'⟩ := startsWith_pair utf8_slashes hline
    exact absurd (List.cons.inj (hrest.symm.trans hrest')).1 (by decide)
  rw [rustStep, if_neg hline, if_pos h]

theorem code_other (hline : ¬startsWith (b :: rest) "//" = true) (hblock : ¬startsWith (b :: rest) "/*" = true)
    (hquote : b ≠ quotationMark) (hraw : rawStringStart (b :: rest) = none) :
    rustStep .code b rest = some ⟨[b], .code, rest⟩ := by
  rw [rustStep, if_neg hline, if_neg hblock, if_neg hquote, hraw]

theorem not_startsWith {marker : String} {x y : UInt8} (hmarker : utf8 marker.toList = [x, y]) (h : b ≠ x) :
    ¬startsWith (b :: rest) marker = true := fun hstarts => h (startsWith_pair hmarker hstarts).1

theorem code_quote : rustStep .code quotationMark rest = some ⟨[quotationMark], .string, rest⟩ := by
  rw [rustStep, if_neg (not_startsWith utf8_slashes (by decide)), if_neg (not_startsWith utf8_slashStar (by decide)),
    if_pos rfl]

theorem code_raw {read : List UInt8} {hashes : Nat} {after : List UInt8} (hbytes : b :: rest = read ++ after)
    (h : rawStringStart (b :: rest) = some (hashes, read.length)) :
    rustStep .code b rest = some ⟨read, .raw hashes, after⟩ := by
  have hletter : b = letterR ∨ b = letterB := by
    obtain ⟨letters, _, hletters, hread, -⟩ := rawStringStart_some h
    rcases hletters with rfl | rfl
    · exact .inl (List.cons.inj hread).1
    · exact .inr (List.cons.inj hread).1
  have hslash : b ≠ 47 := by
    rcases hletter with rfl | rfl
    · decide
    · decide
  have hquote : b ≠ quotationMark := by
    rcases hletter with rfl | rfl
    · decide
    · decide
  rw [rustStep, if_neg (not_startsWith utf8_slashes hslash), if_neg (not_startsWith utf8_slashStar hslash),
    if_neg hquote, h]
  dsimp only
  rw [hbytes, sliceTo_eq, Option.map_some, List.drop_left]

theorem block_opens (depth : Nat) (h : startsWith (b :: rest) "/*" = true) :
    rustStep (.block depth) b rest = some ⟨[space, space], .block (depth + 1), rest.drop 1⟩ := by
  rw [rustStep, if_pos h]

theorem block_closes (depth : Nat) (h : startsWith (b :: rest) "*/" = true) : rustStep (.block (depth + 1)) b rest =
    some ⟨[space, space], if depth = 0 then .code else .block depth, rest.drop 1⟩ := by
  have hblock : ¬startsWith (b :: rest) "/*" = true :=
    not_startsWith utf8_slashStar (by rw [(startsWith_pair utf8_starSlash h).1]; decide)
  rw [rustStep, if_neg hblock, if_pos h]
  by_cases hzero : depth = 0
  · subst hzero
    rfl
  · rw [if_neg (by omega), if_neg (Nat.succ_ne_zero depth), if_neg hzero]
    rfl

theorem block_byte (depth : Nat) (hopen : ¬startsWith (b :: rest) "/*" = true)
    (hclose : ¬startsWith (b :: rest) "*/" = true) :
    rustStep (.block depth) b rest = some ⟨[blanked b], .block depth, rest⟩ := by
  rw [rustStep, if_neg hopen, if_neg hclose]

attribute [grind =] backslash

theorem string_escape (next : UInt8) :
    rustStep .string backslash (next :: rest) = some ⟨[backslash, next], .string, rest⟩ := by
  rw [rustStep, if_pos ⟨rfl, List.cons_ne_nil _ _⟩]
  exact congrArg (Option.map _) (sliceTo_eq [backslash, next] rest)

theorem string_other (h : ¬(b = backslash ∧ rest ≠ [])) :
    rustStep .string b rest = some ⟨[b], if b = quotationMark then .code else .string, rest⟩ := by
  rw [rustStep, if_neg h]

theorem raw_end (hashes : Nat) (after : List UInt8) :
    rustStep (.raw hashes) quotationMark (List.replicate hashes hash ++ after) =
      some ⟨quotationMark :: List.replicate hashes hash, .code, after⟩ := by
  have hslice := sliceTo_eq (quotationMark :: List.replicate hashes hash) after
  rw [List.length_cons, List.length_replicate, List.cons_append] at hslice
  have hend : rawStringEnd (quotationMark :: (List.replicate hashes hash ++ after)) hashes = true :=
    rawStringEnd_iff.mpr ⟨after, rfl⟩
  rw [rustStep, if_pos hend, hslice, Option.map_some, List.drop_left' List.length_replicate]

theorem raw_other {hashes : Nat} (h : ¬rawStringEnd (b :: rest) hashes = true) :
    rustStep (.raw hashes) b rest = some ⟨[b], .raw hashes, rest⟩ := by
  rw [rustStep, if_neg h]

/-! ## its turns -/

theorem high_code (hb : 128 ≤ b) : rustStep .code b rest = some ⟨[b], .code, rest⟩ := by
  have hne : ∀ x : UInt8, x < 128 → b ≠ x := fun x hx he => absurd hb (UInt8.not_le.mpr (he ▸ hx))
  have hraw : rawStringStart (b :: rest) = none := by
    rw [Option.eq_none_iff_forall_ne_some]
    rintro ⟨hashes, consumed⟩ h
    obtain ⟨letters, _, hletters, hbytes, -⟩ := rawStringStart_some h
    rcases hletters with rfl | rfl
    · exact hne letterR (by decide) (List.cons.inj hbytes).1
    · exact hne letterB (by decide) (List.cons.inj hbytes).1
  exact code_other (not_startsWith utf8_slashes (hne 47 (by decide)))
    (not_startsWith utf8_slashStar (hne 47 (by decide))) (hne quotationMark (by decide)) hraw

theorem rustStep_high (s : State) : Copies rustStep s ∨ Blanks rustStep s := by
  have hne : ∀ x b : UInt8, 128 ≤ b → x < 128 → b ≠ x := fun x b hb hx he => absurd hb (UInt8.not_le.mpr (he ▸ hx))
  cases s with
  | code => exact .inl fun b hb l => high_code hb
  | block depth =>
    refine .inr fun b hb l => ?_
    rw [block_byte depth (not_startsWith utf8_slashStar (hne 47 b hb (by decide)))
      (not_startsWith utf8_starSlash (hne 42 b hb (by decide))), blanked, if_neg (hne newline b hb (by decide))]
  | string =>
    refine .inl fun b hb l => ?_
    rw [string_other fun h => hne backslash b hb (by decide) h.1, if_neg (hne quotationMark b hb (by decide))]
  | raw hashes =>
    refine .inl fun b hb l => raw_other fun h => ?_
    obtain ⟨after, hbytes⟩ := rawStringEnd_iff.mp h
    exact hne quotationMark b hb (by decide) (List.cons.inj hbytes).1

theorem code_moves : ∃ t read, rustStep .code b rest = some t ∧ t.state.Inside ∧ read ≠ [] ∧
    b :: rest = read ++ t.rest ∧ Move rustStep .code read t := by
  by_cases hline : startsWith (b :: rest) "//" = true
  · obtain ⟨rfl, -⟩ := startsWith_pair utf8_slashes hline
    refine ⟨_, _, code_line hline, trivial, ?_, ?_, .line [] (47 :: rest) State.code nofun⟩
    · exact List.cons_ne_nil _ _
    · rw [List.nil_append, List.takeWhile_append_dropWhile]
  by_cases hblock : startsWith (b :: rest) "/*" = true
  · obtain ⟨rfl, hrest⟩ := startsWith_pair utf8_slashStar hblock
    exact ⟨_, [47, 42], code_block hblock, Nat.one_pos, List.cons_ne_nil _ _, congrArg _ hrest,
      .marker [47, 42] (State.block 1) (rest.drop 1) (by decide)⟩
  by_cases hquote : b = quotationMark
  · subst hquote
    exact ⟨_, _, code_quote, trivial, List.cons_ne_nil _ _, rfl, .copied quotationMark State.string rest⟩
  cases hraw : rawStringStart (b :: rest) with
  | none =>
    exact ⟨_, _, code_other hline hblock hquote hraw, trivial, List.cons_ne_nil _ _, rfl, .copied b State.code rest⟩
  | some found =>
    obtain ⟨hashes, consumed⟩ := found
    obtain ⟨read, after, hbytes, rfl, hpos, hascii⟩ := rawStringStart_read hraw
    exact ⟨_, read, code_raw hbytes hraw, trivial, List.ne_nil_of_length_pos hpos, hbytes,
      .ascii read (State.raw hashes) after hascii⟩

theorem block_moves {depth : Nat} (hdepth : 0 < depth) : ∃ t read, rustStep (.block depth) b rest = some t ∧
    t.state.Inside ∧ read ≠ [] ∧ b :: rest = read ++ t.rest ∧ Move rustStep (.block depth) read t := by
  obtain ⟨depth, rfl⟩ : ∃ n, depth = n + 1 := ⟨depth - 1, by omega⟩
  by_cases hopen : startsWith (b :: rest) "/*" = true
  · obtain ⟨rfl, hrest⟩ := startsWith_pair utf8_slashStar hopen
    exact ⟨_, [47, 42], block_opens _ hopen, Nat.succ_pos _, List.cons_ne_nil _ _, congrArg _ hrest,
      .marker [47, 42] (State.block (depth + 2)) (rest.drop 1) (by decide)⟩
  by_cases hclose : startsWith (b :: rest) "*/" = true
  · obtain ⟨rfl, hrest⟩ := startsWith_pair utf8_starSlash hclose
    refine ⟨_, [42, 47], block_closes depth hclose, ?_, List.cons_ne_nil _ _, congrArg _ hrest,
      .marker [42, 47] _ (rest.drop 1) (by decide)⟩
    by_cases hzero : depth = 0
    · rw [if_pos hzero]
      trivial
    · rw [if_neg hzero]
      exact Nat.pos_of_ne_zero hzero
  · exact ⟨_, _, block_byte _ hopen hclose, Nat.succ_pos _, List.cons_ne_nil _ _, rfl,
      .byte b (State.block (depth + 1)) rest⟩

theorem string_moves : ∃ t read, rustStep .string b rest = some t ∧ t.state.Inside ∧ read ≠ [] ∧
    b :: rest = read ++ t.rest ∧ Move rustStep .string read t := by
  by_cases hescape : b = backslash ∧ rest ≠ []
  · obtain ⟨rfl, hne⟩ := hescape
    obtain ⟨next, rest, rfl⟩ := List.exists_cons_of_ne_nil hne
    have hcopies : Copies rustStep .string := fun b hb l => by
      have hne : ∀ x : UInt8, x < 128 → b ≠ x := fun x hx he => absurd hb (UInt8.not_le.mpr (he ▸ hx))
      rw [string_other fun h => hne backslash (by decide) h.1, if_neg (hne quotationMark (by decide))]
    exact ⟨_, _, string_escape next, trivial, List.cons_ne_nil _ _, rfl, .escaped next rest hcopies⟩
  · refine ⟨_, _, string_other hescape, ?_, List.cons_ne_nil _ _, rfl, .copied b _ rest⟩
    by_cases hb : b = quotationMark
    · rw [if_pos hb]
      trivial
    · rw [if_neg hb]
      trivial

theorem raw_moves (hashes : Nat) : ∃ t read, rustStep (.raw hashes) b rest = some t ∧ t.state.Inside ∧ read ≠ [] ∧
    b :: rest = read ++ t.rest ∧ Move rustStep (.raw hashes) read t := by
  by_cases hend : rawStringEnd (b :: rest) hashes = true
  · obtain ⟨after, hbytes⟩ := rawStringEnd_iff.mp hend
    obtain ⟨rfl, rfl⟩ := List.cons.inj hbytes
    refine ⟨_, _, raw_end hashes after, trivial, List.cons_ne_nil _ _, rfl, .ascii _ State.code after ?_⟩
    exact List.forall_mem_cons.mpr ⟨by decide, ascii_hashes hashes⟩
  · exact ⟨_, _, raw_other hend, trivial, List.cons_ne_nil _ _, rfl, .copied b (State.raw hashes) rest⟩

end

theorem rust_blanking : Blanking rustStep State.Inside where
  moves := by
    intro s b rest hs
    cases s with
    | code => exact code_moves
    | block depth => exact block_moves hs
    | string => exact string_moves
    | raw hashes => exact raw_moves hashes
  high := fun s _ => rustStep_high s

/-! ## the scanner for other languages -/

/-- not empty, below 128 and on one line -/
def Marker (marker : String) : Prop := utf8 marker.toList ≠ [] ∧ Visible (utf8 marker.toList)

instance (marker : String) : Decidable (Marker marker) :=
  inferInstanceAs (Decidable (utf8 marker.toList ≠ [] ∧ Visible (utf8 marker.toList)))

structure Markers (lineComments : List String) (blockComments : List (String × String)) : Prop where
  line : ∀ marker ∈ lineComments, Marker marker
  block : ∀ block ∈ blockComments, Marker block.1 ∧ Marker block.2

/-- quotes below 128, and a block that ends with a marker -/
structure Reading.Inside (s : Reading) : Prop where
  quote : ∀ delimiter, s.quote = some delimiter → delimiter < 128
  block : ∀ finish, s.blockEnd = some finish → Marker finish

theorem spaces_marker (marker : String) :
    List.replicate (strLen marker) space = (utf8 marker.toList).map fun _ => space := by
  rw [List.map_const', length_utf8, strLen_eq]

theorem startsWith_drop (h : startsWith bytes marker = true) :
    bytes = utf8 marker.toList ++ bytes.drop (strLen marker) := by
  obtain ⟨rest, rfl⟩ := startsWith_iff.mp h
  rw [strLen_eq, ← length_utf8, List.drop_left]

theorem startsWith_low {b : UInt8} {rest : List UInt8} (hmarker : Marker marker)
    (h : startsWith (b :: rest) marker = true) : b < 128 := by
  obtain ⟨x, xs, hx⟩ := List.exists_cons_of_ne_nil hmarker.1
  rw [startsWith_iff, hx, List.cons_prefix_cons] at h
  exact h.1 ▸ (hmarker.2 x (hx ▸ List.mem_cons_self)).1

section
variable {lineComments : List String} {blockComments : List (String × String)} {b : UInt8} {rest : List UInt8}

attribute [grind =] genericStep

variable {delimiter : UInt8}

theorem quote_other (h : ¬(b = backslash ∧ rest ≠ [])) :
    genericStep lineComments blockComments ⟨some delimiter, none⟩ b rest =
      some ⟨[b], ⟨if b = delimiter then none else some delimiter, none⟩, rest⟩ := by
  cases rest with
  | nil => cases hb : decide (b = backslash) <;> simp [genericStep, hb]
  | cons next rest =>
    have hb : b ≠ backslash := fun hb => h ⟨hb, List.cons_ne_nil _ _⟩
    simp [genericStep, hb]

theorem plain_other (hblock : ∀ block ∈ blockComments, ¬startsWith (b :: rest) block.1 = true)
    (hline : ∀ marker ∈ lineComments, ¬startsWith (b :: rest) marker = true) :
    genericStep lineComments blockComments ⟨none, none⟩ b rest =
      some ⟨[b], ⟨if b = apostrophe ∨ b = quotationMark ∨ b = backtick then some b else none, none⟩, rest⟩ := by
  rw [genericStep, List.find?_eq_none.mpr hblock, List.find?_eq_none.mpr hline]

theorem quote_copies (h : delimiter < 128) :
    Copies (genericStep lineComments blockComments) ⟨some delimiter, none⟩ := by
  intro b hb l
  have hne : ∀ x : UInt8, x < 128 → b ≠ x := fun x hx he => absurd hb (UInt8.not_le.mpr (he ▸ hx))
  rw [quote_other fun h => hne backslash (by decide) h.1, if_neg (hne delimiter h)]

theorem generic_high (hmarkers : Markers lineComments blockComments) {s : Reading} (hs : s.Inside) :
    Copies (genericStep lineComments blockComments) s ∨ Blanks (genericStep lineComments blockComments) s := by
  have hne : ∀ b x : UInt8, 128 ≤ b → x < 128 → b ≠ x := fun b x hb hx he => absurd hb (UInt8.not_le.mpr (he ▸ hx))
  have hstarts : ∀ (b : UInt8) (l : List UInt8) (marker : String), 128 ≤ b → Marker marker →
      ¬startsWith (b :: l) marker = true := fun b l marker hb hmarker hstarts =>
    absurd hb (UInt8.not_le.mpr (startsWith_low hmarker hstarts))
  obtain ⟨quote, blockEnd⟩ := s
  cases blockEnd with
  | some finish =>
    refine .inr fun b hb l => ?_
    rw [genericStep, if_neg (hstarts b l finish hb (hs.block finish rfl)), blanked, if_neg (hne b newline hb (by decide))]
  | none =>
    cases quote with
    | some delimiter => exact .inl (quote_copies (hs.quote delimiter rfl))
    | none =>
      refine .inl fun b hb l => ?_
      rw [plain_other (fun block hblock => hstarts b l block.1 hb (hmarkers.block block hblock).1)
        (fun marker hmarker => hstarts b l marker hb (hmarkers.line marker hmarker)), if_neg]
      rintro (h | h | h)
      · exact hne b apostrophe hb (by decide) h
      · exact hne b quotationMark hb (by decide) h
      · exact hne b backtick hb (by decide) h

theorem quote_moves (h : delimiter < 128) :
    ∃ t read, genericStep lineComments blockComments ⟨some delimiter, none⟩ b rest = some t ∧ t.state.Inside ∧
      read ≠ [] ∧ b :: rest = read ++ t.rest ∧
      Move (genericStep lineComments blockComments) ⟨some delimiter, none⟩ read t := by
  have hinside : Reading.Inside ⟨some delimiter, none⟩ := ⟨fun d hd => Option.some.inj hd ▸ h, nofun⟩
  by_cases hescape : b = backslash ∧ rest ≠ []
  · obtain ⟨rfl, hne⟩ := hescape
    obtain ⟨next, rest, rfl⟩ := List.exists_cons_of_ne_nil hne
    exact ⟨_, _, rfl, hinside, List.cons_ne_nil _ _, rfl, .escaped next rest (quote_copies h)⟩
  · refine ⟨_, _, quote_other hescape, ?_, List.cons_ne_nil _ _, rfl, .copied b _ rest⟩
    by_cases hb : b = delimiter
    · rw [if_pos hb]
      exact ⟨nofun, nofun⟩
    · rw [if_neg hb]
      exact hinside

theorem plain_moves (hmarkers : Markers lineComments blockComments) :
    ∃ t read, genericStep lineComments blockComments ⟨none, none⟩ b rest = some t ∧ t.state.Inside ∧
      read ≠ [] ∧ b :: rest = read ++ t.rest ∧ Move (genericStep lineComments blockComments) ⟨none, none⟩ read t := by
  cases hblock : blockComments.find? fun block => startsWith (b :: rest) block.1 with
  | some block =>
    obtain ⟨start, finish⟩ := block
    obtain ⟨hstart, hfinish⟩ := hmarkers.block (start, finish) (List.mem_of_find?_eq_some hblock)
    have hstarts : startsWith (b :: rest) start = true :=
      List.find?_some (p := fun block : String × String => startsWith (b :: rest) block.1) hblock
    refine ⟨⟨_, ⟨none, some finish⟩, _⟩, utf8 start.toList, ?_, ⟨nofun, fun e he => ?_⟩, hstart.1,
      startsWith_drop hstarts, .marker _ _ _ hstart.2⟩
    · rw [genericStep, hblock, ← spaces_marker]
    · exact Option.some.inj he ▸ hfinish
  | none =>
    cases hline : lineComments.find? fun marker => startsWith (b :: rest) marker with
    | some marker =>
      have hmarker := hmarkers.line marker (List.mem_of_find?_eq_some hline)
      have hstarts : startsWith (b :: rest) marker = true :=
        List.find?_some (p := fun marker => startsWith (b :: rest) marker) hline
      have hinside : Reading.Inside ⟨none, none⟩ := ⟨fun _ h => (nomatch h), fun _ h => (nomatch h)⟩
      refine ⟨_, _, ?_, hinside, ?_, ?_,
        .line (utf8 marker.toList) ((b :: rest).drop (strLen marker)) ⟨none, none⟩ hmarker.2⟩
      · rw [genericStep, hblock, hline, List.map_append, ← spaces_marker]
      · exact List.append_ne_nil_of_left_ne_nil hmarker.1 _
      · rw [List.append_assoc, List.takeWhile_append_dropWhile]
        exact startsWith_drop hstarts
    | none =>
      refine ⟨_, _, plain_other (List.find?_eq_none.mp hblock) (List.find?_eq_none.mp hline), ⟨?_, nofun⟩,
        List.cons_ne_nil _ _, rfl, .copied b _ rest⟩
      intro delimiter hdelimiter
      dsimp only at hdelimiter
      split at hdelimiter
      · rename_i hb
        obtain rfl := Option.some.inj hdelimiter
        rcases hb with rfl | rfl | rfl
        · decide
        · decide
        · decide
      · cases hdelimiter

theorem generic_blanking (hmarkers : Markers lineComments blockComments) :
    Blanking (genericStep lineComments blockComments) Reading.Inside where
  moves := by
    intro s b rest hs
    obtain ⟨quote, blockEnd⟩ := s
    cases blockEnd with
    | some finish =>
      by_cases hend : startsWith (b :: rest) finish = true
      · have hmarker := hs.block finish rfl
        refine ⟨_, utf8 finish.toList, if_pos hend, ⟨hs.quote, nofun⟩, hmarker.1, startsWith_drop hend, ?_⟩
        rw [spaces_marker]
        exact .marker _ _ _ hmarker.2
      · exact ⟨_, _, if_neg hend, hs, List.cons_ne_nil _ _, rfl, .byte b _ rest⟩
    | none =>
      cases quote with
      | some delimiter => exact quote_moves (hs.quote delimiter rfl)
      | none => exact plain_moves hmarkers
  high := fun _ hs => generic_high hmarkers hs

end

/-! ## every language -/

theorem profiles_markers : ∀ profile ∈ languageProfiles, (∀ marker ∈ profile.lineComments, Marker marker) ∧
    ∀ block ∈ profile.blockComments, Marker block.1 ∧ Marker block.2 := by
  decide

theorem markers_nil {lineComments : List String} (h : ∀ marker ∈ lineComments, Marker marker) :
    Markers lineComments [] := ⟨h, nofun⟩

theorem languageForFileName_markers {name : String} {language : Language}
    (h : languageForFileName name = some language) : Markers language.lineComments language.blockComments := by
  have hhash : Markers hashLine noBlocks := markers_nil (by decide)
  unfold languageForFileName at h
  split at h
  · exact Option.some.inj h ▸ hhash
  split at h
  · exact Option.some.inj h ▸ hhash
  split at h
  · exact Option.some.inj h ▸ hhash
  split at h
  · exact Option.some.inj h ▸ hhash
  split at h
  · exact Option.some.inj h ▸ ⟨by decide, by decide⟩
  split at h
  · exact Option.some.inj h ▸ hhash
  split at h
  · exact Option.some.inj h ▸ hhash
  · cases h

theorem languageForExtension_markers {extension : String} {language : Language}
    (h : languageForExtension extension = some language) : Markers language.lineComments language.blockComments := by
  obtain ⟨profile, hprofile, rfl⟩ := Option.map_eq_some_iff.mp h
  obtain ⟨hline, hblock⟩ := profiles_markers profile (List.mem_of_find?_eq_some hprofile)
  exact ⟨hline, hblock⟩

theorem languageForShebang_markers {language : Language} (h : languageForShebang source = some language) :
    Markers language.lineComments language.blockComments := by
  obtain ⟨line, -, h⟩ := Option.bind_eq_some_iff.mp h
  obtain ⟨command, -, rfl⟩ := Option.map_eq_some_iff.mp h
  dsimp only
  split_ifs
  all_goals exact markers_nil (by decide)

theorem detect_markers {fileName extension : Option String} {language : Language}
    (h : detect fileName extension source = some language) :
    Markers language.lineComments language.blockComments := by
  unfold detect at h
  split at h
  · cases h
  obtain ⟨fileName, -, h⟩ := Option.bind_eq_some_iff.mp h
  dsimp only at h
  split at h
  · cases h
  split at h
  · rename_i found hfound
    exact languageForFileName_markers (hfound.trans h)
  cases extension with
  | none => exact languageForShebang_markers h
  | some extension =>
    dsimp only at h
    split at h
    · cases h
    obtain rfl := Option.some.inj h
    cases hfound : languageForExtension (asciiLowercase extension) with
    | some found => exact languageForExtension_markers hfound
    | none => exact markers_nil fun marker hmarker => absurd hmarker List.not_mem_nil

theorem stripRustComments_layout (source : String) : ∃ out, stripRustComments source = some out ∧ Layout source out :=
  rust_blanking.layout (s := .code) trivial source

theorem stripComments_layout {lineComments : List String} {blockComments : List (String × String)}
    (hmarkers : Markers lineComments blockComments) (source : String) :
    ∃ out, stripComments source lineComments blockComments = some out ∧ Layout source out :=
  (generic_blanking hmarkers).layout (s := ⟨none, none⟩) ⟨nofun, nofun⟩ source

/-- Both scanners keep the layout of every source, in every language that a file can be in. -/
theorem strip_layout (source : String) :
    (∃ out, stripRustComments source = some out ∧ Layout source out) ∧
      ∀ fileName extension text language, detect fileName extension text = some language →
        (∃ out, language.stripComments source = some out ∧ Layout source out) ∧
        ∃ out, stripComments source language.lineComments language.blockComments = some out ∧ Layout source out := by
  refine ⟨stripRustComments_layout source, fun fileName extension text language h => ?_⟩
  have hgeneric := stripComments_layout (detect_markers h) source
  refine ⟨?_, hgeneric⟩
  rw [Language.stripComments]
  by_cases hrust : language.analyzer = .rust
  · rw [if_pos hrust]
    exact stripRustComments_layout source
  · rwa [if_neg hrust]

theorem strip_layout_script :
    detect (some "tool") none "#!/bin/sh\n" = some ⟨"shell", .generic, ["#"], []⟩ ∧
      ∃ out, (Language.stripComments ⟨"shell", .generic, ["#"], []⟩ "ls 'a # b\n") = some out ∧
        Layout "ls 'a # b\n" out := by
  have hdetect : detect (some "tool") none "#!/bin/sh\n" = some ⟨"shell", .generic, ["#"], []⟩ := by
    have hchars : "#!/bin/sh\n".toList = ['#', '!', '/', 'b', 'i', 'n', '/', 's', 'h', '\n'] := String.toList_ofList
    have htextual : looksTextual "#!/bin/sh\n" = true := by
      rw [looksTextual, hchars]
      decide +kernel
    have hlower : asciiLowercase "tool" = "tool" := by decide +kernel
    have hkept : "tool" ∉ ignoredFileNames := by decide +kernel
    have hname : languageForFileName "tool" = none := by decide +kernel
    have hshebang : languageForShebang "#!/bin/sh\n" = some ⟨"shell", .generic, ["#"], []⟩ := by
      rw [languageForShebang, hchars]
      decide +kernel
    have hread : ¬ (!looksTextual "#!/bin/sh\n") = true := by
      rw [htextual]
      exact Bool.false_ne_true
    rw [detect, if_neg hread, Option.bind_some, hlower, if_neg hkept, hname]
    exact hshebang
  exact ⟨hdetect, ((strip_layout "ls 'a # b\n").2 _ _ _ _ hdetect).1⟩

end Orvek.Sloppiness
