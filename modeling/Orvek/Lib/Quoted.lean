import Orvek.Lib.Json

/-!
# Reading quoted text back

What a JSON string holds is read back from its text, whatever follows it.

* `readChar`             one character inside a string, and what is left;
* `quote_append_inj`     a quoted string and the text after it determine each other;
* `optional_append_inj`  the same for a string that may be missing.
-/

namespace Json

/-- the value of a hexadecimal digit -/
def hexValue (c : Char) : Nat := if c.toNat < 58 then c.toNat - 48 else c.toNat - 87

/-- one character inside a string, which may be escaped, and the text after it -/
def readChar : List Char → Option (Char × List Char)
  | '\\' :: 'u' :: _ :: _ :: high :: low :: rest =>
    some (Char.ofNat (16 * hexValue high + hexValue low), rest)
  | '\\' :: '"' :: rest => some ('"', rest)
  | '\\' :: '\\' :: rest => some ('\\', rest)
  | '\\' :: 'b' :: rest => some (Char.ofNat 8, rest)
  | '\\' :: 't' :: rest => some (Char.ofNat 9, rest)
  | '\\' :: 'n' :: rest => some (Char.ofNat 10, rest)
  | '\\' :: 'f' :: rest => some (Char.ofNat 12, rest)
  | '\\' :: 'r' :: rest => some (Char.ofNat 13, rest)
  | '"' :: _ => none
  | c :: rest => some (c, rest)
  | [] => none

theorem hexValue_digits : ∀ n < 32, Char.ofNat (16 * hexValue (hexDigit (n / 16)) +
    hexValue (hexDigit (n % 16))) = Char.ofNat n := by decide

theorem readChar_escapeChar (c : Char) (rest : List Char) :
    readChar (escapeChar c ++ rest) = some (c, rest) := by
  have hcode : ∀ n, c.toNat = n → c = Char.ofNat n := fun n hn => by rw [← hn, Char.ofNat_toNat]
  unfold escapeChar
  split
  · rename_i hc
    rw [hc]
    rfl
  · rename_i hquote
    split
    · rename_i hc
      rw [hc]
      rfl
    · rename_i hslash
      split
      · rename_i hc
        rw [hcode 8 hc]
        rfl
      · split
        · rename_i hc
          rw [hcode 9 hc]
          rfl
        · split
          · rename_i hc
            rw [hcode 10 hc]
            rfl
          · split
            · rename_i hc
              rw [hcode 12 hc]
              rfl
            · split
              · rename_i hc
                rw [hcode 13 hc]
                rfl
              · split
                · rename_i hc
                  show some (Char.ofNat (16 * hexValue (hexDigit (c.toNat / 16)) +
                    hexValue (hexDigit (c.toNat % 16))), rest) = some (c, rest)
                  rw [hexValue_digits _ hc, Char.ofNat_toNat]
                · show readChar (c :: rest) = some (c, rest)
                  unfold readChar
                  split <;> simp_all

theorem readChar_quote (rest : List Char) : readChar ('"' :: rest) = none := rfl

theorem escaped_append_inj : ∀ {l l' x x' : List Char},
    l.flatMap escapeChar ++ '"' :: x = l'.flatMap escapeChar ++ '"' :: x' → l = l' ∧ x = x' := by
  intro l
  induction l with
  | nil =>
    intro l' x x' h
    cases l' with
    | nil => exact ⟨rfl, (List.cons.inj h).2⟩
    | cons d l' =>
      have hread := congrArg readChar h
      rw [List.flatMap_cons, List.append_assoc, readChar_escapeChar] at hread
      cases (readChar_quote x).symm.trans hread
  | cons c l ih =>
    intro l' x x' h
    have hread := congrArg readChar h
    rw [List.flatMap_cons, List.append_assoc, readChar_escapeChar] at hread
    cases l' with
    | nil => cases hread.trans (readChar_quote x')
    | cons d l' =>
      rw [List.flatMap_cons, List.append_assoc, readChar_escapeChar] at hread
      obtain ⟨rfl, hrest⟩ := Prod.mk.inj (Option.some.inj hread)
      obtain ⟨rfl, rfl⟩ := ih hrest
      exact ⟨rfl, rfl⟩

/-- **A quoted string and the text after it determine each other.** -/
theorem quote_append_inj {s t : String} {x y : List Char} (h : quote s ++ x = quote t ++ y) :
    s = t ∧ x = y := by
  rw [quote, quote, List.cons_append, List.cons_append, List.append_assoc, List.append_assoc] at h
  obtain ⟨hchars, hrest⟩ := escaped_append_inj (List.cons.inj h).2
  exact ⟨String.toList_inj.mp hchars, hrest⟩

theorem optional_append_inj {s t : Option String} {x y : List Char}
    (h : (optional Value.string s).text ++ x = (optional Value.string t).text ++ y) : s = t ∧ x = y := by
  cases s with
  | none =>
    cases t with
    | none => exact ⟨rfl, List.append_cancel_left h⟩
    | some t => cases (List.cons.inj h).1
  | some s =>
    cases t with
    | none => cases (List.cons.inj h).1
    | some t =>
      obtain ⟨rfl, hrest⟩ := quote_append_inj (show quote s ++ x = quote t ++ y from h)
      exact ⟨rfl, hrest⟩

end Json
