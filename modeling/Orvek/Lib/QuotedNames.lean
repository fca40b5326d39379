import Orvek.Lib.Encoded
import Orvek.Lib.UnifiedDiff

/-!
# Names quoted as in C

Git writes a name with unusual bytes between quotation marks, with escapes for these bytes:

* `escapeByte`   one byte, as a letter or three octal digits after a backslash where it needs one;
* `quoted`       a name, quoted when one of its bytes needs it;
* `readOctal`    up to three octal digits that are at most one byte.
-/

set_option linter.unusedSectionVars false

namespace QuotedNames
open Texts UnifiedDiff Json

def backslash : UInt8 := 0x5c

/-- a byte that is written as it is -/
def isBare (b : UInt8) : Bool := 0x20 ≤ b && b < 0x7f && b ≠ 0x22 && b ≠ backslash

/-- the letter after the backslash -/
def letter : UInt8 → Option UInt8
  | 0x07 => some 0x61
  | 0x08 => some 0x62
  | 0x09 => some 0x74
  | 0x0a => some 0x6e
  | 0x0b => some 0x76
  | 0x0c => some 0x66
  | 0x0d => some 0x72
  | 0x22 => some 0x22
  | 0x5c => some 0x5c
  | _ => none

def digit (n : Nat) : UInt8 := UInt8.ofNat (48 + n % 8)

def octal (b : UInt8) : List UInt8 := [digit (b.toNat / 64), digit (b.toNat / 8), digit b.toNat]

def escapeByte (b : UInt8) : List UInt8 :=
  if isBare b then [b]
  else backslash :: match letter b with
    | some x => [x]
    | none => octal b

/-- bytes below 128 as characters -/
def ascii (bytes : List UInt8) : Text := bytes.map fun b => Char.ofNat b.toNat

def quoted (name : Text) : Text :=
  if (utf8 name).all isBare then name else '"' :: (ascii ((utf8 name).flatMap escapeByte) ++ ['"'])

/-! ## reading -/

def isOctal (b : UInt8) : Bool := 48 ≤ b && b ≤ 55

/-- up to `limit` more digits after a value -/
def readOctal : Nat → Nat → List UInt8 → Option (UInt8 × List UInt8)
  | limit + 1, value, b :: rest =>
    if isOctal b then
      if value * 8 + (b.toNat - 48) ≤ 255 then readOctal limit (value * 8 + (b.toNat - 48)) rest else none
    else some (UInt8.ofNat value, b :: rest)
  | _, value, rest => some (UInt8.ofNat value, rest)

theorem readOctal_length {limit value : Nat} {bytes rest : List UInt8} {b : UInt8}
    (h : readOctal limit value bytes = some (b, rest)) : rest.length ≤ bytes.length := by
  induction limit generalizing value bytes with
  | zero => exact (Prod.mk.inj (Option.some.inj h)).2 ▸ Nat.le_refl _
  | succ limit ih =>
    cases bytes with
    | nil => exact (Prod.mk.inj (Option.some.inj h)).2 ▸ Nat.le_refl _
    | cons x bytes =>
      rw [readOctal] at h
      split at h
      · split at h
        · exact (ih h).trans (Nat.le_succ _)
        · cases h
      · exact (Prod.mk.inj (Option.some.inj h)).2 ▸ Nat.le_refl _

theorem digit_octal : ∀ n, isOctal (digit n) = true ∧ (digit n).toNat - 48 = n % 8 := by
  intro n
  have hlt : n % 8 < 8 := Nat.mod_lt n (by decide)
  have hdigit : ∀ k < 8, isOctal (UInt8.ofNat (48 + k)) = true ∧ (UInt8.ofNat (48 + k)).toNat - 48 = k := by decide
  exact hdigit (n % 8) hlt

theorem readOctal_octal (b : UInt8) (rest : List UInt8) : readOctal 3 0 (octal b ++ rest) = some (b, rest) := by
  have hb : b.toNat < 256 := b.toNat_lt
  obtain ⟨h1, v1⟩ := digit_octal (b.toNat / 64)
  obtain ⟨h2, v2⟩ := digit_octal (b.toNat / 8)
  obtain ⟨h3, v3⟩ := digit_octal b.toNat
  have hall : ((0 * 8 + b.toNat / 64 % 8) * 8 + b.toNat / 8 % 8) * 8 + b.toNat % 8 = b.toNat := by omega
  show readOctal 3 0 (digit (b.toNat / 64) :: digit (b.toNat / 8) :: digit b.toNat :: rest) = _
  rw [readOctal, if_pos h1, v1, if_pos (by omega), readOctal, if_pos h2, v2, if_pos (by omega), readOctal,
    if_pos h3, v3, hall, if_pos (by omega), readOctal, UInt8.ofNat_toNat]
  intro x y z h
  cases h

/-! ## what is written -/

/-- every byte that is written can be seen -/
theorem escapeByte_visible (b : UInt8) : ∀ x ∈ escapeByte b, 0x20 ≤ x ∧ x < 0x7f := by
  have hdigit : ∀ n, 0x20 ≤ digit n ∧ digit n < 0x7f := by
    intro n
    have h : ∀ k < 8, (0x20 : UInt8) ≤ UInt8.ofNat (48 + k) ∧ UInt8.ofNat (48 + k) < 0x7f := by decide
    exact h (n % 8) (Nat.mod_lt n (by decide))
  intro x hx
  unfold escapeByte at hx
  split at hx
  · rename_i hbare
    rw [List.mem_singleton.mp hx]
    simp only [isBare, Bool.and_eq_true, decide_eq_true_eq] at hbare
    exact ⟨hbare.1.1.1, hbare.1.1.2⟩
  · rcases List.mem_cons.mp hx with rfl | hx
    · decide
    · split at hx
      · rename_i y hletter
        rw [List.mem_singleton.mp hx]
        unfold letter at hletter
        split at hletter <;> first | cases hletter; done | (obtain rfl := Option.some.inj hletter; decide)
      · simp only [octal, List.mem_cons, List.not_mem_nil, or_false] at hx
        rcases hx with rfl | rfl | rfl <;> exact hdigit _

theorem utf8_ascii {bytes : List UInt8} (h : ∀ b ∈ bytes, b < 0x7f) : utf8 (ascii bytes) = bytes := by
  have hbyte : ∀ b : UInt8, b < 0x7f → String.utf8EncodeChar (Char.ofNat b.toNat) = [b] := by
    intro b hb
    have hall : ∀ n < 127, String.utf8EncodeChar (Char.ofNat n) = [UInt8.ofNat n] := by decide
    rw [hall b.toNat (UInt8.lt_iff_toNat_lt.mp hb), UInt8.ofNat_toNat]
  induction bytes with
  | nil => rfl
  | cons b bytes ih =>
    obtain ⟨hb, hbytes⟩ := List.forall_mem_cons.mp h
    show String.utf8EncodeChar (Char.ofNat b.toNat) ++ utf8 (ascii bytes) = b :: bytes
    rw [hbyte b hb, ih hbytes]
    rfl

theorem escapes_visible (bytes : List UInt8) : ∀ x ∈ bytes.flatMap escapeByte, 0x20 ≤ x ∧ x < 0x7f := by
  intro x hx
  obtain ⟨b, -, hx⟩ := List.mem_flatMap.mp hx
  exact escapeByte_visible b x hx

/-- a control character cannot be read from what is written -/
theorem control_not_mem {c : Char} (hc : c.toNat < 0x20) (name : Text) : c ∉ quoted name := by
  intro hm
  unfold quoted at hm
  split at hm
  · rename_i hbare
    have hbyte : ∀ n < 0x20, String.utf8EncodeChar (Char.ofNat n) = [UInt8.ofNat n] := by decide
    have hmem : UInt8.ofNat c.toNat ∈ utf8 name := by
      refine List.mem_flatMap.mpr ⟨c, hm, ?_⟩
      have h := hbyte c.toNat hc
      rw [Char.ofNat_toNat] at h
      rw [h]
      exact List.mem_singleton.mpr rfl
    have hcontrol : ∀ n < 0x20, isBare (UInt8.ofNat n) = false := by decide
    have := List.all_eq_true.mp hbare _ hmem
    rw [hcontrol c.toNat hc] at this
    cases this
  · have hquote : c ≠ '"' := by
      rintro rfl
      exact absurd hc (by decide)
    rcases List.mem_cons.mp hm with rfl | hm
    · exact hquote rfl
    · rcases List.mem_append.mp hm with hm | hm
      · obtain ⟨b, hb, rfl⟩ := List.mem_map.mp hm
        have hvisible := escapes_visible _ b hb
        have hcode : ∀ n < 127, (Char.ofNat n).toNat = n := by decide
        rw [hcode b.toNat (UInt8.lt_iff_toNat_lt.mp hvisible.2)] at hc
        exact absurd (UInt8.le_iff_toNat_le.mp hvisible.1) (Nat.not_le.mpr hc)
      · exact hquote (List.mem_singleton.mp hm)

end QuotedNames
