import Orvek.Lib.Json
import Orvek.Lib.Sha256

/-!
# Digests and identifiers

* `Digest`     a SHA-256 value; it is shown as 64 hexadecimal characters;
* `Uuid`       a 128-bit identifier; `SessionId` and `TaskId` wrap one;
* `Sha256`     the hash function itself, which comes from outside the repository.

Both identifiers are keys of ordered maps, so each one carries its order and the proof that the
order is lawful.
-/

set_option linter.unusedSectionVars false

namespace Orvek
open Std

/-- `count` hexadecimal digits of `n`, the most significant one first -/
def hexText (count n : Nat) : List Char :=
  (List.range count).map fun i => Json.hexDigit (n / 16 ^ (count - 1 - i) % 16)

theorem length_hexText (count n : Nat) : (hexText count n).length = count := by
  simp [hexText]

/-! ## digests -/

structure Digest where
  bits : BitVec 256
  deriving DecidableEq, Inhabited, Repr

instance : Ord Digest := ⟨compareOn Digest.bits⟩
instance : TransOrd Digest := inferInstanceAs <| TransCmp (compareOn _)
instance : LawfulEqOrd Digest where
  eq_of_compare {a b} h := by
    cases a; cases b
    exact congrArg Digest.mk (LawfulEqOrd.eq_of_compare h)

def Digest.display (d : Digest) : String := String.ofList (hexText 64 d.bits.toNat)

theorem Digest.length_display (d : Digest) : d.display.length = 64 := by
  rw [Digest.display, String.length_ofList, length_hexText]

/-- the SHA-256 function of the `sha2` crate -/
class Sha256 where
  hash : List UInt8 → Digest

@[reducible] def Sha256.standard : Sha256 := ⟨fun bytes => ⟨BitVec.ofNat 256 (Sha2.sha256 bytes)⟩⟩

section
variable [Sha256]

/-- `Digest::of` -/
def Digest.of (bytes : List UInt8) : Digest := Sha256.hash bytes

/-- `Digest::of_value` on a JSON value -/
def Digest.ofValue (v : Json.Value) : Digest := Digest.of (Json.toVec v)

/-- `Digest::of_value` on a slice of JSON values -/
def Digest.ofValues (items : List Json.Value) : Digest := Digest.ofValue (.array items)

/-- `Digest::of(text.as_bytes())` -/
def Digest.ofStr (s : String) : Digest := Digest.of (Json.strBytes s)

end

/-! ## identifiers -/

structure Uuid where
  bits : BitVec 128
  deriving DecidableEq, Inhabited, Repr

instance : Ord Uuid := ⟨compareOn Uuid.bits⟩
instance : TransOrd Uuid := inferInstanceAs <| TransCmp (compareOn _)
instance : LawfulEqOrd Uuid where
  eq_of_compare {a b} h := by
    cases a; cases b
    exact congrArg Uuid.mk (LawfulEqOrd.eq_of_compare h)

def hyphenate (digits : List Char) : List Char :=
  digits.take 8 ++ '-' :: ((digits.drop 8).take 4 ++ '-' ::
    ((digits.drop 12).take 4 ++ '-' :: ((digits.drop 16).take 4 ++ '-' :: digits.drop 20)))

theorem length_hyphenate (digits : List Char) (h : digits.length = 32) :
    (hyphenate digits).length = 36 := by
  simp [hyphenate, h]

def Uuid.display (u : Uuid) : String := String.ofList (hyphenate (hexText 32 u.bits.toNat))

theorem Uuid.length_display (u : Uuid) : u.display.length = 36 := by
  rw [Uuid.display, String.length_ofList, length_hyphenate _ (length_hexText _ _)]

structure SessionId where
  uuid : Uuid
  deriving DecidableEq, Inhabited, Repr

structure TaskId where
  uuid : Uuid
  deriving DecidableEq, Inhabited, Repr

def SessionId.display (id : SessionId) : String := id.uuid.display
def TaskId.display (id : TaskId) : String := id.uuid.display

/-! ## machine numbers -/

/-- `usize::MAX` on the 64-bit targets -/
def usizeMax : Nat := 2 ^ 64 - 1

/-- the decimal text of a `usize` or `u64` -/
def showUsize (n : Nat) : String := toString (n % 2 ^ 64)

theorem length_showUsize (n : Nat) : (showUsize n).length ≤ 20 := by
  have h : (Nat.toDigits 10 (n % 2 ^ 64)).length ≤ 20 :=
    (Nat.length_toDigits_le_iff (by omega) (by omega)).mpr (by omega)
  rw [showUsize, Nat.toString_eq_ofList_toDigits, String.length_ofList]
  exact h

/-- what the artifact store answers when it cannot serve a request -/
inductive ArtifactError where
  | io (message : String)
  | limit (bytes : Nat)
  | integrity (digest : Digest)
  | unsafePath (path : String)
  | lock
  deriving DecidableEq, Repr

end Orvek
