import Orvek.Ids

/-!
# Strings and ordered maps as the source uses them

* `BTreeMap`, `BTreeSet`   the ordered collections, with keys in order and no duplicates;
* `valuesOf`               the values of a map, in the order of the keys;
* `isWhitespace`, `blank`  `char::is_whitespace` and `str::trim().is_empty()`;
* `isControl`              `char::is_control`;
* `strLen`                 `str::len`, the number of bytes.
-/

namespace Orvek
open Json

abbrev BTreeMap (α β : Type) [Ord α] : Type := Std.ExtTreeMap α β compare
abbrev BTreeSet (α : Type) [Ord α] : Type := Std.ExtTreeSet α compare

def valuesOf {α β : Type} [Ord α] [Std.TransOrd α] (m : BTreeMap α β) : List β := m.toList.map Prod.snd

theorem mem_valuesOf {α β : Type} [Ord α] [Std.TransOrd α] [Std.LawfulEqOrd α] {m : BTreeMap α β}
    {v : β} : v ∈ valuesOf m ↔ ∃ k : α, m[k]? = some v := by
  rw [valuesOf, List.mem_map]
  constructor
  · rintro ⟨⟨k, w⟩, hm, rfl⟩
    exact ⟨k, Std.ExtTreeMap.mem_toList_iff_getElem?_eq_some.mp hm⟩
  · rintro ⟨k, hk⟩
    exact ⟨(k, v), Std.ExtTreeMap.mem_toList_iff_getElem?_eq_some.mpr hk, rfl⟩

theorem mem_insert_string {s : BTreeSet String} {a k : String} : k ∈ s.insert a ↔ k = a ∨ k ∈ s := by
  rw [Std.ExtTreeSet.mem_insert, Std.LawfulEqCmp.compare_eq_iff_eq]
  exact or_congr_left eq_comm

/-- the Unicode property White_Space -/
def isWhitespace (c : Char) : Bool :=
  let n := c.toNat
  (9 ≤ n && n ≤ 13) || n == 0x20 || n == 0x85 || n == 0xA0 || n == 0x1680 ||
    (0x2000 ≤ n && n ≤ 0x200A) || n == 0x2028 || n == 0x2029 || n == 0x202F || n == 0x205F ||
    n == 0x3000

/-- `text.trim().is_empty()` -/
def blank (s : String) : Bool := s.toList.all isWhitespace

/-- the Unicode general category Cc -/
def isControl (c : Char) : Bool := c.toNat ≤ 0x1F || (0x7F ≤ c.toNat && c.toNat ≤ 0x9F)

def strLen (s : String) : Nat := s.utf8ByteSize

theorem utf8ByteSize_ofList (l : List Char) : (String.ofList l).utf8ByteSize = utf8Length l := by
  induction l with
  | nil => rfl
  | cons c l ih =>
    rw [← List.singleton_append, String.ofList_append, String.utf8ByteSize_append, ih,
      ← String.singleton_eq_ofList, String.utf8ByteSize_singleton]
    rfl

theorem strLen_eq (s : String) : strLen s = utf8Length s.toList := by
  rw [strLen, ← utf8ByteSize_ofList, String.ofList_toList]

def u32Max : Nat := 2 ^ 32 - 1
def u64Max : Nat := 2 ^ 64 - 1

/-- `u32::saturating_add` -/
def satAdd32 (a b : Nat) : Nat := min (a + b) u32Max

/-- `u64::saturating_add` -/
def satAdd64 (a b : Nat) : Nat := min (a + b) u64Max

end Orvek
