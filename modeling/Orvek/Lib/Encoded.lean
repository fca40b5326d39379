import Mathlib.Data.List.Nodup
import Orvek.Lib.Json

/-!
# How long an encoded value gets

* `Plain`            a character that JSON writes as it is, in one byte;
* `digits`           the decimal digits of a number;
* `size_ofFields`    an object whose fields have different names, in any order;
* `base64`           bytes as text, and how long it is;
* `fromUtf8`         bytes read as UTF-8; in a JSON string one byte takes at most six.
-/

set_option linter.unusedSectionVars false

namespace Json

variable {cs : List Char} {fields : List (String × Value)} {bytes : List UInt8}

/-! ## characters that need no escape -/

def Plain (c : Char) : Prop := escapeChar c = [c] ∧ c.utf8Size = 1

instance (c : Char) : Decidable (Plain c) := inferInstanceAs (Decidable (_ ∧ _))

theorem utf8Length_plain (h : ∀ c ∈ cs, Plain c) : utf8Length (cs.flatMap escapeChar) = cs.length := by
  induction cs with
  | nil => rfl
  | cons c cs ih =>
    have hc := h c List.mem_cons_self
    rw [List.flatMap_cons, hc.1, List.singleton_append, utf8Length_cons, hc.2, List.length_cons,
      ih fun d hd => h d (List.mem_cons_of_mem _ hd), Nat.add_comm]

theorem escapedLength_ofList (h : ∀ c ∈ cs, Plain c) : escapedLength (String.ofList cs) = cs.length := by
  rw [escapedLength, String.toList_ofList, utf8Length_plain h]

theorem plain_hexDigit : ∀ n < 16, Plain (hexDigit n) := by decide

theorem plain_of_code {c : Char} (hlow : 35 ≤ c.toNat) (hhigh : c.toNat < 128)
    (hslash : c.toNat ≠ 92) :
    Plain c := by
  have hquote : c ≠ '"' := by
    rintro rfl
    exact absurd hlow (by decide)
  have hback : c ≠ '\\' := by
    rintro rfl
    exact hslash rfl
  constructor
  · unfold escapeChar
    rw [if_neg hquote, if_neg hback, if_neg (by omega), if_neg (by omega), if_neg (by omega),
      if_neg (by omega), if_neg (by omega), if_neg (by omega)]
  · exact Char.utf8Size_eq_one_iff.mpr (UInt32.le_iff_toNat_le.mpr (Nat.le_of_lt_succ hhigh))

theorem plain_isDigit {c : Char} (h : c.isDigit = true) : Plain c := by
  simp only [Char.isDigit, ge_iff_le, Bool.and_eq_true, decide_eq_true_eq] at h
  have h1 : 48 ≤ c.toNat := h.1
  have h2 : c.toNat ≤ 57 := h.2
  exact plain_of_code (by omega) (by omega) (by omega)

/-! ## numbers -/

def digits (n : Nat) : Nat := (Nat.toDigits 10 n).length

theorem utf8Length_digits (h : ∀ c ∈ cs, c.isDigit = true) : utf8Length cs = cs.length := by
  induction cs with
  | nil => rfl
  | cons c cs ih =>
    rw [utf8Length_cons, (plain_isDigit (h c List.mem_cons_self)).2, List.length_cons,
      ih fun d hd => h d (List.mem_cons_of_mem _ hd), Nat.add_comm]

theorem size_ofNat (n : Nat) : (ofNat n).size = digits n := by
  show utf8Length (toString n).toList = _
  rw [Nat.toString_eq_ofList_toDigits, String.toList_ofList]
  exact utf8Length_digits fun _ hc => Nat.isDigit_of_mem_toDigits (by decide) (by decide) hc

theorem digits_le {n k : Nat} (hk : 0 < k) (h : n < 10 ^ k) : digits n ≤ k :=
  (Nat.length_toDigits_le_iff (by decide) hk).mpr h

theorem digits_pos (n : Nat) : 0 < digits n := Nat.length_toDigits_pos

theorem digits_mono {m n : Nat} (h : m ≤ n) : digits m ≤ digits n := by
  have hn : n < 10 ^ digits n :=
    (Nat.length_toDigits_le_iff (by decide) (digits_pos n)).mp (Nat.le_refl _)
  exact digits_le (digits_pos n) (Nat.lt_of_le_of_lt h hn)

/-! ## objects -/

theorem sum_insertField {key : String} {v : Value} (h : key ∉ fields.map Prod.fst) :
    ((insertField key v fields).map fieldSize).sum =
      fieldSize (key, v) + (fields.map fieldSize).sum := by
  induction fields with
  | nil => rfl
  | cons f fields ih =>
    obtain ⟨name, w⟩ := f
    have hkey : key ≠ name := fun he => h (he ▸ List.mem_cons_self)
    have hrest : key ∉ fields.map Prod.fst := fun hm => h (List.mem_cons_of_mem _ hm)
    rw [insertField]
    split
    · rw [List.map_cons, List.sum_cons]
    · rw [List.map_cons, List.sum_cons, ih hrest, List.map_cons, List.sum_cons]
      omega

theorem names_insertField (key : String) (v : Value) (fields : List (String × Value)) (x : String) :
    x ∈ (insertField key v fields).map Prod.fst → x = key ∨ x ∈ fields.map Prod.fst := by
  induction fields with
  | nil => exact fun h => Or.inl (List.mem_singleton.mp h)
  | cons f fields ih =>
    obtain ⟨name, w⟩ := f
    rw [insertField]
    split
    · exact fun h => (List.mem_cons.mp h).imp_right id
    · split
      · exact fun h => (List.mem_cons.mp h).imp_right (List.mem_cons_of_mem _)
      · intro h
        rcases List.mem_cons.mp h with h | h
        · exact Or.inr (h ▸ List.mem_cons_self)
        · exact (ih h).imp_right (List.mem_cons_of_mem _)

theorem insertField_ne_nil (key : String) (v : Value) (fields : List (String × Value)) :
    insertField key v fields ≠ [] := by
  cases fields with
  | nil => exact List.cons_ne_nil _ _
  | cons f fields =>
    rw [insertField]
    split
    · exact List.cons_ne_nil _ _
    · split
      · exact List.cons_ne_nil _ _
      · exact List.cons_ne_nil _ _

theorem sum_foldl_insertField (acc : List (String × Value)) (hnodup : (fields.map Prod.fst).Nodup)
    (hacc : ∀ x ∈ fields.map Prod.fst, x ∉ acc.map Prod.fst) :
    ((fields.foldl (fun acc f => insertField f.1 f.2 acc) acc).map fieldSize).sum =
      (acc.map fieldSize).sum + (fields.map fieldSize).sum := by
  induction fields generalizing acc with
  | nil => rfl
  | cons f fields ih =>
    have hn := List.nodup_cons.mp hnodup
    rw [List.foldl_cons, ih _ hn.2, sum_insertField (hacc f.1 List.mem_cons_self), List.map_cons,
      List.sum_cons]
    · show fieldSize f + _ + _ = _
      omega
    · intro x hx hm
      rcases names_insertField f.1 f.2 acc x hm with rfl | hm
      · exact hn.1 hx
      · exact hacc x (List.mem_cons_of_mem _ hx) hm

theorem foldl_insertField_ne_nil (fields acc : List (String × Value)) (h : acc ≠ []) :
    fields.foldl (fun acc f => insertField f.1 f.2 acc) acc ≠ [] := by
  induction fields generalizing acc with
  | nil => exact h
  | cons f fields ih => exact ih _ (insertField_ne_nil f.1 f.2 acc)

/-- **An object of fields with different names**: each field with a separator, and one byte. -/
theorem size_ofFields (hne : fields ≠ []) (hnodup : (fields.map Prod.fst).Nodup) :
    (ofFields fields).size = 1 + (fields.map fieldSize).sum := by
  have hsum := sum_foldl_insertField [] hnodup fun _ _ hm => (nomatch hm)
  obtain ⟨f, rest, rfl⟩ := List.exists_cons_of_ne_nil hne
  have hsome := foldl_insertField_ne_nil rest (insertField f.1 f.2 []) (insertField_ne_nil _ _ _)
  rw [List.map_nil, List.sum_nil, Nat.zero_add] at hsum
  rw [ofFields, ← hsum, List.foldl_cons]
  obtain ⟨g, gs, hg⟩ := List.exists_cons_of_ne_nil hsome
  rw [hg, size_object]

/-! ## bytes as text -/

def base64Char (n : Nat) : Char :=
  if n < 26 then Char.ofNat (65 + n)
  else if n < 52 then Char.ofNat (71 + n)
  else if n < 62 then Char.ofNat (n - 4)
  else if n = 62 then '+' else '/'

/-- the encoding with padding, six bits a character -/
def base64 : List UInt8 → List Char
  | [] => []
  | [a] => [base64Char (a.toNat / 4), base64Char (a.toNat % 4 * 16), '=', '=']
  | [a, b] =>
    [base64Char (a.toNat / 4), base64Char (a.toNat % 4 * 16 + b.toNat / 16),
      base64Char (b.toNat % 16 * 4), '=']
  | a :: b :: c :: rest =>
    base64Char (a.toNat / 4) :: base64Char (a.toNat % 4 * 16 + b.toNat / 16) ::
      base64Char (b.toNat % 16 * 4 + c.toNat / 64) :: base64Char (c.toNat % 64) :: base64 rest

theorem plain_base64Char (n : Nat) : Plain (base64Char n) := by
  have hlow : ∀ n < 63, Plain (base64Char n) := by decide
  by_cases hn : n < 63
  · exact hlow n hn
  · have h : base64Char n = '/' := by
      unfold base64Char
      rw [if_neg (by omega), if_neg (by omega), if_neg (by omega), if_neg (by omega)]
    rw [h]
    decide

theorem plain_base64 (bytes : List UInt8) : ∀ c ∈ base64 bytes, Plain c := by
  have hpad : Plain '=' := by decide
  induction bytes using base64.induct with
  | case1 => exact fun _ h => (nomatch h)
  | case2 a => simp [base64, plain_base64Char, hpad]
  | case3 a b => simp [base64, plain_base64Char, hpad]
  | case4 a b c rest ih =>
    simp only [base64, List.mem_cons]
    rintro d (rfl | rfl | rfl | rfl | hd)
    · exact plain_base64Char _
    · exact plain_base64Char _
    · exact plain_base64Char _
    · exact plain_base64Char _
    · exact ih d hd

theorem length_base64 (bytes : List UInt8) : (base64 bytes).length = 4 *
    ((bytes.length + 2) / 3) := by
  induction bytes using base64.induct with
  | case1 => rfl
  | case2 a => simp [base64]
  | case3 a b => simp [base64]
  | case4 a b c rest ih =>
    simp only [base64, List.length_cons, ih]
    omega

/-! ## bytes read as UTF-8 -/

/-- `std::str::from_utf8` -/
def fromUtf8 (bytes : List UInt8) : Option String := String.fromUTF8? ⟨bytes.toArray⟩

theorem fromUtf8_some {text : String} (h : fromUtf8 bytes = some text) :
    text.toByteArray = ⟨bytes.toArray⟩ := by
  unfold fromUtf8 String.fromUTF8? at h
  split at h
  · cases h
    rfl
  · cases h

theorem length_le_utf8Length (cs : List Char) : cs.length ≤ utf8Length cs := by
  induction cs with
  | nil => exact Nat.le_refl _
  | cons c cs ih =>
    have := c.utf8Size_pos
    rw [utf8Length_cons, List.length_cons]
    omega

theorem utf8Encode_toArray (cs : List Char) : cs.utf8Encode = ⟨(utf8 cs).toArray⟩ := by
  induction cs with
  | nil => rfl
  | cons c cs ih =>
    rw [List.utf8Encode_cons, ih, List.utf8Encode_singleton]
    show _ = ByteArray.mk (String.utf8EncodeChar c ++ utf8 cs).toArray
    ext1
    simp

theorem fromUtf8_utf8 (cs : List Char) : fromUtf8 (utf8 cs) = some (String.ofList cs) := by
  have h : (⟨(utf8 cs).toArray⟩ : ByteArray) = (String.ofList cs).toByteArray := by
    rw [String.toByteArray_ofList, utf8Encode_toArray]
  rw [fromUtf8, h, String.fromUTF8?, dif_pos (String.ofList cs).isValidUTF8]
  rfl

theorem utf8_inj {a b : List Char} (h : utf8 a = utf8 b) : a = b := by
  have htext : String.ofList a = String.ofList b := by
    rw [← Option.some_inj, ← fromUtf8_utf8, ← fromUtf8_utf8, h]
  rw [← @String.toList_ofList a, htext, String.toList_ofList]

theorem utf8_fromUtf8 {text : String} (h : fromUtf8 bytes = some text) : utf8 text.toList = bytes := by
  have harray : (⟨(utf8 text.toList).toArray⟩ : ByteArray) = ⟨bytes.toArray⟩ := by
    rw [← fromUtf8_some h, ← utf8Encode_toArray, String.utf8Encode_toList]
  rw [← @List.toList_toArray _ bytes, ← ByteArray.mk.inj harray]

theorem escapedLength_fromUtf8 {text : String} (h : fromUtf8 bytes = some text) :
    escapedLength text ≤ 6 * bytes.length := by
  have hlen := length_le_utf8Length text.toList
  have hfits : escapedLength text ≤ 6 * text.length := fits_of_length text
  have hsize : utf8Length text.toList = bytes.length := by rw [← length_utf8, utf8_fromUtf8 h]
  rw [String.length_toList] at hlen
  omega

end Json
