import Mathlib.Data.List.Basic
import Mathlib.Algebra.GroupWithZero.Nat
import Mathlib.Algebra.Group.Int.Defs
import Mathlib.Order.Lattice
import Mathlib.Data.List.Infix

/-!
# JSON values and their compact encoding

The values a JSON library hands to a program, together with the encoding such a library writes
without whitespace.  Nothing here depends on the program that uses it:

* `Value`              a JSON document; an object is the list of its fields, in key order;
* `Value.Keyed`        no object has two fields of one name;
* `Value.index`        the total lookup `value[key]`: `null` when there is nothing to look up;
* `Value.text`         the compact encoding as a list of characters;
* `toVec`              the same encoding as bytes;
* `toVec_array_length` the length of an encoded array from the lengths of its items.

Numbers carry their decimal text, so that no rounding is involved.
-/

namespace Json

/-! ## values -/

inductive Value where
  | null
  | bool (b : Bool)
  | number (text : String)
  | string (s : String)
  | array (items : List Value)
  | object (fields : List (String × Value))
  deriving Inhabited, Repr

/-- the value of the first field named `key` -/
def lookup (key : String) : List (String × Value) → Option Value
  | [] => none
  | (name, v) :: fields => if name = key then some v else lookup key fields

/-- insertion in key order; a field of the same name is replaced -/
def insertField (key : String) (v : Value) : List (String × Value) → List (String × Value)
  | [] => [(key, v)]
  | (name, w) :: fields =>
    if key < name then (key, v) :: (name, w) :: fields
    else if key = name then (key, v) :: fields
    else (name, w) :: insertField key v fields

/-- an object from its fields, given in any order -/
def ofFields (fields : List (String × Value)) : Value :=
  .object (fields.foldl (fun acc f => insertField f.1 f.2 acc) [])

def Value.get (key : String) : Value → Option Value
  | .object fields => lookup key fields
  | _ => none

/-- `value[key]`, which is `null` on anything that has no such field -/
def Value.index (v : Value) (key : String) : Value := (v.get key).getD .null

def Value.asStr : Value → Option String
  | .string s => some s
  | _ => none

def Value.asArray : Value → Option (List Value)
  | .array items => some items
  | _ => none

/-- `value[key] == "text"` -/
def Value.fieldIs (v : Value) (key text : String) : Bool := (v.index key).asStr == some text

def ofNat (n : Nat) : Value := .number (toString n)

mutual

def Value.beq : Value → Value → Bool
  | .null, .null => true
  | .bool a, .bool b => a == b
  | .number a, .number b => a == b
  | .string a, .string b => a == b
  | .array a, .array b => beqItems a b
  | .object a, .object b => beqFields a b
  | _, _ => false

def beqItems : List Value → List Value → Bool
  | [], [] => true
  | v :: l, w :: m => v.beq w && beqItems l m
  | _, _ => false

def beqFields : List (String × Value) → List (String × Value) → Bool
  | [], [] => true
  | (k, v) :: l, (n, w) :: m => k == n && (v.beq w && beqFields l m)
  | _, _ => false

end

mutual

theorem Value.beq_iff : ∀ v w : Value, v.beq w = true ↔ v = w
  | .null, w => by cases w <;> simp [Value.beq]
  | .bool a, w => by cases w <;> simp [Value.beq]
  | .number a, w => by cases w <;> simp [Value.beq]
  | .string a, w => by cases w <;> simp [Value.beq]
  | .array a, w => by cases w <;> simp [Value.beq, beqItems_iff a]
  | .object a, w => by cases w <;> simp [Value.beq, beqFields_iff a]

theorem beqItems_iff : ∀ l m : List Value, beqItems l m = true ↔ l = m
  | [], m => by cases m <;> simp [beqItems]
  | v :: l, m => by
    cases m with
    | nil => simp [beqItems]
    | cons w m => simp [beqItems, Value.beq_iff v w, beqItems_iff l m]

theorem beqFields_iff : ∀ l m : List (String × Value), beqFields l m = true ↔ l = m
  | [], m => by cases m <;> simp [beqFields]
  | (k, v) :: l, m => by
    cases m with
    | nil => simp [beqFields]
    | cons w m =>
      obtain ⟨n, w⟩ := w
      simp [beqFields, Value.beq_iff v w, beqFields_iff l m, and_assoc]

end

instance : DecidableEq Value := fun v w => decidable_of_iff _ (Value.beq_iff v w)

/-! ## fields -/

attribute [grind =] lookup

theorem lookup_mem {key : String} {fields : List (String × Value)} {v : Value}
    (h : lookup key fields = some v) : (key, v) ∈ fields := by
  induction fields with
  | nil => cases h
  | cons f fields ih =>
    obtain ⟨name, w⟩ := f
    rw [lookup] at h
    split at h
    · rename_i he
      cases h
      rw [he]
      exact List.mem_cons_self
    · exact List.mem_cons_of_mem _ (ih h)

theorem lookup_none {key : String} {fields : List (String × Value)} :
    lookup key fields = none ↔ key ∉ fields.map Prod.fst := by
  induction fields with
  | nil => simp [lookup]
  | cons f fields ih =>
    obtain ⟨name, w⟩ := f
    rw [lookup, List.map_cons, List.mem_cons, not_or]
    split
    · rename_i he
      exact ⟨fun h => (nomatch h), fun h => absurd he.symm h.1⟩
    · rename_i hne
      rw [ih]
      exact ⟨fun h => ⟨fun he => hne he.symm, h⟩, And.right⟩

/-- no object has two fields of one name -/
inductive Value.Keyed : Value → Prop
  | null : Keyed .null
  | bool (b : Bool) : Keyed (.bool b)
  | number (text : String) : Keyed (.number text)
  | string (s : String) : Keyed (.string s)
  | array {items : List Value} (h : ∀ v ∈ items, v.Keyed) : Keyed (.array items)
  | object {fields : List (String × Value)} (hnodup : (fields.map Prod.fst).Nodup)
      (h : ∀ f ∈ fields, f.2.Keyed) : Keyed (.object fields)

theorem Value.Keyed.get {v w : Value} {key : String} (h : v.Keyed) (hw : v.get key = some w) : w.Keyed := by
  cases h with
  | object _ h => exact h _ (lookup_mem hw)
  | _ => cases hw

theorem Value.Keyed.item {v w : Value} {items : List Value} (h : v.Keyed) (hv : v.asArray = some items)
    (hw : w ∈ items) : w.Keyed := by
  cases h with
  | array h =>
    cases hv
    exact h w hw
  | _ => cases hv

/-! ## the compact encoding -/

def hexDigit (n : Nat) : Char :=
  if n < 10 then Char.ofNat (48 + n) else Char.ofNat (87 + n)

/-- one character inside a JSON string -/
def escapeChar (c : Char) : List Char :=
  if c = '"' then ['\\', '"']
  else if c = '\\' then ['\\', '\\']
  else if c.toNat = 8 then ['\\', 'b']
  else if c.toNat = 9 then ['\\', 't']
  else if c.toNat = 10 then ['\\', 'n']
  else if c.toNat = 12 then ['\\', 'f']
  else if c.toNat = 13 then ['\\', 'r']
  else if c.toNat < 32 then ['\\', 'u', '0', '0', hexDigit (c.toNat / 16), hexDigit (c.toNat % 16)]
  else [c]

def quote (s : String) : List Char := '"' :: (s.toList.flatMap escapeChar ++ ['"'])

def optional {α : Type} (f : α → Value) : Option α → Value
  | none => .null
  | some a => f a

mutual

def Value.text : Value → List Char
  | .null => "null".toList
  | .bool true => "true".toList
  | .bool false => "false".toList
  | .number text => text.toList
  | .string s => quote s
  | .array items => '[' :: (textItems items ++ [']'])
  | .object fields => '\x7b' :: (textFields fields ++ ['\x7d'])

def textItems : List Value → List Char
  | [] => []
  | v :: items => v.text ++ textRest items

def textRest : List Value → List Char
  | [] => []
  | v :: items => ',' :: (v.text ++ textRest items)

def textFields : List (String × Value) → List Char
  | [] => []
  | (k, v) :: fields => quote k ++ ':' :: (v.text ++ textFieldsRest fields)

def textFieldsRest : List (String × Value) → List Char
  | [] => []
  | (k, v) :: fields => ',' :: (quote k ++ ':' :: (v.text ++ textFieldsRest fields))

end

def utf8 (cs : List Char) : List UInt8 := cs.flatMap String.utf8EncodeChar

/-- the number of bytes of a text in UTF-8 -/
def utf8Length (cs : List Char) : Nat := (cs.map Char.utf8Size).sum

def strBytes (s : String) : List UInt8 := utf8 s.toList

def toVec (v : Value) : List UInt8 := utf8 v.text

/-- the number of bytes of the encoding of a value -/
def Value.size (v : Value) : Nat := utf8Length v.text

theorem utf8Length_nil : utf8Length [] = 0 := rfl
theorem utf8Length_cons (c : Char) (cs : List Char) :
    utf8Length (c :: cs) = c.utf8Size + utf8Length cs := rfl
theorem utf8Length_append (a b : List Char) :
    utf8Length (a ++ b) = utf8Length a + utf8Length b := by
  simp [utf8Length]

theorem length_utf8 (cs : List Char) : (utf8 cs).length = utf8Length cs := by
  induction cs with
  | nil => rfl
  | cons c cs ih =>
    show (String.utf8EncodeChar c ++ utf8 cs).length = _
    rw [List.length_append, ih, String.length_utf8EncodeChar, utf8Length_cons]

theorem toVec_length (v : Value) : (toVec v).length = v.size := length_utf8 _

/-! ## lengths -/

theorem utf8Length_textRest (items : List Value) :
    utf8Length (textRest items) = (items.map fun v => v.size + 1).sum := by
  induction items with
  | nil => rfl
  | cons v items ih =>
    show utf8Length (',' :: (v.text ++ textRest items)) = _
    rw [utf8Length_cons, utf8Length_append, ih, List.map_cons, List.sum_cons]
    show 1 + (v.size + _) = _
    omega

/-- **An encoded array**: its items, one separator each, and one more byte; the empty array is
the exception. -/
theorem toVec_array_length (v : Value) (items : List Value) :
    (toVec (.array (v :: items))).length = 1 + ((v :: items).map fun w => w.size + 1).sum := by
  rw [toVec_length]
  show utf8Length ('[' :: ((v.text ++ textRest items) ++ [']'])) = _
  rw [utf8Length_cons, utf8Length_append, utf8Length_append, utf8Length_textRest, List.map_cons,
    List.sum_cons]
  show 1 + (v.size + _ + 1) = _
  omega

theorem toVec_array_nil_length : (toVec (.array [])).length = 2 := rfl

theorem toVec_array_length_le (items : List Value) :
    (toVec (.array items)).length ≤ 2 + (items.map fun w => w.size + 1).sum := by
  cases items with
  | nil => rw [toVec_array_nil_length]; exact Nat.le_add_right _ _
  | cons v items => rw [toVec_array_length]; omega

/-! ## escaped strings -/

/-- the bytes a string takes between its quotes -/
def escapedLength (s : String) : Nat := utf8Length (s.toList.flatMap escapeChar)

theorem size_string (s : String) : (Value.string s).size = escapedLength s + 2 := by
  show utf8Length ('"' :: (s.toList.flatMap escapeChar ++ ['"'])) = _
  rw [utf8Length_cons, utf8Length_append]
  show 1 + (escapedLength s + 1) = _
  omega

theorem utf8Length_quote (s : String) : utf8Length (quote s) = escapedLength s + 2 := size_string s

/-- the bytes of one field and of the separator after it -/
def fieldSize (f : String × Value) : Nat := escapedLength f.1 + f.2.size + 4

theorem utf8Length_textFieldsRest (fields : List (String × Value)) :
    utf8Length (textFieldsRest fields) = (fields.map fieldSize).sum := by
  induction fields with
  | nil => rfl
  | cons f fields ih =>
    obtain ⟨k, v⟩ := f
    show utf8Length (',' :: (quote k ++ ':' :: (v.text ++ textFieldsRest fields))) = _
    rw [utf8Length_cons, utf8Length_append, utf8Length_cons, utf8Length_append, utf8Length_quote, ih,
      List.map_cons, List.sum_cons]
    show 1 + (escapedLength k + 2 + (1 + (v.size + _))) = escapedLength k + v.size + 4 + _
    omega

theorem size_object (f : String × Value) (fields : List (String × Value)) :
    (Value.object (f :: fields)).size = 1 + ((f :: fields).map fieldSize).sum := by
  obtain ⟨k, v⟩ := f
  show utf8Length ('\x7b' :: ((quote k ++ ':' :: (v.text ++ textFieldsRest fields)) ++ ['\x7d'])) = _
  rw [utf8Length_cons, utf8Length_append, utf8Length_append, utf8Length_cons, utf8Length_append,
    utf8Length_quote, utf8Length_textFieldsRest, List.map_cons, List.sum_cons]
  show 1 + (escapedLength k + 2 + (1 + (v.size + _)) + 1) = 1 + (escapedLength k + v.size + 4 + _)
  omega

/-- a string takes at most `n` bytes between its quotes -/
def Fits (s : String) (n : Nat) : Prop := escapedLength s ≤ n

instance (s : String) (n : Nat) : Decidable (Fits s n) := Nat.decLe _ _

attribute [grind =] escapedLength

theorem fits_ofList {cs : List Char} {n : Nat} (h : utf8Length (cs.flatMap escapeChar) ≤ n) :
    Fits (String.ofList cs) n := by
  rwa [Fits, escapedLength, String.toList_ofList]

theorem escapedLength_append (s t : String) :
    escapedLength (s ++ t) = escapedLength s + escapedLength t := by
  simp [escapedLength, List.flatMap_append, utf8Length_append]

theorem Fits.append {s t : String} {m n : Nat} (hs : Fits s m) (ht : Fits t n) :
    Fits (s ++ t) (m + n) := by
  exact Nat.le_trans (Nat.le_of_eq (escapedLength_append s t)) (Nat.add_le_add hs ht)

theorem utf8Size_hexDigit : ∀ n < 16, (hexDigit n).utf8Size = 1 := by decide

theorem utf8Length_escapeChar (c : Char) : utf8Length (escapeChar c) ≤ 6 := by
  have h1 : (hexDigit (c.toNat % 16)).utf8Size = 1 := utf8Size_hexDigit _ (by omega)
  unfold escapeChar
  iterate 7
    split
    · decide
  split
  · have h2 : (hexDigit (c.toNat / 16)).utf8Size = 1 := utf8Size_hexDigit _ (by omega)
    simp only [utf8Length_cons, utf8Length_nil, h1, h2]
    decide
  · have := Char.utf8Size_le_four c
    simp only [utf8Length_cons, utf8Length_nil]
    omega

theorem fits_of_length (s : String) : Fits s (6 * s.length) := by
  have h : ∀ cs : List Char, utf8Length (cs.flatMap escapeChar) ≤ 6 * cs.length := by
    intro cs
    induction cs with
    | nil => exact Nat.le_refl _
    | cons c cs ih =>
      have := utf8Length_escapeChar c
      rw [List.flatMap_cons, utf8Length_append, List.length_cons]
      omega
  simpa [Fits, escapedLength, String.length_toList] using h s.toList

end Json
