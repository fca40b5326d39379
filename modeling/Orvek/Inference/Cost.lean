import Orvek.Lib.Decimals
import Orvek.Text

/-!
# Costs in USD

A cost is a number of units of 10⁻¹⁸ USD in 128 bits.

* `UsdCost.fromStr`         reading a decimal text;
* `UsdCost.decimalString`   writing it;
* `fromStr_exact`           which texts are read, as what, and that what was written is read back.
-/

set_option linter.unusedSectionVars false

namespace Orvek
open Decimals

def u128Max : Nat := 2 ^ 128 - 1

/-- an exact amount of at least 0, in units of 10⁻¹⁸ USD -/
structure UsdCost where
  atto : Nat
  bound : atto ≤ u128Max
  deriving DecidableEq

namespace UsdCost

def attoUsdPerUsd : Nat := 10 ^ 18

/-! ## reading -/

/-- `str::trim` -/
def trim (s : List Char) : List Char := (s.dropWhile isWhitespace).rdropWhile isWhitespace

/-- `str::parse::<i32>` -/
def parseI32 (s : List Char) : Option Int :=
  (readInt s).filter fun n => decide (-2 ^ 31 ≤ n ∧ n < 2 ^ 31)

/-- `str::parse::<u128>` of digits -/
def parseU128 (s : List Char) : Option Nat := (readNat s).filter fun n => decide (n ≤ u128Max)

/-- `10_u128.checked_pow(u32::try_from(power))` -/
def checkedPow10 (power : Nat) : Option Nat :=
  if power < 2 ^ 32 then (if 10 ^ power ≤ u128Max then some (10 ^ power) else none) else none

def ofNat (n : Nat) : Option UsdCost := if h : n ≤ u128Max then some ⟨n, h⟩ else none

/-- the coefficient times a power of ten, when that is an integer -/
def scale (coefficient : Nat) (power : Int) : Option UsdCost :=
  if 0 ≤ power then (checkedPow10 power.toNat).bind fun factor => ofNat (coefficient * factor)
  else (checkedPow10 (-power).toNat).bind fun divisor =>
    if coefficient % divisor = 0 then ofNat (coefficient / divisor) else none

def splitExponent (value : List Char) : List Char × Int :=
  match splitOnce isMark value with
  | none => (value, 0)
  | some (mantissa, exponent) =>
    match parseI32 exponent with
    | some exponent => (mantissa, exponent)
    | none => ([], 0)

def stripPlus : List Char → List Char
  | '+' :: rest => rest
  | l => l

def fromStr (value : List Char) : Option UsdCost :=
  let (mantissa, exponent) := splitExponent (trim value)
  if mantissa = [] ∨ mantissa.head? = some '-' then none
  else
    let (integer, fraction) :=
      (splitOnce (· == '.') (stripPlus mantissa)).getD (stripPlus mantissa, [])
    if integer = [] ∧ fraction = [] ∨ ¬ Numeric integer ∨ ¬ Numeric fraction then none
    else (parseU128 (integer ++ fraction)).bind fun coefficient =>
      scale coefficient (18 + exponent - fraction.length)

/-! ## writing -/

/-- `format!("{remainder:018}")` -/
def padded (remainder : Nat) : List Char :=
  List.replicate (18 - (Nat.toDigits 10 remainder).length) '0' ++ Nat.toDigits 10 remainder

def decimalString (c : UsdCost) : List Char :=
  let dollars := c.atto / attoUsdPerUsd
  let remainder := c.atto % attoUsdPerUsd
  if remainder = 0 then Nat.toDigits 10 dollars
  else Nat.toDigits 10 dollars ++ '.' :: (padded remainder).rdropWhile (· == '0')

/-! ## powers of ten -/

theorem pow10_fits (k : Nat) : 10 ^ k ≤ u128Max ↔ k ≤ 38 := by
  constructor
  · intro h
    by_contra hk
    have hbig : 10 ^ 39 ≤ 10 ^ k := Nat.pow_le_pow_right (by decide) (by omega)
    have hmax : u128Max < 10 ^ 39 := by decide
    omega
  · intro h
    have hsmall : 10 ^ k ≤ 10 ^ 38 := Nat.pow_le_pow_right (by decide) h
    have hmax : 10 ^ 38 ≤ u128Max := by decide
    omega

theorem checkedPow10_some {k n : Nat} : checkedPow10 k = some n ↔ k ≤ 38 ∧ 10 ^ k = n := by
  unfold checkedPow10
  constructor
  · intro h
    split at h
    · split at h
      · rename_i hfits
        exact ⟨(pow10_fits k).mp hfits, Option.some.inj h⟩
      · cases h
    · cases h
  · rintro ⟨hk, rfl⟩
    rw [if_pos (by omega), if_pos ((pow10_fits k).mpr hk)]

variable {c : UsdCost}

theorem ofNat_some {n : Nat} : ofNat n = some c ↔ c.atto = n := by
  unfold ofNat
  constructor
  · intro h
    split at h
    · cases h
      rfl
    · cases h
  · rintro rfl
    rw [dif_pos c.bound]

/-- **The scaling is exact**, and it fails for exponents that only zero survives. -/
theorem scale_some {n : Nat} {p : Int} :
    scale n p = some c ↔ p.natAbs ≤ 38 ∧ (c.atto : ℚ) = n * 10 ^ p := by
  unfold scale
  split
  · rename_i hp
    obtain ⟨k, rfl⟩ := Int.eq_ofNat_of_zero_le hp
    rw [Option.bind_eq_some_iff]
    have hvalue : ((n * 10 ^ k : Nat) : ℚ) = n * 10 ^ (k : Int) := by
      rw [Nat.cast_mul, Nat.cast_pow, zpow_natCast]
      norm_num
    constructor
    · rintro ⟨factor, hpow, hof⟩
      obtain ⟨hk, rfl⟩ := checkedPow10_some.mp hpow
      rw [ofNat_some.mp hof]
      exact ⟨hk, hvalue⟩
    · rintro ⟨hk, hc⟩
      refine ⟨10 ^ k, checkedPow10_some.mpr ⟨hk, rfl⟩, ofNat_some.mpr ?_⟩
      rw [← hvalue] at hc
      exact_mod_cast hc
  · rename_i hp
    obtain ⟨k, rfl⟩ : ∃ k : Nat, p = -(k : Int) := ⟨(-p).toNat, by omega⟩
    rw [Option.bind_eq_some_iff, neg_neg, Int.toNat_natCast]
    have hten : (10 : ℚ) ^ k ≠ 0 := pow_ne_zero k (by norm_num)
    have hvalue : (c.atto : ℚ) = n * 10 ^ (-(k : Int)) ↔ c.atto * 10 ^ k = n := by
      rw [zpow_neg, zpow_natCast, ← div_eq_mul_inv, eq_div_iff hten]
      constructor
      · intro h
        exact_mod_cast h
      · intro h
        exact_mod_cast h
    rw [hvalue]
    constructor
    · rintro ⟨divisor, hpow, hrest⟩
      obtain ⟨hk, rfl⟩ := checkedPow10_some.mp hpow
      split at hrest
      · rename_i hdvd
        rw [ofNat_some.mp hrest]
        exact ⟨by omega, Nat.div_mul_cancel (Nat.dvd_of_mod_eq_zero hdvd)⟩
      · cases hrest
    · rintro ⟨hk, rfl⟩
      refine ⟨10 ^ k, checkedPow10_some.mpr ⟨by omega, rfl⟩, ?_⟩
      rw [if_pos (Nat.mul_mod_left _ _), ofNat_some]
      exact (Nat.mul_div_cancel _ (Nat.pow_pos (by decide))).symm

/-! ## which texts are read -/

/-- the literals that are read: no minus sign, an exponent in 32 bits, digits that fit in 128 bits
without their point, and a power of ten that fits as well -/
structure Taken (l : Literal) : Prop where
  sign : l.sign ≠ .minus
  exponent : -2 ^ 31 ≤ l.written ∧ l.written < 2 ^ 31
  coefficient : l.coefficient ≤ u128Max
  power : (18 + l.power).natAbs ≤ 38

theorem Taken.value {l : Literal} (h : Taken l) : l.value = l.coefficient * 10 ^ l.power := by
  have hfactor : l.sign.factor = 1 := by
    cases hs : l.sign with
    | minus => exact absurd hs h.sign
    | none => rfl
    | plus => rfl
  rw [Literal.value, hfactor, Int.cast_one, one_mul]

theorem Taken.scale_some {l : Literal} (h : Taken l) :
    scale l.coefficient (18 + l.power) = some c ↔ (c.atto : ℚ) = l.value * 10 ^ 18 := by
  have hsplit : (10 : ℚ) ^ (18 + l.power) = 10 ^ l.power * 10 ^ 18 := by
    rw [zpow_add₀ (by norm_num), mul_comm]
    norm_num
  rw [UsdCost.scale_some, h.value, hsplit, mul_assoc]
  exact ⟨fun hc => hc.2, fun hc => ⟨h.power, hc⟩⟩

section
variable (l : Literal)

theorem splitExponent_text (h : -2 ^ 31 ≤ l.written ∧ l.written < 2 ^ 31) :
    splitExponent l.text = (l.sign.text ++ l.mantissa, l.written) := by
  unfold splitExponent Literal.text
  cases he : l.exponent with
  | none =>
    rw [show ((none : Option Exponent).map Exponent.text).getD [] = [] from rfl, List.append_nil,
      splitOnce_none (l.isMark_mantissa), Literal.written, he]
    rfl
  | some e =>
    rw [show ((some e).map Exponent.text).getD [] = e.mark :: (e.sign.text ++ e.digits) from rfl,
      splitOnce_append (l.isMark_mantissa) e.marked]
    have hw : l.written = e.sign.factor * number e.digits := by
      rw [Literal.written, he]
      rfl
    have hread : parseI32 (e.sign.text ++ e.digits) = some l.written := by
      rw [parseI32, readInt_text e.sign e.nonempty e.numeric, ← hw]
      exact Option.filter_some_pos (decide_eq_true h)
    simp only [hread]

theorem stripPlus_mantissa (h : l.sign ≠ .minus) :
    stripPlus (l.sign.text ++ l.mantissa) = l.mantissa := by
  cases hs : l.sign with
  | minus => exact absurd hs h
  | plus => rfl
  | none =>
    show stripPlus l.mantissa = _
    unfold stripPlus
    split
    · rename_i rest hm
      exact absurd rfl (l.mantissa_ne (x := '+') rfl (by decide) '+'
        (by rw [hm]; exact List.mem_cons_self))
    · rfl

theorem splitPoint_mantissa :
    (splitOnce (· == '.') l.mantissa).getD (l.mantissa, []) = (l.whole, l.fraction.getD []) := by
  obtain ⟨hwhole, -⟩ := numeric_append.mp l.numeric
  have hdot : ∀ c ∈ l.whole, (c == '.') = false := fun c hc =>
    beq_false_of_ne (hwhole.ne (x := '.') rfl c hc)
  unfold Literal.mantissa
  cases l.fraction with
  | none =>
    rw [show ((none : Option (List Char)).map ('.' :: ·)).getD [] = [] from rfl, List.append_nil,
      splitOnce_none hdot]
    rfl
  | some f =>
    rw [show ((some f).map ('.' :: ·)).getD [] = '.' :: f from rfl, splitOnce_append hdot rfl]
    rfl

/-- a literal is read as its digits and its power of ten -/
theorem fromStr_text {s : List Char} (hs : trim s = l.text) (h : Taken l) :
    fromStr s = scale l.coefficient (18 + l.power) := by
  obtain ⟨hwhole, hfraction⟩ := numeric_append.mp l.numeric
  unfold fromStr
  rw [hs, splitExponent_text l h.exponent]
  have hguard : ¬ (l.sign.text ++ l.mantissa = [] ∨
    (l.sign.text ++ l.mantissa).head? = some '-') := by
    rintro (hnil | hhead)
    · exact l.mantissa_nonempty (List.append_eq_nil_iff.mp hnil).2
    · exact l.mantissa_head h.sign hhead
  have hdigits : ¬ (l.whole = [] ∧ l.fraction.getD [] = [] ∨ ¬ Numeric l.whole ∨
      ¬ Numeric (l.fraction.getD [])) := by
    rintro (⟨hw, hf⟩ | hw | hf)
    · exact l.nonempty (by rw [hw, hf]; rfl)
    · exact hw hwhole
    · exact hf hfraction
  have hparse : parseU128 (l.whole ++ l.fraction.getD []) = some l.coefficient := by
    rw [parseU128, readNat_some.mpr ⟨⟨l.nonempty, l.numeric⟩, rfl⟩]
    exact Option.filter_some_pos (decide_eq_true h.coefficient)
  simp only [if_neg hguard, stripPlus_mantissa l h.sign, splitPoint_mantissa, if_neg hdigits,
    hparse,
    Option.bind_some]
  rw [Literal.power, ← add_sub_assoc]

end

theorem splitExponent_parts {v : List Char} (h : (splitExponent v).1 ≠ []) :
    ∃ x : Option Exponent, v = (splitExponent v).1 ++ (x.map Exponent.text).getD [] ∧
      (splitExponent v).2 = (x.map Exponent.value).getD 0 ∧
      -2 ^ 31 ≤ (splitExponent v).2 ∧ (splitExponent v).2 < 2 ^ 31 := by
  cases hs : splitOnce isMark v with
  | none =>
    have hv : splitExponent v = (v, 0) := by
      rw [splitExponent, hs]
    rw [hv]
    exact ⟨none, (List.append_nil v).symm, rfl, show -2 ^ 31 ≤ (0 : Int) by decide,
      show (0 : Int) < 2 ^ 31 by decide⟩
  | some r =>
    obtain ⟨mark, hv, hmark⟩ := splitOnce_some hs
    cases he : parseI32 r.2 with
    | none =>
      have hv' : splitExponent v = ([], 0) := by
        simp only [splitExponent, hs, he]
      rw [hv'] at h
      exact absurd rfl h
    | some n =>
      have hv' : splitExponent v = (r.1, n) := by
        simp only [splitExponent, hs, he]
      obtain ⟨hread, hbound⟩ := Option.filter_eq_some_iff.mp he
      obtain ⟨sign, digits, htext, hne, hnumeric, hn⟩ := readInt_some hread
      rw [hv']
      refine ⟨some ⟨mark, sign, digits, hmark, hnumeric, hne⟩, ?_, hn, of_decide_eq_true hbound⟩
      show v = r.1 ++ mark :: (sign.text ++ digits)
      rw [← htext]
      exact hv

theorem stripPlus_parts {m : List Char} (h : m.head? ≠ some '-') :
    ∃ sign : Sign, sign ≠ .minus ∧ m = sign.text ++ stripPlus m := by
  unfold stripPlus
  split
  · exact ⟨.plus, by decide, rfl⟩
  · exact ⟨.none, by decide, rfl⟩

theorem splitPoint_parts (m : List Char) :
    ∃ fraction : Option (List Char), ((splitOnce (· == '.') m).getD (m, [])).2 = fraction.getD [] ∧
      m = ((splitOnce (· == '.') m).getD (m, [])).1 ++ (fraction.map ('.' :: ·)).getD [] := by
  cases hs : splitOnce (· == '.') m with
  | none => exact ⟨none, rfl, (List.append_nil m).symm⟩
  | some r =>
    obtain ⟨point, hm, hpoint⟩ := splitOnce_some hs
    rw [beq_iff_eq.mp hpoint] at hm
    exact ⟨some r.2, rfl, hm⟩

theorem fromStr_literal {s : List Char} (h : fromStr s = some c) :
    ∃ l : Literal, trim s = l.text ∧ Taken l ∧ scale l.coefficient (18 + l.power) = some c := by
  unfold fromStr at h
  simp only at h
  split at h
  · cases h
  rename_i hguard
  obtain ⟨hne, hhead⟩ := not_or.mp hguard
  split at h
  · cases h
  rename_i hdigits
  obtain ⟨hsome, hnumeric⟩ := not_or.mp hdigits
  obtain ⟨hwhole, hfraction⟩ := not_or.mp hnumeric
  obtain ⟨x, htext, hvalue, hbound⟩ := splitExponent_parts hne
  obtain ⟨sign, hsign, hm⟩ := stripPlus_parts hhead
  obtain ⟨fraction, hpart, hsplit⟩ := splitPoint_parts (stripPlus (splitExponent (trim s)).1)
  obtain ⟨n, hn, hscale⟩ := Option.bind_eq_some_iff.mp h
  obtain ⟨hn, hfits⟩ := Option.filter_eq_some_iff.mp hn
  obtain ⟨⟨hnonempty, hall⟩, hnumber⟩ := readNat_some.mp hn
  rw [hpart] at hnonempty hall hnumber hscale
  rw [hvalue] at hbound hscale
  have hscale' : scale n (18 + ((x.map Exponent.value).getD 0 - (fraction.getD []).length)) = some
    c := by
    rw [← add_sub_assoc]
    exact hscale
  refine ⟨⟨sign, _, fraction, x, hall, hnonempty⟩, ?_, ⟨hsign, hbound, ?_, ?_⟩, ?_⟩
  · show trim s = sign.text ++ (_ ++ (fraction.map ('.' :: ·)).getD []) ++ _
    rw [← hsplit, ← hm]
    exact htext
  · show number _ ≤ _
    rw [Literal.digits, hnumber]
    exact of_decide_eq_true hfits
  · exact (UsdCost.scale_some.mp hscale').1
  · show scale (number _) _ = _
    rw [Literal.digits, hnumber]
    exact hscale'

theorem fromStr_some {s : List Char} :
    fromStr s = some c ↔
      ∃ l : Literal, trim s = l.text ∧ Taken l ∧ (c.atto : ℚ) = l.value * 10 ^ 18 := by
  constructor
  · intro h
    obtain ⟨l, hs, htaken, hscale⟩ := fromStr_literal h
    exact ⟨l, hs, htaken, htaken.scale_some.mp hscale⟩
  · rintro ⟨l, hs, htaken, hc⟩
    rw [fromStr_text l hs htaken]
    exact htaken.scale_some.mpr hc

/-! ## what was written is read back -/

theorem trim_self {s : List Char} (h : ∀ c ∈ s, isWhitespace c = false) : trim s = s := by
  have hdrop : s.dropWhile isWhitespace = s := by
    cases s with
    | nil => rfl
    | cons c s => rw [List.dropWhile_cons, h c List.mem_cons_self, if_neg Bool.false_ne_true]
  rw [trim, hdrop, List.rdropWhile_eq_self_iff]
  intro hne
  rw [h _ (List.getLast_mem hne)]
  exact Bool.false_ne_true

theorem not_whitespace_of_isDigit {c : Char} (h : c.isDigit = true) : isWhitespace c = false := by
  have hrange : 48 ≤ c.toNat ∧ c.toNat ≤ 57 := by
    simpa [Char.isDigit, UInt32.le_iff_toNat_le] using h
  unfold isWhitespace
  simp only [Bool.or_eq_false_iff, Bool.and_eq_false_iff, decide_eq_false_iff_not,
    beq_eq_false_iff_ne]
  omega

theorem number_padded {r : Nat} : number (padded r) = r := by
  rw [padded, number_append, number_zeros, Nat.zero_mul, Nat.zero_add, number_toDigits]

theorem numeric_padded (r : Nat) : Numeric (padded r) :=
  numeric_append.mpr ⟨numeric_zeros _, numeric_toDigits r⟩

theorem length_padded {r : Nat} (h : r < 10 ^ 18) : (padded r).length = 18 := by
  have hlen : (Nat.toDigits 10 r).length ≤ 18 :=
    (Nat.length_toDigits_le_iff (by decide) (by decide)).mpr h
  rw [padded, List.length_append, List.length_replicate]
  omega

theorem padded_trimmed (l : List Char) :
    ∃ k, l = l.rdropWhile (· == '0') ++ List.replicate k '0' := by
  refine ⟨(l.rtakeWhile (· == '0')).length, ?_⟩
  have hzeros : l.rtakeWhile (· == '0') = List.replicate (l.rtakeWhile (· == '0')).length '0' :=
    List.eq_replicate_iff.mpr ⟨rfl, fun c hc => by simpa using List.mem_rtakeWhile_imp hc⟩
  rw [← hzeros, List.rdropWhile, List.rtakeWhile, ← List.reverse_append,
    List.takeWhile_append_dropWhile,
    List.reverse_reverse]

theorem not_whitespace_of_mem_text (l : Literal) : ∀ c ∈ l.text, isWhitespace c = false := by
  have hsign : ∀ s : Sign, ∀ c ∈ s.text, isWhitespace c = false := by
    intro s
    cases s <;> simp [Sign.text, isWhitespace]
  intro c hc
  rcases List.mem_append.mp hc with hc | hc
  · rcases List.mem_append.mp hc with hc | hc
    · exact hsign l.sign c hc
    · rcases l.mem_mantissa hc with h | rfl
      · exact not_whitespace_of_isDigit h
      · rfl
  · cases he : l.exponent with
    | none => rw [he] at hc; cases hc
    | some e =>
      rw [he] at hc
      rcases List.mem_cons.mp hc with rfl | hc
      · rcases isMark_iff.mp e.marked with h | h <;> rw [h] <;> rfl
      · rcases List.mem_append.mp hc with hc | hc
        · exact hsign e.sign c hc
        · exact not_whitespace_of_isDigit (e.numeric c hc)

theorem decimalString_literal (c : UsdCost) :
    ∃ l : Literal, decimalString c = l.text ∧ Taken l ∧ (c.atto : ℚ) = l.value * 10 ^ 18 := by
  have hparts : c.atto = 10 ^ 18 * (c.atto / attoUsdPerUsd) + c.atto % attoUsdPerUsd :=
    (Nat.div_add_mod c.atto attoUsdPerUsd).symm
  have hbound := c.bound
  unfold decimalString
  generalize c.atto / attoUsdPerUsd = dollars at hparts ⊢
  have hlt : c.atto % attoUsdPerUsd < 10 ^ 18 := Nat.mod_lt _ (by decide)
  generalize c.atto % attoUsdPerUsd = remainder at hparts hlt ⊢
  have hdollars := number_toDigits dollars
  simp only
  split
  · rename_i hzero
    rw [hzero, Nat.add_zero] at hparts
    let l : Literal := ⟨.none, Nat.toDigits 10 dollars, none, none,
      numeric_append.mpr ⟨numeric_toDigits dollars, nofun⟩, by
        rw [Option.getD_none, List.append_nil]
        exact Nat.toDigits_ne_nil⟩
    have hcoefficient : l.coefficient = dollars := by
      show number (Nat.toDigits 10 dollars ++ []) = dollars
      rw [List.append_nil, hdollars]
    have hwritten : -2 ^ 31 ≤ (0 : Int) ∧ (0 : Int) < 2 ^ 31 := by decide
    have hpower : (18 + (0 : Int)).natAbs ≤ 38 := by decide
    have htaken : Taken l := ⟨nofun, hwritten, by rw [hcoefficient]; omega, hpower⟩
    refine ⟨l, ?_, htaken, ?_⟩
    · show _ = [] ++ (Nat.toDigits 10 dollars ++ []) ++ []
      rw [List.append_nil, List.append_nil, List.nil_append]
    · rw [htaken.value, hcoefficient, hparts]
      show _ = (dollars : ℚ) * 10 ^ (0 : Int) * 10 ^ 18
      rw [zpow_zero, mul_one]
      push_cast
      ring
  · rename_i hzero
    obtain ⟨k, hpadded⟩ := padded_trimmed (padded remainder)
    have hlen := length_padded hlt
    have hnumber : number (padded remainder) = remainder := number_padded
    have hnumeric := numeric_padded remainder
    generalize (padded remainder).rdropWhile (· == '0') = fraction at hpadded ⊢
    rw [hpadded] at hlen hnumber hnumeric
    rw [List.length_append, List.length_replicate] at hlen
    rw [number_append, number_zeros, List.length_replicate, Nat.add_zero] at hnumber
    let l : Literal := ⟨.none, Nat.toDigits 10 dollars, some fraction, none,
      numeric_append.mpr ⟨numeric_toDigits dollars, (numeric_append.mp hnumeric).1⟩, fun h =>
        Nat.toDigits_ne_nil (List.append_eq_nil_iff.mp h).1⟩
    have hcoefficient : l.coefficient * 10 ^ k = c.atto := by
      show number (Nat.toDigits 10 dollars ++ fraction) * 10 ^ k = c.atto
      rw [number_append, hdollars, Nat.add_mul, hnumber, Nat.mul_assoc, ← Nat.pow_add, hlen, hparts,
        Nat.mul_comm]
    have hle : l.coefficient ≤ c.atto := by
      rw [← hcoefficient]
      exact Nat.le_mul_of_pos_right _ (Nat.pow_pos (by decide))
    have hpower : l.power = -(fraction.length : Int) := Int.zero_sub _
    have hwritten : -2 ^ 31 ≤ (0 : Int) ∧ (0 : Int) < 2 ^ 31 := by decide
    have htaken : Taken l := ⟨nofun, hwritten, by omega, by rw [hpower]; omega⟩
    refine ⟨l, ?_, htaken, ?_⟩
    · show _ = [] ++ (Nat.toDigits 10 dollars ++ '.' :: fraction) ++ []
      rw [List.append_nil, List.nil_append]
    · have hten : (10 : ℚ) ^ fraction.length ≠ 0 := pow_ne_zero _ (by norm_num)
      have hshift : (10 : ℚ) ^ (-(fraction.length : Int)) * 10 ^ 18 = 10 ^ k := by
        rw [← hlen, pow_add, zpow_neg, zpow_natCast]
        field_simp
      rw [htaken.value, hpower, mul_assoc, hshift, ← hcoefficient]
      push_cast
      ring

/-- **Costs are exact.**  A text is read as a cost if and only if, trimmed, it is a literal that is
taken and the cost is its value; when it is a literal, it is read if and only if that one is; and a
written cost is read back. -/
theorem fromStr_exact (s : List Char) (c : UsdCost) :
    (fromStr s = some c ↔
      ∃ l : Literal, trim s = l.text ∧ Taken l ∧ (c.atto : ℚ) = l.value * 10 ^ 18) ∧
    (∀ l : Literal, trim s = l.text → (fromStr s = some c ↔ Taken l ∧
    (c.atto : ℚ) = l.value * 10 ^ 18)) ∧
    fromStr (decimalString c) = some c := by
  refine ⟨fromStr_some, fun l hl => ⟨fun h => ?_, fun h => fromStr_some.mpr ⟨l, hl, h⟩⟩, ?_⟩
  · obtain ⟨l', hl', htaken, hc⟩ := fromStr_some.mp h
    rw [Literal.text_injective (hl.symm.trans hl')]
    exact ⟨htaken, hc⟩
  · obtain ⟨l, hl, htaken, hc⟩ := decimalString_literal c
    refine fromStr_some.mpr ⟨l, ?_, htaken, hc⟩
    rw [hl]
    exact trim_self (not_whitespace_of_mem_text l)

/-! ## the limits of the reader -/

/-- `0e21` -/
def farZero : Literal :=
  ⟨.none, ['0'], none, some ⟨'e', .none, ['2', '1'], rfl, by decide, by decide⟩, by decide, by
    decide⟩

/-- one with forty zeros after its point -/
def longOne : Literal :=
  ⟨.none, ['1'], some (List.replicate 40 '0'), none, by decide, by decide⟩

/-- a plus sign is read although JSON has none, and zero and one are not read when they are written
too long -/
theorem fromStr_limits : fromStr ['+', '1'] = some ⟨10 ^ 18, by decide⟩ ∧
    (¬ ∃ l : Literal, l.Json ∧ l.text = ['+', '1']) ∧
    (farZero.Json ∧ farZero.value * 10 ^ 18 = (0 : Nat) ∧ fromStr farZero.text = none) ∧
    (longOne.Json ∧ longOne.value * 10 ^ 18 = (10 ^ 18 : Nat) ∧ fromStr longOne.text = none) := by
  refine ⟨by decide +kernel, ?_, ⟨⟨by decide, by decide, by decide, by decide⟩,
    ?_, by decide +kernel⟩,
    ⟨⟨by decide, by decide, by decide, by decide⟩, ?_, by decide +kernel⟩⟩
  · rintro ⟨l, hjson, htext⟩
    let one : Literal := ⟨.plus, ['1'], none, none, by decide, by decide⟩
    exact hjson.1 (congrArg Literal.sign (Literal.text_injective
      (htext.trans (rfl : _ = one.text))))
  · show (1 : ℚ) * (0 : Nat) * _ * _ = _
    rw [Nat.cast_zero, mul_zero, zero_mul, zero_mul]
  · have hcoefficient : longOne.coefficient = 10 ^ 40 := by decide +kernel
    show (1 : ℚ) * longOne.coefficient * 10 ^ (-40 : Int) * 10 ^ 18 = _
    rw [hcoefficient, zpow_neg]
    norm_num

end UsdCost

end Orvek
