import Mathlib.Algebra.Field.Rat
import Mathlib.Data.List.DropRight
import Mathlib.Tactic.FieldSimp
import Mathlib.Tactic.Ring

/-!
# Decimal numbers as texts

A decimal literal is a sign, digits around a point, and an exponent.

* `splitOnce`              a text before and after the first character of a kind;
* `readInt`                digits with a sign, as an integer;
* `Literal`                a literal by its parts, `Literal.text` and `Literal.value`;
* `Literal.Json`           the literals that the grammar of JSON has;
* `Literal.text_injective`   a text is that of one literal.
-/

namespace Decimals

/-! ## splitting -/

section
variable {α : Type} {p : α → Bool} {a b l : List α} {x : α}

/-- what is before and after the first element with `p` -/
def splitOnce (p : α → Bool) : List α → Option (List α × List α)
  | [] => none
  | x :: rest => if p x then some ([], rest) else (splitOnce p rest).map fun r => (x :: r.1, r.2)

attribute [grind =] splitOnce

theorem splitOnce_none (h : ∀ y ∈ l, p y = false) : splitOnce p l = none := by
  induction l with
  | nil => rfl
  | cons y l ih =>
    rw [splitOnce, h y List.mem_cons_self, if_neg Bool.false_ne_true,
      ih fun z hz => h z (List.mem_cons_of_mem y hz)]
    rfl

theorem splitOnce_append (h : ∀ y ∈ a, p y = false) (hx : p x = true) :
    splitOnce p (a ++ x :: b) = some (a, b) := by
  induction a with
  | nil =>
    show splitOnce p (x :: b) = _
    rw [splitOnce, if_pos hx]
  | cons y a ih =>
    show splitOnce p (y :: (a ++ x :: b)) = _
    rw [splitOnce, h y List.mem_cons_self, if_neg Bool.false_ne_true,
      ih fun z hz => h z (List.mem_cons_of_mem y hz)]
    rfl

theorem splitOnce_some (h : splitOnce p l = some (a, b)) : ∃ x, l = a ++ x :: b ∧ p x = true := by
  induction l generalizing a with
  | nil => cases h
  | cons y l ih =>
    rw [splitOnce] at h
    split at h
    · rename_i hy
      cases h
      exact ⟨y, rfl, hy⟩
    · cases hr : splitOnce p l with
      | none => rw [hr] at h; cases h
      | some r =>
        rw [hr] at h
        cases h
        obtain ⟨x, hl, hx⟩ := ih hr
        exact ⟨x, congrArg (y :: ·) hl, hx⟩

end

/-! ## digits and signs -/

def Numeric (l : List Char) : Prop := ∀ c ∈ l, c.isDigit = true

instance (l : List Char) : Decidable (Numeric l) :=
  @List.decidableBAll Char (fun c => c.isDigit = true) (fun _ => inferInstance) l

def number (l : List Char) : Nat := Nat.ofDigitChars 10 l 0

theorem number_append (a b : List Char) : number
    (a ++ b) = number a * 10 ^ b.length + number b := by
  unfold number
  rw [Nat.ofDigitChars_append, Nat.ofDigitChars_eq_ofDigitChars_zero, Nat.mul_comm]

theorem numeric_append {a b : List Char} : Numeric (a ++ b) ↔ Numeric a ∧ Numeric b :=
  List.forall_mem_append

theorem numeric_toDigits (n : Nat) : Numeric (Nat.toDigits 10 n) :=
  fun _ hc => Nat.isDigit_of_mem_toDigits (by decide) (by decide) hc

theorem number_toDigits (n : Nat) : number (Nat.toDigits 10 n) = n := Nat.ofDigitChars_ten_toDigits

theorem numeric_zeros (n : Nat) : Numeric (List.replicate n '0') := by
  intro c hc
  rw [List.eq_of_mem_replicate hc]
  rfl

theorem number_zeros (n : Nat) : number (List.replicate n '0') = 0 := by
  unfold number
  rw [Nat.ofDigitChars_replicate_zero, Nat.mul_zero]

theorem Numeric.ne {l : List Char} (h : Numeric l) {x : Char} (hx : x.isDigit = false) :
    ∀ c ∈ l, c ≠ x := by
  rintro c hc rfl
  rw [h c hc] at hx
  cases hx

inductive Sign where
  | none | plus | minus
  deriving DecidableEq

def Sign.text : Sign → List Char
  | .none => []
  | .plus => ['+']
  | .minus => ['-']

def Sign.factor : Sign → Int
  | .minus => -1
  | _ => 1

/-- digits, at least one -/
def readNat (l : List Char) : Option Nat := if l ≠ [] ∧ Numeric l then some (number l) else none

def readSigned (s : Sign) (l : List Char) : Option Int :=
    (readNat l).map fun n : Nat => s.factor * n

/-- digits with a sign in front or without one -/
def readInt : List Char → Option Int
  | '+' :: rest => readSigned .plus rest
  | '-' :: rest => readSigned .minus rest
  | l => readSigned .none l

theorem readNat_some {l : List Char} {n : Nat} :
    readNat l = some n ↔ (l ≠ [] ∧ Numeric l) ∧ number l = n := by
  unfold readNat
  split
  · rename_i h
    exact ⟨fun he => ⟨h, Option.some.inj he⟩, fun he => congrArg some he.2⟩
  · rename_i h
    exact ⟨fun he => (nomatch he), fun he => absurd he.1 h⟩

theorem readSigned_some {s : Sign} {l : List Char} {n : Int} :
    readSigned s l = some n ↔ (l ≠ [] ∧ Numeric l) ∧ s.factor * number l = n := by
  unfold readSigned
  rw [Option.map_eq_some_iff]
  constructor
  · rintro ⟨m, hm, rfl⟩
    obtain ⟨hl, rfl⟩ := readNat_some.mp hm
    exact ⟨hl, rfl⟩
  · rintro ⟨hl, rfl⟩
    exact ⟨number l, readNat_some.mpr ⟨hl, rfl⟩, rfl⟩

theorem readInt_text (s : Sign) {l : List Char} (hne : l ≠ []) (hl : Numeric l) :
    readInt (s.text ++ l) = some (s.factor * number l) := by
  have hread : ∀ s, readSigned s l = some (s.factor * number l) :=
    fun s => readSigned_some.mpr ⟨⟨hne, hl⟩, rfl⟩
  cases s with
  | plus => exact hread .plus
  | minus => exact hread .minus
  | none =>
    show readInt l = _
    unfold readInt
    split
    · exact absurd rfl (hl.ne rfl _ List.mem_cons_self)
    · exact absurd rfl (hl.ne rfl _ List.mem_cons_self)
    · exact hread .none

theorem readInt_some {l : List Char} {n : Int} (h : readInt l = some n) :
    ∃ (s : Sign) (ds : List Char), l = s.text ++ ds ∧ ds ≠ [] ∧ Numeric ds ∧
      n = s.factor * number ds := by
  unfold readInt at h
  split at h
  · obtain ⟨⟨hne, hds⟩, hn⟩ := readSigned_some.mp h
    exact ⟨.plus, _, rfl, hne, hds, hn.symm⟩
  · obtain ⟨⟨hne, hds⟩, hn⟩ := readSigned_some.mp h
    exact ⟨.minus, _, rfl, hne, hds, hn.symm⟩
  · obtain ⟨⟨hne, hds⟩, hn⟩ := readSigned_some.mp h
    exact ⟨.none, _, rfl, hne, hds, hn.symm⟩

/-! ## literals -/

def isMark (c : Char) : Bool := c == 'e' || c == 'E'

theorem isMark_iff {c : Char} : isMark c = true ↔ c = 'e' ∨ c = 'E' := by
  rw [isMark, Bool.or_eq_true, beq_iff_eq, beq_iff_eq]

@[ext]
structure Exponent where
  mark : Char
  sign : Sign
  digits : List Char
  marked : isMark mark = true
  numeric : Numeric digits
  nonempty : digits ≠ []

def Exponent.text (e : Exponent) : List Char := e.mark :: (e.sign.text ++ e.digits)

def Exponent.value (e : Exponent) : Int := e.sign.factor * number e.digits

/-- a literal has a digit before or after its point -/
@[ext]
structure Literal where
  sign : Sign
  whole : List Char
  fraction : Option (List Char)
  exponent : Option Exponent
  numeric : Numeric (whole ++ fraction.getD [])
  nonempty : whole ++ fraction.getD [] ≠ []

namespace Literal
variable (l : Literal)

/-- the digits, without the point -/
def digits : List Char := l.whole ++ l.fraction.getD []

def mantissa : List Char := l.whole ++ (l.fraction.map ('.' :: ·)).getD []

def text : List Char := l.sign.text ++ l.mantissa ++ (l.exponent.map Exponent.text).getD []

def coefficient : Nat := number l.digits

def written : Int := (l.exponent.map Exponent.value).getD 0

/-- the power of ten of the last digit -/
def power : Int := l.written - (l.fraction.getD []).length

def value : ℚ := l.sign.factor * l.coefficient * 10 ^ l.power

/-- the grammar of JSON: no plus sign, no needless zero in front, and digits on both sides of a
point -/
def Json : Prop :=
  l.sign ≠ .plus ∧ l.whole ≠ [] ∧ (l.whole.head? = some '0' → l.whole = ['0']) ∧
    l.fraction ≠ some []

/-! ## the parts of a text -/

attribute [grind =] mantissa

theorem mem_mantissa {x : Char} (hx : x ∈ l.mantissa) : x.isDigit = true ∨ x = '.' := by
  obtain ⟨hwhole, hfraction⟩ := numeric_append.mp l.numeric
  unfold Literal.mantissa at hx
  rcases List.mem_append.mp hx with hx | hx
  · exact .inl (hwhole x hx)
  · cases hf : l.fraction with
    | none => rw [hf] at hx; cases hx
    | some f =>
      rw [hf] at hx hfraction
      rcases List.mem_cons.mp hx with rfl | hx
      · exact .inr rfl
      · exact .inl (hfraction x hx)

theorem mantissa_ne {x : Char} (hx : x.isDigit = false) (hdot : x ≠ '.') :
    ∀ c ∈ l.mantissa, c ≠ x := by
  rintro c hc rfl
  rcases l.mem_mantissa hc with h | h
  · rw [hx] at h
    cases h
  · exact hdot h

theorem isMark_mantissa : ∀ c ∈ l.sign.text ++ l.mantissa, isMark c = false := by
  intro c hc
  rcases List.mem_append.mp hc with hc | hc
  · cases hs : l.sign with
    | none => rw [hs] at hc; cases hc
    | plus => rw [hs] at hc; cases List.mem_singleton.mp hc; rfl
    | minus => rw [hs] at hc; cases List.mem_singleton.mp hc; rfl
  · have hlower := l.mantissa_ne (x := 'e') rfl (by decide) c hc
    have hupper := l.mantissa_ne (x := 'E') rfl (by decide) c hc
    rw [isMark, beq_false_of_ne hlower, beq_false_of_ne hupper]
    rfl

theorem mantissa_nonempty : l.mantissa ≠ [] := by
  intro h
  unfold Literal.mantissa at h
  obtain ⟨hwhole, hrest⟩ := List.append_eq_nil_iff.mp h
  refine l.nonempty ?_
  rw [hwhole]
  cases hf : l.fraction with
  | none => rfl
  | some f => rw [hf] at hrest; cases hrest

theorem mantissa_head (h : l.sign ≠ .minus) : (l.sign.text ++ l.mantissa).head? ≠ some '-' := by
  cases hs : l.sign with
  | minus => exact absurd hs h
  | plus => exact fun he => absurd (Option.some.inj he) (by decide)
  | none => exact fun he => absurd rfl (l.mantissa_ne (x := '-') rfl (by decide) _
      (List.mem_of_mem_head? he))

theorem sign_text_injective {s s' : Sign} {a b : List Char} (ha : ∀ c ∈ a, c ≠ '+' ∧ c ≠ '-')
    (hb : ∀ c ∈ b, c ≠ '+' ∧ c ≠ '-') (h : s.text ++ a = s'.text ++ b) : s = s' ∧ a = b := by
  cases s <;> cases s'
  · exact ⟨rfl, h⟩
  · exact absurd rfl (ha '+' (by rw [show a = '+' :: b from h]; exact List.mem_cons_self)).1
  · exact absurd rfl (ha '-' (by rw [show a = '-' :: b from h]; exact List.mem_cons_self)).2
  · exact absurd rfl (hb '+' (by rw [← show '+' :: a = b from h]; exact List.mem_cons_self)).1
  · exact ⟨rfl, (List.cons.inj h).2⟩
  · exact absurd (List.cons.inj h).1 (by decide)
  · exact absurd rfl (hb '-' (by rw [← show '-' :: a = b from h]; exact List.mem_cons_self)).2
  · exact absurd (List.cons.inj h).1 (by decide)
  · exact ⟨rfl, (List.cons.inj h).2⟩

theorem exponent_text_injective {x y : Option Exponent}
    (h : (x.map Exponent.text).getD [] = (y.map Exponent.text).getD []) : x = y := by
  have hno : ∀ e : Exponent, ∀ c ∈ e.digits, c ≠ '+' ∧ c ≠ '-' := fun e c hc =>
    ⟨e.numeric.ne rfl c hc, e.numeric.ne rfl c hc⟩
  cases x <;> cases y
  · rfl
  · cases h
  · cases h
  · rename_i e e'
    obtain ⟨hmark, hrest⟩ := List.cons.inj h
    obtain ⟨hsign, hdigits⟩ := sign_text_injective (hno e) (hno e') hrest
    exact congrArg some (Exponent.ext hmark hsign hdigits)

theorem splitExponent_injective {a b : List Char} {x y : Option Exponent}
    (ha : ∀ c ∈ a, isMark c = false) (hb : ∀ c ∈ b, isMark c = false)
    (h : a ++ (x.map Exponent.text).getD [] = b ++ (y.map Exponent.text).getD []) :
    a = b ∧ x = y := by
  cases x <;> cases y
  · refine ⟨?_, rfl⟩
    rwa [Option.map_none, Option.getD_none, List.append_nil, List.append_nil] at h
  · rename_i e
    have hnone := splitOnce_none ha
    rw [← List.append_nil a, show a ++ [] = b ++ e.mark :: _ from h, splitOnce_append hb e.marked]
      at hnone
    cases hnone
  · rename_i e
    have hnone := splitOnce_none hb
    rw [← List.append_nil b, ← show a ++ e.mark :: _ = b ++ [] from h,
      splitOnce_append ha e.marked] at hnone
    cases hnone
  · rename_i e e'
    have hfirst := splitOnce_append (b := e.sign.text ++ e.digits) ha e.marked
    rw [show a ++ e.mark :: _ = b ++ e'.mark :: _ from h, splitOnce_append hb e'.marked] at hfirst
    have hab : a = b := (congrArg Prod.fst (Option.some.inj hfirst)).symm
    rw [hab] at h
    exact ⟨hab, exponent_text_injective (List.append_cancel_left h)⟩

theorem mantissa_injective {l' : Literal} (h : l.mantissa = l'.mantissa) :
    l.whole = l'.whole ∧ l.fraction = l'.fraction := by
  have hdot : ∀ l : Literal, ∀ c ∈ l.whole, (c == '.') = false := fun l c hc =>
    beq_false_of_ne ((numeric_append.mp l.numeric).1.ne (x := '.') rfl c hc)
  have hsplit : ∀ l : Literal, splitOnce (· == '.') l.mantissa = l.fraction.map fun f =>
    (l.whole, f) := by
    intro l
    unfold mantissa
    cases l.fraction with
    | none =>
      rw [Option.map_none, Option.getD_none, List.append_nil]
      exact splitOnce_none (hdot l)
    | some f => exact splitOnce_append (hdot l) rfl
  have hsame := (hsplit l).symm.trans ((congrArg _ h).trans (hsplit l'))
  cases hf : l.fraction <;> cases hf' : l'.fraction
  · unfold mantissa at h
    rw [hf, hf', Option.map_none, Option.getD_none, List.append_nil, List.append_nil] at h
    exact ⟨h, rfl⟩
  · rw [hf, hf'] at hsame
    cases hsame
  · rw [hf, hf'] at hsame
    cases hsame
  · rw [hf, hf'] at hsame
    have hpair := Prod.mk.inj (Option.some.inj hsame)
    exact ⟨hpair.1, congrArg some hpair.2⟩

/-- **A text is that of one literal.** -/
theorem text_injective {l l' : Literal} (h : l.text = l'.text) : l = l' := by
  have hno : ∀ l : Literal, ∀ c ∈ l.mantissa, c ≠ '+' ∧ c ≠ '-' := fun l c hc =>
    ⟨l.mantissa_ne (x := '+') rfl (by decide) c hc, l.mantissa_ne (x := '-') rfl (by decide) c hc⟩
  obtain ⟨hbody, hexponent⟩ := splitExponent_injective l.isMark_mantissa l'.isMark_mantissa h
  obtain ⟨hsign, hmantissa⟩ := sign_text_injective (hno l) (hno l') hbody
  obtain ⟨hwhole, hfraction⟩ := mantissa_injective l hmantissa
  exact Literal.ext hsign hwhole hfraction hexponent

end Literal

end Decimals
