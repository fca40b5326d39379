import Mathlib.Data.List.Forall2
import Mathlib.Order.Basic
import Orvek.Lib.Encoded

/-!
# Scanning loops

A loop that reads a list from its front: each turn sees what is left and its own state, emits something, and goes
on with less, or it fails.

* `Turn`, `loop`    one turn, and the loop with a number of turns;
* `Yields`          the output of a loop, without a number;
* `Reads`           what each turn of a loop keeps: an invariant of its state, and a relation of what it reads to
                    what it emits; `loop_of_yields`, `Yields.forall₂`;
* `Passes`          a part of a run; parts compose;
* `high_or_single`, `ascii_prefix`, `takeWhile_utf8`   the bytes of characters, as a scanner of bytes sees them;
* `Crosses`, `yields_utf8`                             a scanner of bytes that comes back to whole characters.
-/

set_option linter.unusedSectionVars false

namespace Scanner

structure Turn (σ α β : Type) where
  emitted : List β
  state : σ
  rest : List α
  deriving DecidableEq

section
variable {σ α β : Type} (step : σ → α → List α → Option (Turn σ α β))
variable {l : List α}

/-- at most a number of turns; `none` too where a turn fails -/
def loop : Nat → σ → List α → Option (List β)
  | _, _, [] => some []
  | 0, _, _ :: _ => none
  | fuel + 1, s, a :: l => (step s a l).bind fun t => (loop fuel t.state t.rest).map (t.emitted ++ ·)

inductive Yields : σ → List α → List β → Prop
  | done (s : σ) : Yields s [] []
  | turn {s : σ} {a : α} {l : List α} {t : Turn σ α β} {out : List β} (h : step s a l = some t)
      (hrest : Yields t.state t.rest out) : Yields s (a :: l) (t.emitted ++ out)

def Reads (Inv : σ → Prop) (R : α → β → Prop) : Prop := ∀ s a l t, Inv s → step s a l = some t → Inv t.state ∧
  ∃ read, read ≠ [] ∧ a :: l = read ++ t.rest ∧ List.Forall₂ R read t.emitted

variable {step} {Inv : σ → Prop} {R : α → β → Prop}

theorem Reads.length_le (hreads : Reads step Inv R) {s : σ} {a : α} {t : Turn σ α β} (hs : Inv s)
    (h : step s a l = some t) : t.rest.length ≤ l.length := by
  obtain ⟨-, read, hne, hread, -⟩ := hreads s a l t hs h
  have hlength := congrArg List.length hread
  have hpos := List.length_pos_of_ne_nil hne
  rw [List.length_cons, List.length_append] at hlength
  omega

theorem loop_of_yields (hreads : Reads step Inv R) {s : σ} (hs : Inv s) {out : List β}
    (h : Yields step s l out) {fuel : Nat} (hfuel : l.length ≤ fuel) : loop step fuel s l = some out := by
  induction h generalizing fuel with
  | done s => cases fuel <;> rfl
  | @turn s a l t out h _ ih =>
    obtain ⟨fuel, rfl⟩ : ∃ n, fuel = n + 1 := ⟨fuel - 1, by rw [List.length_cons] at hfuel; omega⟩
    have hle := Nat.le_trans (hreads.length_le hs h) (Nat.le_of_succ_le_succ hfuel)
    rw [loop, h, Option.bind_some, ih (hreads s a l t hs h).1 hle]
    rfl

theorem Yields.forall₂ (hreads : Reads step Inv R) {s : σ} (hs : Inv s) {out : List β}
    (h : Yields step s l out) : List.Forall₂ R l out := by
  induction h with
  | done s => exact .nil
  | @turn s a l t out h _ ih =>
    obtain ⟨hinv, read, -, hread, hforall⟩ := hreads s a l t hs h
    rw [hread]
    exact List.rel_append hforall (ih hinv)

variable (step) in
/-- from one place of a run to a later one -/
def Passes (s : σ) (l : List α) (emitted : List β) (s' : σ) (l' : List α) : Prop :=
  ∀ out, Yields step s' l' out → Yields step s l (emitted ++ out)

theorem Passes.refl (s : σ) (l : List α) : Passes step s l [] s l := fun _ h => h

theorem Passes.trans {s s' s'' : σ} {l' l'' : List α} {e e' : List β} (h : Passes step s l e s' l')
    (h' : Passes step s' l' e' s'' l'') : Passes step s l (e ++ e') s'' l'' := by
  intro out hout
  rw [List.append_assoc]
  exact h _ (h' _ hout)

theorem passes_turn {s : σ} {a : α} {t : Turn σ α β} (h : step s a l = some t) :
    Passes step s (a :: l) t.emitted t.state t.rest := fun _ hout => .turn h hout

theorem passes_each {s : σ} {f : α → β} {read : List α} {l : List α}
    (h : ∀ a ∈ read, ∀ l, step s a l = some ⟨[f a], s, l⟩) : Passes step s (read ++ l) (read.map f) s l := by
  induction read with
  | nil => exact .refl s l
  | cons a read ih =>
    have hfirst : Passes step s (a :: (read ++ l)) [f a] s (read ++ l) :=
      passes_turn (h a List.mem_cons_self (read ++ l))
    exact hfirst.trans (ih fun x hx => h x (List.mem_cons_of_mem _ hx))

end

/-! ## bytes of characters -/

section
open Json

variable {c : Char} {cs : List Char}

theorem utf8_cons (c : Char) (cs : List Char) : utf8 (c :: cs) = String.utf8EncodeChar c ++ utf8 cs := rfl

theorem utf8_append (a b : List Char) : utf8 (a ++ b) = utf8 a ++ utf8 b := List.flatMap_append

theorem high_or {x y : UInt8} (h : 128 ≤ y) : 128 ≤ x ||| y := by
  rw [UInt8.le_iff_toNat_le] at h ⊢
  rw [UInt8.toNat_or]
  exact Nat.le_trans h Nat.right_le_or

/-- a character is one byte below 128, or bytes from 128 on -/
theorem high_or_single (c : Char) :
    (c.toNat < 128 ∧ String.utf8EncodeChar c = [UInt8.ofNat c.toNat]) ∨
      (128 ≤ c.toNat ∧ String.utf8EncodeChar c ≠ [] ∧ ∀ b ∈ String.utf8EncodeChar c, 128 ≤ b) := by
  have hsize : c.utf8Size = 1 ↔ c.toNat < 128 := by
    rw [Char.utf8Size_eq_one_iff, UInt32.le_iff_toNat_le]
    exact Nat.lt_succ_iff.symm
  have hpos := c.utf8Size_pos
  have hfour := c.utf8Size_le_four
  have hhigh : ∀ l : List UInt8, String.utf8EncodeChar c = l → l ≠ [] → (∀ b ∈ l, 128 ≤ b) → c.utf8Size ≠ 1 →
      (c.toNat < 128 ∧ String.utf8EncodeChar c = [UInt8.ofNat c.toNat]) ∨
        (128 ≤ c.toNat ∧ String.utf8EncodeChar c ≠ [] ∧ ∀ b ∈ String.utf8EncodeChar c, 128 ≤ b) := by
    intro l he hne hall hnot
    exact .inr ⟨Nat.le_of_not_lt fun hlow => hnot (hsize.mpr hlow), by rwa [he], by rwa [he]⟩
  by_cases hone : c.utf8Size = 1
  · refine .inl ⟨?_, ?_⟩
    · exact hsize.mp hone
    · rw [String.utf8EncodeChar_eq_singleton hone]
      rfl
  · by_cases htwo : c.utf8Size = 2
    · refine hhigh _ (String.utf8EncodeChar_eq_cons_cons htwo) (by simp) ?_ hone
      simp only [List.forall_mem_cons]
      exact ⟨high_or (by decide), high_or (by decide), nofun⟩
    · by_cases hthree : c.utf8Size = 3
      · refine hhigh _ (String.utf8EncodeChar_eq_cons_cons_cons hthree) (by simp) ?_ hone
        simp only [List.forall_mem_cons]
        exact ⟨high_or (by decide), high_or (by decide), high_or (by decide), nofun⟩
      · refine hhigh _ (String.utf8EncodeChar_eq_cons_cons_cons_cons (by omega)) (by simp) ?_ hone
        simp only [List.forall_mem_cons]
        exact ⟨high_or (by decide), high_or (by decide), high_or (by decide), high_or (by decide), nofun⟩

theorem ascii_prefix {front : List UInt8} (hascii : ∀ b ∈ front, b < 128) (h : front <+: utf8 cs) :
    ∃ read cs', cs = read ++ cs' ∧ utf8 read = front := by
  induction front generalizing cs with
  | nil => exact ⟨[], cs, rfl, rfl⟩
  | cons b front ih =>
    cases cs with
    | nil => exact absurd (List.prefix_nil.mp h) (List.cons_ne_nil _ _)
    | cons c cs =>
      obtain ⟨hb, hfront⟩ := List.forall_mem_cons.mp hascii
      rw [utf8_cons] at h
      rcases high_or_single c with ⟨-, hc⟩ | ⟨-, hne, hhigh⟩
      · rw [hc, List.singleton_append] at h
        obtain ⟨rfl, hrest⟩ := List.cons_prefix_cons.mp h
        obtain ⟨read, cs', rfl, rfl⟩ := ih hfront hrest
        exact ⟨c :: read, cs', rfl, by rw [utf8_cons, hc]; rfl⟩
      · obtain ⟨x, xs, hx⟩ := List.exists_cons_of_ne_nil hne
        rw [hx] at h hhigh
        obtain ⟨rfl, -⟩ := List.cons_prefix_cons.mp h
        exact absurd hb (UInt8.not_lt.mpr (hhigh _ List.mem_cons_self))

theorem single_iff {limit : Char} (hlimit : limit.toNat < 128) :
    UInt8.ofNat limit.toNat ∈ String.utf8EncodeChar c ↔ c = limit := by
  constructor
  · intro hmem
    rcases high_or_single c with ⟨hlow, hc⟩ | ⟨-, -, hhigh⟩
    · rw [hc, List.mem_singleton] at hmem
      have hnat := congrArg UInt8.toNat hmem
      rw [UInt8.toNat_ofNat', UInt8.toNat_ofNat', Nat.mod_eq_of_lt (by omega), Nat.mod_eq_of_lt (by omega)] at hnat
      rw [← Char.ofNat_toNat c, ← hnat, Char.ofNat_toNat]
    · have hle := hhigh _ hmem
      rw [UInt8.le_iff_toNat_le, UInt8.toNat_ofNat', Nat.mod_eq_of_lt (by omega)] at hle
      exact absurd hlimit (Nat.not_lt.mpr hle)
  · rintro rfl
    rcases high_or_single c with ⟨-, hc⟩ | ⟨hlow, -⟩
    · rw [hc]
      exact List.mem_singleton_self _
    · omega

/-- the bytes up to one below 128 are whole characters -/
theorem takeWhile_utf8 {limit : Char} (hlimit : limit.toNat < 128) (cs : List Char) :
    (utf8 cs).takeWhile (· ≠ UInt8.ofNat limit.toNat) = utf8 (cs.takeWhile (· ≠ limit)) ∧
      (utf8 cs).dropWhile (· ≠ UInt8.ofNat limit.toNat) = utf8 (cs.dropWhile (· ≠ limit)) := by
  induction cs with
  | nil => exact ⟨rfl, rfl⟩
  | cons c cs ih =>
    rw [utf8_cons]
    by_cases he : c = limit
    · subst he
      rcases high_or_single c with ⟨-, hc⟩ | ⟨hlow, -⟩
      · constructor
        · rw [hc, List.singleton_append, List.takeWhile_cons_of_neg (by simp), List.takeWhile_cons_of_neg (by simp)]
          rfl
        · rw [hc, List.singleton_append, List.dropWhile_cons_of_neg (by simp), List.dropWhile_cons_of_neg (by simp),
            utf8_cons, hc]
          rfl
      · omega
    · have hall : ∀ b ∈ String.utf8EncodeChar c, decide (b ≠ UInt8.ofNat limit.toNat) = true := fun b hb =>
        decide_eq_true fun hsame => he ((single_iff hlimit).mp (hsame ▸ hb))
      constructor
      · rw [List.takeWhile_append_of_pos hall, ih.1, List.takeWhile_cons_of_pos (by simpa using he), utf8_cons]
      · rw [List.dropWhile_append_of_pos hall, ih.2, List.dropWhile_cons_of_pos (by simpa using he)]

theorem ascii_append {front rest : List UInt8} (hascii : ∀ b ∈ front, b < 128) (h : utf8 cs = front ++ rest) :
    ∃ read cs', front = utf8 read ∧ rest = utf8 cs' := by
  obtain ⟨read, cs', rfl, rfl⟩ := ascii_prefix hascii (h ▸ List.prefix_append front rest)
  rw [utf8_append, List.append_cancel_left_eq] at h
  exact ⟨read, cs', rfl, h.symm⟩

theorem utf8_low (h : c.toNat < 128) : String.utf8EncodeChar c = [UInt8.ofNat c.toNat] := by
  rcases high_or_single c with ⟨-, hc⟩ | ⟨hhigh, -⟩
  · exact hc
  · exact absurd h (Nat.not_lt.mpr hhigh)

theorem ascii_utf8 {front : List Char} (h : ∀ c ∈ front, c.toNat < 128) : ∀ b ∈ utf8 front, b < 128 := by
  intro b hb
  obtain ⟨c, hc, hb⟩ := List.mem_flatMap.mp hb
  have hlow := h c hc
  rw [utf8_low hlow, List.mem_singleton] at hb
  rw [hb, UInt8.lt_iff_toNat_lt, UInt8.toNat_ofNat', Nat.mod_eq_of_lt (by omega)]
  exact hlow

theorem ascii_front {front : List Char} (hascii : ∀ c ∈ front, c.toNat < 128) {bytes : List UInt8}
    (h : utf8 cs = utf8 front ++ bytes) : ∃ cs', cs = front ++ cs' ∧ bytes = utf8 cs' := by
  obtain ⟨read, cs', rfl, hread⟩ := ascii_prefix (ascii_utf8 hascii) (h ▸ List.prefix_append _ _)
  obtain rfl := utf8_inj hread
  rw [utf8_append, List.append_cancel_left_eq] at h
  exact ⟨cs', rfl, h.symm⟩

theorem utf8_spaces (l : List UInt8) : (l.map fun _ => (32 : UInt8)) = utf8 (l.map fun _ => ' ') := by
  induction l with
  | nil => rfl
  | cons b l ih =>
    rw [List.map_cons, List.map_cons, utf8_cons, ih]
    rfl

/-! ## from character to character -/

variable {σ : Type} (step : σ → UInt8 → List UInt8 → Option (Turn σ UInt8 UInt8)) (Inv : σ → Prop)

/-- from the first byte of a character some turns come to the first byte of a later one, with whole characters
emitted -/
def Crosses (s : σ) (c : Char) (cs : List Char) : Prop :=
  ∃ s' cs' emitted, Inv s' ∧ (utf8 cs').length ≤ (utf8 cs).length ∧
    Passes step s (utf8 (c :: cs)) (utf8 emitted) s' (utf8 cs')

variable {step} {Inv}

theorem crosses_copied {s : σ} (hs : Inv s)
    (h : ∀ b ∈ String.utf8EncodeChar c, ∀ l, step s b l = some ⟨[b], s, l⟩) : Crosses step Inv s c cs := by
  refine ⟨s, cs, [c], hs, Nat.le_refl _, ?_⟩
  have hpasses := @passes_each _ _ _ step s id _ (utf8 cs) h
  rw [List.map_id] at hpasses
  rwa [utf8_cons, show utf8 [c] = String.utf8EncodeChar c from List.append_nil _]

theorem crosses_spaces {s : σ} (hs : Inv s)
    (h : ∀ b ∈ String.utf8EncodeChar c, ∀ l, step s b l = some ⟨[32], s, l⟩) : Crosses step Inv s c cs := by
  refine ⟨s, cs, (String.utf8EncodeChar c).map fun _ => ' ', hs, Nat.le_refl _, ?_⟩
  rw [← utf8_spaces, utf8_cons]
  exact passes_each h

theorem crosses_turn {R : UInt8 → UInt8 → Prop} (hreads : Reads step Inv R) {s : σ} (hs : Inv s) {b : UInt8}
    (hc : String.utf8EncodeChar c = [b]) {t : Turn σ UInt8 UInt8} (h : step s b (utf8 cs) = some t)
    {emitted cs' : List Char} (hemitted : t.emitted = utf8 emitted) (hrest : t.rest = utf8 cs') :
    Crosses step Inv s c cs := by
  have hinv := (hreads s b _ t hs h).1
  have hle := hreads.length_le hs h
  rw [hrest] at hle
  refine ⟨t.state, cs', emitted, hinv, hle, ?_⟩
  rw [utf8_cons, hc, ← hemitted, ← hrest]
  exact passes_turn h

theorem yields_utf8 (hcrosses : ∀ s c cs, Inv s → Crosses step Inv s c cs) {s : σ} (hs : Inv s) (cs : List Char) :
    ∃ out, Yields step s (utf8 cs) (utf8 out) := by
  induction hn : (utf8 cs).length using Nat.strongRecOn generalizing s cs with
  | _ n ih =>
    cases cs with
    | nil => exact ⟨[], .done s⟩
    | cons c cs =>
      obtain ⟨s', cs', emitted, hs', hle, hpasses⟩ := hcrosses s c cs hs
      have hlt : (utf8 cs').length < n := by
        have hpos : 0 < (String.utf8EncodeChar c).length := by
          rw [String.length_utf8EncodeChar]
          exact c.utf8Size_pos
        rw [← hn, utf8_cons, List.length_append]
        omega
      obtain ⟨out, hout⟩ := ih _ hlt hs' cs' rfl
      refine ⟨emitted ++ out, ?_⟩
      rw [utf8_append]
      exact hpasses _ hout

end

end Scanner
