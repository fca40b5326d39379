import Mathlib.Data.List.Basic

/-!
# Path texts and their components

A path is a text cut at its slashes.  Reading it as names skips the empty segments and the single
dots, and keeps the double dots:

* `split`, `join`    the segments of a text, and the text of a list of segments;
* `components`       what a path parser reports: a root, a leading dot, double dots and names;
* `names`            the segments of a plain relative path that are names;
* `above`            the proper ancestors of a plain relative path, nearest first.
-/

namespace Paths

variable {text : List Char}

abbrev Seg : Type := List Char

def split (text : List Char) : List Seg := text.splitOn '/'

def join (segs : List Seg) : List Char := ['/'].intercalate segs

/-- segments that stay where they are: an empty one or a single dot -/
def skipped (s : Seg) : Bool := s = [] || s = ['.']

def dotdot : Seg := ['.', '.']

inductive Component where
  | rootDir
  | curDir
  | parentDir
  | normal (name : Seg)
  deriving DecidableEq, Repr

def Component.isNormal : Component → Bool
  | .normal _ => true
  | _ => false

/-- the components of the segments that follow the head of a path -/
def body : List Seg → List Component
  | [] => []
  | s :: segs =>
    if skipped s then body segs
    else if s = dotdot then .parentDir :: body segs
    else .normal s :: body segs

/-- an empty head before a slash is the root, and only a dot at the head is reported -/
def components (text : List Char) : List Component :=
  match split text with
  | [] => []
  | s :: segs =>
    if s = [] then (if segs = [] then [] else .rootDir :: body segs)
    else if s = ['.'] then .curDir :: body segs
    else body (s :: segs)

def named (segs : List Seg) : List Seg := segs.filter fun s => !skipped s

def names (text : List Char) : List Seg := named (split text)

/-- the proper ancestors of reversed segments, each without what is skipped at its end -/
def above : List Seg → List (List Seg)
  | [] => []
  | s :: rest => if skipped s then above rest else rest.dropWhile skipped :: above rest

/-- the proper ancestors of a plain relative path, nearest first; the last one is empty -/
def ancestors (text : List Char) : List (List Char) :=
  (above (split text).reverse).map fun segs => join segs.reverse

/-! ## splitting and joining -/

theorem slash_not_mem_split {s : Seg} (h : s ∈ split text) : '/' ∉ s := by
  induction text generalizing s with
  | nil => simp_all [split]
  | cons c text ih =>
    rw [split, List.splitOn_cons_eq_if_modifyHead] at h
    split at h
    · rcases List.mem_cons.mp h with rfl | h
      · simp
      · exact ih h
    · rename_i hc
      cases hs : text.splitOn '/' with
      | nil => exact absurd hs (List.splitOn_ne_nil _ _)
      | cons t ts =>
        rw [hs] at h
        have htail : ∀ u ∈ t :: ts, '/' ∉ u := fun u hu => ih (by rw [split, hs]; exact hu)
        rcases List.mem_cons.mp h with rfl | h
        · have := htail t (by simp)
          simp only [List.mem_cons, not_or]
          exact ⟨fun e => hc (by simp [← e]), this⟩
        · exact htail s (by simp [h])

variable {segs : List Seg}

theorem split_join (hne : segs ≠ []) (h : ∀ s ∈ segs, '/' ∉ s) :
    split (join segs) = segs := List.splitOn_intercalate '/' h hne

theorem join_split (text : List Char) : join (split text) = text := List.intercalate_splitOn '/'

theorem named_append (a b : List Seg) : named (a ++ b) = named a ++ named b := List.filter_append ..

theorem names_join (h : ∀ s ∈ segs, '/' ∉ s) : names (join segs) = named segs := by
  rcases eq_or_ne segs [] with rfl | hne
  · rfl
  · rw [names, split_join hne h]

theorem named_of_none (h : ∀ s ∈ segs, skipped s = false) : named segs = segs :=
  List.filter_eq_self.mpr fun s hs => by simp [h s hs]

theorem mem_names {s : Seg} (h : s ∈ names text) : '/' ∉ s ∧ skipped s = false := by
  obtain ⟨hs, hk⟩ := List.mem_filter.mp h
  exact ⟨slash_not_mem_split hs, by simpa using hk⟩

/-! ## ancestors -/

attribute [grind =] named

theorem named_dropWhile (r : List Seg) : named (r.dropWhile skipped).reverse = named r.reverse := by
  induction r with
  | nil => rfl
  | cons s r ih =>
    rw [List.dropWhile_cons]
    split
    · rename_i hs
      rw [ih, List.reverse_cons, named_append]
      simp [named, hs]
    · rfl

attribute [grind =] above

/-- every number of leading names is reached by an ancestor -/
theorem exists_above {r : List Seg} {n : Nat} (hn : n < (named r.reverse).length) :
    ∃ t ∈ above r, t <:+ r ∧ named t.reverse = (named r.reverse).take n := by
  induction r with
  | nil => simp [named] at hn
  | cons s r ih =>
    rw [List.reverse_cons, named_append] at hn ⊢
    by_cases hs : skipped s = true
    · have hnone : named [s] = [] := by simp [named, hs]
      rw [hnone, List.append_nil] at hn ⊢
      obtain ⟨t, ht, hsuf, he⟩ := ih hn
      exact ⟨t, by rw [above, if_pos hs]; exact ht, hsuf.trans (List.suffix_cons s r), he⟩
    · have hone : named [s] = [s] := by simp [named, hs]
      rw [hone] at hn ⊢
      rw [above, if_neg hs]
      rcases Nat.lt_or_ge n (named r.reverse).length with hlt | hge
      · obtain ⟨t, ht, hsuf, he⟩ := ih hlt
        refine ⟨t, List.mem_cons_of_mem _ ht, hsuf.trans (List.suffix_cons s r), ?_⟩
        rw [he, List.take_append_of_le_length (Nat.le_of_lt hlt)]
      · have hlen : n = (named r.reverse).length := by
          rw [List.length_append, List.length_singleton] at hn
          omega
        refine ⟨_, List.mem_cons_self, (List.dropWhile_suffix _).trans (List.suffix_cons s r), ?_⟩
        rw [named_dropWhile, hlen, List.take_left]

theorem exists_ancestor {n : Nat} (hn : n < (names text).length) :
    ∃ a ∈ ancestors text, names a = (names text).take n := by
  have hrev : (split text).reverse.reverse = split text := List.reverse_reverse _
  obtain ⟨t, ht, hsuf, he⟩ := exists_above (r := (split text).reverse) (n := n) (by rwa [hrev])
  refine ⟨join t.reverse, List.mem_map.mpr ⟨t, ht, rfl⟩, ?_⟩
  rw [names_join, he, hrev, names]
  intro s hs
  exact slash_not_mem_split (List.mem_reverse.mp (hsuf.subset (List.mem_reverse.mp hs)))

/-- without skipped segments, the ancestors are the proper beginnings -/
theorem mem_above {r t : List Seg} (h : ∀ s ∈ r, skipped s = false) : t ∈ above r ↔ t <:+ r ∧ t ≠ r := by
  induction r with
  | nil =>
    rw [above, List.suffix_nil]
    exact ⟨fun hm => (nomatch hm), fun ht => absurd ht.1 ht.2⟩
  | cons s r ih =>
    obtain ⟨hs, hr⟩ := List.forall_mem_cons.mp h
    have hdrop : r.dropWhile skipped = r := by
      cases r with
      | nil => rfl
      | cons x r => rw [List.dropWhile_cons, hr x List.mem_cons_self, if_neg Bool.false_ne_true]
    rw [above, if_neg (by simp [hs]), hdrop, List.mem_cons, ih hr, List.suffix_cons_iff]
    constructor
    · rintro (rfl | ⟨hsuffix, hne⟩)
      · exact ⟨.inr (List.suffix_refl _), fun he => absurd (congrArg List.length he) (by simp)⟩
      · refine ⟨.inr hsuffix, fun he => ?_⟩
        have := hsuffix.length_le
        rw [he, List.length_cons] at this
        omega
    · rintro ⟨rfl | hsuffix, hne⟩
      · exact absurd rfl hne
      · by_cases he : t = r
        · exact .inl he
        · exact .inr ⟨hsuffix, he⟩

theorem mem_ancestors {a : List Char} (h : ∀ s ∈ split text, skipped s = false) :
    a ∈ ancestors text ↔ ∃ q, q <+: split text ∧ q ≠ split text ∧ a = join q := by
  have hreverse : ∀ s ∈ (split text).reverse, skipped s = false := fun s hs => h s (List.mem_reverse.mp hs)
  rw [ancestors, List.mem_map]
  constructor
  · rintro ⟨t, ht, rfl⟩
    obtain ⟨hsuffix, hne⟩ := (mem_above hreverse).mp ht
    refine ⟨t.reverse, ?_, fun he => hne ?_, rfl⟩
    · have := List.reverse_prefix.mpr hsuffix
      rwa [List.reverse_reverse] at this
    · rw [← he, List.reverse_reverse]
  · rintro ⟨q, hprefix, hne, rfl⟩
    refine ⟨q.reverse, (mem_above hreverse).mpr ⟨List.reverse_suffix.mpr hprefix, fun he => hne ?_⟩, ?_⟩
    · exact List.reverse_injective he
    · rw [List.reverse_reverse]

/-! ## plain relative paths -/

/-- segments that begin with a name and have no double dot -/
structure Plain (segs : List Seg) : Prop where
  head : ∀ s ∈ segs.head?, skipped s = false
  noParent : dotdot ∉ segs

theorem Plain.of_prefix {a b : List Seg} (h : Plain b) (hp : a <+: b) : Plain a := by
  refine ⟨fun s hs => ?_, fun hm => h.noParent (hp.subset hm)⟩
  obtain ⟨c, rfl⟩ := hp
  cases a with
  | nil => simp at hs
  | cons x a => exact h.head s hs

theorem body_plain (h : dotdot ∉ segs) : body segs = (named segs).map .normal := by
  induction segs with
  | nil => rfl
  | cons s segs ih =>
    simp only [List.mem_cons, not_or] at h
    rw [body]
    split
    · rename_i hs
      rw [ih h.2]
      simp [named, hs]
    · rename_i hs
      rw [if_neg (Ne.symm h.1), ih h.2]
      simp [named, hs]

attribute [grind =] skipped

theorem components_plain (h : Plain segs) (hslash : ∀ s ∈ segs, '/' ∉ s) :
    components (join segs) = (named segs).map .normal := by
  cases segs with
  | nil => rfl
  | cons s rest =>
    have hs : skipped s = false := h.head s rfl
    simp only [skipped, Bool.or_eq_false_iff, decide_eq_false_iff_not] at hs
    rw [components, split_join (by simp) hslash]
    simp only [hs.1, hs.2, if_false]
    exact body_plain h.noParent

/-- relative, not empty, and made of names only -/
def safeRelative (text : List Char) : Bool :=
  text ≠ [] && (components text).all Component.isNormal

theorem noParent_of_body (h : ∀ c ∈ body segs, c.isNormal = true) : dotdot ∉ segs := by
  induction segs with
  | nil => exact List.not_mem_nil
  | cons s segs ih =>
    rw [body] at h
    intro hm
    rcases List.mem_cons.mp hm with rfl | hm
    · exact absurd (h .parentDir (by simp [skipped, dotdot])) (by decide)
    · split at h
      · exact ih h hm
      · split at h <;> exact ih (fun c hc => h c (List.mem_cons_of_mem _ hc)) hm

theorem safeRelative_plain (h : safeRelative text = true) : Plain (split text) ∧ names text ≠ [] := by
  rw [safeRelative, Bool.and_eq_true, decide_eq_true_eq, List.all_eq_true] at h
  obtain ⟨hne, hall⟩ := h
  have hjoin := join_split text
  rw [components] at hall
  rw [names]
  cases hs : split text with
  | nil => exact absurd hs (List.splitOn_ne_nil _ _)
  | cons s segs =>
    simp only [hs] at hall
    split at hall
    · split at hall
      · rename_i h1 h2
        rw [hs, h1, h2] at hjoin
        exact absurd hjoin.symm hne
      · exact absurd (hall .rootDir (by simp)) (by decide)
    · split at hall
      · exact absurd (hall .curDir (by simp)) (by decide)
      · rename_i h1 h2
        have hk : skipped s = false := by simp [skipped, h1, h2]
        refine ⟨⟨fun x hx => ?_, noParent_of_body hall⟩, ?_⟩
        · cases hx
          exact hk
        · simp [named, hk]

def parent (text : List Char) : Option (List Char) := (ancestors text).head?

theorem above_head {r : List Seg} (h : named r.reverse ≠ []) :
    ∃ t, (above r).head? = some t ∧ t <:+ r ∧ named t.reverse = (named r.reverse).dropLast := by
  induction r with
  | nil => exact absurd rfl h
  | cons s r ih =>
    rw [List.reverse_cons, named_append] at h ⊢
    by_cases hs : skipped s = true
    · have hnone : named [s] = [] := by simp [named, hs]
      rw [hnone, List.append_nil] at h ⊢
      obtain ⟨t, ht, hsuf, he⟩ := ih h
      exact ⟨t, by rw [above, if_pos hs]; exact ht, hsuf.trans (List.suffix_cons s r), he⟩
    · have hone : named [s] = [s] := by simp [named, hs]
      rw [hone, above, if_neg hs, List.dropLast_concat]
      exact ⟨_, rfl, (List.dropWhile_suffix _).trans (List.suffix_cons s r), named_dropWhile r⟩

theorem components_parent (h : safeRelative text = true) :
    ∃ p, parent text = some p ∧ components p = (names text).dropLast.map .normal := by
  obtain ⟨hplain, hne⟩ := safeRelative_plain h
  have hrev : (split text).reverse.reverse = split text := List.reverse_reverse _
  obtain ⟨t, ht, hsuf, he⟩ := above_head (r := (split text).reverse) (by rwa [hrev])
  have hpre : t.reverse <+: split text := by
    have := List.reverse_prefix.mpr hsuf
    rwa [hrev] at this
  refine ⟨join t.reverse, by rw [parent, ancestors, List.head?_map, ht]; rfl, ?_⟩
  rw [components_plain (hplain.of_prefix hpre), he, hrev, names]
  intro s hs
  exact slash_not_mem_split (hpre.subset hs)

end Paths
