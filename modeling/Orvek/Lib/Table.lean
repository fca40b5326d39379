import Mathlib.Data.List.Basic

/-!
# Keyed tables

The rows of a table with a primary key, oldest first:

* `Table.get`      the row of a key;
* `Table.insert`   a new row, refused when its key is taken;
* `Table.update`   another value for the row of a key;
* `Table.delete`   the table without the rows a predicate selects.
-/

abbrev Table (κ α : Type) : Type := List (κ × α)

namespace Table
variable {κ α : Type} [DecidableEq κ]
variable {key : κ}

def get : Table κ α → κ → Option α
  | [], _ => none
  | (k, a) :: t, key => if k = key then some a else get t key

def insert (t : Table κ α) (key : κ) (a : α) : Option (Table κ α) :=
  if (t.get key).isSome then none else some (t ++ [(key, a)])

def update (t : Table κ α) (key : κ) (f : α → α) : Table κ α :=
  t.map fun row => if row.1 = key then (row.1, f row.2) else row

def delete (t : Table κ α) (p : κ → Bool) : Table κ α := t.filter fun row => !p row.1

attribute [grind =] get

theorem get_append (t u : Table κ α) (key : κ) : get (t ++ u) key = (t.get key).or (u.get key) := by
  induction t with
  | nil => rfl
  | cons row t ih =>
    rw [List.cons_append, get, get, ih]
    split <;> rfl

attribute [grind =] insert

variable {t : Table κ α}

theorem get_insert {u : Table κ α} {a : α} (h : t.insert key a = some u) (k : κ) :
    t.get key = none ∧ u.get k = if k = key then some a else t.get k := by
  unfold insert at h
  split at h
  · cases h
  · rename_i hnone
    cases h
    have hkey : t.get key = none := by simpa using hnone
    refine ⟨hkey, ?_⟩
    rw [get_append, get, get]
    split
    · rename_i he
      rw [if_pos he.symm, ← he, hkey]
      rfl
    · rename_i hne
      rw [if_neg (Ne.symm hne), Option.or_none]

theorem get_update (t : Table κ α) (key : κ) (f : α → α) (k : κ) :
    (t.update key f).get k = if k = key then (t.get k).map f else t.get k := by
  induction t with
  | nil => simp [update, get]
  | cons row t ih =>
    obtain ⟨k', a⟩ := row
    rw [update, List.map_cons, ← update]
    by_cases hk : k' = key
    · subst hk
      by_cases he : k' = k
      · subst he
        simp [get]
      · simp only [get, if_pos, he, if_false, ih, Ne.symm he]
    · by_cases he : k' = k
      · subst he
        simp [get, hk]
      · simp only [get, hk, he, if_false, ih]

theorem get_delete (t : Table κ α) (p : κ → Bool) (key : κ) :
    (t.delete p).get key = if p key then none else t.get key := by
  induction t with
  | nil =>
    rw [delete, List.filter_nil]
    split <;> rfl
  | cons row t ih =>
    obtain ⟨k, a⟩ := row
    rw [delete, List.filter_cons]
    by_cases hp : p k = true
    · simp only [hp, Bool.not_true, Bool.false_eq_true, if_false]
      rw [← delete, ih]
      by_cases he : k = key
      · rw [← he, if_pos hp, if_pos hp]
      · simp only [get, he, if_false]
    · simp only [hp, Bool.not_false, if_true]
      rw [get, ← delete, ih]
      by_cases he : k = key
      · rw [if_pos he, ← he, if_neg hp, get, if_pos rfl]
      · rw [if_neg he]
        simp only [get, he, if_false]

theorem get_none (h : t.get key = none) : key ∉ t.map Prod.fst := by
  induction t with
  | nil => simp
  | cons row t ih =>
    obtain ⟨k, a⟩ := row
    rw [get] at h
    split at h
    · cases h
    · rename_i hne
      rw [List.map_cons, List.mem_cons, not_or]
      exact ⟨Ne.symm hne, ih h⟩

theorem get_of_mem (h : key ∈ t.map Prod.fst) : ∃ a, t.get key = some a := by
  cases ha : t.get key with
  | none => exact absurd h (get_none ha)
  | some a => exact ⟨a, rfl⟩

theorem row_mem {a : α} (h : t.get key = some a) : (key, a) ∈ t := by
  induction t with
  | nil => cases h
  | cons row t ih =>
    obtain ⟨k, b⟩ := row
    rw [get] at h
    split at h
    · rename_i he
      cases h
      rw [he]
      exact List.mem_cons_self
    · exact List.mem_cons_of_mem (k, b) (ih h)

theorem mem_of_get {a : α} (h : t.get key = some a) :
    key ∈ t.map Prod.fst := List.mem_map_of_mem (row_mem h)

theorem get_row (hnodup : (t.map Prod.fst).Nodup) {row : κ × α} (h : row ∈ t) :
    t.get row.1 = some row.2 := by
  induction t with
  | nil => cases h
  | cons first t ih =>
    rw [List.map_cons, List.nodup_cons] at hnodup
    rw [get]
    rcases List.mem_cons.mp h with rfl | h
    · exact if_pos rfl
    · rw [if_neg, ih hnodup.2 h]
      intro he
      exact hnodup.1 (he ▸ List.mem_map_of_mem h)

theorem insert_eq {u : Table κ α} {a : α} (h : t.insert key a = some u) : u = t ++ [(key, a)] := by
  unfold insert at h
  split at h
  · cases h
  · cases h
    rfl

theorem nodup_insert {u : Table κ α} {a : α} (h : t.insert key a = some u) (hnodup : (t.map Prod.fst).Nodup) :
    (u.map Prod.fst).Nodup := by
  have hnone := (get_insert h key).1
  unfold insert at h
  rw [hnone] at h
  cases h
  rw [List.map_append]
  refine List.nodup_append.mpr ⟨hnodup, by simp, fun x hx y hy => ?_⟩
  cases List.mem_singleton.mp hy
  rintro rfl
  exact get_none hnone hx

theorem keys_update (t : Table κ α) (key : κ) (f : α → α) :
    (t.update key f).map Prod.fst = t.map Prod.fst := by
  rw [update, List.map_map]
  refine List.map_congr_left fun row _ => ?_
  show (if row.1 = key then (row.1, f row.2) else row).1 = row.1
  split <;> rfl

end Table
