import Mathlib.Data.List.Nodup
import Mathlib.Logic.Function.Basic

/-!
# Keyed tables

A table with a primary or a unique key is a list of rows, no two with the same key. The
statements that change it keep that. `get` is the row under a key, and what a statement does
is told by what it does to `get`.

* `get_modify`, `get_upsert`, `get_delete`: **a table is a map from keys to rows**.
* `mem_rows`: a query sees the rows of the map, each once.
-/

namespace Sql

variable {ρ κ : Type*}

structure Table (key : ρ → κ) where
  rows : List ρ
  nodup : (rows.map key).Nodup

namespace Table

variable [DecidableEq κ] {key : ρ → κ} {k : κ} {r row : ρ} {f : ρ → ρ}

def empty : Table key := ⟨[], List.nodup_nil⟩

/-- The row under a key. -/
def get (t : Table key) (k : κ) : Option ρ := t.rows.find? (key · = k)

theorem get_eq_some {t : Table key} : t.get k = some r ↔ r ∈ t.rows ∧ key r = k := by
  constructor
  · intro h
    exact ⟨List.mem_of_find?_eq_some h, by simpa using List.find?_some h⟩
  · rintro ⟨hmem, rfl⟩
    cases hget : t.get (key r) with
    | none =>
      have hnone := List.find?_eq_none.1 hget r hmem
      simp at hnone
    | some q =>
      have hq : q ∈ t.rows := List.mem_of_find?_eq_some hget
      have hkey : key q = key r := by simpa using List.find?_some hget
      rw [List.inj_on_of_nodup_map t.nodup hq hmem hkey]

theorem mem_rows {t : Table key} : r ∈ t.rows ↔ t.get (key r) = some r := by
  rw [get_eq_some, and_iff_left rfl]

theorem get_eq_none {t : Table key} : t.get k = none ↔ ∀ r ∈ t.rows, key r ≠ k := by
  unfold get
  rw [List.find?_eq_none]
  simp

@[simp] theorem get_empty (k : κ) : (empty : Table key).get k = none := rfl

/-! ## Statements -/

/-- `UPDATE` of the row under a key, to one with the same key. -/
def modify (t : Table key) (k : κ) (f : ρ → ρ) (hf : ∀ r, key (f r) = key r) : Table key where
  rows := t.rows.map fun r => if key r = k then f r else r
  nodup := by
    have hkeys : (t.rows.map fun r => if key r = k then f r else r).map key = t.rows.map key := by
      rw [List.map_map]
      refine List.map_congr_left fun r _ => ?_
      show key (if key r = k then f r else r) = key r
      split
      · exact hf r
      · rfl
    rw [hkeys]
    exact t.nodup

/-- `INSERT`, and an `UPDATE` instead if there is a row under the key. -/
def upsert (t : Table key) (row : ρ) (f : ρ → ρ) (hf : ∀ r, key (f r) = key r) : Table key :=
  if h : t.get (key row) = none then
    { rows := t.rows ++ [row]
      nodup := by
        rw [List.map_append, List.nodup_append]
        refine ⟨t.nodup, List.nodup_singleton _, fun k hk l hl => ?_⟩
        obtain ⟨r, hr, rfl⟩ := List.mem_map.1 hk
        rw [List.mem_singleton.1 hl]
        exact get_eq_none.1 h r hr }
  else t.modify (key row) f hf

/-- `DELETE` of the rows with a property. -/
def delete (t : Table key) (p : ρ → Prop) [DecidablePred p] : Table key where
  rows := t.rows.filter (¬ p ·)
  nodup := t.nodup.sublist (List.filter_sublist.map key)

/-! ## What they do -/

theorem get_modify (t : Table key) (k : κ) (hf : ∀ r, key (f r) = key r) :
    (t.modify k f hf).get = Function.update t.get k ((t.get k).map f) := by
  funext l
  ext q
  rw [get_eq_some]
  by_cases hl : l = k
  · subst hl
    rw [Function.update_self, Option.map_eq_some_iff]
    constructor
    · rintro ⟨hq, hkey⟩
      obtain ⟨r, hr, rfl⟩ := List.mem_map.1 hq
      split at hkey
      · rename_i hr'
        rw [if_pos hr']
        exact ⟨r, get_eq_some.2 ⟨hr, hr'⟩, rfl⟩
      · rename_i hr'
        exact absurd hkey hr'
    · rintro ⟨r, hr, rfl⟩
      obtain ⟨hmem, hkey⟩ := get_eq_some.1 hr
      exact ⟨List.mem_map.2 ⟨r, hmem, if_pos hkey⟩, (hf r).trans hkey⟩
  · rw [Function.update_of_ne hl, get_eq_some]
    constructor
    · rintro ⟨hq, hkey⟩
      obtain ⟨r, hr, rfl⟩ := List.mem_map.1 hq
      split at hkey
      · rename_i hr'
        exact absurd (hkey.symm.trans ((hf r).trans hr')) hl
      · rename_i hr'
        rw [if_neg hr']
        exact ⟨hr, hkey⟩
    · rintro ⟨hq, hkey⟩
      exact ⟨List.mem_map.2 ⟨q, hq, if_neg fun he => hl (hkey.symm.trans he)⟩, hkey⟩

theorem rows_upsert_of_none {t : Table key} (h : t.get (key row) = none) (hf : ∀ r, key (f r) = key r) :
    (t.upsert row f hf).rows = t.rows ++ [row] := by
  unfold upsert
  rw [dif_pos h]

theorem upsert_of_some {t : Table key} (row : ρ) (h : t.get (key row) = some r) (hf : ∀ r, key (f r) = key r) :
    t.upsert row f hf = t.modify (key row) f hf := by
  unfold upsert
  rw [dif_neg (by rw [h]; exact Option.some_ne_none r)]

theorem get_upsert (t : Table key) (row : ρ) (hf : ∀ r, key (f r) = key r) :
    (t.upsert row f hf).get = Function.update t.get (key row) (some ((t.get (key row)).elim row f)) := by
  cases h : t.get (key row) with
  | some r => rw [upsert_of_some row h, get_modify, h, Option.map_some, Option.elim_some]
  | none =>
    funext l
    ext q
    rw [get_eq_some, rows_upsert_of_none h, List.mem_append, List.mem_singleton, Option.elim_none]
    by_cases hl : l = key row
    · subst hl
      rw [Function.update_self, Option.some.injEq]
      constructor
      · rintro ⟨hq | rfl, hkey⟩
        · exact absurd hkey (get_eq_none.1 h q hq)
        · rfl
      · rintro rfl
        exact ⟨.inr rfl, rfl⟩
    · rw [Function.update_of_ne hl, get_eq_some]
      constructor
      · rintro ⟨hq | rfl, hkey⟩
        · exact ⟨hq, hkey⟩
        · exact absurd hkey.symm hl
      · rintro ⟨hq, hkey⟩
        exact ⟨.inl hq, hkey⟩

theorem get_delete (t : Table key) (p : ρ → Prop) [DecidablePred p] (k : κ) :
    (t.delete p).get k = (t.get k).filter (¬ p ·) := by
  ext q
  rw [get_eq_some, Option.filter_eq_some_iff, get_eq_some]
  show q ∈ t.rows.filter (¬ p ·) ∧ key q = k ↔ _
  rw [List.mem_filter, and_right_comm]

end Table

end Sql
