import Mathlib.Data.List.Nodup
import Mathlib.Tactic.Common

/-!
# Keyed tables

A table is the list of its rows in insertion order; a key column is a function
on rows whose values have no duplicates.  `Keyed` bundles the rows with that
constraint, so a statement either keeps it or is refused.

Main results:

- Theorem `find?_key_eq_some`: looking a key up returns the row with that key.
- Theorem `nodup_key_snoc`: appending a row with a fresh key keeps a key column.
- Theorem `foldl_erase_map`: deleting rows keeps a mirrored table a mirror.
- Theorem `filter_group_delete`, `filter_group_snoc`: a deletion or an insertion touches
  one group of rows.
- Theorem `Keyed.insert_of_not_mem`: a row with a fresh key is accepted.
-/

namespace Sqlite

/-- A failed statement: a violated constraint, a missing table, or anything else
with its text. -/
inductive Error where
  | constraintViolation (message : String)
  | noSuchTable (table : String)
  | failure (message : String)
deriving DecidableEq, Repr

/-- The text of a statement's failure. -/
def Error.display : Error → String
  | .constraintViolation message => message
  | .noSuchTable table => "no such table: " ++ table
  | .failure message => message

variable {ρ κ : Type*}

/-! ## Key columns -/

/-- A row with a fresh key keeps the key column free of duplicates. -/
theorem nodup_key_snoc {key : ρ → κ} {rows : List ρ} {row : ρ} (hrows : (rows.map key).Nodup)
    (hfresh : key row ∉ rows.map key) : ((rows ++ [row]).map key).Nodup := by
  rw [List.map_append, List.map_singleton, List.nodup_append]
  refine ⟨hrows, List.nodup_singleton _, ?_⟩
  intro a ha b hb hab
  rw [List.mem_singleton.mp hb] at hab
  exact hfresh (hab ▸ ha)

/-- Deleting rows keeps the key column free of duplicates. -/
theorem nodup_key_filter {key : ρ → κ} {rows : List ρ} (hrows : (rows.map key).Nodup)
    (p : ρ → Bool) : ((rows.filter p).map key).Nodup :=
  hrows.sublist (List.filter_sublist.map _)

/-- Two rows with one key are one row. -/
theorem eq_of_key_eq {key : ρ → κ} {rows : List ρ} (hrows : (rows.map key).Nodup) {r s : ρ}
    (hr : r ∈ rows) (hs : s ∈ rows) (h : key r = key s) : r = s :=
  List.inj_on_of_nodup_map hrows hr hs h

/-- A mirrored table from which the mirror images of the deleted rows are erased one
by one mirrors the rows that are left. -/
theorem foldl_erase_map {τ : Type*} [DecidableEq τ] {f : ρ → τ} {rows : List ρ}
    (hrows : (rows.map f).Nodup) (p : ρ → Bool) :
    (rows.filter p).foldl (fun images r => images.erase (f r)) (rows.map f) =
      (rows.filter fun r => !p r).map f := by
  have hdiff : (rows.filter p).foldl (fun images r => images.erase (f r)) (rows.map f) =
      (rows.map f).diff ((rows.filter p).map f) := by
    rw [List.diff_eq_foldl, List.foldl_map]
  rw [hdiff, hrows.sdiff_eq_filter, List.filter_map]
  congr 1
  apply List.filter_congr
  intro r hr
  have hmem : f r ∈ (rows.filter p).map f ↔ p r = true := by
    constructor
    · intro h
      rcases List.mem_map.mp h with ⟨s, hs, hfs⟩
      rw [List.mem_filter] at hs
      rw [← eq_of_key_eq hrows hs.1 hr hfs]
      exact hs.2
    · intro h
      exact List.mem_map_of_mem (List.mem_filter.mpr ⟨hr, h⟩)
  simp only [Function.comp_apply, hmem]
  cases p r <;> rfl

section Lookup

variable [DecidableEq κ]

theorem find?_key_eq_none {key : ρ → κ} {rows : List ρ} {k : κ} :
    rows.find? (fun r => key r = k) = none ↔ ∀ r ∈ rows, key r ≠ k := by
  simp

/-- Looking a key up returns exactly the row that has it. -/
theorem find?_key_eq_some {key : ρ → κ} {rows : List ρ} (hrows : (rows.map key).Nodup) {k : κ}
    {r : ρ} : rows.find? (fun r => key r = k) = some r ↔ r ∈ rows ∧ key r = k := by
  constructor
  · intro h
    exact ⟨List.mem_of_find?_eq_some h, by simpa using List.find?_some h⟩
  · intro h
    rcases h with ⟨hr, rfl⟩
    cases hfind : rows.find? (fun s => key s = key r) with
    | none => exact absurd rfl (find?_key_eq_none.mp hfind r hr)
    | some s =>
        have hs : s ∈ rows := List.mem_of_find?_eq_some hfind
        have hkey : key s = key r := by simpa using List.find?_some hfind
        rw [eq_of_key_eq hrows hs hr hkey]

end Lookup

section Groups

variable [DecidableEq κ]

/-- Deleting the rows of one group empties that group and leaves the others. -/
theorem filter_group_delete (key : ρ → κ) (rows : List ρ) (k j : κ) :
    (rows.filter fun r => !decide (key r = k)).filter (fun r => key r = j) =
      if j = k then [] else rows.filter fun r => key r = j := by
  rw [List.filter_filter]
  split <;> rename_i hjk
  · rw [List.filter_eq_nil_iff]
    intro r _
    simp [hjk]
  · apply List.filter_congr
    intro r _
    by_cases hr : key r = j
    · simp [hr, hjk]
    · simp [hr]

/-- Appending a row adds to its own group only. -/
theorem filter_group_snoc (key : ρ → κ) (rows : List ρ) (row : ρ) (j : κ) :
    (rows ++ [row]).filter (fun r => key r = j) =
      (rows.filter fun r => key r = j) ++ if j = key row then [row] else [] := by
  rw [List.filter_append]
  by_cases hj : j = key row
  · simp [hj]
  · simp [hj, Ne.symm hj]

end Groups

/-! ## Tables with a primary key -/

/-- The rows of a table whose column `key` is its primary key. -/
structure Keyed (key : ρ → κ) where
  rows : List ρ
  nodup : (rows.map key).Nodup

namespace Keyed

variable {key : ρ → κ}

/-- The table right after `CREATE TABLE`. -/
def empty : Keyed key where
  rows := []
  nodup := List.nodup_nil

/-- `DELETE FROM … WHERE p`. -/
def delete (table : Keyed key) (p : ρ → Bool) : Keyed key where
  rows := table.rows.filter fun r => !p r
  nodup := nodup_key_filter table.nodup _

@[simp]
theorem rows_empty : (empty : Keyed key).rows = [] :=
  rfl

@[simp]
theorem rows_delete (table : Keyed key) (p : ρ → Bool) :
    (table.delete p).rows = table.rows.filter fun r => !p r :=
  rfl

variable [DecidableEq κ]

/-- `INSERT INTO`: refused on a used key. -/
def insert (table : Keyed key) (row : ρ) : Except Error (Keyed key) :=
  if h : key row ∈ table.rows.map key then
    .error (.constraintViolation "UNIQUE constraint failed")
  else .ok ⟨table.rows ++ [row], nodup_key_snoc table.nodup h⟩

/-- `INSERT OR REPLACE INTO`. -/
def replace (table : Keyed key) (row : ρ) : Keyed key where
  rows := (table.rows.filter fun r => key r ≠ key row) ++ [row]
  nodup := by
    apply nodup_key_snoc (nodup_key_filter table.nodup _)
    intro hmem
    rcases List.mem_map.mp hmem with ⟨r, hr, hkey⟩
    simp [hkey] at hr

@[simp]
theorem rows_replace (table : Keyed key) (row : ρ) :
    (table.replace row).rows = (table.rows.filter fun r => key r ≠ key row) ++ [row] :=
  rfl

/-- A row with a fresh key is accepted. -/
theorem insert_of_not_mem {table : Keyed key} (row : ρ) (h : key row ∉ table.rows.map key) :
    ∃ table', table.insert row = .ok table' ∧ table'.rows = table.rows ++ [row] := by
  refine ⟨⟨table.rows ++ [row], nodup_key_snoc table.nodup h⟩, ?_, rfl⟩
  simp only [insert, h, dite_false]

end Keyed

end Sqlite
