import Mathlib.Tactic.SplitIfs
import Lnpl.Lib.Tables

/-!
# The statements of `SqliteRepositoryDriver`

The table `lnpl_rows` under its primary key `(entity_id, row_key)`, and the statements the driver
executes on it.  A stored payload is the JSON text of a row; `P` stands for it, since the
statements only move it.  `ι` stamps the INSERT that created a row: no statement reads it, it is
there to say of two rows under one key whether they are the same row.
-/

namespace Lnpl.Drivers.Sqlite

open Lnpl.Lib

/-- A row of `lnpl_rows` below its primary key: `payload` and `_version`. -/
structure Row (P ι : Type) where
  payload : P
  version : Nat
  born : ι
deriving DecidableEq, Repr

/-- `lnpl_rows`, one table per `entity_id`. -/
abbrev Rows (ε κ P ι : Type) [Ord κ] := Tables ε κ (Row P ι)

variable {ε κ P ι : Type} [DecidableEq ε] [Ord κ] [Std.TransOrd κ]

/-- `_SELECT_ROW`. -/
def selectRow (R : Rows ε κ P ι) (e : ε) (k : κ) : Option (Row P ι) := R.get e k

/-- `_INSERT_ROW`, `_version` by its default 0; `none` is the `IntegrityError` of the primary
key. -/
def insertRow (R : Rows ε κ P ι) (e : ε) (k : κ) (payload : P) (born : ι) :
    Option (Rows ε κ P ι) :=
  match R.get e k with
  | some _ => none
  | none => some (R.set e k { payload := payload, version := 0, born := born })

/-- `_UPDATE_ROW`, with the row count. -/
def updateRow (R : Rows ε κ P ι) (e : ε) (k : κ) (payload : P) : Rows ε κ P ι × Nat :=
  match R.get e k with
  | some row => (R.set e k { row with payload := payload, version := row.version + 1 }, 1)
  | none => (R, 0)

/-- `_UPDATE_ROW_VERSIONED`, with the row count. -/
def updateRowVersioned (R : Rows ε κ P ι) (e : ε) (k : κ) (payload : P) (version : Nat) :
    Rows ε κ P ι × Nat :=
  match R.get e k with
  | some row =>
    if row.version = version then
      (R.set e k { row with payload := payload, version := row.version + 1 }, 1)
    else (R, 0)
  | none => (R, 0)

/-- `_DELETE_ROW`, with the row count. -/
def deleteRow (R : Rows ε κ P ι) (e : ε) (k : κ) : Rows ε κ P ι × Nat :=
  match R.get e k with
  | some _ => (R.erase e k, 1)
  | none => (R, 0)

end Lnpl.Drivers.Sqlite

/-!
## What the sqlite statements leave in the table

One lookup lemma for each statement of `Lnpl.Drivers.Sqlite`.
-/

namespace Lnpl.Drivers.Sqlite

open Lnpl.Lib

variable {ε κ P ι : Type} [DecidableEq ε] [DecidableEq κ] [Ord κ] [Std.TransOrd κ]
  [Std.LawfulEqOrd κ]

/-- A row after an UPDATE. -/
def Row.updated (payload : P) (row : Row P ι) : Row P ι :=
  { row with payload := payload, version := row.version + 1 }

theorem get_insertRow {R R' : Rows ε κ P ι} {e : ε} {k : κ} {payload : P} {born : ι}
    (h : insertRow R e k payload born = some R') (e' : ε) (k' : κ) :
    R.get e k = none ∧ R'.get e' k' =
      if e' = e ∧ k' = k then some { payload := payload, version := 0, born := born }
      else R.get e' k' := by
  unfold insertRow at h
  split at h
  · cases h
  · rename_i hnone
    obtain rfl := Option.some.inj h
    exact ⟨hnone, Tables.get_set ..⟩

theorem get_updateRow (R : Rows ε κ P ι) (e e' : ε) (k k' : κ) (payload : P) :
    (updateRow R e k payload).1.get e' k' =
      if e' = e ∧ k' = k then (R.get e k).map (Row.updated payload) else R.get e' k' := by
  unfold updateRow
  split
  · rename_i row hrow
    simp [Tables.get_set, hrow, Row.updated]
  · rename_i hnone
    split_ifs with h
    · simp [h.1, h.2, hnone]
    · rfl

theorem get_deleteRow (R : Rows ε κ P ι) (e e' : ε) (k k' : κ) :
    (deleteRow R e k).1.get e' k' = if e' = e ∧ k' = k then none else R.get e' k' := by
  unfold deleteRow
  split
  · exact Tables.get_erase ..
  · rename_i hnone
    split_ifs with h
    · simp [h.1, h.2, hnone]
    · rfl

end Lnpl.Drivers.Sqlite
