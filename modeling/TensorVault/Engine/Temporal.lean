import TensorVault.Engine.Delete
import TensorVault.Engine.Result

/-!
# System-versioned tables

A table created `WITH (SYSTEM_VERSIONING = ON)` has a second copy of its rows beside the catalog:
the current rows, and a history of the rows they replaced. `FOR SYSTEM_TIME AS OF` reads only the
copy. Every change reads the clock, and the tick counts these reads.
-/

namespace TensorVault

open Sql

structure HistoryRow where
  values : List UInt64
  validFrom : UInt64
  validTo : UInt64
  deriving DecidableEq, Repr

structure TemporalTable where
  columnNames : List String
  currentRows : List (List UInt64 × UInt64)
  history : List HistoryRow
  lastModified : UInt64
  deriving DecidableEq, Repr

namespace TemporalTable

def new (columnNames : List String) (now : UInt64) : TemporalTable :=
  { columnNames, currentRows := [], history := [], lastModified := now }

def insert (t : TemporalTable) (now : UInt64) (values : List UInt64) : TemporalTable :=
  { t with currentRows := t.currentRows ++ [(values, now)], lastModified := now }

/-- Replace the first row with the key. -/
def updateRows (now pk : UInt64) (newValues : List UInt64) :
    List (List UInt64 × UInt64) → Option (List (List UInt64 × UInt64) × HistoryRow)
  | [] => none
  | (values, validFrom) :: rows =>
    if values.head? = some pk then
      some ((newValues, now) :: rows, { values, validFrom, validTo := now })
    else
      match updateRows now pk newValues rows with
      | some (rows', old) => some ((values, validFrom) :: rows', old)
      | none => none

def update (t : TemporalTable) (now pk : UInt64) (newValues : List UInt64) : TemporalTable :=
  match updateRows now pk newValues t.currentRows with
  | some (rows, old) =>
    { t with currentRows := rows, history := t.history ++ [old], lastModified := now }
  | none => t

def delete (t : TemporalTable) (now pk : UInt64) : TemporalTable :=
  let gone := t.currentRows.filter fun row => row.1.head? = some pk
  { t with
    currentRows := t.currentRows.filter fun row => !(row.1.head? = some pk)
    history := t.history ++ gone.map fun row =>
      { values := row.1, validFrom := row.2, validTo := now }
    lastModified := now }

def queryAsOf (t : TemporalTable) (timestamp : UInt64) : List (List UInt64) :=
  (t.currentRows.filter fun row => row.2 ≤ timestamp).map Prod.fst ++
    (t.history.filter fun h => h.validFrom ≤ timestamp && timestamp < h.validTo).map (·.values)

end TemporalTable

/-! ## Following DML -/

/-- The cells of a row, 0 where a column is too short. -/
def Table.rowCells (t : Table) (row : Nat) : List UInt64 := t.columns.map fun col => col.getD row 0

/-- The cell in the first column. -/
def Table.pk (t : Table) (row : Nat) : UInt64 := (t.rowCells row).headD 0

/-- The changes DML makes to the copy, in order. The rows of UPDATE are read after the table has
been changed, so their keys are already the new ones. -/
inductive TemporalChange where
  | insert (values : List UInt64)
  | update (pk : UInt64) (newValues : List UInt64)
  | delete (pk : UInt64)
  deriving DecidableEq, Repr

/-- The changes for a statement that took the catalog from `cat` to `cat'`. -/
def temporalChanges (H : Host) (cat cat' : Catalog) : DmlStatement → List TemporalChange
  | .insert ins =>
    match cat'.get ins.table with
    | some t => (List.range ins.values.length).map fun i =>
        .insert (t.rowCells (t.rowCount - ins.values.length + i))
    | none => []
  | .update upd =>
    match cat.get upd.table, cat'.get upd.table with
    | some t, some t' =>
      match matchMask H t upd.whereClause with
      | .ok mask => (matchedRows mask).map fun r => .update (t'.pk r) (t'.rowCells r)
      | _ => []
    | _, _ => []
  | .delete del =>
    match cat.get del.table with
    | some t =>
      match matchMask H t del.whereClause with
      | .ok mask => (matchedRows mask).map fun r => .delete (t.pk r)
      | _ => []
    | none => []

def TemporalTable.apply (t : TemporalTable) (now : UInt64) : TemporalChange → TemporalTable
  | .insert values => t.insert now values
  | .update pk newValues => t.update now pk newValues
  | .delete pk => t.delete now pk

/-- Apply the changes, each at the next tick. -/
def applyChanges (H : Host) : Nat → TemporalTable → List TemporalChange → TemporalTable × Nat
  | tick, t, [] => (t, tick)
  | tick, t, c :: cs => applyChanges H (tick + 1) (t.apply (H.now tick) c) cs

end TensorVault
