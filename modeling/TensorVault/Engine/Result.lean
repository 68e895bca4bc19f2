import TensorVault.Table.Basic

/-!
# Query results

`QueryResult` of `engine/result.rs`, without the elapsed time. Tables are turned into results
and back by MERGE, by common table expressions and by views; on the way back the sidecars, the
NULL bitmaps and the schema are lost.
-/

namespace TensorVault

structure ResultColumn where
  name : String
  values : List UInt64
  stringValues : Option (List String)
  typeOid : Nat
  nullMask : Option (List Bool)
  deriving DecidableEq, Repr

/-- Values, strings and NULL mask have one entry per row. -/
structure ResultColumn.Exact (c : ResultColumn) (n : Nat) : Prop where
  values : c.values.length = n
  texts : ∀ ts, c.stringValues = some ts → ts.length = n
  flags : ∀ fs, c.nullMask = some fs → fs.length = n

/-- What a column of a result shows in a row; NULL is `none`. -/
def ResultColumn.entry (c : ResultColumn) (r : Nat) : Option UInt64 :=
  if nullFlagAt c.nullMask r then none else some (c.values.getD r 0)

structure QueryResult where
  columns : List ResultColumn
  rowCount : Nat
  deriving DecidableEq, Repr

namespace QueryResult

def empty : QueryResult := { columns := [], rowCount := 0 }

/-- A result without columns that reports a number of rows. -/
def affected (n : Nat) : QueryResult := { columns := [], rowCount := n }

end QueryResult

/-- `rows_to_query_result`: missing cells are 0. -/
def rowsToQueryResult (rows : List (List UInt64)) (columnNames : List String) : QueryResult where
  columns := columnNames.mapIdx fun i name =>
    { name, values := rows.map fun r => r.getD i 0, stringValues := none, typeOid := 0,
      nullMask := none }
  rowCount := rows.length

/-- `concatenate_results`: the columns of the left result, extended by the right one's. -/
def concatenateResults (left right : QueryResult) : QueryResult where
  columns := left.columns.mapIdx fun i c =>
    match right.columns[i]? with
    | none => c
    | some r =>
      { c with
        values := c.values ++ r.values
        stringValues := c.stringValues.map fun texts =>
          texts ++ r.stringValues.getD (List.replicate right.rowCount "") }
  rowCount := left.rowCount + right.rowCount

/-- `compute_new_rows`: how many rows of a result the table does not have yet. -/
def computeNewRows (t : Table) (qr : QueryResult) : Nat :=
  let sameRow (r u : Nat) : Bool := qr.columns.zipIdx.all fun p =>
    p.1.values.getD r 0 == ((t.columns[p.2]?).bind fun col => col[u]?).getD 0
  (List.range qr.rowCount).countP fun r => !(List.range t.rowCount).any (sameRow r)

/-- `append_result_rows`. -/
def appendResultRows (t : Table) (qr : QueryResult) : Table :=
  { t with
    columns := t.columns.mapIdx fun i col => col ++ ((qr.columns[i]?).map (·.values)).getD []
    rowCount := t.rowCount + qr.rowCount }

/-- `table_to_query_result`: a name without a column is an index out of range. -/
def tableToQueryResult (t : Table) : Option QueryResult :=
  if t.columnNames.length ≤ t.columns.length then
    some
      { columns := (t.columnNames.zip t.columns).map fun p =>
          { name := p.1, values := p.2, stringValues := none, typeOid := 0, nullMask := none }
        rowCount := t.rowCount }
  else none

/-- `query_result_to_table`: no sidecars, no bitmaps, no schema. -/
def queryResultToTable (name : String) (qr : QueryResult) : Table :=
  { name := name
    columns := qr.columns.map ResultColumn.values
    columnNames := qr.columns.map ResultColumn.name
    rowCount := qr.rowCount
    stringColumns := []
    nullBitmaps := []
    schema := none }

/-- `result_to_table`, the variant for common table expressions. -/
def resultToTable (name : String) (qr : QueryResult) : Table :=
  { name := name
    columns := qr.columns.map ResultColumn.values
    columnNames := qr.columns.map ResultColumn.name
    rowCount := qr.rowCount
    stringColumns := List.replicate qr.columns.length none
    nullBitmaps := []
    schema := none }

end TensorVault
