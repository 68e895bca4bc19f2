import TensorVault.Engine.Result
import TensorVault.Tpch.Value

/-!
# Tables of the TPC-H interpreter

An `ExecTable` is a table while a query runs. Its columns are found by a map from names to
positions, in which a column stands under its own name and qualified by the alias and by the name of
its table. A table of the catalog has NULL bitmaps; an `ExecTable` has none.

The source keeps the map as a `HashMap`; here it is a list of entries in which the first one with a
name counts. So an entry behind the others is inserted only if the name is free, and one before the
others overwrites them.
-/

namespace TensorVault.Tpch

open Text

structure ExecTable where
  columns : List (List UInt64)
  columnNames : List String
  colTypes : List ColType
  stringColumns : List (Option (List String))
  rowCount : Nat
  colMap : List (String × Nat)
  deriving DecidableEq, Repr

/-! ## Column types -/

/-- `tpch_col_types`, with the schemas of `tpch_schema`. -/
def tpchColTypes : String → List ColType
  | "customer" => [.int, .string, .string, .int, .string, .float, .string, .string]
  | "lineitem" => [.int, .int, .int, .int, .float, .float, .float, .float, .string, .string, .date,
      .date, .date, .string, .string, .string]
  | "nation" => [.int, .string, .int, .string]
  | "orders" => [.int, .int, .string, .float, .date, .string, .string, .int, .string]
  | "part" => [.int, .string, .string, .string, .string, .int, .string, .float, .string]
  | "partsupp" => [.int, .int, .int, .float, .string]
  | "region" => [.int, .string, .string]
  | "supplier" => [.int, .string, .string, .int, .string, .float, .string]
  | _ => []

def colTypeOf : Sql.ColumnType → ColType
  | .date | .timestamp => .date
  | ty => if isFloatType ty then .float else if isStringType ty then .string else .int

/-- The types of a table: those of a TPC-H table by its name, else those of its schema. -/
def tableColTypes (t : Table) : List ColType :=
  match tpchColTypes t.name with
  | [] => t.columnNames.mapIdx fun i _ =>
    match t.schema.bind fun s => s.columns[i]? with
    | some c => colTypeOf c.colType
    | none => .int
  | types => types

namespace ExecTable

/-! ## Names -/

def qualified (H : Host) (qualifier name : String) : String :=
  H.toLowercase qualifier ++ "." ++ H.toLowercase name

/-- The names of a column of a table of the catalog. -/
def columnKeys (H : Host) (tableName asName name : String) : List String :=
  H.toLowercase name :: qualified H asName name ::
    if asName ≠ tableName then [qualified H tableName name] else []

/-- `from_catalog`. -/
def fromCatalog (H : Host) (t : Table) (asName : String) : ExecTable where
  columns := t.columns
  columnNames := t.columnNames
  colTypes := tableColTypes t
  stringColumns := t.stringColumns
  rowCount := t.rowCount
  colMap := t.columnNames.zipIdx.flatMap fun p =>
    (columnKeys H t.name asName p.1).map fun key => (key, p.2)

/-- `lookup_col`: the name as it is, or in lower case. -/
def lookupCol (H : Host) (t : ExecTable) (name : String) : Option Nat :=
  match t.colMap.lookup name with
  | some idx => some idx
  | none => t.colMap.lookup (H.toLowercase name)

/-- The part of a name behind its last dot. -/
def shortName (name : String) : Option String :=
  (rfindBytes ['.'] name.toList).bind fun n =>
    (dropBytes (n + 1) name.toList).map String.ofList

/-- The part of a name before its first dot. -/
def qualifier (name : String) : Option String :=
  if name.toList.contains '.' then some (String.ofList (name.toList.takeWhile (· != '.'))) else none

/-- A column by its full name, or else by the part behind the last dot. -/
def lookupShort (H : Host) (t : ExecTable) (name : String) : Option Nat :=
  match t.lookupCol H name with
  | some idx => some idx
  | none => (shortName name).bind (t.lookupCol H)

/-- `col_in`. -/
def colIn (H : Host) (t : ExecTable) : Expr2 → Option Nat
  | .col name => t.lookupCol H name
  | _ => none

/-! ## Cells -/

/-- The cell of a column in a row; what is not there is 0. -/
def cell (t : ExecTable) (c r : Nat) : UInt64 := (t.columns.getD c []).getD r 0

/-- The cells of a row. -/
def row (t : ExecTable) (r : Nat) : List UInt64 := t.columns.map (·.getD r 0)

/-- The text of a cell, if its column has a sidecar that reaches this far. -/
def text? (t : ExecTable) (c r : Nat) : Option String := ((t.stringColumns[c]?).join).bind (·[r]?)

/-- A cell as a value. A string without a text is its hash. -/
def value (t : ExecTable) (ty : ColType) (c r : Nat) : Value2 :=
  match ty with
  | .int => .int (signedOf (t.cell c r))
  | .float => .float (t.cell c r)
  | .date => .date (signed32 (t.cell c r))
  | .string =>
    match t.text? c r with
    | some s => .str s
    | none => .int (signedOf (t.cell c r))

/-! ## Building tables -/

/-- A table of the given rows, which have one cell per column. The sidecars are lost. -/
def ofRows (H : Host) (left right : ExecTable) (rows : List (List UInt64)) : ExecTable where
  columns := (List.range (left.columns.length + right.columns.length)).map fun c =>
    rows.map fun r => r.getD c 0
  columnNames := left.columnNames ++ right.columnNames
  colTypes := left.colTypes ++ right.colTypes
  stringColumns := List.replicate (left.columns.length + right.columns.length) none
  rowCount := rows.length
  -- the right names overwrite the left ones, and both the bare names of the columns
  colMap := right.colMap.map (fun p => (p.1, p.2 + left.columns.length)) ++ left.colMap ++
    (left.columnNames ++ right.columnNames).zipIdx.map fun p => (H.toLowercase p.1, p.2)

/-- `cross_join`. An empty side leaves no names. -/
def crossJoin (H : Host) (left right : ExecTable) : ExecTable :=
  if left.rowCount = 0 ∨ right.rowCount = 0 then
    { columns := (left.columns ++ right.columns).map fun _ => []
      columnNames := left.columnNames ++ right.columnNames
      colTypes := left.colTypes ++ right.colTypes
      stringColumns := left.stringColumns ++ right.stringColumns
      rowCount := 0
      colMap := [] }
  else
    ofRows H left right ((List.range left.rowCount).flatMap fun l =>
      (List.range right.rowCount).map fun r => left.row l ++ right.row r)

/-- `filter_table`. -/
def filterTable (t : ExecTable) (indices : List Nat) : ExecTable :=
  { t with
    columns := t.columns.map fun col => indices.map fun i => col.getD i 0
    stringColumns := t.stringColumns.map fun sc => sc.map fun texts =>
      indices.map fun i => texts.getD i ""
    rowCount := indices.length }

/-! ## Results as tables -/

/-- `infer_result_type`. -/
def inferResultType (H : Host) (name : String) (values : List UInt64) : ColType :=
  let l := H.toLowercase name
  let texts := ["n_name", "supp_nation", "cust_nation", "nation", "s_name", "c_name", "p_mfgr",
    "p_brand", "p_type", "p_container", "l_returnflag", "l_linestatus", "l_shipmode",
    "l_shipinstruct", "o_orderpriority", "o_orderstatus", "cntrycode"]
  let numbers := ["year", "count", "custdist", "partkey", "suppkey", "custkey", "nationkey",
    "regionkey", "numwait", "numcust", "supplier_cnt", "availqty", "size"]
  let sample := (values.take 16).filter (· != 0)
  -- between 1e-3 and 1e20
  let likelyFloat (v : UInt64) : Bool := Binary64.isNormal v &&
    !Binary64.lt (Binary64.abs v) 0x3F50624DD2F1A9FC &&
    !Binary64.lt 0x4415AF1D78B58C40 (Binary64.abs v)
  if contains l "date" then .date
  else if l ∈ texts then .string
  else if numbers.any (contains l) || l == "supplier_no" then .int
  else if !sample.isEmpty && sample.all (fun v => decide (v.toNat < 2 ^ 32)) &&
      !sample.any likelyFloat then .int
  else .float

/-- `result_to_exec_table`. -/
def ofResult (H : Host) (qr : QueryResult) (asName : String) : ExecTable where
  columns := qr.columns.map ResultColumn.values
  columnNames := qr.columns.map ResultColumn.name
  colTypes := qr.columns.map fun c => inferResultType H c.name c.values
  stringColumns := qr.columns.map fun _ => none
  rowCount := qr.rowCount
  colMap := qr.columns.zipIdx.flatMap fun p =>
    [(H.toLowercase p.1.name, p.2), (qualified H asName p.1.name, p.2)]

end ExecTable

end TensorVault.Tpch
