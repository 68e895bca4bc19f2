import TensorVault.Engine.Filter
import TensorVault.Engine.Result
import TensorVault.Index.Manager

/-!
# Executing a SELECT

A query that asks for `col = literal` on an indexed column is answered from the index
(`tryIndexedLookup`), every other one by `execute_select`: by the dispatcher, which knows the common
shapes of queries, then the basic executor, and then the TPC-H interpreter. Aggregates, joins,
window functions and the interpreter are given by `Kernels`.
-/

namespace TensorVault

open Text Sql

/-- The parts of query execution that are not modelled. -/
structure Kernels where
  /-- `Date::from_str`, as the number of days since the epoch. -/
  parseDate : String → Option Int
  /-- The `Debug` text of an expression. -/
  debugExpr : Expr → String
  /-- `execute_shape` for aggregates other than COUNT, and for GROUP BY. -/
  shape : SelectQuery → Table → Outcome QueryResult
  /-- GROUP BY and aggregates in the basic executor. -/
  aggregate : SelectQuery → QueryExtensions → WhereClause → Table → Outcome QueryResult
  /-- `execute_with_join`. -/
  join : Catalog → SelectQuery → Outcome QueryResult
  /-- `apply_window_functions`. -/
  window : QueryResult → SelectQuery → Outcome QueryResult
  /-- `tpch::parse_and_execute`. -/
  tpch : Catalog → String → Outcome QueryResult

/-- Kernels that support nothing. -/
def Kernels.unsupported : Kernels where
  parseDate _ := none
  debugExpr _ := ""
  shape _ _ := .err (.other "unsupported")
  aggregate _ _ _ _ := .err (.other "unsupported")
  join _ _ := .err (.other "unsupported")
  window _ _ := .err (.other "unsupported")
  tpch _ _ := .err (.other "unsupported")

/-! ## Columns of a result -/

/-- The cells of a column in the given rows; a row the column does not have is an index out of
range. -/
def columnValues (t : Table) (c : Nat) (rows : List Nat) : Option (List UInt64) :=
  rows.mapM (t.cell c)

def columnTexts (t : Table) (c : Nat) (rows : List Nat) : Option (List String) :=
  (t.sidecar c).map fun texts => rows.map fun r => texts.getD r ""

/-- The NULL flags of a column in the given rows, if there is a NULL among them. -/
def columnNulls (t : Table) (c : Nat) (rows : List Nat) : Option (List Bool) :=
  if rows.any (t.isNull c) then some (rows.map (t.isNull c)) else none

def unknownColumn (name : String) : Error := .notFound ("column '" ++ name ++ "'")

/-- `resolve_col_name` with its error. -/
def resolveCol (t : Table) (name : String) : Outcome Nat :=
  match resolveColName t name with
  | some c => .ok c
  | none => .err (unknownColumn name)

/-- A column that is selected by its name. -/
def namedColumn (t : Table) (name : String) (rows : List Nat) : Outcome ResultColumn := do
  let c ← resolveCol t name
  let values ← Outcome.ofOption (columnValues t c rows)
  pure { name, values, stringValues := columnTexts t c rows, typeOid := 0,
         nullMask := columnNulls t c rows }

/-- The columns of `*`, without their texts. -/
def starColumns (t : Table) (rows : List Nat) : Option (List ResultColumn) :=
  t.columnNames.zipIdx.mapM fun p => do
    let values ← columnValues t p.2 rows
    pure { name := p.1, values, stringValues := none, typeOid := 0
           nullMask := columnNulls t p.2 rows }

def singleValue (name : String) (value : UInt64) : QueryResult where
  columns := [{ name, values := [value], stringValues := none, typeOid := 0, nullMask := none }]
  rowCount := 1

/-! ## The dispatcher -/

inductive QueryShape where
  | countAll
  | countFilter
  | sumCol
  | minMax
  | countDistinct
  | avgCol
  | groupByCount
  | groupBySum
  | groupByOrderByLimit
  | selectStar
  | selectColumn
  | selectMulti
  | complex
  deriving DecidableEq, Repr

def Sql.SelectItem.isAggregate : SelectItem → Bool
  | .aggregate .. => true
  | _ => false

def Sql.SelectItem.isExpression : SelectItem → Bool
  | .expression .. => true
  | _ => false

def Sql.SelectItem.isWindow : SelectItem → Bool
  | .window .. => true
  | _ => false

/-- The shape of a GROUP BY, which the first aggregate decides. -/
def groupShape (q : SelectQuery) : QueryShape :=
  match q.select.find? SelectItem.isAggregate with
  | some (.aggregate "COUNT" _ _) =>
    if !q.orderBy.isEmpty && q.limit.isSome then .groupByOrderByLimit else .groupByCount
  | some (.aggregate "SUM" _ _) => .groupBySum
  | _ => .complex

/-- The shape of a single aggregate. -/
def aggregateShape (func arg : String) (hasWhere : Bool) : QueryShape :=
  match func with
  | "COUNT" => if arg = "*" ∧ hasWhere = false then .countAll else .countFilter
  | "COUNT_DISTINCT" => .countDistinct
  | "SUM" => .sumCol
  | "AVG" => .avgCol
  | "MIN" | "MAX" => .minMax
  | _ => .complex

/-- `classify_query`. -/
def classifyQuery (H : Host) (q : SelectQuery) : QueryShape :=
  if !q.groupBy.isEmpty then groupShape q
  else
    match q.select with
    | [] => .complex
    | [.aggregate func arg _] => aggregateShape (H.toUppercase func) arg q.whereClause.isSome
    | [.star] => .selectStar
    | [.column _] => .selectColumn
    | [_] => .complex
    | items =>
      if items.any SelectItem.isAggregate || items.any SelectItem.isExpression then .complex
      else .selectMulti

/-- `expr_needs_tpch_fallback`. -/
def needsTpchFallback : Expr → Bool
  | .caseWhen .. | .extract .. | .cast .. => true
  | .binary left _ right => needsTpchFallback left || needsTpchFallback right
  | .function .. | .column _ | .literal _ => false

/-- The rows in the order of a column, by its texts if it has a sidecar. Sorting is stable. -/
def orderRows (t : Table) (c : Nat) (ascending : Bool) (rows : List Nat) : Option (List Nat) :=
  match t.sidecar c with
  | some texts => some (sortBy fun a b => decide (texts.getD a "" < texts.getD b ""))
  | none => (t.columns[c]?).map fun col => sortBy fun a b => decide (col.getD a 0 < col.getD b 0)
where
  sortBy (lt : Nat → Nat → Bool) : List Nat :=
    rows.mergeSort fun a b => if ascending then !lt b a else !lt a b

/-- The mask of the query. -/
def queryMask (H : Host) (q : SelectQuery) (t : Table) : Outcome (List Bool) :=
  Outcome.ofOption (buildFilterMask H t q.whereClause)

/-- The rows of a mask. -/
def maskRows (t : Table) (mask : List Bool) : Outcome (List Nat) :=
  Outcome.ofOption (selectedRows t.rowCount mask)

/-- The selected rows in the order of the first ORDER BY column, up to the limit. A column that is
not found is replaced by the one with the number `fallback`. -/
def orderedRows (q : SelectQuery) (t : Table) (fallback : Nat) (rows : List Nat) :
    Outcome (List Nat) := do
  let rows ← match q.orderBy with
    | [] => pure rows
    | (name, ascending) :: _ =>
      Outcome.ofOption (orderRows t ((resolveColName t name).getD fallback) ascending rows)
  pure (rows.take (q.limit.getD rows.length))

/-- The columns of one item of a list; numbers and window functions are left out. -/
def itemColumns (t : Table) (rows : List Nat) : SelectItem → Outcome (List ResultColumn)
  | .column name => do
    let col ← namedColumn t name rows
    pure [col]
  | .star => Outcome.ofOption (starColumns t rows)
  | _ => .ok []

/-- COUNT of the rows of a mask, without the NULLs if a column is counted. -/
def countMask (H : Host) (t : Table) (mask : List Bool) : List SelectItem → Nat
  | .aggregate func arg _ :: _ =>
    if H.toUppercase func = "COUNT" ∧ arg ≠ "*" then
      mask.zipIdx.countP fun p => p.1 && !t.isNull ((resolveColName t arg).getD 0) p.2
    else mask.count true
  | _ => mask.count true

/-- `execute_shape`. -/
def executeShape (H : Host) (K : Kernels) (shape : QueryShape) (q : SelectQuery) (t : Table) :
    Outcome QueryResult :=
  match shape with
  | .countAll => .ok (singleValue "count" (UInt64.ofNat t.rowCount))
  | .countFilter => do
    let mask ← queryMask H q t
    pure (singleValue "count" (UInt64.ofNat (countMask H t mask q.select)))
  | .selectStar => do
    let mask ← queryMask H q t
    let rows ← Outcome.ofOption (firstRows t.rowCount (q.limit.getD (mask.count true)) mask)
    let columns ← Outcome.ofOption (starColumns t rows)
    pure { columns, rowCount := rows.length }
  | .selectColumn => do
    let mask ← queryMask H q t
    match q.select with
    | [.column name] =>
      let c ← resolveCol t name
      let rows ← maskRows t mask
      let rows ← orderedRows q t c rows
      let col ← namedColumn t name rows
      pure { columns := [col], rowCount := rows.length }
    | _ => .err (.other "expected column")
  | .selectMulti => do
    let mask ← queryMask H q t
    let rows ← maskRows t mask
    let rows ← orderedRows q t 0 rows
    let columns ← q.select.mapM (itemColumns t rows)
    pure { columns := columns.flatten, rowCount := rows.length }
  | .complex => .err (.other "complex query not supported by dispatcher")
  | _ => K.shape q t

/-- `execute_dispatched`: `none` if the dispatcher does not take the query. -/
def executeDispatched (H : Host) (K : Kernels) (q : SelectQuery) (t : Table) :
    Option (Outcome QueryResult) :=
  let shape := classifyQuery H q
  if shape = .complex || q.whereClause.any needsTpchFallback || q.having.isSome then none
  else some (executeShape H K shape q t)

/-! ## The basic executor -/

/-- A column of the basic executor, which knows no NULL. -/
def bareColumn (t : Table) (name : String) (c : Nat) (texts : Option (List String))
    (rows : List Nat) : Outcome ResultColumn := do
  let values ← Outcome.ofOption (columnValues t c rows)
  pure { name, values, stringValues := texts, typeOid := 0, nullMask := none }

def columnByName (t : Table) (name : String) : Outcome Nat :=
  match t.columnIdx name with
  | some c => .ok c
  | none => .err (unknownColumn name)

def basicStar (t : Table) (rows : List Nat) : Outcome (List ResultColumn) :=
  t.columnNames.zipIdx.mapM fun p => bareColumn t p.1 p.2 none rows

/-- One item of `execute_select_multi`. -/
def basicItem (t : Table) (rows : List Nat) : SelectItem → Outcome (List ResultColumn)
  | .column name => do
    let c ← columnByName t name
    let col ← bareColumn t name c none rows
    pure [col]
  | .star => basicStar t rows
  | _ => .ok []

/-- `execute_select_star`, `execute_select_column` and `execute_select_multi`, and the queries that
have no rows to select. -/
def basicResult (H : Host) (K : Kernels) (ext : QueryExtensions) (q : SelectQuery) (w : WhereClause)
    (t : Table) : Outcome QueryResult :=
  let limited : Outcome (List Nat) := do
    let rows ← Outcome.ofOption (filterIndices H t w)
    pure (rows.take (q.limit.getD rows.length))
  if !q.groupBy.isEmpty then K.aggregate q ext w t
  else
    match q.select with
    | [] => .err (.other "empty SELECT list")
    | [.aggregate ..] => K.aggregate q ext w t
    | [.star] => do
      let rows ← limited
      let columns ← basicStar t rows
      pure { columns, rowCount := rows.length }
    | [.column name] => do
      let c ← columnByName t name
      let rows ← limited
      let col ← bareColumn t name c (columnTexts t c rows) rows
      pure { columns := [col], rowCount := rows.length }
    | [.literal v] => .ok (singleValue (toString v) v)
    | [.window ..] => .err (.other "internal: window item not stripped")
    | [.expression ..] => .err (.other "expression in SELECT — use tpch fallback")
    | items =>
      if items.any SelectItem.isAggregate then K.aggregate q ext w t
      else do
        let rows ← limited
        let columns ← items.mapM (basicItem t rows)
        pure { columns := columns.flatten, rowCount := rows.length }

/-- `apply_order_by`: the rows of the result by one of its columns; the texts and the NULL flags are
lost. -/
def applyOrderBy (qr : QueryResult) : List (String × Bool) → Outcome QueryResult
  | [] => .ok qr
  | (name, ascending) :: _ =>
    if qr.columns.isEmpty ∨ qr.rowCount ≤ 1 then .ok qr
    else
      match qr.columns.find? (·.name == name) with
      | none => .err (.notFound ("ORDER BY column '" ++ name ++ "'"))
      | some key => do
        let keys ← Outcome.ofOption ((List.range qr.rowCount).mapM fun i => key.values[i]?)
        let order := (List.range qr.rowCount).mergeSort fun a b =>
          if ascending then decide (keys.getD a 0 ≤ keys.getD b 0)
          else decide (keys.getD b 0 ≤ keys.getD a 0)
        let columns ← qr.columns.mapM fun c => do
          let values ← Outcome.ofOption (order.mapM fun i => c.values[i]?)
          pure { name := c.name, values, stringValues := none, typeOid := 0, nullMask := none }
        pure { columns, rowCount := qr.rowCount }

/-- The query without its window functions, which are applied to the result. -/
def stripWindows (q : SelectQuery) : SelectQuery :=
  if q.select.any SelectItem.isWindow then
    let rest := q.select.filter fun item => !item.isWindow
    { q with select := if rest.isEmpty then [.star] else rest }
  else q

/-- What `execute_select` does when the dispatcher has no result. -/
def executeBasic (H : Host) (K : Kernels) (ext : QueryExtensions) (q : SelectQuery) (t : Table) :
    Outcome QueryResult := do
  let w ← Outcome.ofExcept (parseWhere H K.debugExpr t q.whereClause)
  let q := stripWindows q
  let result ← basicResult H K ext q w t
  if q.groupBy.isEmpty then applyOrderBy result q.orderBy else pure result

/-! ## `execute_select` -/

/-- `execute_select`. Without joins the optimizer always has the dispatcher tried first, and an
error of it is not reported. -/
def executeSelect (H : Host) (K : Kernels) (cat : Catalog) (q : SelectQuery)
    (ext : QueryExtensions) : Outcome QueryResult :=
  if q.having.isSome then .err (.other "HAVING requires tpch fallback")
  else
    match cat.get q.source with
    | none => .err (.notFound ("table '" ++ q.source ++ "'"))
    | some t =>
      if !q.joins.isEmpty then K.join cat q
      else
        match executeDispatched H K q t with
        | some (.ok qr) => .ok qr
        | some .panic => .panic
        | _ => executeBasic H K ext q t

/-! ## The index lookup -/

/-- `extract_eq_predicate`. -/
def eqPredicate (H : Host) : Expr → Option (String × UInt64)
  | .binary left (.cmp .eq) right =>
    (columnAndLiteral left right).map fun p => (p.1, signedLiteralCell H p.2)
  | _ => none

/-- A column of the index lookup. A row the column does not have is the cell 0; a column the table
does not have is an index out of range, as soon as there is a row. -/
def indexedColumn (t : Table) (name : String) (c : Nat)
    (rows : List Nat) : Outcome ResultColumn := do
  let values ← Outcome.ofOption
    (rows.mapM fun r => (t.columns[c]?).map fun col => col.getD r 0)
  pure
    { name, values
      stringValues := columnTexts t c rows
      typeOid := 0
      nullMask := (t.bitmap c).map fun bm => rows.map (nullFlagAt (some bm)) }

/-- The columns of an item; `none` hands the query on to the other executors. -/
def indexedItem (t : Table) (rows : List Nat) : SelectItem → Option (Outcome (List ResultColumn))
  | .star => some (t.columnNames.zipIdx.mapM fun p => indexedColumn t p.1 p.2 rows)
  | .column name => some do
    let c ← columnByName t name
    let col ← indexedColumn t name c rows
    pure [col]
  | _ => none

/-- The items from the left, up to the first that fails or is not supported. -/
def indexedItems (t : Table) (rows : List Nat) :
    List SelectItem → Option (Outcome (List ResultColumn))
  | [] => some (.ok [])
  | item :: items =>
    match indexedItem t rows item with
    | none => none
    | some (.err e) => some (.err e)
    | some .panic => some .panic
    | some (.ok cols) =>
      (indexedItems t rows items).map fun rest => do
        let rest ← rest
        pure (cols ++ rest)

/-- `try_indexed_lookup`: `none` if the query is not for the index. -/
def tryIndexedLookup (H : Host) (cat : Catalog) (im : IndexManager) (q : SelectQuery) :
    Option (Outcome QueryResult) :=
  if !q.joins.isEmpty || !q.groupBy.isEmpty || q.having.isSome || !q.orderBy.isEmpty ||
    q.distinct then
    none
  else
    match q.whereClause.bind (eqPredicate H) with
    | none => none
    | some (col, cell) =>
      if !im.hasIndex q.source col then none
      else
        match cat.get q.source with
        | none => some (.err (.notFound ("table '" ++ q.source ++ "'")))
        | some t =>
          if (t.columnIdx col).isNone then none
          else
            let rows := (im.lookup q.source col cell).getD []
            let rows := rows.take (q.limit.getD rows.length)
            (indexedItems t rows q.select).map fun columns => do
              let columns ← columns
              pure { columns, rowCount := rows.length }

/-! ## The SELECT path -/

/-- The cells of a row of a result. -/
def QueryResult.row (qr : QueryResult) (r : Nat) : List UInt64 := qr.columns.map (·.values.getD r 0)

/-- `deduplicate_rows`: the first of the rows with the same cells. -/
def deduplicateRows (qr : QueryResult) : QueryResult :=
  let kept := (List.range qr.rowCount).filter fun r =>
    !(List.range r).any fun r' => qr.row r' == qr.row r
  if qr.rowCount ≤ 1 ∨ kept.length = qr.rowCount then qr
  else
    { columns := qr.columns.map fun c =>
        { c with
          values := kept.map fun r => c.values.getD r 0
          stringValues := c.stringValues.map fun texts => kept.map fun r => texts.getD r ""
          nullMask := c.nullMask.map fun mask => kept.map fun r => mask.getD r false }
      rowCount := kept.length }

/-- Window functions and DISTINCT, on the result of `execute_select`. -/
def postProcess (K : Kernels) (q : SelectQuery) (qr : QueryResult) : Outcome QueryResult := do
  let qr ← if q.select.any SelectItem.isWindow then K.window qr q else pure qr
  pure (if q.distinct then deduplicateRows qr else qr)

/-- The SELECT path of `execute_inner`. -/
def selectPath (H : Host) (K : Kernels) (cat : Catalog) (im : IndexManager) (sql : String) :
    Outcome QueryResult :=
  match parseWithExtensions H K.parseDate sql with
  | none => K.tpch cat sql
  | some (q, ext) =>
    match tryIndexedLookup H cat im q with
    | some r => r
    | none =>
      match executeSelect H K cat q ext with
      | .ok qr => postProcess K q qr
      | .panic => .panic
      | .err e =>
        match K.tpch cat sql with
        | .ok qr => .ok (if q.distinct then deduplicateRows qr else qr)
        | .err _ => .err e
        | .panic => .panic

end TensorVault
