import TensorVault.Engine.Statement

/-!
# Routing a statement text

`execute` and `execute_inner` decide by the first words, by a phrase anywhere in the text, and
finally by the DDL and DML parsers; the tests are modelled in the order they are made (`outerRoute`,
`innerRoute`). What the special parsers make of a text that passed their test is given by a
`Frontend`. Slicing at a byte offset may panic; for parsers that return no error this is an outer
`none`.
-/

namespace TensorVault

open Text Sql

structure CteDef where
  name : String
  anchor : String
  recursive : Option String
  deriving DecidableEq, Repr

structure WithClause where
  ctes : List CteDef
  outerQuery : String
  maxRecursion : Nat
  deriving DecidableEq, Repr

structure ViewDef where
  name : String
  selectSql : String
  deriving DecidableEq, Repr

structure ProcedureDef where
  name : String
  body : String
  deriving DecidableEq, Repr

/-- The parsers behind the tests, and the read-only execution of SELECT and EXPLAIN. -/
structure Frontend where
  /-- `parse_for_system_time`: the table and the timestamp. -/
  forSystemTime : String → Option (Option (String × UInt64))
  /-- `parse_with_inner`. -/
  withClause : String → Outcome WithClause
  /-- `parse_create_view_inner`. -/
  createView : String → Outcome ViewDef
  /-- `parse_drop_view`: the name. -/
  dropView : String → Outcome String
  /-- `parse_create_procedure_inner`. -/
  createProcedure : String → Outcome ProcedureDef
  /-- `parse_exec_inner`: the name and the arguments. -/
  execCall : String → Outcome (String × List String)
  /-- `parse_merge`. -/
  merge : String → Option (Option Merge)
  /-- `split_union_all`. -/
  unionAll : String → Option (Option (String × String))
  /-- `parse_pivot_clause` and `strip_pivot_clause`: the text without the clause, and
  `apply_pivot` for it. -/
  pivot : String → Option (Option (String × (QueryResult → QueryResult)))
  /-- `extract_json_value_calls`: the text with bare columns, and what is made of the result. -/
  jsonValue : String → Option (String × (QueryResult → QueryResult))
  /-- `extract_temporal_table_name`. -/
  temporalTableName : String → Option (Option String)
  /-- `execute_explain`. -/
  explain : Catalog → String → Except Error QueryResult
  /-- The SELECT path: parser, index lookup, scan and the TPC-H interpreter behind them. -/
  select : Catalog → IndexManager → String → Outcome QueryResult

/-! ## `execute` -/

inductive OuterRoute where
  | explain (sql : String)
  | analyze (sql : String)
  | vacuum
  | copy (sql : String)
  | checkpoint
  | beginTxn
  | commit
  | rollback
  | inner
  /-- A slice of the text panics. -/
  | abort
  deriving DecidableEq, Repr

/-- The text behind a keyword of `n` bytes. -/
def restAfter (n : Nat) (sql : String) : Option String :=
  (dropBytes n (trimChars sql.toList)).map String.ofList

def outerRoute (H : Host) (sql : String) : OuterRoute :=
  let lower := H.toLowercase (trim sql)
  if startsWith lower "explain " then
    match restAfter 8 sql with
    | some rest => .explain rest
    | none => .abort
  else if startsWith lower "analyze " then
    match restAfter 8 sql with
    | some rest => .analyze rest
    | none => .abort
  else if startsWith lower "vacuum" then .vacuum
  else if startsWith lower "copy " then .copy (trim sql)
  else if startsWith lower "checkpoint" then .checkpoint
  else if startsWith lower "begin" || startsWith lower "start transaction" then .beginTxn
  else if startsWith lower "commit" then .commit
  else if startsWith lower "rollback" && !startsWith lower "rollback to " then .rollback
  else .inner

/-! ## `execute_inner` -/

/-- What a text is once it is known not to be about savepoints or an AS OF query. -/
inductive Kind where
  | withClause (w : WithClause)
  | createView (v : ViewDef)
  | dropView (name : String)
  | createProcedure (p : ProcedureDef)
  | exec (name : String) (args : List String)
  | merge (m : Merge)
  | unionAll (left right : String)
  | pivot (stripped : String) (post : QueryResult → QueryResult)
  | jsonValue (rewritten : String) (post : QueryResult → QueryResult)
  | ddl (d : DdlStatement) (temporal : Option (Option String))
  | dml (d : DmlStatement)
  | select
  | fail (e : Error)
  | abort

/-- The outcome of a parser as a kind of statement. -/
def Kind.ofOutcome {α : Type} (x : Outcome α) (f : α → Kind) : Kind :=
  match x with
  | .ok a => f a
  | .err e => .fail e
  | .panic => .abort

def Kind.ofOption {α : Type} (x : Option α) (f : α → Kind) : Kind :=
  match x with
  | some a => f a
  | none => .abort

/-- The last two tries: DDL, then DML, and what is neither is taken for a SELECT. -/
def tableKind (H : Host) (F : Frontend) (sql : String) : Kind :=
  match parseDdl H sql with
  | .error e => .fail (.parse e)
  | .ok (some d) =>
    .ddl d (if contains (H.toLowercase sql) "system_versioning" then F.temporalTableName sql
      else some none)
  | .ok none =>
    match parseDml H sql with
    | .error e => .fail (.parse e)
    | .ok (some d) => .dml d
    | .ok none => .select

/-- The clauses that are looked for anywhere in the text. -/
def clauseKind (H : Host) (F : Frontend) (sql : String) : Kind :=
  let lower := H.toLowercase sql
  let union := if contains lower "union all" then F.unionAll sql else some none
  let pivot := if contains lower "pivot " then F.pivot sql else some none
  .ofOption union fun
    | some (left, right) => .unionAll left right
    | none => .ofOption pivot fun
      | some (stripped, post) => .pivot stripped post
      | none =>
        if contains lower "json_value(" || contains lower "json_query(" then
          .ofOption (F.jsonValue sql) fun (rewritten, post) => .jsonValue rewritten post
        else tableKind H F sql

def kindOf (H : Host) (F : Frontend) (sql : String) : Kind :=
  let upper := H.toUppercase (trim sql)
  if startsWith (H.toUppercase (String.ofList (sql.toList.dropWhile isWhitespace))) "WITH " then
    .ofOutcome (F.withClause sql) .withClause
  else if startsWith upper "CREATE VIEW " || startsWith upper "CREATE OR ALTER VIEW " then
    .ofOutcome (F.createView sql) .createView
  else if startsWith upper "DROP VIEW " then .ofOutcome (F.dropView sql) .dropView
  else if startsWith upper "CREATE PROCEDURE " || startsWith upper "CREATE OR ALTER PROCEDURE " ||
      startsWith upper "CREATE FUNCTION " || startsWith upper "CREATE OR ALTER FUNCTION " then
    .ofOutcome (F.createProcedure sql) .createProcedure
  else if startsWith upper "EXEC " || startsWith upper "EXECUTE " then
    .ofOutcome (F.execCall sql) fun (name, args) => .exec name args
  else if startsWith upper "MERGE " then
    .ofOption (F.merge sql) fun
      | some m => .merge m
      | none => clauseKind H F sql
  else clauseKind H F sql

inductive InnerRoute where
  | savepoint (name : String)
  | rollbackTo (name : String)
  | release (name : String)
  /-- `asOf` is the table and timestamp of a `FOR SYSTEM_TIME AS OF` clause; it only counts if
  the table is system-versioned. -/
  | statement (asOf : Option (String × UInt64)) (kind : Kind)
  | abort

/-- The name behind SAVEPOINT, ROLLBACK TO or RELEASE. -/
def nameRoute (n : Nat) (sql : String) (f : String → InnerRoute) : InnerRoute :=
  match restAfter n sql with
  | some rest => f (trim rest)
  | none => .abort

def innerRoute (H : Host) (F : Frontend) (sql : String) : InnerRoute :=
  let lower := H.toLowercase (trim sql)
  if startsWith lower "savepoint " then nameRoute 10 sql .savepoint
  else if startsWith lower "rollback to " then nameRoute 12 sql .rollbackTo
  else if startsWith lower "release " then nameRoute 8 sql .release
  else
    match (if contains (H.toLowercase sql) "for system_time as of" then F.forSystemTime sql
      else some none) with
    | some asOf => .statement asOf (kindOf H F sql)
    | none => .abort

/-- A frontend for runs that never get past its tests. -/
def Frontend.closed : Frontend where
  forSystemTime _ := none
  withClause _ := .panic
  createView _ := .panic
  dropView _ := .panic
  createProcedure _ := .panic
  execCall _ := .panic
  merge _ := none
  unionAll _ := none
  pivot _ := none
  jsonValue _ := none
  temporalTableName _ := none
  explain _ sql := .error (.parse sql)
  select _ _ _ := .panic

end TensorVault
