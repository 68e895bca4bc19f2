import TensorVault.Basic

/-!
# Tokens and statements

The token type of `sql/lexer.rs` and the statement types of `sql/ddl.rs` and `sql/dml.rs`.
Values, assignments and `WHERE` clauses of DML stay text in the parsed statement; the engine
interprets them when it runs the statement.
-/

namespace TensorVault.Sql

/-- A SQL token. A float carries its bit pattern. -/
inductive Token where
  | keyword (k : String)
  | ident (s : String)
  | int (n : Int)
  | float (bits : UInt64)
  | string (s : String)
  | hex (bytes : List UInt8)
  | op (s : String)
  | lparen
  | rparen
  | comma
  | semicolon
  | eof
  deriving DecidableEq, Repr

/-! ## DDL -/

inductive ColumnType where
  | int
  | bigInt
  | smallInt
  | tinyInt
  | varchar (n : Option Nat)
  | nvarchar (n : Option Nat)
  | text
  | float
  | real
  | decimal (p s : Option Nat)
  | numeric (p s : Option Nat)
  | boolean
  | bit
  | date
  | timestamp
  | json
  | array (elem : ColumnType)
  | uuid
  | bytea
  | enum (values : List String)
  deriving DecidableEq, Repr

structure ColumnDef where
  name : String
  colType : ColumnType
  notNull : Bool
  primaryKey : Bool
  default : Option String
  identity : Bool
  references : Option (String × String)
  deriving DecidableEq, Repr

structure CreateTable where
  schema : String
  name : String
  columns : List ColumnDef
  ifNotExists : Bool
  deriving DecidableEq, Repr

structure DropTable where
  schema : String
  name : String
  ifExists : Bool
  deriving DecidableEq, Repr

inductive AlterAction where
  | addColumn (col : ColumnDef)
  | dropColumn (name : String)
  | alterColumnType (column : String) (newType : ColumnType)
  deriving DecidableEq, Repr

structure AlterTable where
  schema : String
  name : String
  action : AlterAction
  deriving DecidableEq, Repr

structure CreateIndex where
  indexName : String
  table : String
  column : String
  ifNotExists : Bool
  deriving DecidableEq, Repr

structure DropIndex where
  indexName : String
  ifExists : Bool
  deriving DecidableEq, Repr

inductive DdlStatement where
  | create (ct : CreateTable)
  | drop (dt : DropTable)
  | createSchema (name : String)
  | alterTable (at_ : AlterTable)
  | createIndex (ci : CreateIndex)
  | dropIndex (di : DropIndex)
  deriving DecidableEq, Repr

/-- The catalog key of a table: `dbo` is the default schema and leaves no trace in it. -/
def fullName (schema name : String) : String :=
  if schema = "dbo" then name else schema ++ "." ++ name

/-! ## DML -/

structure Insert where
  table : String
  columns : Option (List String)
  values : List (List String)
  deriving DecidableEq, Repr

structure Update where
  table : String
  assignments : List (String × String)
  whereClause : Option String
  deriving DecidableEq, Repr

structure Delete where
  table : String
  whereClause : Option String
  deriving DecidableEq, Repr

inductive DmlStatement where
  | insert (ins : Insert)
  | update (upd : Update)
  | delete (del : Delete)
  deriving DecidableEq, Repr

/-- The table a DML statement writes. -/
def DmlStatement.table : DmlStatement → String
  | .insert ins => ins.table
  | .update upd => upd.table
  | .delete del => del.table

end TensorVault.Sql

/-! ## Comparison operators -/

namespace TensorVault

inductive CmpOp where
  | eq
  | ne
  | lt
  | gt
  | le
  | ge
  deriving DecidableEq, Repr

/-- The comparison operators as they are written. -/
def CmpOp.ofText : String → Option CmpOp
  | "=" => some .eq
  | "!=" => some .ne
  | "<>" => some .ne
  | "<" => some .lt
  | ">" => some .gt
  | "<=" => some .le
  | ">=" => some .ge
  | _ => none

end TensorVault
