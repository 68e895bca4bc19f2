import TensorVault.Engine.Frontend
import TensorVault.Engine.Temporal
import TensorVault.Storage.Recovery

/-!
# The state of an engine

What `QueryEngine` holds between two statements, and the operations that `execute` is put together
from. The log is the list of its records; what a file of them gives back is `Wal.readAll_take`.
Writing to it is taken to succeed, and the buffer pool is left out: no statement writes to it.
-/

namespace TensorVault

open Text Sql

structure Transaction where
  id : UInt64
  snapshot : Catalog

structure TxnManager where
  nextId : UInt64
  active : Option Transaction

structure QueryEngine where
  catalog : Catalog
  txnManager : TxnManager
  /-- `none` if the engine has no log. -/
  wal : Option (List WalRecord)
  indexManager : IndexManager
  /-- In the order in which the map is iterated. -/
  views : List ViewDef
  procedures : List ProcedureDef
  temporals : String → Option TemporalTable
  savepoints : List (String × Catalog)
  /-- How often the clock and the file system have been asked. -/
  tick : Nat

/-- The end of a call: the engine and the result, or `none` if the process ends in it. -/
abbrev Reply := Option (QueryEngine × Except Error QueryResult)

namespace QueryEngine

/-- `QueryEngine::new`. -/
def new : QueryEngine where
  catalog := Store.new.catalog
  txnManager := { nextId := 1, active := none }
  wal := none
  indexManager := IndexManager.new
  views := []
  procedures := []
  temporals := fun _ => none
  savepoints := []
  tick := 0

def reply (e : QueryEngine) (qr : QueryResult) : Reply := some (e, .ok qr)

def fail (e : QueryEngine) (err : Error) : Reply := some (e, .error err)

/-! ## The log -/

/-- `wal_append_record`. -/
def walAppendRecord (e : QueryEngine) (r : WalRecord) : QueryEngine :=
  { e with wal := e.wal.map (· ++ [r]) }

/-- The record of a statement: inside the transaction, or autocommitted. -/
def statementRecord (sql : String) : Option UInt64 → WalRecord
  | some id => .txnDml id sql
  | none => .autocommit sql

/-- `wal_append_txn`. -/
def walAppendTxn (e : QueryEngine) (sql : String) (txnId : Option UInt64) : QueryEngine :=
  e.walAppendRecord (statementRecord sql txnId)

/-! ## Transactions -/

def alreadyActive : Error :=
  .other "a transaction is already active (nested transactions not supported)"

def executeBegin (e : QueryEngine) : Reply :=
  match e.txnManager.active with
  | some _ => e.fail alreadyActive
  | none =>
    let id := e.txnManager.nextId
    reply (walAppendRecord
      { e with txnManager :=
          { nextId := id + 1, active := some { id, snapshot := e.catalog.cloneCatalog } } }
      (.beginTxn id)) .empty

def executeCommit (e : QueryEngine) : Reply :=
  match e.txnManager.active with
  | none => e.fail (.other "no active transaction to commit")
  | some txn =>
    reply (walAppendRecord
      { e with
        catalog := txn.snapshot
        txnManager := { e.txnManager with active := none }
        savepoints := [] }
      (.commit txn.id)) .empty

def executeRollback (e : QueryEngine) : Reply :=
  match e.txnManager.active with
  | none => e.fail (.other "no active transaction to rollback")
  | some txn =>
    reply (walAppendRecord
      { e with txnManager := { e.txnManager with active := none }, savepoints := [] }
      (.rollback txn.id)) .empty

/-- `execute_vacuum`: the pages are flushed and the log is truncated. -/
def executeVacuum (e : QueryEngine) : Reply :=
  reply { e with wal := e.wal.map fun _ => [] } .empty

/-! ## Savepoints -/

def executeSavepoint (e : QueryEngine) (name : String) : Reply :=
  reply { e with savepoints := e.savepoints ++ [(name, e.catalog.cloneCatalog)] } .empty

/-- `rposition` of the savepoint. -/
def savepointPos (e : QueryEngine) (name : String) : Option Nat :=
  ((List.range e.savepoints.length).filter fun i =>
    (e.savepoints[i]?).any (·.1 = name)).getLast?

def savepointNotFound (name : String) : Error := .notFound ("savepoint '" ++ name ++ "'")

def executeRollbackTo (e : QueryEngine) (name : String) : Reply :=
  match e.savepointPos name with
  | none => e.fail (savepointNotFound name)
  | some pos =>
    match e.savepoints[pos]? with
    | none => none
    | some (_, snapshot) =>
      reply { e with
        catalog := snapshot.cloneCatalog
        savepoints := e.savepoints.take (pos + 1) } .empty

def executeReleaseSavepoint (e : QueryEngine) (name : String) : Reply :=
  match e.savepointPos name with
  | none => e.fail (savepointNotFound name)
  | some pos => reply { e with savepoints := e.savepoints.take pos } .empty

/-! ## Views and procedures -/

/-- `ViewRegistry::create`; a view of the name is replaced. -/
def createView (e : QueryEngine) (v : ViewDef) : QueryEngine :=
  { e with views := e.views.filter (·.name ≠ v.name) ++ [v] }

def dropView (e : QueryEngine) (name : String) : QueryEngine :=
  { e with views := e.views.filter (·.name ≠ name) }

def createProcedure (e : QueryEngine) (p : ProcedureDef) : QueryEngine :=
  { e with procedures := e.procedures.filter (·.name ≠ p.name) ++ [p] }

/-- The views a text mentions behind FROM. -/
def mentionedViews (H : Host) (e : QueryEngine) (sql : String) : List ViewDef :=
  e.views.filter fun v => contains (H.toLowercase sql) ("from " ++ H.toLowercase v.name)

/-- `substitute_proc_params`: `@1`, `@2`, … one after the other. -/
def substituteProcParams (body : String) (args : List String) : String :=
  args.zipIdx.foldl (fun text p => replace text ("@" ++ toString (p.2 + 1)) p.1) body

/-- The statements of a procedure body. -/
def bodyStatements (body : String) : List String :=
  ((splitOn ';' body.toList).filter fun part => !(trimChars part).isEmpty).map String.ofList

/-! ## DDL, DML and MERGE -/

/-- A table that was created system-versioned gets an empty copy. -/
def registerTemporal (H : Host) (e : QueryEngine) (name : String) : QueryEngine :=
  match e.catalog.get name with
  | none => e
  | some t =>
    { e with
      temporals := fun key =>
        if key = name then some (.new t.columnNames (H.now e.tick)) else e.temporals key
      tick := e.tick + 1 }

def executeDdlStmt (H : Host) (e : QueryEngine) (sql : String) (txnId : Option UInt64)
    (d : DdlStatement) (temporal : Option (Option String)) : Reply :=
  match executeDdl H e.catalog e.indexManager d with
  | .err err => e.fail err
  | .panic => none
  | .ok (cat, im) =>
    let e' := { e with catalog := cat, indexManager := im }
    match temporal with
    | some (some name) => reply ((registerTemporal H e' name).walAppendTxn sql txnId) .empty
    | some none => reply (e'.walAppendTxn sql txnId) .empty
    | none => none

/-- Carry a statement over to the copy of a system-versioned table. -/
def syncTemporal (H : Host) (e : QueryEngine) (before : Catalog) (d : DmlStatement) : QueryEngine :=
  match e.temporals d.table with
  | none => e
  | some copy =>
    let (copy', tick) := applyChanges H e.tick copy (temporalChanges H before e.catalog d)
    { e with
      temporals := fun key => if key = d.table then some copy' else e.temporals key
      tick := tick }

def executeDmlStmt (H : Host) (e : QueryEngine) (sql : String) (txnId : Option UInt64)
    (d : DmlStatement) : Reply :=
  match executeDml H e.catalog d with
  | .err err => e.fail err
  | .panic => none
  | .ok (cat, n) =>
    reply ((syncTemporal H { e with catalog := cat } e.catalog d).walAppendTxn sql txnId)
      (.affected n)

/-- `execute_merge_stmt`; a MERGE is not logged. -/
def executeMergeReply (H : Host) (e : QueryEngine) (m : Merge) : Reply :=
  match executeMergeStmt H e.catalog m with
  | .err err => e.fail err
  | .panic => none
  | .ok (cat, n) => reply { e with catalog := cat } (.affected n)

end QueryEngine

end TensorVault
