import TensorVault.Engine.QueryEngine

/-!
# Executing a statement text

`execute` handles transaction control and maintenance, and routes everything else to
`execute_inner`, inside a transaction with the snapshot in the place of the catalog.

The recursion goes as deep as the texts ask for, so it is cut off at a depth: `executeInner n` is
`execute_inner` on a stack with room for `n` further calls, and a call that needs more ends the
process like a panic does.
-/

namespace TensorVault

open Text Sql

/-- The `?` operator: go on with the result, or return the error with the state as it is. -/
def Reply.andThen (r : Reply) (k : QueryEngine → QueryResult → Reply) : Reply :=
  match r with
  | some (e, .ok qr) => k e qr
  | some (e, .error err) => some (e, .error err)
  | none => none

namespace QueryEngine

/-! ## Compound statements -/

section

variable (inner : QueryEngine → String → Option UInt64 → Reply)

/-- The recursive part of a common table expression, at most `n` times. -/
def runRecursive (txnId : Option UInt64) (name sql : String) : Nat → QueryEngine → Reply
  | 0, e => e.reply .empty
  | n + 1, e =>
    (inner e sql txnId).andThen fun e qr =>
      match e.catalog.get name with
      | none =>
        if computeNewRows (resultToTable name .empty) qr = 0 then e.reply .empty
        else e.fail (.notFound ("CTE table \"" ++ name ++ "\""))
      | some t =>
        if computeNewRows t qr = 0 then e.reply .empty
        else runRecursive txnId name sql n
          { e with catalog := e.catalog.register (appendResultRows t qr) }

/-- The common table expressions, each registered as a table under its name. -/
def runCtes (txnId : Option UInt64) (maxIter : Nat) : List CteDef → QueryEngine → Reply
  | [], e => e.reply .empty
  | cte :: ctes, e =>
    (inner e cte.anchor txnId).andThen fun e qr =>
      let e := { e with catalog := e.catalog.register (resultToTable cte.name qr) }
      match cte.recursive with
      | none => runCtes txnId maxIter ctes e
      | some sql =>
        (runRecursive inner txnId cte.name sql maxIter e).andThen fun e _ =>
          runCtes txnId maxIter ctes e

/-- `execute_with`. The temporary tables are dropped only if the outer query succeeds. -/
def executeWith (txnId : Option UInt64) (e : QueryEngine) (w : WithClause) : Reply :=
  let maxIter := if w.maxRecursion = 0 then 100000 else w.maxRecursion
  (runCtes inner txnId maxIter w.ctes e).andThen fun e _ =>
    (inner e w.outerQuery txnId).andThen fun e qr =>
      reply { e with catalog := w.ctes.foldl (fun cat cte => cat.drop cte.name) e.catalog } qr

def executeUnionAll (txnId : Option UInt64) (e : QueryEngine) (left right : String) : Reply :=
  (inner e left txnId).andThen fun e l =>
    (inner e right txnId).andThen fun e r => e.reply (concatenateResults l r)

/-- PIVOT and JSON_VALUE: execute the rewritten text and work on its result. -/
def executeRewritten (txnId : Option UInt64) (e : QueryEngine) (sql : String)
    (post : QueryResult → QueryResult) : Reply :=
  (inner e sql txnId).andThen fun e qr => e.reply (post qr)

/-- `materialize_views_in_sql`: a view that fails is skipped, with what it did until then. -/
def materializeViews : List ViewDef → QueryEngine → Option QueryEngine
  | [], e => some e
  | v :: vs, e =>
    match inner e v.selectSql none with
    | none => none
    | some (e, .ok qr) =>
      materializeViews vs { e with catalog := e.catalog.register (resultToTable v.name qr) }
    | some (e, .error _) => materializeViews vs e

def executeSelectText (H : Host) (F : Frontend) (e : QueryEngine) (sql : String) : Reply :=
  match materializeViews inner (e.mentionedViews H sql) e with
  | none => none
  | some e =>
    match F.select e.catalog e.indexManager sql with
    | .ok qr => e.reply qr
    | .err err => e.fail err
    | .panic => none

end

/-- The statements of a procedure body, up to the first that fails. -/
def runBody (exec : QueryEngine → String → Reply) : List String → QueryResult → QueryEngine → Reply
  | [], last, e => e.reply last
  | sql :: rest, _, e => (exec e sql).andThen fun e qr => runBody exec rest qr e

def executeExec (exec : QueryEngine → String → Reply) (e : QueryEngine) (name : String)
    (args : List String) : Reply :=
  match e.procedures.find? (·.name = name) with
  | none => e.fail (.notFound ("procedure \"" ++ name ++ "\""))
  | some p => runBody exec (bodyStatements (substituteProcParams p.body args)) .empty e

/-! ## `execute_inner` -/

section

variable (H : Host) (F : Frontend) (exec : QueryEngine → String → Reply)
  (inner : QueryEngine → String → Option UInt64 → Reply)

def executeKind (e : QueryEngine) (sql : String) (txnId : Option UInt64) : Kind → Reply
  | .withClause w => executeWith inner txnId e w
  | .createView v => (e.createView v).reply .empty
  | .dropView name => (e.dropView name).reply .empty
  | .createProcedure p => (e.createProcedure p).reply .empty
  | .exec name args => executeExec exec e name args
  | .merge m => executeMergeReply H e m
  | .unionAll left right => executeUnionAll inner txnId e left right
  | .pivot stripped post => executeRewritten inner txnId e stripped post
  | .jsonValue rewritten post => executeRewritten inner txnId e rewritten post
  | .ddl d temporal => executeDdlStmt H e sql txnId d temporal
  | .dml d => executeDmlStmt H e sql txnId d
  | .select => executeSelectText inner H F e sql
  | .fail err => e.fail err
  | .abort => none

/-- The rows of an AS OF query, if its table is system-versioned. -/
def asOfRows (e : QueryEngine) (asOf : Option (String × UInt64)) : Option QueryResult :=
  asOf.bind fun (name, timestamp) =>
    (e.temporals name).map fun copy =>
      rowsToQueryResult (copy.queryAsOf timestamp) copy.columnNames

def executeInnerStep (e : QueryEngine) (sql : String) (txnId : Option UInt64) : Reply :=
  match innerRoute H F sql with
  | .savepoint name => e.executeSavepoint name
  | .rollbackTo name => e.executeRollbackTo name
  | .release name => e.executeReleaseSavepoint name
  | .statement asOf kind =>
    match e.asOfRows asOf with
    | some qr => e.reply qr
    | none => executeKind H F exec inner e sql txnId kind
  | .abort => none

/-! ## `execute` -/

/-- `COPY` taken apart. -/
inductive CopyPlan where
  | to (table path : String)
  | from_ (table path : String)
  | fail (e : Error)
  deriving DecidableEq, Repr

def copyPlan (sql : String) : CopyPlan :=
  match splitWhitespace sql.toList with
  | _ :: table :: direction :: path :: _ =>
    let path := String.ofList (trimMatches (fun c => c = '\'' || c = '"') path)
    let direction := H.toUppercase (String.ofList direction)
    if direction = "TO" then .to (String.ofList table) path
    else if direction = "FROM" then .from_ (String.ofList table) path
    else .fail (.other ("COPY direction must be TO or FROM, got: " ++ direction))
  | _ => .fail (.other "COPY requires: COPY <table> TO|FROM 'file'")

/-- The INSERT for a line of a CSV file: numbers as they are, everything else in quotes. -/
def copyInsert (table : String) (line : List Char) : String :=
  let value (part : List Char) : String :=
    let v := String.ofList (trimChars part)
    if (parseI64 v).isSome || (H.parseF64 v).isSome then v else "'" ++ v ++ "'"
  "INSERT INTO " ++ table ++ " VALUES (" ++
    String.intercalate ", " ((splitOn ',' line).map value) ++ ")"

/-- The INSERT statements for a CSV file; the first line is the header. -/
def copyStatements (table content : String) : List String :=
  ((Text.lines content.toList).drop 1).filterMap fun line =>
    if (trimChars line).isEmpty then none else some (copyInsert H table line)

def copyRows : List String → Nat → QueryEngine → Reply
  | [], count, e => e.reply (.affected count)
  | sql :: rest, count, e => (inner e sql none).andThen fun e _ => copyRows rest (count + 1) e

/-- `execute_copy`; the operating system's part of an I/O message is left out. -/
def executeCopy (e : QueryEngine) (sql : String) : Reply :=
  match copyPlan H sql with
  | .fail err => e.fail err
  | .to table path =>
    match e.catalog.get table with
    | none => e.fail (.notFound ("table '" ++ table ++ "'"))
    | some t =>
      let e' := { e with tick := e.tick + 1 }
      if H.canWrite e.tick path then e'.reply (.affected t.rowCount)
      else e'.fail (.other "write: ")
  | .from_ table path =>
    let e' := { e with tick := e.tick + 1 }
    match H.readFile e.tick path with
    | none => e'.fail (.other "read: ")
    | some content =>
      if (Text.lines content.toList).isEmpty then e'.fail (.other "CSV file is empty")
      else copyRows inner (copyStatements H table content) 0 e'

def executeExplain (e : QueryEngine) (sql : String) : Reply :=
  match F.explain e.catalog sql with
  | .ok qr => e.reply qr
  | .error err => e.fail err

/-- The column ANALYZE adds to the result. -/
def analyzeColumn (e : QueryEngine) : ResultColumn where
  name := "execution_time_ms"
  values := [(H.elapsed e.tick).1]
  stringValues := some [(H.elapsed e.tick).2]
  typeOid := 701
  nullMask := none

def executeAnalyze (e : QueryEngine) (sql : String) : Reply :=
  (inner e sql none).andThen fun e qr =>
    e.reply { qr with columns := qr.columns ++ [analyzeColumn H e] }

/-- Inside a transaction the snapshot stands in the place of the catalog, and no transaction is
active for what the statement itself executes. -/
def executeRouted (e : QueryEngine) (sql : String) : Reply :=
  match e.txnManager.active with
  | none => inner e sql none
  | some txn =>
    let inside :=
      { e with catalog := txn.snapshot, txnManager := { e.txnManager with active := none } }
    match inner inside sql (some txn.id) with
    | none => none
    | some (e', r) =>
      some ({ e' with
        catalog := e.catalog
        txnManager :=
          { e'.txnManager with active := some { id := txn.id, snapshot := e'.catalog } } }, r)

def executeStep (e : QueryEngine) (sql : String) : Reply :=
  match outerRoute H sql with
  | .explain rest => executeExplain F e rest
  | .analyze rest => executeAnalyze H inner e rest
  | .vacuum => e.executeVacuum
  | .copy text => executeCopy H inner e text
  | .checkpoint => e.reply .empty
  | .beginTxn => e.executeBegin
  | .commit => e.executeCommit
  | .rollback => e.executeRollback
  | .inner => executeRouted inner e sql
  | .abort => none

end

/-! ## The recursion -/

/-- `execute_inner` with room for `n` further calls. -/
def executeInner (H : Host) (F : Frontend) : Nat → QueryEngine → String → Option UInt64 → Reply
  | 0 => executeInnerStep H F (fun _ _ => none) (fun _ _ _ => none)
  | n + 1 => executeInnerStep H F (executeStep H F (executeInner H F n)) (executeInner H F n)

/-- At any depth `execute_inner` is one call of its body. -/
theorem executeInner_eq_step (H : Host) (F : Frontend) (n : Nat) :
    ∃ exec inner, executeInner H F n = executeInnerStep H F exec inner := by
  cases n <;> exact ⟨_, _, rfl⟩

/-- `QueryEngine::execute`. -/
def execute (H : Host) (F : Frontend) (n : Nat) : QueryEngine → String → Reply :=
  executeStep H F (executeInner H F n)

end QueryEngine

/-! ## Replies that leave the engine as it is -/

namespace Reply

/-- Whatever the reply is, the engine is `e`. -/
def Keeps (e : QueryEngine) (x : Reply) : Prop := ∀ e' r, x = some (e', r) → e' = e

variable {e : QueryEngine} {x : Reply} {k : QueryEngine → QueryResult → Reply}

theorem keeps_none : Keeps e none := fun _ _ h => by cases h

theorem keeps_some {r : Except Error QueryResult} : Keeps e (some (e, r)) := by
  intro e' r' h
  cases h
  rfl

theorem keeps_reply {qr : QueryResult} : Keeps e (e.reply qr) := keeps_some

theorem keeps_fail {err : Error} : Keeps e (e.fail err) := keeps_some

theorem Keeps.andThen (hx : x.Keeps e) (hk : ∀ qr, (k e qr).Keeps e) : (x.andThen k).Keeps e := by
  intro e' r h
  cases x with
  | none => cases h
  | some p =>
    obtain ⟨u, res⟩ := p
    have hu : u = e := hx u res rfl
    subst hu
    cases res with
    | ok qr => exact hk qr e' r h
    | error err =>
      cases h
      rfl

end Reply

namespace QueryEngine

section Reading

variable {H : Host} {F : Frontend} {e : QueryEngine} {exec : QueryEngine → String → Reply}
  {inner : QueryEngine → String → Option UInt64 → Reply} {sql : String}

theorem executeSelectText_viewless (hviews : e.mentionedViews H sql = []) :
    executeSelectText inner H F e sql =
      match F.select e.catalog e.indexManager sql with
      | .ok qr => e.reply qr
      | .err err => e.fail err
      | .panic => none := by
  rw [executeSelectText, hviews]
  rfl

theorem executeSelectText_keeps (hviews : e.mentionedViews H sql = []) :
    (executeSelectText inner H F e sql).Keeps e := by
  rw [executeSelectText_viewless hviews]
  split
  · exact Reply.keeps_reply
  · exact Reply.keeps_fail
  · exact Reply.keeps_none

theorem runBody_keeps {body : List String} (hbody : ∀ sql ∈ body, (exec e sql).Keeps e)
    (last : QueryResult) : (runBody exec body last e).Keeps e := by
  induction body generalizing last with
  | nil => exact Reply.keeps_reply
  | cons sql body ih =>
    refine (hbody sql List.mem_cons_self).andThen fun qr => ?_
    exact ih (List.forall_mem_cons.mp hbody).2 qr

/-- A SELECT without views, and a text that is refused, leave the engine as it is. -/
theorem executeInner_idle
    (h : (∃ asOf, innerRoute H F sql = .statement asOf .select ∧ e.mentionedViews H sql = []) ∨
      ∃ asOf err, innerRoute H F sql = .statement asOf (.fail err)) {n : Nat} {i : Option UInt64} :
    (executeInner H F n e sql i).Keeps e := by
  obtain ⟨exec, inner, hstep⟩ := executeInner_eq_step H F n
  rw [hstep, executeInnerStep]
  rcases h with ⟨asOf, hroute, hviews⟩ | ⟨asOf, err, hroute⟩
  · rw [hroute]
    simp only
    split
    · exact Reply.keeps_reply
    · exact executeSelectText_keeps hviews
  · rw [hroute]
    simp only
    split
    · exact Reply.keeps_reply
    · exact Reply.keeps_fail

theorem executeAnalyze_idle
    (h : (∃ asOf, innerRoute H F sql = .statement asOf .select ∧ e.mentionedViews H sql = []) ∨
      ∃ asOf err, innerRoute H F sql = .statement asOf (.fail err)) {n : Nat} :
    (executeAnalyze H (executeInner H F n) e sql).Keeps e :=
  (executeInner_idle h).andThen fun _ => Reply.keeps_reply

theorem executeExplain_keeps : (executeExplain F e sql).Keeps e := by
  unfold executeExplain
  split
  · exact Reply.keeps_reply
  · exact Reply.keeps_fail

/-- COPY where there is nothing to insert only moves the clock. -/
theorem executeCopy_idle (hcopy : ∀ table path content, copyPlan H sql = .from_ table path →
      H.readFile e.tick path = some content → copyStatements H table content = [])
    {e' : QueryEngine} {r : Except Error QueryResult}
    (hreply : executeCopy H inner e sql = some (e', r)) : ∃ tick, e' = { e with tick } := by
  unfold executeCopy at hreply
  split at hreply
  · cases hreply
    exact ⟨_, rfl⟩
  · split at hreply
    · cases hreply
      exact ⟨_, rfl⟩
    · split at hreply <;> cases hreply <;> exact ⟨_, rfl⟩
  · next table path hplan =>
    simp only at hreply
    split at hreply
    · cases hreply
      exact ⟨_, rfl⟩
    · next content hcontent =>
      rw [hcopy table path content hplan hcontent] at hreply
      split at hreply <;> cases hreply <;> exact ⟨_, rfl⟩

end Reading

end QueryEngine

end TensorVault
