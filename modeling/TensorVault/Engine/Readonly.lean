import TensorVault.Engine.Commit

/-!
# Statements that leave the catalog alone

`try_readonly_select` looks at the main catalog, also while a transaction is open; its errors send
the text on to `execute`. Two kinds of statement are sure not to change the main catalog there:
those that only read, and those that are turned away.
-/

namespace TensorVault

open Text Sql

namespace QueryEngine

/-- `try_readonly_select`. What `parse_with_extensions` and `execute_select` make of a text on a
catalog is given by `scan`; an error of either asks for the write lock. -/
def tryReadonlySelect (H : Host) (F : Frontend) (scan : Catalog → String → Outcome QueryResult)
    (e : QueryEngine) (sql : String) : Outcome QueryResult :=
  let lower := H.toLowercase (trim sql)
  if !startsWith lower "select" && !startsWith lower "with" then
    .err (.other "not a readonly query")
  else
    match parseDdl H sql with
    | .error msg => .err (.parse msg)
    | .ok (some _) => .err (.other "DDL requires write lock")
    | .ok none =>
      match parseDml H sql with
      | .error msg => .err (.parse msg)
      | .ok (some _) => .err (.other "DML requires write lock")
      | .ok none =>
        if startsWith (H.toUppercase (String.ofList (sql.toList.dropWhile isWhitespace))) "WITH "
        then
          -- the clause is parsed, and then the result is not used
          match F.withClause sql with
          | .panic => .panic
          | _ => .err (.other "CTE requires write lock")
        else scan e.catalog sql

/-- The read-only path has nothing to say about a text that begins otherwise. -/
theorem tryReadonlySelect_of_not_select {H : Host} {sql : String}
    (h : startsWith (H.toLowercase (trim sql)) "select" = false ∧
      startsWith (H.toLowercase (trim sql)) "with" = false) {F : Frontend}
    {scan : Catalog → String → Outcome QueryResult} {e : QueryEngine} :
    e.tryReadonlySelect H F scan sql = .err (.other "not a readonly query") := by
  simp [tryReadonlySelect, h.1, h.2]

/-! ## Inside and outside a transaction -/

/-- The engine a statement runs on. -/
def working (e : QueryEngine) : QueryEngine :=
  match e.txnManager.active with
  | some txn => e.entered txn
  | none => e

theorem working_idle (e : QueryEngine) : e.working.txnManager.active = none := by
  unfold working
  split
  · rfl
  · assumption

section Routed

variable {e : QueryEngine} {sql : String} {inner : QueryEngine → String → Option UInt64 → Reply}

/-- What runs inside a transaction and changes nothing changes nothing. -/
theorem leave_entered {txn : Transaction} (h : e.txnManager.active = some txn) :
    { e.entered txn with
      catalog := e.catalog
      txnManager :=
        { (e.entered txn).txnManager with
          active := some { id := txn.id, snapshot := (e.entered txn).catalog } } } = e := by
  obtain ⟨catalog, ⟨nextId, active⟩, wal, im, views, procedures, temporals, savepoints, tick⟩ := e
  cases h
  rfl

theorem executeRouted_keeps (h : ∀ i, (inner e.working sql i).Keeps e.working) :
    (executeRouted inner e sql).Keeps e := by
  unfold working at h
  unfold executeRouted
  cases hactive : e.txnManager.active with
  | none =>
    rw [hactive] at h
    exact h none
  | some txn =>
    simp only [hactive] at h
    intro e' r hreply
    simp only at hreply
    split at hreply
    · cases hreply
    · next u res hinner =>
      have hu : u = e.entered txn := h _ u res hinner
      subst hu
      cases hreply
      exact leave_entered hactive

theorem executeRouted_rejects
    (h : ∀ i, ∃ err, inner e.working sql i = some (e.working, .error err)) :
    ∃ err, executeRouted inner e sql = some (e, .error err) := by
  unfold working at h
  unfold executeRouted
  cases hactive : e.txnManager.active with
  | none =>
    rw [hactive] at h
    exact h none
  | some txn =>
    simp only [hactive] at h
    obtain ⟨err, hinner⟩ := h (some txn.id)
    have hentered : inner { e with
        catalog := txn.snapshot, txnManager := { e.txnManager with active := none } } sql
        (some txn.id) = some (e.entered txn, .error err) := hinner
    simp only [hentered]
    exact ⟨err, congrArg some (Prod.ext (leave_entered hactive) rfl)⟩

end Routed

/-! ## Statements that only read -/

section

variable (H : Host) (F : Frontend) (n : Nat) (e : QueryEngine) (sql : String)

/-- A statement that does not change the main catalog: it only reads, or it writes to somewhere
else. -/
@[irreducible] def LeavesCatalog : Prop :=
  match outerRoute H sql with
  | .analyze rest => e.txnManager.active = none ∧ ReadText H F e n rest
  | .copy text =>
    ∀ table path content, copyPlan H text = .from_ table path →
      H.readFile e.tick path = some content → copyStatements H table content = []
  | .commit => e.txnManager.active = none
  | .inner => ReadText H F e.working n sql
  | _ => True

/-- A text that cannot be parsed, or an INSERT, UPDATE or DELETE on a table that is not there. -/
def RejectedKind (cat : Catalog) : Kind → Prop
  | .fail _ => True
  | .dml d => cat.get d.table = none
  | _ => False

/-- A statement that `execute` turns away. -/
def Rejected : Prop :=
  outerRoute H sql = .inner ∧ ∃ asOf kind, innerRoute H F sql = .statement asOf kind ∧
    e.asOfRows asOf = none ∧ RejectedKind e.workingCatalog kind

end

section Execute

variable {r : Except Error QueryResult} {H : Host} {F : Frontend} {n : Nat} {e e' : QueryEngine}
  {sql : String}

theorem LeavesCatalog.catalog_eq (h : LeavesCatalog H F n e sql)
    (hreply : execute H F n e sql = some (e', r)) : e'.catalog = e.catalog := by
  unfold LeavesCatalog at h
  unfold execute executeStep at hreply
  split at hreply <;> rename_i hroute <;> simp only [hroute] at h
  · rw [executeExplain_keeps e' r hreply]
  · have hkeeps := (executeInner_keeps h.1 n h.2 none).andThen
      (k := fun u qr => u.reply { qr with columns := qr.columns ++ [analyzeColumn H u] })
      fun _ => Reply.keeps_reply
    rw [hkeeps e' r hreply]
  · cases hreply
    rfl
  · obtain ⟨tick, rfl⟩ := executeCopy_idle h hreply
    rfl
  · cases hreply
    rfl
  · unfold executeBegin at hreply
    split at hreply <;> cases hreply <;> rfl
  · simp only [executeCommit, h] at hreply
    cases hreply
    rfl
  · unfold executeRollback at hreply
    split at hreply <;> cases hreply <;> rfl
  · have hkeeps := executeRouted_keeps fun i => executeInner_keeps e.working_idle n h i
    rw [hkeeps e' r hreply]
  · cases hreply

theorem leavesCatalog_of_begin_or_rollback
    (h : outerRoute H sql = .beginTxn ∨ outerRoute H sql = .rollback) :
    LeavesCatalog H F n e sql := by
  unfold LeavesCatalog
  rcases h with h | h <;> rw [h] <;> trivial

/-- COMMIT and ROLLBACK leave no transaction open. -/
theorem execute_ends_idle (h : outerRoute H sql = .commit ∨ outerRoute H sql = .rollback)
    (hreply : execute H F n e sql = some (e', r)) : e'.txnManager.active = none := by
  unfold execute executeStep at hreply
  rcases h with h | h
  · simp only [h, executeCommit] at hreply
    split at hreply <;> cases hreply
    · assumption
    · rfl
  · simp only [h, executeRollback] at hreply
    split at hreply <;> cases hreply
    · assumption
    · rfl

/-- COMMIT is refused outside a transaction. -/
theorem active_of_commit (h : outerRoute H sql = .commit)
    (hreply : execute H F n e sql = some (e', r)) (hok : r.isOk = true) :
    e.txnManager.active.isSome = true := by
  simp only [execute, executeStep, h, executeCommit] at hreply
  split at hreply
  · cases hreply
    cases hok
  · next hactive =>
    rw [hactive]
    rfl

theorem executeInner_rejects {asOf : Option (String × UInt64)} {kind : Kind}
    (hroute : innerRoute H F sql = .statement asOf kind) (hasOf : e.asOfRows asOf = none)
    (hkind : RejectedKind e.catalog kind) (i : Option UInt64) :
    ∃ err, executeInner H F n e sql i = some (e, .error err) := by
  have hstep : ∀ exec inner, ∃ err,
      executeInnerStep H F exec inner e sql i = some (e, .error err) := by
    intro exec inner
    rw [executeInnerStep, hroute]
    simp only [hasOf]
    cases kind with
    | fail err => exact ⟨err, rfl⟩
    | dml d =>
      have hmissing : e.catalog.get d.table = none := hkind
      have hdml : ∃ err, executeDml H e.catalog d = .err err := by
        cases d with
        | insert ins => exact ⟨_, by simp only [executeDml, executeInsert, show
            e.catalog.get ins.table = none from hmissing]; rfl⟩
        | update upd => exact ⟨_, by simp only [executeDml, executeUpdate, show
            e.catalog.get upd.table = none from hmissing]; rfl⟩
        | delete del => exact ⟨_, by simp only [executeDml, executeDelete, show
            e.catalog.get del.table = none from hmissing]; rfl⟩
      obtain ⟨err, herr⟩ := hdml
      refine ⟨err, ?_⟩
      simp only [executeKind, executeDmlStmt, herr]
      rfl
    | withClause | createView | dropView | createProcedure | exec | merge | unionAll | pivot
    | jsonValue | ddl | select | abort => exact hkind.elim
  cases n with
  | zero | succ => exact hstep _ _

theorem Rejected.execute_eq (h : Rejected H F e sql) :
    ∃ err, execute H F n e sql = some (e, .error err) := by
  obtain ⟨houter, asOf, kind, hroute, hasOf, hkind⟩ := h
  simp only [execute, executeStep, houter]
  refine executeRouted_rejects fun i => executeInner_rejects hroute ?_ ?_ i
  · have htemporals : e.working.temporals = e.temporals := by
      unfold working
      split <;> rfl
    unfold asOfRows at hasOf ⊢
    rwa [htemporals]
  · have hcatalog : e.working.catalog = e.workingCatalog := by
      unfold working workingCatalog
      split <;> simp_all [entered]
    rwa [hcatalog]

end Execute

end QueryEngine

end TensorVault
