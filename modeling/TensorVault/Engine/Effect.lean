import TensorVault.Engine.Execute

/-!
# What table statements do to the catalog

A DDL or DML statement changes the catalog in a way that depends neither on the indexes nor on the
system-versioned copies nor on the transaction it runs in. `Statement.effect` is this change; a
statement that fails has none.
-/

namespace TensorVault

variable {H : Host} {F : Frontend} {sql : String}

open Text Sql

/-! ## The effect of a statement -/

/-- The catalog after a call with the given outcome: a failed one leaves it as it is, and a panic
ends the process. -/
def catalogAfter {β : Type} (cat : Catalog) : Outcome (Catalog × β) → Option Catalog
  | .ok p => some p.1
  | .err _ => some cat
  | .panic => none

/-- A DDL or DML statement. -/
inductive TableStatement where
  | ddl (d : DdlStatement)
  | dml (d : DmlStatement)
  deriving DecidableEq, Repr

variable {s : TableStatement} {cat : Catalog} {α : Type} {f : α → Kind} {im : IndexManager}

/-- The catalog after the statement. The indexes make no difference to it. -/
def TableStatement.effect (H : Host) (cat : Catalog) : TableStatement → Option Catalog
  | .ddl d => catalogAfter cat (executeDdl H cat IndexManager.new d)
  | .dml d => catalogAfter cat (executeDml H cat d)

/-- The indexes after a statement on this catalog. -/
def TableStatement.indexEffect (H : Host) (cat : Catalog) (im : IndexManager) :
    TableStatement → IndexManager
  | .ddl d =>
    match executeDdl H cat im d with
    | .ok (_, im') => im'
    | _ => im
  | .dml _ => im

/-- The table statement of a text, if `execute_inner` takes it for one whatever its state is. -/
def tableStatement (H : Host) (F : Frontend) (sql : String) : Option TableStatement :=
  match innerRoute H F sql with
  | .statement none (.ddl d (some _)) => some (.ddl d)
  | .statement none (.dml d) => some (.dml d)
  | _ => none

/-- The effect of a text; texts that are no table statements have none. -/
def textEffect (H : Host) (F : Frontend) (cat : Catalog) (sql : String) : Option Catalog :=
  match tableStatement H F sql with
  | some s => s.effect H cat
  | none => some cat

theorem textEffect_of (h : tableStatement H F sql = some s) :
    textEffect H F cat sql = s.effect H cat := by
  rw [textEffect, h]

/-- The kinds that come from the DDL and DML parsers. -/
def Kind.isTable : Kind → Bool
  | .ddl _ _ => true
  | .dml _ => true
  | _ => false

/-- A kind is no table statement, or it is what the DDL and DML parsers found. -/
def FromTables (H : Host) (F : Frontend) (sql : String) (k : Kind) : Prop :=
  k.isTable = true → tableKind H F sql = k

theorem FromTables.ofOutcome {x : Outcome α}
    (h : ∀ a, FromTables H F sql (f a)) : FromTables H F sql (.ofOutcome x f) := by
  cases x with
  | ok a => exact h a
  | err | panic => intro hk; cases hk

theorem FromTables.ofOption {x : Option α}
    (h : ∀ a, FromTables H F sql (f a)) : FromTables H F sql (.ofOption x f) := by
  cases x with
  | some a => exact h a
  | none => intro hk; cases hk

theorem fromTables_clauseKind : FromTables H F sql (clauseKind H F sql) := by
  unfold clauseKind
  refine .ofOption fun a => ?_
  split
  · intro hk; cases hk
  · refine .ofOption fun a => ?_
    split
    · intro hk; cases hk
    · split
      · exact .ofOption fun _ hk => by cases hk
      · exact fun _ => rfl

theorem fromTables_kindOf (H : Host) (F : Frontend) (sql : String) :
    FromTables H F sql (kindOf H F sql) := by
  unfold kindOf
  simp only
  -- the five statements with parsers of their own
  iterate 5
    split
    · exact .ofOutcome fun _ hk => by cases hk
  split
  · refine .ofOption fun a => ?_
    split
    · intro hk; cases hk
    · exact fromTables_clauseKind
  · exact fromTables_clauseKind

/-- The kind behind a statement route. -/
theorem kindOf_of_innerRoute {asOf : Option (String × UInt64)} {k : Kind}
    (h : innerRoute H F sql = .statement asOf k) : kindOf H F sql = k := by
  have hname : ∀ n f, (∀ name, f name ≠ .statement asOf k) →
      nameRoute n sql f ≠ .statement asOf k := by
    intro n f hf
    unfold nameRoute
    split
    · exact hf _
    · simp
  unfold innerRoute at h
  simp only at h
  iterate 3
    split at h
    · exact absurd h (hname _ _ (by simp))
  split at h
  · cases h
    rfl
  · cases h

/-- A table statement is one to the DDL or the DML parser. -/
theorem isTable_of_tableStatement (h : tableStatement H F sql = some s) :
    (tableKind H F sql).isTable = true := by
  have hroute : ∀ asOf k, innerRoute H F sql = .statement asOf k → k.isTable = true →
      (tableKind H F sql).isTable = true := by
    intro asOf k hroute hk
    have hkind := fromTables_kindOf H F sql
    rw [kindOf_of_innerRoute hroute] at hkind
    rw [hkind hk]
    exact hk
  unfold tableStatement at h
  split at h
  · next hr => exact hroute _ _ hr rfl
  · next hr => exact hroute _ _ hr rfl
  · cases h

/-- A blank text is no table statement. -/
theorem trim_ne_empty_of_tableStatement (h : tableStatement H F sql = some s) : trim sql ≠ "" := by
  intro hblank
  have htable := isTable_of_tableStatement h
  unfold tableKind parseDdl parseDml at htable
  rcases tokenize_of_trim_eq_empty hblank with htok | ⟨e, htok⟩ <;>
  · rw [htok] at htable
    cases htable

/-- So the log tells statements from markers. -/
theorem ne_empty_of_tableStatement (h : tableStatement H F sql = some s) : sql ≠ "" := by
  rintro rfl
  exact trim_ne_empty_of_tableStatement h rfl

/-- A call that only changes the indexes. -/
theorem catalogAfter_index {β : Type} {x : Outcome β} (h : x ≠ .panic) :
    catalogAfter cat (x >>= fun b => pure (cat, b)) = some cat := by
  cases x with
  | ok | err => rfl
  | panic => exact absurd rfl h

theorem executeCreateIndex_ne_panic {ci : CreateIndex} : executeCreateIndex cat im ci ≠ .panic := by
  unfold executeCreateIndex
  intro h
  repeat' split at h
  all_goals cases h

theorem executeDropIndex_ne_panic {di : DropIndex} : executeDropIndex im di ≠ .panic := by
  unfold executeDropIndex
  intro h
  repeat' split at h
  all_goals cases h

theorem catalogAfter_executeDdl (H : Host) (cat : Catalog) (im : IndexManager) (d : DdlStatement) :
    catalogAfter cat (executeDdl H cat im d) = (TableStatement.ddl d).effect H cat := by
  unfold TableStatement.effect
  cases d with
  | create ct =>
    simp only [executeDdl]
    cases executeCreateTable cat ct <;> rfl
  | drop dt =>
    simp only [executeDdl]
    cases executeDropTable cat dt <;> rfl
  | createSchema name => rfl
  | alterTable at_ =>
    simp only [executeDdl, executeAlterTable]
    cases cat.get (fullName at_.schema at_.name) with
    | none => rfl
    | some t =>
      cases at_.action with
      | addColumn col => rfl
      | dropColumn col =>
        simp only
        cases t.columnIdx col with
        | none => rfl
        | some idx =>
          simp only
          split <;> rfl
      | alterColumnType col newType =>
        simp only
        cases t.columnIdx col <;> rfl
  | createIndex ci =>
    simp only [executeDdl]
    rw [catalogAfter_index executeCreateIndex_ne_panic,
      catalogAfter_index executeCreateIndex_ne_panic]
  | dropIndex di =>
    simp only [executeDdl]
    rw [catalogAfter_index executeDropIndex_ne_panic, catalogAfter_index executeDropIndex_ne_panic]

/-! ## Table statements in the engine -/

namespace QueryEngine

/-- What a table statement leaves behind: it is logged if it succeeds, and without a trace if
it fails. -/
structure TableReply (H : Host) (s : TableStatement) (sql : String) (txnId : Option UInt64)
    (e e' : QueryEngine) (r : Except Error QueryResult) : Prop where
  catalog : s.effect H e.catalog = some e'.catalog
  indexManager : e'.indexManager = s.indexEffect H e.catalog e.indexManager
  txnManager : e'.txnManager = e.txnManager
  savepoints : e'.savepoints = e.savepoints
  ok : ∀ qr, r = .ok qr → e'.wal = e.wal.map (· ++ [statementRecord sql txnId])
  error : ∀ err, r = .error err → e' = e

theorem syncTemporal_frame (H : Host) (e : QueryEngine) (before : Catalog) (d : DmlStatement) :
    ∃ temporals tick, syncTemporal H e before d = { e with temporals, tick } := by
  unfold syncTemporal
  split
  · exact ⟨_, _, rfl⟩
  · exact ⟨_, _, rfl⟩

theorem registerTemporal_frame (H : Host) (e : QueryEngine) (name : String) :
    ∃ temporals tick, registerTemporal H e name = { e with temporals, tick } := by
  unfold registerTemporal
  split
  · exact ⟨_, _, rfl⟩
  · exact ⟨_, _, rfl⟩

/-- The outcome of a table statement, the one that ends the process included. -/
def TableSpec (H : Host) (s : TableStatement) (sql : String) (txnId : Option UInt64)
    (e : QueryEngine) : Reply → Prop
  | none => s.effect H e.catalog = none
  | some (e', r) => TableReply H s sql txnId e e' r

variable {txnId : Option UInt64} {e : QueryEngine} {err : Error}

theorem TableReply.refused (hcat : s.effect H e.catalog = some e.catalog)
    (hindexes : e.indexManager = s.indexEffect H e.catalog e.indexManager) :
    TableReply H s sql txnId e e (.error err) :=
  ⟨hcat, hindexes, rfl, rfl, fun _ h => (by cases h), fun _ _ => rfl⟩

theorem TableReply.done {cat im temporals tick qr} (hcat : s.effect H e.catalog = some cat)
    (hindexes : im = s.indexEffect H e.catalog e.indexManager) :
    TableReply H s sql txnId e (walAppendTxn
      { e with catalog := cat, indexManager := im, temporals, tick } sql txnId) (.ok qr) :=
  ⟨hcat, hindexes, rfl, rfl, fun _ _ => rfl, fun _ h => (by cases h)⟩

theorem executeDmlStmt_spec (H : Host) (e : QueryEngine) (sql : String) (txnId : Option UInt64)
    (d : DmlStatement) : TableSpec H (.dml d) sql txnId e (executeDmlStmt H e sql txnId d) := by
  unfold executeDmlStmt
  have heffect : catalogAfter e.catalog (executeDml H e.catalog d) =
      (TableStatement.dml d).effect H e.catalog := rfl
  cases hd : executeDml H e.catalog d with
  | panic => rw [hd] at heffect; exact heffect.symm
  | err err =>
    rw [hd] at heffect
    exact .refused heffect.symm rfl
  | ok p =>
    rw [hd] at heffect
    obtain ⟨_, _, hframe⟩ := syncTemporal_frame H { e with catalog := p.1 } e.catalog d
    simp only [hframe]
    exact .done heffect.symm rfl

theorem executeDdlStmt_spec (H : Host) (e : QueryEngine) (sql : String) (txnId : Option UInt64)
    (d : DdlStatement) (temporal : Option String) :
    TableSpec H (.ddl d) sql txnId e (executeDdlStmt H e sql txnId d (some temporal)) := by
  unfold executeDdlStmt
  have heffect := catalogAfter_executeDdl H e.catalog e.indexManager d
  cases hd : executeDdl H e.catalog e.indexManager d with
  | panic => rw [hd] at heffect; exact heffect.symm
  | err err =>
    rw [hd] at heffect
    exact .refused heffect.symm (by rw [TableStatement.indexEffect, hd])
  | ok p =>
    rw [hd] at heffect
    have hindexes : p.2 = (TableStatement.ddl d).indexEffect H e.catalog e.indexManager := by
      rw [TableStatement.indexEffect, hd]
    cases temporal with
    | none =>
      exact .done heffect.symm hindexes
    | some name =>
      obtain ⟨_, _, hframe⟩ := registerTemporal_frame H
        { e with catalog := p.1, indexManager := p.2 } name
      simp only [hframe]
      exact .done heffect.symm hindexes

/-- **Table statements.** `execute_inner` on the text of a table statement. -/
theorem executeInnerStep_table (hs : tableStatement H F sql = some s)
    (exec : QueryEngine → String → Reply) (inner : QueryEngine → String → Option UInt64 → Reply)
    (e : QueryEngine) (txnId : Option UInt64) :
    TableSpec H s sql txnId e (executeInnerStep H F exec inner e sql txnId) := by
  unfold tableStatement at hs
  unfold executeInnerStep
  split at hs
  · next d temporal hroute =>
    cases hs
    rw [hroute]
    exact executeDdlStmt_spec H e sql txnId d temporal
  · next d hroute =>
    cases hs
    rw [hroute]
    exact executeDmlStmt_spec H e sql txnId d
  · cases hs

theorem executeInner_table (hs : tableStatement H F sql = some s) (n : Nat) (e : QueryEngine)
    (txnId : Option UInt64) : TableSpec H s sql txnId e (executeInner H F n e sql txnId) := by
  obtain ⟨exec, inner, hstep⟩ := executeInner_eq_step H F n
  rw [hstep]
  exact executeInnerStep_table hs exec inner e txnId

/-! ## Session control -/

/-- The statements of a session that only uses tables and transactions. -/
inductive Command where
  | beginTxn
  | commit
  | rollback
  | table (s : TableStatement)
  deriving DecidableEq, Repr

/-- The indexes after a command. -/
def Command.indexEffect (H : Host) (cat : Catalog) (im : IndexManager) : Command → IndexManager
  | .table s => s.indexEffect H cat im
  | _ => im

/-- The records of a command that is not refused. -/
def Command.records (e : QueryEngine) (sql : String) : Command → List WalRecord
  | .beginTxn => [.beginTxn e.txnManager.nextId]
  | .commit => (e.txnManager.active.map fun txn => WalRecord.commit txn.id).toList
  | .rollback => (e.txnManager.active.map fun txn => WalRecord.rollback txn.id).toList
  | .table _ => [statementRecord sql (e.txnManager.active.map (·.id))]

/-- The command of a text. -/
def command (H : Host) (F : Frontend) (sql : String) : Option Command :=
  match outerRoute H sql with
  | .beginTxn => some .beginTxn
  | .commit => some .commit
  | .rollback => some .rollback
  | .inner => (tableStatement H F sql).map .table
  | _ => none

/-- A session goes on after a statement that fails; it ends with the process. -/
def sessionStep (H : Host) (F : Frontend) (n : Nat) (e : QueryEngine) (sql : String) :
    Option QueryEngine := (execute H F n e sql).map Prod.fst

/-- The catalog statements act on: the snapshot of the open transaction, or the main one. -/
def workingCatalog (e : QueryEngine) : Catalog :=
  match e.txnManager.active with
  | some txn => txn.snapshot
  | none => e.catalog

theorem workingCatalog_idle (h : e.txnManager.active = none) : e.workingCatalog = e.catalog := by
  rw [workingCatalog, h]

theorem workingCatalog_open {txn : Transaction}
    (h : e.txnManager.active = some txn) : e.workingCatalog = txn.snapshot := by
  rw [workingCatalog, h]

/-- What a command does, in the words of the log: the catalogs before and after, the transaction,
and the records appended. -/
inductive CommandStep (H : Host) (sql : String) (e e' : QueryEngine) : Command → Prop where
  | began (hidle : e.txnManager.active = none) (hcat : e'.catalog = e.catalog)
      (htxn : e'.txnManager = { nextId := e.txnManager.nextId + 1
                                active := some ⟨e.txnManager.nextId, e.catalog⟩ })
      (hwal : e'.wal = e.wal.map (· ++ [.beginTxn e.txnManager.nextId])) :
      CommandStep H sql e e' .beginTxn
  | beginRefused (hactive : e.txnManager.active.isSome = true) (hsame : e' = e) :
      CommandStep H sql e e' .beginTxn
  | committed (txn : Transaction) (hactive : e.txnManager.active = some txn)
      (hcat : e'.catalog = txn.snapshot)
      (htxn : e'.txnManager = { e.txnManager with active := none })
      (hwal : e'.wal = e.wal.map (· ++ [.commit txn.id])) : CommandStep H sql e e' .commit
  | commitRefused (hidle : e.txnManager.active = none) (hsame : e' = e) :
      CommandStep H sql e e' .commit
  | rolledBack (txn : Transaction) (hactive : e.txnManager.active = some txn)
      (hcat : e'.catalog = e.catalog)
      (htxn : e'.txnManager = { e.txnManager with active := none })
      (hwal : e'.wal = e.wal.map (· ++ [.rollback txn.id])) : CommandStep H sql e e' .rollback
  | rollbackRefused (hidle : e.txnManager.active = none) (hsame : e' = e) :
      CommandStep H sql e e' .rollback
  | failed (s : TableStatement) (hsame : e' = e)
      (heffect : s.effect H e.workingCatalog = some e.workingCatalog) :
      CommandStep H sql e e' (.table s)
  | autocommitted (s : TableStatement) (hidle : e.txnManager.active = none)
      (heffect : s.effect H e.catalog = some e'.catalog) (htxn : e'.txnManager = e.txnManager)
      (hwal : e'.wal = e.wal.map (· ++ [.autocommit sql])) : CommandStep H sql e e' (.table s)
  | inTxn (s : TableStatement) (txn : Transaction) (snapshot : Catalog)
      (hactive : e.txnManager.active = some txn)
      (heffect : s.effect H txn.snapshot = some snapshot) (hcat : e'.catalog = e.catalog)
      (htxn : e'.txnManager = { e.txnManager with active := some ⟨txn.id, snapshot⟩ })
      (hwal : e'.wal = e.wal.map (· ++ [.txnDml txn.id sql])) : CommandStep H sql e e' (.table s)

/-- What a command leaves behind; it changes nothing if it is refused. -/
structure CommandReply (H : Host) (sql : String) (c : Command) (e e' : QueryEngine)
    (r : Except Error QueryResult) : Prop where
  step : CommandStep H sql e e' c
  indexManager : e'.indexManager = c.indexEffect H e.workingCatalog e.indexManager
  ok : ∀ qr, r = .ok qr → e'.wal = e.wal.map (· ++ c.records e sql)
  error : ∀ err, r = .error err → e' = e

/-- The outcome of a command; only a table statement can end the process. -/
def CommandSpec (H : Host) (sql : String) (e : QueryEngine) (c : Command) : Reply → Prop
  | none => ∃ s, c = .table s ∧ s.effect H e.workingCatalog = none
  | some (e', r) => CommandReply H sql c e e' r

variable {c : Command} {e' : QueryEngine} {n : Nat}

theorem CommandReply.refused (hstep : CommandStep H sql e e c)
    (hindexes : e.indexManager = c.indexEffect H e.workingCatalog e.indexManager) :
    CommandReply H sql c e e (.error err) :=
  ⟨hstep, hindexes, fun _ h => (by cases h), fun _ _ => rfl⟩

theorem CommandReply.done {qr : QueryResult} (hstep : CommandStep H sql e e' c)
    (hindexes : e'.indexManager = c.indexEffect H e.workingCatalog e.indexManager)
    (hwal : e'.wal = e.wal.map (· ++ c.records e sql)) : CommandReply H sql c e e' (.ok qr) :=
  ⟨hstep, hindexes, fun _ _ => hwal, fun _ h => (by cases h)⟩

/-- **Commands.** One step of a session, read off `execute`. -/
theorem execute_spec (hc : command H F sql = some c) (n : Nat) (e : QueryEngine) :
    CommandSpec H sql e c (execute H F n e sql) := by
  unfold command at hc
  unfold execute executeStep
  split at hc
  · next hroute =>
    cases hc
    rw [hroute]
    simp only [executeBegin]
    split
    · next txn hactive => exact .refused (.beginRefused (by rw [hactive]; rfl) rfl) rfl
    · next hactive => exact .done (.began hactive rfl rfl rfl) rfl rfl
  · next hroute =>
    cases hc
    rw [hroute]
    simp only [executeCommit]
    split
    · next hactive => exact .refused (.commitRefused hactive rfl) rfl
    · next txn hactive =>
      exact .done (.committed txn hactive rfl rfl rfl) rfl (by rw [Command.records, hactive]; rfl)
  · next hroute =>
    cases hc
    rw [hroute]
    simp only [executeRollback]
    split
    · next hactive => exact .refused (.rollbackRefused hactive rfl) rfl
    · next txn hactive =>
      exact .done (.rolledBack txn hactive rfl rfl rfl) rfl (by rw [Command.records, hactive]; rfl)
  · next hroute =>
    obtain ⟨s, hs, rfl⟩ := Option.map_eq_some_iff.mp hc
    rw [hroute]
    simp only [executeRouted]
    split
    · next hactive =>
      have hspec := executeInner_table hs n e none
      have hworking := workingCatalog_idle hactive
      generalize executeInner H F n e sql none = reply at hspec ⊢
      rcases reply with _ | ⟨e', err | qr⟩
      · exact ⟨s, rfl, by rw [hworking]; exact hspec⟩
      · obtain rfl := hspec.error err rfl
        exact .refused (.failed s rfl (by rw [hworking]; exact hspec.catalog))
          (by rw [hworking]; exact hspec.indexManager)
      · have hwal := hspec.ok qr rfl
        exact .done (.autocommitted s hactive hspec.catalog hspec.txnManager hwal)
          (by rw [hworking]; exact hspec.indexManager)
            (by rw [Command.records, hactive]; exact hwal)
    · next txn hactive =>
      have hspec := executeInner_table hs n
        { e with catalog := txn.snapshot, txnManager := { e.txnManager with active := none } }
        (some txn.id)
      have hworking := workingCatalog_open hactive
      split
      · next hreply =>
        rw [hreply] at hspec
        exact ⟨s, rfl, by rw [hworking]; exact hspec⟩
      · next e₁ r hreply =>
        rw [hreply] at hspec
        cases r with
        | ok qr =>
          have hwal := hspec.ok qr rfl
          refine .done (.inTxn s txn e₁.catalog hactive hspec.catalog rfl ?_ hwal)
            (by rw [hworking]; exact hspec.indexManager)
            (by rw [Command.records, hactive]; exact hwal)
          simp only [hspec.txnManager]
        | error err =>
          obtain rfl := hspec.error err rfl
          simp only [← hactive]
          exact .refused (.failed s rfl (by rw [hworking]; exact hspec.catalog))
            (by rw [hworking]; exact hspec.indexManager)
  · cases hc

theorem sessionStep_spec (hc : command H F sql = some c) (h : sessionStep H F n e sql = some e') :
    ∃ r, CommandReply H sql c e e' r := by
  obtain ⟨⟨_, r⟩, hreply, rfl⟩ := Option.map_eq_some_iff.mp h
  have hspec := execute_spec hc n e
  rw [hreply] at hspec
  exact ⟨r, hspec⟩

theorem commandStep_of_sessionStep (hc : command H F sql = some c)
    (h : sessionStep H F n e sql = some e') : CommandStep H sql e e' c := by
  obtain ⟨r, hspec⟩ := sessionStep_spec hc h
  exact hspec.step

end QueryEngine

end TensorVault
