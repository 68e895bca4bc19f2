import TensorVault.Engine.Query

/-!
# The engine does not read its log

What a statement returns and does to everything but the log depends neither on the log nor on the
ids of transactions, so two engines that only differ there go on in step (`execute_sim`). How the
logs and ids may differ is a parameter (`LogRel`).
-/

namespace TensorVault

open Text Sql

/-- The part of an engine that is only written. -/
structure LogPart where
  wal : Option (List WalRecord)
  nextId : UInt64
  activeId : Option UInt64

namespace LogPart

def append (l : LogPart) (r : WalRecord) : LogPart := { l with wal := l.wal.map (· ++ [r]) }

def beginTxn (l : LogPart) : LogPart :=
  { wal := l.wal.map (· ++ [.beginTxn l.nextId])
    nextId := l.nextId + 1
    activeId := some l.nextId }

/-- The end of a transaction, with its marker. -/
def endTxn (l : LogPart) (r : WalRecord) : LogPart :=
  { l with wal := l.wal.map (· ++ [r]), activeId := none }

def truncate (l : LogPart) : LogPart := { l with wal := l.wal.map fun _ => [] }

end LogPart

/-- How the logs of two engines may differ. -/
structure LogRel where
  rel : LogPart → LogPart → Prop
  /-- The ids two statements are logged under. -/
  ids : Option UInt64 → Option UInt64 → Prop
  autocommit : ids none none
  append : ∀ {a b i j}, rel a b → ids i j → ∀ sql,
    rel (a.append (QueryEngine.statementRecord sql i))
      (b.append (QueryEngine.statementRecord sql j))
  beginTxn : ∀ {a b}, rel a b → rel a.beginTxn b.beginTxn
  commit : ∀ {a b i j}, rel a b → a.activeId = some i → b.activeId = some j →
    rel (a.endTxn (.commit i)) (b.endTxn (.commit j))
  rollback : ∀ {a b i j}, rel a b → a.activeId = some i → b.activeId = some j →
    rel (a.endTxn (.rollback i)) (b.endTxn (.rollback j))
  truncate : ∀ {a b}, rel a b → rel a.truncate b.truncate
  /-- The open transaction is taken out for the time of a statement. -/
  enter : ∀ {a b i j}, rel a b → a.activeId = some i → b.activeId = some j →
    rel { a with activeId := none } { b with activeId := none } ∧ ids (some i) (some j)
  leave : ∀ {a b i j}, rel a b → ids (some i) (some j) →
    rel { a with activeId := some i } { b with activeId := some j }

namespace QueryEngine

/-- Two engines that only differ in their logs and ids. -/
inductive Sim (R : LogRel) : QueryEngine → QueryEngine → Prop where
  | mk {catalog : Catalog} {im : IndexManager} {views : List ViewDef}
      {procedures : List ProcedureDef} {temporals : String → Option TemporalTable}
      {savepoints : List (String × Catalog)} {tick : Nat} {wal wal' : Option (List WalRecord)}
      {nextId nextId' : UInt64} {active active' : Option Transaction}
      (hsnapshot : active'.map (·.snapshot) = active.map (·.snapshot))
      (hlog : R.rel ⟨wal, nextId, active.map (·.id)⟩ ⟨wal', nextId', active'.map (·.id)⟩) :
      Sim R ⟨catalog, ⟨nextId, active⟩, wal, im, views, procedures, temporals, savepoints, tick⟩
        ⟨catalog, ⟨nextId', active'⟩, wal', im, views, procedures, temporals, savepoints, tick⟩

/-- Two replies with the same result and engines in step. -/
abbrev ReplySim (R : LogRel) : Reply → Reply → Prop := ReplyRel (Sim R)

/-- Both sides of a callback stay in step. -/
def InnerSim (R : LogRel) (inner : QueryEngine → String → Option UInt64 → Reply) : Prop :=
  ∀ {e e' : QueryEngine}, Sim R e e' → ∀ (sql : String) {i j : Option UInt64}, R.ids i j →
    ReplySim R (inner e sql i) (inner e' sql j)

def ExecSim (R : LogRel) (exec : QueryEngine → String → Reply) : Prop :=
  ∀ {e e' : QueryEngine}, Sim R e e' → ∀ sql : String, ReplySim R (exec e sql) (exec e' sql)

section Sim

variable {e e' : QueryEngine} {R : LogRel}

theorem Sim.reply (h : Sim R e e') {qr : QueryResult} :
    ReplySim R (e.reply qr) (e'.reply qr) := .some h _

theorem Sim.fail (h : Sim R e e') {err : Error} :
    ReplySim R (e.fail err) (e'.fail err) := .some h _

/-- Either both have an open transaction, with the same snapshot, or neither has. -/
theorem Sim.active (h : Sim R e e') :
    (e.txnManager.active = none ∧ e'.txnManager.active = none) ∨
      ∃ id id' snapshot, e.txnManager.active = some ⟨id, snapshot⟩ ∧
        e'.txnManager.active = some ⟨id', snapshot⟩ := by
  cases h with
  | @mk _ _ _ _ _ _ _ _ _ _ _ active active' hsnapshot hlog =>
    cases active with
    | none =>
      cases active' with
      | none => exact .inl ⟨rfl, rfl⟩
      | some txn' => cases hsnapshot
    | some txn =>
      cases active' with
      | none => cases hsnapshot
      | some txn' =>
        have heq : txn'.snapshot = txn.snapshot := Option.some.inj hsnapshot
        exact .inr ⟨txn.id, txn'.id, txn.snapshot, rfl, by rw [← heq]⟩

theorem executeBegin_sim (h : Sim R e e') : ReplySim R e.executeBegin e'.executeBegin := by
  unfold executeBegin
  rcases h.active with ⟨h₁, h₂⟩ | ⟨id, id', snapshot, h₁, h₂⟩
  · rw [h₁, h₂]
    cases h with
    | mk hsnapshot hlog => exact .some (.mk (by rfl) (by exact R.beginTxn hlog)) _
  · rw [h₁, h₂]
    exact h.fail

theorem executeFinish_sim (h : Sim R e e') : ReplySim R e.executeCommit e'.executeCommit ∧
    ReplySim R e.executeRollback e'.executeRollback := by
  unfold executeCommit executeRollback
  rcases h.active with ⟨h₁, h₂⟩ | ⟨id, id', snapshot, h₁, h₂⟩
  · rw [h₁, h₂]
    exact ⟨h.fail, h.fail⟩
  · rw [h₁, h₂]
    cases h with
    | mk hsnapshot hlog =>
      cases h₁
      cases h₂
      exact ⟨.some (.mk (by rfl) (by exact R.commit hlog rfl rfl)) _,
        .some (.mk (by rfl) (by exact R.rollback hlog rfl rfl)) _⟩

theorem Sim.controlRel : ControlRel (Sim R) where
  eq h := by cases h; exact ⟨_, _, rfl⟩
  set h _ _ _ := by cases h with | mk hsnapshot hlog => exact .mk hsnapshot hlog
  vacuum h := by cases h with | mk hsnapshot hlog => exact .some (.mk hsnapshot (R.truncate hlog)) _
  beginTxn := executeBegin_sim
  commit h := (executeFinish_sim h).1
  rollback h := (executeFinish_sim h).2

theorem Sim.catalog_eq (h : Sim R e e') : e'.catalog = e.catalog :=
  Sim.controlRel.readRel.catalog h

/-- A change of the catalog on both sides. -/
theorem Sim.setCatalog (h : Sim R e e') {cat : Catalog} :
    Sim R { e with catalog := cat } { e' with catalog := cat } :=
  Sim.controlRel.readRel.setCatalog h cat

/-- In step on every text. -/
theorem InnerSim.innerRel {inner : QueryEngine → String → Option UInt64 → Reply}
    (hinner : InnerSim R inner) {i j : Option UInt64} (hids : R.ids i j) :
    InnerRel (Sim R) (fun _ => True) inner i j := fun _ _ h sql _ => hinner h sql hids

end Sim

/-! ## `execute_inner` -/

section

variable {inner : QueryEngine → String → Option UInt64 → Reply} {i j : Option UInt64}
  {exec : QueryEngine → String → Reply} {R : LogRel} {e e' : QueryEngine} {sql : String} {H : Host}

theorem Sim.walAppendTxn (h : Sim R e e') (hids : R.ids i j) :
    Sim R (e.walAppendTxn sql i) (e'.walAppendTxn sql j) := by
  cases h with
  | mk hsnapshot hlog => exact .mk hsnapshot (R.append hlog hids sql)

theorem executeExec_sim (hexec : ExecSim R exec) {name : String} {args : List String}
    (h : Sim R e e') :
    ReplySim R (executeExec exec e name args) (executeExec exec e' name args) := by
  have hprocs : e'.procedures = e.procedures := by cases h; rfl
  unfold executeExec
  rw [hprocs]
  split
  · exact h.fail
  · exact runBody_rel (P := fun _ => True) (fun _ _ hu s _ => hexec hu s) (fun _ _ => trivial) _ h

theorem executeDdlStmt_sim (hids : R.ids i j) {d : DdlStatement}
    {temporal : Option (Option String)} (h : Sim R e e') :
    ReplySim R (executeDdlStmt H e sql i d temporal) (executeDdlStmt H e' sql j d temporal) := by
  have hregister : ∀ {u u' : QueryEngine} (name : String), Sim R u u' →
      Sim R (registerTemporal H u name) (registerTemporal H u' name) := by
    intro u u' name hu
    cases hu with
    | mk hsnapshot hlog =>
      unfold registerTemporal
      simp only
      split
      · exact .mk hsnapshot hlog
      · exact .mk hsnapshot hlog
  have hset : ∀ cat im, Sim R { e with catalog := cat, indexManager := im }
      { e' with catalog := cat, indexManager := im } := by
    intro cat im
    cases h with
    | mk hsnapshot hlog => exact .mk hsnapshot hlog
  have hcat : e'.catalog = e.catalog := h.catalog_eq
  have him : e'.indexManager = e.indexManager := by cases h; rfl
  unfold executeDdlStmt
  rw [hcat, him]
  split
  · exact h.fail
  · exact .none
  · simp only
    split
    · exact ((hregister _ (hset _ _)).walAppendTxn hids).reply
    · exact ((hset _ _).walAppendTxn hids).reply
    · exact .none

theorem executeDmlStmt_sim (hids : R.ids i j) {d : DmlStatement} (h : Sim R e e') :
    ReplySim R (executeDmlStmt H e sql i d) (executeDmlStmt H e' sql j d) := by
  have hsync : ∀ {u u' : QueryEngine} (before : Catalog), Sim R u u' →
      Sim R (syncTemporal H u before d) (syncTemporal H u' before d) := by
    intro u u' before hu
    cases hu with
    | mk hsnapshot hlog =>
      unfold syncTemporal
      simp only
      split
      · exact .mk hsnapshot hlog
      · exact .mk hsnapshot hlog
  unfold executeDmlStmt
  rw [h.catalog_eq]
  split
  · exact h.fail
  · exact .none
  · exact ((hsync _ h.setCatalog).walAppendTxn hids).reply

theorem executeMergeReply_sim {m : Merge} (h : Sim R e e') :
    ReplySim R (executeMergeReply H e m) (executeMergeReply H e' m) := by
  unfold executeMergeReply
  rw [h.catalog_eq]
  split
  · exact h.fail
  · exact .none
  · exact h.setCatalog.reply

variable {H : Host} {F : Frontend} {id id' : UInt64}

theorem executeKind_sim (hexec : ExecSim R exec)
    (hinner : InnerSim R inner) (hids : R.ids i j) {kind : Kind} (h : Sim R e e') :
    ReplySim R (executeKind H F exec inner e sql i kind)
      (executeKind H F exec inner e' sql j kind) := by
  cases kind with
  | createView | dropView | createProcedure =>
    cases h with | mk hsnapshot hlog => exact .some (.mk hsnapshot hlog) _
  | exec name args => exact executeExec_sim hexec h
  | merge m => exact executeMergeReply_sim h
  | ddl d temporal => exact executeDdlStmt_sim hids h
  | dml d => exact executeDmlStmt_sim hids h
  | withClause | unionAll | pivot | jsonValue | select | fail | abort =>
    exact executeKind_query Sim.controlRel.readRel (hinner.innerRel hids)
      (hinner.innerRel R.autocommit) (by simp [QueryKind, CteTexts]) h

theorem executeInnerStep_sim (hexec : ExecSim R exec)
    (hinner : InnerSim R inner) : InnerSim R (executeInnerStep H F exec inner) := by
  intro e e' h sql i j hids
  exact executeInnerStep_rel Sim.controlRel h fun _ kind _ => executeKind_sim hexec hinner hids h

/-! ## `execute` -/

/-- The snapshot in the place of the catalog, on both sides. -/
theorem Sim.enter (h : Sim R e e') {snapshot : Catalog}
    (h₁ : e.txnManager.active = some ⟨id, snapshot⟩)
    (h₂ : e'.txnManager.active = some ⟨id', snapshot⟩) :
    Sim R { e with catalog := snapshot, txnManager := { e.txnManager with active := none } }
        { e' with catalog := snapshot, txnManager := { e'.txnManager with active := none } } ∧
      R.ids (some id) (some id') := by
  cases h with
  | mk hsnapshot hlog =>
    cases h₁
    cases h₂
    obtain ⟨hlog', hids⟩ := R.enter hlog rfl rfl
    exact ⟨.mk (by rfl) (by exact hlog'), hids⟩

/-- The transaction is put back with the catalog the statement left. -/
theorem Sim.leave (h : Sim R e e') (hids : R.ids (some id) (some id')) {cat : Catalog} :
    Sim R
      { e with
        catalog := cat
        txnManager := { e.txnManager with active := some { id := id, snapshot := e.catalog } } }
      { e' with
        catalog := cat
        txnManager :=
          { e'.txnManager with active := some { id := id', snapshot := e'.catalog } } } := by
  cases h with
  | mk hsnapshot hlog => exact .mk (by rfl) (by exact R.leave hlog hids)

theorem executeRouted_sim (hinner : InnerSim R inner) (h : Sim R e e') :
    ReplySim R (executeRouted inner e sql) (executeRouted inner e' sql) := by
  unfold executeRouted
  rcases h.active with ⟨h₁, h₂⟩ | ⟨id, id', snapshot, h₁, h₂⟩
  · rw [h₁, h₂]
    exact hinner h sql R.autocommit
  · obtain ⟨hin, hids⟩ := h.enter h₁ h₂
    have hreply := hinner hin sql hids
    rw [h₁, h₂, h.catalog_eq]
    simp only
    revert hreply
    generalize inner _ sql (some id) = x
    generalize inner _ sql (some id') = y
    intro hreply
    cases hreply with
    | none => exact .none
    | some hu r => exact .some (hu.leave hids) r

theorem executeStep_sim (hinner : InnerSim R inner) : ExecSim R (executeStep H F inner) := by
  intro e e' h sql
  refine executeStep_rel Sim.controlRel h (hinner.innerRel R.autocommit)
    (fun _ => executeRouted_sim hinner h) ?_
  unfold OuterQuiet
  split <;> simp

end

theorem executeInner_sim (H : Host) (F : Frontend) (R : LogRel) (n : Nat) :
    InnerSim R (executeInner H F n) := by
  induction n with
  | zero => exact executeInnerStep_sim (fun _ _ => .none) (fun _ _ _ _ _ => .none)
  | succ n ih => exact executeInnerStep_sim (executeStep_sim ih) ih

/-- **In step.** Two engines that only differ in their logs and ids give the same replies. -/
theorem execute_sim (H : Host) (F : Frontend) (R : LogRel) (n : Nat) :
    ExecSim R (execute H F n) := executeStep_sim (executeInner_sim H F R n)

end QueryEngine

end TensorVault
