import TensorVault.Server.Database
import TensorVault.Server.Trace

/-!
# Transactions over the wire

In the simple protocol BEGIN, COMMIT and ROLLBACK only set the status that ReadyForQuery reports;
the engine does not get to see them. So a block is a transaction only as far as there is nothing to
undo and nothing to refuse (`Harmless`): its statements leave the catalog alone, and after one that
failed come only statements that are turned away anyhow (`transactional_of_harmless`).
-/

namespace TensorVault.Server

open Text Sql Proc Run List

/-! ## Messages -/

/-- What `handle_simple_query` takes a statement for. -/
inductive WireCommand where
  | blank
  | beginTxn
  | commit
  | rollback
  | statement
  deriving DecidableEq, Repr

def wireCommand (H : Host) (stmt : String) : WireCommand :=
  let lower := H.toLowercase (trim stmt)
  if trim stmt = "" then .blank
  else if startsWith lower "begin" || startsWith lower "start transaction" then .beginTxn
  else if startsWith lower "commit" then .commit
  else if startsWith lower "rollback" then .rollback
  else .statement

/-- The status a command sets. -/
def WireCommand.status : WireCommand → Option TxnStatus
  | .beginTxn => some .inTransaction
  | .commit => some .idle
  | .rollback => some .idle
  | _ => none

/-- A message of one statement. -/
def IsCommand (H : Host) (c : WireCommand) (sql : String) : Prop :=
  ∃ stmt, splitSqlBatch sql = [stmt] ∧ wireCommand H stmt = c

def Event.isError : Event → Bool
  | .sent (.errorResponse _ _) => true
  | _ => false

section Messages

variable {σ δ : Type}

/-- One simple query of a connection. -/
def queryStep (S : Services σ δ) (w : World σ) (sql : String) : Option (World σ) :=
  match handleSimpleQuery S sql w with
  | (.ok _, w') => some w'
  | (.error _, _) => none

variable {sql : String} {w w' : World σ}

theorem queryStep_of_wp {S : Services σ δ} {Q : World σ → Prop} {E : Stop → World σ → Prop}
    (h : wp (handleSimpleQuery S sql) (fun _ => Q) E w) (hstep : queryStep S w sql = some w') :
    Q w' := by
  unfold wp at h
  unfold queryStep at hstep
  split at hstep
  · next heq =>
    cases hstep
    rwa [heq] at h
  · cases hstep

/-- The client was told of an error. -/
def Failed (w w' : World σ) : Prop :=
  ∃ added, w'.log = w.log ++ added ∧ added.any Event.isError = true

/-- How a statement of a block ends for the client. -/
def Reported (failed : Bool) (w w' : World σ) : Prop :=
  ∃ added, w'.log = w.log ++ added ∧ added.any Event.isError = failed ∧
    w'.conn.session.txn = if failed then .failedTransaction else w.conn.session.txn

theorem Reported.failed_iff {failed : Bool} (h : Reported failed w w') :
    Failed w w' ↔ failed = true := by
  obtain ⟨added, hlog, hany, -⟩ := h
  constructor
  · rintro ⟨added', hlog', hany'⟩
    obtain rfl : added' = added := append_cancel_left (hlog'.symm.trans hlog)
    exact hany.symm.trans hany'
  · rintro rfl
    exact ⟨added, hlog, hany⟩

/-- Transaction control does not reach the engine. -/
theorem wp_control (S : Services σ δ) {c : WireCommand} {txn : TxnStatus} (hc : c.status = some txn)
    (hsql : IsCommand S.host c sql) (w : World σ) :
    wp (handleSimpleQuery S sql)
      (fun _ w' => w'.shared = w.shared ∧ w'.conn.session.txn = txn) (fun _ _ => False) w := by
  obtain ⟨stmt, hsplit, hcommand⟩ := hsql
  unfold wireCommand at hcommand
  simp only at hcommand
  simp only [handleSimpleQuery, hsplit, runStatements, wp_bind, wp_get]
  split at hcommand
  · subst hcommand
    cases hc
  next hblank =>
  rw [if_neg hblank]
  split at hcommand
  · next hbegin =>
    subst hcommand
    cases hc
    rw [if_pos hbegin]
    simp [setTxn, setSession, sendReadyForQuery]
  next hbegin =>
  rw [if_neg hbegin]
  split at hcommand
  · next hcommit =>
    subst hcommand
    cases hc
    rw [if_pos hcommit]
    simp [setTxn, setSession, sendReadyForQuery]
  next hcommit =>
  rw [if_neg hcommit]
  split at hcommand
  · next hrollback =>
    subst hcommand
    cases hc
    rw [if_pos hrollback]
    simp [setTxn, setSession, sendReadyForQuery]
  · subst hcommand
    cases hc

end Messages

/-! ## Statements -/

section

variable {δ : Type} (C : EngineConfig δ)

/-- What a statement of a block does. -/
inductive Answer (w : World (Shared QueryEngine δ)) (t : String)
    (w' : World (Shared QueryEngine δ)) : Prop
  | engine (hddl : userDdl C.host t = none) (e : QueryEngine) (r : Except Error QueryResult)
      (hask : C.ask w.shared.engine t = some (e, r))
      (hshared : w'.shared = { w.shared with engine := e })
      (hreported : Reported (!r.isOk) w w')
  | users (ddl : UserDdl) (hddl : userDdl C.host t = some ddl)
      (hengine : w'.shared.engine = w.shared.engine) (failed : Bool)
      (hreported : Reported failed w w')
      (hrefused : ∀ msg, ddl = .refused msg → failed = true ∧ w'.shared = w.shared)

theorem wp_statement {sql stmt : String} (hsplit : splitSqlBatch sql = [stmt])
    (hstmt : wireCommand C.host stmt = .statement) {w : World (Shared QueryEngine δ)}
    (htxn : w.conn.session.txn ≠ .idle) :
    wp (handleSimpleQuery C.services sql) (fun _ => Answer C w (trim stmt))
      (fun _ _ => True) w := by
  have hwas : (w.conn.session.txn != .idle) = true := by simpa using htxn
  unfold wireCommand at hstmt
  simp only at hstmt
  split at hstmt
  · cases hstmt
  next hblank =>
  split at hstmt
  · cases hstmt
  next hbegin =>
  split at hstmt
  · cases hstmt
  next hcommit =>
  split at hstmt
  · cases hstmt
  next hrollback =>
  simp only [handleSimpleQuery, hsplit, hwas, runStatements, wp_bind, wp_get, C.services_host]
  rw [if_neg hblank, if_neg hbegin, if_neg hcommit, if_neg hrollback]
  simp only [wp_bind, tryHandleUserDdl, C.services_host]
  cases hddl : userDdl C.host (trim stmt) with
  | none =>
    simp only [wp_pure, wp_bind]
    refine C.wp_runSql (fun e r hask => ?_) fun _ => trivial
    cases r with
    | ok qr =>
      simp only [wp_bind, wp_sendRowDescription, sendDataRows, wp_sendRows, wp_send, wp_pure,
        sendReadyForQuery, wp_get]
      refine .engine hddl e _ hask rfl ⟨_, by simp only [append_assoc]; rfl, ?_, rfl⟩
      have hdescription : Event.isError (.sent (if qr.columns = [] then .noData
          else .rowDescription (qr.columns.map fun c => (c.name, columnType c)))) = false := by
        split <;> rfl
      simpa [Event.isError, Except.isOk, Except.toBool] using hdescription
    | error err =>
      simp only [wp_bind, sendError, wp_send, failTxn, if_true, setTxn, setSession, wp_modify,
        sendReadyForQuery, wp_get]
      refine .engine hddl e _ hask rfl ⟨_, by simp only [append_assoc]; rfl, rfl, rfl⟩
  | some ddl =>
    cases ddl with
    | abort => exact trivial
    | refused msg =>
      simp only [wp_bind, wp_pure, sendError, wp_send, failTxn, if_true, setTxn, setSession,
        wp_modify, sendReadyForQuery, wp_get]
      exact .users _ hddl rfl true ⟨_, by simp only [append_assoc]; rfl, rfl, rfl⟩
        fun _ _ => ⟨rfl, rfl⟩
    | create username password =>
      simp only [wp_bind, wp_call, record, wp_modify, wp_pure, wp_send, sendReadyForQuery, wp_get]
      exact .users _ hddl rfl false ⟨_, by simp only [append_assoc]; rfl, rfl, rfl⟩
        fun _ h => by cases h
    | drop username ifExists =>
      simp only [wp_bind, wp_call]
      cases (C.services.dropUser w.shared username).2 with
      | true =>
        simp only [if_true, record, wp_bind, wp_modify, wp_pure, wp_send, sendReadyForQuery, wp_get]
        exact .users _ hddl rfl false ⟨_, by simp only [append_assoc]; rfl, rfl, rfl⟩
          fun _ h => by cases h
      | false =>
        cases ifExists with
        | true =>
          simp only [Bool.false_eq_true, if_true, if_false, wp_bind, wp_pure, wp_send,
            sendReadyForQuery, wp_get]
          exact .users _ hddl rfl false ⟨_, by simp only [append_assoc]; rfl, rfl, rfl⟩
            fun _ h => by cases h
        | false =>
          simp only [Bool.false_eq_true, if_true, if_false, wp_bind, wp_pure, sendError, wp_send,
            failTxn, setTxn, setSession, wp_modify, sendReadyForQuery, wp_get]
          exact .users _ hddl rfl true ⟨_, by simp only [append_assoc]; rfl, rfl, rfl⟩
            fun _ h => by cases h

end

/-! ## Blocks -/

section

variable {δ : Type} (S : Services (Shared QueryEngine δ) δ) (w : World (Shared QueryEngine δ))

/-- A statement of the run fails: `pre` is what comes before it. -/
def FailsAfter (pre : List String) (sql : String) (w' : World (Shared QueryEngine δ)) : Prop :=
  ∃ u, run (queryStep S) w pre = some u ∧ queryStep S u sql = some w' ∧ Failed u w'

/-- BEGIN and the block behind it are a transaction. -/
structure Transactional (begin_ : String) (block : List String) : Prop where
  /-- ROLLBACK takes everything back. -/
  rolledBack : ∀ rollback w', IsCommand S.host .rollback rollback →
    run (queryStep S) w (begin_ :: (block ++ [rollback])) = some w' →
      w'.shared.engine.catalog = w.shared.engine.catalog
  /-- After a statement that failed the others are refused and have no effect. -/
  refused : ∀ pre sql mid later post, block = pre ++ sql :: (mid ++ later :: post) →
    ∀ w₁ w₂ w₃, FailsAfter S w (begin_ :: pre) sql w₁ → run (queryStep S) w₁ mid = some w₂ →
      queryStep S w₂ later = some w₃ → Failed w₂ w₃ ∧ w₃.shared = w₂.shared
  /-- COMMIT of a block with a statement that failed takes everything back. -/
  committed : ∀ commit w', IsCommand S.host .commit commit →
    (∃ pre sql post w₁, block = pre ++ sql :: post ∧ FailsAfter S w (begin_ :: pre) sql w₁) →
      run (queryStep S) w (begin_ :: (block ++ [commit])) = some w' →
        w'.shared.engine.catalog = w.shared.engine.catalog

end

section Harmless

variable {block : List String} {δ : Type} (C : EngineConfig δ)

/-- A statement that is refused whatever the status of the session is. -/
def TurnedAway (e : QueryEngine) (t : String) : Prop :=
  (∃ msg, userDdl C.host t = some (.refused msg)) ∨
    userDdl C.host t = none ∧
      (startsWith (C.host.toLowercase (trim t)) "select" = false ∧
        startsWith (C.host.toLowercase (trim t)) "with" = false) ∧
      QueryEngine.Rejected C.host C.frontend e t

/-- A statement that there is nothing to undo of. -/
def NothingToUndo (e : QueryEngine) (t : String) : Prop :=
  (userDdl C.host t).isSome = true ∨
    QueryEngine.LeavesCatalog C.host C.frontend C.depth e t

/-- A message of a block: one statement, with nothing to undo, and if a statement has failed before,
one that is turned away. -/
def Harmless (w : World (Shared QueryEngine δ)) (sql : String) : Prop :=
  ∃ stmt, splitSqlBatch sql = [stmt] ∧ wireCommand C.host stmt = .statement ∧
    (TurnedAway C w.shared.engine (trim stmt) ∨
      w.conn.session.txn ≠ .failedTransaction ∧ NothingToUndo C w.shared.engine (trim stmt))

/-- One message of a block. -/
structure BlockStep (w w' : World (Shared QueryEngine δ)) : Prop where
  catalog : w'.shared.engine.catalog = w.shared.engine.catalog
  open_ : w'.conn.session.txn ≠ .idle
  failed : Failed w w' → w'.conn.session.txn = .failedTransaction
  refused : w.conn.session.txn = .failedTransaction →
    Failed w w' ∧ w'.shared = w.shared ∧ w'.conn.session.txn = .failedTransaction

variable {C} {w w' : World (Shared QueryEngine δ)} {t sql : String} {failed : Bool}
  {pre : List String}

theorem Reported.txn (h : Reported failed w w') : w'.conn.session.txn =
    if failed then .failedTransaction else w.conn.session.txn := by
  obtain ⟨_, _, _, htxn⟩ := h
  exact htxn

theorem Reported.blockStep (h : Reported failed w w') (hopen : w.conn.session.txn ≠ .idle)
    (hcatalog : w'.shared.engine.catalog = w.shared.engine.catalog)
    (hrefused : w.conn.session.txn = .failedTransaction → failed = true ∧ w'.shared = w.shared) :
    BlockStep w w' where
  catalog := hcatalog
  open_ := by
    rw [h.txn]
    split
    · decide
    · exact hopen
  failed hfailed := by rw [h.txn, if_pos (h.failed_iff.mp hfailed)]
  refused htxn := by
    obtain ⟨rfl, hshared⟩ := hrefused htxn
    exact ⟨h.failed_iff.mpr rfl, hshared, h.txn⟩

theorem TurnedAway.refused (h : TurnedAway C w.shared.engine t) (hanswer : Answer C w t w') :
    Reported true w w' ∧ w'.shared = w.shared := by
  rcases h with ⟨msg, hmsg⟩ | ⟨hnone, hselect, hrejected⟩
  · cases hanswer with
    | engine hddl =>
      cases hddl.symm.trans hmsg
    | users ddl hddl hengine failed hreported hrefused =>
      obtain ⟨rfl, hshared⟩ := hrefused msg (Option.some.inj (hddl.symm.trans hmsg))
      exact ⟨hreported, hshared⟩
  · cases hanswer with
    | engine hddl e r hask hshared hreported =>
      obtain ⟨err, herr⟩ := hrejected.execute_eq (n := C.depth)
      have hsame : C.ask w.shared.engine t = some (w.shared.engine, .error err) := by
        unfold EngineConfig.ask EngineConfig.readonly
        rw [QueryEngine.tryReadonlySelect_of_not_select hselect]
        exact herr
      cases hsame.symm.trans hask
      exact ⟨hreported, hshared⟩
    | users ddl hddl =>
      cases hnone.symm.trans hddl

theorem TurnedAway.blockStep (h : TurnedAway C w.shared.engine t) (hanswer : Answer C w t w')
    (hopen : w.conn.session.txn ≠ .idle) : BlockStep w w' := by
  obtain ⟨hreported, hshared⟩ := h.refused hanswer
  exact hreported.blockStep hopen (by rw [hshared]) fun _ => ⟨rfl, hshared⟩

theorem EngineConfig.ask_catalog {e e' : QueryEngine} {r : Except Error QueryResult}
    (h : QueryEngine.LeavesCatalog C.host C.frontend C.depth e t)
    (hask : C.ask e t = some (e', r)) : e'.catalog = e.catalog := by
  unfold EngineConfig.ask at hask
  split at hask
  · cases hask
    rfl
  · exact h.catalog_eq hask
  · cases hask

theorem NothingToUndo.blockStep (h : NothingToUndo C w.shared.engine t)
    (hanswer : Answer C w t w') (hopen : w.conn.session.txn ≠ .idle)
    (hfailed : w.conn.session.txn ≠ .failedTransaction) : BlockStep w w' := by
  cases hanswer with
  | engine hddl e r hask hshared hreported =>
    rcases h with hsome | hleaves
    · rw [hddl] at hsome
      cases hsome
    · refine hreported.blockStep hopen ?_ fun htxn => absurd htxn hfailed
      rw [hshared]
      exact EngineConfig.ask_catalog hleaves hask
  | users ddl hddl hengine failed hreported hrefused =>
    exact hreported.blockStep hopen (by rw [hengine]) fun htxn => absurd htxn hfailed

theorem Harmless.blockStep (h : Harmless C w sql) (hopen : w.conn.session.txn ≠ .idle)
    (hstep : queryStep C.services w sql = some w') : BlockStep w w' := by
  obtain ⟨stmt, hsplit, hstmt, hcond⟩ := h
  have hanswer := queryStep_of_wp (wp_statement C hsplit hstmt hopen) hstep
  rcases hcond with haway | ⟨hfailed, hundo⟩
  · exact haway.blockStep hanswer hopen
  · exact hundo.blockStep hanswer hopen hfailed

theorem control_step {c : WireCommand} {txn : TxnStatus} (hc : c.status = some txn)
    (hsql : IsCommand C.host c sql) (hstep : queryStep C.services w sql = some w') :
    w'.shared = w.shared ∧ w'.conn.session.txn = txn :=
  queryStep_of_wp (wp_control C.services hc hsql w) hstep

theorem begin_step (hbegin : IsCommand C.host .beginTxn sql)
    (hstep : queryStep C.services w sql = some w') :
    w'.shared = w.shared ∧ w'.conn.session.txn ≠ .idle := by
  have hstatus : WireCommand.beginTxn.status = some .inTransaction := rfl
  obtain ⟨hshared, htxn⟩ := control_step hstatus hbegin hstep
  rw [htxn]
  exact ⟨hshared, by decide⟩

/-- A whole block. -/
theorem block_run (hblock : Along (queryStep C.services) (Harmless C) w block)
    (hopen : w.conn.session.txn ≠ .idle) (hpre : pre <+: block)
    (hrun : run (queryStep C.services) w pre = some w') :
    w'.shared.engine.catalog = w.shared.engine.catalog ∧ w'.conn.session.txn ≠ .idle := by
  refine invariant_of_along
    (Q := fun u => u.shared.engine.catalog = w.shared.engine.catalog ∧ u.conn.session.txn ≠ .idle)
    (fun u a u' hu ha hstep => ?_) ⟨rfl, hopen⟩ hblock pre hpre w' hrun
  have hone := ha.blockStep hu.2 hstep
  exact ⟨hone.catalog.trans hu.1, hone.open_⟩

/-- Once a statement has failed the block stays failed. -/
theorem failed_run (hblock : Along (queryStep C.services) (Harmless C) w block)
    (hfailed : w.conn.session.txn = .failedTransaction) (hpre : pre <+: block)
    (hrun : run (queryStep C.services) w pre = some w') :
    w'.conn.session.txn = .failedTransaction := by
  refine invariant_of_along (Q := fun u => u.conn.session.txn = .failedTransaction)
    (fun u a u' hu ha hstep => ?_) hfailed hblock pre hpre w' hrun
  exact ((ha.blockStep (by rw [hu]; decide) hstep).refused hu).2.2

/-- A control message behind the block. -/
theorem ended_block (hblock : Along (queryStep C.services) (Harmless C) w block)
    (hopen : w.conn.session.txn ≠ .idle) (hc : c.status = some txn) (hsql : IsCommand C.host c sql)
    (hrun : run (queryStep C.services) w (block ++ [sql]) = some w') :
    w'.shared.engine.catalog = w.shared.engine.catalog := by
  rw [run_append] at hrun
  obtain ⟨u, hu, hend⟩ := Option.bind_eq_some_iff.mp hrun
  obtain ⟨v, hv, hnil⟩ := run_cons hend
  cases hnil
  rw [(control_step hc hsql hv).1]
  exact (block_run hblock hopen (prefix_refl _) hu).1

/-- **Transactions.** BEGIN and a block of harmless statements are a transaction. -/
theorem transactional_of_harmless (C : EngineConfig δ) (w : World (Shared QueryEngine δ))
    {begin_ : String} (hbegin : IsCommand C.host .beginTxn begin_) {block : List String}
    (hblock : ∀ w₁, queryStep C.services w begin_ = some w₁ →
      Along (queryStep C.services) (Harmless C) w₁ block) :
    Transactional C.services w begin_ block where
  rolledBack rollback w' hrollback hrun := by
    obtain ⟨w₁, hb, hrest⟩ := run_cons hrun
    obtain ⟨hshared, hopen⟩ := begin_step hbegin hb
    have hstatus : WireCommand.rollback.status = some .idle := rfl
    rw [← hshared]
    exact ended_block (hblock w₁ hb) hopen hstatus hrollback hrest
  refused pre sql mid later post hsplit w₁ w₂ w₃ hfails hmid hlater := by
    obtain ⟨u, hu, hsql, hfailed⟩ := hfails
    obtain ⟨w₀, hb, hpre⟩ := run_cons hu
    have halong := hblock w₀ hb
    rw [hsplit] at halong
    have hstate := block_run halong (begin_step hbegin hb).2 ⟨_, rfl⟩ hpre
    obtain ⟨hharmless, hrest⟩ := halong.of_append hpre
    have htxn₁ := (hharmless.blockStep hstate.2 hsql).failed hfailed
    have halong₁ := hrest w₁ hsql
    have htxn₂ := failed_run halong₁ htxn₁ ⟨_, rfl⟩ hmid
    have hstep := (halong₁.of_append hmid).1.blockStep (by rw [htxn₂]; decide) hlater
    exact ⟨(hstep.refused htxn₂).1, (hstep.refused htxn₂).2.1⟩
  committed commit w' hcommit _ hrun := by
    obtain ⟨w₁, hb, hrest⟩ := run_cons hrun
    obtain ⟨hshared, hopen⟩ := begin_step hbegin hb
    have hstatus : WireCommand.commit.status = some .idle := rfl
    rw [← hshared]
    exact ended_block (hblock w₁ hb) hopen hstatus hcommit hrest

end Harmless

/-! ## Two blocks -/

/-- A connection to a server over a table of one row. -/
def oneRowWorld : World (Shared QueryEngine (Finset Nat)) :=
  .start { engine := QueryEngine.oneRow, passwords := .new, drawn := 0 } []

/-- The messages of the block one by one, where none of them changes anything. -/
theorem along_of_shared {δ : Type} {C : EngineConfig δ} {shared : Shared QueryEngine δ}
    {block : List String} (hblock : ∀ sql ∈ block, ∃ stmt, splitSqlBatch sql = [stmt] ∧
      wireCommand C.host stmt = .statement ∧ TurnedAway C shared.engine (trim stmt))
    {w : World (Shared QueryEngine δ)} (hshared : w.shared = shared)
    (hopen : w.conn.session.txn ≠ .idle) : Along (queryStep C.services) (Harmless C) w block := by
  subst hshared
  induction block generalizing w with
  | nil => trivial
  | cons sql block ih =>
    obtain ⟨stmt, hsplit, hstmt, haway⟩ := hblock sql mem_cons_self
    have hharmless : Harmless C w sql := ⟨stmt, hsplit, hstmt, .inl haway⟩
    refine ⟨hharmless, fun u hu => ?_⟩
    have hsame := (haway.refused (queryStep_of_wp (wp_statement C hsplit hstmt hopen) hu)).2
    refine ih (hharmless.blockStep hopen hu).open_ fun s hs => ?_
    rw [hsame]
    exact hblock s (mem_cons_of_mem _ hs)

theorem isCommand_plain : IsCommand Host.ascii .beginTxn "BEGIN" ∧
    IsCommand Host.ascii .rollback "ROLLBACK" :=
  ⟨⟨"BEGIN", by decide +kernel, by decide +kernel⟩,
    ⟨"ROLLBACK", by decide +kernel, by decide +kernel⟩⟩

/-- The texts of a block on a table that is not there. -/
def missingBlock : List String := ["INSERT INTO u VALUES (1)", "DELETE FROM u"]

theorem missingBlock_turnedAway : ∀ sql ∈ missingBlock, ∃ stmt, splitSqlBatch sql = [stmt] ∧
    wireCommand EngineConfig.plain.host stmt = .statement ∧
      TurnedAway EngineConfig.plain oneRowWorld.shared.engine (trim stmt) := by
  intro sql hsql
  rcases mem_cons.mp hsql with rfl | hsql
  · refine ⟨"INSERT INTO u VALUES (1)", by decide +kernel, by decide +kernel, .inr ⟨?_, ?_, ?_, ?_⟩⟩
    · decide +kernel
    · decide +kernel
    · decide +kernel
    · exact ⟨none, .dml (.insert ⟨"u", none, [["1"]]⟩), by rfl, rfl, by rfl⟩
  · rw [mem_singleton.mp hsql]
    refine ⟨"DELETE FROM u", by decide +kernel, by decide +kernel, .inr ⟨?_, ?_, ?_, ?_⟩⟩
    · decide +kernel
    · decide +kernel
    · decide +kernel
    · exact ⟨none, .dml (.delete ⟨"u", none⟩), by rfl, rfl, by rfl⟩

/-- Two statements that fail, and ROLLBACK. -/
theorem missingBlock_transactional :
    (run (queryStep EngineConfig.plain.services) oneRowWorld
      ("BEGIN" :: (missingBlock ++ ["ROLLBACK"]))).isSome = true ∧
      Transactional EngineConfig.plain.services oneRowWorld "BEGIN" missingBlock := by
  constructor
  · decide +kernel
  · refine transactional_of_harmless EngineConfig.plain oneRowWorld isCommand_plain.1
      fun w₁ hw => ?_
    obtain ⟨hshared, hopen⟩ := begin_step (C := EngineConfig.plain) isCommand_plain.1 hw
    exact along_of_shared missingBlock_turnedAway hshared hopen

theorem inserted_run : (run (queryStep EngineConfig.plain.services) oneRowWorld
    ["BEGIN", "INSERT INTO t VALUES (1)", "ROLLBACK"]).map
      (fun w => (w.shared.engine.catalog.get "t").map (·.rowCount)) = some (some 2) := by
  decide +kernel

/-- The row is still there after ROLLBACK. -/
theorem insert_not_rolledBack :
    ¬ Transactional EngineConfig.plain.services oneRowWorld "BEGIN"
      ["INSERT INTO t VALUES (1)"] := by
  intro h
  obtain ⟨w', hrun, hcount⟩ := Option.map_eq_some_iff.mp inserted_run
  rw [h.rolledBack "ROLLBACK" w' isCommand_plain.2 hrun] at hcount
  exact absurd hcount (by decide +kernel)

end TensorVault.Server
