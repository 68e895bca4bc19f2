import TensorVault.Storage.LogInvariant

/-!
# Which statements the log covers

DDL and DML statements are logged under the transaction they run in. MERGE and ROLLBACK TO log
nothing, the statements of a procedure body are logged as if outside a transaction, and COPY FROM
goes past the open transaction. `Covered` says that none of this makes a difference; a session of
such statements keeps its log up to date (`covered_session`).
-/

namespace TensorVault

open Run List

namespace QueryEngine

variable {e e' : QueryEngine} {r : Except Error QueryResult}

open Wal

/-! ## The condition -/

/-- The statements of a procedure body are covered, up to the first that fails. -/
def BodyCovered (covered : QueryEngine → String → Prop) (exec : QueryEngine → String → Reply) :
    List String → QueryEngine → Prop
  | [], _ => True
  | sql :: rest, e =>
    covered e sql ∧ ∀ e' qr, exec e sql = some (e', .ok qr) → BodyCovered covered exec rest e'

/-- A SELECT that mentions no view. -/
def PlainSelect (H : Host) (F : Frontend) (e : QueryEngine) (sql : String) : Prop :=
  outerRoute H sql = .inner ∧ (∃ asOf, innerRoute H F sql = .statement asOf .select) ∧
    e.mentionedViews H sql = []

section Covered

variable (H : Host) (F : Frontend) (covered : QueryEngine → String → Prop)
  (exec : QueryEngine → String → Reply)

/-- What is asked of a statement inside `execute_inner`, where the catalog is the one the
statement works on. Compound queries are no statements of this kind. -/
def KindCovered (e : QueryEngine) (sql : String) (txnId : Option UInt64)
    (asOf : Option (String × UInt64)) : Kind → Prop
  | .createView _ => True
  | .dropView _ => True
  | .createProcedure _ => True
  | .fail _ => True
  | .abort => True
  -- The clause would be read again on replay, when the table may not be versioned yet.
  | .ddl _ _ => asOf = none
  | .dml _ => asOf = none
  | .merge m => ∀ cat n, executeMergeStmt H e.catalog m = .ok (cat, n) → cat = e.catalog
  | .select => e.mentionedViews H sql = []
  | .exec name args =>
    ∀ p, e.procedures.find? (·.name = name) = some p →
      (txnId = none ∧
        BodyCovered covered exec (bodyStatements (substituteProcParams p.body args)) e) ∨
      ∀ piece ∈ bodyStatements (substituteProcParams p.body args), PlainSelect H F e piece
  | .withClause _ => False
  | .unionAll _ _ => False
  | .pivot _ _ => False
  | .jsonValue _ _ => False

def InnerCovered (e : QueryEngine) (sql : String) (txnId : Option UInt64) : Prop :=
  match innerRoute H F sql with
  | .savepoint _ => True
  | .release _ => True
  | .abort => True
  | .rollbackTo name =>
    ∀ pos saved, e.savepointPos name = some pos → e.savepoints[pos]? = some saved →
      saved.2 = e.catalog
  | .statement asOf kind =>
    e.asOfRows asOf = none → KindCovered H F covered exec e sql txnId asOf kind

/-- An INSERT that COPY makes of a line: one that is carried out as such, or refused. -/
def CopyCovered (sql : String) : Prop :=
  (tableStatement H F sql).isSome = true ∨
    ∃ asOf err, innerRoute H F sql = .statement asOf (.fail err)

/-- The state `execute_inner` works on, and the id it logs under. -/
def inside (e : QueryEngine) : QueryEngine × Option UInt64 :=
  match e.txnManager.active with
  | none => (e, none)
  | some txn =>
    ({ e with catalog := txn.snapshot, txnManager := { e.txnManager with active := none } },
      some txn.id)

/-- What is asked of a statement text. ANALYZE and VACUUM are left out. -/
def OuterCovered (e : QueryEngine) (sql : String) : Prop :=
  match outerRoute H sql with
  | .explain _ => True
  | .checkpoint => True
  | .commit => True
  | .rollback => True
  | .abort => True
  | .beginTxn => e.txnManager.active = none → ∀ log, e.wal = some log → FreshId e log
  | .copy text =>
    match copyPlan H text with
    | .from_ table path =>
      ∀ content, H.readFile e.tick path = some content → copyStatements H table content = [] ∨
        (e.txnManager.active = none ∧ ∀ line ∈ copyStatements H table content, CopyCovered H F line)
    | _ => True
  | .inner => InnerCovered H F covered exec e.inside.1 sql e.inside.2
  | .analyze _ => False
  | .vacuum => False

end Covered

/-- The log covers the statement, in the state it is executed in. -/
def Covered (H : Host) (F : Frontend) : Nat → QueryEngine → String → Prop
  | 0 => OuterCovered H F (fun _ _ => True) (fun _ _ => none)
  | n + 1 => OuterCovered H F (Covered H F n) (execute H F n)

/-! ## Inside `execute_inner` -/

/-- What the log is about stays as it is. -/
structure Untouched (e e' : QueryEngine) : Prop where
  catalog : e'.catalog = e.catalog
  txnManager : e'.txnManager = e.txnManager
  wal : e'.wal = e.wal

theorem Untouched.refl : Untouched e e := ⟨rfl, rfl, rfl⟩

/-- Nothing the log is about, or a table statement. -/
inductive InnerStep (H : Host) (F : Frontend) (sql : String) (txnId : Option UInt64)
    (e e' : QueryEngine) : Prop where
  | untouched (h : Untouched e e')
  | logged (s : TableStatement) (hs : tableStatement H F sql = some s)
      (heffect : s.effect H e.catalog = some e'.catalog) (htxn : e'.txnManager = e.txnManager)
      (hwal : e'.wal = e.wal.map (· ++ [statementRecord sql txnId]))

variable {sql : String} {F : Frontend}

theorem innerStep_of_tableSpec {H : Host} {s : TableStatement}
    (hs : tableStatement H F sql = some s) {txnId : Option UInt64}
    (h : TableReply H s sql txnId e e' r) : InnerStep H F sql txnId e e' := by
  cases r with
  | ok qr => exact .logged s hs h.catalog h.txnManager (h.ok qr rfl)
  | error err => exact .untouched (h.error err rfl ▸ .refl)

theorem reply_state {qr : QueryResult} (h : e.reply qr = some (e', r)) : e' = e := by
  cases h
  rfl

theorem fail_state {err : Error} (h : e.fail err = some (e', r)) : e' = e := by
  cases h
  rfl

section Inner

variable {H : Host} {F : Frontend} {covered : QueryEngine → String → Prop}
  {exec : QueryEngine → String → Reply} {inner : QueryEngine → String → Option UInt64 → Reply}
  {e e' : QueryEngine} {sql : String} {txnId : Option UInt64} {r : Except Error QueryResult}

/-- Plain SELECTs do not change the state, as statements of a body. -/
def KeepsOnSelect (H : Host) (F : Frontend) (exec : QueryEngine → String → Reply) : Prop :=
  ∀ e sql, e.txnManager.active = none → PlainSelect H F e sql → (exec e sql).Keeps e

theorem kindCovered_step (hidle : e.txnManager.active = none) (hexec : KeepsOnSelect H F exec)
    {asOf : Option (String × UInt64)} {kind : Kind}
    (hroute : innerRoute H F sql = .statement asOf kind) (hrows : e.asOfRows asOf = none)
    (hkind : KindCovered H F covered exec e sql txnId asOf kind)
    (h : executeInnerStep H F exec inner e sql txnId = some (e', r)) :
    InnerStep H F sql txnId e e' ∨
      (txnId = none ∧ ∃ body, BodyCovered covered exec body e ∧
        runBody exec body .empty e = some (e', r)) := by
  have htable : ∀ s, tableStatement H F sql = some s → InnerStep H F sql txnId e e' := by
    intro s hs
    have hspec := executeInnerStep_table hs exec inner e txnId
    rw [h] at hspec
    exact innerStep_of_tableSpec hs hspec
  unfold executeInnerStep at h
  rw [hroute] at h
  simp only [hrows] at h
  cases kind with
  | createView | dropView | createProcedure => cases h; exact .inl (.untouched ⟨rfl, rfl, rfl⟩)
  | fail err => cases h; exact .inl (.untouched (.refl))
  | abort => cases h
  | ddl d temporal =>
    obtain rfl : asOf = none := hkind
    cases temporal with
    | some name => exact .inl (htable (.ddl d) (by rw [tableStatement, hroute]))
    | none =>
      -- The statement is refused, or the process ends.
      simp only [executeKind, executeDdlStmt] at h
      split at h
      · exact .inl (.untouched (fail_state h ▸ .refl))
      · cases h
      · cases h
  | dml d =>
    obtain rfl : asOf = none := hkind
    exact .inl (htable (.dml d) (by rw [tableStatement, hroute]))
  | merge m =>
    simp only [executeKind, executeMergeReply] at h
    split at h
    · exact .inl (.untouched (fail_state h ▸ .refl))
    · cases h
    · next cat n hm =>
      cases h
      exact .inl (.untouched ⟨hkind cat n hm, rfl, rfl⟩)
  | select => exact .inl (.untouched (executeSelectText_keeps hkind e' r h ▸ .refl))
  | exec name args =>
    simp only [executeKind, executeExec] at h
    split at h
    · exact .inl (.untouched (fail_state h ▸ .refl))
    · next p hp =>
      rcases hkind p hp with ⟨htxn, hbody⟩ | hbody
      · exact .inr ⟨htxn, _, hbody, h⟩
      · have hkeeps := runBody_keeps fun piece hp => hexec e piece hidle (hbody piece hp)
        exact .inl (.untouched (hkeeps _ e' r h ▸ .refl))
  | withClause | unionAll | pivot | jsonValue => exact absurd hkind id

/-- A covered text inside `execute_inner`: a single step, or a procedure body outside a
transaction. -/
theorem innerCovered_step (hidle : e.txnManager.active = none) (hexec : KeepsOnSelect H F exec)
    (hcovered : InnerCovered H F covered exec e sql txnId)
    (h : executeInnerStep H F exec inner e sql txnId = some (e', r)) :
    InnerStep H F sql txnId e e' ∨
      (txnId = none ∧ ∃ body, BodyCovered covered exec body e ∧
        runBody exec body .empty e = some (e', r)) := by
  unfold InnerCovered at hcovered
  split at hcovered
  · next name hroute =>
    simp only [executeInnerStep, hroute] at h
    cases h
    exact .inl (.untouched ⟨rfl, rfl, rfl⟩)
  · next name hroute =>
    simp only [executeInnerStep, hroute, executeReleaseSavepoint] at h
    split at h
    · exact .inl (.untouched (fail_state h ▸ .refl))
    · cases h
      exact .inl (.untouched ⟨rfl, rfl, rfl⟩)
  · next hroute =>
    simp only [executeInnerStep, hroute] at h
    cases h
  · next name hroute =>
    simp only [executeInnerStep, hroute, executeRollbackTo] at h
    split at h
    · exact .inl (.untouched (fail_state h ▸ .refl))
    · next pos hpos =>
      split at h
      · cases h
      · next label snapshot hsaved =>
        cases h
        exact .inl (.untouched ⟨hcovered pos _ hpos hsaved, rfl, rfl⟩)
  · next asOf kind hroute =>
    cases hrows : e.asOfRows asOf with
    | none => exact kindCovered_step hidle hexec hroute hrows (hcovered hrows) h
    | some qr =>
      simp only [executeInnerStep, hroute, hrows] at h
      exact .inl (.untouched (reply_state h ▸ .refl))

end Inner

/-! ## Sessions -/

section

variable {H : Host} {F : Frontend} {e e' : QueryEngine} {log : List WalRecord} {sql : String}
  {r : Except Error QueryResult} {txn : Transaction} {n : Nat}
  {covered : QueryEngine → String → Prop} {exec : QueryEngine → String → Reply}

theorem inside_idle (h : e.txnManager.active = none) : e.inside = (e, none) := by
  rw [inside, h]

theorem inside_open (h : e.txnManager.active = some txn) :
    e.inside =
      ({ e with catalog := txn.snapshot, txnManager := { e.txnManager with active := none } },
        some txn.id) := by
  rw [inside, h]

/-- A single step outside a transaction. -/
theorem Logged.innerStep (h : Logged H F e log) (hidle : e.txnManager.active = none)
    (hstep : InnerStep H F sql none e e') :
    LoggedAfter H F e' log ∧ e'.txnManager.active = none := by
  cases hstep with
  | untouched hsame =>
    exact ⟨(h.of_eq hsame.catalog hsame.txnManager hsame.wal).kept,
      by rw [hsame.txnManager]; exact hidle⟩
  | logged s hs heffect htxn hwal =>
    exact ⟨⟨_, h.autocommitted hs hidle heffect htxn hwal⟩, by rw [htxn]; exact hidle⟩

/-- A single step inside one. -/
theorem Logged.innerStep_open (h : Logged H F e log) (hactive : e.txnManager.active = some txn)
    {i' : QueryEngine} (hstep : InnerStep H F sql e.inside.2 e.inside.1 i') :
    LoggedAfter H F
      { i' with
        catalog := e.catalog
        txnManager :=
          { i'.txnManager with active := some { id := txn.id, snapshot := i'.catalog } } }
      log := by
  rw [inside_open hactive] at hstep
  cases hstep with
  | untouched hsame =>
    refine Logged.kept ?_
    refine h.of_eq rfl ?_ hsame.wal
    have htxn : i'.txnManager = { e.txnManager with active := none } := hsame.txnManager
    have hcat : i'.catalog = txn.snapshot := hsame.catalog
    simp only [htxn, hcat, ← hactive]
  | logged s hs heffect htxn hwal => exact ⟨_, h.inTxn hs hactive heffect rfl rfl hwal⟩

/-- The lines of a file, inserted outside a transaction. -/
theorem Logged.copyRows (h : Logged H F e log) (hidle : e.txnManager.active = none)
    {lines : List String} (hlines : ∀ line ∈ lines, CopyCovered H F line) {count : Nat}
    (hreply : copyRows (executeInner H F n) lines count e = some (e', r)) :
    LoggedAfter H F e' log := by
  induction lines generalizing e log count with
  | nil => exact reply_state hreply ▸ h.kept
  | cons line lines ih =>
    have hstep : ∀ i' r, executeInner H F n e line none = some (i', r) →
        InnerStep H F line none e i' := by
      intro i' r hi'
      rcases hlines line mem_cons_self with hs | ⟨asOf, err, hroute⟩
      · obtain ⟨s, hs⟩ := Option.isSome_iff_exists.mp hs
        have hspec := executeInner_table hs n e none
        rw [hi'] at hspec
        exact innerStep_of_tableSpec hs hspec
      · have hsame := executeInner_idle (.inr ⟨asOf, err, hroute⟩) i' r hi'
        exact .untouched (hsame ▸ .refl)
    simp only [QueryEngine.copyRows, Reply.andThen] at hreply
    split at hreply
    · next u qr hu =>
      obtain ⟨⟨added, h₁⟩, hidle₁⟩ := h.innerStep hidle (hstep u _ hu)
      exact (ih h₁ hidle₁ (forall_mem_cons.mp hlines).2 hreply).of_append
    · next u err hu =>
      cases hreply
      exact (h.innerStep hidle (hstep _ _ hu)).1
    · cases hreply

theorem Logged.executeCopy (h : Logged H F e log) {text : String}
    (hcovered : ∀ table path, copyPlan H text = .from_ table path →
      ∀ content, H.readFile e.tick path = some content → copyStatements H table content = [] ∨
        (e.txnManager.active = none ∧
          ∀ line ∈ copyStatements H table content, CopyCovered H F line))
    (hreply : executeCopy H (executeInner H F n) e text = some (e', r)) :
    LoggedAfter H F e' log := by
  have htick : Logged H F { e with tick := e.tick + 1 } log := h.of_eq rfl rfl rfl
  unfold QueryEngine.executeCopy at hreply
  split at hreply
  · exact fail_state hreply ▸ h.kept
  · split at hreply
    · exact fail_state hreply ▸ h.kept
    · simp only at hreply
      split at hreply
      · exact reply_state hreply ▸ htick.kept
      · exact fail_state hreply ▸ htick.kept
  · next table path hplan =>
    simp only at hreply
    split at hreply
    · exact fail_state hreply ▸ htick.kept
    · next content hcontent =>
      split at hreply
      · exact fail_state hreply ▸ htick.kept
      · rcases hcovered table path hplan content hcontent with hnone | ⟨hidle, hlines⟩
        · rw [hnone] at hreply
          exact reply_state hreply ▸ htick.kept
        · exact htick.copyRows hidle hlines hreply

/-- The statements of a body, if each keeps the log up to date. -/
theorem Logged.runBody (hexec : ∀ {e e' : QueryEngine} {log : List WalRecord} {sql : String}
      {r : Except Error QueryResult}, Logged H F e log → covered e sql →
        exec e sql = some (e', r) → LoggedAfter H F e' log) (h : Logged H F e log)
    {body : List String} (hbody : BodyCovered covered exec body e) {last : QueryResult}
    (hreply : runBody exec body last e = some (e', r)) : LoggedAfter H F e' log := by
  induction body generalizing e log last with
  | nil => exact reply_state hreply ▸ h.kept
  | cons sql body ih =>
    simp only [QueryEngine.runBody, Reply.andThen] at hreply
    split at hreply
    · next u qr hu =>
      obtain ⟨added, h₁⟩ := hexec h hbody.1 hu
      exact (ih h₁ (hbody.2 u qr hu) hreply).of_append
    · next u err hu =>
      cases hreply
      exact hexec h hbody.1 hu
    · cases hreply

theorem keepsOnSelect_execute : KeepsOnSelect H F (execute H F n) := by
  intro e sql hidle hselect
  obtain ⟨houter, ⟨asOf, hroute⟩, hviews⟩ := hselect
  simp only [execute, executeStep, houter, executeRouted, hidle]
  exact executeInner_idle (.inl ⟨asOf, hroute, hviews⟩)

/-- One covered statement, given what the statements of procedure bodies do. -/
theorem Logged.outer {inner : QueryEngine → String → Option UInt64 → Reply}
    (hinner : executeInner H F n = executeInnerStep H F exec inner)
    (hselect : KeepsOnSelect H F exec)
    (hexec : ∀ {e e' : QueryEngine} {log : List WalRecord} {sql : String}
      {r : Except Error QueryResult}, Logged H F e log → covered e sql →
        exec e sql = some (e', r) → LoggedAfter H F e' log) (h : Logged H F e log)
    (hcovered : OuterCovered H F covered exec e sql) (hreply : execute H F n e sql = some (e', r)) :
    LoggedAfter H F e' log := by
  have hcommand : ∀ c, command H F sql = some c →
      (c = .beginTxn → e.txnManager.active = none → FreshId e log) →
      LoggedAfter H F e' log := by
    intro c hc hfresh
    have hsession : sessionStep H F n e sql = some e' := by rw [sessionStep, hreply]; rfl
    exact h.step hc (commandStep_of_sessionStep hc hsession) hfresh
  have hstep := hreply
  unfold execute executeStep at hstep
  unfold OuterCovered at hcovered
  split at hcovered
  · next rest hroute =>
    simp only [hroute] at hstep
    exact executeExplain_keeps e' r hstep ▸ h.kept
  · next hroute =>
    simp only [hroute] at hstep
    exact reply_state hstep ▸ h.kept
  · next hroute => exact hcommand .commit (by rw [command, hroute]) (fun hc => by cases hc)
  · next hroute => exact hcommand .rollback (by rw [command, hroute]) (fun hc => by cases hc)
  · next hroute =>
    simp only [hroute] at hstep
    cases hstep
  · next hroute =>
    exact hcommand .beginTxn (by rw [command, hroute]) fun _ hidle => hcovered hidle log h.wal
  · next text hroute =>
    simp only [hroute] at hstep
    refine h.executeCopy (fun table path hplan => ?_) hstep
    rw [hplan] at hcovered
    exact hcovered
  · next hroute =>
    simp only [hroute, executeRouted] at hstep
    split at hstep
    · next hidle =>
      rw [inside_idle hidle] at hcovered
      rw [hinner] at hstep
      rcases innerCovered_step hidle hselect hcovered hstep with hone | ⟨-, body, hbody, hrun⟩
      · exact (h.innerStep hidle hone).1
      · exact h.runBody hexec hbody hrun
    · next txn hactive =>
      split at hstep
      · cases hstep
      · next i' r' hi' =>
        cases hstep
        rw [hinner] at hi'
        have hone : InnerStep H F sql e.inside.2 e.inside.1 i' := by
          rw [inside_open hactive] at hcovered ⊢
          rcases innerCovered_step rfl hselect hcovered hi' with hone | ⟨hnone, -⟩
          · exact hone
          · cases hnone
        exact h.innerStep_open hactive hone
  · exact absurd hcovered id
  · exact absurd hcovered id

/-- **The log stays up to date** over a covered statement. -/
theorem Logged.execute (h : Logged H F e log) (hcovered : Covered H F n e sql)
    (hreply : execute H F n e sql = some (e', r)) : LoggedAfter H F e' log := by
  induction n generalizing e e' log sql r with
  | zero =>
    refine h.outer rfl (fun _ _ _ _ => Reply.keeps_none) (fun _ _ h => by cases h) hcovered hreply
  | succ n ih => exact h.outer rfl keepsOnSelect_execute ih hcovered hreply

end

/-- **Completeness of the log.** In a session on a data directory whose statements are all
covered, the log restores the committed catalog at every moment. -/
theorem covered_session (H : Host) (F : Frontend) (n tick : Nat) (log₀ : List WalRecord)
    (hplain : Plain H F log₀) (e₀ : QueryEngine) (hopen : withDataDir H F n tick log₀ = some e₀)
    (texts : List String) (hcovered : Along (sessionStep H F n) (Covered H F n) e₀ texts)
    (pre : List String) (hpre : pre <+: texts) (e : QueryEngine)
    (hrun : run (sessionStep H F n) e₀ pre = some e) :
    ∃ log, e.wal = some log ∧
      ∀ m tick', ∃ u, withDataDir H F m tick' log = some u ∧ u.catalog = e.catalog := by
  have hstep : ∀ (e : QueryEngine) (sql : String) (e' : QueryEngine),
      (∃ log, Logged H F e log) → Covered H F n e sql → sessionStep H F n e sql = some e' →
        ∃ log, Logged H F e' log := by
    rintro e sql e' ⟨log, hlog⟩ hcov hs
    obtain ⟨⟨u, r⟩, hreply, rfl⟩ := Option.map_eq_some_iff.mp hs
    obtain ⟨added, hadded⟩ := hlog.execute hcov hreply
    exact ⟨log ++ added, hadded⟩
  obtain ⟨log, hlog⟩ :=
    invariant_of_along hstep ⟨log₀, Logged.start hplain hopen⟩ hcovered pre hpre e hrun
  exact ⟨log, hlog.wal, fun m tick' => hlog.withDataDir⟩

/-- Statements that are covered in every state. -/
theorem covered_of_route {H : Host} (h : outerRoute H sql = .commit ∨ outerRoute H sql = .inner ∧
      ((tableStatement H F sql).isSome = true ∨ ∃ name, innerRoute H F sql = .savepoint name))
    (n : Nat) (e : QueryEngine) : Covered H F n e sql := by
  have hinner : ∀ covered exec, OuterCovered H F covered exec e sql := by
    intro covered exec
    unfold OuterCovered
    rcases h with h | ⟨h, htable | ⟨name, hname⟩⟩
    · rw [h]
      trivial
    · rw [h]
      simp only [InnerCovered]
      unfold tableStatement at htable
      split at htable
      · next hroute => rw [hroute]; exact fun _ => rfl
      · next hroute => rw [hroute]; exact fun _ => rfl
      · cases htable
    · rw [h]
      simp only [InnerCovered, hname]
  cases n with
  | zero | succ => exact hinner _ _

def savepointTexts : List String :=
  ["CREATE TABLE t (a INT)", "SAVEPOINT s", "INSERT INTO t VALUES (1)", "COMMIT"]

theorem innerRoute_savepoint :
    innerRoute Host.ascii Frontend.closed "SAVEPOINT s" = .savepoint "s" := rfl

variable {n : Nat}

theorem savepointTexts_covered (hsql : sql ∈ savepointTexts) :
    Covered Host.ascii Frontend.closed n e sql := by
  have hroutes : ∀ sql ∈ savepointTexts, outerRoute Host.ascii sql = .commit ∨
      outerRoute Host.ascii sql = .inner ∧
        ((tableStatement Host.ascii Frontend.closed sql).isSome = true ∨
          sql = "SAVEPOINT s") := by decide +kernel
  rcases hroutes sql hsql with h | ⟨h, htable | rfl⟩
  · exact covered_of_route (.inl h) n e
  · exact covered_of_route (.inr ⟨h, .inl htable⟩) n e
  · exact covered_of_route (.inr ⟨h, .inr ⟨"s", innerRoute_savepoint⟩⟩) n e

theorem begin_covered : Covered Host.ascii Frontend.closed n
    { new with wal := some [], tick := 0 } "BEGIN" := by
  have hroute : outerRoute Host.ascii "BEGIN" = .beginTxn := by decide +kernel
  have houter : ∀ covered exec, OuterCovered Host.ascii Frontend.closed covered exec
      { new with wal := some [], tick := 0 } "BEGIN" := by
    intro covered exec
    simp only [OuterCovered, hroute]
    intro _ log hlog
    cases hlog
    exact ⟨by decide, fun r hr => by cases hr⟩
  cases n with
  | zero | succ => exact houter _ _

theorem savepointTexts_along : Along (sessionStep Host.ascii Frontend.closed n)
    (Covered Host.ascii Frontend.closed n) { new with wal := some [], tick := 0 }
    ("BEGIN" :: savepointTexts) :=
  ⟨begin_covered, fun u _ => along_of_forall (fun _ h _ => savepointTexts_covered h) u⟩

theorem savepointTexts_restored :
    ∃ e, run (sessionStep Host.ascii Frontend.closed 0) { new with wal := some [], tick := 0 }
        ("BEGIN" :: savepointTexts) = some e ∧
      ∃ log, e.wal = some log ∧ ∀ m tick', ∃ u,
        withDataDir Host.ascii Frontend.closed m tick' log = some u ∧ u.catalog = e.catalog := by
  refine (Option.isSome_iff_exists.mp (by decide +kernel)).imp fun e hrun => ⟨hrun, ?_⟩
  have hplain : Plain Host.ascii Frontend.closed [] := fun p hp => by cases hp
  exact covered_session Host.ascii Frontend.closed 0 0 [] hplain _ rfl _ savepointTexts_along _
    (prefix_refl _) e hrun

/-- The row that ROLLBACK TO took back is there again after a restart. -/
theorem rolledBackTo_row_restored :
    ((run (sessionStep Host.ascii Frontend.closed 0) { new with wal := some [], tick := 0 }
        ["CREATE TABLE t (a INT)", "BEGIN", "SAVEPOINT s", "INSERT INTO t VALUES (1)",
          "ROLLBACK TO s", "COMMIT"]).map fun e =>
      ((e.catalog.get "t").map (·.rowCount),
        (e.wal.bind (withDataDir Host.ascii Frontend.closed 0 0)).bind
          fun u => (u.catalog.get "t").map (·.rowCount))) = some (some 0, some 1) := by
  decide +kernel

end QueryEngine

end TensorVault
