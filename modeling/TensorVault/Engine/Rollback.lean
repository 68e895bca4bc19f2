import TensorVault.Engine.Effect
import TensorVault.Engine.Query

/-!
# What ROLLBACK undoes

ROLLBACK throws the copy of the catalog away. Indexes, views, procedures and the copies of versioned
tables are changed in place, and `ANALYZE` and `COPY FROM` go to the main catalog. A block leaves no
trace in what queries read if none of its statements, down to the bodies of procedures and the texts
of views, touches these (`Quiet`, `rollback_restores`).
-/

namespace TensorVault

open Text Sql Run List Option

/-- What a transaction does not copy. -/
structure Env where
  indexManager : IndexManager
  views : List ViewDef
  procedures : List ProcedureDef
  temporals : String → Option TemporalTable

namespace QueryEngine

def env (e : QueryEngine) : Env where
  indexManager := e.indexManager
  views := e.views
  procedures := e.procedures
  temporals := e.temporals

/-! ## Statements that leave it alone -/

section

variable (H : Host) (F : Frontend) (E : Env)

/-- The index manager stays as it is: no new index, and none dropped by name or with its column. -/
def DdlQuiet (im : IndexManager) : DdlStatement → Prop
  | .alterTable at_ =>
    ∀ col, at_.action = .dropColumn col → im.indexes (fullName at_.schema at_.name) col = none
  | .createIndex ci => (im.byName ci.indexName).isSome = true
  | .dropIndex di => im.byName di.indexName = none
  | _ => True

/-- `exec` and `inner` say which texts may be handed to `execute` and to `execute_inner`. -/
def KindQuiet (exec inner : String → Prop) (sql : String) : Kind → Prop
  | .withClause w => (∀ cte ∈ w.ctes, CteTexts inner cte) ∧ inner w.outerQuery
  | .createView _ => False
  | .dropView name => ∀ v ∈ E.views, v.name ≠ name
  | .createProcedure _ => False
  | .exec name args =>
    ∀ p, E.procedures.find? (·.name = name) = some p →
      ∀ piece ∈ bodyStatements (substituteProcParams p.body args), exec piece
  | .merge _ => True
  | .unionAll left right => inner left ∧ inner right
  | .pivot stripped _ => inner stripped
  | .jsonValue rewritten _ => inner rewritten
  | .ddl d temporal => DdlQuiet E.indexManager d ∧ ∀ name, temporal ≠ some (some name)
  | .dml d => E.temporals d.table = none
  | .select =>
    ∀ v ∈ E.views, contains (H.toLowercase sql) ("from " ++ H.toLowercase v.name) = true →
      inner v.selectSql
  | .fail _ => True
  | .abort => True

def InnerQuiet (exec inner : String → Prop) (sql : String) : Prop :=
  ∀ asOf kind, innerRoute H F sql = .statement asOf kind → KindQuiet H E exec inner sql kind

/-- The texts that are quiet for `executeInner n`. -/
def QuietText : Nat → String → Prop
  | 0 => InnerQuiet H F E (fun _ => True) fun _ => True
  | n + 1 => InnerQuiet H F E (OuterQuiet H (QuietText n)) (QuietText n)

/-- A statement of a transaction that leaves no trace once the snapshot is gone: `ANALYZE` and
`COPY FROM` do not get to write to the main catalog, and the transaction stays open. -/
@[irreducible] def Quiet (n : Nat) (e : QueryEngine) (sql : String) : Prop :=
  match outerRoute H sql with
  | .analyze rest =>
    (∃ asOf, innerRoute H F rest = .statement asOf .select ∧ e.mentionedViews H rest = []) ∨
      ∃ asOf err, innerRoute H F rest = .statement asOf (.fail err)
  | .copy text =>
    ∀ table path content, copyPlan H text = .from_ table path →
      H.readFile e.tick path = some content → copyStatements H table content = []
  | .commit => False
  | .rollback => False
  | .inner => QuietText H F e.env n sql
  | _ => True

end

/-! ## They do leave it alone -/

/-- One engine, with the given surroundings. -/
def Kept (E : Env) (e e' : QueryEngine) : Prop := e' = e ∧ e.env = E

section Kept

variable {innerQuiet : String → Prop} {inner : QueryEngine → String → Option UInt64 → Reply}
  {H : Host} {F : Frontend} {E : Env} {e : QueryEngine} {d : DdlStatement} {i : Option UInt64}
  {sql : String}

theorem Kept.controlRel : ControlRel (Kept E) where
  eq h := ⟨_, _, h.1⟩
  set h _ _ _ := ⟨by rw [h.1], h.2⟩
  vacuum := by
    rintro e _ ⟨rfl, he⟩
    exact .some ⟨rfl, he⟩ _
  beginTxn := by
    rintro e _ ⟨rfl, he⟩
    unfold executeBegin
    split <;> exact .some ⟨rfl, he⟩ _
  commit := by
    rintro e _ ⟨rfl, he⟩
    unfold executeCommit
    split <;> exact .some ⟨rfl, he⟩ _
  rollback := by
    rintro e _ ⟨rfl, he⟩
    unfold executeRollback
    split <;> exact .some ⟨rfl, he⟩ _

theorem Kept.env_eq {x : Reply} (h : ReplyRel (Kept E) x x)
    {r : Except Error QueryResult} (hx : x = Option.some (e, r)) : e.env = E := by
  subst hx
  cases h with
  | some h => exact h.2

theorem executeDdl_indexManager {cat cat' : Catalog} {im im' : IndexManager}
    (hd : DdlQuiet im d) (h : executeDdl H cat im d = .ok (cat', im')) : im' = im := by
  cases executeDdl_eq_ok h with
  | existing | created | missing | dropped | schema | added | retyped => rfl
  | removed _ haction => rw [IndexManager.drop, hd _ haction]
  | createIndex hc =>
    simp only [DdlQuiet] at hd
    simp only [executeCreateIndex, hd, if_true] at hc
    split at hc <;> cases hc
    rfl
  | dropIndex hc =>
    simp only [DdlQuiet] at hd
    simp only [executeDropIndex, IndexManager.dropByName, hd] at hc
    split at hc <;> cases hc
    rfl

theorem executeDdlStmt_env (he : e.env = E) (hd : DdlQuiet E.indexManager d)
    {temporal : Option (Option String)} (htemporal : ∀ name, temporal ≠ some (some name)) :
    ReplyRel (Kept E) (executeDdlStmt H e sql i d temporal)
      (executeDdlStmt H e sql i d temporal) := by
  subst he
  unfold executeDdlStmt
  split
  · exact .some ⟨rfl, rfl⟩ _
  · exact .none
  · next cat im hok =>
    have him : im = e.indexManager := executeDdl_indexManager hd hok
    subst him
    simp only
    split
    · next name => exact (htemporal name rfl).elim
    · exact .some ⟨rfl, rfl⟩ _
    · exact .none

theorem executeDmlStmt_env (he : e.env = E) {d : DmlStatement} (hd : E.temporals d.table = none) :
    ReplyRel (Kept E) (executeDmlStmt H e sql i d) (executeDmlStmt H e sql i d) := by
  subst he
  unfold executeDmlStmt
  split
  · exact .some ⟨rfl, rfl⟩ _
  · exact .none
  · next cat n hok =>
    have hsync : syncTemporal H { e with catalog := cat } e.catalog d =
        { e with catalog := cat } := by
      unfold syncTemporal
      simp only [show e.temporals d.table = none from hd]
    rw [hsync]
    exact .some ⟨rfl, rfl⟩ _

section Step

variable {execQuiet : String → Prop} {exec : QueryEngine → String → Reply}
  (hexec : ∀ ⦃e e' : QueryEngine⦄, Kept E e e' → ∀ sql, execQuiet sql →
    ReplyRel (Kept E) (exec e sql) (exec e' sql))
  (hinner : ∀ i, InnerRel (Kept E) innerQuiet inner i i)

include hexec hinner

theorem executeKind_env {kind : Kind}
    (hkind : KindQuiet H E execQuiet innerQuiet sql kind) (he : e.env = E) :
    ReplyRel (Kept E) (executeKind H F exec inner e sql i kind)
      (executeKind H F exec inner e sql i kind) := by
  subst he
  have hkept : Kept e.env e e := ⟨rfl, rfl⟩
  cases kind with
  | createView v => exact hkind.elim
  | dropView name =>
    have hsame : e.views.filter (·.name ≠ name) = e.views :=
      filter_eq_self.mpr fun v hv => decide_eq_true (hkind v hv)
    rw [executeKind, dropView, hsame]
    exact .reply hkept
  | createProcedure p => exact hkind.elim
  | exec name args =>
    rw [executeKind, executeExec]
    split
    · exact .fail hkept
    · next p hp => exact runBody_rel hexec (hkind p hp) _ hkept
  | merge m =>
    rw [executeKind, executeMergeReply]
    split
    · exact .fail hkept
    · exact .none
    · exact .some ⟨rfl, rfl⟩ _
  | ddl d temporal => exact executeDdlStmt_env rfl hkind.1 hkind.2
  | dml d => exact executeDmlStmt_env rfl hkind
  | withClause | unionAll | pivot | jsonValue | select | fail | abort =>
    exact executeKind_query Kept.controlRel.readRel (hinner i) (hinner none) hkind hkept

theorem executeInnerStep_env :
    InnerRel (Kept E) (InnerQuiet H F E execQuiet innerQuiet)
      (executeInnerStep H F exec inner) i i := by
  rintro e _ ⟨rfl, he⟩ sql hsql
  exact executeInnerStep_rel Kept.controlRel ⟨rfl, he⟩ fun asOf kind hroute =>
    executeKind_env hexec hinner (hsql asOf kind hroute) he

end Step

theorem executeRouted_env (hinner : ∀ i, InnerRel (Kept E) innerQuiet inner i i)
    (hsql : innerQuiet sql) (he : e.env = E) :
    ReplyRel (Kept E) (executeRouted inner e sql) (executeRouted inner e sql) := by
  unfold executeRouted
  split
  · exact hinner none ⟨rfl, he⟩ sql hsql
  · next txn _ =>
    simp only
    have hreply := hinner (some txn.id) (e := { e with
      catalog := txn.snapshot, txnManager := { e.txnManager with active := none } })
      ⟨rfl, he⟩ sql hsql
    split
    · exact .none
    · next hsome =>
      have hu := Kept.env_eq hreply hsome
      exact .some ⟨rfl, hu⟩ _

/-- The statements of a procedure body, transactions of its own included. -/
theorem executeStep_env (hinner : ∀ i, InnerRel (Kept E) innerQuiet inner i i) ⦃e e' : QueryEngine⦄
    (h : Kept E e e') (sql : String) (hsql : OuterQuiet H innerQuiet sql) :
    ReplyRel (Kept E) (executeStep H F inner e sql) (executeStep H F inner e' sql) := by
  obtain ⟨rfl, he⟩ := h
  exact executeStep_rel Kept.controlRel ⟨rfl, he⟩ (hinner none)
    (fun hquiet => executeRouted_env hinner hquiet he) hsql

theorem executeInner_env {n : Nat} (i : Option UInt64) :
    InnerRel (Kept E) (QuietText H F E n) (executeInner H F n) i i := by
  induction n generalizing i with
  | zero => exact executeInnerStep_env (fun _ _ _ _ _ => .none) (fun _ _ _ _ _ _ => .none)
  | succ n ih => exact executeInnerStep_env (executeStep_env ih) ih

end Kept

/-! ## The block -/

/-- Inside a block that was entered from `e₀`. -/
structure InBlock (e₀ e : QueryEngine) : Prop where
  catalog : e.catalog = e₀.catalog
  env : e.env = e₀.env
  active : e.txnManager.active.isSome = true

section Block

variable {block : List String} {H : Host} {F : Frontend} {n : Nat} {e₀ e e' : QueryEngine}
  {sql begin_ : String}

/-- The statement works on the snapshot, and the surroundings stay. -/
theorem InBlock.routed (h : InBlock e₀ e) (hsql : QuietText H F e.env n sql)
    {r : Except Error QueryResult}
    (hreply : executeRouted (executeInner H F n) e sql = some (e', r)) : InBlock e₀ e' := by
  have henv : e'.env = e.env :=
    Kept.env_eq (executeRouted_env executeInner_env hsql rfl) hreply
  obtain ⟨txn, htxn⟩ := isSome_iff_exists.mp h.active
  simp only [executeRouted, htxn] at hreply
  split at hreply
  · cases hreply
  · cases hreply
    exact ⟨h.catalog, henv.trans h.env, rfl⟩

theorem InBlock.step (h : InBlock e₀ e) (hquiet : Quiet H F n e sql)
    (hstep : sessionStep H F n e sql = some e') : InBlock e₀ e' := by
  obtain ⟨⟨_, r⟩, hreply, rfl⟩ := map_eq_some_iff.mp hstep
  obtain ⟨txn, htxn⟩ := isSome_iff_exists.mp h.active
  unfold Quiet at hquiet
  unfold execute executeStep at hreply
  split at hreply <;> rename_i hroute <;> simp only [hroute] at hquiet
  · exact executeExplain_keeps _ r hreply ▸ h
  · -- ANALYZE does not enter the transaction
    exact executeAnalyze_idle hquiet _ r hreply ▸ h
  · cases hreply
    exact ⟨h.catalog, h.env, h.active⟩
  · obtain ⟨tick, rfl⟩ := executeCopy_idle hquiet hreply
    exact ⟨h.catalog, h.env, h.active⟩
  · cases hreply
    exact h
  · simp only [executeBegin, htxn] at hreply
    cases hreply
    exact h
  · exact h.routed hquiet hreply
  · cases hreply

theorem InBlock.of_begin (hidle : e.txnManager.active = none)
    (hbegin : outerRoute H begin_ = .beginTxn) (hstep : sessionStep H F n e begin_ = some e') :
    InBlock e e' := by
  simp only [sessionStep, execute, executeStep, hbegin, executeBegin, hidle] at hstep
  cases hstep
  exact ⟨rfl, rfl, rfl⟩

/-- BEGIN, a quiet block and ROLLBACK leave what queries read as it was. -/
theorem sameData_of_rollback {u : QueryEngine} (hidle : e.txnManager.active = none)
    {rollback : String} (hbegin : outerRoute H begin_ = .beginTxn)
    (hrollback : outerRoute H rollback = .rollback)
    (hquiet : Along (sessionStep H F n) (Quiet H F n) e (begin_ :: block))
    (hrun : run (sessionStep H F n) e (begin_ :: (block ++ [rollback])) = some u) :
    SameData e.views e u := by
  obtain ⟨e₁, hb, hrest⟩ := run_cons hrun
  rw [run_append] at hrest
  obtain ⟨e₂, hblock, hend⟩ := bind_eq_some_iff.mp hrest
  have hin : InBlock e e₂ :=
    invariant_of_along (fun _ _ _ h hq hs => h.step hq hs) (.of_begin hidle hbegin hb)
      (hquiet.2 e₁ hb) block (prefix_refl _) e₂ hblock
  obtain ⟨e₃, hr, hnil⟩ := run_cons hend
  cases hnil
  obtain ⟨txn, htxn⟩ := isSome_iff_exists.mp hin.active
  simp only [sessionStep, execute, executeStep, hrollback, executeRollback, htxn] at hr
  cases hr
  have henv := hin.env
  exact ⟨hin.catalog, congrArg Env.indexManager henv, rfl, congrArg Env.views henv,
    congrArg Env.temporals henv, hidle, rfl⟩

/-- **Rollback.** After BEGIN, a block of quiet statements and ROLLBACK, every list of queries is
answered as if the block had not been there. -/
theorem rollback_restores (H : Host) (F : Frontend) (n : Nat) {e u : QueryEngine}
    (hidle : e.txnManager.active = none) {begin_ rollback : String}
    (hbegin : outerRoute H begin_ = .beginTxn) (hrollback : outerRoute H rollback = .rollback)
    {block : List String} (hquiet : Along (sessionStep H F n) (Quiet H F n) e (begin_ :: block))
    (hrun : run (sessionStep H F n) e (begin_ :: (block ++ [rollback])) = some u)
    {queries : List String} (hqueries : ∀ q ∈ queries, IsQuery H F e.views n q) :
    answers H F n u queries = answers H F n e queries :=
  answers_eq hqueries (sameData_of_rollback hidle hbegin hrollback hquiet hrun)

/-- The condition can be checked where the block begins. -/
theorem InBlock.along (h : InBlock e₀ e)
    (hblock : ∀ sql ∈ block, ∀ u : QueryEngine, u.env = e₀.env → Quiet H F n u sql) :
    Along (sessionStep H F n) (Quiet H F n) e block := by
  induction block generalizing e with
  | nil => trivial
  | cons sql block ih =>
    have hquiet := hblock sql mem_cons_self e h.env
    exact ⟨hquiet, fun u hu =>
      ih (h.step hquiet hu) (forall_mem_cons.mp hblock).2⟩

theorem quiet_dml {d : DmlStatement}
    (houter : outerRoute H sql = .inner) (hroute : innerRoute H F sql = .statement none (.dml d))
    (he : e.temporals d.table = none) : Quiet H F n e sql := by
  have hinner : ∀ exec inner, InnerQuiet H F e.env exec inner sql := by
    intro exec inner asOf kind h
    rw [hroute] at h
    cases h
    exact he
  unfold Quiet
  rw [houter]
  cases n with
  | zero | succ => exact hinner _ _

/-- A block of INSERT, UPDATE and DELETE on tables that are not versioned. -/
theorem along_dml (hidle : e.txnManager.active = none)
    (hbegin : outerRoute H begin_ = .beginTxn) (hblock : ∀ sql ∈ block, outerRoute H sql = .inner ∧
      ∃ d, innerRoute H F sql = .statement none (.dml d) ∧ e.temporals d.table = none) :
    Along (sessionStep H F n) (Quiet H F n) e (begin_ :: block) := by
  refine ⟨?_, fun u hu => (InBlock.of_begin hidle hbegin hu).along fun sql hsql v hv => ?_⟩
  · unfold Quiet
    rw [hbegin]
    trivial
  · obtain ⟨houter, d, hroute, hd⟩ := hblock sql hsql
    have hsame : v.temporals = e.temporals := congrArg Env.temporals hv
    exact quiet_dml houter hroute (by rw [hsame, hd])

end Block

/-! ## A block that is taken back, and one that is not -/

/-- A frontend that answers every SELECT with the columns of the table `t`. -/
def scanFrontend : Frontend :=
  { Frontend.closed with
    select := fun cat _ _ =>
      match (cat.get "t").bind tableToQueryResult with
      | some qr => .ok qr
      | none => .panic }

/-- An engine with a table of one row. -/
def oneRow : QueryEngine :=
  { new with
    catalog := Catalog.empty.register
      { name := "t"
        columns := [[7]]
        columnNames := ["a"]
        rowCount := 1
        stringColumns := [none]
        nullBitmaps := [none]
        schema := none } }

theorem query_select {H : Host} {F : Frontend} {sql : String} (houter : outerRoute H sql = .inner)
    (hroute : innerRoute H F sql = .statement none .select) (n : Nat) :
    ∀ q ∈ [sql], IsQuery H F [] n q := by
  intro q hq
  have htext : ∀ query, QueryText H F [] query sql :=
    fun query => ⟨none, .select, hroute, fun v hv => by cases hv⟩
  rw [mem_singleton.mp hq]
  unfold IsQuery
  rw [houter]
  cases n with
  | zero | succ => exact htext _

theorem innerRoute_insert : innerRoute Host.ascii scanFrontend "INSERT INTO t VALUES (1)" =
    .statement none (.dml (.insert ⟨"t", none, [["1"]]⟩)) := by rfl

theorem innerRoute_delete : innerRoute Host.ascii scanFrontend "DELETE FROM t" =
    .statement none (.dml (.delete ⟨"t", none⟩)) := by rfl

theorem innerRoute_scan : innerRoute Host.ascii scanFrontend "SELECT a FROM t" =
    .statement none .select := by rfl

theorem outerRoutes :
    outerRoute Host.ascii "BEGIN" = .beginTxn ∧ outerRoute Host.ascii "ROLLBACK" = .rollback ∧
      outerRoute Host.ascii "INSERT INTO t VALUES (1)" = .inner ∧
      outerRoute Host.ascii "DELETE FROM t" = .inner ∧
      outerRoute Host.ascii "SELECT a FROM t" = .inner := by
  decide +kernel

theorem insert_delete_routes : ∀ sql ∈ ["INSERT INTO t VALUES (1)", "DELETE FROM t"],
    outerRoute Host.ascii sql = .inner ∧
      ∃ d, innerRoute Host.ascii scanFrontend sql = .statement none (.dml d) ∧
        oneRow.temporals d.table = none := by
  intro sql hsql
  rcases mem_cons.mp hsql with h | hsql
  · rw [h]
    exact ⟨outerRoutes.2.2.1, _, innerRoute_insert, rfl⟩
  · rw [mem_singleton.mp hsql]
    exact ⟨outerRoutes.2.2.2.1, _, innerRoute_delete, rfl⟩

/-- A block that inserts and deletes rows, and a query after it. -/
theorem insert_delete_rolledBack :
    ∃ u, run (sessionStep Host.ascii scanFrontend 0) oneRow
        ["BEGIN", "INSERT INTO t VALUES (1)", "DELETE FROM t", "ROLLBACK"] = some u ∧
      answers Host.ascii scanFrontend 0 u ["SELECT a FROM t"] =
        answers Host.ascii scanFrontend 0 oneRow ["SELECT a FROM t"] := by
  refine (isSome_iff_exists.mp (by decide +kernel)).imp fun u hu => ⟨hu, ?_⟩
  obtain ⟨hbegin, hrollback, _, _, hselect⟩ := outerRoutes
  have hquiet := along_dml (n := 0) (e := oneRow) rfl hbegin insert_delete_routes
  have hqueries := query_select hselect innerRoute_scan 0
  exact rollback_restores Host.ascii scanFrontend 0 rfl hbegin hrollback hquiet hu hqueries

/-- ANALYZE runs its statement on the main catalog, so ROLLBACK leaves the row there. -/
theorem analyzed_insert_kept :
    (run (sessionStep Host.ascii scanFrontend 0) new ["CREATE TABLE t (a INT)"]).map
        (fun e => answers Host.ascii scanFrontend 0 e ["SELECT a FROM t"]) =
        some [some (.ok ⟨[⟨"a", [], none, 0, none⟩], 0⟩)] ∧
      (run (sessionStep Host.ascii scanFrontend 0) new
        ["CREATE TABLE t (a INT)", "BEGIN", "ANALYZE INSERT INTO t VALUES (1)", "ROLLBACK"]).map
        (fun e => answers Host.ascii scanFrontend 0 e ["SELECT a FROM t"]) =
        some [some (.ok ⟨[⟨"a", [1], none, 0, none⟩], 1⟩)] := by
  decide +kernel

end QueryEngine

end TensorVault
