import TensorVault.Engine.Atomicity
import TensorVault.Engine.Rollback
import TensorVault.Engine.Simulation

/-!
# What COMMIT installs

The block is compared with its statements executed one by one outside a transaction, without those
that returned an error (`reference`). `commit_installs`: the catalogs agree if no statement writes
past the snapshot (`ANALYZE`, `COPY FROM`), none that fails leaves a trace in it, and none opens a
transaction of its own (`Committing`).
-/

namespace TensorVault

open Text Sql Run Option

namespace QueryEngine

/-! ## Block and reference -/

/-- The engine a statement of the transaction runs on. -/
def entered (e : QueryEngine) (txn : Transaction) : QueryEngine :=
  { e with catalog := txn.snapshot, txnManager := { e.txnManager with active := none } }

/-- The statements of a block that returned a result, executed again one by one from `f`. The
first engine is the one that executes the block. -/
def reference (H : Host) (F : Frontend) (n : Nat) :
    QueryEngine → QueryEngine → List String → Option QueryEngine
  | _, f, [] => some f
  | e, f, sql :: rest =>
    match execute H F n e sql with
    | none => none
    | some (e', .error _) => reference H F n e' f rest
    | some (e', .ok _) =>
      match execute H F n f sql with
      | none => none
      | some (f', _) => reference H F n e' f' rest

/-- A statement of the transaction whose effect, or none if it fails, is in the snapshot. -/
@[irreducible] def Committing (H : Host) (F : Frontend) (n : Nat) (e : QueryEngine) (sql : String) :
    Prop :=
  match outerRoute H sql with
  | .analyze rest =>
    ∃ asOf, innerRoute H F rest = .statement asOf .select ∧ e.mentionedViews H rest = [] ∧
      F.select e.workingCatalog e.indexManager rest ≠ .panic
  | .copy text =>
    match copyPlan H text with
    | .fail _ => True
    | .to table path =>
      (e.catalog.get table).isSome = true →
        H.canWrite e.tick path = true ∧ (e.workingCatalog.get table).isSome = true
    | .from_ _ _ => False
  | .commit => False
  | .rollback => False
  | .inner => ∀ txn, e.txnManager.active = some txn → CleanText H F (e.entered txn) n sql
  | _ => True

/-- Logs and ids do not matter. -/
def freeRel : LogRel where
  rel _ _ := True
  ids _ _ := True
  autocommit := trivial
  append _ _ _ := trivial
  beginTxn _ := trivial
  commit _ _ _ := trivial
  rollback _ _ _ := trivial
  truncate _ := trivial
  enter _ _ _ := ⟨trivial, trivial⟩
  leave _ _ := trivial

/-- The block and the reference are in step: inside the transaction the engine is the one of the
reference, but for its log. -/
def InStep (e f : QueryEngine) : Prop :=
  ∃ txn, e.txnManager.active = some txn ∧ Sim freeRel (e.entered txn) f

section Step

variable {r : Except Error QueryResult} {H : Host} {F : Frontend} {n : Nat} {e e' f : QueryEngine}
  {sql : String}

/-- A change of the clock and of the log on both sides. -/
theorem InStep.set (h : InStep e f) (tick : Nat) (wal wal' : Option (List WalRecord)) :
    InStep { e with tick := tick, wal := wal } { f with tick := tick, wal := wal' } := by
  obtain ⟨txn, htxn, hsim⟩ := h
  refine ⟨txn, htxn, ?_⟩
  generalize hu : e.entered txn = u at hsim
  cases hsim with
  | mk hsnapshot hlog =>
    cases hu
    exact .mk hsnapshot trivial

theorem InStep.tick_eq (h : InStep e f) : f.tick = e.tick := by
  obtain ⟨txn, _, hsim⟩ := h
  generalize hu : e.entered txn = u at hsim
  cases hsim
  exact (congrArg QueryEngine.tick hu).symm

theorem InStep.catalog_eq (h : InStep e f) : f.catalog = e.workingCatalog := by
  obtain ⟨txn, htxn, hsim⟩ := h
  rw [workingCatalog_open htxn]
  exact hsim.catalog_eq

theorem InStep.idle (h : InStep e f) : f.txnManager.active = none := by
  obtain ⟨txn, _, hsim⟩ := h
  rcases hsim.active with ⟨_, hf⟩ | ⟨_, _, _, hsome, _⟩
  · exact hf
  · cases hsome

theorem InStep.reads (h : InStep e f) : f.views = e.views ∧ f.indexManager = e.indexManager := by
  obtain ⟨txn, _, hsim⟩ := h
  have hviews : f.views = (e.entered txn).views := Sim.controlRel.readRel.views hsim
  have him : f.indexManager = (e.entered txn).indexManager :=
    Sim.controlRel.readRel.indexManager hsim
  exact ⟨hviews, him⟩

/-- A SELECT without views, where it does not panic. -/
theorem executeInner_select {asOf : Option (String × UInt64)} {i : Option UInt64}
    (hroute : innerRoute H F sql = .statement asOf .select) (hviews : e.mentionedViews H sql = [])
    (hselect : F.select e.catalog e.indexManager sql ≠ .panic) :
    ∃ r, executeInner H F n e sql i = some (e, r) := by
  obtain ⟨exec, inner, hstep⟩ := executeInner_eq_step H F n
  rw [hstep, executeInnerStep, hroute]
  simp only
  split
  · exact ⟨_, rfl⟩
  · simp only [executeKind, executeSelectText, hviews, materializeViews]
    split
    · exact ⟨_, rfl⟩
    · exact ⟨_, rfl⟩
    · next hpanic => exact absurd hpanic hselect

/-- A statement that goes to the snapshot. -/
theorem InStep.routed (h : InStep e f)
    (hclean : ∀ txn, e.txnManager.active = some txn → CleanText H F (e.entered txn) n sql)
    (hreply : executeRouted (executeInner H F n) e sql = some (e', r)) :
    (∀ err, r = .error err → InStep e' f) ∧
      ∃ f', executeInner H F n f sql none = some (f', r) ∧ InStep e' f' := by
  obtain ⟨txn, htxn, hsim⟩ := h
  have hsettles := executeInner_settles (e := e.entered txn) rfl n (hclean txn htxn) (some txn.id)
  have hboth := executeInner_sim H F freeRel n hsim sql (i := some txn.id) (j := none) trivial
  simp only [executeRouted, htxn] at hreply
  change (match executeInner H F n (e.entered txn) sql (some txn.id) with
    | none => none
    | some (e', r) => _) = _ at hreply
  revert hsettles hboth hreply
  generalize executeInner H F n (e.entered txn) sql (some txn.id) = x
  generalize executeInner H F n f sql none = y
  intro hsettles hboth hreply
  cases hboth with
  | none => cases hreply
  | @some u u' hu r' =>
    cases hreply
    obtain ⟨hactive, hfails⟩ := hsettles u _ rfl
    -- what the statement left is what the next one enters
    have hentered : ({ u with
        catalog := e.catalog
        txnManager :=
          { u.txnManager with active := some { id := txn.id, snapshot := u.catalog } } } :
        QueryEngine).entered ⟨txn.id, u.catalog⟩ = u := by
      obtain ⟨catalog, ⟨nextId, active⟩, wal, im, views, procedures, temporals, savepoints, tick⟩ :=
        u
      cases hactive
      rfl
    constructor
    · rintro err rfl
      have hsame : u = e.entered txn := hfails err rfl
      exact ⟨⟨txn.id, u.catalog⟩, rfl, by rw [hentered, hsame]; exact hsim⟩
    · exact ⟨u', rfl, ⟨txn.id, u.catalog⟩, rfl, by rw [hentered]; exact hu⟩

/-- COPY TO, of a table that is there on both sides. -/
theorem InStep.copy (h : InStep e f) {text : String}
    (hcopy : match copyPlan H text with
      | .fail _ => True
      | .to table path =>
        (e.catalog.get table).isSome = true →
          H.canWrite e.tick path = true ∧ (e.workingCatalog.get table).isSome = true
      | .from_ _ _ => False)
    (hreply : executeCopy H (executeInner H F n) e text = some (e', r)) :
    (∀ err, r = .error err → InStep e' f) ∧ ∀ qr, r = .ok qr →
      ∃ f' r', executeCopy H (executeInner H F n) f text = some (f', r') ∧ InStep e' f' := by
  unfold executeCopy at hreply ⊢
  split at hcopy <;> rename_i hplan <;> simp only [hplan] at hreply ⊢
  · cases hreply
    exact ⟨fun _ _ => h, fun _ hok => (by cases hok)⟩
  · next table path =>
    split at hreply
    · cases hreply
      exact ⟨fun _ _ => h, fun _ hok => (by cases hok)⟩
    · next t ht =>
      obtain ⟨hwrite, hthere⟩ := hcopy (by rw [ht]; rfl)
      rw [if_pos hwrite] at hreply
      cases hreply
      refine ⟨fun _ herr => (by cases herr), fun _ _ => ?_⟩
      obtain ⟨t', ht'⟩ := isSome_iff_exists.mp hthere
      have hget : f.catalog.get table = some t' := by rw [h.catalog_eq, ht']
      simp only [hget, h.tick_eq, hwrite, if_true]
      exact ⟨_, _, rfl, h.set (e.tick + 1) e.wal f.wal⟩
  · exact hcopy.elim

/-- One statement of the block: the reference leaves it out if it fails, and follows it if it
does not. -/
theorem InStep.step (h : InStep e f) (hsql : Committing H F n e sql)
    (hreply : execute H F n e sql = some (e', r)) :
    (∀ err, r = .error err → InStep e' f) ∧
      ∀ qr, r = .ok qr → ∃ f' r', execute H F n f sql = some (f', r') ∧ InStep e' f' := by
  have hidle := h.idle
  unfold Committing at hsql
  unfold execute executeStep at hreply ⊢
  split at hreply <;> rename_i hroute <;> simp only [hroute] at hsql ⊢
  · -- EXPLAIN
    obtain rfl := executeExplain_keeps e' r hreply
    refine ⟨fun _ _ => h, fun _ _ => ?_⟩
    unfold executeExplain
    split
    · exact ⟨f, _, rfl, h⟩
    · exact ⟨f, _, rfl, h⟩
  · -- ANALYZE of a SELECT without views
    next rest =>
    obtain ⟨asOf, hselect, hviews, hnotPanic⟩ := hsql
    obtain rfl := executeAnalyze_idle (.inl ⟨asOf, hselect, hviews⟩) e' r hreply
    refine ⟨fun _ _ => h, fun _ _ => ?_⟩
    have hviews' : f.mentionedViews H rest = [] := by
      unfold mentionedViews at hviews ⊢
      rw [h.reads.1]
      exact hviews
    have hnotPanic' : F.select f.catalog f.indexManager rest ≠ .panic := by
      rw [h.catalog_eq, h.reads.2]
      exact hnotPanic
    obtain ⟨res, hf⟩ := executeInner_select (n := n) (i := none) hselect hviews' hnotPanic'
    unfold executeAnalyze
    rw [hf]
    cases res with
    | ok | error => exact ⟨f, _, rfl, h⟩
  · -- VACUUM
    cases hreply
    refine ⟨fun _ herr => (by cases herr), fun _ _ => ⟨_, _, rfl, ?_⟩⟩
    have hset := h.set e.tick (e.wal.map fun _ => []) (f.wal.map fun _ => [])
    rw [← h.tick_eq] at hset
    simpa only [h.tick_eq] using hset
  · exact h.copy hsql hreply
  · -- CHECKPOINT
    cases hreply
    exact ⟨fun _ herr => (by cases herr), fun _ _ => ⟨f, _, rfl, h⟩⟩
  · -- BEGIN is refused
    have hactive : ∃ txn, e.txnManager.active = some txn := h.imp fun _ ht => ht.1
    obtain ⟨txn, htxn⟩ := hactive
    simp only [executeBegin, htxn] at hreply
    cases hreply
    exact ⟨fun _ _ => h, fun _ hok => (by cases hok)⟩
  · obtain ⟨herror, f', hf, hstep⟩ := h.routed hsql hreply
    refine ⟨herror, fun qr hok => ⟨f', r, ?_, hstep⟩⟩
    simp only [executeRouted, hidle]
    exact hf
  · cases hreply

/-- The main catalog stays as it is until COMMIT. -/
theorem Committing.catalog_eq {txn : Transaction} (h : Committing H F n e sql)
    (hactive : e.txnManager.active = some txn) (hreply : execute H F n e sql = some (e', r)) :
    e'.catalog = e.catalog := by
  unfold Committing at h
  unfold execute executeStep at hreply
  split at hreply <;> rename_i hroute <;> simp only [hroute] at h
  · rw [executeExplain_keeps e' r hreply]
  · next rest =>
    obtain ⟨asOf, hselect, hviews, -⟩ := h
    rw [executeAnalyze_idle (.inl ⟨asOf, hselect, hviews⟩) e' r hreply]
  · cases hreply
    rfl
  · obtain ⟨tick, rfl⟩ := executeCopy_idle (fun _ _ _ hplan => by simp [hplan] at h) hreply
    rfl
  · cases hreply
    rfl
  · simp only [executeBegin, hactive] at hreply
    cases hreply
    rfl
  · simp only [executeRouted, hactive] at hreply
    split at hreply <;> cases hreply
    rfl
  · cases hreply

/-- At BEGIN both are the same. -/
theorem InStep.of_begin (hidle : e.txnManager.active = none) (hbegin : outerRoute H sql = .beginTxn)
    (hreply : execute H F n e sql = some (e', r)) : InStep e' e ∧ e'.catalog = e.catalog := by
  simp only [execute, executeStep, hbegin, executeBegin, hidle] at hreply
  cases hreply
  obtain ⟨catalog, ⟨nextId, active⟩, wal, im, views, procedures, temporals, savepoints, tick⟩ := e
  cases hidle
  exact ⟨⟨_, rfl, .mk rfl trivial⟩, rfl⟩

/-- COMMIT installs the catalog of the reference. -/
theorem InStep.commit (h : InStep e f) (hcommit : outerRoute H sql = .commit)
    (hreply : execute H F n e sql = some (e', r)) : e'.catalog = f.catalog := by
  have hcatalog := h.catalog_eq
  obtain ⟨txn, htxn, -⟩ := h
  simp only [execute, executeStep, hcommit, executeCommit, htxn] at hreply
  cases hreply
  rw [hcatalog, workingCatalog_open htxn]
  rfl

/-- A whole block. -/
theorem InStep.run {block : List String} (h : InStep e f)
    (hblock : Along (sessionStep H F n) (Committing H F n) e block)
    (hrun : run (sessionStep H F n) e block = some e') :
    ∃ f', reference H F n e f block = some f' ∧ InStep e' f' := by
  induction block generalizing e f with
  | nil =>
    cases hrun
    exact ⟨f, rfl, h⟩
  | cons sql block ih =>
    obtain ⟨u, hstep, hrest⟩ := run_cons hrun
    obtain ⟨⟨_, r⟩, hreply, rfl⟩ := map_eq_some_iff.mp hstep
    have halong := hblock.2 _ hstep
    obtain ⟨herror, hok⟩ := h.step hblock.1 hreply
    cases r with
    | error err =>
      obtain ⟨f', hf', hin⟩ := ih (herror err rfl) halong hrest
      refine ⟨f', ?_, hin⟩
      rw [reference, hreply]
      exact hf'
    | ok qr =>
      obtain ⟨g, r', hg, hin⟩ := hok qr rfl
      obtain ⟨f', hf', hin'⟩ := ih hin halong hrest
      refine ⟨f', ?_, hin'⟩
      rw [reference, hreply]
      simp only [hg]
      exact hf'

end Step

/-- **Commit.** After BEGIN, a block of committing statements and COMMIT, the catalog is the one
the statements that returned a result leave outside a transaction. -/
theorem commit_installs (H : Host) (F : Frontend) (n : Nat) {e u : QueryEngine}
    (hidle : e.txnManager.active = none) {begin_ commit : String}
    (hbegin : outerRoute H begin_ = .beginTxn) (hcommit : outerRoute H commit = .commit)
    {block : List String}
    (hblock : Along (sessionStep H F n) (Committing H F n) e (begin_ :: block))
    (hrun : run (sessionStep H F n) e (begin_ :: (block ++ [commit])) = some u) :
    ∃ e₁ f, sessionStep H F n e begin_ = some e₁ ∧ reference H F n e₁ e block = some f ∧
      u.catalog = f.catalog := by
  obtain ⟨e₁, hb, hrest⟩ := run_cons hrun
  rw [run_append] at hrest
  obtain ⟨e₂, hmiddle, hend⟩ := bind_eq_some_iff.mp hrest
  obtain ⟨⟨_, _⟩, hreply, rfl⟩ := map_eq_some_iff.mp hb
  have hin := (InStep.of_begin hidle hbegin hreply).1
  obtain ⟨f, hf, hin₂⟩ := hin.run (hblock.2 _ hb) hmiddle
  obtain ⟨e₃, hc, hnil⟩ := run_cons hend
  cases hnil
  obtain ⟨⟨_, _⟩, hreply₂, rfl⟩ := map_eq_some_iff.mp hc
  exact ⟨_, f, hb, hf, hin₂.commit hcommit hreply₂⟩

variable {F : Frontend}

theorem committing_of_dml {H : Host} {sql : String} {d : DmlStatement}
    (houter : outerRoute H sql = .inner) (hroute : innerRoute H F sql = .statement none (.dml d))
    {n : Nat} {e : QueryEngine} : Committing H F n e sql := by
  unfold Committing
  rw [houter]
  intro txn _
  have hinner : ∀ p q, InnerClean H F (e.entered txn) p q sql := by
    intro p q asOf kind h
    cases hroute.symm.trans h
    trivial
  cases n with
  | zero | succ => exact hinner _ _

/-- Blocks of INSERT, UPDATE and DELETE. -/
theorem committing_dml {H : Host} {begin_ : String} (hbegin : outerRoute H begin_ = .beginTxn)
    {block : List String} (hblock : ∀ sql ∈ block, outerRoute H sql = .inner ∧
      ∃ d, innerRoute H F sql = .statement none (.dml d)) (n : Nat) (e : QueryEngine) :
    Along (sessionStep H F n) (Committing H F n) e (begin_ :: block) := by
  refine along_of_forall (fun sql hsql u => ?_) e
  rcases List.mem_cons.mp hsql with rfl | hsql
  · unfold Committing
    rw [hbegin]
    trivial
  · obtain ⟨houter, d, hroute⟩ := hblock sql hsql
    exact committing_of_dml houter hroute

theorem commit_route : outerRoute Host.ascii "COMMIT" = .commit := by decide +kernel

/-- A block that inserts and deletes rows. -/
theorem insert_delete_committed :
    ∃ u e₁ f, run (sessionStep Host.ascii scanFrontend 0) oneRow
        ["BEGIN", "INSERT INTO t VALUES (1)", "DELETE FROM t", "COMMIT"] = some u ∧
      sessionStep Host.ascii scanFrontend 0 oneRow "BEGIN" = some e₁ ∧
      reference Host.ascii scanFrontend 0 e₁ oneRow
        ["INSERT INTO t VALUES (1)", "DELETE FROM t"] = some f ∧ u.catalog = f.catalog := by
  obtain ⟨u, hu⟩ : ∃ u, run (sessionStep Host.ascii scanFrontend 0) oneRow
      ["BEGIN", "INSERT INTO t VALUES (1)", "DELETE FROM t", "COMMIT"] = some u :=
    isSome_iff_exists.mp (by decide +kernel)
  have hroutes : ∀ sql ∈ ["INSERT INTO t VALUES (1)", "DELETE FROM t"],
      outerRoute Host.ascii sql = .inner ∧
        ∃ d, innerRoute Host.ascii scanFrontend sql = .statement none (.dml d) := fun sql hsql =>
    ⟨(insert_delete_routes sql hsql).1, (insert_delete_routes sql hsql).2.imp fun _ h => h.1⟩
  have hblock := committing_dml outerRoutes.1 hroutes 0 oneRow
  obtain ⟨e₁, f, hb, hf, hcatalog⟩ :=
    commit_installs Host.ascii scanFrontend 0 (e := oneRow) rfl outerRoutes.1 commit_route hblock hu
  exact ⟨u, e₁, f, hu, hb, hf, hcatalog⟩

/-- The row of the ANALYZE is in the main catalog, which COMMIT replaces by the snapshot. -/
theorem analyzed_insert_lost :
    ((run (sessionStep Host.ascii scanFrontend 0) new ["CREATE TABLE t (a INT)"]).bind fun e =>
      (sessionStep Host.ascii scanFrontend 0 e "BEGIN").bind fun e₁ =>
        (reference Host.ascii scanFrontend 0 e₁ e ["ANALYZE INSERT INTO t VALUES (1)"]).bind
          fun f =>
          (run (sessionStep Host.ascii scanFrontend 0) e₁
            ["ANALYZE INSERT INTO t VALUES (1)", "COMMIT"]).map fun u =>
            ((u.catalog.get "t").map (·.rowCount), (f.catalog.get "t").map (·.rowCount))) =
      some (some 0, some 1) := by
  decide +kernel

end QueryEngine

end TensorVault
