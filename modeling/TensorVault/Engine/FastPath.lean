import TensorVault.Engine.CatalogFrame
import TensorVault.Engine.IndexLookup
import TensorVault.Engine.Routing

/-!
# The read-only path and `execute`

`try_readonly_select` parses a text and runs `execute_select` on the main catalog. `execute` also
looks for clauses outside the grammar, works on the snapshot of an open transaction, registers
views, asks the indexes first, and applies window functions and DISTINCT. `readonly_agrees` lists
what must not come into play for both to show the same rows.
-/

namespace TensorVault

open Text Sql

/-- What `try_readonly_select` makes of a text on a catalog. -/
def readonlyScan (H : Host) (K : Kernels) (cat : Catalog) (sql : String) : Outcome QueryResult :=
  match parseWithExtensions H K.parseDate sql with
  | none => .err (.other "query needs tpch fallback — requires write lock")
  | some (q, ext) =>
    match executeSelect H K cat q ext with
    | .ok qr => .ok qr
    | .err _ => .err (.other "query failed in execute_select — needs tpch fallback")
    | .panic => .panic

variable {H : Host} {K : Kernels} {cat : Catalog} {sql : String} {qr : QueryResult}
  {q : SelectQuery} {ext : QueryExtensions}

theorem readonlyScan_ok (h : readonlyScan H K cat sql = .ok qr) :
    ∃ q ext, parseWithExtensions H K.parseDate sql = some (q, ext) ∧
      executeSelect H K cat q ext = .ok qr := by
  unfold readonlyScan at h
  split at h
  · cases h
  · next q ext hparse =>
    refine ⟨q, ext, hparse, ?_⟩
    split at h
    · next hok =>
      cases h
      exact hok
    · cases h
    · cases h

/-- Two catalogs have the same tables for a query. -/
def SameSources (q : SelectQuery) (cat cat' : Catalog) : Prop :=
  cat'.get q.source = cat.get q.source ∧ ∀ j ∈ q.joins, cat'.get j.table = cat.get j.table

/-- `execute_with_join` reads the tables of the query. -/
def Kernels.JoinsTables (K : Kernels) : Prop :=
  ∀ q cat cat', SameSources q cat cat' → K.join cat' q = K.join cat q

theorem executeSelect_congr {cat' : Catalog} (hjoins : K.JoinsTables) (h : SameSources q cat cat') :
    executeSelect H K cat' q ext = executeSelect H K cat q ext := by
  unfold executeSelect
  rw [h.1, hjoins q cat cat' h]

theorem SameRows.refl : SameRows qr qr := ⟨rfl, rfl⟩

theorem SameRows.symm {a b : QueryResult} (h : SameRows a b) : SameRows b a := ⟨h.1.symm, h.2.symm⟩

/-- The route of a text that is a SELECT and nothing else. -/
def InnerRoute.isSelect : InnerRoute → Bool
  | .statement none .select => true
  | _ => false

theorem InnerRoute.eq_of_isSelect {r : InnerRoute} (h : r.isSelect = true) :
    r = .statement none .select := by
  unfold isSelect at h
  split at h
  · rfl
  · cases h

namespace QueryEngine

/-- The frontend with the SELECT path of the engine. -/
def selecting (H : Host) (K : Kernels) (F : Frontend) : Frontend :=
  { F with select := selectPath H K }

variable {F : Frontend} {e : QueryEngine}

theorem tryReadonlySelect_ok {scan : Catalog → String → Outcome QueryResult}
    (h : e.tryReadonlySelect H F scan sql = .ok qr) : scan e.catalog sql = .ok qr := by
  unfold tryReadonlySelect at h
  simp only at h
  split at h
  · cases h
  · split at h
    · cases h
    · cases h
    · split at h
      · cases h
      · cases h
      · split at h
        · split at h <;> cases h
        · exact h

/-- The index is not asked, or it is fresh and answers. -/
def IndexAgrees (H : Host) (cat : Catalog) (im : IndexManager) (q : SelectQuery) : Prop :=
  tryIndexedLookup H cat im q = none ∨
    ∃ items source name left right v limit,
      q = eqSelect items source left right limit ∧ items ≠ [] ∧
      columnAndLiteral left right = some (name, v) ∧ signedLiteralCell H v = literalCell H v ∧
      (.star ∈ items → ∀ t, cat.get source = some t → ∀ c, t.sidecar c = none) ∧
      cat.WellFormed ∧ im.Fresh cat ∧ ∃ qr, tryIndexedLookup H cat im q = some (.ok qr)

/-- Nothing comes into play that `try_readonly_select` does not know. -/
structure Direct (H : Host) (K : Kernels) (F : Frontend) (e : QueryEngine)
    (sql : String) : Prop where
  /-- The text is taken for a SELECT, and for no AS OF query of a versioned table. -/
  route : ∃ asOf, innerRoute H F sql = .statement asOf .select ∧ e.asOfRows asOf = none
  outer : outerRoute H sql = .inner
  /-- It mentions no view. -/
  views : e.mentionedViews H sql = []
  joins : K.JoinsTables
  query : ∀ q ext, parseWithExtensions H K.parseDate sql = some (q, ext) →
    -- an open transaction has left the tables alone
    SameSources q e.catalog e.workingCatalog ∧
    IndexAgrees H e.workingCatalog e.indexManager q ∧
    q.select.any SelectItem.isWindow = false ∧ q.distinct = false

/-- The SELECT path shows what `execute_select` gives. -/
theorem selectPath_sameRows {im : IndexManager}
    (hparse : parseWithExtensions H K.parseDate sql = some (q, ext))
    (hindex : IndexAgrees H cat im q) (hwindow : q.select.any SelectItem.isWindow = false)
    (hdistinct : q.distinct = false) (hscan : executeSelect H K cat q ext = .ok qr) :
    ∃ qr', selectPath H K cat im sql = .ok qr' ∧ SameRows qr qr' := by
  rcases hindex with hnone | ⟨items, source, name, left, right, v, limit, rfl, hitems, hoperands,
      hliteral, hstar, hwf, hfresh, qr', hlookup⟩
  · refine ⟨qr, ?_, .refl⟩
    simp [selectPath, hparse, hnone, hscan, postProcess, hwindow, hdistinct]
  · obtain ⟨qr'', hselect, hsame⟩ :=
      tryIndexedLookup_sameRows hwf hfresh hitems hoperands hliteral hstar hlookup
    cases hscan.symm.trans hselect
    refine ⟨qr', ?_, hsame.symm⟩
    simp [selectPath, hparse, hlookup]

theorem executeInner_viewless {n : Nat}
    {asOf : Option (String × UInt64)} (hroute : innerRoute H F sql = .statement asOf .select)
    (hasOf : e.asOfRows asOf = none) (hviews : e.mentionedViews H sql = []) {i : Option UInt64} :
    executeInner H F n e sql i =
      match F.select e.catalog e.indexManager sql with
      | .ok qr => e.reply qr
      | .err err => e.fail err
      | .panic => none := by
  obtain ⟨exec, inner, hstep⟩ := executeInner_eq_step H F n
  rw [hstep, executeInnerStep, hroute]
  simp only [hasOf]
  exact executeSelectText_viewless hviews

/-- **The read-only path.** What it answers is what `execute` answers, on the same engine. -/
theorem readonly_agrees {H : Host} {K : Kernels} {F : Frontend} {e : QueryEngine} {sql : String}
    {qr : QueryResult} (n : Nat) (hdirect : Direct H K (selecting H K F) e sql)
    (h : e.tryReadonlySelect H (selecting H K F) (readonlyScan H K) sql = .ok qr) :
    ∃ e' qr', execute H (selecting H K F) n e sql = some (e', .ok qr') ∧ SameRows qr qr' := by
  obtain ⟨asOf, hroute, hasOf⟩ := hdirect.route
  obtain ⟨q, ext, hparse, hscan⟩ := readonlyScan_ok (tryReadonlySelect_ok h)
  obtain ⟨htables, hindex, hwindow, hdistinct⟩ := hdirect.query q ext hparse
  rw [← executeSelect_congr hdirect.joins htables] at hscan
  obtain ⟨qr', hselect, hsame⟩ := selectPath_sameRows hparse hindex hwindow hdistinct hscan
  have hinner : ∀ u : QueryEngine, u.asOfRows asOf = none → u.mentionedViews H sql = [] →
      u.catalog = e.workingCatalog → u.indexManager = e.indexManager → ∀ i,
        executeInner H (selecting H K F) n u sql i = some (u, .ok qr') := by
    intro u hu hviews hcat him i
    rw [executeInner_viewless hroute hu hviews, hcat, him]
    show (match selectPath H K e.workingCatalog e.indexManager sql with
      | .ok qr => u.reply qr
      | .err err => u.fail err
      | .panic => none) = _
    rw [hselect]
    rfl
  unfold execute executeStep
  rw [hdirect.outer]
  unfold executeRouted
  cases hactive : e.txnManager.active with
  | none =>
    exact ⟨e, qr', hinner e hasOf hdirect.views (workingCatalog_idle hactive).symm rfl none, hsame⟩
  | some txn =>
    simp only [hinner { e with
        catalog := txn.snapshot, txnManager := { e.txnManager with active := none } }
      hasOf hdirect.views (workingCatalog_open hactive).symm rfl]
    exact ⟨_, qr', rfl, hsame⟩

/-! ## Three queries -/

/-- The rows the read-only path and `execute` give. -/
def bothPaths (e : QueryEngine) (sql : String) : Outcome QueryResult × Option QueryResult :=
  let F := frontendOver .unsupported
  (e.tryReadonlySelect Host.ascii F (readonlyScan Host.ascii .unsupported) sql,
    match execute Host.ascii F 1 e sql with
    | some (_, .ok qr) => some qr
    | _ => none)

def holding (cells : List UInt64) : QueryEngine :=
  { QueryEngine.new with catalog := Catalog.empty.register (numbers "t" cells) }

def shows (cells : List UInt64) : QueryResult where
  columns :=
    [{ name := "a", values := cells, stringValues := none, typeOid := 0, nullMask := none }]
  rowCount := cells.length

theorem direct_plain : Direct Host.ascii .unsupported (selecting Host.ascii .unsupported .closed)
    (holding [1, 2]) "SELECT a FROM t" where
  route := ⟨none, InnerRoute.eq_of_isSelect (by decide +kernel), rfl⟩
  outer := by decide +kernel
  views := rfl
  joins _ _ _ _ := rfl
  query q ext hparse := by
    have hquery : (parseWithExtensions Host.ascii Kernels.unsupported.parseDate
        "SELECT a FROM t").map (fun p => decide (p.1.whereClause = none ∧
          p.1.select.any SelectItem.isWindow = false ∧ p.1.distinct = false)) = some true := by
      decide +kernel
    rw [hparse, Option.map_some, Option.some.injEq, decide_eq_true_eq] at hquery
    obtain ⟨hwhere, hwindow, hdistinct⟩ := hquery
    have hwhere' : q.whereClause = none := hwhere
    refine ⟨⟨rfl, fun _ _ => rfl⟩, .inl ?_, hwindow, hdistinct⟩
    simp [tryIndexedLookup, hwhere']

/-- A plain query meets the condition, and both paths answer. -/
theorem plainSelect_readonly_agrees :
    ∃ qr, (holding [1, 2]).tryReadonlySelect Host.ascii
        (selecting Host.ascii .unsupported .closed) (readonlyScan Host.ascii .unsupported)
        "SELECT a FROM t" = .ok qr ∧
      ∃ e' qr', execute Host.ascii (selecting Host.ascii .unsupported .closed) 0 (holding [1, 2])
        "SELECT a FROM t" = some (e', .ok qr') ∧ SameRows qr qr' := by
  have hok : (holding [1, 2]).tryReadonlySelect Host.ascii
      (selecting Host.ascii .unsupported .closed) (readonlyScan Host.ascii .unsupported)
      "SELECT a FROM t" = .ok (shows [1, 2]) := by decide +kernel
  exact ⟨_, hok, readonly_agrees 0 direct_plain hok⟩

/-- DISTINCT, views and an open transaction are unknown to the read-only path. -/
theorem readonly_misses_distinct_view_transaction :
    bothPaths (holding [1, 1]) "SELECT DISTINCT a FROM t" =
      (.ok (shows [1, 1]), some (shows [1])) ∧
    bothPaths (numbersWith [⟨"t", "SELECT a FROM u"⟩]) "SELECT a FROM t" =
      (.ok (shows [1, 2]), some (shows [7])) ∧
    bothPaths
        { holding [1] with
          txnManager := { nextId := 2, active := some ⟨1, (holding [1, 2]).catalog⟩ } }
        "SELECT a FROM t" =
      (.ok (shows [1]), some (shows [1, 2])) := by
  refine ⟨?_, ?_, ?_⟩ <;> decide +kernel

end QueryEngine

end TensorVault
