import TensorVault.Engine.Execute

/-!
# Statements that fail without a trace

A statement that fails may leave something behind: `COPY FROM` keeps the rows before the bad line,
WITH and views keep their tables, a procedure what its first statements did. `Clean` says that what
is executed before the part that fails only reads: the first line of a file, the first table of a
WITH or each view may fail, and behind a part that changes something nothing may.
`failed_statement_atomic` shows that this is enough.
-/

namespace TensorVault

open Text Sql List

namespace Reply

/-- No transaction is open after the reply, and if it is an error, the engine is `e`. -/
def Settles (e : QueryEngine) (x : Reply) : Prop :=
  ∀ e' r, x = some (e', r) → e'.txnManager.active = none ∧ ∀ err, r = .error err → e' = e

/-- The reply is an error. -/
def Fails (x : Reply) : Prop := ∃ e' err, x = some (e', .error err)

variable {e : QueryEngine} {x : Reply} {k : QueryEngine → QueryResult → Reply}

theorem Settles.eq_fail (hx : x.Settles e) (hfails : x.Fails) : ∃ err, x = e.fail err := by
  obtain ⟨u, err, rfl⟩ := hfails
  obtain rfl := (hx u _ rfl).2 err rfl
  exact ⟨err, rfl⟩

theorem settles_none : Settles e none := fun _ _ h => by cases h

theorem settles_reply {u : QueryEngine} (hu : u.txnManager.active = none) (qr : QueryResult) :
    Settles e (u.reply qr) := by
  intro e' r h
  cases h
  exact ⟨hu, fun _ herr => by cases herr⟩

theorem Keeps.settles (h : x.Keeps e) (hidle : e.txnManager.active = none) : x.Settles e := by
  intro e' r hx
  obtain rfl := h e' r hx
  exact ⟨hidle, fun _ _ => rfl⟩

theorem Settles.andThen (hx : x.Settles e)
    (hk : ∀ u qr, x = some (u, .ok qr) → u.txnManager.active = none → (k u qr).Settles e) :
    (x.andThen k).Settles e := by
  intro e' r h
  cases x with
  | none => cases h
  | some p =>
    obtain ⟨u, res⟩ := p
    cases res with
    | ok qr => exact hk u qr rfl (hx u _ rfl).1 e' r h
    | error err =>
      cases h
      exact hx _ _ rfl

/-- The result is changed, and the engine is not. -/
theorem Settles.post (hx : x.Settles e) {f : QueryResult → QueryResult} :
    (x.andThen fun u qr => u.reply (f qr)).Settles e :=
  hx.andThen fun _ _ _ hu => settles_reply hu _

/-- A step that only reads, then one that fails without a trace. -/
theorem Keeps.andThen_settles (hx : x.Keeps e) (hidle : e.txnManager.active = none)
    (hk : ∀ qr, (k e qr).Settles e) : (x.andThen k).Settles e := by
  refine (hx.settles hidle).andThen fun u qr hok _ => ?_
  obtain rfl := hx u _ hok
  exact hk qr

end Reply

namespace QueryEngine

/-! ## Texts that only read -/

section

variable (H : Host) (F : Frontend) (e : QueryEngine)

/-- `exec` and `inner` say which texts only read as statements and as parts of statements. -/
def ReadKind (exec inner : String → Prop) (sql : String) : Kind → Prop
  | .exec name args =>
    ∀ p, e.procedures.find? (·.name = name) = some p →
      ∀ piece ∈ bodyStatements (substituteProcParams p.body args), exec piece
  | .unionAll left right => inner left ∧ inner right
  | .pivot stripped _ => inner stripped
  | .jsonValue rewritten _ => inner rewritten
  | .select => e.mentionedViews H sql = []
  | .fail _ => True
  | .abort => True
  | _ => False

def InnerReads (exec inner : String → Prop) (sql : String) : Prop :=
  match innerRoute H F sql with
  | .statement asOf kind => (e.asOfRows asOf).isSome = true ∨ ReadKind H e exec inner sql kind
  | .abort => True
  | _ => False

/-- A statement outside a transaction. -/
def OuterReads (inner : String → Prop) (sql : String) : Prop :=
  match outerRoute H sql with
  | .explain _ => True
  | .analyze rest => inner rest
  | .checkpoint => True
  | .commit => True
  | .rollback => True
  | .inner => inner sql
  | .abort => True
  | _ => False

/-- The texts that only read, for `executeInner n`. -/
def ReadText : Nat → String → Prop
  | 0 => InnerReads H F e (fun _ => True) fun _ => True
  | n + 1 => InnerReads H F e (OuterReads H (ReadText n)) (ReadText n)

/-! ## Texts that fail without a trace -/

/-- What is known of texts: that they only read, that they fail without a trace, that they fail. -/
structure Known where
  reads : String → Prop
  clean : String → Prop
  fails : String → Prop

/-- The statements of a body: those before the one that fails, or else before the last, only
read. -/
def CleanBody (known : Known) : List String → Prop
  | [] => True
  | [sql] => known.clean sql
  | sql :: rest => known.clean sql ∧ known.fails sql ∨ known.reads sql ∧ CleanBody known rest

/-- `body` is about the statements of procedures, and `part` about the parts of a statement. -/
def CleanKind (body part : Known) (sql : String) : Kind → Prop
  | .withClause w =>
    match w.ctes with
    | [] => part.clean w.outerQuery
    | cte :: _ => part.clean cte.anchor ∧ part.fails cte.anchor
  | .exec name args =>
    ∀ p, e.procedures.find? (·.name = name) = some p →
      CleanBody body (bodyStatements (substituteProcParams p.body args))
  | .unionAll left right =>
    part.clean left ∧ part.fails left ∨ part.reads left ∧ part.clean right
  | .pivot stripped _ => part.clean stripped
  | .jsonValue rewritten _ => part.clean rewritten
  | .select => ∀ v ∈ e.mentionedViews H sql, part.clean v.selectSql ∧ part.fails v.selectSql
  | _ => True

def InnerClean (body part : Known) (sql : String) : Prop :=
  ∀ asOf kind, innerRoute H F sql = .statement asOf kind → CleanKind H e body part sql kind

/-- A statement of a procedure body. COPY moves the clock before it fails, and a transaction that
is opened in a body stays open. -/
def OuterClean (clean : String → Prop) (sql : String) : Prop :=
  match outerRoute H sql with
  | .analyze rest => clean rest
  | .copy text => ∃ err, copyPlan H text = .fail err
  | .beginTxn => False
  | .inner => clean sql
  | _ => True

/-- The texts that fail without a trace, for `executeInner n`. -/
def CleanText : Nat → String → Prop
  | 0 => InnerClean H F e ⟨fun _ => True, fun _ => True, fun _ => False⟩
      ⟨fun _ => True, fun _ => True, fun _ => False⟩
  | n + 1 => InnerClean H F e
      ⟨OuterReads H (ReadText H F e n), OuterClean H (CleanText n),
        fun sql => (executeStep H F (executeInner H F n) e sql).Fails⟩
      ⟨ReadText H F e n, CleanText n, fun sql => ∀ i, (executeInner H F n e sql i).Fails⟩

end

/-- The lines of COPY FROM: the first one fails, or there is no other. -/
def CleanLines (H : Host) (F : Frontend) (n : Nat) (e : QueryEngine) : List String → Prop
  | [] => True
  | line :: rest =>
    CleanText H F e n line ∧ (rest = [] ∨ (executeInner H F n e line none).Fails)

/-- A statement that leaves the catalog as it was if it fails: as `CleanText` says, or a COPY FROM
that fails in its first line. -/
@[irreducible] def Clean (H : Host) (F : Frontend) (n : Nat) (e : QueryEngine) (sql : String) :
    Prop :=
  match outerRoute H sql with
  | .copy text =>
    ∀ table path content, copyPlan H text = .from_ table path →
      H.readFile e.tick path = some content →
        CleanLines H F n { e with tick := e.tick + 1 } (copyStatements H table content)
  | .beginTxn => True
  | _ => OuterClean H (CleanText H F e n) sql

/-! ## What the conditions give -/

section

variable {H : Host} {F : Frontend} {e : QueryEngine} {execReads innerReads : String → Prop}
  {exec : QueryEngine → String → Reply} {inner : QueryEngine → String → Option UInt64 → Reply}
  {sql : String} {i : Option UInt64}

theorem executeKind_keeps (hexec : ∀ sql, execReads sql → (exec e sql).Keeps e)
    (hinner : ∀ sql, innerReads sql → ∀ i, (inner e sql i).Keeps e)
    {kind : Kind} (hkind : ReadKind H e execReads innerReads sql kind) :
    (executeKind H F exec inner e sql i kind).Keeps e := by
  cases kind with
  | exec name args =>
    rw [executeKind, executeExec]
    split
    · exact Reply.keeps_fail
    · next p hp => exact runBody_keeps (fun piece hpiece => hexec piece (hkind p hp piece hpiece)) _
  | unionAll left right =>
    exact (hinner left hkind.1 i).andThen fun _ =>
      (hinner right hkind.2 i).andThen fun _ => Reply.keeps_reply
  | pivot | jsonValue => exact (hinner _ hkind i).andThen fun _ => Reply.keeps_reply
  | select => exact executeSelectText_keeps hkind
  | fail err => exact Reply.keeps_fail
  | abort => exact Reply.keeps_none
  | withClause | createView | dropView | createProcedure | merge | ddl | dml => exact hkind.elim

theorem executeInnerStep_keeps (hexec : ∀ sql, execReads sql → (exec e sql).Keeps e)
    (hinner : ∀ sql, innerReads sql → ∀ i, (inner e sql i).Keeps e)
    (hsql : InnerReads H F e execReads innerReads sql) :
    (executeInnerStep H F exec inner e sql i).Keeps e := by
  unfold InnerReads at hsql
  unfold executeInnerStep
  split at hsql
  · next asOf kind hroute =>
    simp only [hroute]
    split
    · exact Reply.keeps_reply
    · next hnone =>
      rcases hsql with hsome | hkind
      · rw [hnone] at hsome
        cases hsome
      · exact executeKind_keeps hexec hinner hkind
  · next hroute =>
    simp only [hroute]
    exact Reply.keeps_none
  · exact hsql.elim

theorem executeStep_keeps (hidle : e.txnManager.active = none)
    (hinner : ∀ sql, innerReads sql → ∀ i, (inner e sql i).Keeps e)
    (hsql : OuterReads H innerReads sql) : (executeStep H F inner e sql).Keeps e := by
  unfold OuterReads at hsql
  unfold executeStep
  split <;> rename_i hroute <;> simp only [hroute] at hsql
  · exact executeExplain_keeps
  · exact (hinner _ hsql none).andThen fun _ => Reply.keeps_reply
  · exact Reply.keeps_reply
  · simp only [executeCommit, hidle]
    exact Reply.keeps_fail
  · simp only [executeRollback, hidle]
    exact Reply.keeps_fail
  · simp only [executeRouted, hidle]
    exact hinner sql hsql none
  · exact Reply.keeps_none

theorem executeInner_keeps (hidle : e.txnManager.active = none) (n : Nat)
    (hsql : ReadText H F e n sql) (i : Option UInt64) : (executeInner H F n e sql i).Keeps e := by
  induction n generalizing sql i with
  | zero =>
    exact executeInnerStep_keeps (fun _ _ => Reply.keeps_none) (fun _ _ _ => Reply.keeps_none) hsql
  | succ n ih =>
    have hinner : ∀ sql, ReadText H F e n sql → ∀ i, (executeInner H F n e sql i).Keeps e :=
      fun sql hsql i => ih hsql i
    exact executeInnerStep_keeps (fun sql hsql => executeStep_keeps hidle hinner hsql) hinner hsql

end

/-- What is known of the texts is so where they are executed. -/
structure Known.Holds (known : Known) (run : String → Reply) (e : QueryEngine) : Prop where
  reads : ∀ sql, known.reads sql → (run sql).Keeps e
  clean : ∀ sql, known.clean sql → (run sql).Settles e
  fails : ∀ sql, known.fails sql → (run sql).Fails

/-- A text that fails without a trace. -/
theorem Known.Holds.eq_fail {known : Known} {run : String → Reply} {e : QueryEngine}
    (h : known.Holds run e) {sql : String} (hsql : known.clean sql ∧ known.fails sql) :
    ∃ err, run sql = e.fail err :=
  (h.clean sql hsql.1).eq_fail (h.fails sql hsql.2)

section Clean

variable {H : Host} {F : Frontend} {e : QueryEngine} (hidle : e.txnManager.active = none)
  {body part : Known} {exec : QueryEngine → String → Reply}
  {inner : QueryEngine → String → Option UInt64 → Reply}

include hidle

variable {i : Option UInt64} {sql : String}

theorem executeDdlStmt_settles {d : DdlStatement}
    {temporal : Option (Option String)} : (executeDdlStmt H e sql i d temporal).Settles e := by
  unfold executeDdlStmt
  split
  · exact Reply.keeps_fail.settles hidle
  · exact Reply.settles_none
  · simp only
    split
    · refine Reply.settles_reply ?_ _
      simp only [walAppendTxn, walAppendRecord, registerTemporal]
      split <;> exact hidle
    · exact Reply.settles_reply (by exact hidle) _
    · exact Reply.settles_none

theorem executeDmlStmt_settles {d : DmlStatement} : (executeDmlStmt H e sql i d).Settles e := by
  unfold executeDmlStmt
  split
  · exact Reply.keeps_fail.settles hidle
  · exact Reply.settles_none
  · refine Reply.settles_reply ?_ _
    simp only [walAppendTxn, walAppendRecord, syncTemporal]
    split <;> exact hidle

theorem executeMergeReply_settles {m : Merge} : (executeMergeReply H e m).Settles e := by
  unfold executeMergeReply
  split
  · exact Reply.keeps_fail.settles hidle
  · exact Reply.settles_none
  · exact Reply.settles_reply (by exact hidle) _

theorem runBody_settles (hbody : body.Holds (exec e) e) {texts : List String}
    (htexts : CleanBody body texts) (last : QueryResult) :
    (runBody exec texts last e).Settles e := by
  induction texts generalizing last with
  | nil => exact Reply.settles_reply hidle _
  | cons sql texts ih =>
    cases texts with
    | nil => exact (hbody.clean sql htexts).post
    | cons next rest =>
      rcases htexts with hfails | ⟨hreads, hrest⟩
      · obtain ⟨err, hfail⟩ := hbody.eq_fail hfails
        rw [runBody, hfail]
        exact Reply.keeps_fail.settles hidle
      · exact (hbody.reads sql hreads).andThen_settles hidle fun qr => ih hrest qr

omit hidle in
/-- Views that fail without a trace are skipped. -/
theorem materializeViews_fails {views : List ViewDef}
    (h : ∀ v ∈ views, ∃ err, inner e v.selectSql none = e.fail err) :
    materializeViews inner views e = some e := by
  induction views with
  | nil => rfl
  | cons v views ih =>
    obtain ⟨⟨err, hfail⟩, hrest⟩ := forall_mem_cons.mp h
    rw [materializeViews, hfail]
    exact ih hrest

theorem executeKind_settles {kind : Kind} (hkind : CleanKind H e body part sql kind)
    (hbody : body.Holds (exec e) e) (hpart : ∀ i, part.Holds (inner e · i) e) :
    (executeKind H F exec inner e sql i kind).Settles e := by
  cases kind with
  | withClause w =>
    obtain ⟨ctes, outerQuery, maxRecursion⟩ := w
    rw [executeKind, executeWith]
    cases ctes with
    | nil =>
      refine Reply.keeps_reply.andThen_settles hidle fun _ => ?_
      exact ((hpart i).clean _ hkind).andThen fun _ _ _ hu => Reply.settles_reply (by exact hu) _
    | cons cte ctes =>
      obtain ⟨err, hfail⟩ := (hpart i).eq_fail hkind
      rw [runCtes, hfail]
      exact Reply.keeps_fail.settles hidle
  | createView | dropView | createProcedure => exact Reply.settles_reply (by exact hidle) _
  | exec name args =>
    rw [executeKind, executeExec]
    split
    · exact Reply.keeps_fail.settles hidle
    · next p hp => exact runBody_settles hidle hbody (hkind p hp) _
  | merge m => exact executeMergeReply_settles hidle
  | unionAll left right =>
    rcases hkind with hfails | ⟨hreads, hclean⟩
    · obtain ⟨err, hfail⟩ := (hpart i).eq_fail hfails
      rw [executeKind, executeUnionAll, hfail]
      exact Reply.keeps_fail.settles hidle
    · exact ((hpart i).reads left hreads).andThen_settles hidle fun _ =>
        ((hpart i).clean right hclean).post
  | pivot _ post | jsonValue _ post => exact ((hpart i).clean _ hkind).post
  | ddl d temporal => exact executeDdlStmt_settles hidle
  | dml d => exact executeDmlStmt_settles hidle
  | select =>
    rw [executeKind, executeSelectText,
      materializeViews_fails fun v hv => (hpart none).eq_fail (hkind v hv)]
    simp only
    split
    · exact Reply.settles_reply hidle _
    · exact Reply.keeps_fail.settles hidle
    · exact Reply.settles_none
  | fail err => exact Reply.keeps_fail.settles hidle
  | abort => exact Reply.settles_none

theorem executeInnerStep_settles (hsql : InnerClean H F e body part sql)
    (hbody : body.Holds (exec e) e) (hpart : ∀ i, part.Holds (inner e · i) e) :
    (executeInnerStep H F exec inner e sql i).Settles e := by
  unfold executeInnerStep
  split
  · exact Reply.settles_reply (by exact hidle) _
  · unfold executeRollbackTo
    split
    · exact Reply.keeps_fail.settles hidle
    · split
      · exact Reply.settles_none
      · exact Reply.settles_reply (by exact hidle) _
  · unfold executeReleaseSavepoint
    split
    · exact Reply.keeps_fail.settles hidle
    · exact Reply.settles_reply (by exact hidle) _
  · next asOf kind hroute =>
    split
    · exact Reply.settles_reply hidle _
    · exact executeKind_settles hidle (hsql asOf kind hroute) hbody hpart
  · exact Reply.settles_none

theorem executeStep_settles {clean : String → Prop}
    (hclean : ∀ sql, clean sql → ∀ i, (inner e sql i).Settles e)
    (hsql : OuterClean H clean sql) : (executeStep H F inner e sql).Settles e := by
  unfold OuterClean at hsql
  unfold executeStep
  split <;> rename_i hroute <;> simp only [hroute] at hsql
  · exact executeExplain_keeps.settles hidle
  · exact (hclean _ hsql none).andThen fun _ _ _ hu => Reply.settles_reply hu _
  · exact Reply.settles_reply (by exact hidle) _
  · obtain ⟨err, hplan⟩ := hsql
    simp only [executeCopy, hplan]
    exact Reply.keeps_fail.settles hidle
  · exact Reply.settles_reply hidle _
  · simp only [executeCommit, hidle]
    exact Reply.keeps_fail.settles hidle
  · simp only [executeRollback, hidle]
    exact Reply.keeps_fail.settles hidle
  · simp only [executeRouted, hidle]
    exact hclean sql hsql none
  · exact Reply.settles_none

theorem executeInner_settles (n : Nat) (hsql : CleanText H F e n sql)
    (i : Option UInt64) : (executeInner H F n e sql i).Settles e := by
  induction n generalizing sql i with
  | zero =>
    exact executeInnerStep_settles hidle hsql
      ⟨fun _ _ => Reply.keeps_none, fun _ _ => Reply.settles_none, fun _ h => h.elim⟩
      fun _ => ⟨fun _ _ => Reply.keeps_none, fun _ _ => Reply.settles_none, fun _ h => h.elim⟩
  | succ n ih =>
    have hread : ∀ sql, ReadText H F e n sql → ∀ i, (executeInner H F n e sql i).Keeps e :=
      fun sql hsql i => executeInner_keeps hidle n hsql i
    exact executeInnerStep_settles hidle hsql
      ⟨fun sql hsql => executeStep_keeps hidle hread hsql,
        fun sql hsql => executeStep_settles hidle (fun _ h i => ih h i) hsql, fun _ h => h⟩
      fun i => ⟨fun sql hsql => hread sql hsql i, fun _ h => ih h i, fun _ h => h i⟩

/-- COPY FROM that fails in its first line. -/
theorem executeCopy_catalog {n : Nat} {text : String}
    (hcopy : ∀ table path content, copyPlan H text = .from_ table path →
      H.readFile e.tick path = some content →
        CleanLines H F n { e with tick := e.tick + 1 } (copyStatements H table content))
    {e' : QueryEngine} {err : Error}
    (hreply : executeCopy H (executeInner H F n) e text = some (e', .error err)) :
    e'.catalog = e.catalog := by
  unfold executeCopy at hreply
  split at hreply
  · cases hreply
    rfl
  · split at hreply
    · cases hreply
      rfl
    · split at hreply <;> cases hreply
      rfl
  · next table path hplan =>
    split at hreply
    · cases hreply
      rfl
    · next content hcontent =>
      split at hreply
      · cases hreply
        rfl
      · have hlines := hcopy table path content hplan hcontent
        generalize copyStatements H table content = lines at hlines hreply
        cases lines with
        | nil => cases hreply
        | cons line rest =>
          obtain ⟨hclean, hfirst⟩ := hlines
          have hline :=
            executeInner_settles (e := { e with tick := e.tick + 1 }) hidle n hclean none
          rw [copyRows] at hreply
          rcases hfirst with rfl | hfails
          · have hrow := hline.andThen (k := fun u _ => copyRows (executeInner H F n) [] (0 + 1) u)
              fun _ _ _ hu => Reply.settles_reply hu _
            rw [(hrow e' _ hreply).2 err rfl]
          · obtain ⟨err', hfail⟩ := hline.eq_fail hfails
            rw [hfail] at hreply
            cases hreply
            rfl

end Clean

/-- **Failure atomicity.** A clean statement outside a transaction that returns an error has left
the catalog as it was. -/
theorem failed_statement_atomic (H : Host) (F : Frontend) (n : Nat) {e : QueryEngine}
    (hidle : e.txnManager.active = none) {sql : String} (hclean : Clean H F n e sql)
    {e' : QueryEngine} {err : Error} (hreply : execute H F n e sql = some (e', .error err)) :
    e'.catalog = e.catalog := by
  unfold Clean at hclean
  split at hclean
  · next text hroute =>
    simp only [execute, executeStep, hroute] at hreply
    exact executeCopy_catalog hidle hclean hreply
  · next hroute =>
    simp only [execute, executeStep, hroute, executeBegin, hidle] at hreply
    cases hreply
  · have hsettles := executeStep_settles (F := F) hidle
      (fun sql hsql i => executeInner_settles hidle n hsql i) hclean e' _ hreply
    rw [hsettles.2 err rfl]

/-- A file with a good line and a bad one. -/
def twoLines : Host := { Host.ascii with readFile := fun _ _ => some "a\n1\n2,3\n" }

/-- The same lines the other way round. -/
def badLineFirst : Host := { Host.ascii with readFile := fun _ _ => some "a\n2,3\n1\n" }

/-- A table of one row. -/
def tableBefore : Table where
  name := "t"
  columns := [[7]]
  columnNames := ["a"]
  rowCount := 1
  stringColumns := [none]
  nullBitmaps := [none]
  schema := none

def rowBefore : QueryEngine := { new with catalog := Catalog.empty.register tableBefore }

theorem badLineFirst_clean : Clean badLineFirst Frontend.closed 0 rowBefore "COPY t FROM 'f'" := by
  have houter : outerRoute badLineFirst "COPY t FROM 'f'" = .copy "COPY t FROM 'f'" := by
    decide +kernel
  have hplan : copyPlan badLineFirst "COPY t FROM 'f'" = .from_ "t" "f" := by decide +kernel
  have hlines : copyStatements badLineFirst "t" "a\n2,3\n1\n" =
      ["INSERT INTO t VALUES (2, 3)", "INSERT INTO t VALUES (1)"] := by decide +kernel
  unfold Clean
  rw [houter]
  intro table path content hfrom hread
  cases hplan.symm.trans hfrom
  cases hread
  rw [hlines]
  refine ⟨fun asOf kind hroute => ?_, .inr ⟨_, _, rfl⟩⟩
  have hdml : innerRoute badLineFirst Frontend.closed "INSERT INTO t VALUES (2, 3)" =
    .statement none (.dml (.insert ⟨"t", none, [["2", "3"]]⟩)) := by rfl
  cases hdml.symm.trans hroute
  trivial

/-- The first line of the file is bad, and the table keeps its row. -/
theorem badLineFirst_atomic : ∃ e' err,
    execute badLineFirst Frontend.closed 0 rowBefore "COPY t FROM 'f'" = some (e', .error err) ∧
      e'.catalog = rowBefore.catalog := by
  have hreply : execute badLineFirst Frontend.closed 0 rowBefore "COPY t FROM 'f'" =
      some (_, .error _) := rfl
  exact ⟨_, _, hreply, failed_statement_atomic _ _ 0 rfl badLineFirst_clean hreply⟩

/-- The row before the bad line stays. -/
theorem copied_row_kept :
    ((execute twoLines Frontend.closed 0 new "CREATE TABLE t (a INT)").bind fun p =>
      (execute twoLines Frontend.closed 0 p.1 "COPY t FROM 'f'").map fun q =>
        ((p.1.catalog.get "t").map (·.columns), (q.2.toOption).isNone,
          (q.1.catalog.get "t").map (·.columns))) =
      some (some [[]], true, some [[1]]) := by
  decide +kernel

end QueryEngine

end TensorVault
