import TensorVault.Storage.Checkpoint

/-!
# Executing a checkpoint

The statements of a checkpoint, executed on a new engine, give the saved tables back if and only if
every table is `Savable` (`checkpoint_roundTrip_iff`). Tables that CREATE TABLE, INSERT, UPDATE and
DELETE have made are `Tidy`. A text in a row may look like a clause to the scanners; the result is
about checkpoints without such texts.
-/

namespace TensorVault

open Text Sql Lexer QueryEngine List

variable {H : Host} {r : Nat} {name : String}

/-! ## Scripts -/

/-- A statement of a script that succeeds. -/
def scriptStep (H : Host) (F : Frontend) (n : Nat) (e : QueryEngine) (sql : String) :
    Option QueryEngine :=
  match execute H F n e sql with
  | some (e', .ok _) => some e'
  | _ => none

/-- None of the tests that `execute_inner` makes on raw text takes a statement of the table. -/
structure Untouched (H : Host) (F : Frontend) (t : Table) : Prop where
  statements : ∀ sql ∈ savedTable H t, Unclaimed H F sql
  versioning : contains (H.toLowercase (savedCreate t)) "system_versioning" = false

theorem Untouched.insert {F : Frontend} {t : Table} (h : Untouched H F t)
    (hr : r < t.rowCount) : Unclaimed H F (savedInsert H t r) :=
  h.statements _ (mem_cons_of_mem _ (mem_map_of_mem (mem_range.mpr hr)))

/-- All tables but one are as they were, and no transaction is active. -/
structure OtherTables (name : String) (e e' : QueryEngine) : Prop where
  active : e'.txnManager.active = none
  others : ∀ key, key ≠ name → e'.catalog.get key = e.catalog.get key

theorem OtherTables.trans {e e' e'' : QueryEngine} (h : OtherTables name e e')
    (h' : OtherTables name e' e'') : OtherTables name e e'' where
  active := h'.active
  others key hkey := (h'.others key hkey).trans (h.others key hkey)

theorem otherTables_register {e e' : QueryEngine} {u : Table} (hname : u.name = name)
    (hcat : e'.catalog = e.catalog.register u) (hactive : e'.txnManager.active = none) :
    OtherTables name e e' where
  active := hactive
  others key hkey := by
    rw [hcat, Catalog.get_register_of_ne (by rwa [hname])]

section Execute

variable (hhost : AsciiHost H) (hcases : H.CasesAsciiStart) (F : Frontend) (n : Nat)
  {e : QueryEngine} {t u : Table}

theorem plainStart_createTable : PlainStart "CREATE TABLE".toList where
  ascii := by decide
  head := rfl
  last := rfl
  lower := by decide
  upper := by decide

theorem plainStart_insertInto : PlainStart "INSERT INTO".toList where
  ascii := by decide
  head := rfl
  last := rfl
  lower := by decide
  upper := by decide

/-! ## CREATE TABLE -/

/-- The columns of a saved table, as they are read back. -/
structure Mirrors (t u : Table) : Prop where
  schema : u.schema.isSome = true
  length : u.columns.length = t.columns.length
  columnNames : u.columnNames = t.columnNames
  types : ∀ c < t.columns.length, columnType u c = readType (columnType t c)
  strings : ∀ c < t.columns.length, u.isStringColumn c = t.isStringColumn c

/-- The empty table a CREATE TABLE of the checkpoint makes. -/
structure Created (t u : Table) : Prop extends Mirrors t u where
  name : u.name = t.name
  wellFormed : u.WellFormed
  rowCount : u.rowCount = 0

theorem isStringColumn_eq (ht : Tidy H t) {c : Nat} (hc : c < t.columns.length) :
    t.isStringColumn c = isStringType (columnType t c) := by
  obtain ⟨s, hs, hnames, -⟩ := ht.schema
  have hlt : c < s.columns.length := by
    rw [← length_map (f := ColumnSchema.name), hnames, ht.parallel.names]
    exact hc
  simp only [Table.isStringColumn, columnType, hs, TableSchema.isString,
    getElem?_eq_getElem hlt, Option.map_some, Option.getD_some]

theorem isStringType_readType {ty : ColumnType} : isStringType (readType ty) = isStringType ty := by
  cases ty <;> rfl

theorem created_readCreate (ht : Tidy H t) {schema table : String}
    (hname : fullName schema table = t.name) :
    Created t (createdTable (readCreate schema table (savedColumns t))) := by
  have hlength : (savedColumns t).length = t.columns.length := by
    rw [savedColumns, length_map, length_zipIdx, ht.parallel.names]
  have hcolumn : ∀ c < t.columns.length, columnType
      (createdTable (readCreate schema table (savedColumns t))) c = readType (columnType t c) := by
    intro c hc
    have hlt : c < t.columnNames.length := by rw [ht.parallel.names]; exact hc
    simp [columnType, createdTable, readCreate, TableSchema.fromDdl, TableSchema.ofColumnDef,
      savedColumns, Column.plain, getElem?_zipIdx, getElem?_eq_getElem hlt]
  refine ⟨⟨rfl, ?_, ?_, hcolumn, fun c hc => ?_⟩, hname, wellFormed_createdTable, rfl⟩
  · simp [createdTable, readCreate, hlength]
  · simp only [createdTable, readCreate, savedColumns, map_map]
    refine Eq.trans (map_congr_left fun p _ => ?_) (zipIdx_map_fst 0 t.columnNames)
    rfl
  · rw [isStringColumn_eq ht hc, ← isStringType_readType, ← hcolumn c hc]
    have hlt : c < (savedColumns t).length := by omega
    simp [columnType, Table.isStringColumn, TableSchema.isString, createdTable, readCreate,
      TableSchema.fromDdl, getElem?_eq_getElem hlt]

include hhost hcases in
theorem scriptStep_savedCreate (ht : Tidy H t) (huntouched : Untouched H F t)
    (hactive : e.txnManager.active = none) (hget : e.catalog.get t.name = none) :
    ∃ e' u, scriptStep H F n e (savedCreate t) = some e' ∧ Created t u ∧
      e'.catalog.get t.name = some u ∧ OtherTables t.name e e' := by
  obtain ⟨toks, hlexes, htoks, hif⟩ := ht.name
  obtain ⟨schema, table, hfull, hparse⟩ :=
    parseDdl_createText hhost hlexes htoks hif (savedColumns t) (ht.reads_savedColumns hhost)
  have htexts : (savedColumns t).map Column.text =
      t.columnNames.zipIdx.map fun p => savedColumn t p.2 p.1 := by
    rw [savedColumns, map_map]
    rfl
  rw [htexts] at hparse
  have hstart : savedCreate t = String.ofList ("CREATE TABLE".toList ++ (' ' :: (t.name.toList ++
      (' ' :: '(' :: (rowText (t.columnNames.zipIdx.map fun p => savedColumn t p.2 p.1) ++
        [')', ';']))))) := rfl
  have houter : outerRoute H (savedCreate t) = .inner := by
    rw [hstart]
    exact outerRoute_plain hcases plainStart_createTable _ (by decide)
  have hroute : innerRoute H F (savedCreate t) =
      .statement none (tableKind H F (savedCreate t)) := by
    have hunclaimed : Unclaimed H F (savedCreate t) := huntouched.statements _ (mem_cons_self ..)
    rw [hstart] at hunclaimed ⊢
    exact innerRoute_plain hcases plainStart_createTable _ (by simp) hunclaimed
  have hkind : tableKind H F (savedCreate t) =
      .ddl (.create (readCreate schema table (savedColumns t))) (some none) := by
    unfold tableKind
    rw [show parseDdl H (savedCreate t) = _ from hparse]
    simp only [huntouched.versioning, Bool.false_eq_true, if_false]
  have hcreated := created_readCreate ht hfull
  have hddl : executeDdl H e.catalog e.indexManager
      (.create (readCreate schema table (savedColumns t))) =
      .ok (e.catalog.register (createdTable (readCreate schema table (savedColumns t))),
        e.indexManager) := by
    have hnone : e.catalog.get (fullName schema table) = none := by rw [hfull]; exact hget
    simp only [executeDdl, executeCreateTable, readCreate, hnone, Option.isSome_none,
      Bool.false_eq_true, if_false]
    rfl
  rw [hkind] at hroute
  have hexec : execute H F n e (savedCreate t) = _ :=
    (execute_plain houter hactive).trans (executeInner_ddl hroute)
  simp only [executeDdlStmt, hddl] at hexec
  have hcat := Catalog.get_register_self e.catalog
    (createdTable (readCreate schema table (savedColumns t)))
  rw [hcreated.name] at hcat
  have hstep : scriptStep H F n e (savedCreate t) = some (walAppendTxn
      { e with
        catalog := e.catalog.register (createdTable (readCreate schema table (savedColumns t))) }
      (savedCreate t) none) := by
    rw [scriptStep, hexec]
    rfl
  exact ⟨_, _, hstep, hcreated, hcat, otherTables_register hcreated.name rfl hactive⟩

/-! ## INSERT -/

/-- The rows are written as INSERTs. -/
theorem savedInsert_start : ∃ rest,
    savedInsert H t r = String.ofList ("INSERT INTO".toList ++ rest) := ⟨_, rfl⟩

include hcases in
theorem execute_savedInsert (hunclaimed : Unclaimed H F (savedInsert H t r))
    (hactive : e.txnManager.active = none) :
    execute H F n e (savedInsert H t r) = executeInner H F n e (savedInsert H t r) none ∧
      innerRoute H F (savedInsert H t r) =
        .statement none (tableKind H F (savedInsert H t r)) := by
  obtain ⟨rest, hrest⟩ := savedInsert_start
  rw [hrest] at hunclaimed ⊢
  exact ⟨execute_plain (outerRoute_plain hcases plainStart_insertInto _ (by decide)) hactive,
    innerRoute_plain hcases plainStart_insertInto _ (by simp) hunclaimed⟩

theorem lexes_semicolon : Lexed H [';'] [.semicolon] :=
  .step (show nextToken H ';' [] = .ok (some .semicolon, []) from rfl) .nil

include hhost hcases in
theorem scriptStep_savedInsert (ht : Tidy H t) (hunclaimed : Unclaimed H F (savedInsert H t r))
    (hactive : e.txnManager.active = none) (hget : e.catalog.get t.name = some u)
    (hlen : u.columns.length = t.columns.length) (hread : ∀ c < t.columns.length, Readable t c r) :
    ∃ e', scriptStep H F n e (savedInsert H t r) = some e' ∧ OtherTables t.name e e' ∧
      e'.catalog.get t.name = some (pushRow H u (readRow t r)) := by
  obtain ⟨toks, hlexes, htoks, -⟩ := ht.name
  obtain ⟨hexec, hroute⟩ := execute_savedInsert hcases F n hunclaimed hactive
  have hkind : tableKind H F (savedInsert H t r) =
      .dml (.insert { table := t.name, columns := none, values := [readRow t r] }) :=
    tableKind_rowInsertText hhost hlexes htoks (fun c hc => exists_readsAs_savedValue hhost
      (ht.plainType_columnType (mem_range.mp hc)) (hread c (mem_range.mp hc)))
      lexes_semicolon (by simp)
  rw [hkind] at hroute
  obtain ⟨e', hinner, hcat, htxn⟩ := executeInner_insertRow (n := n) hroute hget
    (by simp [readRow, hlen]) fun v hv => by
      obtain ⟨c, hc, rfl⟩ := mem_map.mp hv
      rw [parseValueCell_readValue (hread c (mem_range.mp hc))]
      rfl
  have hname : (pushRow H u (readRow t r)).name = t.name :=
    show u.name = t.name from Catalog.name_of_get hget
  refine ⟨e', by rw [scriptStep, hexec, hinner],
    otherTables_register hname hcat (by rw [htxn, hactive]), ?_⟩
  rw [hcat]
  exact get_register_pushRow hget

include hhost hcases in
theorem scriptStep_savedInsert_error (ht : Tidy H t)
    (hunclaimed : Unclaimed H F (savedInsert H t r)) (hactive : e.txnManager.active = none)
    (hbad : ¬ ∀ c < t.columns.length, Readable t c r) :
    scriptStep H F n e (savedInsert H t r) = none := by
  obtain ⟨toks, hlexes, -, -⟩ := ht.name
  obtain ⟨hexec, hroute⟩ := execute_savedInsert hcases F n hunclaimed hactive
  have hty : ∀ c ∈ List.range t.columns.length, plainType (columnType t c) = true := fun c hc =>
    ht.plainType_columnType (mem_range.mp hc)
  obtain ⟨err, herr⟩ := tableKind_rowInsertText_error F (List.range t.columns.length)
    (Readable t · r) hhost hlexes
    (fun c hc => exists_readsAs_savedValue hhost (hty c hc))
    (fun c hc => unreadable_savedValue (hty c hc)) (by simpa using hbad)
  rw [show tableKind H F (savedInsert H t r) = _ from herr] at hroute
  rw [scriptStep, hexec, executeInner_fail hroute]
  rfl

/-! ## The rows of a table -/

theorem columnType_of_schema (u' : Table) (heq : u'.schema = u.schema)
    (hsome : u.schema.isSome = true) (c : Nat) : columnType u' c = columnType u c := by
  obtain ⟨s, hs⟩ := Option.isSome_iff_exists.mp hsome
  simp only [columnType, heq, hs]

theorem Mirrors.pushRow (h : Mirrors t u) {row : List String} : Mirrors t (pushRow H u row) where
  schema := h.schema
  length := (length_pushRow_columns H u).trans h.length
  columnNames := h.columnNames
  types c hc := by
    rw [← h.types c hc]
    exact columnType_of_schema (u := u) (TensorVault.pushRow H u row) rfl h.schema c
  strings := h.strings

include hhost hcases in
/-- The statements of one table. -/
theorem run_savedTable (ht : Tidy H t) (huntouched : Untouched H F t)
    (hactive : e.txnManager.active = none) (hget : e.catalog.get t.name = none) :
    (∃ e' u, Run.run (scriptStep H F n) e (savedTable H t) = some e' ∧
      e'.catalog.get t.name = some u ∧ (Restored t u ↔ Savable H t) ∧ OtherTables t.name e e') ∨
    (Run.run (scriptStep H F n) e (savedTable H t) = none ∧ ¬ Savable H t) := by
  obtain ⟨e₁, u, hstep, hcreated, hget₁, hothers₁⟩ := scriptStep_savedCreate hhost hcases F n ht
    huntouched hactive hget
  have hinserts : ∀ r ∈ List.range t.rowCount, Unclaimed H F (savedInsert H t r) :=
    fun r hr => huntouched.insert (mem_range.mp hr)
  rw [savedTable, Run.run_cons_of_step hstep]
  rcases run_pushRows H t.name (List.range t.rowCount)
    (fun r => ∀ c < t.columns.length, Readable t c r) (scriptStep H F n)
      (savedInsert H t) (readRow t)
    (OtherTables t.name e) (Mirrors t) (fun r hu => ⟨by simp [readRow, hu.length], hu.pushRow⟩)
    (fun r hr hread e' u' he' hu' hQ => (scriptStep_savedInsert hhost hcases F n ht (hinserts r hr)
      he'.active hu' hQ.length hread).imp fun _ h => ⟨h.1, he'.trans h.2.1, h.2.2⟩)
    (fun r hr hbad e' he' => scriptStep_savedInsert_error hhost hcases F n ht (hinserts r hr)
      he'.active hbad) hothers₁ hget₁ hcreated.toMirrors
    (filled_nil hcreated.wellFormed hcreated.rowCount) with
    ⟨hread, e', u', hrun, he', hget', hu', hfilled⟩ | ⟨⟨r, hr, hbad⟩, hrun⟩
  · refine .inl ⟨e', u', hrun, hget', ?_, he'⟩
    exact restored_iff hfilled hu'.length hu'.columnNames hu'.types hu'.strings
      fun c hc r hr => hread r (mem_range.mpr hr) c hc
  · refine .inr ⟨hrun, fun hsavable => hbad fun c hc => ?_⟩
    exact CellSavable.readable (hsavable.cells c hc r (mem_range.mp hr))

/-! ## The tables of a catalog -/

include hhost hcases in
theorem run_savedTables :
    ∀ (ts : List Table) {e : QueryEngine}, (ts.map Table.name).Nodup → (∀ t ∈ ts, Tidy H t) →
      (∀ t ∈ ts, Untouched H F t) → e.txnManager.active = none →
      (∀ t ∈ ts, e.catalog.get t.name = none) →
      (∃ e', Run.run (scriptStep H F n) e (ts.flatMap (savedTable H)) = some e' ∧
        (∀ t ∈ ts, ∃ u, e'.catalog.get t.name = some u ∧ (Restored t u ↔ Savable H t)) ∧
        ∀ key, key ∉ ts.map Table.name → e'.catalog.get key = e.catalog.get key) ∨
      (Run.run (scriptStep H F n) e (ts.flatMap (savedTable H)) = none ∧ ∃ t ∈ ts, ¬ Savable H t)
  | [], e, _, _, _, _, _ => .inl ⟨e, rfl, by simp, fun _ _ => rfl⟩
  | t :: ts, e, hnodup, htidy, huntouched, hactive, hfresh => by
    rw [map_cons, nodup_cons] at hnodup
    simp only [flatMap_cons, Run.run_append]
    rcases run_savedTable hhost hcases F n (htidy t (mem_cons_self ..))
      (huntouched t (mem_cons_self ..)) hactive (hfresh t (mem_cons_self ..)) with
        ⟨e₁, u, hrun, hget, hiff, hothers⟩ | ⟨hrun, hbad⟩
    · have hne : ∀ t' ∈ ts, t'.name ≠ t.name := fun t' ht' heq =>
        hnodup.1 (heq ▸ mem_map_of_mem ht')
      have hfresh₁ : ∀ t' ∈ ts, e₁.catalog.get t'.name = none := fun t' ht' =>
        (hothers.others _ (hne t' ht')).trans (hfresh t' (mem_cons_of_mem _ ht'))
      rw [hrun]
      rcases run_savedTables ts hnodup.2 (forall_mem_cons.mp htidy).2
        (forall_mem_cons.mp huntouched).2 hothers.active hfresh₁ with
          ⟨e', hrun', htables, hkeys⟩ | ⟨hrun', t', ht', hbad⟩
      · refine .inl ⟨e', hrun', ?_, fun key hkey => ?_⟩
        · rintro t' (_ | ⟨_, ht'⟩)
          · exact ⟨u, (hkeys _ hnodup.1).trans hget, hiff⟩
          · exact htables t' ht'
        · rw [map_cons, mem_cons, not_or] at hkey
          exact (hkeys key hkey.2).trans (hothers.others key hkey.1)
      · exact .inr ⟨hrun', t', mem_cons_of_mem _ ht', hbad⟩
    · exact .inr ⟨by rw [hrun]; rfl, t, mem_cons_self .., hbad⟩

end Execute

/-! ## Reachable catalogs -/

/-- A CREATE TABLE with integer, boolean and string columns, and names that are read as what they
are. -/
structure PlainCreate (H : Host) (ct : CreateTable) : Prop where
  types : ∀ col ∈ ct.columns, plainType col.colType = true
  columnNames : ∀ col ∈ ct.columns, Lexes (nextToken H) col.name.toList [.ident col.name]
  name : ∃ toks, Lexes (nextToken H) (fullName ct.schema ct.name).toList toks ∧
    NameTokens (fullName ct.schema ct.name) toks ∧ toks.head? ≠ some (.keyword "IF")

/-- CREATE TABLE, INSERT, UPDATE and DELETE. -/
def PlainStatement (H : Host) : Statement → Prop
  | .ddl (.create ct) => PlainCreate H ct
  | .dml _ => True
  | _ => False

/-- The tables a checkpoint writes are tidy. -/
def TidyCatalog (H : Host) (cat : Catalog) : Prop :=
  ∀ name t, cat.get name = some t → name ≠ "__dummy__" → Tidy H t

theorem tidy_createdTable {ct : CreateTable} (h : PlainCreate H ct) : Tidy H (createdTable ct) where
  parallel := wellFormed_createdTable.toParallel
  schema := by
    refine ⟨_, rfl, ?_, ?_⟩
    · simp only [createdTable, TableSchema.fromDdl, map_map]
      rfl
    · intro col hcol
      obtain ⟨def_, hdef, rfl⟩ := mem_map.mp hcol
      exact h.types def_ hdef
  columnNames := by
    intro name hname
    obtain ⟨col, hcol, rfl⟩ := mem_map.mp hname
    exact h.columnNames col hcol
  name := h.name

theorem Tidy.of_same {t t' : Table} (h : Tidy H t) (hparallel : t'.Parallel)
    (hname : t'.name = t.name) (hschema : t'.schema = t.schema)
    (hcolumns : t'.columnNames = t.columnNames) : Tidy H t' where
  parallel := hparallel
  schema := by rw [hschema, hcolumns]; exact h.schema
  columnNames := by rw [hcolumns]; exact h.columnNames
  name := by rw [hname]; exact h.name

variable {cat : Catalog} {names : List String}

theorem TidyCatalog.register (h : TidyCatalog H cat) {t' : Table}
    (ht' : t'.name ≠ "__dummy__" → Tidy H t') : TidyCatalog H (cat.register t') := by
  intro name t hget hname
  rw [Catalog.get_register] at hget
  split at hget
  · next heq =>
    cases hget
    exact ht' (heq ▸ hname)
  · exact h name t hget hname

theorem tidyCatalog_step {s s' : Store} {stmt : Statement} (hs : TidyCatalog H s.catalog)
    (hstmt : PlainStatement H stmt) (h : s.step H stmt = some s') : TidyCatalog H s'.catalog := by
  rcases Store.step_eq_some h with ⟨d, rfl, hd⟩ | ⟨d, n, rfl, hd, -⟩ | ⟨m, n, rfl, -, -⟩
  · generalize s'.catalog = cat', s'.indexes = im' at hd ⊢
    cases executeDdl_eq_ok hd with
    | existing => exact hs
    | created => exact hs.register fun _ => tidy_createdTable hstmt
    | _ => cases hstmt
  · cases d with
    | insert ins =>
      obtain ⟨t, t', colIndices, ht, -, hrows, hcat, -⟩ := executeInsert_eq_ok hd
      obtain ⟨-, hws, -, rfl⟩ := insertRows_eq_ok hrows
      rw [hcat]
      refine hs.register fun hne => ?_
      have htidy := hs _ t ht (Catalog.name_of_get ht ▸ hne)
      exact htidy.of_same (parallel_insertedTable htidy.parallel (fun w hw => (hws w hw).1))
        rfl rfl rfl
    | update upd =>
      obtain ⟨t, assigns, mask, ht, -, -, -, hcat, -⟩ := executeUpdate_eq_ok hd
      rw [hcat]
      refine hs.register fun hne => ?_
      have htidy := hs _ t ht (Catalog.name_of_get ht ▸ hne)
      exact htidy.of_same (parallel_updatedTable htidy.parallel) rfl rfl rfl
    | delete del =>
      obtain ⟨t, t', mask, ht, -, hrows, hcat, -⟩ := executeDelete_eq_ok hd
      rw [hcat]
      refine hs.register fun hne => ?_
      rcases deleteRows_eq_ok hrows with ⟨-, rfl⟩ | ⟨-, -, rfl⟩
      · exact hs _ t' ht (Catalog.name_of_get ht ▸ hne)
      · have htidy := hs _ t ht (Catalog.name_of_get ht ▸ hne)
        refine htidy.of_same ?_ rfl rfl rfl
        exact { names := by simp [deletedTable, htidy.parallel.names]
                strings := by simp [deletedTable, htidy.parallel.strings]
                nulls := by simp [deletedTable, htidy.parallel.nulls] }
  · cases hstmt

theorem tidyCatalog_new : TidyCatalog H Store.new.catalog := by
  refine TidyCatalog.register (fun name t ht => ?_) fun hne => absurd rfl hne
  cases ht

/-! ## The round trip -/

/-- The tables a checkpoint writes, in the order in which it writes them. -/
def savedTables (cat : Catalog) (names : List String) : List Table :=
  (names.filter (· ≠ "__dummy__")).filterMap cat.get

theorem save_eq {names : List String} :
    save H cat names = (savedTables cat names).flatMap (savedTable H) := by
  unfold save savedTables
  induction names.filter (· ≠ "__dummy__") with
  | nil => rfl
  | cons name names ih =>
    rw [flatMap_cons, ih, filterMap_cons]
    cases cat.get name with
    | none | some => rfl

theorem mem_savedTables (hnames : ∀ name, name ∈ names ↔ (cat.get name).isSome = true) {t : Table} :
    t ∈ savedTables cat names ↔ t.name ≠ "__dummy__" ∧ cat.get t.name = some t := by
  simp only [savedTables, mem_filterMap, mem_filter, decide_eq_true_eq]
  constructor
  · rintro ⟨name, ⟨-, hne⟩, hget⟩
    rw [Catalog.name_of_get hget]
    exact ⟨hne, hget⟩
  · rintro ⟨hne, hget⟩
    exact ⟨t.name, ⟨(hnames _).mpr (by rw [hget]; rfl), hne⟩, hget⟩

theorem nodup_savedTables (h : names.Nodup) : ((savedTables cat names).map Table.name).Nodup := by
  refine (h.filter (fun name : String => decide (name ≠ "__dummy__"))).sublist ?_
  unfold savedTables
  induction names.filter (· ≠ "__dummy__") with
  | nil => exact .slnil
  | cons name names ih =>
    rw [filterMap_cons]
    cases hget : cat.get name with
    | none => exact ih.cons _
    | some t =>
      rw [map_cons, Catalog.name_of_get hget]
      exact ih.cons_cons _

/-- The tables the checkpoint is about are the same. -/
def SameTables (cat cat' : Catalog) : Prop :=
  ∀ name, name ≠ "__dummy__" → Option.Rel Restored (cat.get name) (cat'.get name)

/-- **Saving and executing.** For a catalog that CREATE TABLE, INSERT, UPDATE and DELETE lead to,
the statements of the checkpoint give the tables back if and only if every table is `Savable`. -/
theorem checkpoint_roundTrip_iff (hhost : AsciiHost H) (hcases : H.CasesAsciiStart) (F : Frontend)
    (n : Nat) {stmts : List Statement} (hstmts : ∀ stmt ∈ stmts, PlainStatement H stmt) {s : Store}
    (hrun : Run.run (Store.step H) Store.new stmts = some s) {names : List String}
    (hnodup : names.Nodup) (hnames : ∀ name, name ∈ names ↔ (s.catalog.get name).isSome = true)
    (huntouched : ∀ t, t.name ≠ "__dummy__" → s.catalog.get t.name = some t → Untouched H F t) :
    (∃ e, Run.run (scriptStep H F n) QueryEngine.new (save H s.catalog names) = some e ∧
      SameTables s.catalog e.catalog) ↔
    ∀ t, t.name ≠ "__dummy__" → s.catalog.get t.name = some t → Savable H t := by
  have htidy : TidyCatalog H s.catalog :=
    Run.invariant_of_along (Q := fun s => TidyCatalog H s.catalog)
      (fun _ _ _ hs hstmt hstep => tidyCatalog_step hs hstmt hstep) tidyCatalog_new
      (Run.along_of_forall (fun stmt hstmt _ => hstmts stmt hstmt) _) stmts (prefix_refl _) s hrun
  have hmem := @mem_savedTables s.catalog names hnames
  have hempty : ∀ name, name ≠ "__dummy__" → QueryEngine.new.catalog.get name = none :=
    fun name hne => Catalog.get_register_of_ne hne
  rw [save_eq]
  rcases run_savedTables hhost hcases F n (savedTables s.catalog names) (nodup_savedTables hnodup)
    (fun t ht => htidy _ t (hmem.mp ht).2 (hmem.mp ht).1)
    (fun t ht => huntouched t (hmem.mp ht).1 (hmem.mp ht).2) rfl
    (fun t ht => hempty _ (hmem.mp ht).1) with ⟨e, hscript, htables, hkeys⟩ | ⟨hscript, t, ht, hbad⟩
  · rw [hscript]
    constructor
    · rintro ⟨e', he', hsame⟩ t hne hget
      cases he'
      obtain ⟨u, hu, hiff⟩ := htables t (hmem.mpr ⟨hne, hget⟩)
      have hrel := hsame t.name hne
      rw [hget, hu] at hrel
      cases hrel with
      | some hrestored => exact hiff.mp hrestored
    · intro hsavable
      refine ⟨e, rfl, fun name hne => ?_⟩
      cases hget : s.catalog.get name with
      | some t =>
        obtain rfl := Catalog.name_of_get hget
        obtain ⟨u, hu, hiff⟩ := htables t (hmem.mpr ⟨hne, hget⟩)
        rw [hu]
        exact .some (hiff.mpr (hsavable t hne hget))
      | none =>
        rw [hkeys, hempty name hne]
        · exact .none
        · intro hname
          obtain ⟨t, ht, rfl⟩ := mem_map.mp hname
          rw [(hmem.mp ht).2] at hget
          cases hget
  · rw [hscript]
    refine iff_of_false ?_ fun hsavable => hbad (hsavable t (hmem.mp ht).1 (hmem.mp ht).2)
    rintro ⟨e, he, -⟩
    cases he

/-! ## Tables that come back, and tables that do not -/

def plainColumn (name : String) (ty : ColumnType) : ColumnDef :=
  { name := name, colType := ty, notNull := false, primaryKey := false, default := none,
    identity := false, references := none }

def notesCreate : CreateTable :=
  { schema := "dbo", name := "t", ifNotExists := false
    columns :=
      [plainColumn "a" .int, plainColumn "b" .boolean, plainColumn "s" (.varchar (some 20))] }

/-- Rows with NULLs, a quote, a semicolon and a duplicate. -/
def notesInsert : Insert :=
  { table := "t", columns := none
    values := [["1", "0", "'it's; x'"], ["NULL", "1", "'y'"], ["1", "0", "'it's; x'"]] }

def notesUpdate : Update :=
  { table := "t", assignments := [("a", "5")], whereClause := some "b = 1" }

def notes : List Statement :=
  [.ddl (.create notesCreate), .dml (.insert notesInsert), .dml (.update notesUpdate)]

def notesInserted : Table :=
  insertedTable Host.ascii (createdTable notesCreate) (cellWrites [0, 1, 2] notesInsert.values) 3

def notesTable : Table :=
  updatedTable notesInserted (updateWrites [false, true, false] [⟨0, 5, false⟩])

def notesStore : Store where
  catalog :=
    ((Store.new.catalog.register (createdTable notesCreate)).register notesInserted).register
    notesTable
  indexes := IndexManager.new

theorem run_notes : Run.run (Store.step Host.ascii) Store.new notes = some notesStore := rfl

theorem plainStatement_notes : ∀ stmt ∈ notes, PlainStatement Host.ascii stmt := by
  have hword : ∀ name ∈ ["a", "b", "s", "t"],
      Lexes (nextToken Host.ascii) name.toList [.ident name] := by
    intro name hname
    simp only [mem_cons, not_mem_nil, or_false] at hname
    rcases hname with rfl | rfl | rfl | rfl
    all_goals exact lexes_word asciiHost_ascii (by decide) (by decide)
  intro stmt hstmt
  simp only [notes, mem_cons, not_mem_nil, or_false] at hstmt
  rcases hstmt with rfl | rfl | rfl
  · refine ⟨by decide, ?_, [.ident "t"], hword _ (by decide), .plain rfl, by decide⟩
    intro col hcol
    refine hword _ ?_
    revert col
    decide
  · trivial
  · trivial

theorem untouched_notesTable : Untouched Host.ascii .closed notesTable := by
  have hquiet : ∀ phrase ∈ ["for system_time as of", "union all", "pivot ", "json_value(",
      "json_query("], ∀ sql ∈ savedTable Host.ascii notesTable,
      contains (Host.ascii.toLowercase sql) phrase = false := by
    decide +kernel
  refine ⟨fun sql hsql => Quiet.unclaimed ⟨?_, ?_, ?_, ?_, ?_⟩, by decide +kernel⟩
  all_goals exact hquiet _ (by decide) sql hsql

theorem get_notesStore {key : String} : notesStore.catalog.get key =
    if key = "t" then some notesTable
      else if key = "__dummy__" then some Store.dummyTable else none := by
  have hname : notesTable.name = "t" ∧ notesInserted.name = "t" ∧
      (createdTable notesCreate).name = "t" := ⟨rfl, rfl, rfl⟩
  simp only [notesStore, Store.new, Catalog.get_register, hname]
  split
  · rfl
  · rfl

/-- The only table of the run, besides the one of the engine. -/
theorem eq_notesTable {t : Table} (hne : t.name ≠ "__dummy__")
    (hget : notesStore.catalog.get t.name = some t) : t = notesTable := by
  rw [get_notesStore, if_neg hne] at hget
  split at hget
  · exact (Option.some.inj hget).symm
  · cases hget

theorem notes_restored : ∃ s e,
    Run.run (Store.step Host.ascii) Store.new notes = some s ∧
    Run.run (scriptStep Host.ascii .closed 0) QueryEngine.new
      (save Host.ascii s.catalog ["t", "__dummy__"]) = some e ∧
    SameTables s.catalog e.catalog := by
  have hnames : ∀ name, name ∈ ["t", "__dummy__"] ↔
      (notesStore.catalog.get name).isSome = true := by
    intro name
    rw [get_notesStore]
    split
    · next h => simp [h]
    · next h =>
      split
      · next h' => simp [h']
      · next h' => simp [h, h']
  obtain ⟨e, hscript, hsame⟩ := (checkpoint_roundTrip_iff asciiHost_ascii
    Host.casesAsciiStart_ascii .closed 0 plainStatement_notes run_notes (by decide) hnames
    fun t hne hget => eq_notesTable hne hget ▸ untouched_notesTable).mpr fun t hne hget =>
      eq_notesTable hne hget ▸ ⟨by decide +kernel, by decide +kernel⟩
  exact ⟨notesStore, e, run_notes, hscript, hsame⟩

/-- The word of `-1`, which is too large for the tokenizer when it is written as a decimal. -/
def negativeRow : List Statement :=
  [.ddl (.create { schema := "dbo", name := "t", ifNotExists := false,
                   columns := [plainColumn "a" .bigInt] }),
   .dml (.insert { table := "t", columns := none, values := [["x'ffffffffffffffff'"]] })]

/-- A DELETE that leaves the text of the deleted row in the sidecar. -/
def deletedRow : List Statement :=
  [.ddl (.create { schema := "dbo", name := "t", ifNotExists := false,
                   columns := [plainColumn "s" .text] }),
   .dml (.insert { table := "t", columns := none, values := [["'x'"], ["'y'"]] }),
   .dml (.delete { table := "t", whereClause := some "s = 'x'" })]

/-- The statements saved for the table `t` after a run. -/
def savedAfter (H : Host) (stmts : List Statement) : Option (List String) :=
  (Run.run (Store.step H) Store.new stmts).map fun s => save H s.catalog ["t", "__dummy__"]

theorem negative_and_deleted_not_restored :
    ["CREATE TABLE t (a BIGINT)", "INSERT INTO t VALUES (x'ffffffffffffffff')"].mapM
      (Statement.parse Host.ascii) = some negativeRow ∧
    savedAfter Host.ascii negativeRow =
      some ["CREATE TABLE t (a BIGINT);", "INSERT INTO t VALUES (18446744073709551615);"] ∧
    (Run.run (scriptStep Host.ascii .closed 0) QueryEngine.new
      ["CREATE TABLE t (a BIGINT);", "INSERT INTO t VALUES (18446744073709551615);"]).isNone =
        true ∧
    ["CREATE TABLE t (s TEXT)", "INSERT INTO t VALUES ('x'), ('y')",
      "DELETE FROM t WHERE s = 'x'"].mapM (Statement.parse Host.ascii) = some deletedRow ∧
    ((Run.run (Store.step Host.ascii) Store.new deletedRow).bind fun s => s.catalog.get "t").map
      (fun t => t.columns) = some [[Host.ascii.xxh3 "y"]] ∧
    savedAfter Host.ascii deletedRow =
      some ["CREATE TABLE t (s TEXT);", "INSERT INTO t VALUES ('x');"] := by
  refine ⟨by decide +kernel, by decide +kernel, by decide +kernel, by decide +kernel,
    by decide +kernel, by decide +kernel⟩

end TensorVault
