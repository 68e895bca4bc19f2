import TensorVault.Engine.Value
import TensorVault.Index.Manager

/-!
# DDL

`execute_ddl` works on the catalog and on the index manager: `DROP COLUMN` also drops the index
on the column, `DROP TABLE` leaves the indexes of the table alone.
-/

namespace TensorVault

open Sql List

def tableNotFound (name : String) : Error := .notFound ("table \"" ++ name ++ "\"")

def columnNotFound (name : String) : Error := .notFound ("column \"" ++ name ++ "\"")

/-! ## CREATE and DROP TABLE -/

/-- The empty table of a `CREATE TABLE`. -/
def createdTable (ct : CreateTable) : Table :=
  { name := fullName ct.schema ct.name
    columns := ct.columns.map fun _ => []
    columnNames := ct.columns.map ColumnDef.name
    rowCount := 0
    stringColumns := List.replicate ct.columns.length none
    nullBitmaps := List.replicate ct.columns.length none
    schema := some (TableSchema.fromDdl ct.columns) }

def executeCreateTable (cat : Catalog) (ct : CreateTable) : Outcome Catalog :=
  if (cat.get (fullName ct.schema ct.name)).isSome then
    if ct.ifNotExists then .ok cat
    else .err (.other ("table \"" ++ fullName ct.schema ct.name ++ "\" already exists"))
  else .ok (cat.register (createdTable ct))

def executeDropTable (cat : Catalog) (dt : DropTable) : Outcome Catalog :=
  if (cat.get (fullName dt.schema dt.name)).isNone then
    if dt.ifExists then .ok cat else .err (tableNotFound (fullName dt.schema dt.name))
  else .ok (cat.drop (fullName dt.schema dt.name))

/-! ## ALTER TABLE -/

/-- `ADD COLUMN`: existing rows get the default cell; there is no sidecar and no bitmap. -/
def addColumn (H : Host) (t : Table) (col : ColumnDef) : Table :=
  { t with
    columns := t.columns ++ [List.replicate t.rowCount (defaultCellForType H col)]
    columnNames := t.columnNames ++ [col.name]
    stringColumns := t.stringColumns ++ [none]
    nullBitmaps := t.nullBitmaps ++ [none]
    schema := t.schema.map fun s => { columns := s.columns ++ [TableSchema.ofColumnDef col] } }

/-- `DROP COLUMN` at position `idx`; entries past the end of a vector stay. -/
def removeColumn (t : Table) (idx : Nat) : Table :=
  { t with
    columns := t.columns.eraseIdx idx
    columnNames := t.columnNames.eraseIdx idx
    stringColumns := t.stringColumns.eraseIdx idx
    nullBitmaps := t.nullBitmaps.eraseIdx idx
    schema := t.schema.map fun s => { columns := s.columns.eraseIdx idx } }

/-- `ALTER COLUMN ... TYPE` only changes the schema. -/
def retypeColumn (t : Table) (idx : Nat) (newType : ColumnType) : Table :=
  { t with schema := t.schema.map fun s =>
      { columns := s.columns.modify idx fun c => { c with colType := newType } } }

/-- `execute_alter_table`, with the index manager after it. -/
def executeAlterTable (H : Host) (cat : Catalog) (im : IndexManager) (at_ : AlterTable) :
    Outcome (Catalog × IndexManager) :=
  match cat.get (fullName at_.schema at_.name) with
  | none => .err (tableNotFound (fullName at_.schema at_.name))
  | some t =>
    match at_.action with
    | .addColumn col => .ok (cat.register (addColumn H t col), im)
    | .dropColumn colName =>
      match t.columnIdx colName with
      | none => .err (columnNotFound colName)
      | some idx =>
        if idx < t.columns.length then
          .ok (cat.register (removeColumn t idx), im.drop (fullName at_.schema at_.name) colName)
        else .panic
    | .alterColumnType colName newType =>
      match t.columnIdx colName with
      | none => .err (columnNotFound colName)
      | some idx => .ok (cat.register (retypeColumn t idx newType), im)

/-! ## Indexes -/

/-- `execute_create_index`: the index is filled from the cells the column has now. -/
def executeCreateIndex (cat : Catalog) (im : IndexManager) (ci : CreateIndex) :
    Outcome IndexManager :=
  if (im.byName ci.indexName).isSome then
    if ci.ifNotExists then .ok im
    else .err (.other ("index \"" ++ ci.indexName ++ "\" already exists"))
  else
    match cat.get ci.table with
    | none => .err (tableNotFound ci.table)
    | some t =>
      match t.columnIdx ci.column with
      | none => .err (columnNotFound ci.column)
      | some colIdx =>
        match t.columns[colIdx]? with
        | none => .err (.other ("column \"" ++ ci.column ++ "\" out of range"))
        | some values => .ok (im.createNamed ci.indexName ci.table ci.column values)

def executeDropIndex (im : IndexManager) (di : DropIndex) : Outcome IndexManager :=
  match im.dropByName di.indexName with
  | some im' => .ok im'
  | none =>
    if di.ifExists then .ok im else .err (.notFound ("index \"" ++ di.indexName ++ "\""))

/-! ## All of DDL -/

/-- `execute_ddl`. -/
def executeDdl (H : Host) (cat : Catalog) (im : IndexManager) :
    DdlStatement → Outcome (Catalog × IndexManager)
  | .create ct => do
    let cat' ← executeCreateTable cat ct
    pure (cat', im)
  | .drop dt => do
    let cat' ← executeDropTable cat dt
    pure (cat', im)
  | .createSchema _ => .ok (cat, im)
  | .alterTable at_ => executeAlterTable H cat im at_
  | .createIndex ci => do
    let im' ← executeCreateIndex cat im ci
    pure (cat, im')
  | .dropIndex di => do
    let im' ← executeDropIndex im di
    pure (cat, im')

/-! ## What a statement that succeeds has done -/

/-- A DDL statement that succeeds, with what it has found. -/
inductive DdlStep (H : Host) (cat : Catalog) (im : IndexManager) :
    DdlStatement → Catalog → IndexManager → Prop
  | existing {ct : CreateTable} (h : (cat.get (fullName ct.schema ct.name)).isSome = true) :
    DdlStep H cat im (.create ct) cat im
  | created {ct : CreateTable} (h : ¬ (cat.get (fullName ct.schema ct.name)).isSome = true) :
    DdlStep H cat im (.create ct) (cat.register (createdTable ct)) im
  | missing {dt : DropTable} : DdlStep H cat im (.drop dt) cat im
  | dropped {dt : DropTable} : DdlStep H cat im (.drop dt)
    (cat.drop (fullName dt.schema dt.name)) im
  | schema {name : String} : DdlStep H cat im (.createSchema name) cat im
  | added {at_ : AlterTable} {t : Table} {col : ColumnDef}
    (ht : cat.get (fullName at_.schema at_.name) = some t) (h : at_.action = .addColumn col) :
    DdlStep H cat im (.alterTable at_) (cat.register (addColumn H t col)) im
  | removed {at_ : AlterTable} {t : Table} {col : String} {idx : Nat}
    (ht : cat.get (fullName at_.schema at_.name) = some t) (h : at_.action = .dropColumn col)
    (hidx : t.columnIdx col = some idx) (hlt : idx < t.columns.length) :
    DdlStep H cat im (.alterTable at_) (cat.register (removeColumn t idx))
      (im.drop (fullName at_.schema at_.name) col)
  | retyped {at_ : AlterTable} {t : Table} {col : String} {newType : ColumnType} {idx : Nat}
    (ht : cat.get (fullName at_.schema at_.name) = some t)
    (h : at_.action = .alterColumnType col newType) (hidx : t.columnIdx col = some idx) :
    DdlStep H cat im (.alterTable at_) (cat.register (retypeColumn t idx newType)) im
  | createIndex {ci : CreateIndex} {im' : IndexManager}
    (h : executeCreateIndex cat im ci = .ok im') : DdlStep H cat im (.createIndex ci) cat im'
  | dropIndex {di : DropIndex} {im' : IndexManager} (h : executeDropIndex im di = .ok im') :
    DdlStep H cat im (.dropIndex di) cat im'

variable {H : Host} {t : Table} {col : ColumnDef} {idx : Nat}

theorem executeDdl_eq_ok {cat cat' : Catalog} {im im' : IndexManager} {d : DdlStatement}
    (h : executeDdl H cat im d = .ok (cat', im')) : DdlStep H cat im d cat' im' := by
  cases d with
  | create ct =>
    obtain ⟨c, hc, heq⟩ := Outcome.bind_eq_ok.mp h
    cases heq
    unfold executeCreateTable at hc
    split at hc
    · next hexists =>
      split at hc <;> cases hc
      exact .existing hexists
    · next hnew => cases hc; exact .created hnew
  | drop dt =>
    obtain ⟨c, hc, heq⟩ := Outcome.bind_eq_ok.mp h
    cases heq
    unfold executeDropTable at hc
    split at hc
    · split at hc <;> cases hc
      exact .missing
    · cases hc; exact .dropped
  | createSchema name => cases h; exact .schema
  | alterTable at_ =>
    simp only [executeDdl, executeAlterTable] at h
    split at h
    · cases h
    · next t ht =>
      split at h
      · next haction => cases h; exact .added ht haction
      · next haction =>
        split at h
        · cases h
        · next hidx =>
          split at h <;> cases h
          exact .removed ht haction hidx ‹_›
      · next haction =>
        split at h
        · cases h
        · next hidx => cases h; exact .retyped ht haction hidx
  | createIndex ci =>
    obtain ⟨_, him, heq⟩ := Outcome.bind_eq_ok.mp h
    cases heq
    exact .createIndex him
  | dropIndex di =>
    obtain ⟨_, him, heq⟩ := Outcome.bind_eq_ok.mp h
    cases heq
    exact .dropIndex him

/-! ## Shape -/

theorem wellFormed_createdTable {ct : CreateTable} : (createdTable ct).WellFormed where
  names := by simp [createdTable]
  strings := by simp [createdTable]
  nulls := by simp [createdTable]
  cells := by
    intro col hcol
    obtain ⟨_, _, rfl⟩ := mem_map.mp hcol
    rfl
  bitmaps := by
    intro bm hbm
    cases (mem_replicate.mp hbm).2
  sidecars := by
    intro sc hsc
    cases (mem_replicate.mp hsc).2

theorem parallel_addColumn (ht : t.Parallel) : (addColumn H t col).Parallel where
  names := by simp [addColumn, ht.names]
  strings := by simp [addColumn, ht.strings]
  nulls := by simp [addColumn, ht.nulls]

theorem parallel_removeColumn (ht : t.Parallel) : (removeColumn t idx).Parallel where
  names := by simp only [removeColumn, length_eraseIdx, ht.names]
  strings := by simp only [removeColumn, length_eraseIdx, ht.strings]
  nulls := by simp only [removeColumn, length_eraseIdx, ht.nulls]

theorem wellFormed_addColumn (ht : t.WellFormed) : (addColumn H t col).WellFormed where
  toParallel := parallel_addColumn ht.toParallel
  cells := by
    intro c hc
    rcases mem_append.mp hc with hc | hc
    · exact ht.cells c hc
    · rw [mem_singleton.mp hc]
      exact length_replicate
  bitmaps := by
    intro bm hbm
    rcases mem_append.mp hbm with hbm | hbm
    · exact ht.bitmaps bm hbm
    · cases mem_singleton.mp hbm
  sidecars := by
    intro sc hsc
    rcases mem_append.mp hsc with hsc | hsc
    · exact ht.sidecars sc hsc
    · cases mem_singleton.mp hsc

theorem wellFormed_removeColumn (ht : t.WellFormed) : (removeColumn t idx).WellFormed where
  toParallel := parallel_removeColumn ht.toParallel
  cells := fun c hc => ht.cells c (mem_of_mem_eraseIdx hc)
  bitmaps := fun bm hbm => ht.bitmaps bm (mem_of_mem_eraseIdx hbm)
  sidecars := fun sc hsc => ht.sidecars sc (mem_of_mem_eraseIdx hsc)

end TensorVault
