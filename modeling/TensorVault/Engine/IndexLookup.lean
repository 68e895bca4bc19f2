import TensorVault.Engine.Answer
import TensorVault.Engine.Locality
import TensorVault.Engine.Shape

/-!
# Index lookups and scans

A lookup gives the rows of a scan as long as the index is fresh: the indexed column still holds the
cells the index was built from (`tryIndexedLookup_sameRows`). No statement but CREATE INDEX
refreshes an index, so indexes stay fresh in sessions that leave indexed columns alone
(`IndexInv.step`, `indexed_sameRows_of_orderly`).
-/

namespace TensorVault

variable {name : String} {t : Table}

open Text Sql List

/-! ## Columns by name -/

/-- The cells of the column of a name. -/
def Table.column (t : Table) (name : String) : Option (List UInt64) :=
  (t.columnIdx name).bind fun c => t.columns[c]?

variable {α β : Type} {p : α → Bool} {H : Host} {items : List SelectItem} {source : String}
  {left right : Expr} {v : Value} {limit : Option Nat} {qr : QueryResult}

theorem findIdx?_bind_getElem? :
    ∀ {names : List α} {cols : List β}, names.length = cols.length →
      ((names.findIdx? p).bind fun c => cols[c]?) =
        ((names.zip cols).find? fun x => p x.1).map Prod.snd
  | [], [], _ => rfl
  | name :: names, col :: cols, h => by
    rw [findIdx?_cons, zip_cons_cons, find?_cons]
    cases hp : p name with
    | true => simp
    | false =>
      rw [← findIdx?_bind_getElem? (Nat.succ.inj h)]
      cases names.findIdx? p <;> simp

theorem Table.Parallel.column_eq (ht : t.Parallel) (name : String) :
    t.column name =
      ((t.columnNames.zip t.columns).find? fun x => x.1 == name).map Prod.snd :=
  findIdx?_bind_getElem? ht.names

theorem column_addColumn (ht : t.Parallel) {col : ColumnDef} (hne : name ≠ col.name) :
    (addColumn H t col).column name = t.column name := by
  have hnew : (addColumn H t col).columnNames.length = (addColumn H t col).columns.length := by
    simp [addColumn, ht.names]
  rw [ht.column_eq, Table.column, Table.columnIdx, findIdx?_bind_getElem? hnew]
  simp only [addColumn]
  rw [zip_append ht.names, find?_append]
  have hlast : ((col.name == name) = false) := by simpa using hne.symm
  simp [hlast]

theorem find?_eraseIdx_of_not :
    ∀ {l : List α} {i : Nat}, (∀ x, l[i]? = some x → p x = false) →
      (l.eraseIdx i).find? p = l.find? p
  | [], _, _ => rfl
  | x :: l, 0, h => by simp [h x rfl]
  | x :: l, i + 1, h => by
    have ih : (l.eraseIdx i).find? p = l.find? p := find?_eraseIdx_of_not fun y hy => h y hy
    rw [eraseIdx_cons_succ, find?_cons, find?_cons, ih]

theorem zip_eraseIdx :
    ∀ (as : List α) (bs : List β) (i : Nat),
      (as.eraseIdx i).zip (bs.eraseIdx i) = (as.zip bs).eraseIdx i
  | [], _, _ => by simp
  | _ :: _, [], i => by simp
  | a :: as, b :: bs, 0 => by simp
  | a :: as, b :: bs, i + 1 => by simp [zip_eraseIdx as bs i]

theorem column_removeColumn (ht : t.WellFormed) {idx : Nat} {dropped : String}
    (hidx : t.columnIdx dropped = some idx) (hne : name ≠ dropped) :
    (removeColumn t idx).column name = t.column name := by
  rw [(wellFormed_removeColumn ht).column_eq, ht.column_eq]
  simp only [removeColumn]
  rw [zip_eraseIdx, find?_eraseIdx_of_not]
  intro x hx
  obtain ⟨hlt', hname, -⟩ := findIdx?_eq_some_iff_getElem.mp hidx
  have hfst := (getElem?_zip_eq_some.mp hx).1
  rw [getElem?_eq_getElem hlt', Option.some.injEq] at hfst
  have hdropped : t.columnNames[idx] = dropped := by simpa using hname
  rw [← hfst, hdropped]
  simpa using hne.symm

theorem column_updatedTable {upd : Update} {assigns : List Assign}
    (hassigns : updateAssigns H t upd.assignments = .ok assigns) {mask : List Bool}
    (hname : ∀ p ∈ upd.assignments, p.1 ≠ name) :
    (updatedTable t (updateWrites mask assigns)).column name = t.column name := by
  show ((t.columnIdx name).bind fun c => (updatedTable t (updateWrites mask assigns)).columns[c]?) =
    (t.columnIdx name).bind fun c => t.columns[c]?
  cases hidx : t.columnIdx name with
  | none => rfl
  | some c =>
    have hnone : assignsTo c assigns = [] := by
      rw [updateAssigns_eq_ok hassigns, assignsTo_map_toAssign, map_eq_nil_iff]
      refine filter_eq_nil_iff.mpr fun p hp => ?_
      obtain ⟨a, ha, hpa⟩ := mem_filterMap.mp hp
      obtain ⟨ca, hca, rfl⟩ := Option.map_eq_some_iff.mp hpa
      obtain ⟨hlt, hnamec, -⟩ := findIdx?_eq_some_iff_getElem.mp hidx
      obtain ⟨hlt', hnamea, -⟩ := findIdx?_eq_some_iff_getElem.mp hca
      intro heq
      have hcc : ca = c := by simpa using heq
      subst hcc
      refine hname a ha ?_
      rw [← show t.columnNames[ca] = a.1 by simpa using hnamea,
        ← show t.columnNames[ca] = name by simpa using hnamec]
    simp only [Option.bind_some, updatedTable_columns, at_updateWrites, hnone]
    have hnil : ((matchedRows mask).flatMap fun row =>
        (([] : List Assign).map fun a => (row, a))) = [] := by simp
    rw [hnil]
    cases t.columns[c]? <;> rfl

/-! ## Fresh indexes -/

namespace IndexManager

/-- What an index gives for a value are the rows that hold it now. -/
def Fresh (im : IndexManager) (cat : Catalog) : Prop :=
  ∀ table col t values, im.hasIndex table col = true → cat.get table = some t →
    t.column col = some values → ∀ v, (im.lookup table col v).getD [] = rowsOf v values

/-- Every index of the first manager is one of the second, with the same rows. -/
def Within (im' im : IndexManager) : Prop :=
  ∀ table col, im'.hasIndex table col = true →
    im.hasIndex table col = true ∧ im'.lookup table col = im.lookup table col

variable {im im' : IndexManager} {cat cat' : Catalog} {t' : Table} {table col : String}

theorem Within.refl : im.Within im := fun _ _ h => ⟨h, rfl⟩

theorem Fresh.of_within (h : im.Fresh cat) (hin : im'.Within im) : im'.Fresh cat := by
  intro table col t values hindex ht hvalues v
  obtain ⟨hindex, hlookup⟩ := hin table col hindex
  rw [hlookup]
  exact h table col t values hindex ht hvalues v

/-- A table is replaced, and shows the same cells under the names of indexed columns. -/
theorem Fresh.register (h : im.Fresh cat)
    (hcolumns : ∀ col values, im.hasIndex t'.name col = true → t'.column col = some values →
      ∃ t, cat.get t'.name = some t ∧ t.column col = some values) : im.Fresh (cat.register t') := by
  intro table col t values hindex ht hvalues v
  rw [Catalog.get_register] at ht
  split at ht
  · next htable =>
    cases ht
    rw [htable] at hindex ⊢
    obtain ⟨u, hu, huvalues⟩ := hcolumns col values hindex hvalues
    exact h _ col u values hindex hu huvalues v
  · exact h table col t values hindex ht hvalues v

theorem Fresh.replace (h : im.Fresh cat) (ht : cat.get name = some t) (hname : t'.name = t.name)
    (hcolumns : ∀ col, im.hasIndex name col = true → t'.column col = t.column col) :
    im.Fresh (cat.register t') := by
  rw [Catalog.name_of_get ht] at hname
  subst hname
  exact h.register fun col values hindex hvalues => ⟨t, ht, hcolumns col hindex ▸ hvalues⟩

theorem Fresh.drop (h : im.Fresh cat) : im.Fresh (cat.drop name) := by
  intro table col t values hindex ht
  rw [Catalog.get_drop] at ht
  split at ht
  · cases ht
  · exact h table col t values hindex ht

/-- Nothing happens to tables with an index. -/
theorem Fresh.of_actsOn (h : im.Fresh cat) {effect : Catalog → Option Catalog}
    (hacts : ActsOn name effect) (heffect : effect cat = some cat')
    (hname : ∀ col, im.hasIndex name col = false) : im.Fresh cat' := by
  rcases hacts cat cat rfl with ⟨hnone, -⟩ | ⟨E, hE, hsome, -⟩
  · cases heffect.symm.trans hnone
  · cases heffect.symm.trans hsome
    intro table col t values hindex ht
    have hne : table ≠ name := by
      rintro rfl
      rw [hname col] at hindex
      cases hindex
    rw [Edit.get_apply_of_ne hE hne] at ht
    exact h table col t values hindex ht

theorem hasIndex_drop {table col : String} : (im.drop table col).hasIndex table col = false := by
  unfold IndexManager.drop
  split
  · next hnone => simp [hasIndex, hnone]
  · simp [hasIndex, setKey]

theorem within_of_setKey (hindexes : im'.indexes = setKey im.indexes table col none)
    (hdata : im'.hashData = setKey im.hashData table col none) : im'.Within im := by
  intro t c h
  simp only [hasIndex, hindexes, setKey] at h
  split at h
  · cases h
  · next hne =>
    refine ⟨h, funext fun v => ?_⟩
    simp [lookup, hdata, setKey, hne]

theorem within_drop (im : IndexManager) (table col : String) : (im.drop table col).Within im := by
  unfold IndexManager.drop
  split
  · exact .refl
  · exact within_of_setKey rfl rfl

theorem within_dropByName (h : im.dropByName name = some im') : im'.Within im := by
  unfold dropByName at h
  split at h
  · cases h
  · cases h
    exact within_of_setKey rfl rfl

/-- A new index is fresh in every catalog where the column has the cells it was built from. -/
theorem Fresh.createNamed (h : im.Fresh cat) {values : List UInt64}
    (hvalues : ∀ t vs, cat.get table = some t → t.column col = some vs → vs = values) :
    (im.createNamed name table col values).Fresh cat := by
  intro table' col' t vs hindex ht hvs v
  by_cases hkey : table' = table ∧ col' = col
  · obtain ⟨rfl, rfl⟩ := hkey
    cases hvalues t vs ht hvs
    simp only [lookup, IndexManager.createNamed, setKey, and_self, if_true, buildHashIndex_apply]
    split
    · next hnil => rw [hnil, Option.getD_none]
    · rfl
  · have hold : im.hasIndex table' col' = true := by
      simpa [hasIndex, IndexManager.createNamed, setKey, hkey] using hindex
    have hlookup : (im.createNamed name table col values).lookup table' col' v =
        im.lookup table' col' v := by
      simp [lookup, IndexManager.createNamed, setKey, hkey]
    rw [hlookup]
    exact h table' col' t vs hold ht hvs v

end IndexManager

/-! ## Statements that keep indexes fresh -/

namespace TableStatement

def toStatement : TableStatement → Statement
  | .ddl d => .ddl d
  | .dml d => .dml d

/-- The statement leaves indexed columns alone: no rows come or go in a table with an index, no
indexed column is assigned to, and no new column gets the name of an old index. An index is only
built on a table that is the same inside and outside the transaction. -/
def KeepsIndexes (im : IndexManager) (main cat : Catalog) : TableStatement → Prop
  | .ddl (.create ct) =>
    ∀ col ∈ ct.columns, im.hasIndex (fullName ct.schema ct.name) col.name = false
  | .ddl (.alterTable { schema, name, action := .addColumn col }) =>
    im.hasIndex (fullName schema name) col.name = false
  | .ddl (.createIndex ci) => main.get ci.table = cat.get ci.table
  | .ddl _ => True
  | .dml (.insert ins) => ∀ col, im.hasIndex ins.table col = false
  | .dml (.delete del) => ∀ col, im.hasIndex del.table col = false
  | .dml (.update upd) => ∀ p ∈ upd.assignments, im.hasIndex upd.table p.1 = false

end TableStatement

section Steps

variable {H : Host} {im im' : IndexManager} {main cat cat' : Catalog}

theorem fresh_created (h : im.Fresh cat) {ct : CreateTable}
    (hkeeps : ∀ col ∈ ct.columns, im.hasIndex (fullName ct.schema ct.name) col.name = false) :
    im.Fresh (cat.register (createdTable ct)) := by
  refine h.register fun col values hindex hvalues => ?_
  obtain ⟨c, hc, -⟩ := Option.bind_eq_some_iff.mp hvalues
  obtain ⟨hlt, hname, -⟩ := findIdx?_eq_some_iff_getElem.mp hc
  have hlt' : c < ct.columns.length := by simpa [createdTable] using hlt
  have hcol : ct.columns[c].name = col := by simpa [createdTable] using hname
  have hnone := hkeeps _ (getElem_mem hlt')
  rw [hcol] at hnone
  have hsome : im.hasIndex (fullName ct.schema ct.name) col = true := hindex
  cases hnone.symm.trans hsome

theorem fresh_createIndex (h : im.Fresh cat) (hmain : im.Fresh main) {ci : CreateIndex}
    (hsame : main.get ci.table = cat.get ci.table)
    (hrun : executeCreateIndex cat im ci = .ok im') : im'.Fresh cat ∧ im'.Fresh main := by
  unfold executeCreateIndex at hrun
  split at hrun
  · split at hrun
    · cases hrun
      exact ⟨h, hmain⟩
    · cases hrun
  · split at hrun
    · cases hrun
    · next t ht =>
      split at hrun
      · cases hrun
      · next c hc =>
        split at hrun
        · cases hrun
        · next values hvalues =>
          cases hrun
          have hbuilt : ∀ u vs, cat.get ci.table = some u → u.column ci.column = some vs →
              vs = values := by
            intro u vs hu hvs
            cases ht.symm.trans hu
            rw [Table.column, hc, Option.bind_some, hvalues] at hvs
            exact (Option.some.inj hvs).symm
          exact ⟨h.createNamed hbuilt, hmain.createNamed (hsame ▸ hbuilt)⟩

theorem fresh_dropIndex {di : DropIndex} (hrun : executeDropIndex im di = .ok im') :
    im'.Within im := by
  unfold executeDropIndex at hrun
  split at hrun
  · next im₁ hdrop =>
    cases hrun
    exact IndexManager.within_dropByName hdrop
  · split at hrun
    · cases hrun
      exact .refl
    · cases hrun

/-- DDL keeps fresh what the statement's catalog and the main one have. -/
theorem fresh_executeDdl (hwf : cat.WellFormed) (h : im.Fresh cat) (hmain : im.Fresh main)
    {d : DdlStatement} (hkeeps : (TableStatement.ddl d).KeepsIndexes im main cat)
    (hrun : executeDdl H cat im d = .ok (cat', im')) : im'.Fresh cat' ∧ im'.Fresh main := by
  cases executeDdl_eq_ok hrun with
  | existing | missing | schema => exact ⟨h, hmain⟩
  | created _ => exact ⟨fresh_created h hkeeps, hmain⟩
  | dropped => exact ⟨h.drop, hmain⟩
  | @added at_ t col ht haction =>
    refine ⟨h.replace ht rfl fun name hindex => column_addColumn (hwf _ t ht).toParallel ?_, hmain⟩
    obtain ⟨schema, table, action⟩ := at_
    cases haction
    rintro rfl
    cases hindex.symm.trans hkeeps
  | @removed at_ t col idx ht _ hidx hlt =>
    have hwithin := IndexManager.within_drop im (fullName at_.schema at_.name) col
    refine ⟨(h.of_within hwithin).replace ht rfl fun name hindex =>
      column_removeColumn (hwf _ t ht) hidx ?_, hmain.of_within hwithin⟩
    rintro rfl
    rw [IndexManager.hasIndex_drop] at hindex
    cases hindex
  | retyped ht _ _ => exact ⟨h.replace ht rfl fun _ _ => rfl, hmain⟩
  | createIndex him => exact fresh_createIndex h hmain hkeeps him
  | dropIndex him =>
    exact ⟨h.of_within (fresh_dropIndex him), hmain.of_within (fresh_dropIndex him)⟩

theorem fresh_executeDml (h : im.Fresh cat) {d : DmlStatement} {n : Nat}
    (hkeeps : (TableStatement.dml d).KeepsIndexes im main cat)
    (hrun : executeDml H cat d = .ok (cat', n)) : im.Fresh cat' := by
  cases d with
  | insert ins =>
    exact h.of_actsOn actsOn_insert (congrArg (catalogAfter cat) hrun) hkeeps
  | delete del =>
    exact h.of_actsOn actsOn_delete (congrArg (catalogAfter cat) hrun) hkeeps
  | update upd =>
    obtain ⟨t, assigns, mask, ht, hassigns, -, -, rfl, -⟩ := executeUpdate_eq_ok hrun
    refine h.replace ht rfl fun name hindex => column_updatedTable hassigns ?_
    rintro p hp rfl
    rw [hkeeps p hp] at hindex
    cases hindex

/-- **One statement**, whether it succeeds or not. -/
theorem TableStatement.keeps {s : TableStatement} (hwf : cat.WellFormed) (h : im.Fresh cat)
    (hmain : im.Fresh main) (hshape : KeepsShape H { catalog := cat, indexes := im } s.toStatement)
    (hkeeps : s.KeepsIndexes im main cat) (heffect : s.effect H cat = some cat') :
    cat'.WellFormed ∧ (s.indexEffect H cat im).Fresh cat' ∧
      (s.indexEffect H cat im).Fresh main := by
  cases s with
  | ddl d =>
    have hafter : catalogAfter cat (executeDdl H cat im d) = some cat' :=
      (catalogAfter_executeDdl H cat im d).trans heffect
    simp only [indexEffect]
    cases hd : executeDdl H cat im d with
    | ok p =>
      rw [hd] at hafter
      cases hafter
      exact ⟨wellFormed_executeDdl hwf hd, fresh_executeDdl hwf h hmain hkeeps hd⟩
    | err e =>
      rw [hd] at hafter
      cases hafter
      exact ⟨hwf, h, hmain⟩
    | panic =>
      rw [hd] at hafter
      cases hafter
  | dml d =>
    simp only [effect] at heffect
    cases hd : executeDml H cat d with
    | ok p =>
      rw [hd] at heffect
      cases heffect
      have hstep : Store.step H { catalog := cat, indexes := im } (.dml d) =
          some { catalog := p.1, indexes := im } := by
        simp [Store.step, Store.exec, hd]
      exact ⟨(wellFormed_step_iff hwf hstep).mpr hshape, fresh_executeDml h hkeeps hd, hmain⟩
    | err e =>
      rw [hd] at heffect
      cases heffect
      exact ⟨hwf, h, hmain⟩
    | panic =>
      rw [hd] at heffect
      cases heffect

end Steps

/-! ## The rows of a lookup -/

/-- What a column of a result with `n` rows shows. -/
def ResultColumn.shown (n : Nat) (c : ResultColumn) :
    String × List UInt64 × Option (List String) × List Bool :=
  (c.name, c.values, c.stringValues, (List.range n).map (nullFlagAt c.nullMask))

/-- Two results show the same rows. A column without flags is one without NULLs. -/
def SameRows (a b : QueryResult) : Prop :=
  a.rowCount = b.rowCount ∧ a.columns.map (·.shown a.rowCount) = b.columns.map (·.shown b.rowCount)

section Columns

variable {t : Table} {rows : List Nat} {c : Nat}

theorem map_nullFlagAt_some (flags : List Bool) :
    (List.range flags.length).map (nullFlagAt (some flags)) = flags := by
  refine ext_getElem (by simp) fun i h _ => ?_
  have hi : i < flags.length := by simpa using h
  simp [nullFlagAt, hi]

theorem map_nullFlagAt_columnNulls :
    (List.range rows.length).map (nullFlagAt (columnNulls t c rows)) = rows.map (t.isNull c) := by
  unfold columnNulls
  split
  · have h := map_nullFlagAt_some (rows.map (t.isNull c))
    rwa [length_map] at h
  · next hany =>
    rw [Bool.not_eq_true, any_eq_false] at hany
    refine ext_getElem (by simp) fun i h₁ h₂ => ?_
    have hi : i < rows.length := by simpa using h₂
    simp [nullFlagAt, hany _ (getElem_mem hi)]

theorem map_nullFlagAt_bitmap :
    (List.range rows.length).map
        (nullFlagAt ((t.bitmap c).map fun bm => rows.map (nullFlagAt (some bm)))) =
      rows.map (t.isNull c) := by
  unfold Table.isNull
  cases t.bitmap c with
  | none =>
    refine ext_getElem (by simp) fun i _ _ => ?_
    simp [nullFlagAt]
  | some bm =>
    have h := map_nullFlagAt_some (rows.map (nullFlagAt (some bm)))
    rwa [length_map] at h

theorem shown_indexedColumn (hc : c < t.columns.length) {col : ResultColumn}
    (h : indexedColumn t name c rows = .ok col) :
    col.shown rows.length =
      (answerColumn t name c (columnTexts t c rows) rows).shown rows.length := by
  have hvalues : (rows.mapM fun r => (t.columns[c]?).map fun cells => cells.getD r 0) =
      some (rows.map fun r => (t.cell c r).getD 0) := by
    refine mapM_eq_pure fun r _ => ?_
    rw [Table.cell, getElem?_eq_getElem hc, Option.map_some, Option.bind_some,
      getD_eq_getElem?_getD, Option.pure_def]
  rw [indexedColumn, hvalues] at h
  cases h
  simp only [ResultColumn.shown, answerColumn, map_nullFlagAt_columnNulls]
  rw [map_nullFlagAt_bitmap]

/-- A list of columns that is built one by one. -/
theorem mapM_ok {γ : Type} {f : α → Outcome β} {g : β → γ} {k : α → γ} :
    ∀ {xs : List α} {ys : List β}, (∀ x ∈ xs, ∀ y, f x = .ok y → g y = k x) →
      xs.mapM f = .ok ys → ys.map g = xs.map k
  | [], ys, _, h => by
    cases h
    rfl
  | x :: xs, ys, hf, h => by
    rw [mapM_cons] at h
    obtain ⟨y, hy, h⟩ := Outcome.bind_eq_ok.mp h
    obtain ⟨zs, hzs, h⟩ := Outcome.bind_eq_ok.mp h
    cases h
    rw [map_cons, map_cons, hf x mem_cons_self y hy, mapM_ok (forall_mem_cons.mp hf).2 hzs]

theorem indexedItem_ok (ht : t.WellFormed) {item : SelectItem}
    (hstar : item = .star → ∀ c, t.sidecar c = none) {cols : List ResultColumn}
    (h : indexedItem t rows item = some (.ok cols)) :
    t.Shows item ∧ cols.map (·.shown rows.length) =
      (answerColumns t rows item).map (·.shown rows.length) := by
  cases item with
  | star =>
    refine ⟨trivial, ?_⟩
    rw [indexedItem, Option.some.injEq] at h
    rw [answerColumns, map_map]
    refine mapM_ok (fun p hp col hcol => ?_) h
    rw [shown_indexedColumn (ht.snd_lt hp) hcol]
    simp [columnTexts, hstar rfl]
  | column name =>
    rw [indexedItem, Option.some.injEq] at h
    obtain ⟨c, hc, h⟩ := Outcome.bind_eq_ok.mp h
    obtain ⟨col, hcol, h⟩ := Outcome.bind_eq_ok.mp h
    cases h
    have hidx : t.columnIdx name = some c := by
      unfold columnByName at hc
      split at hc
      · cases hc
        assumption
      · cases hc
    have hlt : c < t.columns.length := ht.names ▸ Table.columnIdx_lt hidx
    have hresolved : resolveColName t name = some c := by
      unfold resolveColName
      rw [hidx]
    refine ⟨⟨c, hlt, hresolved⟩, ?_⟩
    simp only [map_cons, map_nil, answerColumns, hresolved, Option.getD_some,
      shown_indexedColumn hlt hcol]
  | aggregate | literal | window | expression => cases h

theorem indexedItems_ok (ht : t.WellFormed) :
    ∀ {items : List SelectItem} {cols : List ResultColumn},
      (.star ∈ items → ∀ c, t.sidecar c = none) → indexedItems t rows items = some (.ok cols) →
      (∀ item ∈ items, t.Shows item) ∧ cols.map (·.shown rows.length) =
        (items.flatMap (answerColumns t rows)).map (·.shown rows.length)
  | [], cols, _, h => by
    cases h
    exact ⟨fun _ hitem => absurd hitem not_mem_nil, rfl⟩
  | item :: items, cols, hstar, h => by
    rw [indexedItems] at h
    split at h
    · cases h
    · cases h
    · cases h
    · next first hfirst =>
      obtain ⟨rest, hrest, h⟩ := Option.map_eq_some_iff.mp h
      obtain ⟨rest, rfl, h⟩ := Outcome.bind_eq_ok.mp h
      cases h
      obtain ⟨hshows, hfirst⟩ :=
        indexedItem_ok ht (fun hitem => hstar (hitem ▸ mem_cons_self)) hfirst
      obtain ⟨hall, hrest⟩ :=
        indexedItems_ok ht (fun hmem => hstar (mem_cons_of_mem _ hmem)) hrest
      refine ⟨forall_mem_cons.mpr ⟨hshows, hall⟩, ?_⟩
      rw [flatMap_cons, map_append, map_append, hfirst, hrest]

end Columns

/-- The rows of a comparison with a literal. -/
theorem rowsWhere_eq_rowsOf (ht : t.WellFormed) {c : Nat} {values : List UInt64}
    (hc : t.columns[c]? = some values) {v : UInt64} :
    (t.rowsWhere fun r => (values.map fun cell => CmpOp.eq.cells cell v).getD r false) =
      rowsOf v values := by
  have hlen := ht.cells_at hc
  unfold Table.rowsWhere rowsOf
  rw [hlen]
  refine filter_congr fun r hr => ?_
  rw [← hlen, mem_range] at hr
  rw [Bool.eq_iff_iff]
  simp [CmpOp.cells, hr]

/-- `SELECT items FROM source WHERE col = literal LIMIT limit`, the operands in either order. -/
def eqSelect (items : List SelectItem) (source : String) (left right : Expr) (limit : Option Nat) :
    SelectQuery :=
  limitedSelect items source (some (.binary left (.cmp .eq) right)) limit

variable {cat : Catalog} {im : IndexManager}

/-- A lookup that answers: the index, the table, and the columns it shows. -/
theorem tryIndexedLookup_ok (hoperands : columnAndLiteral left right = some (name, v))
    (h : tryIndexedLookup H cat im (eqSelect items source left right limit) = some (.ok qr)) :
    ∃ t c, im.hasIndex source name = true ∧ cat.get source = some t ∧ t.columnIdx name = some c ∧
      let rows := limitRows limit ((im.lookup source name (signedLiteralCell H v)).getD [])
      indexedItems t rows items = some (.ok qr.columns) ∧ qr.rowCount = rows.length := by
  have hpredicate : (some (.binary left (.cmp .eq) right)).bind (eqPredicate H) =
      some (name, signedLiteralCell H v) := by
    simp [eqPredicate, hoperands]
  simp only [tryIndexedLookup, eqSelect, limitedSelect, plainSelect, hpredicate, isEmpty_nil,
    Bool.not_true, Option.isSome_none, Bool.or_self, Bool.false_eq_true, if_false] at h
  cases hindex : im.hasIndex source name with
  | false => simp [hindex] at h
  | true =>
    cases ht : cat.get source with
    | none => simp [hindex, ht] at h
    | some t =>
      cases hidx : t.columnIdx name with
      | none => simp [hindex, ht, hidx] at h
      | some c =>
        simp only [hindex, ht, hidx, Bool.not_true, Bool.false_eq_true, if_false,
          Option.isNone_some] at h
        obtain ⟨x, hx, h⟩ := Option.map_eq_some_iff.mp h
        obtain ⟨cols, rfl, h⟩ := Outcome.bind_eq_ok.mp h
        cases h
        exact ⟨t, c, rfl, rfl, hidx, hx, rfl⟩

/-- The operands of a comparison need no interpreter. -/
theorem needsTpchFallback_of_operands (h : columnAndLiteral left right = some (name, v)) :
    needsTpchFallback left = false ∧ needsTpchFallback right = false := by
  unfold columnAndLiteral at h
  split at h
  · exact ⟨rfl, rfl⟩
  · exact ⟨rfl, rfl⟩
  · cases h

/-- **Lookups.** A lookup in a fresh index gives the rows that `execute_select` gives, for a literal
that both read alike; `*` must not stand for columns of texts. -/
theorem tryIndexedLookup_sameRows {K : Kernels} (hwf : cat.WellFormed) (hfresh : im.Fresh cat)
    (hitems : items ≠ []) (hoperands : columnAndLiteral left right = some (name, v))
    (hliteral : signedLiteralCell H v = literalCell H v)
    (hstar : .star ∈ items → ∀ t, cat.get source = some t → ∀ c, t.sidecar c = none)
    {ext : QueryExtensions}
    (h : tryIndexedLookup H cat im (eqSelect items source left right limit) = some (.ok qr)) :
    ∃ qr', executeSelect H K cat (eqSelect items source left right limit) ext = .ok qr' ∧
      SameRows qr qr' := by
  obtain ⟨t, c, hindex, ht, hidx, hcols, hcount⟩ := tryIndexedLookup_ok hoperands h
  have htwf := hwf _ t ht
  have hlt : c < t.columns.length := htwf.names ▸ Table.columnIdx_lt hidx
  have hcol := getElem?_eq_getElem hlt
  have hvalues : t.column name = some t.columns[c] := by
    rw [Table.column, hidx, Option.bind_some, hcol]
  rw [hliteral, hfresh source name t _ hindex ht hvalues] at hcols hcount
  obtain ⟨hshows, hshown⟩ := indexedItems_ok htwf (fun hmem => hstar hmem t ht) hcols
  have hresolved : resolveColName t name = some c := by
    unfold resolveColName
    rw [hidx]
  have hmask : buildFilterMask H t (some (.binary left (.cmp .eq) right)) =
      some (t.columns[c].map fun cell => CmpOp.eq.cells cell (literalCell H v)) := by
    simp [buildFilterMask, tryStringLikeFilter, evalPredicateMask, comparisonMask, hoperands,
      hresolved, hcol, CmpOp.isOrder]
  have hneeds : (some (.binary left (.cmp .eq) right)).any needsTpchFallback = false := by
    obtain ⟨hl, hr⟩ := needsTpchFallback_of_operands hoperands
    simp [needsTpchFallback, hl, hr]
  refine ⟨_, executeSelect_limited ht htwf.rectangular ⟨hitems, hshows⟩ hneeds hmask ?_, ?_⟩
  · rw [length_map, htwf.cells_at hcol]
  · rw [rowsWhere_eq_rowsOf htwf hcol]
    refine ⟨hcount, ?_⟩
    rw [hcount]
    exact hshown

/-! ## Sessions -/

namespace QueryEngine

variable {e : QueryEngine}

variable {H : Host} {F : Frontend} {n : Nat}

/-- The indexes are fresh and the tables in shape, in the main catalog and in the one statements act
on. -/
structure IndexInv (e : QueryEngine) : Prop where
  mainShape : e.catalog.WellFormed
  shape : e.workingCatalog.WellFormed
  mainFresh : e.indexManager.Fresh e.catalog
  fresh : e.indexManager.Fresh e.workingCatalog

/-- A command that keeps tables in shape and leaves indexed columns alone. -/
def Orderly (H : Host) (F : Frontend) (e : QueryEngine) (sql : String) : Prop :=
  match command H F sql with
  | none => False
  | some (.table s) =>
    KeepsShape H { catalog := e.workingCatalog, indexes := e.indexManager } s.toStatement ∧
      s.KeepsIndexes e.indexManager e.catalog e.workingCatalog
  | some _ => True

theorem IndexInv.idle (hidle : e.txnManager.active = none) (hshape : e.catalog.WellFormed)
    (hfresh : e.indexManager.Fresh e.catalog) : IndexInv e := by
  have hworking := workingCatalog_idle hidle
  exact ⟨hshape, hworking ▸ hshape, hfresh, hworking ▸ hfresh⟩

theorem IndexInv.step {e' : QueryEngine} {sql : String} (h : IndexInv e) (hsql : Orderly H F e sql)
    (hstep : sessionStep H F n e sql = some e') : IndexInv e' := by
  unfold Orderly at hsql
  cases hc : command H F sql with
  | none =>
    rw [hc] at hsql
    exact hsql.elim
  | some c =>
    rw [hc] at hsql
    obtain ⟨_, hreply⟩ := sessionStep_spec hc hstep
    have him := hreply.indexManager
    cases hreply.step with
    | began hidle hcat htxn =>
      have hworking : e'.workingCatalog = e.catalog := workingCatalog_open (by rw [htxn])
      exact ⟨hcat ▸ h.mainShape, hworking ▸ h.mainShape, by rw [him, hcat]; exact h.mainFresh,
        by rw [him, hworking]; exact h.mainFresh⟩
    | beginRefused hactive hsame | commitRefused hidle hsame | rollbackRefused hidle hsame =>
      exact hsame ▸ h
    | committed txn hactive hcat htxn =>
      have hworking := workingCatalog_open hactive
      refine .idle (by rw [htxn]) ?_ ?_
      · rw [hcat, ← hworking]
        exact h.shape
      · rw [him, hcat, ← hworking]
        exact h.fresh
    | rolledBack txn hactive hcat htxn =>
      refine .idle (by rw [htxn]) ?_ ?_
      · rw [hcat]
        exact h.mainShape
      · rw [him, hcat]
        exact h.mainFresh
    | failed s hsame => exact hsame ▸ h
    | autocommitted s hidle heffect htxn =>
      have hworking := workingCatalog_idle hidle
      rw [hworking] at hsql
      obtain ⟨hshape, hfresh, -⟩ := TableStatement.keeps h.mainShape h.mainFresh h.mainFresh hsql.1
        hsql.2 heffect
      refine .idle (by rw [htxn, hidle]) hshape ?_
      rw [him, hworking]
      exact hfresh
    | inTxn s txn snapshot hactive heffect hcat htxn =>
      have hworking := workingCatalog_open hactive
      have hworking' : e'.workingCatalog = snapshot := workingCatalog_open (by rw [htxn])
      rw [← hworking] at heffect
      obtain ⟨hshape, hfresh, hmain⟩ := TableStatement.keeps h.shape h.fresh h.mainFresh hsql.1
        hsql.2 heffect
      exact ⟨hcat ▸ h.mainShape, hworking' ▸ hshape, by rw [him, hcat]; exact hmain,
        by rw [him, hworking']; exact hfresh⟩

theorem indexInv_new : IndexInv QueryEngine.new := by
  refine .idle rfl Store.wellFormed_new ?_
  intro table col t values hindex
  cases hindex

/-- **Index transparency.** In a session whose commands keep tables in shape and leave indexed
columns alone, every lookup that answers gives the rows of the scan, whatever the state reached. -/
theorem indexed_sameRows_of_orderly (K : Kernels) {stmts : List String} {e : QueryEngine}
    (horderly : Run.Along (sessionStep H F n) (Orderly H F) QueryEngine.new stmts)
    (hrun : Run.run (sessionStep H F n) QueryEngine.new stmts = some e)
    {items : List SelectItem} (hitems : items ≠ []) {source name : String} {left right : Expr}
    {v : Value} {limit : Option Nat} (hoperands : columnAndLiteral left right = some (name, v))
    (hliteral : signedLiteralCell H v = literalCell H v)
    (hstar : .star ∈ items → ∀ t, e.workingCatalog.get source = some t → ∀ c, t.sidecar c = none)
    (ext : QueryExtensions) {qr : QueryResult}
    (h : tryIndexedLookup H e.workingCatalog e.indexManager
      (eqSelect items source left right limit) = some (.ok qr)) :
    ∃ qr', executeSelect H K e.workingCatalog (eqSelect items source left right limit) ext =
        .ok qr' ∧ SameRows qr qr' := by
  have hinv : IndexInv e := Run.invariant_of_along
    (fun _ _ _ hs hsql hstep => IndexInv.step hs hsql hstep) indexInv_new horderly stmts
    (prefix_refl _) e hrun
  exact tryIndexedLookup_sameRows hinv.shape hinv.fresh hitems hoperands hliteral hstar h

/-! ## A table with one column -/

/-- `SELECT a FROM t WHERE a = 1`. -/
def selectOne : SelectQuery := eqSelect [.column "a"] "t" (.column "a") (.literal (.int 1)) none

/-- What the lookup and the scan give after some commands. -/
def bothAfter (stmts : List String) : Option (Option (Outcome QueryResult) × Outcome QueryResult) :=
  (Run.run (sessionStep Host.ascii Frontend.closed 0) QueryEngine.new stmts).map fun e =>
    (tryIndexedLookup Host.ascii e.workingCatalog e.indexManager selectOne,
      executeSelect Host.ascii .unsupported e.workingCatalog selectOne { tier := none })

def foundRow : QueryResult where
  columns := [{ name := "a", values := [1], stringValues := none, typeOid := 0, nullMask := none }]
  rowCount := 1

def emptyRows : QueryResult where
  columns := [{ name := "a", values := [], stringValues := none, typeOid := 0, nullMask := none }]
  rowCount := 0

/-- A row that is inserted after the index has been built is not found by it. -/
theorem staleIndex_hides_row :
    ∃ e, Run.run (sessionStep Host.ascii Frontend.closed 0) QueryEngine.new
        ["CREATE TABLE t (a BIGINT)", "CREATE INDEX i ON t (a)", "INSERT INTO t VALUES (1)"] =
          some e ∧
      tryIndexedLookup Host.ascii e.workingCatalog e.indexManager selectOne = some (.ok emptyRows) ∧
      executeSelect Host.ascii .unsupported e.workingCatalog selectOne
        { tier := none } = .ok foundRow ∧
      ¬ SameRows emptyRows foundRow := by
  have hboth : bothAfter
      ["CREATE TABLE t (a BIGINT)", "CREATE INDEX i ON t (a)", "INSERT INTO t VALUES (1)"] =
        some (some (.ok emptyRows), .ok foundRow) := by decide +kernel
  obtain ⟨e, hrun, heq⟩ := Option.map_eq_some_iff.mp hboth
  obtain ⟨hlookup, hscan⟩ := Prod.mk.inj heq
  exact ⟨e, hrun, hlookup, hscan, fun h => by cases h.1⟩

def columnA : CreateTable where
  schema := "dbo"
  name := "t"
  ifNotExists := false
  columns := [{ name := "a", colType := .bigInt, notNull := false, primaryKey := false,
                default := none, identity := false, references := none }]

/-- An index that is built after the rows have been inserted finds them. -/
theorem lateIndex_finds_row :
    ∃ e, Run.run (sessionStep Host.ascii Frontend.closed 0) QueryEngine.new
        ["CREATE TABLE t (a BIGINT)", "INSERT INTO t VALUES (1)", "CREATE INDEX i ON t (a)"] =
          some e ∧
      tryIndexedLookup Host.ascii e.workingCatalog e.indexManager selectOne = some (.ok foundRow) ∧
      ∃ qr, executeSelect Host.ascii .unsupported e.workingCatalog selectOne { tier := none } =
        .ok qr ∧ SameRows foundRow qr := by
  have hboth : bothAfter
      ["CREATE TABLE t (a BIGINT)", "INSERT INTO t VALUES (1)", "CREATE INDEX i ON t (a)"] =
        some (some (.ok foundRow), .ok foundRow) := by decide +kernel
  obtain ⟨e, hrun, heq⟩ := Option.map_eq_some_iff.mp hboth
  obtain ⟨hlookup, -⟩ := Prod.mk.inj heq
  have hcreate : command Host.ascii Frontend.closed "CREATE TABLE t (a BIGINT)" =
      some (.table (.ddl (.create columnA))) := by decide +kernel
  have hinsert : command Host.ascii Frontend.closed "INSERT INTO t VALUES (1)" =
      some (.table (.dml (.insert { table := "t", columns := none, values := [["1"]] }))) := by
    decide +kernel
  have hindex : command Host.ascii Frontend.closed "CREATE INDEX i ON t (a)" =
      some (.table (.ddl (.createIndex
        { indexName := "i", table := "t", column := "a", ifNotExists := false }))) := by
    decide +kernel
  have horderly : Run.Along (sessionStep Host.ascii Frontend.closed 0)
      (Orderly Host.ascii Frontend.closed) QueryEngine.new
      ["CREATE TABLE t (a BIGINT)", "INSERT INTO t VALUES (1)", "CREATE INDEX i ON t (a)"] := by
    refine ⟨?_, fun e₁ h₁ => ⟨?_, fun e₂ h₂ => ⟨?_, fun _ _ => trivial⟩⟩⟩
    · unfold Orderly
      rw [hcreate]
      exact ⟨trivial, fun _ _ => rfl⟩
    · have htable : (sessionStep Host.ascii Frontend.closed 0 QueryEngine.new
          "CREATE TABLE t (a BIGINT)").map (fun e => e.workingCatalog.get "t") =
            some (some (createdTable columnA)) := by decide +kernel
      rw [h₁, Option.map_some, Option.some.injEq] at htable
      unfold Orderly
      rw [hinsert]
      refine ⟨fun t colIndices ht hidx => ?_, fun col => ?_⟩
      · have ht' : e₁.workingCatalog.get "t" = some t := ht
        cases htable.symm.trans ht'
        cases hidx
        decide +kernel
      · obtain ⟨_, hreply⟩ := sessionStep_spec hcreate h₁
        rw [hreply.indexManager]
        rfl
    · have hsame : (Run.run (sessionStep Host.ascii Frontend.closed 0) QueryEngine.new
          ["CREATE TABLE t (a BIGINT)", "INSERT INTO t VALUES (1)"]).map
            (fun e => decide (e.catalog.get "t" = e.workingCatalog.get "t")) = some true := by
        decide +kernel
      rw [Run.run_cons_of_step h₁, Run.run_cons_of_step h₂, Run.run, Option.map_some,
        Option.some.injEq, decide_eq_true_eq] at hsame
      unfold Orderly
      rw [hindex]
      exact ⟨trivial, hsame⟩
  refine ⟨e, hrun, hlookup, indexed_sameRows_of_orderly .unsupported horderly hrun (by decide) rfl
    (by decide +kernel) (fun hstar => ?_) { tier := none } hlookup⟩
  simp at hstar

end QueryEngine

end TensorVault
