import TensorVault.Engine.TimeTravel
import TensorVault.Engine.Answer
import TensorVault.Engine.Execute
import TensorVault.Engine.Scanners

/-!
# A system-versioned table and its copy

DML is carried over to the copy one call per row, where rows are found by the cell in their first
column. `VersionsKept` is what a statement has to meet for the copy to follow:

* INSERT writes every column once, and no NULL: the copy has no NULL flags
* UPDATE leaves the first cell of a row as it is, since the copy is searched for the new one, and
  only meets rows whose first cell is theirs alone, since only the first row found is replaced
* DELETE takes all rows with the same first cell

`asOf_run`: at a time between two statements the copy has the rows that `SELECT *` showed then.
-/

namespace TensorVault

variable {t : Table}

open Sql Writes List Function

/-! ## Rows -/

/-- The rows of a table, cell by cell. -/
def Table.rows (t : Table) : List (List UInt64) := (List.range t.rowCount).map t.rowCells

/-- The rows a result shows. -/
def QueryResult.shownRows (q : QueryResult) : List (List (Option UInt64)) :=
  (List.range q.rowCount).map fun r => q.columns.map (·.entry r)

/-- The first cells of a row, all of them there. -/
def shownCells (width : Nat) (row : List UInt64) : List (Option UInt64) :=
  (List.range width).map fun c => some (row.getD c 0)

theorem shownRows_rowsToQueryResult {rows : List (List UInt64)} {names : List String} :
    (rowsToQueryResult rows names).shownRows = rows.map (shownCells names.length) := by
  refine ext_getElem (by simp [QueryResult.shownRows, rowsToQueryResult]) fun r hr _ => ?_
  have hlt : r < rows.length := by simpa [QueryResult.shownRows, rowsToQueryResult] using hr
  refine ext_getElem (by simp [QueryResult.shownRows, rowsToQueryResult, shownCells])
    fun c _ _ => ?_
  simp [QueryResult.shownRows, rowsToQueryResult, ResultColumn.entry, nullFlagAt, shownCells, hlt]

/-- No column has a NULL bitmap. -/
def Table.NullFree (t : Table) : Prop := ∀ c, t.bitmap c = none

theorem Table.NullFree.isNull (h : t.NullFree) (c r : Nat) : t.isNull c r = false := by
  rw [Table.isNull, h c]
  rfl

variable {c r : Nat} {H : Host} {cat : Catalog}

theorem Table.getElem?_rowCells :
    (t.rowCells r)[c]? = t.columns[c]?.map fun col => col.getD r 0 := getElem?_map

theorem Table.getD_rowCells : (t.rowCells r)[c]?.getD 0 = (t.cell c r).getD 0 := by
  rw [getElem?_rowCells, cell]
  cases t.columns[c]? <;> simp

theorem shownRows_answer_star (hnull : t.NullFree) :
    (answer t [.star] (List.range t.rowCount)).shownRows =
      t.rows.map (shownCells t.columnNames.length) := by
  refine ext_getElem (by simp [QueryResult.shownRows, answer, Table.rows]) fun r hr _ => ?_
  have hlt : r < t.rowCount := by simpa [QueryResult.shownRows, answer] using hr
  refine ext_getElem (by simp [QueryResult.shownRows, answer, answerColumns, shownCells])
    fun c _ _ => ?_
  simp [QueryResult.shownRows, answer, answerColumns, answerColumn, ResultColumn.entry, nullFlagAt,
    shownCells, Table.rows, columnNulls, hnull.isNull, Table.getD_rowCells, hlt]

/-- `SELECT *` shows the rows of a table without NULLs. -/
theorem executeSelect_star {K : Kernels} {name : String}
    (ext : QueryExtensions) (hget : cat.get name = some t) (ht : t.Rectangular) :
    executeSelect H K cat (plainSelect [.star] name none) ext =
      .ok (answer t [.star] (List.range t.rowCount)) := by
  have hshows : t.ShowsAll [.star] := ⟨by simp, by simp [Table.Shows]⟩
  have hmask : buildFilterMask H t none = some (List.replicate t.rowCount true) := rfl
  rw [executeSelect_plain hget ht hshows rfl hmask (by simp)]
  congr 2
  refine filter_eq_self.mpr fun r hr => ?_
  simp [mem_range.mp hr]

/-! ## The calls of a statement -/

def TemporalChange.call : TemporalChange → TemporalCall
  | .insert values => .insert values
  | .update pk newValues => .update (fun values => values.head? = some pk) newValues
  | .delete pk => .delete fun values => values.head? = some pk

namespace TemporalTable

variable {now : UInt64} {tick : Nat} {cs : List TemporalChange} {α : Type} {xs : List α}

theorem apply_eq {t : TemporalTable} {c : TemporalChange} : t.apply now c = t.call now c.call := by
  cases c with
  | insert values => rfl
  | update pk newValues => exact t.update_eq
  | delete pk => rfl

/-- The changes as calls, each with the reading of its tick. -/
def timedCalls (H : Host) (tick : Nat) (cs : List TemporalChange) : List (UInt64 × TemporalCall) :=
  cs.mapIdx fun i c => (H.now (tick + i), c.call)

theorem applyChanges_eq {t : TemporalTable} :
    applyChanges H tick t cs = (t.run (timedCalls H tick cs), tick + cs.length) := by
  induction cs generalizing tick t with
  | nil => rfl
  | cons c cs ih =>
    rw [applyChanges, ih, apply_eq, timedCalls, timedCalls, mapIdx_cons, run, run,
      foldl_cons, length_cons]
    simp only [Nat.add_zero, Nat.add_comm, Nat.add_left_comm]

theorem mem_timedCalls {c : UInt64 × TemporalCall} (h : c ∈ timedCalls H tick cs) :
    ∃ k, tick ≤ k ∧ k < tick + cs.length ∧ c.1 = H.now k := by
  obtain ⟨i, hi, rfl⟩ := mem_mapIdx.mp h
  exact ⟨tick + i, by omega, by omega, rfl⟩

theorem columnNames_call {t : TemporalTable} {c : TemporalCall} :
    (t.call now c).columnNames = t.columnNames := by
  cases c with
  | insert values => rfl
  | update predicate newValues =>
    rw [call, updateBy]
    split <;> rfl
  | delete predicate => rfl

theorem columnNames_run {t : TemporalTable} {calls : List (UInt64 × TemporalCall)} :
    (t.run calls).columnNames = t.columnNames := by
  induction calls using List.reverseRecOn with
  | nil => rfl
  | append_singleton calls c ih => rw [run_concat, columnNames_call, ih]

/-! ## What the calls do to the rows -/

/-- The current rows, without their times. -/
def rows (t : TemporalTable) : List (List UInt64) := t.currentRows.map Prod.fst

theorem rows_inserts {t : TemporalTable} {values : α → List UInt64} :
    (applyChanges H tick t (xs.map fun x => .insert (values x))).1.rows =
      t.rows ++ xs.map values := by
  induction xs generalizing tick t with
  | nil => simp [applyChanges]
  | cons x xs ih =>
    rw [map_cons, applyChanges, ih]
    simp [rows, apply, insert]

theorem rows_deletes {t : TemporalTable} {pk : α → UInt64} :
    (applyChanges H tick t (xs.map fun x => .delete (pk x))).1.rows =
      t.rows.filter fun values => xs.all fun x => !(values.head? = some (pk x)) := by
  induction xs generalizing tick t with
  | nil => simp [applyChanges]
  | cons x xs ih =>
    have hstep : (t.delete (H.now tick) (pk x)).rows =
        t.rows.filter fun values => !(values.head? = some (pk x)) := by
      simp only [rows, delete, filter_map, comp_def]
    rw [map_cons, applyChanges, ih, apply, hstep, filter_filter]
    simp only [all_cons, Bool.and_comm]

section Update

variable {n : Nat} {g : Nat → List UInt64}

/-- Replacing the only row with a key. -/
theorem rows_update {t : TemporalTable} (hrows : t.rows.Perm ((List.range n).map g))
    (hr : r < n) {pk : UInt64} (hpk : (g r).head? = some pk)
    (hunique : ∀ r' < n, r' ≠ r → (g r').head? ≠ some pk) (now : UInt64) (v : List UInt64) :
    (t.update now pk v).rows.Perm ((List.range n).map (Function.update g r v)) := by
  have hmem : g r ∈ t.rows := hrows.mem_iff.mpr (mem_map_of_mem (mem_range.mpr hr))
  obtain ⟨row, hrow, hvalues⟩ := mem_map.mp hmem
  obtain ⟨⟨rows', old⟩, hfound⟩ := Option.isSome_iff_exists.mp
    (replaceFirst_isSome now (fun values => decide (values.head? = some pk)) v hrow
      (by simp [hvalues, hpk]))
  obtain ⟨before, after, hbefore, rfl, -, hkey⟩ := replaceFirst_eq_some hfound
  -- the row that is found is row `r`
  have hold : old.values = g r := by
    have hin : old.values ∈ (List.range n).map g := by
      refine hrows.mem_iff.mp ?_
      simp [rows, hbefore]
    obtain ⟨r', hr', heq⟩ := mem_map.mp hin
    by_contra hne
    refine hunique r' (mem_range.mp hr') (fun h => hne (by rw [← heq, h])) ?_
    rw [heq]
    simpa using hkey
  have hrange := perm_cons_erase (mem_range.mpr hr)
  have hrest : (before.map Prod.fst ++ after.map Prod.fst).Perm
      (((List.range n).erase r).map g) := by
    refine Perm.cons_inv (a := g r) ?_
    refine perm_middle.symm.trans ?_
    refine .trans ?_ (hrows.trans (hrange.map g))
    simp [rows, hbefore, hold]
  have hupdate : ((List.range n).erase r).map (Function.update g r v) =
      ((List.range n).erase r).map g := by
    refine map_congr_left fun r' hr' => ?_
    rw [update_of_ne]
    exact fun h => nodup_range.not_mem_erase (h ▸ hr')
  rw [update_eq, updateBy, hfound]
  refine .trans ?_ (hrange.map _).symm
  rw [map_cons, update_self, hupdate]
  simp only [rows, map_append, map_cons]
  exact perm_middle.trans (hrest.cons v)

/-- A list of rows to replace, each with a key of its own that the new row keeps. -/
theorem rows_updates {key : Nat → UInt64} {g' : Nat → List UInt64} (H : Host) (tick : Nat)
    {t : TemporalTable} (hrows : t.rows.Perm ((List.range n).map g)) {rs : List Nat}
    (hrs : ∀ r ∈ rs, r < n) (hg : ∀ r < n, (g r).head? = some (key r))
    (hg' : ∀ r ∈ rs, (g' r).head? = some (key r))
    (hunique : ∀ r ∈ rs, ∀ r' < n, r' ≠ r → key r' ≠ key r) :
    (applyChanges H tick t (rs.map fun r => .update (key r) (g' r))).1.rows.Perm
      ((List.range n).map fun r => if r ∈ rs then g' r else g r) := by
  induction rs generalizing tick t g with
  | nil => simpa [applyChanges] using hrows
  | cons r rs ih =>
    have hr := hrs r mem_cons_self
    have hstep := rows_update hrows hr (hg r hr) (fun r' hr' hne => by
      rw [hg r' hr']
      exact fun h => hunique r mem_cons_self r' hr' hne (Option.some.inj h))
      (H.now tick) (g' r)
    have hkeep : ∀ r' < n, (Function.update g r (g' r) r').head? = some (key r') := by
      intro r' hr'
      by_cases heq : r' = r
      · subst heq
        rw [update_self]
        exact hg' r' mem_cons_self
      · rw [update_of_ne heq]
        exact hg r' hr'
    refine (ih (tick + 1) hstep (forall_mem_cons.mp hrs).2 hkeep
      (forall_mem_cons.mp hg').2
      (forall_mem_cons.mp hunique).2).trans (.of_eq ?_)
    refine map_congr_left fun r' _ => ?_
    by_cases heq : r' = r
    · subst heq
      simp
    · simp [heq]

end Update

end TemporalTable

/-! ## What a statement has to meet -/

/-- INSERT fills every column of a row, and with no NULL. -/
def InsertVersions (t : Table) (colIndices : List Nat) (values : List (List String)) : Prop :=
  values = [] ∨ ((∀ c < t.columns.length, colIndices.count c = 1) ∧
    ∀ w ∈ cellWrites colIndices values, isNullText w.2 = false)

/-- UPDATE writes no NULL, and a row it meets has a first cell of its own, which stays. -/
def UpdateVersions (t : Table) (assigns : List Assign) (mask : List Bool) : Prop :=
  ∀ r ∈ matchedRows mask, t.columns ≠ [] ∧
    (∀ a ∈ assigns, a.isNull = false ∧ (a.colIdx = 0 → a.cell = t.pk r)) ∧
    ∀ r' < t.rowCount, r' ≠ r → t.pk r' ≠ t.pk r

/-- DELETE meets every row with the first cell of one it meets. -/
def DeleteVersions (t : Table) (mask : List Bool) : Prop :=
  ∀ r ∈ matchedRows mask, t.columns ≠ [] ∧
    ∀ r' < t.rowCount, t.pk r' = t.pk r → r' ∈ matchedRows mask

instance (t : Table) (colIndices : List Nat) (values : List (List String)) :
    Decidable (InsertVersions t colIndices values) := by
  unfold InsertVersions
  infer_instance

instance (t : Table) (assigns : List Assign) (mask : List Bool) :
    Decidable (UpdateVersions t assigns mask) := by
  unfold UpdateVersions
  infer_instance

instance (t : Table) (mask : List Bool) : Decidable (DeleteVersions t mask) := by
  unfold DeleteVersions
  infer_instance

/-- The condition on a statement, in the table before it. A statement that fails has none. -/
def VersionsKept (H : Host) (t : Table) : DmlStatement → Prop
  | .insert ins =>
    match insertColumnIndices t ins.columns with
    | .ok colIndices => InsertVersions t colIndices ins.values
    | .error _ => True
  | .update upd =>
    match updateAssigns H t upd.assignments, matchMask H t upd.whereClause with
    | .ok assigns, .ok mask => UpdateVersions t assigns mask
    | _, _ => True
  | .delete del =>
    match matchMask H t del.whereClause with
    | .ok mask => DeleteVersions t mask
    | _ => True

instance (H : Host) (t : Table) (d : DmlStatement) : Decidable (VersionsKept H t d) := by
  unfold VersionsKept
  split <;> split <;> infer_instance

/-! ## In step -/

/-- The table has no NULLs and the copy has its rows. -/
structure CopyInStep (t : Table) (copy : TemporalTable) : Prop where
  rectangular : t.Rectangular
  nullFree : t.NullFree
  names : copy.columnNames = t.columnNames
  rows : copy.rows.Perm t.rows

variable {tick : Nat} {copy : TemporalTable}

theorem columnNames_applyChanges {cs : List TemporalChange} :
    (applyChanges H tick copy cs).1.columnNames = copy.columnNames := by
  rw [TemporalTable.applyChanges_eq, TemporalTable.columnNames_run]

variable {r : Nat}

theorem Table.head?_rowCells (h : t.columns ≠ []) : (t.rowCells r).head? = some (t.pk r) := by
  unfold pk rowCells
  cases hcols : t.columns with
  | nil => exact absurd hcols h
  | cons col cols => rfl

theorem Table.nullFree_of_nullBitmaps
    (h : ∀ (c : Nat) (bm : Option (List Bool)), t.nullBitmaps[c]? = some bm → bm = none) :
    t.NullFree := by
  intro c
  unfold bitmap
  cases hc : t.nullBitmaps[c]? with
  | none => rfl
  | some bm => rw [h c bm hc]; rfl

variable {c : Nat}

theorem Table.NullFree.nullBitmaps (h : t.NullFree) {bm : Option (List Bool)}
    (hc : t.nullBitmaps[c]? = some bm) : bm = none := by
  have := h c
  rw [bitmap, hc] at this
  exact this

/-! ### INSERT -/

section

variable {H : Host} {t : Table} {colIndices : List Nat} {values : List (List String)}
  {ws : List (Nat × String)}

theorem rowCells_insertedTable_of_lt (ht : t.Rectangular) {n : Nat}
    (hr : r < t.rowCount) : (insertedTable H t ws n).rowCells r = t.rowCells r := by
  refine ext_getElem? fun c => ?_
  rw [Table.getElem?_rowCells, Table.getElem?_rowCells, insertedTable_columns]
  cases hcol : t.columns[c]? with
  | none => rfl
  | some col =>
    have hlen := ht.cells_at hcol
    simp [getElem?_append_left (hlen ▸ hr)]

/-- The new rows are the last ones. -/
theorem rows_insertedTable (ht : t.Rectangular) {n : Nat} :
    (insertedTable H t ws n).rows = t.rows ++ (List.range n).map fun i =>
      (insertedTable H t ws n).rowCells ((insertedTable H t ws n).rowCount - n + i) := by
  rw [show (insertedTable H t ws n).rowCount - n = t.rowCount from Nat.add_sub_cancel ..,
    Table.rows, show (insertedTable H t ws n).rowCount = t.rowCount + n from rfl, range_add,
    map_append, map_map]
  congr 1
  exact map_congr_left fun r hr => rowCells_insertedTable_of_lt ht (mem_range.mp hr)

theorem copyInStep_insert {t' : Table} (h : CopyInStep t copy)
    (hrows : insertRows H t colIndices values = .ok t')
    (hkept : InsertVersions t colIndices values) :
    CopyInStep t' (applyChanges H tick copy ((List.range values.length).map fun i =>
      .insert (t'.rowCells (t'.rowCount - values.length + i)))).1 := by
  obtain ⟨hshort, hcells, -, rfl⟩ := insertRows_eq_ok hrows
  have hws := fun w hw => (hcells w hw).1
  rcases hkept with rfl | ⟨hcount, hnull⟩
  · show CopyInStep (insertedTable H t [] 0) _
    rw [insertedTable_nil]
    exact h
  have ht := h.rectangular
  refine
    { rectangular := ⟨parallel_insertedTable ht.toParallel hws, ?_⟩
      nullFree := Table.nullFree_of_nullBitmaps ?_
      names := by rw [columnNames_applyChanges]; exact h.names
      rows := ?_ }
  · intro col hcol
    obtain ⟨c, hc⟩ := mem_iff_getElem?.mp hcol
    rw [insertedTable_columns] at hc
    obtain ⟨old, hold, rfl⟩ := Option.map_eq_some_iff.mp hc
    rw [length_append, length_map, length_at_cellWrites hshort, ht.cells_at hold,
      hcount c (List.getElem?_eq_some_iff.mp hold).1, Nat.mul_one]
    rfl
  · intro c bm hbm
    rw [insertedTable_nullBitmaps ht.toParallel hws] at hbm
    obtain ⟨old, hold, rfl⟩ := Option.map_eq_some_iff.mp hbm
    rw [h.nullFree.nullBitmaps hold, bitmapAfter, if_neg]
    intro hany
    obtain ⟨v, hv, hvnull⟩ := any_eq_true.mp hany
    have := hnull (c, v) (mem_at.mp hv)
    cases hvnull.symm.trans this
  · rw [rows_insertedTable ht, TemporalTable.rows_inserts]
    exact h.rows.append_right _

end

/-! ### UPDATE -/

section

variable {t : Table} {assigns : List Assign} {mask : List Bool}

theorem getElem?_rowCells_updatedTable (ht : t.Rectangular) (hr : r < t.rowCount) :
    ((updatedTable t (updateWrites mask assigns)).rowCells r)[c]? =
      (t.rowCells r)[c]?.map fun x => if r ∈ matchedRows mask then
        ((assignsTo c assigns).getLast?.map Assign.cell).getD x else x := by
  rw [Table.getElem?_rowCells, Table.getElem?_rowCells, updatedTable_columns]
  cases hcol : t.columns[c]? with
  | none => rfl
  | some col =>
    have hlen := ht.cells_at hcol
    simp only [Option.map_some, getD_eq_getElem?_getD, updatedColumn_getElem?,
      getElem?_eq_getElem (hlen ▸ hr : r < col.length), Option.getD_some]

theorem copyInStep_update (h : CopyInStep t copy)
    (hmask : mask.length = t.rowCount) (hkept : UpdateVersions t assigns mask) :
    CopyInStep (updatedTable t (updateWrites mask assigns))
      (applyChanges H tick copy ((matchedRows mask).map fun r =>
        .update ((updatedTable t (updateWrites mask assigns)).pk r)
          ((updatedTable t (updateWrites mask assigns)).rowCells r))).1 := by
  have ht := h.rectangular
  have hlt : ∀ r ∈ matchedRows mask, r < t.rowCount := fun r hr =>
    hmask ▸ (List.getElem?_eq_some_iff.mp (mem_matchedRows.mp hr)).1
  refine
    { rectangular := ⟨parallel_updatedTable ht.toParallel, ?_⟩
      nullFree := Table.nullFree_of_nullBitmaps ?_
      names := by rw [columnNames_applyChanges]; exact h.names
      rows := ?_ }
  · intro col hcol
    obtain ⟨c, hc⟩ := mem_iff_getElem?.mp hcol
    rw [updatedTable_columns] at hc
    obtain ⟨old, hold, rfl⟩ := Option.map_eq_some_iff.mp hc
    rw [length_applyWrites]
    exact ht.cells_at hold
  · intro c bm hbm
    rw [updatedTable_nullBitmaps ht.toParallel] at hbm
    obtain ⟨old, hold, rfl⟩ := Option.map_eq_some_iff.mp hbm
    rw [h.nullFree.nullBitmaps hold]
    refine nullFlags_none_of_no_null fun w hw => ?_
    obtain ⟨hr, ha⟩ := mem_at_updateWrites.mp hw
    exact ((hkept w.1 hr).2.1 w.2 (mem_filter.mp ha).1).1
  · by_cases hcols : t.columns = []
    · -- without columns no row is met
      have hnone : matchedRows mask = [] :=
        eq_nil_iff_forall_not_mem.mpr fun r hr => (hkept r hr).1 hcols
      rw [hnone]
      refine h.rows.trans (.of_eq ?_)
      simp [Table.rows, Table.rowCells, updatedTable, hcols, updateWrites, hnone, applyWrites]
    -- the first cell of a row that is met stays
    have hhead : ∀ r ∈ matchedRows mask,
        ((updatedTable t (updateWrites mask assigns)).rowCells r).head? = some (t.pk r) := by
      intro r hr
      rw [head?_eq_getElem?, getElem?_rowCells_updatedTable ht (hlt r hr),
        ← head?_eq_getElem?, Table.head?_rowCells hcols, Option.map_some, if_pos hr]
      cases hlast : (assignsTo 0 assigns).getLast? with
      | none => rfl
      | some a =>
        obtain ⟨hmem, hcol⟩ := mem_filter.mp (mem_of_getLast? hlast)
        exact congrArg some (((hkept r hr).2.1 a hmem).2 (of_decide_eq_true hcol))
    have hcols' : (updatedTable t (updateWrites mask assigns)).columns ≠ [] := by
      rw [← length_pos_iff, length_updatedTable_columns]
      exact length_pos_iff.mpr hcols
    have hpk : ∀ r ∈ matchedRows mask,
        (updatedTable t (updateWrites mask assigns)).pk r = t.pk r := fun r hr =>
      Option.some.inj ((Table.head?_rowCells hcols').symm.trans (hhead r hr))
    rw [show ((matchedRows mask).map fun r => TemporalChange.update
        ((updatedTable t (updateWrites mask assigns)).pk r)
        ((updatedTable t (updateWrites mask assigns)).rowCells r)) =
      (matchedRows mask).map fun r => .update (t.pk r)
        ((updatedTable t (updateWrites mask assigns)).rowCells r) from
      map_congr_left fun r hr => by rw [hpk r hr]]
    refine (TemporalTable.rows_updates H tick h.rows hlt (fun r _ => Table.head?_rowCells hcols)
      hhead fun r hr => (hkept r hr).2.2).trans (.of_eq ?_)
    refine map_congr_left fun r hr => ?_
    split
    · rfl
    · next hnot =>
      refine ext_getElem? fun c => ?_
      rw [getElem?_rowCells_updatedTable ht (mem_range.mp hr)]
      simp [hnot]

end

/-! ### DELETE -/

section

variable {t : Table} {mask : List Bool}

theorem keepRows_eq_map {col : List UInt64} (h : col.length = mask.length) :
    keepRows mask col =
      ((List.range mask.length).filter fun r => !mask.getD r false).map (col.getD · 0) := by
  have hzip : col.zip mask =
      (List.range mask.length).map fun r => (col.getD r 0, mask.getD r false) := by
    refine ext_getElem (by simp [h]) fun i hi _ => ?_
    have hlt : i < mask.length := by simpa [h] using hi
    simp [hlt, h ▸ hlt]
  rw [keepRows, hzip, filter_map, map_map]
  rfl

theorem rows_deletedTable (ht : t.Rectangular) (hmask : mask.length = t.rowCount) :
    (deletedTable t mask).rows =
      ((List.range t.rowCount).filter fun r => !mask.getD r false).map t.rowCells := by
  have hcount : t.rowCount - mask.count true =
      ((List.range t.rowCount).filter fun r => !mask.getD r false).length := by
    have hany : (List.replicate mask.length (0 : UInt64)).length = mask.length :=
      length_replicate
    rw [← hmask, ← length_keepRows hany, keepRows_eq_map hany, length_map]
  refine ext_getElem (by simp [Table.rows, deletedTable, hcount]) fun i _ hi => ?_
  simp only [Table.rows, getElem_map, getElem_range]
  refine ext_getElem? fun c => ?_
  rw [Table.getElem?_rowCells, Table.getElem?_rowCells, deletedTable, getElem?_map]
  cases hcol : t.columns[c]? with
  | none => rfl
  | some col =>
    have hlen : col.length = mask.length := (ht.cells_at hcol).trans hmask.symm
    have hkept : i < ((List.range t.rowCount).filter fun r => !mask.getD r false).length := by
      simpa only [length_map] using hi
    simp only [Option.map_some, keepRows_eq_map hlen, hmask,
      getD_eq_getElem?_getD (l := List.map _ _), getElem?_map,
      getElem?_eq_getElem hkept, Option.getD_some]

theorem copyInStep_delete {t' : Table} (h : CopyInStep t copy) (hmask : mask.length = t.rowCount)
    (hrows : deleteRows t mask = .ok t') (hkept : DeleteVersions t mask) :
    CopyInStep t'
      (applyChanges H tick copy ((matchedRows mask).map fun r => .delete (t.pk r))).1 := by
  have ht := h.rectangular
  have hmet : ∀ r, r ∈ matchedRows mask ↔ mask.getD r false = true := fun r => by
    rw [mem_matchedRows, getD_eq_getElem?_getD]
    cases mask[r]? <;> simp
  rcases deleteRows_eq_ok hrows with ⟨hzero, rfl⟩ | ⟨hpos, -, rfl⟩
  · have hnone : matchedRows mask = [] := eq_nil_iff_forall_not_mem.mpr fun r hr =>
      count_eq_zero.mp hzero (mem_of_getElem? (mem_matchedRows.mp hr))
    rw [hnone]
    exact h
  refine
    { rectangular := ⟨⟨?_, ?_, ?_⟩, ?_⟩
      nullFree := h.nullFree
      names := by rw [columnNames_applyChanges]; exact h.names
      rows := ?_ }
  · simpa [deletedTable] using ht.names
  · simpa [deletedTable] using ht.strings
  · simpa [deletedTable] using ht.nulls
  · intro col hcol
    obtain ⟨old, hold, rfl⟩ := mem_map.mp hcol
    rw [length_keepRows ((ht.cells old hold).trans hmask.symm), hmask]
    rfl
  · have hcols : t.columns ≠ [] := by
      obtain ⟨i, hi⟩ := mem_iff_getElem?.mp (count_pos_iff.mp hpos)
      exact (hkept i (mem_matchedRows.mpr hi)).1
    rw [TemporalTable.rows_deletes, rows_deletedTable ht hmask]
    refine (h.rows.filter _).trans (.of_eq ?_)
    rw [Table.rows, filter_map]
    congr 1
    refine filter_congr fun r hr => ?_
    simp only [Function.comp, Table.head?_rowCells hcols, Option.some.injEq]
    rw [Bool.eq_iff_iff, all_eq_true, Bool.not_eq_true', ← Bool.not_eq_true, ← hmet]
    constructor
    · intro hall hr
      simpa using hall r hr
    · intro hnot r' hr'
      have hne : t.pk r ≠ t.pk r' := fun heq =>
        hnot ((hkept r' hr').2 r (mem_range.mp hr) heq)
      simpa using hne

end

/-! ## Statements and runs -/

variable {copy : TemporalTable}

theorem copyInStep_dml {cat' : Catalog} {d : DmlStatement} {n : Nat}
    (hget : cat.get d.table = some t) (h : CopyInStep t copy)
    (hkept : VersionsKept H t d) (hdml : executeDml H cat d = .ok (cat', n)) :
    ∃ t', cat'.get d.table = some t' ∧
      CopyInStep t' (applyChanges H tick copy (temporalChanges H cat cat' d)).1 := by
  have hname : t.name = d.table := Catalog.name_of_get hget
  have hregister : ∀ t' : Table, t'.name = t.name → (cat.register t').get d.table = some t' :=
    fun t' hsame => by rw [← hname, ← hsame, Catalog.get_register_self]
  cases d with
  | insert ins =>
    obtain ⟨u, t', colIndices, hu, hindices, hrows, rfl, -⟩ := executeInsert_eq_ok hdml
    cases hu.symm.trans hget
    have hget' := hregister t' (by obtain ⟨-, -, -, rfl⟩ := insertRows_eq_ok hrows; rfl)
    refine ⟨t', hget', ?_⟩
    simp only [VersionsKept, hindices] at hkept
    rw [temporalChanges, show ins.table = (DmlStatement.insert ins).table from rfl, hget']
    exact copyInStep_insert h hrows hkept
  | update upd =>
    obtain ⟨u, assigns, mask, hu, hassigns, hmask, -, rfl, -⟩ := executeUpdate_eq_ok hdml
    obtain rfl : u = t := Option.some.inj (hu.symm.trans hget)
    have hget' := hregister (updatedTable u (updateWrites mask assigns)) rfl
    refine ⟨_, hget', ?_⟩
    simp only [VersionsKept, hassigns, hmask] at hkept
    rw [temporalChanges, show upd.table = (DmlStatement.update upd).table from rfl, hget, hget']
    simp only [hmask]
    exact copyInStep_update h (matchMask_length h.rectangular hmask) hkept
  | delete del =>
    obtain ⟨u, t', mask, hu, hmask, hrows, rfl, -⟩ := executeDelete_eq_ok hdml
    cases hu.symm.trans hget
    have hget' := hregister t' (by
      rcases deleteRows_eq_ok hrows with ⟨-, rfl⟩ | ⟨-, -, rfl⟩ <;> rfl)
    refine ⟨t', hget', ?_⟩
    simp only [VersionsKept, hmask] at hkept
    rw [temporalChanges, show del.table = (DmlStatement.delete del).table from rfl, hget]
    simp only [hmask]
    exact copyInStep_delete h (matchMask_length h.rectangular hmask) hrows hkept

namespace QueryEngine

variable {H : Host} {e e' : QueryEngine} {name : String} {p : String × DmlStatement}
  {ds : List (String × DmlStatement)}

/-- A statement with its text; `none` if the process ends in it. -/
def dmlStep (H : Host) (e : QueryEngine) (p : String × DmlStatement) : Option QueryEngine :=
  (executeDmlStmt H e p.1 none p.2).map Prod.fst

/-- The condition on a statement in the state it is executed in. -/
def StepVersionsKept (H : Host) (e : QueryEngine) (p : String × DmlStatement) : Prop :=
  match e.catalog.get p.2.table with
  | some t => VersionsKept H t p.2
  | none => True

instance (H : Host) (e : QueryEngine) (p : String × DmlStatement) :
    Decidable (StepVersionsKept H e p) := by
  unfold StepVersionsKept
  split <;> infer_instance

/-- A table and its copy, in step. -/
def Versioned (name : String) (e : QueryEngine) : Prop :=
  ∃ t copy, e.catalog.get name = some t ∧ e.temporals name = some copy ∧ CopyInStep t copy

/-- A statement on the table fails and changes nothing, or is carried over to the copy. -/
theorem dmlStep_cases (hcopy : e.temporals p.2.table = some copy) (h : dmlStep H e p = some e') :
    e' = e ∨ ∃ n, executeDml H e.catalog p.2 = .ok (e'.catalog, n) ∧
      e'.temporals p.2.table =
        some (applyChanges H e.tick copy (temporalChanges H e.catalog e'.catalog p.2)).1 ∧
      e'.tick = (applyChanges H e.tick copy (temporalChanges H e.catalog e'.catalog p.2)).2 := by
  unfold dmlStep executeDmlStmt at h
  cases hdml : executeDml H e.catalog p.2 with
  | err err =>
    rw [hdml] at h
    exact .inl (Option.some.inj h).symm
  | panic =>
    rw [hdml] at h
    exact nomatch h
  | ok done =>
    obtain ⟨cat, n⟩ := done
    rw [hdml] at h
    cases h
    refine .inr ⟨n, ?_⟩
    simp [syncTemporal, hcopy, walAppendTxn, walAppendRecord]

theorem versioned_step (htable : p.2.table = name) (he : e.Versioned name)
    (hkept : StepVersionsKept H e p) (h : dmlStep H e p = some e') : e'.Versioned name := by
  subst htable
  obtain ⟨t, copy, hget, hcopy, hstep⟩ := he
  rcases dmlStep_cases hcopy h with rfl | ⟨n, hdml, hcopy', -⟩
  · exact ⟨t, copy, hget, hcopy, hstep⟩
  · rw [StepVersionsKept, hget] at hkept
    obtain ⟨t', hget', hstep'⟩ := copyInStep_dml hget hstep hkept hdml
    exact ⟨t', _, hget', hcopy', hstep'⟩

theorem versioned_run (htable : ∀ p ∈ ds, p.2.table = name) (he : e.Versioned name)
    (hkept : Run.Along (dmlStep H) (StepVersionsKept H) e ds)
    (h : Run.run (dmlStep H) e ds = some e') : e'.Versioned name := by
  induction ds generalizing e with
  | nil =>
    cases h
    exact he
  | cons p ds ih =>
    obtain ⟨u, hu, hrest⟩ := Run.run_cons h
    exact ih (forall_mem_cons.mp htable).2
      (versioned_step (htable p mem_cons_self) he hkept.1 hu) (hkept.2 u hu) hrest

/-- From one engine to another the copy only gets calls, at ticks in between. -/
def CopyRuns (H : Host) (name : String) (e e' : QueryEngine) : Prop :=
  ∀ copy, e.temporals name = some copy → ∃ calls, e'.temporals name = some (copy.run calls) ∧
    e.tick ≤ e'.tick ∧ ∀ c ∈ calls, ∃ k, e.tick ≤ k ∧ k < e'.tick ∧ c.1 = H.now k

theorem copyRuns_step (htable : p.2.table = name) (h : dmlStep H e p = some e') :
    CopyRuns H name e e' := by
  subst htable
  intro copy hcopy
  rcases dmlStep_cases hcopy h with rfl | ⟨n, -, hcopy', htick⟩
  · exact ⟨[], hcopy, Nat.le_refl _, by simp⟩
  · rw [TemporalTable.applyChanges_eq] at hcopy' htick
    refine ⟨_, hcopy', by omega, fun c hc => ?_⟩
    rw [htick]
    exact TemporalTable.mem_timedCalls hc

theorem copyRuns_run (htable : ∀ p ∈ ds, p.2.table = name)
    (h : Run.run (dmlStep H) e ds = some e') : CopyRuns H name e e' := by
  induction ds generalizing e with
  | nil =>
    cases h
    exact fun copy hcopy => ⟨[], hcopy, Nat.le_refl _, by simp⟩
  | cons p ds ih =>
    obtain ⟨u, hu, hrest⟩ := Run.run_cons h
    intro copy hcopy
    obtain ⟨calls, hcalls, hle, hticks⟩ := copyRuns_step (htable p mem_cons_self) hu copy hcopy
    obtain ⟨calls', hcalls', hle', hticks'⟩ :=
      ih (forall_mem_cons.mp htable).2 hrest _ hcalls
    refine ⟨calls ++ calls', ?_, by omega, fun c hc => ?_⟩
    · rw [hcalls', TemporalTable.run, TemporalTable.run, TemporalTable.run, foldl_append]
    · rcases mem_append.mp hc with hc | hc
      · obtain ⟨k, hk, hlt, hnow⟩ := hticks c hc
        exact ⟨k, hk, by omega, hnow⟩
      · obtain ⟨k, hk, hlt, hnow⟩ := hticks' c hc
        exact ⟨k, by omega, hlt, hnow⟩

theorem asOfRows_eq (h : e.temporals name = some copy) (time : UInt64) :
    e.asOfRows (some (name, time)) =
      some (rowsToQueryResult (copy.queryAsOf time) copy.columnNames) := by
  simp [asOfRows, h]

/-- A table created system-versioned starts with an empty copy. -/
theorem versioned_create {sql : String} {txnId : Option UInt64} {ct : CreateTable}
    {result : Except Error QueryResult} (hnew : e.catalog.get (fullName ct.schema ct.name) = none)
    (hname : Scan.temporalTableName H sql = some (some (fullName ct.schema ct.name)))
    (h : executeDdlStmt H e sql txnId (.create ct) (Scan.temporalTableName H sql) =
      some (e', result)) :
    e'.Versioned (fullName ct.schema ct.name) ∧
      e'.temporals (fullName ct.schema ct.name) =
        some (.new (createdTable ct).columnNames (H.now e.tick)) := by
  have hget : (e.catalog.register (createdTable ct)).get (fullName ct.schema ct.name) =
      some (createdTable ct) := Catalog.get_register_self _ _
  have hddl : executeDdl H e.catalog e.indexManager (.create ct) =
      .ok (e.catalog.register (createdTable ct), e.indexManager) := by
    simp [executeDdl, executeCreateTable, hnew]
  rw [executeDdlStmt, hddl, hname] at h
  simp only [registerTemporal, hget] at h
  cases h
  refine ⟨⟨createdTable ct, _, hget, if_pos rfl, ?_⟩, if_pos rfl⟩
  exact
    { rectangular := wellFormed_createdTable.rectangular
      nullFree := Table.nullFree_of_nullBitmaps fun c bm hbm =>
        (mem_replicate.mp (mem_of_getElem? hbm)).2
      names := rfl
      rows := .refl _ }

end QueryEngine

open QueryEngine in
/-- In a run of statements on a table created system-versioned that meet their condition, reading as
of a time between two statements gives the rows that `SELECT *` showed between them. With no
statement after, these are the rows of the table now. -/
theorem asOf_run {H : Host} {K : Kernels} {e₀ e e₁ e₂ : QueryEngine} {sql : String}
    {txnId : Option UInt64} {ct : CreateTable} {result : Except Error QueryResult}
    (hnew : e₀.catalog.get (fullName ct.schema ct.name) = none)
    (hname : Scan.temporalTableName H sql = some (some (fullName ct.schema ct.name)))
    (hcreate : executeDdlStmt H e₀ sql txnId (.create ct) (Scan.temporalTableName H sql) =
      some (e, result))
    {before after : List (String × DmlStatement)}
    (htable : ∀ p ∈ before ++ after, p.2.table = fullName ct.schema ct.name)
    (hkept : Run.Along (dmlStep H) (StepVersionsKept H) e before)
    (hbefore : Run.run (dmlStep H) e before = some e₁)
    (hafter : Run.run (dmlStep H) e₁ after = some e₂) (time : UInt64)
    (hpast : ∀ k, e.tick ≤ k → k < e₁.tick → H.now k ≤ time)
    (hfuture : ∀ k, e₁.tick ≤ k → k < e₂.tick → time < H.now k) (ext : QueryExtensions) :
    ∃ past now, e₂.asOfRows (some (fullName ct.schema ct.name, time)) = some past ∧
      executeSelect H K e₁.catalog (plainSelect [.star] (fullName ct.schema ct.name) none) ext =
        .ok now ∧ past.shownRows.Perm now.shownRows := by
  obtain ⟨hstart, hempty⟩ := versioned_create hnew hname hcreate
  have htable₁ := fun p hp => htable p (mem_append_left after hp)
  have htable₂ := fun p hp => htable p (mem_append_right before hp)
  obtain ⟨t, copy, hget, hcopy, hstep⟩ := versioned_run htable₁ hstart hkept hbefore
  -- up to the time, the copy has had only the calls before it
  obtain ⟨calls, hcalls, -, hticks⟩ := copyRuns_run htable₁ hbefore _ hempty
  cases hcopy.symm.trans hcalls
  have hreadings : ∀ c ∈ calls, c.1 ≤ time := fun c hc => by
    obtain ⟨k, hle, hlt, hnow⟩ := hticks c hc
    rw [hnow]
    exact hpast k hle hlt
  have hupTo :=
    (TemporalTable.upTo_new (createdTable ct).columnNames (H.now e₀.tick) time).run hreadings
  -- and the calls after it do not count
  obtain ⟨calls', hcopy', -, hticks'⟩ := copyRuns_run htable₂ hafter _ hcopy
  have hreadings' : ∀ c ∈ calls', time < c.1 := fun c hc => by
    obtain ⟨k, hle, hlt, hnow⟩ := hticks' c hc
    rw [hnow]
    exact hfuture k hle hlt
  have hasOf := TemporalTable.queryAsOf_run_before
    ((TemporalTable.new (createdTable ct).columnNames (H.now e₀.tick)).run calls) hreadings'
  rw [hupTo.queryAsOf] at hasOf
  refine ⟨_, _, asOfRows_eq hcopy' time, executeSelect_star ext hget hstep.rectangular, ?_⟩
  rw [shownRows_rowsToQueryResult, shownRows_answer_star hstep.nullFree,
    TemporalTable.columnNames_run, hstep.names]
  exact (hasOf.trans hstep.rows).map _

/-! ## Two runs -/

def bigIntColumn (name : String) : ColumnDef where
  name := name
  colType := .bigInt
  notNull := false
  primaryKey := false
  default := none
  identity := false
  references := none

def pairText : String := "CREATE TABLE t (a BIGINT, b BIGINT) WITH (SYSTEM_VERSIONING = ON)"

def pairTable : CreateTable where
  schema := "dbo"
  name := "t"
  columns := [bigIntColumn "a", bigIntColumn "b"]
  ifNotExists := false

/-- The engine in which the table has just been created. -/
def pairEngine : Option QueryEngine :=
  (QueryEngine.executeDdlStmt Host.ascii .new pairText none (.create pairTable)
    (Scan.temporalTableName Host.ascii pairText)).map Prod.fst

def insertPairs : String × DmlStatement :=
  ("INSERT INTO t VALUES (1, 10), (2, 20)",
    .insert { table := "t", columns := none, values := [["1", "10"], ["2", "20"]] })

def setSecond : String × DmlStatement :=
  ("UPDATE t SET b = 30 WHERE a = 1",
    .update { table := "t", assignments := [("b", "30")], whereClause := some "a = 1" })

def setFirst : String × DmlStatement :=
  ("UPDATE t SET a = 3 WHERE b = 10",
    .update { table := "t", assignments := [("a", "3")], whereClause := some "b = 10" })

def deleteSecond : String × DmlStatement :=
  ("DELETE FROM t WHERE a = 2", .delete { table := "t", whereClause := some "a = 2" })

open QueryEngine in
/-- Rows inserted and changed, read after another statement has deleted one. -/
theorem asOf_run_before_delete : ∃ e e₁ e₂ past now, pairEngine = some e ∧
    Run.run (dmlStep Host.ascii) e [insertPairs, setSecond] = some e₁ ∧
    Run.run (dmlStep Host.ascii) e₁ [deleteSecond] = some e₂ ∧
    e₂.asOfRows (some ("t", 3)) = some past ∧
    executeSelect Host.ascii .unsupported e₁.catalog (plainSelect [.star] "t" none)
      { tier := none } = .ok now ∧
    past.shownRows.Perm now.shownRows := by
  obtain ⟨⟨e, r⟩, hcreate⟩ := Option.isSome_iff_exists.mp (show (executeDdlStmt Host.ascii .new
    pairText none (.create pairTable) (Scan.temporalTableName Host.ascii pairText)).isSome = true by
      decide +kernel)
  have hrun : (pairEngine.bind fun e =>
      (Run.run (dmlStep Host.ascii) e [insertPairs, setSecond]).bind fun e₁ =>
        (Run.run (dmlStep Host.ascii) e₁ [deleteSecond]).map fun e₂ => (e.tick, e₁.tick, e₂.tick,
          decide (Run.Along (dmlStep Host.ascii) (StepVersionsKept Host.ascii) e
            [insertPairs, setSecond]))) = some (1, 4, 5, true) := by decide +kernel
  have hengine : pairEngine = some e := by rw [pairEngine, hcreate]; rfl
  rw [hengine, Option.bind_some] at hrun
  obtain ⟨e₁, hbefore, hrun⟩ := Option.bind_eq_some_iff.mp hrun
  obtain ⟨e₂, hafter, hticks⟩ := Option.map_eq_some_iff.mp hrun
  simp only [Prod.mk.injEq, decide_eq_true_eq] at hticks
  obtain ⟨htick, htick₁, htick₂, hkept⟩ := hticks
  obtain ⟨past, now, hpast, hnow, hperm⟩ := asOf_run (K := .unsupported) rfl
    (by decide +kernel) hcreate (by decide) hkept hbefore hafter 3
    (fun k _ hk => (by decide : ∀ k < 4, Host.ascii.now k ≤ 3) k (htick₁ ▸ hk))
    (fun k hk hlt => by
      obtain rfl : k = 4 := by omega
      decide) { tier := none }
  exact ⟨e, e₁, e₂, past, now, hengine, hbefore, hafter, hpast, hnow, hperm⟩

open QueryEngine in
/-- The copy is searched for the new first cell, so it does not follow an UPDATE of this cell. -/
theorem asOf_misses_new_key : ∃ e e' past now, pairEngine = some e ∧
    Run.run (dmlStep Host.ascii) e [insertPairs, setFirst] = some e' ∧
    (∀ k < e'.tick, Host.ascii.now k ≤ 9) ∧
    e'.asOfRows (some ("t", 9)) = some past ∧
    executeSelect Host.ascii .unsupported e'.catalog (plainSelect [.star] "t" none)
      { tier := none } = .ok now ∧
    past.shownRows = [[some 1, some 10], [some 2, some 20]] ∧
    now.shownRows = [[some 3, some 10], [some 2, some 20]] := by
  have hshown : (pairEngine.bind fun e => Run.run (dmlStep Host.ascii) e
      [insertPairs, setFirst]).any (fun e' => e'.tick = 4 ∧
        (e'.asOfRows (some ("t", 9))).map QueryResult.shownRows =
          some [[some 1, some 10], [some 2, some 20]] ∧
        (executeSelect Host.ascii .unsupported e'.catalog (plainSelect [.star] "t" none)
          { tier := none } >>= fun now => .ok now.shownRows) =
          .ok [[some 3, some 10], [some 2, some 20]]) = true := by decide +kernel
  obtain ⟨e', hrun, hshown⟩ := (Option.any_eq_true _ _).mp hshown
  obtain ⟨e, hengine, hrun⟩ := Option.bind_eq_some_iff.mp hrun
  simp only [Option.map_eq_some_iff, Outcome.bind_eq_ok, decide_eq_true_eq] at hshown
  obtain ⟨htick, ⟨past, hpast, hpastRows⟩, now, hnow, hnowRows⟩ := hshown
  exact ⟨e, e', past, now, hengine, hrun,
    fun k hk => (by decide : ∀ k < 4, Host.ascii.now k ≤ 9) k (htick ▸ hk), hpast, hnow, hpastRows,
    Outcome.ok.inj hnowRows⟩

end TensorVault
