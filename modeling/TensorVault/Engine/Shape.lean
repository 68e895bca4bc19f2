import TensorVault.Engine.Statement

/-!
# When statements keep tables in shape

For each kind of statement the exact condition under which `Table.WellFormed` survives it, and so
for every run (`reachable_wellFormed_iff`):

* INSERT writes each column once per row, and the first row is NULL in every column whose bitmap it
  has to create.
* UPDATE to NULL in a column without a bitmap matches the last row.
* DELETE only removes rows while no column has a bitmap or a sidecar.
* MERGE rebuilds its target without bitmap and sidecar vectors, which only fits a table without
  columns.
-/

namespace TensorVault

open Sql Writes List Option

/-! ## INSERT -/

/-- The condition for INSERT, on the table before it, the columns written and the values. -/
def InsertKeepsShape (t : Table) (colIndices : List Nat) (values : List (List String)) : Prop :=
  values = [] ∨ ∀ c < t.columns.length,
    colIndices.count c = 1 ∧
    ((t.sidecar c).isSome → t.isStringColumn c) ∧
    (t.bitmap c = none → (∃ v ∈ at_ c (cellWrites colIndices values), isNullText v) →
      ((at_ c (cellWrites colIndices values)).head?.any isNullText) = true)

instance (t : Table) (colIndices : List Nat) (values : List (List String)) :
    Decidable (InsertKeepsShape t colIndices values) := by
  unfold InsertKeepsShape
  infer_instance

/-- Dropping the values before the first NULL drops nothing exactly when the first is NULL. -/
theorem length_dropWhile_eq_iff {vs : List String} (hany : ∃ v ∈ vs, isNullText v) :
    (vs.dropWhile (!isNullText ·)).length = vs.length ↔ vs.head?.any isNullText = true := by
  cases vs with
  | nil => simp at hany
  | cons v vs =>
    cases hv : isNullText v with
    | true => simp [hv]
    | false =>
      have hle := (dropWhile_suffix (!isNullText ·) (l := vs)).length_le
      simp only [dropWhile_cons, hv, Bool.not_false, if_true, length_cons,
        head?_cons, any_some, Bool.false_eq_true, iff_false]
      omega

section Insert

variable {H : Host} {t : Table} {colIndices : List Nat} {values : List (List String)}

theorem insertKeepsShape_of_wellFormed (ht : t.WellFormed)
    (hrows : ∀ row ∈ values, colIndices.length ≤ row.length)
    (hws : ∀ w ∈ cellWrites colIndices values, w.1 < t.columns.length)
    (h : (insertedTable H t (cellWrites colIndices values) values.length).WellFormed) :
    InsertKeepsShape t colIndices values := by
  by_cases hnil : values = []
  · exact .inl hnil
  have hpos : 0 < values.length := length_pos_iff.mpr hnil
  refine .inr fun c hc => ?_
  have hlen := length_at_cellWrites hrows c
  have hcount : colIndices.count c = 1 := by
    have hcol := insertedTable_columns H t (cellWrites colIndices values) values.length c
    rw [getElem?_eq_getElem hc, map_some] at hcol
    have hcells := h.cells_at hcol
    rw [length_append, length_map, hlen, ht.cells_at (getElem?_eq_getElem hc)] at hcells
    have hmul : values.length * colIndices.count c = values.length * 1 := by
      simp only [insertedTable] at hcells
      omega
    exact Nat.eq_of_mul_eq_mul_left hpos hmul
  rw [hcount, Nat.mul_one] at hlen
  refine ⟨hcount, fun hsc => ?_, fun hbm hany => ?_⟩
  · -- a sidecar that the statement does not extend is too short afterwards
    obtain ⟨sc, hsc⟩ := isSome_iff_exists.mp hsc
    by_contra hstr
    have hnew : newTexts t (cellWrites colIndices values) c = [] := by
      simp [newTexts, hstr]
    have hsc' := insertedTable_stringColumns (H := H) ht.toParallel
      (cellWrites colIndices values) values.length c
    rw [Table.sidecar_eq_some.mp hsc, map_some, if_pos hnew] at hsc'
    have hafter := h.sidecar_at (Table.sidecar_eq_some.mpr hsc')
    have hbefore := ht.sidecar_at hsc
    simp only [insertedTable] at hafter
    omega
  · have hbm' := insertedTable_nullBitmaps (H := H) ht.toParallel hws values.length c
    have hany' : (at_ c (cellWrites colIndices values)).any isNullText = true :=
      any_eq_true.mpr hany
    rw [ht.entry_of_bitmap hc hbm, map_some, bitmapAfter, if_pos hany'] at hbm'
    have hafter := h.bitmap_at (Table.bitmap_eq_some.mpr hbm')
    rw [length_append, length_replicate, length_map] at hafter
    refine (length_dropWhile_eq_iff hany).mp ?_
    simp only [insertedTable] at hafter
    omega

theorem wellFormed_of_insertKeepsShape (ht : t.WellFormed)
    (hrows : ∀ row ∈ values, colIndices.length ≤ row.length)
    (hws : ∀ w ∈ cellWrites colIndices values, w.1 < t.columns.length)
    (hfit : ∀ c < t.columns.length, t.sidecar c = none →
      (newTexts t (cellWrites colIndices values) c).length ≤ t.rowCount + values.length)
    (h : InsertKeepsShape t colIndices values) :
    (insertedTable H t (cellWrites colIndices values) values.length).WellFormed := by
  have hp := ht.toParallel
  rcases h with rfl | h
  · show (insertedTable H t [] 0).WellFormed
    rw [insertedTable_nil]
    exact ht
  · have hlen : ∀ c < t.columns.length,
        (at_ c (cellWrites colIndices values)).length = values.length := by
      intro c hc
      rw [length_at_cellWrites hrows, (h c hc).1, Nat.mul_one]
    refine Table.WellFormed.of_columns (parallel_insertedTable hp hws) ?_ ?_ ?_
    · intro c col hcol
      rw [insertedTable_columns] at hcol
      obtain ⟨old, hold, rfl⟩ := map_eq_some_iff.mp hcol
      rw [length_append, length_map, ht.cells_at hold, hlen c (List.getElem?_eq_some_iff.mp hold).1]
      rfl
    · intro c bm hbm
      rw [Table.bitmap_eq_some, insertedTable_nullBitmaps hp hws] at hbm
      obtain ⟨entry, hentry, hafter⟩ := map_eq_some_iff.mp hbm
      have hc := hp.lt_of_nulls hentry
      cases entry with
      | some b =>
        cases hafter
        rw [length_append, length_map, hlen c hc, ht.bitmap_at (Table.bitmap_eq_some.mpr hentry)]
        rfl
      | none =>
        rw [bitmapAfter] at hafter
        split at hafter
        · next hany =>
          cases hafter
          have hany' := any_eq_true.mp hany
          have hhead := (h c hc).2.2 (Table.bitmap_of_entry hentry) hany'
          rw [length_append, length_replicate, length_map,
            (length_dropWhile_eq_iff hany').mpr hhead, hlen c hc]
          rfl
        · cases hafter
    · intro c sc hsc
      rw [Table.sidecar_eq_some, insertedTable_stringColumns hp] at hsc
      obtain ⟨entry, hentry, hafter⟩ := map_eq_some_iff.mp hsc
      have hc := hp.lt_of_strings hentry
      have hnewlen : t.isStringColumn c = true →
          (newTexts t (cellWrites colIndices values) c).length = values.length := by
        intro hstr
        rw [newTexts, if_pos hstr, length_map, hlen c hc]
      cases entry with
      | none =>
        split at hafter
        · cases hafter
        · cases hafter
          have := hfit c hc (Table.sidecar_of_entry hentry)
          rw [length_append, length_replicate]
          simp only [insertedTable]
          omega
      | some old =>
        have hold := ht.sidecar_at (Table.sidecar_eq_some.mpr hentry)
        have hstr : t.isStringColumn c = true :=
          (h c hc).2.1 (by rw [Table.sidecar_eq_some.mpr hentry]; rfl)
        have hnew := hnewlen hstr
        split at hafter
        · next hnil =>
          cases hafter
          rw [hnil] at hnew
          simp only [insertedTable, length_nil] at hnew ⊢
          omega
        · cases hafter
          rw [length_append, hold, hnew]
          rfl

/-- **INSERT.** A successful INSERT into a well-formed table leaves a well-formed table exactly
under `InsertKeepsShape`. -/
theorem wellFormed_insertRows_iff {t' : Table} (ht : t.WellFormed)
    (h : insertRows H t colIndices values = .ok t') :
    t'.WellFormed ↔ InsertKeepsShape t colIndices values := by
  obtain ⟨hrows, hcells, hfit, rfl⟩ := insertRows_eq_ok h
  have hws := fun w hw => (hcells w hw).1
  exact ⟨insertKeepsShape_of_wellFormed ht hrows hws,
    wellFormed_of_insertKeepsShape ht hrows hws hfit⟩

end Insert

/-! ## UPDATE -/

/-- The condition for UPDATE, on the table before it, the assignments and the row mask. -/
def UpdateKeepsShape (t : Table) (assigns : List Assign) (mask : List Bool) : Prop :=
  ∀ c < t.columns.length, (t.bitmap c = none ∧ ∃ a ∈ assigns, a.colIdx = c ∧ a.isNull) →
    (∀ b ∈ mask, b = false) ∨ mask.getLast? = some true

instance (t : Table) (assigns : List Assign) (mask : List Bool) :
    Decidable (UpdateKeepsShape t assigns mask) := by
  unfold UpdateKeepsShape
  infer_instance

section Update

variable {t : Table} {assigns : List Assign} {mask : List Bool}

theorem updateKeepsShape_of_wellFormed (ht : t.WellFormed) (hmask : mask.length = t.rowCount)
    (h : (updatedTable t (updateWrites mask assigns)).WellFormed) :
    UpdateKeepsShape t assigns mask := by
  rintro c hc ⟨hbm, a, ha, hac, hnull⟩
  by_cases hnone : ∀ b ∈ mask, b = false
  · exact .inl hnone
  refine .inr ?_
  -- some row matches, so the NULL reaches the column and creates its bitmap
  obtain ⟨r, hr⟩ : ∃ r, r ∈ matchedRows mask := by
    push Not at hnone
    obtain ⟨b, hb, hne⟩ := hnone
    obtain ⟨r, hr⟩ := mem_iff_getElem?.mp hb
    exact ⟨r, mem_matchedRows.mpr (by rw [hr]; simpa using hne)⟩
  have hto : a ∈ assignsTo c assigns := mem_filter.mpr ⟨ha, by simp [hac]⟩
  obtain ⟨b, hb, _, w, hw, hend⟩ := nullFlags_none
    ⟨(r, a), mem_at_updateWrites.mpr ⟨hr, hto⟩, hnull⟩
  have hbm' := updatedTable_nullBitmaps ht.toParallel (updateWrites mask assigns) c
  rw [ht.entry_of_bitmap hc hbm, map_some, hb] at hbm'
  have hafter := h.bitmap_at (Table.bitmap_eq_some.mpr hbm')
  have hrow := mem_matchedRows.mp (mem_at_updateWrites.mp hw).1
  rw [getLast?_eq_getElem?, hmask, ← hrow]
  congr 1
  simp only [updatedTable] at hafter
  omega

theorem wellFormed_of_updateKeepsShape (ht : t.WellFormed) (hmask : mask.length = t.rowCount)
    (h : UpdateKeepsShape t assigns mask) :
    (updatedTable t (updateWrites mask assigns)).WellFormed := by
  have hrow : ∀ c, ∀ w ∈ at_ c (updateWrites mask assigns), w.1 < t.rowCount := by
    intro c w hw
    have := mem_matchedRows.mp (mem_at_updateWrites.mp hw).1
    rw [← hmask]
    exact (List.getElem?_eq_some_iff.mp this).1
  refine Table.WellFormed.of_columns (parallel_updatedTable ht.toParallel) ?_ ?_ ?_
  · intro c col hcol
    rw [updatedTable_columns] at hcol
    obtain ⟨old, hold, rfl⟩ := map_eq_some_iff.mp hcol
    rw [length_applyWrites]
    exact ht.cells_at hold
  · intro c bm hbm
    rw [Table.bitmap_eq_some, updatedTable_nullBitmaps ht.toParallel] at hbm
    obtain ⟨entry, hentry, hafter⟩ := map_eq_some_iff.mp hbm
    cases entry with
    | some b =>
      obtain ⟨b', hb', hlen⟩ := nullFlags_some
        (ht.bitmap_at (Table.bitmap_eq_some.mpr hentry)) (hrow c)
      cases hb'.symm.trans hafter
      exact hlen
    | none =>
      by_cases hnull : ∃ w ∈ at_ c (updateWrites mask assigns), w.2.isNull = true
      · obtain ⟨b, hb, hcover, v, hv, hend⟩ := nullFlags_none hnull
        cases hb.symm.trans hafter
        obtain ⟨w, hw, hwnull⟩ := hnull
        obtain ⟨hwrow, hwto⟩ := mem_at_updateWrites.mp hw
        obtain ⟨hwmem, hwc⟩ := mem_filter.mp hwto
        rcases h c (ht.lt_of_nulls hentry)
          ⟨Table.bitmap_of_entry hentry, w.2, hwmem, by simpa using hwc, hwnull⟩ with hnone | hlast
        · have htrue := hnone true (mem_of_getElem? (mem_matchedRows.mp hwrow))
          cases htrue
        · -- the last row matches too, and its NULL makes the bitmap reach the end
          have hpos : 0 < mask.length := by
            rw [length_pos_iff]
            rintro rfl
            cases hlast
          have hmem : (t.rowCount - 1, w.2) ∈ at_ c (updateWrites mask assigns) := by
            refine mem_at_updateWrites.mpr ⟨mem_matchedRows.mpr ?_, hwto⟩
            rw [getLast?_eq_getElem?, hmask] at hlast
            exact hlast
          have hge := hcover _ hmem hwnull
          have hle := hrow c v hv
          simp only [updatedTable]
          simp only at hge
          omega
      · rw [nullFlags_none_of_no_null fun w hw => by
          rw [← Bool.not_eq_true]
          exact fun hwnull => hnull ⟨w, hw, hwnull⟩] at hafter
        cases hafter
  · intro c sc hsc
    exact ht.sidecar_at (t := t) hsc

end Update

/-! ## DELETE -/

/-- The condition for DELETE, on the table before it and the row mask. -/
def DeleteKeepsShape (t : Table) (mask : List Bool) : Prop :=
  mask.count true = 0 ∨ ∀ c < t.columns.length, t.bitmap c = none ∧ t.sidecar c = none

instance (t : Table) (mask : List Bool) : Decidable (DeleteKeepsShape t mask) := by
  unfold DeleteKeepsShape
  infer_instance

variable {t : Table} {mask : List Bool} {qr : QueryResult} {H : Host}

theorem wellFormed_deletedTable (ht : t.WellFormed) (hmask : mask.length = t.rowCount)
    (h : ∀ c < t.columns.length, t.bitmap c = none ∧ t.sidecar c = none) :
    (deletedTable t mask).WellFormed := by
  refine Table.WellFormed.of_columns (parallel_deletedTable ht.toParallel) ?_ ?_ ?_
  · intro c col hcol
    simp only [deletedTable, getElem?_map] at hcol
    obtain ⟨old, hold, rfl⟩ := map_eq_some_iff.mp hcol
    rw [length_keepRows (by rw [ht.cells_at hold, hmask]), hmask]
    rfl
  · intro c bm hbm
    have hbm' : t.bitmap c = some bm := hbm
    rw [(h c (ht.lt_of_nulls (Table.bitmap_eq_some.mp hbm'))).1] at hbm'
    cases hbm'
  · intro c sc hsc
    have hsc' : t.sidecar c = some sc := hsc
    rw [(h c (ht.lt_of_strings (Table.sidecar_eq_some.mp hsc'))).2] at hsc'
    cases hsc'

/-- **DELETE.** A successful DELETE on a well-formed table leaves a well-formed table exactly
under `DeleteKeepsShape`. -/
theorem wellFormed_deleteRows_iff {t' : Table} (ht : t.WellFormed)
    (hmask : mask.length = t.rowCount) (h : deleteRows t mask = .ok t') :
    t'.WellFormed ↔ DeleteKeepsShape t mask := by
  rcases deleteRows_eq_ok h with ⟨hzero, rfl⟩ | ⟨hpos, hle, rfl⟩
  · exact ⟨fun _ => .inl hzero, fun _ => ht⟩
  · constructor
    · intro hwf
      refine .inr fun c _ => ⟨?_, ?_⟩
      · -- an untouched bitmap is longer than the compacted columns
        cases hbm : t.bitmap c with
        | none => rfl
        | some bm =>
          have hbefore := ht.bitmap_at hbm
          have hbm' : (deletedTable t mask).bitmap c = some bm := hbm
          have hafter := hwf.bitmap_at hbm'
          simp only [deletedTable] at hafter
          omega
      · cases hsc : t.sidecar c with
        | none => rfl
        | some sc =>
          have hbefore := ht.sidecar_at hsc
          have hsc' : (deletedTable t mask).sidecar c = some sc := hsc
          have hafter := hwf.sidecar_at hsc'
          simp only [deletedTable] at hafter
          omega
    · rintro (hzero | hnone)
      · omega
      · exact wellFormed_deletedTable ht hmask hnone

/-! ## MERGE -/

/-- **MERGE.** The rebuilt target has no bitmap and no sidecar vector, which is in shape exactly
when there is no column. -/
theorem wellFormed_queryResultToTable_iff {name : String} :
    (queryResultToTable name qr).WellFormed ↔ qr.columns = [] := by
  constructor
  · intro h
    have := h.strings
    simp only [queryResultToTable, length_nil, length_map] at this
    exact length_eq_zero_iff.mp this.symm
  · intro h
    exact
      { names := by simp [queryResultToTable]
        strings := by simp [queryResultToTable, h]
        nulls := by simp [queryResultToTable, h]
        cells := by simp [queryResultToTable, h]
        bitmaps := by simp [queryResultToTable]
        sidecars := by simp [queryResultToTable] }

/-- A successful MERGE rebuilds as many columns as its target had. -/
theorem executeMerge_columns_eq_nil_iff {qr' : QueryResult} {m : Merge}
    {n : Nat} (ht : t.Parallel) (hqr : tableToQueryResult t = some qr)
    (h : executeMerge H qr m = some (qr', n)) : qr'.columns = [] ↔ t.columns = [] := by
  unfold tableToQueryResult at hqr
  split at hqr
  · cases hqr
    have hlen := length_executeMerge_columns h
    rw [length_map, length_zip, ht.names, Nat.min_self] at hlen
    rw [← length_eq_zero_iff, ← length_eq_zero_iff, hlen]
  · cases hqr

/-! ## Statements and runs -/

/-- The condition under which a statement keeps the tables in shape. -/
def KeepsShape (H : Host) (s : Store) : Statement → Prop
  | .ddl _ => True
  | .dml (.insert ins) => ∀ t colIndices, s.catalog.get ins.table = some t →
      insertColumnIndices t ins.columns = .ok colIndices →
      InsertKeepsShape t colIndices ins.values
  | .dml (.update upd) => ∀ t assigns mask, s.catalog.get upd.table = some t →
      updateAssigns H t upd.assignments = .ok assigns →
      matchMask H t upd.whereClause = .ok mask → UpdateKeepsShape t assigns mask
  | .dml (.delete del) => ∀ t mask, s.catalog.get del.table = some t →
      matchMask H t del.whereClause = .ok mask → DeleteKeepsShape t mask
  | .merge m => ∀ t, s.catalog.get m.target = some t → t.columns = []

theorem wellFormed_executeDdl {cat cat' : Catalog} {im im' : IndexManager} {d : DdlStatement}
    (hcat : cat.WellFormed) (h : executeDdl H cat im d = .ok (cat', im')) : cat'.WellFormed := by
  have hput : ∀ {t : Table}, t.WellFormed → (cat.register t).WellFormed :=
    (Catalog.wellFormed_register_iff hcat).mpr
  cases executeDdl_eq_ok h with
  | existing | missing | schema | createIndex | dropIndex => exact hcat
  | created _ => exact hput wellFormed_createdTable
  | dropped => exact Catalog.wellFormed_drop hcat
  | added ht _ => exact hput (wellFormed_addColumn (hcat _ _ ht))
  | removed ht => exact hput (wellFormed_removeColumn (hcat _ _ ht))
  | retyped ht _ _ => exact hput { hcat _ _ ht with }

/-- **One statement.** A successful statement on well-formed tables leaves well-formed tables
exactly under `KeepsShape`. -/
theorem wellFormed_step_iff {s s' : Store} {stmt : Statement}
    (hs : s.catalog.WellFormed) (h : s.step H stmt = some s') :
    s'.catalog.WellFormed ↔ KeepsShape H s stmt := by
  rcases Store.step_eq_some h with ⟨d, rfl, hd⟩ | ⟨d, n, rfl, hd, -⟩ | ⟨m, n, rfl, hm, -⟩
  · exact ⟨fun _ => trivial, fun _ => wellFormed_executeDdl hs hd⟩
  · cases d with
    | insert ins =>
      obtain ⟨t, t', colIndices, ht, hidx, hrows, hcat, -⟩ := executeInsert_eq_ok hd
      rw [hcat, Catalog.wellFormed_register_iff hs, wellFormed_insertRows_iff (hs _ t ht) hrows]
      refine ⟨fun hk u js hu hjs => ?_, fun hk => hk t colIndices ht hidx⟩
      cases ht.symm.trans hu
      cases hidx.symm.trans hjs
      exact hk
    | update upd =>
      obtain ⟨t, assigns, mask, ht, hassigns, hmask, -, hcat, -⟩ := executeUpdate_eq_ok hd
      have htwf := hs _ t ht
      have hlen := matchMask_length htwf.rectangular hmask
      rw [hcat, Catalog.wellFormed_register_iff hs]
      refine ⟨fun hwf u as msk hu has hmsk => ?_, fun hk =>
        wellFormed_of_updateKeepsShape htwf hlen (hk t assigns mask ht hassigns hmask)⟩
      cases ht.symm.trans hu
      cases hassigns.symm.trans has
      cases hmask.symm.trans hmsk
      exact updateKeepsShape_of_wellFormed htwf hlen hwf
    | delete del =>
      obtain ⟨t, t', mask, ht, hmask, hrows, hcat, -⟩ := executeDelete_eq_ok hd
      have htwf := hs _ t ht
      rw [hcat, Catalog.wellFormed_register_iff hs,
        wellFormed_deleteRows_iff htwf (matchMask_length htwf.rectangular hmask) hrows]
      refine ⟨fun hk u msk hu hmsk => ?_, fun hk => hk t mask ht hmask⟩
      cases ht.symm.trans hu
      cases hmask.symm.trans hmsk
      exact hk
  · obtain ⟨t, qr, qr', ht, hqr, hmerge, hcat⟩ := executeMergeStmt_eq_ok hm
    rw [hcat, Catalog.wellFormed_register_iff hs, wellFormed_queryResultToTable_iff,
      executeMerge_columns_eq_nil_iff (hs _ t ht).toParallel hqr hmerge]
    simp only [KeepsShape, ht, Option.some.injEq, forall_eq']

/-- **Whole runs.** Of a run of successful statements from the empty engine, every state has
well-formed tables exactly when each statement meets `KeepsShape` in the state it runs in. -/
theorem reachable_wellFormed_iff (H : Host) (stmts : List Statement) (final : Store)
    (hrun : Run.run (Store.step H) Store.new stmts = some final) :
    (∀ pre, pre <+: stmts → ∀ s, Run.run (Store.step H) Store.new pre = some s →
      s.catalog.WellFormed) ↔
    Run.Along (Store.step H) (KeepsShape H) Store.new stmts :=
  Run.invariant_iff_along (Q := fun s => s.catalog.WellFormed)
    (fun _ _ _ hs hstep => wellFormed_step_iff hs hstep) Store.wellFormed_new hrun

/-! ## A run that loses the shape -/

/-- A table with two integer columns, and a row that only lists the first. -/
def shortRow : List Statement :=
  [.ddl (.create
      { schema := "dbo", name := "t", ifNotExists := false
        columns := [
          { name := "a", colType := .int, notNull := false, primaryKey := false, default := none,
            identity := false, references := none },
          { name := "b", colType := .int, notNull := false, primaryKey := false, default := none,
            identity := false, references := none }] }),
   .dml (.insert { table := "t", columns := some ["a"], values := [["1"]] })]

/-- The exact rule applies to the run, which gets through. -/
theorem shortRow_wellFormed_iff :
    ∃ final, Run.run (Store.step Host.ascii) Store.new shortRow = some final ∧
      ((∀ pre, pre <+: shortRow → ∀ s, Run.run (Store.step Host.ascii) Store.new pre = some s →
        s.catalog.WellFormed) ↔
      Run.Along (Store.step Host.ascii) (KeepsShape Host.ascii) Store.new shortRow) := by
  obtain ⟨final, hfinal⟩ : ∃ final,
      Run.run (Store.step Host.ascii) Store.new shortRow = some final :=
    isSome_iff_exists.mp (by decide +kernel)
  exact ⟨final, hfinal, reachable_wellFormed_iff Host.ascii shortRow final hfinal⟩

/-- An INSERT with a column list counts a row that the unlisted column does not have. -/
theorem shortRow_breaks_shape :
    ["CREATE TABLE t (a INT, b INT)", "INSERT INTO t (a) VALUES (1)"].mapM
      (Statement.parse Host.ascii) = some shortRow ∧
    ∃ s, Run.run (Store.step Host.ascii) Store.new shortRow = some s ∧
      ¬ s.catalog.WellFormed := by
  refine ⟨by decide +kernel, ?_⟩
  obtain ⟨s, hs⟩ : ∃ s, Run.run (Store.step Host.ascii) Store.new shortRow = some s :=
    isSome_iff_exists.mp (by decide +kernel)
  refine ⟨s, hs, fun hwf => ?_⟩
  have hcells : ((Run.run (Store.step Host.ascii) Store.new shortRow).bind fun s =>
      s.catalog.get "t").map (fun t => (t.columns, t.rowCount)) = some ([[1], []], 1) := by
    decide +kernel
  rw [hs, bind_some] at hcells
  obtain ⟨t, ht, htc⟩ := map_eq_some_iff.mp hcells
  obtain ⟨hcols, hcount⟩ := Prod.mk.inj htc
  have hlen := (hwf "t" t ht).cells [] (by rw [hcols]; decide)
  rw [hcount] at hlen
  cases hlen

end TensorVault
