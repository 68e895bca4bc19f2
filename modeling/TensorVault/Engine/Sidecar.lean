import TensorVault.Engine.Literals

/-!
# String sidecars

`TextCoherent` is what a string sidecar is for: in every row that is not NULL it has the literal
last written to the cell, and the cell is its hash. `KeepsText` is the condition under which this
survives (`reachable_coherent`):

* INSERT lists each string column with a sidecar exactly once, writes NULL or literals without a
  doubled quote to it, meets a bitmap that is in step, and creates a sidecar only over rows that
  were written `''`.
* UPDATE of a column with a sidecar writes NULL or the text the sidecar already has.
* DELETE removes no row while a string column has a sidecar.
* A column that turns into a string column brings no sidecar from before, or one that still fits.
-/

namespace TensorVault

variable {t : Table} {lits : Lits} {H : Host} {c : Nat} {ws : List (Nat × String)}

open Text Sql Writes List Option

/-! ## Coherence -/

/-- The sidecars of the string columns say what was last written, and the cells hash it. -/
def TextCoherent (H : Host) (t : Table) (lits : Lits) : Prop :=
  ∀ c sc, t.isStringColumn c = true → t.sidecar c = some sc →
    ∀ r < t.rowCount, t.isNull c r = false →
      t.cell c r = some (H.xxh3 (sc.getD r "")) ∧ litAt lits c r = some (sc.getD r "")

/-- The part of coherence about one sidecar, with the lengths that later statements rely on. -/
structure TextInv (t : Table) (lits : Lits) (c : Nat) (sc : List String) : Prop where
  sidecar_length : sc.length = t.rowCount
  lits_length : (litsOf lits c).length = t.rowCount
  texts : ∀ r < t.rowCount, t.isNull c r = false → litAt lits c r = some (sc.getD r "")

/-- The invariant of a table with a schema. -/
structure TableInv (H : Host) (t : Table) (lits : Lits) : Prop where
  follows : Follows H t lits
  texts : ∀ c sc, t.isStringColumn c = true → t.sidecar c = some sc → TextInv t lits c sc

theorem isSome_schema_of_isStringColumn (h : t.isStringColumn c = true) :
    t.schema.isSome = true := by
  unfold Table.isStringColumn at h
  split at h
  · next hs => rw [hs]; rfl
  · cases h

variable {r : Nat} {t' : Table} {n : Nat} {mask : List Bool} {idx : Nat}

theorem litAt_eq_some {s : String} :
    litAt lits c r = some s ↔ ∃ ls, lits[c]? = some ls ∧ ls[r]? = some (some s) := by
  unfold litAt litsOf
  rw [join_eq_some_iff]
  cases lits[c]? with
  | none | some => simp

theorem litsOf_eq {ls : List (Option String)} (h : lits[c]? = some ls) : litsOf lits c = ls := by
  unfold litsOf
  rw [h]
  rfl

/-- A column that is another column of another table, with the literals written to it. -/
theorem TextInv.of_column {lits' : Lits} {k : Nat} {sc : List String}
    (h : TextInv t lits k sc) (hrows : t'.rowCount = t.rowCount)
    (hnull : ∀ r, t'.isNull c r = t.isNull k r) (hlits : lits'[c]? = lits[k]?) :
    TextInv t' lits' c sc := by
  obtain ⟨hsc, hlen, htexts⟩ := h
  unfold litAt litsOf at *
  rw [← hrows] at hsc
  refine ⟨hsc, ?_, fun r hr hn => ?_⟩
  · rw [litsOf, hlits, hlen, hrows]
  · rw [litAt, litsOf, hlits]
    exact htexts r (hrows ▸ hr) (hnull r ▸ hn)

theorem TableInv.coherent (h : TableInv H t lits) : TextCoherent H t lits := by
  intro c sc hstr hsc r hr hnull
  have hlit := (h.texts c sc hstr hsc).texts r hr hnull
  refine ⟨?_, hlit⟩
  obtain ⟨ls, hls, hrow⟩ := litAt_eq_some.mp hlit
  have hc : c < t.columns.length := by
    rw [← h.follows.length]
    exact (List.getElem?_eq_some_iff.mp hls).1
  unfold Table.cell
  rw [getElem?_eq_getElem hc, bind_some]
  exact (h.follows.cells c _ ls (getElem?_eq_getElem hc) hls).hash r _ hrow

/-! ## INSERT -/

/-- A column whose rows so far, NULL rows apart, were written `''`. -/
def BlankColumn (t : Table) (lits : Lits) (c : Nat) : Prop :=
  (litsOf lits c).length = t.rowCount ∧
    ∀ r < t.rowCount, t.isNull c r = false → litAt lits c r = some ""

/-- The condition for INSERT, on the table before it, the columns written and the values. -/
def InsertKeepsText (t : Table) (lits : Lits) (colIndices : List Nat)
    (values : List (List String)) : Prop :=
  values = [] ∨ ∀ c < t.columns.length, t.isStringColumn c = true →
    (t.sidecar c).isSome ∨ c ∈ colIndices →
      colIndices.count c = 1 ∧
      (∀ v ∈ at_ c (cellWrites colIndices values), isNullText v = false → isPlainLiteral v) ∧
      (∀ bm, t.bitmap c = some bm → bm.length = t.rowCount) ∧
      (t.bitmap c = none → (∃ v ∈ at_ c (cellWrites colIndices values), isNullText v) →
        ((at_ c (cellWrites colIndices values)).head?.any isNullText) = true) ∧
      (t.sidecar c = none → BlankColumn t lits c)

theorem dropWhile_of_head_null {vs : List String} (h : vs.head?.any isNullText = true) :
    vs.dropWhile (!isNullText ·) = vs := by
  cases vs with
  | nil => rfl
  | cons v vs =>
    have hv : isNullText v = true := by simpa using h
    rw [dropWhile_cons_of_neg (by simp [hv])]

/-- Where the bitmap is in step, INSERT flags the new rows as their values say. -/
theorem isNull_insertedTable (ht : t.Parallel) (hws : ∀ w ∈ ws, w.1 < t.columns.length)
    (hc : c < t.columns.length) (hlen : ∀ bm, t.bitmap c = some bm → bm.length = t.rowCount)
    (hhead : t.bitmap c = none → (∃ v ∈ at_ c ws, isNullText v) →
      (at_ c ws).head?.any isNullText = true) :
    (insertedTable H t ws n).isNull c r =
      if r < t.rowCount then t.isNull c r
      else ((at_ c ws).map isNullText).getD (r - t.rowCount) false := by
  have hlt : c < t.nullBitmaps.length := by rw [ht.nulls]; exact hc
  have hafter : (insertedTable H t ws n).bitmap c =
      bitmapAfter t.rowCount (at_ c ws) (t.bitmap c) := by
    unfold Table.bitmap
    rw [insertedTable_nullBitmaps ht hws, getElem?_eq_getElem hlt]
    rfl
  have happend : ∀ b : List Bool, b.length = t.rowCount →
      nullFlagAt (some (b ++ (at_ c ws).map isNullText)) r =
        if r < t.rowCount then nullFlagAt (some b) r
        else ((at_ c ws).map isNullText).getD (r - t.rowCount) false := by
    intro b hb
    simp only [nullFlagAt, getD_eq_getElem?_getD, getElem?_append, hb]
    split <;> rfl
  unfold Table.isNull
  rw [hafter]
  cases hbm : t.bitmap c with
  | some b => exact happend b (hlen b hbm)
  | none =>
    rw [bitmapAfter]
    split
    · next hany =>
      rw [dropWhile_of_head_null (hhead hbm (any_eq_true.mp hany)), happend _ length_replicate]
      refine if_congr Iff.rfl ?_ rfl
      simp only [nullFlagAt, getD_eq_getElem?_getD, getElem?_replicate]
      split <;> rfl
    · next hany =>
      have hflags : ((at_ c ws).map isNullText).getD (r - t.rowCount) false = false := by
        rw [getD_eq_getElem?_getD, getElem?_map]
        cases hv : (at_ c ws)[r - t.rowCount]? with
        | none => rfl
        | some v =>
          have hnot : ¬ isNullText v = true := fun hnull =>
            hany (any_eq_true.mpr ⟨v, mem_of_getElem? hv, hnull⟩)
          simpa using hnot
      rw [hflags]
      simp [nullFlagAt]

/-- The rows a sidecar has after INSERT, old and new. -/
theorem textInv_inserted (h : Follows H t lits) (hws : ∀ w ∈ ws, w.1 < t.columns.length)
    (hc : c < t.columns.length) (hcount : (at_ c ws).length = n)
    (hplain : ∀ v ∈ at_ c ws, isNullText v = false → isPlainLiteral v)
    (hlen : ∀ bm, t.bitmap c = some bm → bm.length = t.rowCount)
    (hhead : t.bitmap c = none → (∃ v ∈ at_ c ws, isNullText v) →
      (at_ c ws).head?.any isNullText = true) {old : List String} (hold : TextInv t lits c old) :
    TextInv (insertedTable H t ws n) (insertLits lits ws) c
      (old ++ (at_ c ws).map sidecarText) where
  sidecar_length := by
    rw [length_append, length_map, hold.sidecar_length, hcount]
    rfl
  lits_length := by
    have hlits : c < lits.length := by rw [h.length]; exact hc
    have hentry := getElem?_eq_getElem hlits
    have hlen := hold.lits_length
    rw [litsOf_eq hentry] at hlen
    rw [litsOf_eq (by rw [insertLits_getElem?, hentry]; rfl), length_append, length_map,
      hlen, hcount]
    rfl
  texts := by
    intro r hr hnull
    have hr' : r < t.rowCount + n := hr
    have hlits : c < lits.length := by rw [h.length]; exact hc
    have hentry := getElem?_eq_getElem hlits
    have hlen' := hold.lits_length
    rw [litsOf_eq hentry] at hlen'
    rw [isNull_insertedTable h.parallel hws hc hlen hhead] at hnull
    refine litAt_eq_some.mpr ⟨_, by rw [insertLits_getElem?, hentry]; rfl, ?_⟩
    rw [getElem?_append, hlen', getD_eq_getElem?_getD, getElem?_append, hold.sidecar_length]
    by_cases hrow : r < t.rowCount
    · rw [if_pos hrow] at hnull
      rw [if_pos hrow, if_pos hrow, ← getD_eq_getElem?_getD]
      obtain ⟨ls, hls, hlit⟩ := litAt_eq_some.mp (hold.texts r hrow hnull)
      cases hentry.symm.trans hls
      exact hlit
    · rw [if_neg hrow] at hnull
      rw [if_neg hrow, if_neg hrow, getElem?_map, getElem?_map]
      have hj : r - t.rowCount < (at_ c ws).length := by omega
      rw [getElem?_eq_getElem hj]
      have hnotnull : isNullText (at_ c ws)[r - t.rowCount] = false := by
        rw [getD_eq_getElem?_getD, getElem?_map, getElem?_eq_getElem hj] at hnull
        exact hnull
      have hlit := literalOf_of_isPlainLiteral
        (hplain _ (getElem_mem hj) hnotnull)
      simp only [map_some, getD_some, hlit]

theorem newTexts_of_isStringColumn (h : t.isStringColumn c = true) :
    newTexts t ws c = (at_ c ws).map sidecarText := by
  rw [newTexts, if_pos h]

/-- A sidecar that INSERT creates starts with an empty text for each old row. -/
theorem textInv_blank (h : BlankColumn t lits c) :
    TextInv t lits c (List.replicate t.rowCount "") where
  sidecar_length := length_replicate
  lits_length := h.1
  texts := by
    intro r hr hnull
    rw [getD_eq_getElem?_getD, getElem?_replicate, if_pos hr]
    exact h.2 r hr hnull

theorem TableInv.inserted {colIndices : List Nat} {values : List (List String)}
    (h : TableInv H t lits) (hrows : insertRows H t colIndices values = .ok t')
    (hk : InsertKeepsText t lits colIndices values) :
    TableInv H t' (insertLits lits (cellWrites colIndices values)) := by
  obtain ⟨hlong, hcells, -, rfl⟩ := insertRows_eq_ok hrows
  have hws := fun w hw => (hcells w hw).1
  rcases hk with rfl | hk
  · show TableInv H (insertedTable H t [] 0) lits
    rw [insertedTable_nil]
    exact h
  refine ⟨h.follows.inserted hws, fun c sc hstr hsc => ?_⟩
  have hstr' : t.isStringColumn c = true := hstr
  rw [Table.sidecar_eq_some, insertedTable_stringColumns h.follows.parallel] at hsc
  obtain ⟨entry, hentry, hafter⟩ := map_eq_some_iff.mp hsc
  have hc := h.follows.parallel.lt_of_strings hentry
  have hside := Table.sidecar_of_entry hentry
  -- the column has a sidecar already, or it is written and gets one
  have htouched : (t.sidecar c).isSome ∨ c ∈ colIndices := by
    cases entry with
    | some old => exact .inl (by rw [hside]; rfl)
    | none =>
      refine .inr ?_
      by_contra hnot
      have hnil : at_ c (cellWrites colIndices values) = [] := by
        rw [← length_eq_zero_iff, length_at_cellWrites hlong,
          count_eq_zero_of_not_mem hnot, Nat.mul_zero]
      rw [newTexts_of_isStringColumn hstr', hnil] at hafter
      cases hafter
  obtain ⟨hcount, hplain, hlen, hhead, hblank⟩ := hk c hc hstr' htouched
  have hn : (at_ c (cellWrites colIndices values)).length = values.length := by
    rw [length_at_cellWrites hlong, hcount, Nat.mul_one]
  have hold : ∃ old, TextInv t lits c old ∧
      sc = old ++ (at_ c (cellWrites colIndices values)).map sidecarText := by
    rw [newTexts_of_isStringColumn hstr'] at hafter
    cases entry with
    | some old =>
      refine ⟨old, h.texts c old hstr' hside, ?_⟩
      split at hafter
      · next hnil =>
        cases hafter
        rw [hnil, append_nil]
      · cases hafter
        rfl
    | none =>
      refine ⟨List.replicate t.rowCount "", textInv_blank (hblank hside), ?_⟩
      split at hafter
      · cases hafter
      · cases hafter
        rw [length_map, hn, Nat.add_sub_cancel]
  obtain ⟨old, hinv, rfl⟩ := hold
  exact textInv_inserted h.follows hws hc hn hplain hlen hhead hinv

/-! ## UPDATE and DELETE -/

/-- The condition for UPDATE: the last assignment to a string column with a sidecar writes NULL,
or in each matched row the text that is there. -/
def UpdateKeepsText (t : Table) (mask : List Bool) (pairs : List (Nat × String)) : Prop :=
  ∀ c sc, t.isStringColumn c = true → t.sidecar c = some sc →
    ∀ p, (pairsTo c pairs).getLast? = some p →
      isNullText p.2 = true ∨ ∀ r ∈ matchedRows mask, literalOf p.2 = some (sc.getD r "")

theorem TableInv.updated (h : TableInv H t lits) {pairs : List (Nat × String)}
    (hk : UpdateKeepsText t mask pairs) :
    TableInv H (updatedTable t (updateWrites mask (pairs.map (toAssign H))))
      (updateLits lits (litWrites mask pairs)) := by
  refine ⟨h.follows.updated mask pairs, fun c sc hstr hsc => ?_⟩
  have hold := h.texts c sc hstr hsc
  have hc := h.follows.parallel.lt_of_strings (Table.sidecar_eq_some.mp hsc)
  have hlits : c < lits.length := by rw [h.follows.length]; exact hc
  have hentry := getElem?_eq_getElem hlits
  have hafter := updateLits_getElem? lits mask pairs c
  rw [hentry, map_some] at hafter
  refine ⟨hold.sidecar_length, ?_, fun r hr hnull => ?_⟩
  · have hlen := hold.lits_length
    rw [litsOf_eq hentry] at hlen
    rw [litsOf_eq hafter, length_applyWrites, hlen]
    rfl
  rw [isNull_updatedTable h.follows.parallel hc, assignsTo_map_toAssign] at hnull
  refine litAt_eq_some.mpr ⟨_, hafter, ?_⟩
  rw [updatedLits_getElem?]
  have hrow : r < lits[c].length := by
    have hlen := hold.lits_length
    rw [litsOf_eq hentry] at hlen
    rw [hlen]
    exact hr
  -- a row that keeps its value keeps its literal
  have hkept : t.isNull c r = false → lits[c][r]? = some (some (sc.getD r "")) := by
    intro hn
    obtain ⟨ls, hls, hlit⟩ := litAt_eq_some.mp (hold.texts r hr hn)
    cases hentry.symm.trans hls
    exact hlit
  by_cases hmatch : r ∈ matchedRows mask
  · cases hlast : (pairsTo c pairs).getLast? with
    | none =>
      have hn : t.isNull c r = false := by simpa [hmatch, hlast] using hnull
      simp [hmatch, hkept hn]
    | some p =>
      have hn : isNullText p.2 = false := by simpa [hmatch, hlast, toAssign] using hnull
      rcases hk c sc hstr hsc p hlast with hnullp | hsame
      · cases hn.symm.trans hnullp
      · rw [getElem?_eq_getElem hrow]
        simp [hmatch, hsame r hmatch]
  · have hn : t.isNull c r = false := by simpa [hmatch] using hnull
    simp [hmatch, hkept hn]

/-- The condition for DELETE. -/
def DeleteKeepsText (t : Table) (mask : List Bool) : Prop :=
  mask.count true = 0 ∨ ∀ c < t.columns.length, t.isStringColumn c = true → t.sidecar c = none

theorem TableInv.deleted (h : TableInv H t lits)
    (hrows : deleteRows t mask = .ok t') (hk : DeleteKeepsText t mask) :
    TableInv H t' (deleteLits lits mask) := by
  rcases deleteRows_eq_ok hrows with ⟨hzero, rfl⟩ | ⟨hpos, -, rfl⟩
  · rw [deleteLits, if_pos hzero]
    exact h
  · rw [deleteLits, if_neg (by omega)]
    refine ⟨h.follows.deleted, fun c sc hstr hsc => ?_⟩
    have hsc' : t.sidecar c = some sc := hsc
    have hc := h.follows.parallel.lt_of_strings (Table.sidecar_eq_some.mp hsc')
    rcases hk with hzero | hnone
    · omega
    · rw [hnone c hc hstr] at hsc'
      cases hsc'

/-! ## ALTER TABLE -/

theorem TableInv.addColumn (h : TableInv H t lits) {col : ColumnDef} :
    TableInv H (addColumn H t col)
      (lits ++ [List.replicate t.rowCount (defaultLiteral H col)]) := by
  refine ⟨h.follows.addColumn, fun c sc hstr hsc => ?_⟩
  have hp := h.follows.parallel
  -- the new column has no sidecar, so this is an old one
  have hc : c < t.columns.length := by
    rw [Table.sidecar_eq_some] at hsc
    simp only [TensorVault.addColumn, getElem?_append] at hsc
    split at hsc
    · next hlt => rw [← hp.strings]; exact hlt
    · rw [getElem?_singleton] at hsc
      split at hsc <;> cases hsc
  have hsc' : t.sidecar c = some sc := by
    rw [Table.sidecar_eq_some] at hsc ⊢
    simp only [TensorVault.addColumn] at hsc
    rwa [getElem?_append_left (by rw [hp.strings]; exact hc)] at hsc
  have hstr' : t.isStringColumn c = true := by
    unfold Table.isStringColumn at hstr ⊢
    simp only [TensorVault.addColumn] at hstr
    cases hs : t.schema with
    | none => rw [hs] at hstr; cases hstr
    | some s =>
      rw [hs] at hstr
      simp only [map_some, TableSchema.isString] at hstr ⊢
      rwa [getElem?_append_left (by rw [h.follows.schema s hs]; exact hc)] at hstr
  have hnull : ∀ r, (TensorVault.addColumn H t col).isNull c r = t.isNull c r := by
    intro r
    unfold Table.isNull Table.bitmap
    simp only [TensorVault.addColumn]
    rw [getElem?_append_left (by rw [hp.nulls]; exact hc)]
  have hlits : (lits ++ [List.replicate t.rowCount (defaultLiteral H col)])[c]? = lits[c]? :=
    getElem?_append_left (by rw [h.follows.length]; exact hc)
  exact (h.texts c sc hstr' hsc').of_column rfl hnull hlits

theorem TableInv.removeColumn (h : TableInv H t lits) :
    TableInv H (removeColumn t idx) (lits.eraseIdx idx) := by
  refine ⟨h.follows.removeColumn, fun c sc hstr hsc => ?_⟩
  -- column `c` is what was column `k` before
  obtain ⟨k, hk⟩ : ∃ k, ∀ {α : Type} (l : List α), (l.eraseIdx idx)[c]? = l[k]? := by
    refine ⟨if c < idx then c else c + 1, fun l => ?_⟩
    rw [getElem?_eraseIdx]
    split <;> rfl
  have hsc' : t.sidecar k = some sc := by
    rw [Table.sidecar_eq_some] at hsc ⊢
    simp only [TensorVault.removeColumn, hk] at hsc
    exact hsc
  have hstr' : t.isStringColumn k = true := by
    unfold Table.isStringColumn at hstr ⊢
    simp only [TensorVault.removeColumn] at hstr
    cases hs : t.schema with
    | none => rw [hs] at hstr; cases hstr
    | some s =>
      rw [hs] at hstr
      simp only [map_some, TableSchema.isString, hk] at hstr ⊢
      exact hstr
  have hnull : ∀ r, (TensorVault.removeColumn t idx).isNull c r = t.isNull k r := by
    intro r
    unfold Table.isNull Table.bitmap
    simp only [TensorVault.removeColumn, hk]
  exact (h.texts k sc hstr' hsc').of_column rfl hnull (hk lits)

/-- The condition for a change of type: a sidecar that comes back into use fits the column. -/
def RetypeKeepsText (t : Table) (lits : Lits) (idx : Nat) (newType : ColumnType) : Prop :=
  isStringType newType = true → t.isStringColumn idx = false →
    ∀ sc, t.sidecar idx = some sc → TextInv t lits idx sc

theorem TableInv.retypeColumn (h : TableInv H t lits) {newType : ColumnType}
    (hk : RetypeKeepsText t lits idx newType) : TableInv H (retypeColumn t idx newType) lits := by
  refine ⟨h.follows.retypeColumn, fun c sc hstr hsc => ?_⟩
  have hsc' : t.sidecar c = some sc := hsc
  have hold : TextInv t lits c sc := by
    by_cases hwas : t.isStringColumn c = true
    · exact h.texts c sc hwas hsc'
    · -- the column was no string column, so it is the one retyped
      have hboth : c = idx ∧ isStringType newType = true := by
        unfold Table.isStringColumn at hstr hwas
        simp only [TensorVault.retypeColumn] at hstr
        cases hs : t.schema with
        | none => rw [hs] at hstr; cases hstr
        | some s =>
          rw [hs] at hstr hwas
          simp only [map_some, TableSchema.isString, getElem?_modify] at hstr hwas
          cases hcol : s.columns[c]? with
          | none => simp [hcol] at hstr
          | some cs =>
            simp only [hcol] at hstr hwas
            by_cases hci : idx = c
            · simp only [hci, if_true] at hstr
              exact ⟨hci.symm, hstr⟩
            · simp only [hci, if_false] at hstr
              exact absurd hstr hwas
      obtain ⟨rfl, hty⟩ := hboth
      exact hk hty (by simpa using hwas) sc hsc'
  exact ⟨hold.sidecar_length, hold.lits_length, hold.texts⟩

/-! ## Statements and runs -/

/-- The condition under which a statement keeps the sidecars coherent. -/
def KeepsText (H : Host) (s : LitStore) : Statement → Prop
  | .dml (.insert ins) => ∀ t colIndices, s.store.catalog.get ins.table = some t →
      insertColumnIndices t ins.columns = .ok colIndices →
      InsertKeepsText t (s.lits ins.table) colIndices ins.values
  | .dml (.update upd) => ∀ t mask, s.store.catalog.get upd.table = some t →
      matchMask H t upd.whereClause = .ok mask →
      UpdateKeepsText t mask (resolvedAssigns t upd.assignments)
  | .dml (.delete del) => ∀ t mask, s.store.catalog.get del.table = some t →
      matchMask H t del.whereClause = .ok mask → DeleteKeepsText t mask
  | .ddl (.alterTable at_) => ∀ t col newType idx,
      s.store.catalog.get (fullName at_.schema at_.name) = some t →
      at_.action = .alterColumnType col newType → t.columnIdx col = some idx →
      RetypeKeepsText t (s.lits (fullName at_.schema at_.name)) idx newType
  | _ => True

namespace LitStore

/-- Every table is coherent with the literals written to it. -/
def Coherent (H : Host) (s : LitStore) : Prop :=
  ∀ name t, s.store.catalog.get name = some t → TextCoherent H t (s.lits name)

/-- The invariant of runs: tables with a schema satisfy `TableInv`. -/
def Inv (H : Host) (s : LitStore) : Prop :=
  ∀ name t, s.store.catalog.get name = some t → t.schema.isSome = true → TableInv H t (s.lits name)

theorem Inv.coherent {s : LitStore} (h : s.Inv H) : s.Coherent H := by
  intro name t ht c sc hstr
  exact (h name t ht (isSome_schema_of_isStringColumn hstr)).coherent c sc hstr

theorem inv_new : LitStore.new.Inv H := by
  intro name t ht hschema
  have ht' : (Catalog.empty.register Store.dummyTable).get name = some t := ht
  rw [Catalog.get_register] at ht'
  split at ht'
  · cases ht'
    cases hschema
  · cases ht'

variable {s s' : LitStore} {stmt : Statement}

theorem step_eq_some (h : s.step H stmt = some s') :
    s.store.step H stmt = some s'.store ∧
      s'.lits = match litsAfter H s stmt with
        | none => s.lits
        | some (name, ls) => fun key => if key = name then ls else s.lits key := by
  cases hstore : s.store.step H stmt with
  | none => simp [step, hstore] at h
  | some store =>
    cases hlits : litsAfter H s stmt <;> simp only [step, hstore, hlits] at h <;> cases h <;>
      exact ⟨rfl, rfl⟩

/-- A table registered together with its literals. -/
theorem Inv.register (h : s.Inv H) {ls : Lits}
    (hcat : s'.store.catalog = s.store.catalog.register t)
    (hlits : s'.lits = fun key => if key = t.name then ls else s.lits key)
    (ht : t.schema.isSome = true → TableInv H t ls) : s'.Inv H := by
  intro key u hu hschema
  rw [hcat, Catalog.get_register] at hu
  rw [hlits]
  split at hu
  · next hkey =>
    cases hu
    simp only [hkey, if_true]
    exact ht hschema
  · next hkey =>
    simp only [hkey, if_false]
    exact h key u hu hschema

theorem inv_ddl {d : DdlStatement} (hs : s.Inv H)
    (hk : KeepsText H s (.ddl d)) (hd : executeDdl H s.store.catalog s.store.indexes d =
      .ok (s'.store.catalog, s'.store.indexes))
    (hlits : s'.lits = match litsAfter H s (.ddl d) with
      | none => s.lits
      | some (name, ls) => fun key => if key = name then ls else s.lits key) : s'.Inv H := by
  have hsame : s'.store.catalog = s.store.catalog → s'.lits = s.lits → s'.Inv H := by
    intro hcat hl key u hu
    rw [hcat] at hu
    rw [hl]
    exact hs key u hu
  have hstep := executeDdl_eq_ok hd
  generalize hcat : s'.store.catalog = cat' at hstep
  generalize s'.store.indexes = im' at hstep
  cases hstep with
  | existing h => exact hsame hcat (by simpa only [litsAfter, if_pos h] using hlits)
  | missing | schema | createIndex | dropIndex => exact hsame hcat hlits
  | @created ct h =>
    simp only [litsAfter, if_neg h] at hlits
    exact hs.register hcat hlits fun _ => ⟨follows_createdTable, fun c sc _ hsc => by
      rw [Table.sidecar_eq_some] at hsc
      simp only [createdTable, getElem?_replicate] at hsc
      split at hsc <;> cases hsc⟩
  | dropped =>
    intro key u hu
    rw [hcat, Catalog.get_drop] at hu
    rw [hlits]
    split at hu
    · cases hu
    · exact hs key u hu
  | added ht haction =>
    simp only [litsAfter, ht, haction, alterLits] at hlits
    rw [← Catalog.name_of_get ht] at hlits ht
    exact hs.register hcat hlits fun hschema =>
      (hs _ _ ht (by simpa [addColumn] using hschema)).addColumn
  | removed ht haction hidx _ =>
    simp only [litsAfter, ht, haction, alterLits, hidx] at hlits
    rw [← Catalog.name_of_get ht] at hlits ht
    exact hs.register hcat hlits fun hschema =>
      (hs _ _ ht (by simpa [removeColumn] using hschema)).removeColumn
  | retyped ht haction hidx =>
    have hretype := hk _ _ _ _ ht haction hidx
    simp only [litsAfter, ht, haction, alterLits] at hlits
    have hname := Catalog.name_of_get ht
    rw [← hname] at hlits ht hretype
    exact hs.register hcat hlits fun hschema =>
      (hs _ _ ht (by simpa [retypeColumn] using hschema)).retypeColumn hretype

theorem inv_dml {d : DmlStatement} (hs : s.Inv H)
    (hk : KeepsText H s (.dml d)) (hd : executeDml H s.store.catalog d = .ok (s'.store.catalog, n))
    (hlits : s'.lits = match litsAfter H s (.dml d) with
      | none => s.lits
      | some (name, ls) => fun key => if key = name then ls else s.lits key) : s'.Inv H := by
  cases d with
  | insert ins =>
    obtain ⟨t, t', colIndices, ht, hidx, hrows, hcat, -⟩ := executeInsert_eq_ok hd
    have htext := hk t colIndices ht hidx
    simp only [litsAfter, ht, hidx] at hlits
    obtain ⟨-, -, -, ht'⟩ := insertRows_eq_ok hrows
    have hkept : t'.name = t.name ∧ t'.schema = t.schema := by rw [ht']; exact ⟨rfl, rfl⟩
    have hname : t'.name = ins.table := hkept.1.trans (Catalog.name_of_get ht)
    rw [← hname] at hlits ht htext
    refine hs.register hcat hlits fun hschema => ?_
    exact (hs _ t ht (by rw [← hkept.2]; exact hschema)).inserted hrows htext
  | update upd =>
    obtain ⟨t, assigns, mask, ht, hassigns, hmask, -, hcat, -⟩ := executeUpdate_eq_ok hd
    have htext := hk t mask ht hmask
    simp only [litsAfter, ht, hmask] at hlits
    have hname := Catalog.name_of_get ht
    rw [updateAssigns_eq_ok hassigns] at hcat
    rw [← hname] at hlits ht
    refine hs.register hcat hlits fun hschema => ?_
    exact (hs _ t ht hschema).updated htext
  | delete del =>
    obtain ⟨t, t', mask, ht, hmask, hrows, hcat, -⟩ := executeDelete_eq_ok hd
    have htext := hk t mask ht hmask
    simp only [litsAfter, ht, hmask] at hlits
    have hsame : t'.name = t.name ∧ t'.schema = t.schema := by
      rcases deleteRows_eq_ok hrows with ⟨-, rfl⟩ | ⟨-, -, rfl⟩ <;> exact ⟨rfl, rfl⟩
    have hname : t'.name = del.table := hsame.1.trans (Catalog.name_of_get ht)
    rw [← hname] at hlits ht
    refine hs.register hcat hlits fun hschema => ?_
    exact (hs _ t ht (by rw [← hsame.2]; exact hschema)).deleted hrows htext

/-- **One statement.** A successful statement that meets `KeepsText` keeps the invariant. -/
theorem inv_step (hs : s.Inv H)
    (hk : KeepsText H s stmt) (h : s.step H stmt = some s') : s'.Inv H := by
  obtain ⟨hstore, hlits⟩ := step_eq_some h
  rcases Store.step_eq_some hstore with ⟨d, rfl, hd⟩ | ⟨d, n, rfl, hd, -⟩ | ⟨m, n, rfl, hm, -⟩
  · exact inv_ddl hs hk hd hlits
  · exact inv_dml hs hk hd hlits
  · obtain ⟨t, qr, qr', ht, -, -, hcat⟩ := executeMergeStmt_eq_ok hm
    intro key u hu hschema
    rw [hcat, Catalog.get_register] at hu
    split at hu
    · cases hu
      cases hschema
    · rw [hlits]
      exact hs key u hu hschema

end LitStore

/-- **Whole runs.** If every statement of a run from the empty engine meets `KeepsText` in the
state it runs in, the sidecars are coherent in every state of the run. -/
theorem reachable_coherent (H : Host) (stmts : List Statement)
    (h : Run.Along (LitStore.step H) (KeepsText H) LitStore.new stmts) :
    ∀ pre, pre <+: stmts → ∀ s, Run.run (LitStore.step H) LitStore.new pre = some s →
      s.Coherent H := by
  intro pre hpre s hs
  exact (Run.invariant_of_along (fun _ _ _ hQ hP hstep => LitStore.inv_step hQ hP hstep)
    LitStore.inv_new h pre hpre s hs).coherent

/-! ## Two runs -/

/-- A table with one string column. -/
def textTable : CreateTable :=
  { schema := "dbo", name := "t", ifNotExists := false
    columns := [
      { name := "a", colType := .text, notNull := false, primaryKey := false, default := none,
        identity := false, references := none }] }

def insertText : Statement :=
  .dml (.insert { table := "t", columns := none, values := [["'x'"]] })

/-- The first literal of a fresh string column meets the condition. -/
theorem insertText_reachable_coherent :
    Run.Along (LitStore.step Host.ascii) (KeepsText Host.ascii) LitStore.new
      [.ddl (.create textTable), insertText] ∧
    ∀ pre, pre <+: [.ddl (.create textTable), insertText] → ∀ s,
      Run.run (LitStore.step Host.ascii) LitStore.new pre = some s → s.Coherent Host.ascii := by
  have halong : Run.Along (LitStore.step Host.ascii) (KeepsText Host.ascii) LitStore.new
      [.ddl (.create textTable), insertText] := by
    refine ⟨trivial, fun s hs => ⟨fun t colIndices ht hidx => ?_, fun _ _ => trivial⟩⟩
    obtain ⟨htable, hlits⟩ : s.store.catalog.get "t" = some (createdTable textTable) ∧
        s.lits "t" = [[]] := by
      cases hs
      exact ⟨rfl, rfl⟩
    cases htable.symm.trans ht
    cases hidx
    refine .inr fun c hc _ _ => ?_
    rw [hlits]
    have hzero : c = 0 := Nat.lt_one_iff.mp hc
    subst hzero
    refine ⟨by decide +kernel, by decide +kernel, fun bm hbm => ?_, fun _ => ?_, fun _ => ?_⟩
    · cases hbm
    · decide +kernel
    · exact ⟨rfl, fun r hr => absurd hr (Nat.not_lt_zero r)⟩
  exact ⟨halong, reachable_coherent Host.ascii _ halong⟩

/-- UPDATE writes the hash of the new text and leaves the sidecar with the old one. -/
theorem updateText_breaks_sidecar :
    ∃ stmts s, ["CREATE TABLE t (a TEXT)", "INSERT INTO t VALUES ('x')",
        "UPDATE t SET a = 'y'"].mapM (Statement.parse Host.ascii) = some stmts ∧
      Run.run (LitStore.step Host.ascii) LitStore.new stmts = some s ∧
      ¬ s.Coherent Host.ascii := by
  have hparse : ["CREATE TABLE t (a TEXT)", "INSERT INTO t VALUES ('x')",
      "UPDATE t SET a = 'y'"].mapM (Statement.parse Host.ascii) =
        some [.ddl (.create textTable), insertText,
          .dml (.update { table := "t", assignments := [("a", "'y'")], whereClause := none })] := by
    decide +kernel
  obtain ⟨s, hs⟩ : ∃ s, Run.run (LitStore.step Host.ascii) LitStore.new
      [.ddl (.create textTable), insertText,
        .dml (.update { table := "t", assignments := [("a", "'y'")], whereClause := none })] =
      some s := isSome_iff_exists.mp (by decide +kernel)
  refine ⟨_, s, hparse, hs, fun hcoh => ?_⟩
  have htable : ((Run.run (LitStore.step Host.ascii) LitStore.new
      [.ddl (.create textTable), insertText,
        .dml (.update { table := "t", assignments := [("a", "'y'")], whereClause := none })]).bind
      fun s => (s.store.catalog.get "t").map fun t => (t.isStringColumn 0, t.sidecar 0,
        t.rowCount, t.isNull 0 0, litAt (s.lits "t") 0 0)) =
      some (true, some ["x"], 1, false, some "y") := by
    decide +kernel
  rw [hs, bind_some] at htable
  obtain ⟨t, ht, hfacts⟩ := map_eq_some_iff.mp htable
  simp only [Prod.mk.injEq] at hfacts
  obtain ⟨hstr, hsc, hrows, hnull, hlit⟩ := hfacts
  have htext := (hcoh "t" t ht 0 ["x"] hstr hsc 0 (by rw [hrows]; decide) hnull).2
  rw [hlit] at htext
  exact absurd htext (by decide)

end TensorVault
