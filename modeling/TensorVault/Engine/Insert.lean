import TensorVault.Engine.Value
import TensorVault.Lib.Writes

/-!
# INSERT

For each row and each listed column `execute_insert` pushes one cell, extends the NULL bitmap and
notes the text for the sidecar, which is rebuilt after the loop. Every visit touches a single
column, so the loop is a list of writes (`Writes.applyWrites`) and is described column by column;
`insertRows_eq_ok` says when it does not panic.
-/

namespace TensorVault

variable {t : Table} {H : Host} {ws : List (Nat × String)}

open Text Sql Writes List

/-! ## What one visit does to a column -/

/-- The bitmap after one more value. The first NULL of a column creates the bitmap, with the
`rowCount` rows from before the statement marked non-NULL. -/
def pushNullFlag (rowCount : Nat) (v : String) (bm : Option (List Bool)) : Option (List Bool) :=
  if isNullText v then some (bm.getD (List.replicate rowCount false) ++ [true])
  else bm.map (· ++ [false])

/-- What the sidecar of a string column gets for a value: nothing for NULL, the text of a
string literal, and the trimmed value text for anything else. -/
def sidecarText (v : String) : String :=
  if isNullText v then ""
  else match extractStringLiteral v with
    | some s => s
    | none => trim v

/-- The sidecar after the statement. A fresh one is padded so that it ends with the table. -/
def appendTexts (rowCount : Nat) (new : List String) (sc : Option (List String)) :
    Option (List String) :=
  match sc with
  | some old => some (old ++ new)
  | none => some (List.replicate (rowCount - new.length) "" ++ new)

/-! ## The statement -/

/-- The columns an INSERT writes, in the order of its value lists. -/
def insertColumnIndices (t : Table) : Option (List String) → Except Error (List Nat)
  | none => .ok (List.range t.columns.length)
  | some cols => cols.mapM fun name =>
    match t.columnIdx name with
    | some idx => .ok idx
    | none => .error (.notFound ("column \"" ++ name ++ "\""))

/-- The `(column, value)` pairs in the order the two nested loops visit them. -/
def cellWrites (colIndices : List Nat) (values : List (List String)) : List (Nat × String) :=
  values.flatMap fun row => colIndices.zip row

/-- The texts collected for the sidecar of column `c`. -/
def newTexts (t : Table) (ws : List (Nat × String)) (c : Nat) : List String :=
  if t.isStringColumn c then (at_ c ws).map sidecarText else []

/-- The bitmap vector is only grown when a NULL meets a column past its end. -/
def insertNulls (t : Table) (ws : List (Nat × String)) : List (Option (List Bool)) :=
  ws.foldl (fun bms w =>
    let bms := if isNullText w.2 ∧ bms.length ≤ w.1 then padTo t.columns.length none bms else bms
    bms.modify w.1 (pushNullFlag t.rowCount w.2)) t.nullBitmaps

/-- The sidecars are rebuilt one column at a time; the vector is grown as far as needed. -/
def insertTexts (t : Table) (ws : List (Nat × String)) (rowCount : Nat) :
    List (Option (List String)) :=
  (List.range t.columns.length).foldl (fun scs c =>
    if newTexts t ws c = [] then scs
    else (padTo (c + 1) none scs).modify c (appendTexts rowCount (newTexts t ws c)))
    t.stringColumns

def insertedTable (H : Host) (t : Table) (ws : List (Nat × String)) (newRows : Nat) : Table :=
  { t with
    columns := applyWrites (fun v col => col ++ [cellOf H v]) t.columns ws
    nullBitmaps := insertNulls t ws
    stringColumns := insertTexts t ws (t.rowCount + newRows)
    rowCount := t.rowCount + newRows }

/-- The loops of `execute_insert`. Only the first row was counted against the column list, so a
later row may be too short to index. -/
def insertRows (H : Host) (t : Table) (colIndices : List Nat) (values : List (List String)) :
    Outcome Table :=
  let ws := cellWrites colIndices values
  if values.any (fun row => row.length < colIndices.length) then .panic
  else if ws.any (fun w => t.columns.length ≤ w.1 || (parseValueCell H w.2).isNone) then .panic
  else if (List.range t.columns.length).any (fun c =>
      (t.sidecar c).isNone && decide (t.rowCount + values.length < (newTexts t ws c).length)) then
    .panic
  else .ok (insertedTable H t ws values.length)

/-- The number of values in the first row, which is the only one that is counted. -/
def firstRowLength (values : List (List String)) : Nat := (values.head?.map List.length).getD 0

/-- `execute_insert`: the new catalog and the number of rows inserted. -/
def executeInsert (H : Host) (cat : Catalog) (ins : Insert) : Outcome (Catalog × Nat) :=
  match cat.get ins.table with
  | none => .err (.notFound ("table \"" ++ ins.table ++ "\""))
  | some t =>
    match insertColumnIndices t ins.columns with
    | .error e => .err e
    | .ok colIndices =>
      if colIndices.length ≠ firstRowLength ins.values then
        .err (.other ("column count (" ++ toString colIndices.length ++
          ") doesn't match value count (" ++ toString (firstRowLength ins.values) ++ ")"))
      else
        match insertRows H t colIndices ins.values with
        | .ok t' => .ok (cat.register t', ins.values.length)
        | .err e => .err e
        | .panic => .panic

/-! ## When it succeeds -/

variable {colIndices : List Nat} {values : List (List String)} {n rowCount : Nat} {vs : List String}

theorem insertRows_eq_ok {t' : Table} (h : insertRows H t colIndices values = .ok t') :
    (∀ row ∈ values, colIndices.length ≤ row.length) ∧
    (∀ w ∈ cellWrites colIndices values,
      w.1 < t.columns.length ∧ parseValueCell H w.2 = some (cellOf H w.2)) ∧
    (∀ c < t.columns.length, t.sidecar c = none →
      (newTexts t (cellWrites colIndices values) c).length ≤ t.rowCount + values.length) ∧
    t' = insertedTable H t (cellWrites colIndices values) values.length := by
  unfold insertRows at h
  simp only at h
  split at h
  · cases h
  · next hrows =>
    split at h
    · cases h
    · next hcells =>
      split at h
      · cases h
      · next htexts =>
        cases h
        simp only [any_eq_true, decide_eq_true_eq, not_exists, not_and, not_lt,
          Bool.or_eq_true, not_or, not_le, Bool.and_eq_true, mem_range,
          Option.isNone_iff_eq_none] at hrows hcells htexts
        refine ⟨hrows, fun w hw => ⟨(hcells w hw).1, ?_⟩, htexts, rfl⟩
        obtain ⟨cell, hcell⟩ := Option.ne_none_iff_exists'.mp (hcells w hw).2
        simp [cellOf, hcell]

/-- A successful INSERT found its table and its columns and ran the loops on them. -/
theorem executeInsert_eq_ok {cat cat' : Catalog} {ins : Insert}
    (h : executeInsert H cat ins = .ok (cat', n)) :
    ∃ t t' colIndices, cat.get ins.table = some t ∧
      insertColumnIndices t ins.columns = .ok colIndices ∧
      insertRows H t colIndices ins.values = .ok t' ∧
      cat' = cat.register t' ∧ n = ins.values.length := by
  unfold executeInsert at h
  split at h
  · cases h
  · next t ht =>
    split at h
    · cases h
    · next colIndices hidx =>
      split at h
      · cases h
      · split at h
        · next t' hrows =>
          cases h
          exact ⟨t, t', colIndices, ht, hidx, hrows, rfl, rfl⟩
        · cases h
        · cases h

/-! ## The result, column by column -/

theorem insertNulls_eq (ht : t.Parallel) (hws : ∀ w ∈ ws, w.1 < t.columns.length) :
    insertNulls t ws = applyWrites (pushNullFlag t.rowCount) t.nullBitmaps ws := by
  have hstep : ∀ (bms : List (Option (List Bool))), bms.length = t.columns.length →
      ∀ ws : List (Nat × String), (∀ w ∈ ws, w.1 < t.columns.length) →
      ws.foldl (fun bms w =>
        let bms := if isNullText w.2 ∧ bms.length ≤ w.1 then padTo t.columns.length none bms
          else bms
        bms.modify w.1 (pushNullFlag t.rowCount w.2)) bms =
      applyWrites (pushNullFlag t.rowCount) bms ws := by
    intro bms hlen ws
    induction ws generalizing bms with
    | nil => simp [applyWrites]
    | cons w ws ih =>
      intro hmem
      have hw : ¬ (isNullText w.2 ∧ bms.length ≤ w.1) := by
        rintro ⟨_, hle⟩
        have := hmem w (mem_cons_self ..)
        omega
      rw [foldl_cons, if_neg hw]
      exact ih _ (by rw [length_modify, hlen]) (forall_mem_cons.mp hmem).2
  exact hstep _ ht.nulls ws hws

/-- The sidecar vector after rebuilding the columns below `n`. -/
theorem insertTexts_getElem?_aux
    {scs : List (Option (List String))} (hn : n ≤ scs.length) {c : Nat} :
    ((List.range n).foldl (fun scs c =>
      if newTexts t ws c = [] then scs
      else (padTo (c + 1) none scs).modify c (appendTexts rowCount (newTexts t ws c))) scs)[c]? =
      scs[c]?.map fun sc =>
        if c < n ∧ newTexts t ws c ≠ [] then appendTexts rowCount (newTexts t ws c) sc else sc := by
  have hlen : ∀ n, n ≤ scs.length → ((List.range n).foldl (fun scs c =>
      if newTexts t ws c = [] then scs
      else (padTo (c + 1) none scs).modify c (appendTexts rowCount (newTexts t ws c)))
      scs).length = scs.length := by
    intro n
    induction n with
    | zero => intro _; rfl
    | succ n ih =>
      intro hn
      have ih := ih (by omega)
      rw [range_succ, foldl_concat]
      split
      · exact ih
      · rw [length_modify, padTo_of_le (by omega), ih]
  induction n with
  | zero => simp
  | succ n ih =>
    have ih := ih (by omega)
    rw [range_succ, foldl_concat]
    split
    · next hnil =>
      rw [ih]
      congr 1
      funext sc
      by_cases hc : c = n
      · subst hc
        simp [hnil]
      · simp only [show c < n + 1 ↔ c < n by omega]
    · next hne =>
      rw [padTo_of_le (by rw [hlen n (by omega)]; omega), getElem?_modify, ih]
      by_cases hc : n = c
      · subst hc
        cases scs[n]? <;> simp [hne]
      · simp only [hc, if_false, show c < n + 1 ↔ c < n by omega]
        simp

theorem insertTexts_getElem? (ht : t.Parallel) (ws : List (Nat × String)) (rowCount c : Nat) :
    (insertTexts t ws rowCount)[c]? = t.stringColumns[c]?.map fun sc =>
      if newTexts t ws c = [] then sc else appendTexts rowCount (newTexts t ws c) sc := by
  unfold insertTexts
  rw [insertTexts_getElem?_aux (by rw [ht.strings])]
  cases hsc : t.stringColumns[c]? with
  | none => rfl
  | some sc =>
    simp [ht.lt_of_strings hsc]

/-- The cells of a column are followed by the cells written to it. -/
theorem foldl_push_cells {col : List UInt64} :
    vs.foldl (fun col v => col ++ [cellOf H v]) col = col ++ vs.map (cellOf H) := by
  induction vs generalizing col with
  | nil => simp
  | cons v vs ih =>
    rw [foldl_cons, ih, map_cons, append_assoc, singleton_append]

theorem insertedTable_columns (H : Host) (t : Table) (ws : List (Nat × String)) (n c : Nat) :
    (insertedTable H t ws n).columns[c]? =
      t.columns[c]?.map fun col => col ++ (at_ c ws).map (cellOf H) := by
  unfold insertedTable
  simp only [applyWrites_getElem?, foldl_push_cells]

@[simp] theorem length_insertedTable_columns (H : Host) (t : Table) (ws : List (Nat × String))
    (n : Nat) : (insertedTable H t ws n).columns.length = t.columns.length := by
  unfold insertedTable
  simp only [length_applyWrites]

theorem foldl_pushNullFlag_some {bm : List Bool} :
    vs.foldl (fun b v => pushNullFlag rowCount v b) (some bm) =
      some (bm ++ vs.map isNullText) := by
  induction vs generalizing bm with
  | nil => simp
  | cons v vs ih =>
    have hpush : pushNullFlag rowCount v (some bm) = some (bm ++ [isNullText v]) := by
      unfold pushNullFlag
      cases isNullText v <;> simp
    rw [foldl_cons, hpush, ih, map_cons, append_assoc, singleton_append]

/-- A column without a bitmap gets one at its first NULL; the values before that NULL leave no
entry. -/
theorem foldl_pushNullFlag_none :
    vs.foldl (fun b v => pushNullFlag rowCount v b) none =
      if vs.any isNullText then
        some (List.replicate rowCount false ++ (vs.dropWhile (!isNullText ·)).map isNullText)
      else none := by
  induction vs with
  | nil => rfl
  | cons v vs ih =>
    rw [foldl_cons]
    cases hv : isNullText v with
    | true =>
      rw [show pushNullFlag rowCount v none = some (List.replicate rowCount false ++ [true]) by
        simp [pushNullFlag, hv], foldl_pushNullFlag_some]
      simp [hv]
    | false =>
      rw [show pushNullFlag rowCount v none = none by simp [pushNullFlag, hv], ih]
      simp [hv]

/-- The bitmap of a column after the values `vs` were pushed to it. -/
def bitmapAfter (rowCount : Nat) (vs : List String) (bm : Option (List Bool)) :
    Option (List Bool) :=
  match bm with
  | some b => some (b ++ vs.map isNullText)
  | none =>
    if vs.any isNullText then
      some (List.replicate rowCount false ++ (vs.dropWhile (!isNullText ·)).map isNullText)
    else none

theorem insertedTable_nullBitmaps (ht : t.Parallel) (hws : ∀ w ∈ ws, w.1 < t.columns.length)
    (n c : Nat) :
    (insertedTable H t ws n).nullBitmaps[c]? =
      t.nullBitmaps[c]?.map (bitmapAfter t.rowCount (at_ c ws)) := by
  show (insertNulls t ws)[c]? = _
  rw [insertNulls_eq ht hws, applyWrites_getElem?]
  congr 1
  funext bm
  cases bm with
  | some b => exact foldl_pushNullFlag_some
  | none => exact foldl_pushNullFlag_none

theorem insertedTable_stringColumns (ht : t.Parallel) (ws : List (Nat × String)) (n c : Nat) :
    (insertedTable H t ws n).stringColumns[c]? = t.stringColumns[c]?.map fun sc =>
      if newTexts t ws c = [] then sc
      else appendTexts (t.rowCount + n) (newTexts t ws c) sc :=
  insertTexts_getElem? ht ws _ c

/-- Without rows nothing changes. -/
theorem insertedTable_nil : insertedTable H t [] 0 = t := by
  have hnew : ∀ c, newTexts t [] c = [] := by
    intro c
    unfold newTexts
    split <;> rfl
  have htexts : insertTexts t [] t.rowCount = t.stringColumns := by
    unfold insertTexts
    simp [hnew]
  unfold insertedTable
  rw [Nat.add_zero, htexts]
  rfl

/-- INSERT keeps one name, one sidecar entry and one bitmap entry per column. -/
theorem parallel_insertedTable (ht : t.Parallel) (hws : ∀ w ∈ ws, w.1 < t.columns.length) :
    (insertedTable H t ws n).Parallel where
  names := by
    rw [length_insertedTable_columns]
    exact ht.names
  strings := by
    rw [length_insertedTable_columns, ← ht.strings]
    show (insertTexts t ws (t.rowCount + n)).length = _
    refine le_antisymm ?_ ?_
    · refine List.getElem?_eq_none_iff.mp ?_
      rw [insertTexts_getElem? ht, List.getElem?_eq_none_iff.mpr (le_refl _)]
      rfl
    · refine List.getElem?_eq_none_iff.mp ?_
      have h :=
        insertTexts_getElem? ht ws (t.rowCount + n) (insertTexts t ws (t.rowCount + n)).length
      rw [List.getElem?_eq_none_iff.mpr (le_refl _)] at h
      exact Option.map_eq_none_iff.mp h.symm
  nulls := by
    rw [length_insertedTable_columns, ← ht.nulls]
    show (insertNulls t ws).length = _
    rw [insertNulls_eq ht hws, length_applyWrites]

/-! ## How often a column is written -/

theorem length_at_cellWrites (h : ∀ row ∈ values, colIndices.length ≤ row.length) (c : Nat) :
    (at_ c (cellWrites colIndices values)).length = values.length * colIndices.count c := by
  unfold cellWrites
  rw [at_flatMap]
  induction values with
  | nil => simp
  | cons row values ih =>
    rw [flatMap_cons, length_append,
      length_at_zip c _ _ (h row (mem_cons_self ..)),
      ih (forall_mem_cons.mp h).2, length_cons, Nat.add_mul,
      Nat.one_mul, Nat.add_comm]

end TensorVault
