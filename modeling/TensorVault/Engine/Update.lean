import TensorVault.Engine.Where
import TensorVault.Lib.Writes

/-!
# UPDATE

For each matched row and each assignment `execute_update` overwrites one cell and one entry of the
NULL bitmap; sidecars are not touched. As for INSERT the loops are a list of writes. The bitmap that
the first NULL of a column creates only reaches up to the row written last.
-/

namespace TensorVault

variable {t : Table}

open Text Sql Writes List

/-! ## The statement -/

/-- A resolved assignment. -/
structure Assign where
  colIdx : Nat
  cell : UInt64
  isNull : Bool
  deriving DecidableEq, Repr

/-- The assignments of the `SET` list, resolved from the left. -/
def updateAssigns (H : Host) (t : Table) : List (String × String) → Outcome (List Assign)
  | [] => .ok []
  | (colName, expr) :: rest =>
    match t.columnIdx colName with
    | none => .err (.notFound ("column \"" ++ colName ++ "\""))
    | some colIdx =>
      match parseValueCell H expr with
      | none => .panic
      | some cell =>
        match updateAssigns H t rest with
        | .ok assigns => .ok ({ colIdx, cell, isNull := isNullText expr } :: assigns)
        | .err e => .err e
        | .panic => .panic

/-- The row mask of a statement; without a clause every row matches. -/
def matchMask (H : Host) (t : Table) : Option String → Outcome (List Bool)
  | some clause => evalSimpleWhere H t clause
  | none => .ok (List.replicate t.rowCount true)

/-- The rows a mask selects, in order. -/
def matchedRows (mask : List Bool) : List Nat :=
  (List.range mask.length).filter fun i => mask.getD i false

/-- One write of the loops: the column, and the row with its new cell and NULL flag. -/
def updateWrites (mask : List Bool) (assigns : List Assign) : List (Nat × Nat × Assign) :=
  (matchedRows mask).flatMap fun row => assigns.map fun a => (a.colIdx, row, a)

/-- The bitmap entry of a row is overwritten; a NULL creates the bitmap, and a bitmap that ends
before the row is extended up to it. -/
def setNullFlag (w : Nat × Assign) (bm : Option (List Bool)) : Option (List Bool) :=
  if w.2.isNull then
    some ((padTo (w.1 + 1) false (bm.getD (List.replicate w.1 false))).set w.1 true)
  else bm.map fun b => (padTo (w.1 + 1) false b).set w.1 false

def updatedTable (t : Table) (ws : List (Nat × Nat × Assign)) : Table :=
  { t with
    columns := applyWrites (fun w col => col.set w.1 w.2.cell) t.columns ws
    nullBitmaps := applyWrites setNullFlag (padTo t.columns.length none t.nullBitmaps) ws }

/-- `execute_update`: the new catalog and the number of rows updated. -/
def executeUpdate (H : Host) (cat : Catalog) (upd : Update) : Outcome (Catalog × Nat) :=
  match cat.get upd.table with
  | none => .err (.notFound ("table \"" ++ upd.table ++ "\""))
  | some t =>
    match updateAssigns H t upd.assignments with
    | .err e => .err e
    | .panic => .panic
    | .ok assigns =>
      match matchMask H t upd.whereClause with
      | .err e => .err e
      | .panic => .panic
      | .ok mask =>
        let ws := updateWrites mask assigns
        if ws.all (fun w => (t.columns[w.1]?).any fun col => w.2.1 < col.length) then
          .ok (cat.register (updatedTable t ws), (matchedRows mask).length)
        else .panic

/-! ## When it succeeds -/

variable {H : Host} {n : Nat} {mask : List Bool} {r c : Nat} {assigns : List Assign}
  {ws : List (Nat × Nat × Assign)}

theorem executeUpdate_eq_ok {cat cat' : Catalog} {upd : Update}
    (h : executeUpdate H cat upd = .ok (cat', n)) :
    ∃ t assigns mask, cat.get upd.table = some t ∧
      updateAssigns H t upd.assignments = .ok assigns ∧
      matchMask H t upd.whereClause = .ok mask ∧
      (∀ w ∈ updateWrites mask assigns, ∃ col, t.columns[w.1]? = some col ∧ w.2.1 < col.length) ∧
      cat' = cat.register (updatedTable t (updateWrites mask assigns)) ∧
      n = (matchedRows mask).length := by
  unfold executeUpdate at h
  split at h
  · cases h
  · next t ht =>
    split at h
    · cases h
    · cases h
    · next assigns hassigns =>
      split at h
      · cases h
      · cases h
      · next mask hmask =>
        simp only at h
        split at h
        · next hin =>
          cases h
          refine ⟨t, assigns, mask, ht, hassigns, hmask, fun w hw => ?_, rfl, rfl⟩
          have hw' := all_eq_true.mp hin w hw
          cases hcol : t.columns[w.1]? with
          | none => rw [hcol] at hw'; cases hw'
          | some col =>
            rw [hcol] at hw'
            exact ⟨col, rfl, by simpa using hw'⟩
        · cases h

theorem matchMask_length {clause : Option String} (ht : t.Rectangular)
    (h : matchMask H t clause = .ok mask) : mask.length = t.rowCount := by
  unfold matchMask at h
  split at h
  · exact evalSimpleWhere_length ht h
  · cases h
    exact length_replicate

theorem mem_matchedRows : r ∈ matchedRows mask ↔ mask[r]? = some true := by
  unfold matchedRows
  rw [mem_filter, mem_range]
  constructor
  · rintro ⟨hlt, hr⟩
    rw [getD_eq_getElem?_getD, getElem?_eq_getElem hlt] at hr
    rw [getElem?_eq_getElem hlt]
    exact congrArg some hr
  · intro hr
    have hlt := (List.getElem?_eq_some_iff.mp hr).1
    exact ⟨hlt, by rw [getD_eq_getElem?_getD, hr]; rfl⟩

theorem nodup_matchedRows : (matchedRows mask).Nodup :=
  List.Nodup.filter _ nodup_range

/-! ## The writes of one column -/

/-- The assignments to column `c`. -/
def assignsTo (c : Nat) (assigns : List Assign) : List Assign :=
  assigns.filter fun a => a.colIdx = c

theorem at_updateWrites :
    at_ c (updateWrites mask assigns) =
      (matchedRows mask).flatMap fun row => (assignsTo c assigns).map fun a => (row, a) :=
  at_flatMap_key (matchedRows mask) assigns Assign.colIdx c

theorem mem_at_updateWrites {row : Nat}
    {a : Assign} : (row, a) ∈ at_ c (updateWrites mask assigns) ↔
      row ∈ matchedRows mask ∧ a ∈ assignsTo c assigns := by
  rw [at_updateWrites, mem_flatMap]
  constructor
  · rintro ⟨r, hr, hmem⟩
    obtain ⟨b, hb, heq⟩ := mem_map.mp hmem
    cases heq
    exact ⟨hr, hb⟩
  · rintro ⟨hr, ha⟩
    exact ⟨row, hr, mem_map.mpr ⟨a, ha, rfl⟩⟩

/-! ## The result, column by column -/

theorem updatedTable_columns :
    (updatedTable t ws).columns[c]? = t.columns[c]?.map fun col =>
      applyWrites (fun a _ => a.cell) col (at_ c ws) := by
  have hset : ∀ (us : List (Nat × Assign)) (col : List UInt64),
      us.foldl (fun col w => col.set w.1 w.2.cell) col =
        applyWrites (fun a _ => a.cell) col us := by
    intro us col
    unfold applyWrites
    simp only [set_eq_modify]
  unfold updatedTable
  simp only [applyWrites_getElem?, hset]

@[simp] theorem length_updatedTable_columns :
    (updatedTable t ws).columns.length = t.columns.length := by
  unfold updatedTable
  simp only [length_applyWrites]

/-- The bitmap of a column after the writes to it. -/
def nullFlags (us : List (Nat × Assign)) (bm : Option (List Bool)) : Option (List Bool) :=
  us.foldl (fun bm w => setNullFlag w bm) bm

theorem updatedTable_nullBitmaps (ht : t.Parallel) (ws : List (Nat × Nat × Assign)) (c : Nat) :
    (updatedTable t ws).nullBitmaps[c]? =
      t.nullBitmaps[c]?.map (nullFlags (at_ c ws)) := by
  unfold updatedTable
  simp only [applyWrites_getElem?, padTo_of_le (le_of_eq ht.nulls.symm)]
  rfl

theorem parallel_updatedTable (ht : t.Parallel) : (updatedTable t ws).Parallel where
  names := by
    rw [length_updatedTable_columns]
    exact ht.names
  strings := by
    rw [length_updatedTable_columns]
    exact ht.strings
  nulls := by
    rw [length_updatedTable_columns]
    unfold updatedTable
    simp only [length_applyWrites, padTo_of_le (le_of_eq ht.nulls.symm), ht.nulls]

/-! ## One row of a column -/

/-- The assignments of the statement with their column resolved, as text. -/
def resolvedAssigns (t : Table) (assigns : List (String × String)) : List (Nat × String) :=
  assigns.filterMap fun a => (t.columnIdx a.1).map fun c => (c, a.2)

/-- What the loops get of a resolved assignment. -/
def toAssign (H : Host) (p : Nat × String) : Assign :=
  { colIdx := p.1, cell := cellOf H p.2, isNull := isNullText p.2 }

theorem updateAssigns_eq_ok :
    ∀ {as : List (String × String)} {assigns : List Assign},
      updateAssigns H t as = .ok assigns → assigns = (resolvedAssigns t as).map (toAssign H)
  | [], _, h => by
    cases h
    rfl
  | (name, expr) :: rest, assigns, h => by
    unfold updateAssigns at h
    split at h
    · cases h
    · next colIdx hidx =>
      split at h
      · cases h
      · next cell hcell =>
        split at h
        · next restAssigns hrest =>
          cases h
          have ih := updateAssigns_eq_ok hrest
          simp [resolvedAssigns, toAssign, hidx, cellOf, hcell, ih]
        · cases h
        · cases h

/-- The resolved assignments to column `c`. -/
def pairsTo (c : Nat) (pairs : List (Nat × String)) : List (Nat × String) :=
  pairs.filter fun p => p.1 = c

theorem assignsTo_map_toAssign {pairs : List (Nat × String)} :
    assignsTo c (pairs.map (toAssign H)) = (pairsTo c pairs).map (toAssign H) := by
  unfold assignsTo pairsTo
  rw [filter_map]
  rfl

variable {c r : Nat} {w : Nat × Assign} {bm : Option (List Bool)}

/-- The cell of a row after UPDATE: the last assignment decides in a matched row. -/
theorem updatedColumn_getElem? {col : List UInt64} :
    (applyWrites (fun a _ => a.cell) col (at_ c (updateWrites mask assigns)))[r]? =
      col[r]?.map fun x => if r ∈ matchedRows mask then
        ((assignsTo c assigns).getLast?.map Assign.cell).getD x else x := by
  rw [applyWrites_getElem?, at_updateWrites, at_flatMap_map nodup_matchedRows]
  congr 1
  funext x
  rw [Writes.foldl_const]
  split <;> simp

/-- One flag write changes the flag of its row only. -/
theorem nullFlagAt_setNullFlag :
    nullFlagAt (setNullFlag w bm) r = if w.1 = r then w.2.isNull else nullFlagAt bm r := by
  have hpad : ∀ (b : List Bool) (x : Bool), ((padTo (w.1 + 1) false b).set w.1 x).getD r false =
      if w.1 = r then x else b.getD r false := by
    intro b x
    have hlen := length_padTo (w.1 + 1) false b
    simp only [getD_eq_getElem?_getD, getElem?_set]
    by_cases hr : w.1 = r
    · subst hr
      simp [show w.1 < (padTo (w.1 + 1) false b).length by omega]
    · simp only [hr, if_false]
      unfold padTo
      rw [getElem?_append]
      split
      · rfl
      · next hge =>
        rw [getElem?_replicate, getElem?_eq_none (by omega)]
        split <;> rfl
  unfold setNullFlag
  cases hnull : w.2.isNull with
  | true =>
    cases bm with
    | some b => simp only [if_true, nullFlagAt, Option.getD_some, hpad]
    | none =>
      have hrep : (List.replicate w.1 false).getD r false = false := by
        rw [getD_eq_getElem?_getD, getElem?_replicate]
        split <;> rfl
      simp only [if_true, nullFlagAt, Option.getD_none, hpad, hrep]
  | false =>
    cases bm with
    | some b => simp only [Bool.false_eq_true, if_false, Option.map_some, nullFlagAt, hpad]
    | none => simp [nullFlagAt]

theorem nullFlagAt_nullFlags {us : List (Nat × Assign)} :
    nullFlagAt (nullFlags us bm) r =
      ((at_ r us).getLast?.map Assign.isNull).getD (nullFlagAt bm r) := by
  rw [← Writes.foldl_const]
  unfold nullFlags
  induction us generalizing bm with
  | nil => rfl
  | cons w us ih =>
    rw [foldl_cons, ih, nullFlagAt_setNullFlag, at_cons]
    by_cases hw : w.1 = r <;> simp [hw]

/-- The NULL flag of a row after UPDATE: the last assignment decides in a matched row. -/
theorem isNull_updatedTable (ht : t.Parallel) (hc : c < t.columns.length) :
    (updatedTable t (updateWrites mask assigns)).isNull c r =
      if r ∈ matchedRows mask then
        ((assignsTo c assigns).getLast?.map Assign.isNull).getD (t.isNull c r)
      else t.isNull c r := by
  have hlt : c < t.nullBitmaps.length := by rw [ht.nulls]; exact hc
  unfold Table.isNull Table.bitmap
  rw [updatedTable_nullBitmaps ht, getElem?_eq_getElem hlt]
  simp only [Option.map_some, Option.join_some]
  rw [nullFlagAt_nullFlags, at_updateWrites, at_flatMap_map nodup_matchedRows]
  split <;> simp

/-! ## The length of a bitmap -/

theorem setNullFlag_some {b : List Bool} :
    setNullFlag w (some b) = some ((padTo (w.1 + 1) false b).set w.1 w.2.isNull) := by
  unfold setNullFlag
  cases w.2.isNull <;> simp

/-- A bitmap that already covers the rows written keeps its length. -/
theorem nullFlags_some :
    ∀ {us : List (Nat × Assign)} {b : List Bool}, b.length = n → (∀ w ∈ us, w.1 < n) →
      ∃ b', nullFlags us (some b) = some b' ∧ b'.length = n
  | [], b, hb, _ => ⟨b, rfl, hb⟩
  | w :: us, b, hb, hus => by
    have hw := hus w (mem_cons_self ..)
    show ∃ b', nullFlags us (setNullFlag w (some b)) = some b' ∧ _
    rw [setNullFlag_some]
    refine nullFlags_some ?_ (forall_mem_cons.mp hus).2
    rw [length_set, length_padTo, hb]
    omega

/-- From a present bitmap the flags stay present, long enough for every row written, and no
longer than the old bitmap or some row written. -/
theorem nullFlags_some_bounds :
    ∀ (us : List (Nat × Assign)) (b : List Bool), ∃ b', nullFlags us (some b) = some b' ∧
      b.length ≤ b'.length ∧ (∀ w ∈ us, w.1 < b'.length) ∧
      (b'.length = b.length ∨ ∃ w ∈ us, b'.length = w.1 + 1)
  | [], b => ⟨b, rfl, le_refl _, by simp, .inl rfl⟩
  | w :: us, b => by
    obtain ⟨b', hb', hle, hall, hend⟩ :=
      nullFlags_some_bounds us ((padTo (w.1 + 1) false b).set w.1 w.2.isNull)
    rw [length_set, length_padTo] at hle hend
    refine ⟨b', ?_, by omega, ?_, ?_⟩
    · show nullFlags us (setNullFlag w (some b)) = some b'
      rw [setNullFlag_some]
      exact hb'
    · intro v hv
      rcases mem_cons.mp hv with rfl | hv
      · omega
      · exact hall v hv
    · rcases hend with hend | ⟨v, hv, hend⟩
      · rcases Nat.le_total b.length (w.1 + 1) with hbw | hbw
        · exact .inr ⟨w, mem_cons_self .., by omega⟩
        · exact .inl (by omega)
      · exact .inr ⟨v, mem_cons_of_mem _ hv, hend⟩

/-- Without a NULL among the writes no bitmap appears. -/
theorem nullFlags_none_of_no_null :
    ∀ {us : List (Nat × Assign)}, (∀ w ∈ us, w.2.isNull = false) → nullFlags us none = none
  | [], _ => rfl
  | w :: us, h => by
    show nullFlags us (setNullFlag w none) = none
    rw [show setNullFlag w none = none by
      simp [setNullFlag, h w (mem_cons_self ..)]]
    exact nullFlags_none_of_no_null (forall_mem_cons.mp h).2

/-- With a NULL among the writes a bitmap appears; it covers the rows set to NULL and ends at
one of the rows written. -/
theorem nullFlags_none :
    ∀ {us : List (Nat × Assign)}, (∃ w ∈ us, w.2.isNull = true) →
      ∃ b, nullFlags us none = some b ∧ (∀ w ∈ us, w.2.isNull = true → w.1 < b.length) ∧
        ∃ w ∈ us, b.length = w.1 + 1
  | [], h => by simp at h
  | w :: us, h => by
    cases hw : w.2.isNull with
    | true =>
      have hset : setNullFlag w none =
          some ((padTo (w.1 + 1) false (List.replicate w.1 false)).set w.1 true) := by
        simp [setNullFlag, hw]
      obtain ⟨b, hb, hle, hall, hend⟩ := nullFlags_some_bounds us
        ((padTo (w.1 + 1) false (List.replicate w.1 false)).set w.1 true)
      rw [length_set, length_padTo, length_replicate] at hle hend
      refine ⟨b, ?_, ?_, ?_⟩
      · show nullFlags us (setNullFlag w none) = some b
        rw [hset]
        exact hb
      · intro v hv _
        rcases mem_cons.mp hv with rfl | hv
        · omega
        · exact hall v hv
      · rcases hend with hend | ⟨v, hv, hend⟩
        · exact ⟨w, mem_cons_self .., by omega⟩
        · exact ⟨v, mem_cons_of_mem _ hv, hend⟩
    | false =>
      have hus : ∃ v ∈ us, v.2.isNull = true := by
        obtain ⟨v, hv, hnull⟩ := h
        rcases mem_cons.mp hv with rfl | hv
        · rw [hw] at hnull; cases hnull
        · exact ⟨v, hv, hnull⟩
      obtain ⟨b, hb, hall, v, hv, hend⟩ := nullFlags_none hus
      refine ⟨b, ?_, ?_, v, mem_cons_of_mem _ hv, hend⟩
      · show nullFlags us (setNullFlag w none) = some b
        rw [show setNullFlag w none = none by simp [setNullFlag, hw]]
        exact hb
      · intro u hu hnull
        rcases mem_cons.mp hu with rfl | hu
        · rw [hw] at hnull; cases hnull
        · exact hall u hu hnull

end TensorVault
