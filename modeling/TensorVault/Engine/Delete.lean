import TensorVault.Engine.Update

/-!
# DELETE

`execute_delete` keeps the cells of the rows outside the mask and lowers the row count. NULL
bitmaps and sidecars keep the entries of the deleted rows.
-/

namespace TensorVault

open Sql List

/-- The entries of a column outside the delete mask. -/
def keepRows {α : Type} (mask : List Bool) (col : List α) : List α :=
  ((col.zip mask).filter fun p => !p.2).map Prod.fst

def deletedTable (t : Table) (mask : List Bool) : Table :=
  { t with
    columns := t.columns.map (keepRows mask)
    rowCount := t.rowCount - mask.count true }

/-- The rebuilding part of `execute_delete`: a kept row past the end of a column and a row count
that would go below zero panic. -/
def deleteRows (t : Table) (mask : List Bool) : Outcome Table :=
  if mask.count true = 0 then .ok t
  else if t.rowCount < mask.count true then .panic
  else if t.columns.all fun col => (mask.drop col.length).all id then .ok (deletedTable t mask)
  else .panic

/-- `execute_delete`: the new catalog and the number of rows deleted. -/
def executeDelete (H : Host) (cat : Catalog) (del : Delete) : Outcome (Catalog × Nat) :=
  match cat.get del.table with
  | none => .err (.notFound ("table \"" ++ del.table ++ "\""))
  | some t =>
    match matchMask H t del.whereClause with
    | .err e => .err e
    | .panic => .panic
    | .ok mask =>
      match deleteRows t mask with
      | .ok t' => .ok (cat.register t', mask.count true)
      | .err e => .err e
      | .panic => .panic

theorem executeDelete_eq_ok {H : Host} {cat cat' : Catalog} {del : Delete} {n : Nat}
    (h : executeDelete H cat del = .ok (cat', n)) :
    ∃ t t' mask, cat.get del.table = some t ∧ matchMask H t del.whereClause = .ok mask ∧
      deleteRows t mask = .ok t' ∧ cat' = cat.register t' ∧ n = mask.count true := by
  unfold executeDelete at h
  split at h
  · cases h
  · next t ht =>
    split at h
    · cases h
    · cases h
    · next mask hmask =>
      split at h
      · next t' hrows =>
        cases h
        exact ⟨t, t', mask, ht, hmask, hrows, rfl, rfl⟩
      · cases h
      · cases h

variable {mask : List Bool} {t : Table}

/-- A successful DELETE either selects no row and changes nothing, or compacts the columns. -/
theorem deleteRows_eq_ok {t' : Table} (h : deleteRows t mask = .ok t') :
    (mask.count true = 0 ∧ t' = t) ∨ (0 < mask.count true ∧ mask.count true ≤ t.rowCount ∧
      t' = deletedTable t mask) := by
  unfold deleteRows at h
  split at h
  · next hzero =>
    cases h
    exact .inl ⟨hzero, rfl⟩
  · split at h
    · cases h
    · split at h
      · cases h
        exact .inr ⟨by omega, by omega, rfl⟩
      · cases h

theorem parallel_deletedTable (ht : t.Parallel) : (deletedTable t mask).Parallel where
  names := by simp only [deletedTable, length_map]; exact ht.names
  strings := by simp only [deletedTable, length_map]; exact ht.strings
  nulls := by simp only [deletedTable, length_map]; exact ht.nulls

theorem length_keepRows {α : Type} :
    ∀ {mask : List Bool} {col : List α}, col.length = mask.length →
      (keepRows mask col).length = mask.length - mask.count true
  | [], [], _ => rfl
  | m :: mask, x :: col, h => by
    have ih : (keepRows mask col).length = mask.length - mask.count true :=
      length_keepRows (by simpa using h)
    have hle := count_le_length (a := true) (l := mask)
    unfold keepRows at ih ⊢
    cases m with
    | true =>
      simp only [zip_cons_cons, filter_cons, Bool.not_true, Bool.false_eq_true, if_false,
        length_cons, count_cons_self]
      omega
    | false =>
      simp only [zip_cons_cons, filter_cons, Bool.not_false, if_true, map_cons, length_cons]
      rw [ih, count_cons_of_ne (by simp)]
      omega

end TensorVault
