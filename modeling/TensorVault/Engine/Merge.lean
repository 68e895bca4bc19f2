import TensorVault.Engine.Value
import TensorVault.Engine.Result

/-!
# MERGE

`execute_merge_stmt` turns the target into a query result, runs `execute_merge` on it and registers
the table built from the outcome. Unmatched rows are deleted at the end by a mask that has one entry
per row from before the statement.
-/

namespace TensorVault

open Text List

inductive MergeAction where
  | update (assigns : List (String × String))
  | insert (cols vals : List String)
  | delete
  deriving DecidableEq, Repr

structure Merge where
  target : String
  sourceRows : List (String × List String)
  sourceColNames : List String
  joinTargetCol : String
  whenMatched : Option MergeAction
  whenNotMatchedBySource : Option MergeAction
  whenNotMatchedByTarget : Option MergeAction
  deriving DecidableEq, Repr

/-! ## Values -/

/-- The text after the last dot. -/
def afterLastDot (s : String) : Option String :=
  if s.toList.contains '.' then
    some (String.ofList (s.toList.reverse.takeWhile (· != '.')).reverse)
  else none

/-- `resolve_val`: `alias.col` stands for the value of `col` in the source row. -/
def resolveVal (H : Host) (val : String) (sourceColNames sourceRow : List String) : String :=
  match afterLastDot val with
  | none => val
  | some tail =>
    let colPart := trim tail
    if colPart ≠ "" ∧ colPart.toList.all (fun c => H.isAlphanumeric c || c == '_') then
      match sourceColNames.findIdx? (eqIgnoreAsciiCase · colPart) with
      | some idx => sourceRow.getD idx val
      | none => val
    else val

/-- `parse_cell` of `exec/merge.rs`. -/
def parseMergeCell (H : Host) (s : String) : UInt64 :=
  let cs := trimChars s.toList
  match quotedInner cs with
  | some inner => H.xxh3 (String.ofList inner)
  | none =>
    match parseI64 (String.ofList cs) with
    | some n => cellOfInt n
    | none =>
      match parseU64 (String.ofList cs) with
      | some n => n
      | none => (H.parseF64 (String.ofList cs)).getD 0

/-! ## The source loop -/

structure MergeState where
  columns : List ResultColumn
  rowCount : Nat
  matched : List Bool
  inserted : Nat
  updated : Nat
  deriving DecidableEq, Repr

def MergeState.columnIdx (st : MergeState) (name : String) : Option Nat :=
  st.columns.findIdx? (·.name == name)

def mapValues (st : MergeState) (idx : Nat) (f : List UInt64 → List UInt64) : MergeState :=
  { st with columns := st.columns.modify idx fun c => { c with values := f c.values } }

/-- `WHEN MATCHED THEN UPDATE` on one row; unknown columns are skipped. -/
def mergeAssign (H : Host) (m : Merge) (sourceRow : List String) (row : Nat) (st : MergeState)
    (a : String × String) : MergeState :=
  match st.columnIdx a.1 with
  | some idx => mapValues st idx
      (·.set row (parseMergeCell H (resolveVal H a.2 m.sourceColNames sourceRow)))
  | none => st

/-- `WHEN NOT MATCHED BY TARGET THEN INSERT`; missing values become `0`. -/
def mergeInsert (H : Host) (m : Merge) (sourceRow cols vals : List String) (st : MergeState) :
    MergeState :=
  let idxs := if cols.isEmpty then List.range st.columns.length
    else cols.filterMap st.columnIdx
  let st := idxs.zipIdx.foldl (fun st p =>
    let cell := match vals[p.2]? with
      | some v => parseMergeCell H (resolveVal H v m.sourceColNames sourceRow)
      | none => 0
    mapValues st p.1 (· ++ [cell])) st
  { st with rowCount := st.rowCount + 1, inserted := st.inserted + 1 }

/-- One source row. A match on a row inserted by this statement is past the end of the mask. -/
def mergeRow (H : Host) (m : Merge) (target : Nat) (st : MergeState)
    (source : String × List String) : Option MergeState :=
  let sourceVal := parseMergeCell H source.1
  let values := (st.columns[target]?.map ResultColumn.values).getD []
  match (List.range st.rowCount).find? fun row => values.getD row 0 == sourceVal with
  | some row =>
    if row < st.matched.length then
      let st := { st with matched := st.matched.set row true }
      match m.whenMatched with
      | some (.update assigns) =>
        some { assigns.foldl (mergeAssign H m source.2 row) st with updated := st.updated + 1 }
      | _ => some st
    else none
  | none =>
    match m.whenNotMatchedByTarget with
    | some (.insert cols vals) => some (mergeInsert H m source.2 cols vals st)
    | _ => some st

/-- The cells of the rows the mask keeps, as far as the column reaches. -/
def keepMatched (matched : List Bool) (values : List UInt64) : List UInt64 :=
  ((values.zip matched).filter Prod.snd).map Prod.fst

/-- `execute_merge`: the mutated result and the number of rows touched. -/
def executeMerge (H : Host) (qr : QueryResult) (m : Merge) : Option (QueryResult × Nat) :=
  match qr.columns.findIdx? (·.name == m.joinTargetCol) with
  | none => some (qr, 0)
  | some target =>
    match m.sourceRows.foldlM (mergeRow H m target)
        { columns := qr.columns, rowCount := qr.rowCount,
          matched := List.replicate qr.rowCount false, inserted := 0, updated := 0 } with
    | none => none
    | some st =>
      match m.whenNotMatchedBySource with
      | some .delete =>
        let deleted := st.matched.count false
        some ({ columns := st.columns.map fun c =>
                { c with values := keepMatched st.matched c.values }
                rowCount := st.rowCount - deleted }, st.inserted + st.updated + deleted)
      | _ => some ({ columns := st.columns, rowCount := st.rowCount }, st.inserted + st.updated)

/-- `execute_merge_stmt`. -/
def executeMergeStmt (H : Host) (cat : Catalog) (m : Merge) : Outcome (Catalog × Nat) :=
  match cat.get m.target with
  | none => .err (.notFound ("MERGE target table \"" ++ m.target ++ "\""))
  | some t =>
    match tableToQueryResult t with
    | none => .panic
    | some qr =>
      match executeMerge H qr m with
      | none => .panic
      | some (qr', n) => .ok (cat.register (queryResultToTable m.target qr'), n)

/-! ## MERGE keeps the number of columns -/

@[simp] theorem length_mapValues (st : MergeState) (idx : Nat) (f : List UInt64 → List UInt64) :
    (mapValues st idx f).columns.length = st.columns.length :=
  length_modify ..

theorem length_foldl_columns {β : Type} {f : MergeState → β → MergeState}
    (hf : ∀ st b, (f st b).columns.length = st.columns.length) {bs : List β} {st : MergeState} :
    (bs.foldl f st).columns.length = st.columns.length := by
  induction bs generalizing st with
  | nil => rfl
  | cons b bs ih => rw [foldl_cons, ih, hf]

theorem length_mergeAssign {H : Host} {m : Merge} {sourceRow : List String} {row : Nat}
    (st : MergeState) (a : String × String) :
    (mergeAssign H m sourceRow row st a).columns.length = st.columns.length := by
  unfold mergeAssign
  split
  · exact length_mapValues ..
  · rfl

theorem length_mergeInsert (H : Host) (m : Merge) (sourceRow cols vals : List String)
    (st : MergeState) :
    (mergeInsert H m sourceRow cols vals st).columns.length = st.columns.length := by
  unfold mergeInsert
  exact length_foldl_columns (fun st p => length_mapValues ..)

variable {H : Host} {m : Merge} {target n : Nat}

theorem length_mergeRow {st st' : MergeState}
    {source : String × List String} (h : mergeRow H m target st source = some st') :
    st'.columns.length = st.columns.length := by
  unfold mergeRow at h
  simp only at h
  split at h
  · split at h
    · split at h
      · cases h
        exact length_foldl_columns length_mergeAssign
      · cases h
        rfl
    · cases h
  · split at h
    · cases h
      exact length_mergeInsert ..
    · cases h
      rfl

theorem length_foldlM_mergeRow :
    ∀ {rows : List (String × List String)} {st st' : MergeState},
      rows.foldlM (mergeRow H m target) st = some st' → st'.columns.length = st.columns.length
  | [], _, _, h => by
    cases h
    rfl
  | row :: rows, st, st', h => by
    rw [foldlM_cons] at h
    obtain ⟨u, hu, hrest⟩ := Option.bind_eq_some_iff.mp h
    rw [length_foldlM_mergeRow hrest, length_mergeRow hu]

theorem length_executeMerge_columns {qr qr' : QueryResult}
    (h : executeMerge H qr m = some (qr', n)) : qr'.columns.length = qr.columns.length := by
  unfold executeMerge at h
  split at h
  · cases h
    rfl
  · split at h
    · cases h
    · next hfold =>
      split at h
      · cases h
        rw [length_map]
        exact length_foldlM_mergeRow hfold
      · cases h
        exact length_foldlM_mergeRow hfold

theorem executeMergeStmt_eq_ok {cat cat' : Catalog} (h : executeMergeStmt H cat m = .ok (cat', n)) :
    ∃ t qr qr', cat.get m.target = some t ∧ tableToQueryResult t = some qr ∧
      executeMerge H qr m = some (qr', n) ∧
      cat' = cat.register (queryResultToTable m.target qr') := by
  unfold executeMergeStmt at h
  split at h
  · cases h
  · next t ht =>
    split at h
    · cases h
    · next qr hqr =>
      split at h
      · cases h
      · next qr' k hmerge =>
        cases h
        exact ⟨t, qr, qr', ht, hqr, hmerge, rfl⟩

end TensorVault
