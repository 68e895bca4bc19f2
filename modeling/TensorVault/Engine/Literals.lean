import TensorVault.Engine.Statement

/-!
# The literals last written to the cells

To say which literal a cell was last written with, the statements are run on a second structure
beside the store (`LitStore`), with the literal in the place of the cell. The cells hash what it
records, whatever the statements are (`Follows`). Tables that MERGE has rebuilt have no string
columns and are left out.
-/

namespace TensorVault

variable {H : Host}

open Text Sql Writes List Option

/-! ## The literals of a table -/

/-- For each column and row, the string literal the cell was last written with, unescaped once;
`none` if it was written with anything else. -/
abbrev Lits := List (List (Option String))

def litsOf (lits : Lits) (c : Nat) : List (Option String) := (lits[c]?).getD []

def litAt (lits : Lits) (c r : Nat) : Option String := ((litsOf lits c)[r]?).join

/-- The literal of a value text. The lexer has already unescaped what stands between the
quotes. -/
def literalOf (v : String) : Option String :=
  match quotedInner (trimChars v.toList) with
  | some inner => some (String.ofList inner)
  | none => none

/-- The literal existing rows get from the type of an added column. -/
def typeDefaultLiteral : ColumnType → Option String
  | .varchar _ | .nvarchar _ | .text | .json | .array _ | .bytea | .enum _ => some ""
  | _ => none

/-- The literal existing rows get from an added column. -/
def defaultLiteral (H : Host) (col : ColumnDef) : Option String :=
  match col.default with
  | none => typeDefaultLiteral col.colType
  | some text =>
    let cs := trimChars text.toList
    match quotedInner cs with
    | some inner => some (String.ofList inner)
    | none =>
      match parseI64 (String.ofList cs), H.parseF64 (String.ofList cs) with
      | none, none =>
        if eqIgnoreAsciiCase (String.ofList cs) "null" then none
        else typeDefaultLiteral col.colType
      | _, _ => none

theorem cellOf_of_literalOf {v s : String} (h : literalOf v = some s) : cellOf H v = H.xxh3 s := by
  unfold literalOf at h
  split at h
  · next inner hinner =>
    cases h
    rw [cellOf, parseValueCell_of_quotedInner hinner]
    rfl
  · cases h

variable {s : String} {ty : ColumnType} {col : ColumnDef} {n : Nat}

theorem typeDefaultCell_of_literal
    (h : typeDefaultLiteral ty = some s) : typeDefaultCell H ty = H.xxh3 s := by
  cases ty <;> cases h <;> rfl

theorem defaultCell_of_literal (h : defaultLiteral H col = some s) :
    defaultCellForType H col = H.xxh3 s := by
  unfold defaultLiteral at h
  unfold defaultCellForType
  cases hd : col.default with
  | none =>
    simp only [hd] at h ⊢
    exact typeDefaultCell_of_literal h
  | some text =>
    simp only [hd] at h ⊢
    cases hq : quotedInner (trimChars text.toList) with
    | some inner =>
      simp only [hq] at h ⊢
      cases h
      rfl
    | none =>
      simp only [hq] at h ⊢
      cases hi : parseI64 (String.ofList (trimChars text.toList)) with
      | some n => simp [hi] at h
      | none =>
        cases hf : H.parseF64 (String.ofList (trimChars text.toList)) with
        | some bits => simp [hi, hf] at h
        | none =>
          simp only [hi, hf] at h ⊢
          split at h
          · cases h
          · next hnull =>
            rw [if_neg hnull]
            exact typeDefaultCell_of_literal h

/-- A literal without a doubled quote goes to the sidecar as it is. -/
def isPlainLiteral (v : String) : Bool :=
  match literalOf v with
  | some s => !hasPair '\'' '\'' s.toList
  | none => false

theorem literalOf_of_isPlainLiteral {v : String} (h : isPlainLiteral v = true) :
    literalOf v = some (sidecarText v) := by
  unfold isPlainLiteral at h
  cases hl : literalOf v with
  | none => rw [hl] at h; cases h
  | some s =>
    rw [hl] at h
    unfold literalOf at hl
    split at hl
    · next inner hinner =>
      cases hl
      have hpair : hasPair '\'' '\'' inner = false := by simpa using h
      unfold sidecarText
      rw [isNullText_of_quotedInner hinner, extractStringLiteral_of_quotedInner hinner,
        replacePair_of_not_hasPair hpair]
      rfl
    · cases hl

/-! ## The cells hash what was written -/

/-- The cells of a column hash the literals recorded for it. -/
structure CellsFollow (H : Host) (col : List UInt64) (ls : List (Option String)) : Prop where
  length : ls.length = col.length
  hash : ∀ (r : Nat) (s : String), ls[r]? = some (some s) → col[r]? = some (H.xxh3 s)

/-- The literals recorded for a table are parallel to its cells, and the cells hash them. -/
structure Follows (H : Host) (t : Table) (lits : Lits) : Prop where
  parallel : t.Parallel
  schema : ∀ s, t.schema = some s → s.columns.length = t.columns.length
  length : lits.length = t.columns.length
  cells : ∀ (c : Nat) (col : List UInt64) (ls : List (Option String)),
    t.columns[c]? = some col → lits[c]? = some ls → CellsFollow H col ls

theorem CellsFollow.append {col col' : List UInt64} {ls ls' : List (Option String)}
    (h : CellsFollow H col ls) (h' : CellsFollow H col' ls') :
    CellsFollow H (col ++ col') (ls ++ ls') where
  length := by rw [length_append, length_append, h.length, h'.length]
  hash := by
    intro r s hr
    rw [getElem?_append] at hr ⊢
    rw [h.length] at hr
    split at hr
    · next hlt =>
      rw [if_pos hlt]
      exact h.hash r s hr
    · next hlt =>
      rw [if_neg hlt]
      exact h'.hash _ s hr

theorem cellsFollow_map {vs : List String} :
    CellsFollow H (vs.map (cellOf H)) (vs.map literalOf) where
  length := by simp
  hash := by
    intro r s hr
    rw [getElem?_map] at hr ⊢
    obtain ⟨v, hv, hlit⟩ := map_eq_some_iff.mp hr
    rw [hv, map_some, cellOf_of_literalOf hlit]

theorem cellsFollow_replicate :
    CellsFollow H (List.replicate n (defaultCellForType H col))
      (List.replicate n (defaultLiteral H col)) where
  length := by simp
  hash := by
    intro r s hr
    rw [getElem?_replicate] at hr ⊢
    split at hr
    · next hlt =>
      rw [if_pos hlt, defaultCell_of_literal (Option.some.inj hr)]
    · cases hr

theorem CellsFollow.keepRows :
    ∀ {mask : List Bool} {col : List UInt64} {ls : List (Option String)},
      CellsFollow H col ls → CellsFollow H (keepRows mask col) (keepRows mask ls)
  | mask, [], [], h => ⟨by simp [TensorVault.keepRows], by simp [TensorVault.keepRows]⟩
  | [], col, ls, h => ⟨by simp [TensorVault.keepRows], by simp [TensorVault.keepRows]⟩
  | m :: mask, x :: col, l :: ls, h => by
    have htail : CellsFollow H col ls :=
      ⟨by simpa using h.length, fun r s hr => h.hash (r + 1) s hr⟩
    have ih : CellsFollow H (TensorVault.keepRows mask col) (TensorVault.keepRows mask ls) :=
      htail.keepRows
    cases m with
    | true => simpa [TensorVault.keepRows] using ih
    | false =>
      have hhead : CellsFollow H [x] [l] :=
        ⟨rfl, fun r s hr => by
          cases r with
          | zero => exact h.hash 0 s hr
          | succ r => simp at hr⟩
      simpa [TensorVault.keepRows] using hhead.append ih
  | _ :: _, [], _ :: _, h => by simpa using h.length
  | _ :: _, _ :: _, [], h => by simpa using h.length

/-! ## The statements on the literals -/

structure LitStore where
  store : Store
  lits : String → Lits

/-- The writes of an UPDATE with the value texts in the place of the cells. -/
def litWrites (mask : List Bool) (pairs : List (Nat × String)) : List (Nat × Nat × Nat × String) :=
  (matchedRows mask).flatMap fun row => pairs.map fun p => (p.1, row, p)

def insertLits (lits : Lits) (ws : List (Nat × String)) : Lits :=
  applyWrites (fun v ls => ls ++ [literalOf v]) lits ws

def updateLits (lits : Lits) (ws : List (Nat × Nat × Nat × String)) : Lits :=
  applyWrites (fun w ls => ls.set w.1 (literalOf w.2.2)) lits ws

def deleteLits (lits : Lits) (mask : List Bool) : Lits :=
  if mask.count true = 0 then lits else lits.map (keepRows mask)

/-- The literals of the altered table. -/
def alterLits (H : Host) (t : Table) (lits : Lits) : AlterAction → Lits
  | .addColumn col => lits ++ [List.replicate t.rowCount (defaultLiteral H col)]
  | .dropColumn name =>
    match t.columnIdx name with
    | some idx => lits.eraseIdx idx
    | none => lits
  | .alterColumnType _ _ => lits

/-- The table whose literals a statement changes, and its literals afterwards. -/
def litsAfter (H : Host) (s : LitStore) : Statement → Option (String × Lits)
  | .ddl (.create ct) =>
    if (s.store.catalog.get (fullName ct.schema ct.name)).isSome then none
    else some (fullName ct.schema ct.name, ct.columns.map fun _ => [])
  | .ddl (.alterTable at_) =>
    match s.store.catalog.get (fullName at_.schema at_.name) with
    | some t => some (fullName at_.schema at_.name,
        alterLits H t (s.lits (fullName at_.schema at_.name)) at_.action)
    | none => none
  | .ddl _ => none
  | .dml (.insert ins) =>
    match s.store.catalog.get ins.table with
    | some t =>
      match insertColumnIndices t ins.columns with
      | .ok colIndices =>
        some (ins.table, insertLits (s.lits ins.table) (cellWrites colIndices ins.values))
      | .error _ => none
    | none => none
  | .dml (.update upd) =>
    match s.store.catalog.get upd.table with
    | some t =>
      match matchMask H t upd.whereClause with
      | .ok mask => some (upd.table,
          updateLits (s.lits upd.table) (litWrites mask (resolvedAssigns t upd.assignments)))
      | _ => none
    | none => none
  | .dml (.delete del) =>
    match s.store.catalog.get del.table with
    | some t =>
      match matchMask H t del.whereClause with
      | .ok mask => some (del.table, deleteLits (s.lits del.table) mask)
      | _ => none
    | none => none
  | .merge _ => none

namespace LitStore

def new : LitStore where
  store := Store.new
  lits _ := []

/-- A statement that succeeds, on the store and on the literals. -/
def step (H : Host) (s : LitStore) (stmt : Statement) : Option LitStore :=
  match s.store.step H stmt with
  | none => none
  | some store =>
    match litsAfter H s stmt with
    | none => some { s with store := store }
    | some (name, ls) =>
      some { store := store, lits := fun key => if key = name then ls else s.lits key }

end LitStore

/-! ## Every statement keeps `Follows` -/

section

variable {H : Host} {t : Table} {lits : Lits} {idx : Nat} {ws : List (Nat × String)}
  {mask : List Bool}

theorem follows_createdTable {ct : CreateTable} :
    Follows H (createdTable ct) (ct.columns.map fun _ => []) where
  parallel := wellFormed_createdTable.toParallel
  schema := by
    intro s hs
    cases hs
    simp [createdTable, TableSchema.fromDdl]
  length := by simp [createdTable]
  cells := by
    intro c col ls hcol hls
    simp only [createdTable, getElem?_map] at hcol hls
    obtain ⟨_, _, rfl⟩ := map_eq_some_iff.mp hcol
    obtain ⟨_, _, rfl⟩ := map_eq_some_iff.mp hls
    exact ⟨rfl, by simp⟩

theorem Follows.addColumn (h : Follows H t lits) :
    Follows H (addColumn H t col)
      (lits ++ [List.replicate t.rowCount (defaultLiteral H col)]) where
  parallel := parallel_addColumn h.parallel
  schema := by
    intro s hs
    obtain ⟨s₀, hs₀, rfl⟩ := map_eq_some_iff.mp hs
    simp [TensorVault.addColumn, h.schema s₀ hs₀]
  length := by simp [TensorVault.addColumn, h.length]
  cells := by
    intro c cells ls hcells hls
    simp only [TensorVault.addColumn] at hcells
    rw [getElem?_append] at hcells hls
    rw [h.length] at hls
    split at hcells
    · next hlt =>
      rw [if_pos hlt] at hls
      exact h.cells c cells ls hcells hls
    · next hge =>
      rw [if_neg hge] at hls
      rw [getElem?_singleton] at hcells hls
      split at hcells
      · next hzero =>
        rw [if_pos hzero] at hls
        cases hcells
        cases hls
        exact cellsFollow_replicate
      · cases hcells

theorem Follows.removeColumn (h : Follows H t lits) :
    Follows H (removeColumn t idx) (lits.eraseIdx idx) where
  parallel := parallel_removeColumn h.parallel
  schema := by
    intro s hs
    obtain ⟨s₀, hs₀, rfl⟩ := map_eq_some_iff.mp hs
    simp only [TensorVault.removeColumn, length_eraseIdx, h.schema s₀ hs₀]
  length := by simp only [TensorVault.removeColumn, length_eraseIdx, h.length]
  cells := by
    intro c cells ls hcells hls
    simp only [TensorVault.removeColumn] at hcells
    rw [getElem?_eraseIdx] at hcells hls
    split at hcells
    · next hlt =>
      rw [if_pos hlt] at hls
      exact h.cells c cells ls hcells hls
    · next hge =>
      rw [if_neg hge] at hls
      exact h.cells (c + 1) cells ls hcells hls

theorem Follows.retypeColumn (h : Follows H t lits) : Follows H (retypeColumn t idx ty) lits where
  parallel := { h.parallel with }
  schema := by
    intro s hs
    obtain ⟨s₀, hs₀, rfl⟩ := map_eq_some_iff.mp hs
    rw [length_modify]
    exact h.schema s₀ hs₀
  length := h.length
  cells := h.cells

theorem insertLits_getElem? {c : Nat} :
    (insertLits lits ws)[c]? = lits[c]?.map fun ls => ls ++ (at_ c ws).map literalOf := by
  have hfold : ∀ (vs : List String) (ls : List (Option String)),
      vs.foldl (fun ls v => ls ++ [literalOf v]) ls = ls ++ vs.map literalOf := by
    intro vs
    induction vs with
    | nil => simp
    | cons v vs ih =>
      intro ls
      rw [foldl_cons, ih, map_cons, append_assoc, singleton_append]
  unfold insertLits
  simp only [applyWrites_getElem?, hfold]

theorem Follows.inserted (h : Follows H t lits) (hws : ∀ w ∈ ws, w.1 < t.columns.length) :
    Follows H (insertedTable H t ws n) (insertLits lits ws) where
  parallel := parallel_insertedTable h.parallel hws
  schema := by
    intro s hs
    rw [length_insertedTable_columns]
    exact h.schema s hs
  length := by
    unfold insertLits
    rw [length_applyWrites, length_insertedTable_columns, h.length]
  cells := by
    intro c col ls hcol hls
    rw [insertedTable_columns] at hcol
    obtain ⟨col₀, hcol₀, rfl⟩ := map_eq_some_iff.mp hcol
    rw [insertLits_getElem?] at hls
    obtain ⟨ls₀, hls₀, rfl⟩ := map_eq_some_iff.mp hls
    exact (h.cells c col₀ ls₀ hcol₀ hls₀).append cellsFollow_map

theorem updateLits_getElem? (lits : Lits) (mask : List Bool) (pairs : List (Nat × String))
    (c : Nat) : (updateLits lits (litWrites mask pairs))[c]? = lits[c]?.map fun ls =>
      applyWrites (fun p _ => literalOf p.2) ls
        ((matchedRows mask).flatMap fun row => (pairsTo c pairs).map fun p => (row, p)) := by
  have hset : ∀ (us : List (Nat × Nat × String)) (ls : List (Option String)),
      us.foldl (fun ls w => ls.set w.1 (literalOf w.2.2)) ls =
        applyWrites (fun p _ => literalOf p.2) ls us := by
    intro us ls
    unfold applyWrites
    simp only [set_eq_modify]
  have hat := at_flatMap_key (matchedRows mask) pairs Prod.fst c
  unfold updateLits litWrites
  rw [applyWrites_getElem?, hat]
  simp only [hset]
  rfl

/-- The literal of a row after UPDATE: the last assignment decides in a matched row. -/
theorem updatedLits_getElem? {pairs : List (Nat × String)} {c r : Nat} {ls : List (Option String)} :
    (applyWrites (fun p _ => literalOf p.2) ls
      ((matchedRows mask).flatMap fun row => (pairsTo c pairs).map fun p => (row, p)))[r]? =
      ls[r]?.map fun l => if r ∈ matchedRows mask then
        ((pairsTo c pairs).getLast?.map fun p => literalOf p.2).getD l else l := by
  rw [applyWrites_getElem?, at_flatMap_map nodup_matchedRows]
  congr 1
  funext l
  rw [Writes.foldl_const]
  split <;> simp

theorem Follows.updated (h : Follows H t lits) (mask : List Bool) (pairs : List (Nat × String)) :
    Follows H (updatedTable t (updateWrites mask (pairs.map (toAssign H))))
      (updateLits lits (litWrites mask pairs)) where
  parallel := parallel_updatedTable h.parallel
  schema := by
    intro s hs
    rw [length_updatedTable_columns]
    exact h.schema s hs
  length := by
    unfold updateLits
    rw [length_applyWrites, length_updatedTable_columns, h.length]
  cells := by
    intro c col ls hcol hls
    rw [updatedTable_columns] at hcol
    obtain ⟨col₀, hcol₀, rfl⟩ := map_eq_some_iff.mp hcol
    rw [updateLits_getElem?] at hls
    obtain ⟨ls₀, hls₀, rfl⟩ := map_eq_some_iff.mp hls
    have hold := h.cells c col₀ ls₀ hcol₀ hls₀
    refine ⟨by rw [length_applyWrites, length_applyWrites, hold.length], fun r s hr => ?_⟩
    rw [updatedLits_getElem?] at hr
    rw [updatedColumn_getElem?, assignsTo_map_toAssign]
    obtain ⟨l, hl, hlit⟩ := map_eq_some_iff.mp hr
    have hlt : r < col₀.length := by
      rw [← hold.length]
      exact (List.getElem?_eq_some_iff.mp hl).1
    cases hlast : (pairsTo c pairs).getLast? with
    | none =>
      have hlit' : l = some s := by simpa [hlast] using hlit
      simp only [getLast?_map, hlast, map_none, getD_none, ite_self, Option.map_id']
      exact hold.hash r s (by rw [hl, hlit'])
    | some p =>
      by_cases hmatch : r ∈ matchedRows mask
      · have hlit' : literalOf p.2 = some s := by simpa [hlast, hmatch] using hlit
        rw [getElem?_eq_getElem hlt]
        simp [hlast, hmatch, toAssign, cellOf_of_literalOf hlit']
      · have hlit' : l = some s := by simpa [hmatch] using hlit
        simp only [hmatch, if_false, Option.map_id']
        exact hold.hash r s (by rw [hl, hlit'])

theorem Follows.deleted (h : Follows H t lits) :
    Follows H (deletedTable t mask) (lits.map (keepRows mask)) where
  parallel := parallel_deletedTable h.parallel
  schema := by
    intro s hs
    simp only [deletedTable, length_map]
    exact h.schema s hs
  length := by simp [deletedTable, h.length]
  cells := by
    intro c col ls hcol hls
    simp only [deletedTable, getElem?_map] at hcol hls
    obtain ⟨col₀, hcol₀, rfl⟩ := map_eq_some_iff.mp hcol
    obtain ⟨ls₀, hls₀, rfl⟩ := map_eq_some_iff.mp hls
    exact (h.cells c col₀ ls₀ hcol₀ hls₀).keepRows

end

end TensorVault
