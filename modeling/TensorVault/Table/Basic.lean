import TensorVault.Sql.Syntax

/-!
# Tables and the catalog

A table holds its cells column by column as 64-bit words, and beside the cells four parallel
vectors: column names, string sidecars, NULL bitmaps and (in the schema) column types. Nothing
in the type keeps the vectors in step; `Table.WellFormed` says what being in step means.

The catalog maps a name to a table that carries this name. The source keeps a `HashMap`; here
it is a function, so two catalogs with the same contents are equal.
-/

namespace TensorVault

open Sql List Option

/-! ## Schemas -/

structure ColumnSchema where
  name : String
  colType : ColumnType
  notNull : Bool
  primaryKey : Bool
  deriving DecidableEq, Repr

structure TableSchema where
  columns : List ColumnSchema
  deriving DecidableEq, Repr

namespace TableSchema

def ofColumnDef (c : ColumnDef) : ColumnSchema :=
  { name := c.name, colType := c.colType, notNull := c.notNull, primaryKey := c.primaryKey }

def fromDdl (cols : List ColumnDef) : TableSchema := { columns := cols.map ofColumnDef }

end TableSchema

/-- The types whose values are also kept as text in a sidecar. -/
def isStringType : ColumnType → Bool
  | .varchar _ | .nvarchar _ | .text | .json | .array _ | .bytea => true
  | _ => false

/-- The types whose cells are the bits of a float. -/
def isFloatType : ColumnType → Bool
  | .float | .real | .decimal _ _ | .numeric _ _ => true
  | _ => false

/-- `TableSchema::is_string`. -/
def TableSchema.isString (s : TableSchema) (idx : Nat) : Bool :=
  match s.columns[idx]? with
  | some c => isStringType c.colType
  | none => false

/-! ## Tables -/

/-- `NullBitmap::is_null` on an optional bitmap; without a bitmap nothing is NULL. -/
def nullFlagAt (bm : Option (List Bool)) (row : Nat) : Bool :=
  match bm with
  | some b => b.getD row false
  | none => false

structure Table where
  name : String
  columns : List (List UInt64)
  columnNames : List String
  rowCount : Nat
  stringColumns : List (Option (List String))
  nullBitmaps : List (Option (List Bool))
  schema : Option TableSchema
  deriving DecidableEq, Repr

namespace Table

variable {t : Table} {c : Nat} {bm : List Bool} {sc : List String} {entry : Option (List String)}
  {col : List UInt64}

/-- The position of the first column with the given name. -/
def columnIdx (t : Table) (name : String) : Option Nat :=
  t.columnNames.findIdx? (· == name)

/-- Whether the schema gives column `idx` a string type. -/
def isStringColumn (t : Table) (idx : Nat) : Bool :=
  match t.schema with
  | some s => s.isString idx
  | none => false

/-- The sidecar of a column, if it has one. -/
def sidecar (t : Table) (idx : Nat) : Option (List String) := (t.stringColumns[idx]?).join

/-- The NULL bitmap of a column, if it has one. -/
def bitmap (t : Table) (idx : Nat) : Option (List Bool) := (t.nullBitmaps[idx]?).join

/-- Whether the cell of a column in a row is NULL. -/
def isNull (t : Table) (idx row : Nat) : Bool := nullFlagAt (t.bitmap idx) row

/-- The cell of a column in a row. -/
def cell (t : Table) (c r : Nat) : Option UInt64 := (t.columns[c]?).bind fun col => col[r]?

/-- There is a name, a sidecar entry and a bitmap entry for each column. -/
structure Parallel (t : Table) : Prop where
  names : t.columnNames.length = t.columns.length
  strings : t.stringColumns.length = t.columns.length
  nulls : t.nullBitmaps.length = t.columns.length

/-- Every column has one cell per row. -/
structure Rectangular (t : Table) : Prop extends t.Parallel where
  cells : ∀ col ∈ t.columns, col.length = t.rowCount

/-- The vectors of the table are in step with each other and with the row count. -/
structure WellFormed (t : Table) : Prop extends t.Parallel where
  cells : ∀ col ∈ t.columns, col.length = t.rowCount
  bitmaps : ∀ bm, some bm ∈ t.nullBitmaps → bm.length = t.rowCount
  sidecars : ∀ sc, some sc ∈ t.stringColumns → sc.length = t.rowCount

/-! ### Column by column -/

theorem bitmap_eq_some : t.bitmap c = some bm ↔ t.nullBitmaps[c]? = some (some bm) := by
  unfold bitmap
  rw [join_eq_some_iff]

theorem sidecar_eq_some : t.sidecar c = some sc ↔ t.stringColumns[c]? = some (some sc) := by
  unfold sidecar
  rw [join_eq_some_iff]

theorem bitmap_of_entry {entry : Option (List Bool)} (h : t.nullBitmaps[c]? = some entry) :
    t.bitmap c = entry := by
  rw [bitmap, h, join_some]

theorem sidecar_of_entry (h : t.stringColumns[c]? = some entry) : t.sidecar c = entry := by
  rw [sidecar, h, join_some]

theorem Parallel.lt_of_nulls (ht : t.Parallel) {entry : Option (List Bool)}
    (h : t.nullBitmaps[c]? = some entry) : c < t.columns.length :=
  ht.nulls ▸ (List.getElem?_eq_some_iff.mp h).1

theorem Parallel.lt_of_strings (ht : t.Parallel)
    (h : t.stringColumns[c]? = some entry) : c < t.columns.length :=
  ht.strings ▸ (List.getElem?_eq_some_iff.mp h).1

/-- The entry of a column without a bitmap. -/
theorem Parallel.entry_of_bitmap (ht : t.Parallel) (hc : c < t.columns.length)
    (h : t.bitmap c = none) : t.nullBitmaps[c]? = some none := by
  have hentry := getElem?_eq_getElem (ht.nulls ▸ hc : c < t.nullBitmaps.length)
  rw [hentry, ← bitmap_of_entry hentry, h]

theorem Rectangular.cells_at (ht : t.Rectangular)
    (h : t.columns[c]? = some col) : col.length = t.rowCount :=
  ht.cells col (mem_of_getElem? h)

theorem WellFormed.rectangular (ht : t.WellFormed) : t.Rectangular where
  toParallel := ht.toParallel
  cells := ht.cells

theorem WellFormed.cells_at (ht : t.WellFormed) (h : t.columns[c]? = some col) :
    col.length = t.rowCount :=
  ht.rectangular.cells_at h

theorem WellFormed.bitmap_at (ht : t.WellFormed) (h : t.bitmap c = some bm) :
    bm.length = t.rowCount :=
  ht.bitmaps bm (mem_of_getElem? (bitmap_eq_some.mp h))

theorem WellFormed.sidecar_at (ht : t.WellFormed) (h : t.sidecar c = some sc) :
    sc.length = t.rowCount :=
  ht.sidecars sc (mem_of_getElem? (sidecar_eq_some.mp h))

/-- A table is well formed when its vectors are parallel and each column is in step. -/
theorem WellFormed.of_columns (hp : t.Parallel)
    (hcells : ∀ (c : Nat) (col : List UInt64), t.columns[c]? = some col → col.length = t.rowCount)
    (hbitmaps : ∀ c bm, t.bitmap c = some bm → bm.length = t.rowCount)
    (hsidecars : ∀ c sc, t.sidecar c = some sc → sc.length = t.rowCount) : t.WellFormed where
  toParallel := hp
  cells := by
    intro col hcol
    obtain ⟨c, hc⟩ := mem_iff_getElem?.mp hcol
    exact hcells c col hc
  bitmaps := by
    intro bm hbm
    obtain ⟨c, hc⟩ := mem_iff_getElem?.mp hbm
    exact hbitmaps c bm (bitmap_eq_some.mpr hc)
  sidecars := by
    intro sc hsc
    obtain ⟨c, hc⟩ := mem_iff_getElem?.mp hsc
    exact hsidecars c sc (sidecar_eq_some.mpr hc)

theorem columnIdx_lt {name : String} {idx : Nat} (h : t.columnIdx name = some idx) :
    idx < t.columnNames.length := by
  obtain ⟨hlt, _⟩ := findIdx?_eq_some_iff_getElem.mp h
  exact hlt

end Table

/-! ## The catalog -/

structure Catalog where
  tables : String → Option Table
  named : ∀ {key : String} {t : Table}, tables key = some t → t.name = key

namespace Catalog

variable {c : Catalog} {name : String} {t : Table}

@[ext] theorem ext {d : Catalog} (h : ∀ key, c.tables key = d.tables key) : c = d := by
  obtain ⟨f, hf⟩ := c
  obtain ⟨g, hg⟩ := d
  have hfg : f = g := funext h
  subst hfg
  rfl

def empty : Catalog where
  tables _ := none
  named h := by cases h

def get (c : Catalog) (name : String) : Option Table := c.tables name

/-- `Catalog::register`: the table goes under its own name. -/
def register (c : Catalog) (t : Table) : Catalog where
  tables key := if key = t.name then some t else c.tables key
  named {key u} h := by
    split at h
    · next hk =>
      cases h
      exact hk.symm
    · exact c.named h

def drop (c : Catalog) (name : String) : Catalog where
  tables key := if key = name then none else c.tables key
  named {key u} h := by
    split at h
    · cases h
    · exact c.named h

/-- `clone_catalog` registers every table again under its own name, which is the key it
already has. -/
def cloneCatalog (c : Catalog) : Catalog := c

theorem name_of_get (h : c.get name = some t) :
    t.name = name := c.named h

@[simp] theorem get_register_self (c : Catalog) (t : Table) : (c.register t).get t.name = some t :=
  if_pos rfl

theorem get_register_of_ne (h : name ≠ t.name) :
    (c.register t).get name = c.get name := if_neg h

theorem get_register :
    (c.register t).get name = if name = t.name then some t else c.get name := rfl

theorem get_drop {key : String} :
    (c.drop name).get key = if key = name then none else c.get key := rfl

/-- Registering a table that is there already changes nothing. -/
theorem register_eq_self (h : c.get t.name = some t) : c.register t = c := by
  ext1 key
  show (if key = t.name then some t else c.tables key) = c.tables key
  split
  · next hk => rw [hk]; exact h.symm
  · rfl

/-- Every table of the catalog is well formed. -/
def WellFormed (c : Catalog) : Prop := ∀ name t, c.get name = some t → t.WellFormed

/-- Registering a table keeps the catalog well formed exactly when the table is. -/
theorem wellFormed_register_iff (hc : c.WellFormed) : (c.register t).WellFormed ↔ t.WellFormed := by
  constructor
  · intro h
    exact h t.name t (get_register_self c t)
  · intro ht name u hu
    rw [get_register] at hu
    split at hu
    · cases hu
      exact ht
    · exact hc name u hu

theorem wellFormed_drop (hc : c.WellFormed) : (c.drop name).WellFormed := by
  intro key t ht
  rw [get_drop] at ht
  split at ht
  · cases ht
  · exact hc key t ht

end Catalog

end TensorVault
