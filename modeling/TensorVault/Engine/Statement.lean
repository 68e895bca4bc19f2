import TensorVault.Engine.Insert
import TensorVault.Engine.Delete
import TensorVault.Engine.Ddl
import TensorVault.Engine.Merge
import TensorVault.Sql.Ddl
import TensorVault.Lib.Run

/-!
# Statements on tables

The parsed DDL, DML and MERGE statements and their joint effect on what they change outside the
sidecars of versioned tables: the catalog and the index manager. A step of `Store.step` is a
statement that succeeds.
-/

namespace TensorVault

open Sql

/-- `execute_dml`: the new catalog and the number of rows affected. -/
def executeDml (H : Host) (cat : Catalog) : DmlStatement → Outcome (Catalog × Nat)
  | .insert ins => executeInsert H cat ins
  | .update upd => executeUpdate H cat upd
  | .delete del => executeDelete H cat del

inductive Statement where
  | ddl (d : DdlStatement)
  | dml (d : DmlStatement)
  | merge (m : Merge)
  deriving DecidableEq, Repr

/-- The DDL or DML statement of a text, tried in the order the engine tries them. -/
def Statement.parse (H : Host) (sql : String) : Option Statement :=
  match parseDdl H sql with
  | .ok (some d) => some (.ddl d)
  | .ok none =>
    match parseDml H sql with
    | .ok (some d) => some (.dml d)
    | _ => none
  | .error _ => none

@[ext] structure Store where
  catalog : Catalog
  indexes : IndexManager

namespace Store

/-- The one-row table `QueryEngine::new` registers for queries without a table. -/
def dummyTable : Table :=
  { name := "__dummy__"
    columns := [[0]]
    columnNames := ["__dummy_col__"]
    rowCount := 1
    stringColumns := [none]
    nullBitmaps := [none]
    schema := none }

/-- The tables and indexes of `QueryEngine::new`. -/
def new : Store where
  catalog := Catalog.empty.register dummyTable
  indexes := IndexManager.new

def exec (H : Host) (s : Store) : Statement → Outcome Store
  | .ddl d =>
    match executeDdl H s.catalog s.indexes d with
    | .ok (cat, im) => .ok { catalog := cat, indexes := im }
    | .err e => .err e
    | .panic => .panic
  | .dml d =>
    match executeDml H s.catalog d with
    | .ok (cat, _) => .ok { s with catalog := cat }
    | .err e => .err e
    | .panic => .panic
  | .merge m =>
    match executeMergeStmt H s.catalog m with
    | .ok (cat, _) => .ok { s with catalog := cat }
    | .err e => .err e
    | .panic => .panic

/-- A statement that succeeds. -/
def step (H : Host) (s : Store) (stmt : Statement) : Option Store :=
  match s.exec H stmt with
  | .ok s' => some s'
  | _ => none

/-- What a successful statement did, one case per kind of statement. -/
theorem step_eq_some {H : Host} {s s' : Store} {stmt : Statement} (h : s.step H stmt = some s') :
    (∃ d, stmt = .ddl d ∧ executeDdl H s.catalog s.indexes d = .ok (s'.catalog, s'.indexes)) ∨
    (∃ d n, stmt = .dml d ∧ executeDml H s.catalog d = .ok (s'.catalog, n) ∧
      s'.indexes = s.indexes) ∨
    (∃ m n, stmt = .merge m ∧ executeMergeStmt H s.catalog m = .ok (s'.catalog, n) ∧
      s'.indexes = s.indexes) := by
  unfold step exec at h
  cases stmt with
  | ddl d =>
    cases hd : executeDdl H s.catalog s.indexes d with
    | ok p => simp only [hd] at h; cases h; exact .inl ⟨d, rfl, hd⟩
    | err | panic => simp [hd] at h
  | dml d =>
    cases hd : executeDml H s.catalog d with
    | ok p => simp only [hd] at h; cases h; exact .inr (.inl ⟨d, p.2, rfl, hd, rfl⟩)
    | err | panic => simp [hd] at h
  | merge m =>
    cases hm : executeMergeStmt H s.catalog m with
    | ok p => simp only [hm] at h; cases h; exact .inr (.inr ⟨m, p.2, rfl, hm, rfl⟩)
    | err | panic => simp [hm] at h

theorem wellFormed_new : Store.new.catalog.WellFormed := by
  refine (Catalog.wellFormed_register_iff ?_).mpr ?_
  · intro name t ht
    cases ht
  · exact
      { names := rfl, strings := rfl, nulls := rfl
        cells := by simp [dummyTable]
        bitmaps := by simp [dummyTable]
        sidecars := by simp [dummyTable] }

end Store

end TensorVault
