import Mathlib.Data.List.Basic
import TensorVault.Basic

/-!
# The index manager

`IndexManager` keeps three maps: the index entries by table and column, the names of the named
indexes, and for each indexed column the rows of every value. `CREATE INDEX` fills the last one
from the cells the column has at that moment; nothing updates it afterwards.
-/

namespace TensorVault

open List

structure IndexEntry where
  cardinality : Nat
  name : Option String
  deriving DecidableEq, Repr

/-- Row numbers by value, as `build_hash_index` collects them. -/
abbrev HashIndex := UInt64 → Option (List Nat)

@[ext] structure IndexManager where
  indexes : String → String → Option IndexEntry
  byName : String → Option (String × String)
  hashData : String → String → Option HashIndex

/-- One entry of the loop of `build_hash_index`: row `i` holds `v`. -/
def HashIndex.push (m : HashIndex) (w : UInt64 × Nat) : HashIndex := fun v =>
  if v = w.1 then some ((m v).getD [] ++ [w.2]) else m v

/-- The map `build_hash_index` makes of the cells of a column. -/
def buildHashIndex (values : List UInt64) : HashIndex :=
  values.zipIdx.foldl HashIndex.push fun _ => none

/-- Overwrite one key of a map with two-part keys. -/
def setKey {α : Type} (m : String → String → Option α) (table column : String) (x : Option α) :
    String → String → Option α :=
  fun t c => if t = table ∧ c = column then x else m t c

namespace IndexManager

def new : IndexManager where
  indexes _ _ := none
  byName _ := none
  hashData _ _ := none

/-- `create_named` followed by `build_hash_index`, as `CREATE INDEX` calls them. -/
def createNamed (im : IndexManager) (name table column : String) (values : List UInt64) :
    IndexManager where
  indexes := setKey im.indexes table column
    (some { cardinality := values.eraseDups.length, name := some name })
  byName n := if n = name then some (table, column) else im.byName n
  hashData := setKey im.hashData table column (some (buildHashIndex values))

/-- `IndexManager::drop`. -/
def drop (im : IndexManager) (table column : String) : IndexManager :=
  match im.indexes table column with
  | none => im
  | some entry =>
    { indexes := setKey im.indexes table column none
      byName := fun n => if some n = entry.name then none else im.byName n
      hashData := setKey im.hashData table column none }

/-- `drop_by_name`, with `none` when there is no such name. -/
def dropByName (im : IndexManager) (name : String) : Option IndexManager :=
  match im.byName name with
  | none => none
  | some (table, column) =>
    some
      { indexes := setKey im.indexes table column none
        byName := fun n => if n = name then none else im.byName n
        hashData := setKey im.hashData table column none }

def hasIndex (im : IndexManager) (table column : String) : Bool :=
  (im.indexes table column).isSome

/-- `IndexManager::lookup`: the rows that held `value` when the index was built. -/
def lookup (im : IndexManager) (table column : String) (value : UInt64) : Option (List Nat) :=
  match im.hashData table column with
  | some m => m value
  | none => none

end IndexManager

/-! ## What the built map holds -/

/-- The rows of `v`, in order. -/
def rowsOf (v : UInt64) (values : List UInt64) : List Nat :=
  (List.range values.length).filter fun i => values[i]? = some v

variable {values : List UInt64} {v : UInt64}

theorem rowsOf_concat {w : UInt64} :
    rowsOf v (values ++ [w]) = rowsOf v values ++ if v = w then [values.length] else [] := by
  unfold rowsOf
  rw [length_append, length_singleton, range_succ, filter_append]
  congr 1
  · refine filter_congr fun i hi => ?_
    rw [getElem?_append_left (mem_range.mp hi)]
  · by_cases hvw : v = w
    · simp [hvw]
    · simp [hvw, Ne.symm hvw]

/-- The built map gives a value its rows, and has no entry for a value without rows. -/
theorem buildHashIndex_apply :
    buildHashIndex values v = if rowsOf v values = [] then none else some (rowsOf v values) := by
  induction values using List.reverseRecOn with
  | nil => rfl
  | append_singleton values w ih =>
    have hbuild : buildHashIndex (values ++ [w]) =
        (buildHashIndex values).push (w, values.length) := by
      unfold buildHashIndex
      rw [zipIdx_append, foldl_append]
      simp
    rw [hbuild, rowsOf_concat]
    unfold HashIndex.push
    by_cases hvw : v = w
    · subst hvw
      simp only [if_true, ih]
      by_cases hnil : rowsOf v values = [] <;> simp [hnil]
    · simp [hvw, ih]

end TensorVault
