import TensorVault.Engine.Ordering
import TensorVault.Tpch.Interpreter

/-!
# ORDER BY on the three execution paths

The interpreter sorts by all keys, but each key is the double whose bits are the cell of the result:
the hash of a text, or the bits of an integer. Doubles with the sign bit are ordered by their
magnitude downwards, so negative integers come out in the reverse order.

* `ResultOrder.applyOrderBy2_eq`, `ResultOrder.applyOrderByGrouped_eq` — the rows the interpreter
returns
* `orderBy_listed_iff` — for which rows the dispatcher, the basic executor and the interpreter
  return what ORDER BY and LIMIT ask for
-/

namespace TensorVault

open Text Sorting List

/-- The cell that stands for a value: the bits of an integer, the hash of a text. -/
def SortValue.cell (H : Host) : SortValue → UInt64
  | int n => cellOfInt n
  | text s => H.xxh3 s

namespace Tpch

def sortValue2 : SortValue → Value2
  | .int n => .int n
  | .text s => .str s

/-! ## Keys -/

/-- An ORDER BY key with its values in the rows of a result. -/
structure ResultKey where
  expr : Expr2
  ascending : Bool
  value : Nat → SortValue

/-- A result that is to be ordered, where each key is a column of the result or an expression with
the given values in the rows of the table. -/
structure ResultOrder (M : Machine) (ev : Evaluator) (t : ExecTable) where
  result : QueryResult
  indices : List Nat
  keys : List ResultKey
  limit : Option Nat
  reads : ∀ k ∈ keys, ∀ i < result.rowCount,
    match keyColumn M.host result k.expr with
    | some c => c.values.getD i 0 = (k.value i).cell M.host
    | none => ev k.expr t (indices.getD i 0) = pure (sortValue2 (k.value i))

namespace ResultOrder

variable {M : Machine} {ev : Evaluator} {t : ExecTable} (r : ResultOrder M ev t)

def orderBy : List (Expr2 × Bool) := r.keys.map fun k => (k.expr, k.ascending)

/-- The double the interpreter sorts by: the cell of the result with its bits, or the value of the
expression as a double. -/
def bits (k : ResultKey) (i : Nat) : UInt64 :=
  match keyColumn M.host r.result k.expr with
  | some _ => (k.value i).cell M.host
  | none => ((sortValue2 (k.value i)).asF64 M.host).getD 0

/-- The order ORDER BY asks for. -/
def keysLe : Nat → Nat → Bool := lexOn SortValue.le (r.keys.map fun k => (k.value, k.ascending))

/-- The order of the interpreter. -/
def bitsLe : Nat → Nat → Bool :=
  lexOn (fun a b : Int => decide (a ≤ b))
    (r.keys.map fun k => (fun i => Binary64.totalRank (r.bits k i), k.ascending))

/-- The rows of the result that are returned. -/
def returned : List Nat :=
  ((List.range r.result.rowCount).mergeSort r.bitsLe).take (r.limit.getD r.result.rowCount)

end ResultOrder

variable {α : Type} {qr : QueryResult}

/-- The comparison of the interpreter is the lexicographic one. -/
theorem keysLe_eq {f : α → Nat → UInt64} {ascending : α → Bool} {keys : List α} {a b : Nat} :
    Tpch.keysLe ((keys.map (f · a)).zip ((keys.map (f · b)).zip (keys.map ascending))) =
      lexOn (fun a b : Int => decide (a ≤ b))
        (keys.map fun k => (fun i => Binary64.totalRank (f k i), ascending k)) a b := by
  induction keys with
  | nil => rfl
  | cons k keys ih =>
    simp only [map_cons, zip_cons_cons, Tpch.keysLe, lexOn, directed, ih]
    generalize Binary64.totalRank (f k a) = x
    generalize Binary64.totalRank (f k b) = y
    rcases Int.lt_trichotomy x y with h | rfl | h
    · have h₁ : x ≠ y := by omega
      have h₂ : x ≤ y := by omega
      have h₃ : ¬y ≤ x := by omega
      have h₄ : ¬y < x := by omega
      cases ascending k <;> simp [h, h₁, h₂, h₃, h₄]
    · cases ascending k <;> simp
    · have h₁ : x ≠ y := by omega
      have h₂ : y ≤ x := by omega
      have h₃ : ¬x ≤ y := by omega
      have h₄ : ¬x < y := by omega
      cases ascending k <;> simp [h, h₁, h₂, h₃, h₄]

/-! ## Rows of a sorted result -/

/-- The rows of a result whose columns are read in another order. -/
theorem rows_reorder {qr R : QueryResult} {order : List Nat}
    (hcolumns : R.columns.map ResultColumn.values =
      qr.columns.map fun c => order.map fun i => c.values.getD i 0)
    (hcount : R.rowCount = order.length) : R.rows = order.map qr.row := by
  have hfs : R.columns.map ResultColumn.values =
      (qr.columns.map fun c i => c.values.getD i 0).map fun f => order.map f := by
    rw [hcolumns, map_map]
    rfl
  rw [QueryResult.rows_of_columns hfs hcount]
  simp [QueryResult.row, Function.comp_def]

theorem limitResult_rows {limit : Option Nat} :
    (limitResult qr limit).rows = qr.rows.take (limit.getD qr.rowCount) := by
  cases limit with
  | none => simp [limitResult, QueryResult.rows]
  | some n =>
    rw [limitResult]
    split
    · next h =>
      refine ext_getElem (by simp [QueryResult.rows]; omega) fun i h₁ h₂ => ?_
      have hi : i < n := by simpa [QueryResult.rows] using h₁
      simp only [QueryResult.rows, getElem_map, getElem_range, getElem_take,
        QueryResult.row, map_map]
      refine map_congr_left fun c _ => ?_
      simp [getD_eq_getElem?_getD, hi]
    · next h =>
      exact (take_of_length_le (by simp [QueryResult.rows]; omega)).symm

theorem sortRows_rows {directions : List Bool} {keys : Nat → List UInt64}
    {code : Nat → Nat → Bool} (h : ∀ a < qr.rowCount, ∀ b < qr.rowCount,
      Tpch.keysLe ((keys a).zip ((keys b).zip directions)) = code a b) :
    (sortRows qr directions keys).rows = ((List.range qr.rowCount).mergeSort code).map qr.row := by
  have horder : ((List.range qr.rowCount).mergeSort fun a b =>
      Tpch.keysLe ((keys a).zip ((keys b).zip directions))) =
        (List.range qr.rowCount).mergeSort code :=
    mergeSort_congr fun a ha b hb => h a (mem_range.mp ha) b (mem_range.mp hb)
  refine rows_reorder (by simp [sortRows, horder, Function.comp_def]) ?_
  simp [sortRows]

namespace ResultOrder

variable {M : Machine} {ev : Evaluator} {t : ExecTable} (r : ResultOrder M ev t) {i : Nat}

theorem orderKey_eq {k : ResultKey} (hk : k ∈ r.keys) (hi : i < r.result.rowCount) :
    orderKey M ev t r.result r.indices i k.expr = pure (r.bits k i) := by
  have hreads := r.reads k hk i hi
  unfold orderKey bits
  cases hcol : keyColumn M.host r.result k.expr with
  | some c =>
    simp only [hcol] at hreads
    simp only [hreads]
  | none =>
    simp only [hcol] at hreads
    simp only [hreads]
    rfl

/-- Without a second row, or without keys, there is nothing to sort. -/
theorem mergeSort_few (h : r.orderBy.isEmpty = true ∨ r.result.rowCount ≤ 1) :
    (List.range r.result.rowCount).mergeSort r.bitsLe = List.range r.result.rowCount := by
  rcases h with h | h
  · have hkeys : r.keys = [] := by simpa [orderBy] using h
    rw [bitsLe, hkeys]
    exact mergeSort_true _
  · exact mergeSort_short (by simpa using h)

/-- The rows of a result that are returned, once it is sorted. -/
theorem rows_eq {R : QueryResult} (hcount : R.rowCount = r.result.rowCount)
    (hrows : R.rows = ((List.range r.result.rowCount).mergeSort r.bitsLe).map r.result.row) :
    (limitResult R r.limit).rows = r.returned.map r.result.row := by
  rw [limitResult_rows, hrows, hcount, returned, map_take]

theorem mapM_orderKey (hi : i < r.result.rowCount) :
    (r.orderBy.map (·.1)).mapM (orderKey M ev t r.result r.indices i) =
      pure (r.keys.map (r.bits · i)) := by
  rw [orderBy, map_map, mapM_map]
  exact mapM_eq_pure fun k hk => r.orderKey_eq hk hi

/-- `apply_order_by`. -/
theorem applyOrderBy2_eq : ∃ R, applyOrderBy2 M ev t r.result r.orderBy r.indices = pure R ∧
    (limitResult R r.limit).rows = r.returned.map r.result.row := by
  unfold applyOrderBy2
  by_cases hfew : r.orderBy.isEmpty = true ∨ r.result.rowCount ≤ 1
  · rw [if_pos hfew]
    refine ⟨r.result, rfl, r.rows_eq rfl ?_⟩
    rw [r.mergeSort_few hfew]
    rfl
  · rw [if_neg hfew]
    rw [mapM_eq_pure fun i hi => r.mapM_orderKey (mem_range.mp hi), pure_bind]
    refine ⟨_, rfl, r.rows_eq rfl ?_⟩
    refine sortRows_rows fun a ha b hb => ?_
    have hdirections : r.orderBy.map (·.2) = r.keys.map ResultKey.ascending := by simp [orderBy]
    have hget : ∀ i < r.result.rowCount, ((List.range r.result.rowCount).map fun row =>
        r.keys.map (r.bits · row)).getD i [] = r.keys.map (r.bits · i) := fun i hi => by simp [hi]
    rw [hdirections, hget a ha, hget b hb]
    exact keysLe_eq

/-- `apply_order_by_grouped`, where all keys are columns of the result. -/
theorem applyOrderByGrouped_eq
    (hcolumns : ∀ k ∈ r.keys, (keyColumn M.host r.result k.expr).isSome = true) :
    (limitResult (applyOrderByGrouped M.host r.result r.orderBy) r.limit).rows =
      r.returned.map r.result.row := by
  unfold applyOrderByGrouped
  by_cases hfew : r.orderBy.isEmpty = true ∨ r.result.rowCount ≤ 1
  · rw [if_pos hfew]
    refine r.rows_eq rfl ?_
    rw [r.mergeSort_few hfew]
    rfl
  · rw [if_neg hfew]
    refine r.rows_eq rfl (sortRows_rows fun a ha b hb => ?_)
    have hdirections : r.orderBy.map (·.2) = r.keys.map ResultKey.ascending := by simp [orderBy]
    have hbits : ∀ i < r.result.rowCount, (r.orderBy.map fun p =>
        ((keyColumn M.host r.result p.1).map fun c => c.values.getD i 0).getD 0) =
        r.keys.map (r.bits · i) := by
      intro i hi
      rw [orderBy, map_map]
      refine map_congr_left fun k hk => ?_
      obtain ⟨c, hc⟩ := Option.isSome_iff_exists.mp (hcolumns k hk)
      have hreads := r.reads k hk i hi
      simp only [hc] at hreads
      simp only [Function.comp_apply, bits, hc, Option.map_some, Option.getD_some, hreads]
    rw [hdirections, hbits a ha, hbits b hb]
    exact keysLe_eq

end ResultOrder

/-! ## All paths -/

/-- Each path returns the first rows of a sort by its own comparison, and these are the first rows
by the ORDER BY keys exactly if the ORDER BY keys agree with this comparison: with the first key,
integers as unsigned numbers, in the dispatcher (with nothing for `SELECT *`); with the cells of the
first key, among the first rows only, in the basic executor; with the doubles that have the bits of
the cells in the interpreter. -/
theorem orderBy_listed_iff (H : Host) (K : Kernels) (ext : Sql.QueryExtensions) (M : Machine)
    (ev : Evaluator) (t : ExecTable) :
    (∀ d : DispatchedQuery H,
      executeShape H K (classifyQuery H d.query) d.query d.table =
        .ok (answer d.table d.items d.returned) ∧
      (Listed (d.table.keysLe d.orderBy) d.rows d.returned d.limit ↔
        Agrees (d.table.keysLe d.orderBy) (d.table.dispatchLe d.items d.orderBy) d.rows d.limit)) ∧
    (∀ b : BasicQuery H K,
      (∃ R, executeBasic H K ext b.query b.table = .ok R ∧
        R.rows = (answer b.table b.items b.returned).rows) ∧
      (Listed (b.table.keysLe b.orderBy) b.rows b.returned b.limit ↔
        AgreesFirst (b.table.keysLe b.orderBy) (b.table.basicLe b.orderBy) b.rows b.limit)) ∧
    (∀ r : ResultOrder M ev t,
      (∃ R, applyOrderBy2 M ev t r.result r.orderBy r.indices = pure R ∧
        (limitResult R r.limit).rows = r.returned.map r.result.row) ∧
      ((∀ k ∈ r.keys, (keyColumn M.host r.result k.expr).isSome = true) →
        (limitResult (applyOrderByGrouped M.host r.result r.orderBy) r.limit).rows =
          r.returned.map r.result.row) ∧
      (Listed r.keysLe (List.range r.result.rowCount) r.returned r.limit ↔
        Agrees r.keysLe r.bitsLe (List.range r.result.rowCount) r.limit)) := by
  refine ⟨fun d => ⟨d.executeShape_eq, ?_⟩, fun b => ⟨b.executeBasic_eq, ?_⟩,
    fun r => ⟨r.applyOrderBy2_eq, r.applyOrderByGrouped_eq, ?_⟩⟩
  · exact listed_mergeSort_iff (SortValue.le_totalPreorder.lexOn _)
      dispatchLe_totalPreorder d.rows_sorted d.limit
  · exact listed_mergeSort_take_iff (SortValue.le_totalPreorder.lexOn _)
      (TotalPreorder.linear.lexOn _) (filterIndices_sorted b.rows_eq).1 b.limit
  · have hrows : (List.range r.result.rowCount).Pairwise (· < ·) := pairwise_lt_range
    have hlisted := listed_mergeSort_iff
      (SortValue.le_totalPreorder.lexOn (r.keys.map fun k => (k.value, k.ascending)))
      (TotalPreorder.linear.lexOn (r.keys.map fun k =>
        (fun i => Binary64.totalRank (r.bits k i), k.ascending))) hrows r.limit
    rw [length_range] at hlisted
    exact hlisted

/-! ## Negative integers -/

theorem mergeSort_pair {r : α → α → Bool} {a b : α} :
    [a, b].mergeSort r = if r a b then [a, b] else [b, a] := by
  rw [List.mergeSort]
  simp [List.merge]

/-- A table with one integer column. -/
def integers (cells : List UInt64) : Table where
  name := "t"
  columns := [cells]
  columnNames := ["a"]
  rowCount := cells.length
  stringColumns := [none]
  nullBitmaps := [none]
  schema :=
    some { columns := [{ name := "a", colType := .int, notNull := false, primaryKey := false }] }

theorem wellFormed_integers {cells : List UInt64} : (integers cells).WellFormed where
  names := rfl
  strings := rfl
  nulls := rfl
  cells := by simp [integers]
  bitmaps := by simp [integers]
  sidecars := by simp [integers]

theorem not_listed_swapped {le : Nat → Nat → Bool} (h : le 1 0 = false) :
    ¬Listed le [0, 1] [1, 0] none := by
  rintro ⟨s, hperm, hsorted, hs⟩
  rw [Option.getD_none, take_length] at hs
  rw [← hs] at hsorted
  have := (pairwise_cons.mp hsorted).1 0 (mem_singleton_self 0)
  exact absurd (this.symm.trans h) (by decide)

/-- `SELECT a FROM t ORDER BY a` on a table with two rows. -/
def orderedIntegers (cells : List UInt64) : DispatchedQuery Host.ascii where
  table := integers cells
  items := [.column "a"]
  source := "t"
  filter := none
  orderBy := [("a", true)]
  limit := none
  mask := List.replicate cells.length true
  wellFormed := wellFormed_integers
  shows := ⟨by simp, by
    intro item hitem
    obtain rfl := mem_singleton.mp hitem
    exact ⟨0, by simp [integers], rfl⟩⟩
  ordersBy := by
    intro p hp
    obtain rfl := mem_singleton.mp hp
    exact ⟨0, by simp [integers], rfl⟩
  mask_eq := rfl
  mask_length := by simp [integers]

/-- The same query for the basic executor. -/
def basicIntegers (cells : List UInt64) : BasicQuery Host.ascii .unsupported where
  table := integers cells
  items := [.column "a"]
  source := "t"
  filter := none
  orderBy := [("a", true)]
  limit := none
  clause := .all
  rows := List.range cells.length
  wellFormed := wellFormed_integers
  shows := ⟨(orderedIntegers cells).shows, by
    intro name hname
    obtain rfl := Sql.SelectItem.column.inj (mem_singleton.mp hname)
    rfl⟩
  key_shown := by
    intro p hp
    obtain rfl := mem_singleton.mp hp
    exact mem_singleton.mpr rfl
  clause_eq := rfl
  rows_eq := rfl

/-- A result with the rows -2 and -1, to be ordered by its column. -/
def negativeResult : ResultOrder Machine.plain (fun _ _ _ => throw .panic)
    (ExecTable.ofResult Host.ascii .empty "t") where
  result :=
    { columns := [{ name := "a", values := [cellOfInt (-2), cellOfInt (-1)], stringValues := none,
                    typeOid := 0, nullMask := none }]
      rowCount := 2 }
  indices := [0, 1]
  keys := [{ expr := .col "a", ascending := true, value := fun i => .int (i - 2) }]
  limit := none
  reads := by
    intro k hk i hi
    obtain rfl := mem_singleton.mp hk
    match i, hi with
    | 0, _ => rfl
    | 1, _ => rfl

/-- Of -1 and 1 the dispatcher and the basic executor return 1 first, and of -2 and -1 the
interpreter returns -1 first. -/
theorem negative_integers_misordered :
    (executeShape Host.ascii .unsupported
        (classifyQuery Host.ascii (orderedIntegers [cellOfInt (-1), 1]).query)
        (orderedIntegers [cellOfInt (-1), 1]).query (integers [cellOfInt (-1), 1]) =
        .ok (answer (integers [cellOfInt (-1), 1]) [.column "a"] [1, 0]) ∧
      (∃ R, executeBasic Host.ascii .unsupported ⟨none⟩ (basicIntegers [cellOfInt (-1), 1]).query
          (integers [cellOfInt (-1), 1]) = .ok R ∧
        R.rows = (answer (integers [cellOfInt (-1), 1]) [.column "a"] [1, 0]).rows) ∧
      ¬Listed ((integers [cellOfInt (-1), 1]).keysLe [("a", true)]) [0, 1] [1, 0] none) ∧
    (applyOrderByGrouped Host.ascii negativeResult.result negativeResult.orderBy).rows =
        [[cellOfInt (-1)], [cellOfInt (-2)]] ∧
      ¬Listed negativeResult.keysLe [0, 1] [1, 0] none := by
  have hdispatched : (orderedIntegers [cellOfInt (-1), 1]).returned = [1, 0] := by
    have hrows : (orderedIntegers [cellOfInt (-1), 1]).rows = [0, 1] := by decide +kernel
    rw [DispatchedQuery.returned, hrows, mergeSort_pair, if_neg (by decide +kernel)]
    rfl
  have hbasic : (basicIntegers [cellOfInt (-1), 1]).returned = [1, 0] := by
    have hrows : List.take ((basicIntegers [cellOfInt (-1), 1]).limit.getD 2)
        (basicIntegers [cellOfInt (-1), 1]).rows = [0, 1] := rfl
    exact (congrArg (mergeSort · _) hrows).trans (mergeSort_pair.trans (if_neg (by decide +kernel)))
  have hreturned : negativeResult.returned = [1, 0] := by
    have hrows : List.range negativeResult.result.rowCount = [0, 1] := rfl
    rw [ResultOrder.returned, hrows, mergeSort_pair, if_neg (by decide +kernel)]
    rfl
  refine ⟨⟨?_, ?_, not_listed_swapped (by decide +kernel)⟩, ?_,
    not_listed_swapped (by decide +kernel)⟩
  · rw [← hdispatched]
    exact (orderedIntegers [cellOfInt (-1), 1]).executeShape_eq
  · rw [← hbasic]
    exact (basicIntegers [cellOfInt (-1), 1]).executeBasic_eq
  · have hrows := negativeResult.applyOrderByGrouped_eq (by
      intro k hk
      obtain rfl := mem_singleton.mp hk
      decide +kernel)
    rw [hreturned] at hrows
    exact hrows

end Tpch

end TensorVault
