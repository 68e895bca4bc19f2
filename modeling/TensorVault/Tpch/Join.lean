import TensorVault.Lib.ChainTable
import TensorVault.Lib.Multimap
import TensorVault.Tpch.Mask

/-!
# Joins of the TPC-H interpreter

Explicit joins (`hashJoin`) take their keys from the ON condition and test the conjuncts that are no
equality of two columns on every pair with equal keys. Without a key the condition is not looked at.

Tables that are listed in FROM are first filtered by the conjuncts about one table alone, and then
joined on the equalities between them, in an order that depends on estimates: greedily
(`joinTablesGreedy`), or for four to sixteen tables by the cheapest tree of joins (`planJoinDp`).
-/

namespace TensorVault.Tpch

open Text

/-! ## Keys -/

/-- A pair of columns, of the left and of the right table. -/
structure JoinKey2 where
  left : Nat
  right : Nat
  deriving DecidableEq, Repr

/-- The key of an equality between a column of either table. -/
def eqKey (H : Host) (left right : ExecTable) : Expr2 → Option JoinKey2
  | .binOp .eq l r =>
    match left.colIn H l, right.colIn H r with
    | some lk, some rk => some ⟨lk, rk⟩
    | _, _ =>
      match right.colIn H l, left.colIn H r with
      | some rk, some lk => some ⟨lk, rk⟩
      | _, _ => none
  | _ => none

/-- `extract_join_keys` of an ON condition, and `find_join_keys_direct` of a branch of an OR. -/
def joinKeysDirect (H : Host) (left right : ExecTable) (conjuncts : List Expr2) : List JoinKey2 :=
  conjuncts.filterMap (eqKey H left right)

/-- `find_or_common_keys`: the keys that all branches have. -/
def orCommonKeys (H : Host) (left right : ExecTable) (e : Expr2) : List JoinKey2 :=
  match e.disjuncts.map fun branch => joinKeysDirect H left right branch.conjuncts with
  | [] => []
  | first :: rest => first.filter fun key => rest.all (·.contains key)

/-- `find_join_keys`. -/
def findJoinKeys (H : Host) (left right : ExecTable) (conjuncts : List Expr2) : List JoinKey2 :=
  conjuncts.flatMap fun conj =>
    match conj with
    | .binOp .or l r => orCommonKeys H left right (.binOp .or l r)
    | conj => (eqKey H left right conj).toList

/-! ## Explicit joins -/

def isColEq : Expr2 → Bool
  | .binOp .eq (.col _) (.col _) => true
  | _ => false

/-- `expr_refs_table`. -/
def refsTable (H : Host) (e : Expr2) (t : ExecTable) : Bool :=
  e.columns.any fun name =>
    (t.lookupCol H name).isSome || (t.lookupCol H ((ExecTable.shortName name).getD name)).isSome

/-- The table of one pair of rows. The left texts are missing. -/
def pairTable (H : Host) (left right : ExecTable) (l r : Nat) : ExecTable :=
  { ExecTable.ofRows H left right [left.row l ++ right.row r] with
    stringColumns := List.replicate left.columns.length none ++
      right.stringColumns.map fun sc => (sc.bind (·[r]?)).map fun s => [s] }

/-- One conjunct of `eval_non_equi_match`. -/
def conjunctPasses (M : Machine) (ev : Evaluator) (left right : ExecTable) (l r : Nat)
    (conj : Expr2) : Exec Bool := do
  let v ←
    match refsTable M.host conj left, refsTable M.host conj right with
    | false, true => ev conj right r
    | true, false => ev conj left l
    | _, _ => ev conj (pairTable M.host left right l r) 0
  pure v.truthy

/-- `eval_non_equi_match`. -/
def evalNonEquiMatch (M : Machine) (ev : Evaluator) (left right : ExecTable) (nonEqui : List Expr2)
    (l r : Nat) : Exec Bool :=
  nonEqui.allM (conjunctPasses M ev left right l r)

/-- The elements that pass a test. -/
def keepM {α : Type} (test : α → Exec Bool) : List α → Exec (List α)
  | [] => pure []
  | a :: rest => do
    let b ← test a
    let kept ← keepM test rest
    pure (if b then a :: kept else kept)

/-- The partners of a left row in the result. -/
def partners (jt : JoinType2) (matched : List Nat) : List (Option Nat) :=
  if matched.isEmpty then (if jt = .left then [none] else []) else matched.map some

/-- The cells of a pair of rows; a missing partner has zeros. -/
def pairRow (left right : ExecTable) (p : Nat × Option Nat) : List UInt64 :=
  left.row p.1 ++
    match p.2 with
    | some r => right.row r
    | none => List.replicate right.columns.length 0

/-- The key of a row, one cell per key column. -/
def keyCells (t : ExecTable) (cols : List Nat) (r : Nat) : List UInt64 :=
  cols.map fun c => t.cell c r

/-- The pairs of rows with equal keys that pass the other conjuncts. -/
def keyedPairs (M : Machine) (ev : Evaluator) (left right : ExecTable) (on : Expr2)
    (keys : List JoinKey2) (jt : JoinType2) : Exec (List (Nat × Option Nat)) := do
  let nonEqui := on.conjuncts.filter fun c => !isColEq c
  let build := Multimap.ofPairs
    ((List.range right.rowCount).map fun r => (keyCells right (keys.map (·.right)) r, r))
  let perRow ← (List.range left.rowCount).mapM fun l => do
    let found := Multimap.get build (keyCells left (keys.map (·.left)) l)
    let passed ← keepM (evalNonEquiMatch M ev left right nonEqui l) found
    pure ((partners jt passed).map fun r => (l, r))
  pure perRow.flatten

/-- All pairs of rows. -/
def allPairs (left right : ExecTable) : List (Nat × Option Nat) :=
  (List.range left.rowCount).flatMap fun l => (List.range right.rowCount).map fun r => (l, some r)

/-- The pairs of rows `hash_join` puts out. -/
def hashJoinPairs (M : Machine) (ev : Evaluator) (left right : ExecTable) (on : Expr2)
    (jt : JoinType2) : Exec (List (Nat × Option Nat)) :=
  match joinKeysDirect M.host left right on.conjuncts with
  | [] => pure (allPairs left right)
  | keys => keyedPairs M ev left right on keys jt

/-- `hash_join`. -/
def hashJoin (M : Machine) (ev : Evaluator) (left right : ExecTable) (on : Expr2) (jt : JoinType2) :
    Exec ExecTable :=
  match joinKeysDirect M.host left right on.conjuncts with
  | [] => pure (ExecTable.crossJoin M.host left right)
  | keys => do
    let pairs ← keyedPairs M ev left right on keys jt
    pure (ExecTable.ofRows M.host left right (pairs.map (pairRow left right)))

/-! ## Joins on keys -/

/-- `next_power_of_two`. -/
def nextPowerOfTwo (n : Nat) : Nat := if n ≤ 1 then 1 else 2 ^ (Nat.log2 (n - 1) + 1)

/-- The directory slot of a key in a table for the given number of entries. -/
def joinSlot (M : Machine) (entries : Nat) (key : UInt64) : Nat :=
  (M.joinHash key).toNat / 2 ^ (64 - Nat.log2 (max (nextPowerOfTwo (entries * 2)) 16))

/-- `bloom_tag`. -/
def joinTag (M : Machine) (key : UInt64) : UInt16 :=
  UInt16.ofNat ((M.joinHash key).toNat / 2 ^ 16) ||| 1

/-- The bits of a key in a filter for the given number of items. -/
def bloomPositions (M : Machine) (items : Nat) (key : UInt64) : List Nat :=
  let words := nextPowerOfTwo (max ((items * 10 + 63) / 64) 1)
  let h := M.bloomHash key
  [h.1, h.1 + h.2, h.1 + h.2 + h.2].map fun bit =>
    bit.toNat / 64 % words * 64 + bit.toNat % 64

/-- The bytes of a number, the lowest first. -/
def leBytes (v : UInt64) : List UInt8 :=
  (List.range 8).map fun i => UInt8.ofNat (v.toNat / 2 ^ (8 * i))

/-- The key of a row in one word: the cell, or the hash of up to eight cells. -/
def packedKey (M : Machine) (t : ExecTable) (cols : List Nat) (r : Nat) : UInt64 :=
  match cols with
  | [c] => t.cell c r
  | cols => M.xxh3Bytes ((keyCells t (cols.take 8) r).flatMap leBytes)

/-- The build rows that a probe row meets. Row numbers are kept in 32 bits. -/
def probeRows (M : Machine) (buildKeys : List UInt64) (key : UInt64) : List Nat :=
  if (BloomFilter.ofKeys (bloomPositions M buildKeys.length) buildKeys).mightContain key then
    ((ChainTable.ofKeys (joinSlot M buildKeys.length) (joinTag M) buildKeys).probeAll key).map
      (· % 2 ^ 32)
  else []

/-- `hash_join_with_keys`: an inner join builds on the smaller side. -/
def hashJoinWithKeys (M : Machine) (left right : ExecTable) (keys : List JoinKey2)
    (jt : JoinType2) : ExecTable :=
  let leftKey := packedKey M left (keys.map (·.left))
  let rightKey := packedKey M right (keys.map (·.right))
  let pairs : List (Nat × Option Nat) :=
    if jt = .inner ∧ left.rowCount < right.rowCount then
      let buildKeys := (List.range left.rowCount).map leftKey
      (List.range right.rowCount).flatMap fun p =>
        (probeRows M buildKeys (rightKey p)).map fun b => (b, some p)
    else
      let buildKeys := (List.range right.rowCount).map rightKey
      (List.range left.rowCount).flatMap fun p =>
        (partners jt (probeRows M buildKeys (leftKey p))).map fun b => (p, b)
  ExecTable.ofRows M.host left right (pairs.map (pairRow left right))

/-! ## Tables in FROM -/

/-- `expr_table_refs`: the tables an expression reads. A nested query may read all of them. -/
def tableRefs (H : Host) (e : Expr2) (tables : List ExecTable) : List Nat :=
  (List.range tables.length).filter fun i =>
    e.hasNested || e.columns.any fun name =>
      match tables[i]? with
      | some t => (t.lookupCol H name).isSome
      | none => false

/-- One table and one conjunct of `apply_single_table_filters`. -/
def filterStep (M : Machine) (ev : Evaluator) (outer : Outer) (tables : List ExecTable)
    (step : Nat × Expr2) : Exec (List ExecTable) :=
  if tableRefs M.host step.2 tables = [step.1] then
    match tables[step.1]? with
    | some t => do
      let mask ← buildMask M ev outer t step.2
      pure (tables.set step.1 (t.filterTable (maskIndices mask)))
    | none => pure tables
  else pure tables

/-- `apply_single_table_filters`. -/
def applySingleTableFilters (M : Machine) (ev : Evaluator) (outer : Outer)
    (tables : List ExecTable) (conjuncts : List Expr2) : Exec (List ExecTable) :=
  ((List.range tables.length).flatMap fun i => conjuncts.map fun conj => (i, conj)).foldlM
    (filterStep M ev outer) tables

/-- `estimate_distinct`. -/
def estimateDistinct (M : Machine) (col : List UInt64) (n : Nat) : Nat :=
  if n = 0 then 0
  else
    let sample := col.take (min n 10000)
    let filled := ((List.range 256).filter fun b =>
      sample.any fun v => (M.joinHash v).toNat % 256 == b).length
    if 256 ≤ filled then min sample.length n else (M.linearCount filled).toNat

/-- `saturating_mul` of `u64`. -/
def saturatingMul (a b : Nat) : Nat := min (a * b) (2 ^ 64 - 1)

/-- The estimated size of a join in `join_tables_greedy_core`. -/
def estimateOutput (M : Machine) (left right : ExecTable) (keys : List JoinKey2) : Nat :=
  keys.foldl (fun est k =>
    saturatingMul (saturatingMul est left.rowCount) right.rowCount /
      max (max (estimateDistinct M (left.columns.getD k.left []) left.rowCount)
        (estimateDistinct M (right.columns.getD k.right []) right.rowCount)) 1) 1

/-- The table to start with: the smallest that can be joined with another one. -/
def greedyStart (H : Host) (tables : List ExecTable) (conjuncts : List Expr2) : Nat :=
  (tables.zipIdx.foldl (fun (best : Nat × Nat) p =>
    if p.1.rowCount < best.2 ∧ (tables.zipIdx.any fun q =>
        q.2 != p.2 && !(findJoinKeys H p.1 q.1 conjuncts).isEmpty) then (p.2, p.1.rowCount)
    else best) (0, 2 ^ 64 - 1)).1

/-- The next table to join, with its keys: the one with the smallest estimate. -/
def greedyNext (M : Machine) (joined : ExecTable) (tables : List ExecTable)
    (conjuncts : List Expr2) : Nat × List JoinKey2 :=
  let best := tables.zipIdx.foldl (fun (best : Nat × List JoinKey2 × Nat) p =>
    let keys := findJoinKeys M.host joined p.1 conjuncts
    if keys.isEmpty then best
    else
      let est := estimateOutput M joined p.1 keys
      if est < best.2.2 then (p.2, keys, est) else best) (0, [], 2 ^ 64 - 1)
  (best.1, best.2.1)

/-- The loop of `join_tables_greedy_core`; there is one round per table. -/
def greedyLoop (M : Machine) (conjuncts : List Expr2) : Nat → ExecTable → List ExecTable → ExecTable
  | 0, joined, _ => joined
  | fuel + 1, joined, tables =>
    let (i, keys) := greedyNext M joined tables conjuncts
    match tables[i]? with
    | none => joined
    | some right =>
      let next := if keys.isEmpty then ExecTable.crossJoin M.host joined right
        else hashJoinWithKeys M joined right keys .inner
      greedyLoop M conjuncts fuel next (tables.eraseIdx i)

/-- `join_tables_greedy_core`. -/
def joinTablesGreedy (M : Machine) (tables : List ExecTable) (conjuncts : List Expr2) :
    Exec ExecTable :=
  match tables with
  | [] => throw (.error (.other "join_tables_greedy_core: no tables"))
  | [t] => pure t
  | tables =>
    let start := greedyStart M.host tables conjuncts
    match tables[start]? with
    | none => throw .panic
    | some first =>
      pure (greedyLoop M conjuncts (tables.length - 1) first (tables.eraseIdx start))

/-! ### The cheapest tree of joins -/

structure DPEntry where
  cost : UInt64
  cardinality : UInt64
  /-- The two sets of tables that are joined; `none` for a single table. -/
  partition : Option (Nat × Nat)

/-- The tables of a set. -/
def members (n mask : Nat) : List Nat := (List.range n).filter fun i => mask.testBit i

/-- The selectivity of the keys between two tables. -/
def pairSelectivity (M : Machine) (tables : List ExecTable) (keys : Nat → Nat → List JoinKey2)
    (i j : Nat) : UInt64 :=
  let distinct (i c : Nat) : UInt64 :=
    match tables[i]? with
    | some t => Binary64.ofNat (estimateDistinct M (t.columns.getD c []) t.rowCount)
    | none => 0
  (keys i j).foldl (fun sel k =>
    M.div sel (Binary64.max (Binary64.max (distinct i k.left) (distinct j k.right))
      0x3FF0000000000000)) 0x3FF0000000000000

/-- The keys between two of the tables, from the lower to the higher number. -/
def pairKeys (H : Host) (tables : List ExecTable) (conjuncts : List Expr2) (i j : Nat) :
    List JoinKey2 :=
  match tables[i]?, tables[j]? with
  | some a, some b =>
    if i < j then findJoinKeys H a b conjuncts
    else (findJoinKeys H b a conjuncts).map fun k => ⟨k.right, k.left⟩
  | _, _ => []

/-- The entry for joining two sets, if there is a key between them and it is cheaper. -/
def betterEntry (M : Machine) (n : Nat) (nkeys : Nat → Nat → Nat) (sel : Nat → Nat → UInt64)
    (dp : Nat → Option DPEntry) (mask : Nat) (best : Option DPEntry) (sub : Nat) : Option DPEntry :=
  let other := mask ^^^ sub
  match dp sub, dp other with
  | some l, some r =>
    let pairs := (members n sub).flatMap fun i => (members n other).map fun j => (i, j)
    let totalKeys := (pairs.map fun p => nkeys p.1 p.2).sum
    let totalSel := pairs.foldl (fun acc p =>
      if nkeys p.1 p.2 = 0 then acc else M.mul acc (sel p.1 p.2)) 0x3FF0000000000000
    if sub < other ∧ totalKeys ≠ 0 then
      let card :=
        M.mul (M.powf (M.mul l.cardinality r.cardinality) (Binary64.ofNat totalKeys)) totalSel
      let cost := M.add (M.add (M.add (M.add l.cost r.cost) l.cardinality) r.cardinality) card
      -- f64::MAX is the cost to beat at first
      if Binary64.lt cost ((best.map (·.cost)).getD 0x7FEFFFFFFFFFFFFF) then
        some ⟨cost, card, some (sub, other)⟩
      else best
    else best
  | _, _ => best

/-- The table of `plan_join_dp`, filled set by set. -/
def dpTable (M : Machine) (tables : List ExecTable) (conjuncts : List Expr2) :
    Nat → Option DPEntry :=
  let n := tables.length
  let nkeys i j := (pairKeys M.host tables conjuncts i j).length
  let sel := pairSelectivity M tables (pairKeys M.host tables conjuncts)
  let base : Nat → Option DPEntry := fun mask =>
    ((List.range n).find? fun i => mask == 2 ^ i).bind fun i =>
      (tables[i]?).map fun t => ⟨0, Binary64.ofNat t.rowCount, none⟩
  (List.range (2 ^ n)).foldl (fun dp mask =>
    if (members n mask).length < 2 then dp
    else
      let subs := (List.range mask).reverse.filter fun sub => sub != 0 && sub &&& mask == sub
      match subs.foldl (betterEntry M n nkeys sel dp mask) none with
      | some entry => fun m => if m = mask then some entry else dp m
      | none => dp) base

/-- `execute_dp_plan`. The sets of a partition are smaller numbers than the set. -/
def executeDpPlan (M : Machine) (tables : List ExecTable) (conjuncts : List Expr2)
    (dp : Nat → Option DPEntry) : Nat → Nat → Exec ExecTable
  | 0, _ => throw .panic
  | fuel + 1, mask =>
    match dp mask with
    | none => throw .panic
    | some ⟨_, _, none⟩ =>
      match (members tables.length mask).head?.bind (tables[·]?) with
      | some t => pure t
      | none => throw .panic
    | some ⟨_, _, some (l, r)⟩ => do
      let left ← executeDpPlan M tables conjuncts dp fuel l
      let right ← executeDpPlan M tables conjuncts dp fuel r
      match findJoinKeys M.host left right conjuncts with
      | [] => pure (ExecTable.crossJoin M.host left right)
      | keys => pure (hashJoinWithKeys M left right keys .inner)

/-- `plan_join_dp`. -/
def planJoinDp (M : Machine) (ev : Evaluator) (outer : Outer) (tables : List ExecTable)
    (whereClause : Option Expr2) : Exec ExecTable := do
  let conjuncts := Expr2.splitConjuncts whereClause
  let tables ← applySingleTableFilters M ev outer tables conjuncts
  let n := tables.length
  if n < 4 ∨ 16 < n then joinTablesGreedy M tables conjuncts
  else
    let dp := dpTable M tables conjuncts
    match dp (2 ^ n - 1) with
    | none => joinTablesGreedy M tables conjuncts
    | some _ => executeDpPlan M tables conjuncts dp (2 ^ n) (2 ^ n - 1)

end TensorVault.Tpch
