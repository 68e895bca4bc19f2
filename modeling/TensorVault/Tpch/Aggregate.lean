import TensorVault.Tpch.Correlation

/-!
# Aggregates, GROUP BY and ORDER BY in the TPC-H interpreter

Rows are grouped by a hash of their keys (`keyHash`). There are three ways to a result:
`tryLowCardGrouped` keeps one accumulator per group and aggregate in a flat vector and shows the
hash as the key; `fusedGroupedAgg` and `evalAggExpr` work on the rows of a group.

A COUNT of a column counts the cells that are not 0. ORDER BY compares the cells of the result as
doubles, in the total order of their bits.
-/

namespace TensorVault.Tpch

open Text

variable (M : Machine) (ev : Evaluator) (t : ExecTable)

/-! ## Patterns of expressions -/

def Expr2.isOne : Expr2 → Bool
  | .int n => n == 1
  | .float bits => Binary64.eq bits 0x3FF0000000000000
  | _ => false

/-- `col_in_sub_one_right`: the column of `1 - col`. -/
def subOne (H : Host) : Expr2 → Option Nat
  | .binOp .sub one e => if one.isOne then t.colIn H e else none
  | _ => none

/-- `col_in_add_one_right`: the column of `1 + col`. -/
def addOne (H : Host) : Expr2 → Option Nat
  | .binOp .add one e => if one.isOne then t.colIn H e else none
  | _ => none

/-- Two optional columns together. -/
def both (a b : Option Nat) : Option (Nat × Nat) := a.bind fun x => b.map fun y => (x, y)

/-- `col_in_mul_sub_one`: the columns of `a * (1 - b)`; in the other order they are exchanged. -/
def mulSubOne (H : Host) : Expr2 → Option (Nat × Nat)
  | .binOp .mul l r =>
    match both (t.colIn H l) (subOne t H r) with
    | some p => some p
    | none => both (subOne t H l) (t.colIn H r)
  | _ => none

/-- `col_in_mul_sub_one_add_one`: the columns of `(1 - b) * (1 + c)`, in either order. -/
def mulSubOneAddOne (H : Host) : Expr2 → Option (Nat × Nat)
  | .binOp .mul l r =>
    match both (subOne t H l) (addOne t H r) with
    | some p => some p
    | none => both (subOne t H r) (addOne t H l)
  | _ => none

def isFloatCol (c : Nat) : Bool := t.colTypes[c]? == some .float

/-! ## Sums -/

/-- The sum of doubles, from the left. -/
def sumF64 (values : List UInt64) : UInt64 := values.foldl M.add 0

/-- A cell as a double: its bits in a float column, else the unsigned number. -/
def cellF64 (c r : Nat) : UInt64 :=
  if isFloatCol t c then t.cell c r else Binary64.ofNat (t.cell c r).toNat

/-- 1 - x and 1 + x. -/
def oneMinus (x : UInt64) : UInt64 := M.sub 0x3FF0000000000000 x

def onePlus (x : UInt64) : UInt64 := M.add 0x3FF0000000000000 x

/-- The double of an expression in each of the rows; `default` where there is none. -/
def evalF64s (e : Expr2) (indices : List Nat) : Exec (List (Option UInt64)) :=
  indices.mapM fun i => do
    let v ← ev e t i
    pure (v.asF64 M.host)

/-- The fallback of `sum_vec`: what is no number is left out. -/
def sumRows (e : Expr2) (indices : List Nat) : Exec Value2 := do
  let values ← evalF64s M ev t e indices
  pure (.float (sumF64 M (values.filterMap id)))

/-- The sum over the rows of an operation on a column and an expression. -/
def sumWith (op : UInt64 → UInt64 → UInt64) (c : Nat) (e : Expr2) (indices : List Nat) :
    Exec Value2 := do
  if e.hasCol then
    let values ← evalF64s M ev t e indices
    pure (.float (sumF64 M ((indices.zip values).map fun p => op (cellF64 t c p.1) (p.2.getD 0))))
  else
    let v ← evalConst ev t e
    let f := (v.asF64 M.host).getD 0
    pure (.float (sumF64 M (indices.map fun i => op (cellF64 t c i) f)))

/-- The sum over the rows of an operation on two columns. -/
def sumCols (op : UInt64 → UInt64 → UInt64) (a b : Nat) (indices : List Nat) : Value2 :=
  let cell (c i : Nat) : UInt64 :=
    if isFloatCol t a && isFloatCol t b then t.cell c i else Binary64.ofNat (t.cell c i).toNat
  .float (sumF64 M (indices.map fun i => op (cell a i) (cell b i)))

/-- The products `sum_vec` has a loop of its own for. -/
def sumProduct (l r : Expr2) (indices : List Nat) : Option Value2 :=
  let H := M.host
  let float (cols : List Nat) : Bool := cols.all (isFloatCol t)
  let sum (f : Nat → UInt64) : Value2 := .float (sumF64 M (indices.map f))
  let dot : Option Value2 := do
    let (a, b) ← both (t.colIn H l) (t.colIn H r)
    let f ← M.bf16Dot
    if float [a, b] then
      pure (.float (f (indices.map (t.cell a)) (indices.map (t.cell b))))
    else none
  let discounted (cols : Option (Nat × Nat)) : Option Value2 := do
    let (a, b) ← cols
    if float [a, b] then pure (sum fun i => M.mul (t.cell a i) (oneMinus M (t.cell b i))) else none
  let charged : Option Value2 := do
    let a ← t.colIn H l
    let (b, c) ← mulSubOneAddOne t H r
    if float [a, b, c] then
      pure (sum fun i =>
        M.mul (M.mul (t.cell a i) (oneMinus M (t.cell b i))) (onePlus M (t.cell c i)))
    else none
  -- in the second pattern the source takes the column of `1 - col` for the factor
  dot <|> discounted (both (t.colIn H l) (subOne t H r)) <|>
    discounted (both (subOne t H l) (t.colIn H r)) <|> charged

/-- `sum_vec`. -/
def sumVec (e : Expr2) (indices : List Nat) : Exec Value2 :=
  match e with
  | .col name =>
    match t.lookupCol M.host name with
    | none => throw (.noColumn name)
    | some c => do
      match ← typedColumn t c with
      | .float => pure (.float (sumF64 M (indices.map (t.cell c))))
      | .int => pure (.int (indices.foldl (fun acc i => wrap64 (acc + signedOf (t.cell c i))) 0))
      | _ => pure (.int 0)
  | .binOp .mul l r =>
    match sumProduct M t l r indices with
    | some v => pure v
    | none =>
      match t.colIn M.host l, t.colIn M.host r with
      | some a, some b => pure (sumCols M t M.mul a b indices)
      | some a, none => sumWith M ev t M.mul a r indices
      | none, some b => sumWith M ev t (fun x y => M.mul y x) b l indices
      | none, none => sumRows M ev t e indices
  | .binOp .sub l r =>
    match t.colIn M.host l, t.colIn M.host r with
    | none, some b => do
      let v ← evalConst ev t l
      let f := (v.asF64 M.host).getD 0
      pure (.float (sumF64 M (indices.map fun i => M.sub f (cellF64 t b i))))
    | some a, none => sumWith M ev t M.sub a r indices
    | _, _ => sumRows M ev t e indices
  | .binOp .add l r =>
    match t.colIn M.host l, t.colIn M.host r with
    | some a, some b => pure (sumCols M t M.add a b indices)
    | _, _ => sumRows M ev t e indices
  | e => sumRows M ev t e indices

/-! ## Minimum and maximum -/

/-- The best of the values so far. -/
def bestOf {α : Type} (pick : α → α → α) (values : List α) : Option α :=
  values.foldl (fun best v => some (match best with | none => v | some b => pick b v)) none

/-- `minmax_vec`. Integers are compared as integers, other expressions as doubles. -/
def minmaxVec (isMin : Bool) (e : Expr2) (indices : List Nat) : Exec Value2 := do
  let floats (values : List UInt64) : Value2 :=
    ((bestOf (if isMin then Binary64.min else Binary64.max) values).map Value2.float).getD .null
  match t.colIn M.host e with
  | some c =>
    match ← typedColumn t c with
    | .float => pure (floats (indices.map (t.cell c)))
    | _ => pure (((bestOf (if isMin then min else max)
        (indices.map fun i => signedOf (t.cell c i))).map Value2.int).getD .null)
  | none => do
    let values ← evalF64s M ev t e indices
    pure (floats (values.filterMap id))

/-! ## DISTINCT -/

/-- The text by which values are told apart. -/
def distinctKey : Value2 → Option (Sum Int (Sum UInt64 String))
  | .int n => some (.inl n)
  | .float bits => some (.inr (.inl bits))
  | .str s => some (.inr (.inr s))
  | _ => none

/-- The first of the values with the same text. -/
def distinctValues (values : List Value2) : List Value2 :=
  values.foldl (fun acc v =>
    if acc.any fun w => distinctKey w == distinctKey v then acc else acc ++ [v]) []

/-- An aggregate of different values: `sum_values`, `avg_values`, `min_values`, `max_values`. -/
def aggregateValues (func : AggFunc) (values : List Value2) : Value2 :=
  let floats := values.filterMap (Value2.asF64 M.host)
  match func with
  | .count | .countDistinct => .int values.length
  | .sum =>
    if values.all Value2.isInt then
      .int (values.foldl (fun acc v => wrap64 (acc + v.asI64.getD 0)) 0)
    else .float (sumF64 M floats)
  | .avg =>
    if floats.isEmpty then .null
    else .float (M.div (sumF64 M floats) (Binary64.ofNat floats.length))
  | .min => ((bestOf Binary64.min floats).map Value2.float).getD .null
  | .max => ((bestOf Binary64.max floats).map Value2.float).getD .null

/-! ## Aggregates over the rows of a group -/

/-- The `Debug` text of a value distinguishes all values. -/
def countDistinctRows (e : Expr2) (indices : List Nat) : Exec Value2 := do
  match t.colIn M.host e with
  | some c => pure (.int (firsts (indices.map (t.cell c))).length)
  | none => do
    let values ← indices.mapM (ev e t)
    pure (.int (firsts values).length)

/-- One aggregate of `eval_agg_expr`. -/
def evalAgg (func : AggFunc) (arg : Expr2) (distinct : Bool) (indices : List Nat) : Exec Value2 :=
  if distinct then do
    let values ← indices.mapM (ev arg t)
    pure (aggregateValues M func (distinctValues values))
  else
    match func with
    | .count =>
      match t.colIn M.host arg with
      -- cells that are 0 are not counted
      | some c => pure (.int ((indices.filter fun i => t.cell c i != 0).length : Nat))
      | none => pure (.int (indices.length : Nat))
    | .countDistinct => countDistinctRows M ev t arg indices
    | .sum => sumVec M ev t arg indices
    | .avg => do
      let sum ← sumVec M ev t arg indices
      if indices.isEmpty then pure .null
      else pure (.float (M.div ((sum.asF64 M.host).getD 0) (Binary64.ofNat indices.length)))
    | .min => minmaxVec M ev t true arg indices
    | .max => minmaxVec M ev t false arg indices

/-- An expression without aggregates: its value in the first row of the group. -/
def evalFirst (e : Expr2) : List Nat → Exec Value2
  | [] => pure .null
  | i :: _ => ev e t i

mutual

/-- `eval_agg_expr`. -/
def evalAggExpr (indices : List Nat) : Expr2 → Exec Value2
  | .countStar => pure (.int (indices.length : Nat))
  | .agg func arg distinct => evalAgg M ev t func arg distinct indices
  | .binOp op l r =>
    if l.hasAgg || r.hasAgg then do
      let lv ← evalAggExpr indices l
      let rv ← evalAggExpr indices r
      pure (lv.binop M op rv)
    else evalFirst ev t (.binOp op l r) indices
  | .caseWhen whens otherwise =>
    if (whens.any fun p => p.1.hasAgg) || otherwise.any Expr2.hasAgg then do
      match ← evalAggWhens indices whens with
      | some v => pure v
      | none => evalAggElse indices otherwise
    else evalFirst ev t (.caseWhen whens otherwise) indices
  | .neg e =>
    if e.hasAgg then do
      let v ← evalAggExpr indices e
      pure v.negate
    else evalFirst ev t (.neg e) indices
  | e => evalFirst ev t e indices

/-- The first branch whose condition is true. -/
def evalAggWhens (indices : List Nat) : List (Expr2 × Expr2) → Exec (Option Value2)
  | [] => pure none
  | (cond, result) :: rest => do
    let cv ← evalAggExpr indices cond
    if cv.truthy then do
      let v ← evalAggExpr indices result
      pure (some v)
    else evalAggWhens indices rest

def evalAggElse (indices : List Nat) : Option Expr2 → Exec Value2
  | none => pure .null
  | some e => evalAggExpr indices e

end

/-! ## Plans for whole select lists -/

/-- What the fast paths know how to compute. -/
inductive GroupPlan where
  | groupByCol (c : Nat)
  | countAll
  | sumCol (a : Nat)
  | sumColCol (a b : Nat)
  | sumColSubOne (a b : Nat)
  | sumColSubOneAddOne (a b c : Nat)
  | avgCol (a : Nat)
  | minCol (a : Nat)
  | maxCol (a : Nat)
  deriving DecidableEq, Repr

/-- A plan whose columns have to be floats. -/
def floatPlan (cols : List Nat) (plan : GroupPlan) : Option GroupPlan :=
  if cols.all (isFloatCol t) then some plan else none

/-- The plan of a SUM of a column or of one of the two products. -/
def sumPlan (H : Host) (arg : Expr2) : Option GroupPlan :=
  match t.colIn H arg with
  | some a => floatPlan t [a] (.sumCol a)
  | none =>
    match arg with
    | .binOp .mul l r =>
      match both (t.colIn H l) (t.colIn H r), both (t.colIn H l) (subOne t H r),
        both (subOne t H l) (t.colIn H r) with
      | some (a, b), _, _ => floatPlan t [a, b] (.sumColCol a b)
      | _, some (a, b), _ => floatPlan t [a, b] (.sumColSubOne a b)
      | _, _, some (a, b) => floatPlan t [a, b] (.sumColSubOne a b)
      | _, _, _ => none
    | _ => none

/-- The SUM of `a * (1 - b) * (1 + c)`; the low-cardinality path knows one of the two ways to put
the parentheses. -/
def chargePlan (H : Host) (eitherWay : Bool) : Expr2 → Option GroupPlan
  | .binOp .mul l r =>
    match mulSubOne t H l with
    | some (a, b) => (addOne t H r).bind fun c => floatPlan t [a, b, c] (.sumColSubOneAddOne a b c)
    | none =>
      if eitherWay then do
        let a ← t.colIn H l
        let (b, c) ← mulSubOneAddOne t H r
        floatPlan t [a, b, c] (.sumColSubOneAddOne a b c)
      else none
  | _ => none

/-- The plan of an item of the select list. -/
def itemPlan (H : Host) (eitherWay : Bool) : Expr2 → Option GroupPlan
  | .countStar => some .countAll
  | .col name => (t.lookupCol H name).map .groupByCol
  | .agg func arg false =>
    match func with
    | .count => if (t.colIn H arg).isSome then none else some .countAll
    | .sum =>
      match sumPlan t H arg with
      | some plan => some plan
      | none => chargePlan t H eitherWay arg
    | .avg => (t.colIn H arg).bind fun a => floatPlan t [a] (.avgCol a)
    | .min => (t.colIn H arg).map .minCol
    | .max => (t.colIn H arg).map .maxCol
    | .countDistinct => none
  | _ => none

namespace GroupPlan

/-- What a row adds to the accumulator of a sum or an average. -/
def term (i : Nat) : GroupPlan → Option UInt64
  | sumCol a | avgCol a => some (t.cell a i)
  | sumColCol a b => some (M.mul (t.cell a i) (t.cell b i))
  | sumColSubOne a b => some (M.mul (t.cell a i) (oneMinus M (t.cell b i)))
  | sumColSubOneAddOne a b c =>
    some (M.mul (M.mul (t.cell a i) (oneMinus M (t.cell b i))) (onePlus M (t.cell c i)))
  | _ => none

/-- The plans that have an accumulator. -/
def isAggregate : GroupPlan → Bool
  | groupByCol _ | countAll => false
  | _ => true

end GroupPlan

/-! ### Few groups -/

/-- The groups a chunk has found, with the sums of all aggregates and the counts. -/
structure LowCard where
  keys : List UInt64
  sums : List UInt64
  counts : List Nat

/-- One row of a chunk. The sums of aggregate `k` are taken to start at `k` times the number of
groups, a number that changes while the sums stay where they are. -/
def LowCard.step (plans : List GroupPlan) (gbCols : List Nat) (s : LowCard) (i : Nat) :
    Option LowCard :=
  let key := corrHash t gbCols i
  let slot := s.keys.findIdx (· == key)
  let s' : Option LowCard :=
    if slot < s.keys.length then some s
    else if 255 ≤ s.keys.length then none
    else some ⟨s.keys ++ [key], s.sums ++ List.replicate plans.length 0, s.counts ++ [0]⟩
  s'.map fun s =>
    { s with
      counts := s.counts.modify slot (· + 1)
      sums := plans.zipIdx.foldl (fun sums p =>
        match p.1.term M t i with
        | some f => sums.modify (p.2 * s.keys.length + slot) (M.add · f)
        | none => sums) s.sums }

/-- The rows from `start` on, in chunks. -/
def chunks (indices : List Nat) : List (List Nat) :=
  (List.range ((indices.length + 65535) / 65536)).map fun k =>
    (indices.drop (k * 65536)).take 65536

/-- The sums and counts of all chunks, by the groups of all of them. -/
def mergeLowCard (naggs : Nat) (keys : List UInt64) (parts : List LowCard) : LowCard :=
  parts.foldl (fun acc part =>
    part.keys.zipIdx.foldl (fun acc p =>
      let g := keys.findIdx (· == p.1)
      { acc with
        counts := acc.counts.modify g (· + part.counts.getD p.2 0)
        sums := (List.range naggs).foldl (fun sums a =>
          sums.modify (a * keys.length + g)
            (M.add · (part.sums.getD (a * part.keys.length + p.2) 0))) acc.sums }) acc)
    ⟨keys, List.replicate (naggs * keys.length) 0, List.replicate keys.length 0⟩

/-- A column of the result. The minimum and the maximum are computed, but zeros are shown. -/
def lowCardColumn (total : LowCard) (plan : GroupPlan) (agg : Nat) : List UInt64 :=
  let groups := total.keys.length
  let sum (g : Nat) : UInt64 := total.sums.getD (agg * groups + g) 0
  match plan with
  | .groupByCol _ => total.keys
  | .countAll => total.counts.map UInt64.ofNat
  | .avgCol _ => (List.range groups).map fun g =>
      M.div (sum g) (Binary64.ofNat (total.counts.getD g 0))
  | .minCol _ | .maxCol _ => List.replicate groups 0
  | _ => (List.range groups).map sum

/-- `try_low_card_grouped`, up to ORDER BY and LIMIT. -/
def tryLowCardGrouped (q : SelectQuery2) (mask : List Bool) : Option QueryResult := do
  if q.having.isSome then none
  else
    let gbCols ← q.groupBy.mapM (t.colIn M.host)
    let plans ← q.select.mapM fun item => itemPlan t M.host false item.expr
    let aggs := plans.filter GroupPlan.isAggregate
    if aggs.isEmpty then none
    else
      -- chunks are cut from all rows, not from the selected ones
      let parts ← (chunks (List.range t.rowCount)).mapM fun chunk =>
        (chunk.filter fun i => mask.getD i false).foldlM (LowCard.step M t aggs gbCols) ⟨[], [], []⟩
      let keys := firsts (parts.flatMap LowCard.keys)
      if 255 < keys.length then none
      else
        let total := mergeLowCard M aggs.length keys parts
        let columns := (q.select.zip plans).zipIdx.map fun p =>
          { name := p.1.1.name M.host
            values := lowCardColumn M total p.1.2
              ((plans.take p.2).filter GroupPlan.isAggregate).length
            stringValues := none, typeOid := 0, nullMask := none : ResultColumn }
        some { columns, rowCount := keys.length }

/-! ### The rows of each group -/

/-- The cell of a group for a plan. -/
def fusedCell (indices : List Nat) (plan : GroupPlan) : UInt64 :=
  let sum := sumF64 M (indices.filterMap fun i => plan.term M t i)
  match plan with
  | .groupByCol c => (indices.head?.map (t.cell c)).getD 0
  | .countAll => UInt64.ofNat indices.length
  | .avgCol _ => if indices.isEmpty then 0 else M.div sum (Binary64.ofNat indices.length)
  | .minCol a => indices.foldl (fun m i => if Binary64.lt (t.cell a i) m then t.cell a i else m)
      0x7FF0000000000000
  | .maxCol a => indices.foldl (fun m i => if Binary64.lt m (t.cell a i) then t.cell a i else m)
      0xFFF0000000000000
  | _ => sum

/-- `try_fused_grouped_agg`: the cells of every item, or `none` if an item has no plan. -/
def fusedGroupedAgg (select : List SelectItem2) (groups : List (List Nat)) :
    Option (List (List UInt64)) :=
  if groups.isEmpty then some (select.map fun _ => [])
  else do
    let plans ← select.mapM fun item => itemPlan t M.host true item.expr
    pure (plans.map fun plan => groups.map fun indices => fusedCell M t indices plan)

/-! ## ORDER BY and LIMIT -/

/-- The order by the keys: the first pair of different keys decides. -/
def keysLe : List (UInt64 × UInt64 × Bool) → Bool
  | [] => true
  | (a, b, ascending) :: rest =>
    if Binary64.totalRank a = Binary64.totalRank b then keysLe rest
    else if ascending then decide (Binary64.totalRank a < Binary64.totalRank b)
    else decide (Binary64.totalRank b < Binary64.totalRank a)

/-- The rows of a result in the order of their keys. Sorting is stable; the texts are lost. -/
def sortRows (qr : QueryResult) (directions : List Bool) (keys : Nat → List UInt64) : QueryResult :=
  let order := (List.range qr.rowCount).mergeSort fun a b =>
    keysLe ((keys a).zip ((keys b).zip directions))
  { columns := qr.columns.map fun c =>
      { name := c.name, values := order.map fun i => c.values.getD i 0, stringValues := none,
        typeOid := 0, nullMask := none }
    rowCount := qr.rowCount }

/-- The column of the result that an ORDER BY key names. -/
def keyColumn (H : Host) (qr : QueryResult) (e : Expr2) : Option ResultColumn :=
  qr.columns.find? fun c => c.name == e.name H || eqIgnoreAsciiCase c.name (e.name H)

/-- `apply_order_by_grouped`. -/
def applyOrderByGrouped (H : Host) (qr : QueryResult)
    (orderBy : List (Expr2 × Bool)) : QueryResult :=
  if orderBy.isEmpty ∨ qr.rowCount ≤ 1 then qr
  else
    sortRows qr (orderBy.map (·.2)) fun row => orderBy.map fun p =>
      ((keyColumn H qr p.1).map fun c => c.values.getD row 0).getD 0

/-- The key of a row in `apply_order_by`: a column of the result, or else the expression in the row
of the table. Errors are 0. -/
def orderKey (qr : QueryResult) (indices : List Nat) (row : Nat) (e : Expr2) : Exec UInt64 :=
  match keyColumn M.host qr e with
  | some c => pure (c.values.getD row 0)
  | none => do
    let v ← attempt (ev e t (indices.getD row 0))
    pure ((v.bind (Value2.asF64 M.host)).getD 0)

/-- `apply_order_by`. -/
def applyOrderBy2 (qr : QueryResult) (orderBy : List (Expr2 × Bool)) (indices : List Nat) :
    Exec QueryResult := do
  if orderBy.isEmpty ∨ qr.rowCount ≤ 1 then pure qr
  else
    let keys ← (List.range qr.rowCount).mapM fun row =>
      (orderBy.map (·.1)).mapM (orderKey M ev t qr indices row)
    pure (sortRows qr (orderBy.map (·.2)) fun row => keys.getD row [])

def limitResult (qr : QueryResult) : Option Nat → QueryResult
  | none => qr
  | some n =>
    if n < qr.rowCount then
      { columns := qr.columns.map fun c => { c with values := c.values.take n }, rowCount := n }
    else qr

/-! ## Grouped queries -/

/-- `execute_scalar_agg`. -/
def executeScalarAgg (q : SelectQuery2) (indices : List Nat) : Exec QueryResult := do
  let columns ← q.select.mapM fun item => do
    let v ← evalAggExpr M ev t indices item.expr
    pure { name := item.name M.host, values := [v.toU64 M.host], stringValues := none, typeOid := 0,
           nullMask := none }
  pure { columns, rowCount := 1 }

/-- The GROUP BY keys of the selected rows; an expression that fails is 0. -/
def groupKeys (q : SelectQuery2) (indices : List Nat) : Exec (List (List UInt64)) :=
  q.groupBy.mapM fun gb =>
    match t.colIn M.host gb with
    | some c => pure (indices.map (t.cell c))
    | none => indices.mapM fun i => do
      let v ← attempt (ev gb t i)
      pure ((v.getD .null).toU64 M.host)

/-- The groups of the selected rows, by the hash of their keys: one map per chunk, and the maps put
together in the order in which they are iterated. -/
def groupRows (indices : List Nat) (keys : List (List UInt64)) : List (List Nat) :=
  let hashed : List (UInt64 × Nat) := indices.mapIdx fun k i =>
    (keyHash (keys.map fun col => col.getD k 0), i)
  let parts := (chunks (List.range indices.length)).map fun chunk =>
    M.iterate (Multimap.ofPairs (chunk.filterMap (hashed[·]?)))
  (parts.flatten.foldl
    (fun groups p => p.2.foldl (fun groups i => Multimap.push p.1 i groups) groups)
    ([] : Groups)).map (·.2)

/-- The values of an item in all groups. An aggregate that fails is 0. -/
def groupColumn (item : SelectItem2) (groups : List (List Nat)) : Exec (List UInt64) :=
  groups.mapM fun indices => do
    let v ← attempt (evalAggExpr M ev t indices item.expr)
    pure ((v.getD .null).toU64 M.host)

/-- The groups that HAVING lets pass. -/
def havingGroups (having : Option Expr2) (groups : List (List Nat)) : Exec (List (List Nat)) :=
  match having with
  | none => pure groups
  | some h => keepM (fun indices => do
      let v ← evalAggExpr M ev t indices h
      pure v.truthy) groups

/-- The result of a grouped query from the rows of its groups. -/
def groupedResult (q : SelectQuery2) (groups : List (List Nat)) : Exec QueryResult := do
  let values ←
    match fusedGroupedAgg M t q.select groups with
    | some values => pure values
    | none => q.select.mapM fun item => groupColumn M ev t item groups
  pure
    { columns := (q.select.zip values).map fun p =>
        { name := p.1.name M.host, values := p.2, stringValues := none, typeOid := 0,
          nullMask := none }
      rowCount := groups.length }

/-- `execute_grouped`. -/
def executeGrouped (q : SelectQuery2) (mask : List Bool) : Exec QueryResult :=
  if q.groupBy.isEmpty then executeScalarAgg M ev t q (maskIndices mask)
  else do
    let result ←
      match tryLowCardGrouped M t q mask with
      | some result => pure result
      | none => do
        let indices := maskIndices mask
        let keys ← groupKeys M ev t q indices
        let groups ← havingGroups M ev t q.having (groupRows M indices keys)
        groupedResult M ev t q groups
    let ordered := if q.orderBy.isEmpty then result
      else applyOrderByGrouped M.host result q.orderBy
    pure (limitResult ordered q.limit)

/-! ## Projection -/

/-- A cell of the result: an unknown column is an error, every other error is 0. -/
def projectCell (e : Expr2) (i : Nat) : Exec UInt64 :=
  ExceptT.mk do
    match ← (ev e t i).run with
    | .ok v => pure (.ok (v.toU64 M.host))
    | .error (.error (.notFound msg)) => pure (.error (.error (.notFound msg)))
    | .error .panic => pure (.error .panic)
    | .error (.error _) => pure (.ok 0)

/-- `project`. -/
def project (select : List SelectItem2) (indices : List Nat) : Exec QueryResult := do
  let columns ← select.mapM fun item => do
    let values ← indices.mapM (projectCell M ev t item.expr)
    pure { name := item.name M.host, values, stringValues := none, typeOid := 0, nullMask := none }
  pure { columns, rowCount := indices.length }

end TensorVault.Tpch
