import TensorVault.Tpch.Aggregate

/-!
# The TPC-H interpreter

`eval` and `execute` of `TpchExec`. Expressions are evaluated by recursion on the expression; a
nested query is executed by the interpreter one level further down (`Level`), so the recursion into
queries is on the number of levels. `interpreter n` has `n` levels, and a query of nesting depth `d`
needs `d + 1` of them.

A nested query can read one row outside of itself, the row of the query around it (`Outer`). Results
of nested queries are kept in caches by the address of the query:

* `execute` runs every scalar subquery of the conditions and of the select list beforehand, without
  an outer row, and keeps the result if there is one (`precache`).
* A scalar subquery with an aggregate is turned into a table of its values (`tryDecorrelate`), or
  its results are kept by the hash of the outer columns it reads.
* EXISTS is decided from the set of the values of one inner column, or from the pairs of two.
* IN is decided from the values of a run without an outer row. If that run fails, the set is empty.
-/

namespace TensorVault.Tpch

open Text ExecTable

/-- The interpreter for nested queries. -/
structure Level where
  eval : Outer → Evaluator
  execute : Outer → SelectQuery2 → Exec QueryResult

section

variable (M : Machine) (cat : Catalog) (L : Level) (outer : Outer)

/-! ## Columns -/

def readColumn (t : ExecTable) (c row : Nat) : Exec Value2 := do
  let ty ← typedColumn t c
  pure (t.value ty c row)

/-- The `Col` case of `eval`: a column of the table, or else of the outer one. -/
def evalColumn (name : String) (t : ExecTable) (row : Nat) : Exec Value2 :=
  match t.lookupShort M.host name with
  | some c => readColumn t c row
  | none =>
    match outer with
    | none => throw (.noColumn name)
    | some (o, orow) =>
      match o.lookupShort M.host name with
      | some c => readColumn o c orow
      | none => throw (.noColumn name)

/-! ## FROM -/

/-- `resolve_from_item`. -/
def resolveFromItem : FromItem → Exec ExecTable
  | .table name asName =>
    match cat.get name with
    | some t => pure (fromCatalog M.host t (asName.getD name))
    | none => throw (.error (.notFound ("table '" ++ name ++ "'")))
  | .derived q asName => do
    let qr ← L.execute outer q
    pure (ofResult M.host qr (asName.getD "derived"))

/-- The base table of the fast paths for nested queries, and its rows that satisfy those conjuncts
that are not skipped. -/
def nestedBase (q : SelectQuery2) (joinOn : Option Expr2) (skip : ExecTable → Expr2 → Bool) :
    Exec (ExecTable × List Bool) := do
  let tables ← q.source.mapM (resolveFromItem M cat L outer)
  let base ←
    match tables with
    | [t] => pure t
    | tables => planJoinDp M (L.eval outer) outer tables joinOn
  let mask ← (Expr2.splitConjuncts q.whereClause).foldlM (fun mask conj =>
    if skip base conj then pure mask else evalBoolMaskVec M (L.eval outer) outer base conj mask)
    (List.replicate base.rowCount true)
  pure (base, mask)

/-! ## Scalar subqueries -/

/-- The value of a scalar subquery: the first cell of its result. -/
def scalarValue (H : Host) (qr : QueryResult) : Value2 :=
  match qr.columns.head? with
  | none => .float 0
  | some c =>
    let cell := c.values.headD 0
    match inferResultType H c.name c.values with
    | .float => .float cell
    | _ => .int (signedOf cell)

/-- `try_decorrelate_subquery`: the values of the aggregate by the hash of the inner columns, and
the outer columns. -/
def tryDecorrelate (q : SelectQuery2) (t : ExecTable) :
    Exec (Option (List (UInt64 × Value2) × List Nat)) :=
  let H := M.host
  match q.select, q.whereClause with
  | [item], some w =>
    let conjuncts := w.conjuncts
    let pairs := corrToInner H cat q t conjuncts
    let corr := findCorrelationCols H cat q t
    if !item.expr.hasAgg || q.having.isSome || !q.groupBy.isEmpty || q.source.length != 1 ||
        corr.isEmpty || pairs.isEmpty || !(corr.all ((pairs.map (·.1)).contains ·) &&
          (pairs.map (·.1)).all (corr.contains ·)) then pure none
    else do
      let correlated := isCorrelatedWrtInner H (innerAliases H q) (innerCols H cat q)
      let (base, mask) ← nestedBase M cat L outer q none fun _ conj => correlated conj
      let groups := Multimap.ofPairs ((maskIndices mask).map fun i =>
        (corrHash base (pairs.map (·.2)) i, i))
      let values ← (M.iterate groups).mapM fun g => do
        let v ← evalAggExpr M (L.eval outer) base g.2 item.expr
        pure (g.1, v)
      pure (some (values, pairs.map (·.1)))
  | _, _ => pure none

/-- The key of a result in the per-row cache. Addresses are 64 bits wide. -/
def scalarKey (addr : Nat) (hash : UInt64) : Nat :=
  (addr + (hash * 0x9E3779B97F4A7C15).toNat) % 2 ^ 64

/-- The per-row cache of scalar subqueries. -/
def cachedScalar (addr : Nat) (q : SelectQuery2) (t : ExecTable) (row : Nat) : Exec Value2 := do
  let key := scalarKey addr (corrHash t (findCorrelationCols M.host cat q t) row)
  match (← get).scalar.lookup key with
  | some v => pure v
  | none =>
    let qr ← L.execute (some (t, row)) q
    let v := scalarValue M.host qr
    modify fun s => { s with scalar := (key, v) :: s.scalar }
    pure v

/-- The `Subquery` case of `eval`. -/
def evalSubquery (addr : Nat) (q : SelectQuery2) (t : ExecTable) (row : Nat) : Exec Value2 := do
  match (← get).scalar.lookup addr with
  | some v => pure v
  | none =>
    if ((← get).decorrelated.lookup addr).isNone then
      match ← tryDecorrelate M cat L outer q t with
      | some entry => modify fun s => { s with decorrelated := (addr, entry) :: s.decorrelated }
      | none => pure ()
    match (← get).decorrelated.lookup addr with
    | some (values, cols) => pure ((values.lookup (corrHash t cols row)).getD .null)
    | none => cachedScalar M cat L addr q t row

/-! ## EXISTS -/

/-- `build_exists_hashset`. -/
def buildExistsSet (q : SelectQuery2) (c : Nat) : Exec (List UInt64) := do
  let (base, mask) ← nestedBase M cat L outer q q.whereClause (isConjunctCorrelated M.host)
  pure ((maskIndices mask).map (base.cell c))

/-- `build_exists_multi_map`. -/
def buildExistsPairs (q : SelectQuery2) (eqCol neCol : Nat) : Exec (List (UInt64 × UInt64)) := do
  let (base, mask) ← nestedBase M cat L outer q q.whereClause (isConjunctCorrelated M.host)
  pure ((maskIndices mask).map fun i => (base.cell eqCol i, base.cell neCol i))

/-- The set of a cache entry, built if it is not there. -/
def existsSet (addr : Nat) (q : SelectQuery2) (c : Nat) : Exec (List UInt64) := do
  match (← get).exist.lookup addr with
  | some set => pure set
  | none =>
    let set ← buildExistsSet M cat L outer q c
    modify fun s => { s with exist := (addr, set) :: s.exist }
    pure set

def existsPairs (addr : Nat) (q : SelectQuery2) (eqCol neCol : Nat) :
    Exec (List (UInt64 × UInt64)) := do
  match (← get).existMulti.lookup addr with
  | some pairs => pure pairs
  | none =>
    let pairs ← buildExistsPairs M cat L outer q eqCol neCol
    modify fun s => { s with existMulti := (addr, pairs) :: s.existMulti }
    pure pairs

/-- Whether EXISTS holds in a row. -/
def existsValue (addr : Nat) (q : SelectQuery2) (t : ExecTable) (row : Nat) : Exec Bool :=
  match findExistsEquiJoin M.host cat q t with
  | some (outerCol, innerCol) => do
    let set ← existsSet M cat L outer addr q innerCol
    pure (set.contains (t.cell outerCol row))
  | none =>
    match findExistsMultiCol M.host cat q t with
    | some ((outerEq, innerEq), (outerNe, innerNe)) => do
      let pairs ← existsPairs M cat L outer addr q innerEq innerNe
      pure (pairs.any fun p => p.1 == t.cell outerEq row && p.2 != t.cell outerNe row)
    | none => do
      let qr ← L.execute (some (t, row)) q
      pure (decide (0 < qr.rowCount))

/-! ## IN -/

/-- The trial run without an outer row; a run that fails leaves the empty set. -/
def fillMember (addr : Nat) (q : SelectQuery2) : Exec Unit := do
  if ((← get).member.lookup addr).isNone then
    match ← attempt (L.execute none q) with
    | some qr =>
      match qr.columns.head? with
      | some c => modify fun s => { s with member := (addr, c.values) :: s.member }
      | none => pure ()
    | none => modify fun s => { s with member := (addr, []) :: s.member }

/-- Whether a value is among the values of an IN query. An empty set is trusted only if there is no
outer row. -/
def memberValue (addr : Nat) (q : SelectQuery2) (v : Value2) (t : ExecTable) (row : Nat) :
    Exec Bool := do
  fillMember L addr q
  let trusted := ((← get).member.lookup addr).filter fun set => !set.isEmpty || outer.isNone
  match trusted with
  | some set => pure (set.contains (v.toU64 M.host))
  | none =>
    let qr ← L.execute (some (t, row)) q
    match qr.columns.head? with
    | some c => pure (c.values.any fun cell => v.cmpEq M.host (.int (signedOf cell)))
    | none => pure false

/-! ## Expressions -/

/-- LIKE of two values. The hash of a text can only be compared with a pattern without wildcards. -/
def likeValue (H : Host) : Value2 → Value2 → Bool
  | .str s, .str p => like s p
  | .int n, .str p =>
    !p.toList.contains '%' && !p.toList.contains '_' && cellOfInt n == H.xxh3 p
  | _, _ => false

mutual

/-- `eval`. -/
def eval (t : ExecTable) (row : Nat) : Expr2 → Exec Value2
  | .col name => evalColumn M outer name t row
  | .int n => pure (.int n)
  | .float bits => pure (.float bits)
  | .str s => pure (.str s)
  | .date d => pure (.date d)
  | .neg e => do
    let v ← eval t row e
    pure v.negate
  | .not e => do
    let v ← eval t row e
    pure (.ofBool !v.truthy)
  | .binOp op left right => do
    let lv ← eval t row left
    let rv ← eval t row right
    pure (lv.binop M op rv)
  | .like expr pattern negated => do
    let v ← eval t row expr
    let p ← eval t row pattern
    pure (.ofBool (likeValue M.host v p != negated))
  | .between expr low high negated => do
    let v ← eval t row expr
    let lo ← eval t row low
    let hi ← eval t row high
    pure (.ofBool ((lo.cmpLe M.host v && v.cmpLe M.host hi) != negated))
  | .inList expr list negated => do
    let v ← eval t row expr
    let found ← evalAny t row v list
    pure (.ofBool (found != negated))
  | .caseWhen whens otherwise => do
    match ← evalWhens t row whens with
    | some v => pure v
    | none => evalElse t row otherwise
  | .extract field expr => do
    let v ← eval t row expr
    pure (extractField M field v)
  | .cast expr targetType => do
    let v ← eval t row expr
    pure (castValue M v targetType)
  | .substr expr start len => do
    let v ← eval t row expr
    let s ← eval t row start
    let l ← eval t row len
    match substrValue v s l with
    | some v => pure v
    | none => throw .panic
  | .subquery addr q => evalSubquery M cat L outer addr q t row
  | .exist addr q negated => do
    let b ← existsValue M cat L outer addr q t row
    pure (.ofBool (b != negated))
  | .inSubquery expr addr q negated => do
    let v ← eval t row expr
    let b ← memberValue M L outer addr q v t row
    pure (.ofBool (b != negated))
  | .agg .. | .countStar => throw (.error (.other "aggregate in non-agg context"))

/-- Whether a value is among the values of the items, from the left. -/
def evalAny (t : ExecTable) (row : Nat) (v : Value2) : List Expr2 → Exec Bool
  | [] => pure false
  | item :: rest => do
    let iv ← eval t row item
    if v.cmpEq M.host iv then pure true else evalAny t row v rest

/-- The first branch of a CASE whose condition is true. -/
def evalWhens (t : ExecTable) (row : Nat) : List (Expr2 × Expr2) → Exec (Option Value2)
  | [] => pure none
  | (cond, result) :: rest => do
    let cv ← eval t row cond
    if cv.truthy then do
      let v ← eval t row result
      pure (some v)
    else evalWhens t row rest

def evalElse (t : ExecTable) (row : Nat) : Option Expr2 → Exec Value2
  | none => pure .null
  | some e => eval t row e

end

/-- `eval` of this level. -/
def evaluator : Evaluator := fun e t row => eval M cat L outer t row e

/-! ## Queries -/

mutual

/-- The scalar subqueries that `precache_subqueries` visits. The copies it makes of IN queries are
left out: what they put into the caches stands under the addresses of the copies. -/
def precached : Expr2 → List (Nat × SelectQuery2)
  | .subquery addr q => [(addr, q)]
  | .binOp _ l r | .like l r _ => precached l ++ precached r
  | .caseWhen whens otherwise => precachedWhens whens ++ precachedElse otherwise
  | .between e lo hi _ | .substr e lo hi => precached e ++ precached lo ++ precached hi
  | .inList e list _ => precached e ++ precachedAll list
  | .neg e | .not e | .extract _ e => precached e
  | .inSubquery e _ _ _ => precached e
  | _ => []

def precachedAll : List Expr2 → List (Nat × SelectQuery2)
  | [] => []
  | e :: es => precached e ++ precachedAll es

def precachedWhens : List (Expr2 × Expr2) → List (Nat × SelectQuery2)
  | [] => []
  | (cond, result) :: rest => precached cond ++ precached result ++ precachedWhens rest

def precachedElse : Option Expr2 → List (Nat × SelectQuery2)
  | none => []
  | some e => precached e

end

/-- One subquery of `precache_subqueries`. -/
def precache (p : Nat × SelectQuery2) : Exec Unit := do
  if ((← get).scalar.lookup p.1).isNone then
    match ← attempt (L.execute none p.2) with
    | some qr =>
      if qr.columns.isEmpty then pure ()
      else modify fun s => { s with scalar := (p.1, scalarValue M.host qr) :: s.scalar }
    | none => pure ()

/-- The expressions whose subqueries are run beforehand. -/
def precacheExprs (q : SelectQuery2) : List Expr2 :=
  q.whereClause.toList ++ q.having.toList ++ q.select.map SelectItem2.expr

/-- The explicit joins, each with the last table. -/
def joinStep (ev : Evaluator) (tables : List ExecTable) (join : JoinClause2) :
    Exec (List ExecTable) := do
  let right ← resolveFromItem M cat L outer join.table
  match tables.getLast? with
  | none => throw .panic
  | some left =>
    let joined ← hashJoin M ev left right join.on join.joinType
    pure (tables.dropLast ++ [joined])

/-- The table the query works on, and its mask. Conjuncts about one table alone are not evaluated
again after a join. -/
def baseAndMask (ev : Evaluator) (q : SelectQuery2) (tables : List ExecTable) :
    Exec (ExecTable × List Bool) :=
  match tables with
  | [t] =>
    match q.whereClause with
    | some w => do
      let mask ← buildMask M ev outer t w
      pure (t, mask)
    | none => pure (t, List.replicate t.rowCount true)
  | tables => do
    let multi := (Expr2.splitConjuncts q.whereClause).filter fun conj =>
      (tableRefs M.host conj tables).length != 1
    let base ← planJoinDp M ev outer tables q.whereClause
    let mask ← multi.foldlM (fun mask conj => evalBoolMaskVec M ev outer base conj mask)
      (List.replicate base.rowCount true)
    pure (base, mask)

/-- What follows the joins and the WHERE clause. -/
def finish (ev : Evaluator) (q : SelectQuery2) (base : ExecTable) (mask : List Bool) :
    Exec QueryResult :=
  if !q.groupBy.isEmpty || hasAgg q.select then executeGrouped M ev base q mask
  else do
    let indices := maskIndices mask
    let result ← project M ev base q.select indices
    let ordered ← applyOrderBy2 M ev base result q.orderBy indices
    pure (limitResult ordered q.limit)

/-- `execute`. -/
def execute (q : SelectQuery2) : Exec QueryResult := do
  let ev := evaluator M cat L outer
  (precacheExprs q).forM fun e => (precached e).forM (precache M L)
  let tables ← q.source.mapM (resolveFromItem M cat L outer)
  let tables ← q.joins.foldlM (joinStep M cat L outer ev) tables
  let (base, mask) ← baseAndMask M outer ev q tables
  finish M ev q base mask

end

/-! ## Levels -/

/-- The interpreter for queries nested less than `n` deep. -/
def interpreter (M : Machine) (cat : Catalog) : Nat → Level
  | 0 =>
    { eval := fun _ _ _ _ => throw .panic
      execute := fun _ _ => throw .panic }
  | n + 1 =>
    { eval := evaluator M cat (interpreter M cat n)
      execute := execute M cat (interpreter M cat n) }

/-- `execute_tpch`. -/
def executeTpch (M : Machine) (cat : Catalog) (q : SelectQuery2) : Outcome QueryResult :=
  match (((interpreter M cat (q.depth + 1)).execute none q).run.run Caches.empty).1 with
  | .ok qr => .ok qr
  | .error (.error e) => .err e
  | .error .panic => .panic

end TensorVault.Tpch
