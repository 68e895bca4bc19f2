import TensorVault.Basic

/-!
# Queries of the TPC-H interpreter

The syntax trees of `engine/tpch.rs`. The interpreter keeps results of nested queries in caches
whose key is the address of the nested query, so each nested query carries its address here.

Most questions the source asks about an expression (does it have a column, an aggregate, a column of
this table) are one traversal with another answer at the leaves. The traversal is `Expr2.leaves`: it
goes through operators, CASE, LIKE, BETWEEN, IN lists, EXTRACT and SUBSTR, and not into CAST,
aggregates and nested queries.
-/

namespace TensorVault.Tpch

inductive ColType where
  | int
  | float
  | date
  | string
  deriving DecidableEq, Repr

inductive BinOp2 where
  | add
  | sub
  | mul
  | div
  | eq
  | ne
  | lt
  | gt
  | le
  | ge
  | and
  | or
  deriving DecidableEq, Repr

/-- `swap_op`: the operator with its operands exchanged. -/
def BinOp2.swap : BinOp2 → BinOp2
  | .lt => .gt
  | .le => .ge
  | .gt => .lt
  | .ge => .le
  | op => op

inductive AggFunc where
  | sum
  | avg
  | count
  | min
  | max
  | countDistinct
  deriving DecidableEq, Repr

inductive JoinType2 where
  | inner
  | left
  deriving DecidableEq, Repr

mutual

/-- An expression. A float carries its bit pattern, a date its day number. -/
inductive Expr2 where
  | col (name : String)
  | int (n : Int)
  | float (bits : UInt64)
  | str (s : String)
  | date (days : Int)
  | binOp (op : BinOp2) (left right : Expr2)
  | like (expr pattern : Expr2) (negated : Bool)
  | between (expr low high : Expr2) (negated : Bool)
  | inList (expr : Expr2) (list : List Expr2) (negated : Bool)
  | inSubquery (expr : Expr2) (addr : Nat) (query : SelectQuery2) (negated : Bool)
  | exist (addr : Nat) (query : SelectQuery2) (negated : Bool)
  | caseWhen (whens : List (Expr2 × Expr2)) (otherwise : Option Expr2)
  | extract (field : String) (expr : Expr2)
  | cast (expr : Expr2) (targetType : String)
  | substr (expr start len : Expr2)
  | agg (func : AggFunc) (arg : Expr2) (distinct : Bool)
  | countStar
  | subquery (addr : Nat) (query : SelectQuery2)
  | not (e : Expr2)
  | neg (e : Expr2)

inductive FromItem where
  | table (name : String) (asName : Option String)
  | derived (query : SelectQuery2) (asName : Option String)

structure JoinClause2 where
  joinType : JoinType2
  table : FromItem
  on : Expr2

structure SelectItem2 where
  expr : Expr2
  asName : Option String

structure SelectQuery2 where
  select : List SelectItem2
  source : List FromItem
  joins : List JoinClause2
  whereClause : Option Expr2
  groupBy : List Expr2
  having : Option Expr2
  /-- The keys with `true` for ascending. -/
  orderBy : List (Expr2 × Bool)
  limit : Option Nat

end

namespace Expr2

/-! ## Leaves -/

/-- Where the traversal of an expression ends. -/
inductive Leaf where
  | column (name : String)
  | aggregate
  | nested
  | other

mutual

def leaves : Expr2 → List Leaf
  | col name => [.column name]
  | int _ | float _ | str _ | date _ | cast _ _ => [.other]
  | binOp _ left right => leaves left ++ leaves right
  | like expr pattern _ => leaves expr ++ leaves pattern
  | between expr low high _ => leaves expr ++ leaves low ++ leaves high
  | inList expr list _ => leaves expr ++ leavesAll list
  | inSubquery .. | exist .. | subquery .. => [.nested]
  | caseWhen whens otherwise => leavesWhens whens ++ leavesElse otherwise
  | extract _ expr => leaves expr
  | substr expr start len => leaves expr ++ leaves start ++ leaves len
  | agg .. | countStar => [.aggregate]
  | not e | neg e => leaves e

def leavesAll : List Expr2 → List Leaf
  | [] => []
  | e :: es => leaves e ++ leavesAll es

def leavesWhens : List (Expr2 × Expr2) → List Leaf
  | [] => []
  | (cond, result) :: rest => leaves cond ++ leaves result ++ leavesWhens rest

def leavesElse : Option Expr2 → List Leaf
  | none => []
  | some e => leaves e

end

/-- The columns of an expression, from left to right. -/
def columns (e : Expr2) : List String :=
  e.leaves.filterMap fun
    | .column name => some name
    | _ => none

/-- `expr_has_agg`. -/
def hasAgg (e : Expr2) : Bool :=
  e.leaves.any fun
    | .aggregate => true
    | _ => false

/-- Whether the expression has a nested query. -/
def hasNested (e : Expr2) : Bool :=
  e.leaves.any fun
    | .nested => true
    | _ => false

/-- `expr_has_col`: a nested query counts as a column, since it may read the outer row. -/
def hasCol (e : Expr2) : Bool := e.hasNested || !e.columns.isEmpty

/-! ## Conjuncts and disjuncts -/

/-- `collect_conjuncts` and `flatten_conjuncts`. -/
def conjuncts : Expr2 → List Expr2
  | binOp .and left right => conjuncts left ++ conjuncts right
  | e => [e]

/-- `collect_or_branches` and `flatten_disjuncts`. -/
def disjuncts : Expr2 → List Expr2
  | binOp .or left right => disjuncts left ++ disjuncts right
  | e => [e]

/-- `split_conjuncts`. -/
def splitConjuncts (whereClause : Option Expr2) : List Expr2 :=
  (whereClause.map conjuncts).getD []

end Expr2

/-- `has_agg`. -/
def hasAgg (select : List SelectItem2) : Bool := select.any fun item => item.expr.hasAgg

def AggFunc.name : AggFunc → String
  | .sum => "sum"
  | .avg => "avg"
  | .count => "count"
  | .min => "min"
  | .max => "max"
  | .countDistinct => "countdistinct"

/-- `expr_name`. -/
def Expr2.name (H : Host) : Expr2 → String
  | .col n => n
  | .countStar => "count"
  | .agg func _ _ => func.name
  | .int n => toString n
  | .float bits => H.showF64 bits
  | .str s => s
  | .date d => toString d
  | _ => "expr"

/-- The name of a column of the result. -/
def SelectItem2.name (H : Host) (item : SelectItem2) : String := item.asName.getD (item.expr.name H)

/-! ## Nesting -/

mutual

/-- How deep the queries inside an expression are nested. -/
def Expr2.depth : Expr2 → Nat
  | .col _ | .int _ | .float _ | .str _ | .date _ | .countStar => 0
  | .binOp _ l r | .like l r _ => max l.depth r.depth
  | .between e l h _ | .substr e l h => max e.depth (max l.depth h.depth)
  | .inList e list _ => max e.depth (depthAll list)
  | .inSubquery e _ q _ => max e.depth (q.depth + 1)
  | .exist _ q _ | .subquery _ q => q.depth + 1
  | .caseWhen whens otherwise => max (depthWhens whens) (depthOption otherwise)
  | .extract _ e | .cast e _ | .agg _ e _ | .not e | .neg e => e.depth

def depthAll : List Expr2 → Nat
  | [] => 0
  | e :: es => max e.depth (depthAll es)

def depthWhens : List (Expr2 × Expr2) → Nat
  | [] => 0
  | (cond, result) :: rest => max (max cond.depth result.depth) (depthWhens rest)

def depthOption : Option Expr2 → Nat
  | none => 0
  | some e => e.depth

def FromItem.depth : FromItem → Nat
  | .table .. => 0
  | .derived q _ => q.depth + 1

def depthItems : List SelectItem2 → Nat
  | [] => 0
  | ⟨e, _⟩ :: rest => max e.depth (depthItems rest)

def depthFrom : List FromItem → Nat
  | [] => 0
  | item :: rest => max item.depth (depthFrom rest)

def depthJoins : List JoinClause2 → Nat
  | [] => 0
  | ⟨_, item, on⟩ :: rest => max (max item.depth on.depth) (depthJoins rest)

def depthOrder : List (Expr2 × Bool) → Nat
  | [] => 0
  | (e, _) :: rest => max e.depth (depthOrder rest)

/-- How many queries are nested inside a query. -/
def SelectQuery2.depth : SelectQuery2 → Nat
  | ⟨select, source, joins, whereClause, groupBy, having, orderBy, _⟩ =>
    max (depthItems select) (max (depthFrom source) (max (depthJoins joins)
      (max (depthOption whereClause) (max (depthAll groupBy) (max (depthOption having)
        (depthOrder orderBy))))))

end

end TensorVault.Tpch
