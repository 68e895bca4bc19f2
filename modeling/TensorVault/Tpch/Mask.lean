import TensorVault.Tpch.Table

/-!
# WHERE in the TPC-H interpreter

A condition is evaluated to a mask with one flag per row (`evalBoolMaskVec`). The flags of a
comparison of a column with a constant are computed from the cells, those of other expressions row
by row with the evaluator, which is a parameter here: rows that the mask excludes already are not
evaluated.

A computation of the interpreter can fail, and it reads and fills the caches of nested queries also
when it fails.
-/

namespace TensorVault.Tpch

open Text List

/-! ## Computations -/

/-- Why a query stops: with an error, or by an index out of range. -/
inductive Failure where
  | error (e : Error)
  | panic
  deriving DecidableEq, Repr

/-- The caches of the interpreter. The keys are addresses of nested queries. -/
structure Caches where
  /-- `subquery_cache`. -/
  scalar : List (Nat × Value2)
  /-- `exists_cache`: the values of the inner column. -/
  exist : List (Nat × List UInt64)
  /-- `exists_multi_cache`: the pairs of the two inner columns. -/
  existMulti : List (Nat × List (UInt64 × UInt64))
  /-- `in_subquery_cache`. -/
  member : List (Nat × List UInt64)
  /-- `decorrelated_cache`: the aggregates by the hash of the correlation columns, and the outer
  columns to hash. -/
  decorrelated : List (Nat × (List (UInt64 × Value2) × List Nat))
  deriving DecidableEq, Repr

def Caches.empty : Caches := ⟨[], [], [], [], []⟩

abbrev Exec := ExceptT Failure (StateM Caches)

def Failure.noColumn (name : String) : Failure := .error (.notFound ("column '" ++ name ++ "'"))

variable {α : Type} {l : List α}

theorem Exec.pure_inj {a b : α} (h : (pure a : Exec α) = pure b) : a = b := by
  have hrun := congrArg (fun x : Exec α => (x.run.run Caches.empty).1) h
  exact Except.ok.inj hrun

/-- A computation whose errors do not matter. -/
def attempt {α : Type} (x : Exec α) : Exec (Option α) :=
  ExceptT.mk do
    match ← x.run with
    | .ok a => pure (.ok (some a))
    | .error .panic => pure (.error .panic)
    | .error (.error _) => pure (.ok none)

@[simp] theorem attempt_pure {a : α} : attempt (pure a) = pure (some a) := rfl

/-! A computation that is equal to `pure a` returns `a` and leaves the caches alone. -/

theorem allM_eq_pure {f : α → Exec Bool} {p : α → Bool}
    (h : ∀ a ∈ l, f a = pure (p a)) : l.allM f = pure (l.all p) := by
  induction l with
  | nil => rfl
  | cons a l ih =>
    rw [List.allM, h a mem_cons_self, pure_bind, all_cons]
    cases p a
    · rfl
    · exact ih fun b hb => h b (mem_cons_of_mem a hb)

/-- How an expression is evaluated in a row of a table. -/
abbrev Evaluator := Expr2 → ExecTable → Nat → Exec Value2

/-- The table and the row of the enclosing query. -/
abbrev Outer := Option (ExecTable × Nat)

/-- A column with its type. -/
def typedColumn (t : ExecTable) (c : Nat) : Exec ColType :=
  match t.colTypes[c]? with
  | some ty => if c < t.columns.length then pure ty else throw .panic
  | none => throw .panic

/-! ## Constants -/

/-- `eval_const`. -/
def evalConst (ev : Evaluator) (t : ExecTable) : Expr2 → Exec Value2
  | .int n => pure (.int n)
  | .float bits => pure (.float bits)
  | .str s => pure (.str s)
  | .date d => pure (.date d)
  | .neg e => do
    let v ← evalConst ev t e
    pure v.negate
  | e => ev e t 0

/-! ## Comparisons with a constant -/

/-- Equality up to the tolerance of `filter_eq_f64_epsilon`. -/
def epsilonEq (M : Machine) (a b : UInt64) : Bool :=
  -- 1e-6 * max(|b|, 1.0)
  let tolerance := M.mul 0x3EB0C6F7A0B5ED8D (Binary64.max (Binary64.abs b) 0x3FF0000000000000)
  let d := Binary64.abs (M.sub a b)
  Binary64.lt d tolerance || Binary64.eq d tolerance

/-- The comparisons of the cells of a float column with a float. -/
def floatTest (M : Machine) (eq : UInt64 → UInt64 → Bool) (op : BinOp2) (f : UInt64) :
    Option (UInt64 → Bool) :=
  match op with
  | .eq => some fun c => eq c f
  | .ne => some fun c => !epsilonEq M c f
  | .lt => some fun c => Binary64.lt c f
  | .le => some fun c => Binary64.lt c f || Binary64.eq c f
  | .gt => some fun c => Binary64.lt f c
  | .ge => some fun c => Binary64.lt f c || Binary64.eq f c
  | _ => none

/-- The comparisons of the cells of an integer column with an integer. -/
def intTest (op : BinOp2) (n : Int) : Option (UInt64 → Bool) :=
  match op with
  | .eq => some fun c => c == cellOfInt n
  | .ne => some fun c => c != cellOfInt n
  | .lt => some fun c => decide (signedOf c < n)
  | .le => some fun c => decide (signedOf c ≤ n)
  | .gt => some fun c => decide (n < signedOf c)
  | .ge => some fun c => decide (n ≤ signedOf c)
  | _ => none

/-- The comparisons of the cells of a date column with a date, as unsigned numbers. -/
def dateTest (op : BinOp2) (d : Int) : Option (UInt64 → Bool) :=
  let target := (cellOfInt d).toNat
  match op with
  | .eq => some fun c => c.toNat == target
  | .ne => some fun c => c.toNat != target
  | .lt => some fun c => decide (c.toNat < target)
  | .le => some fun c => decide (c.toNat ≤ target)
  | .gt => some fun c => decide (target < c.toNat)
  | .ge => some fun c => decide (target ≤ c.toNat)
  | _ => none

/-- The comparisons of hashes. An order of strings is not tested at all. -/
def stringTest (H : Host) (op : BinOp2) (s : String) : Option (UInt64 → Bool) :=
  match op with
  | .eq => some fun c => c == H.xxh3 s
  | .ne => some fun c => c != H.xxh3 s
  | _ => none

/-- The comparisons between values of different types. A string is the empty text here. -/
def mixedTest (H : Host) (ty : ColType) (op : BinOp2) (val : Value2) (c : UInt64) : Bool :=
  let v : Value2 := match ty with
    | .int => .int (signedOf c)
    | .float => .float c
    | .date => .date (signed32 c)
    | .string => .str ""
  match op with
  | .eq => v.cmpEq H val
  | .ne => !v.cmpEq H val
  | .lt => v.cmpLt H val
  | .le => v.cmpLe H val
  | .gt => !v.cmpLe H val
  | .ge => !v.cmpLt H val
  | _ => false

/-- The test of `apply_comparison` on the cells of a column; `none` leaves the mask as it is. -/
def comparisonTest (M : Machine) (ty : ColType) (op : BinOp2) (val : Value2) :
    Option (UInt64 → Bool) :=
  match ty, val with
  | .int, .int n => intTest op n
  | .date, .date d => dateTest op d
  | .float, .float f => floatTest M (epsilonEq M) op f
  | .float, .int n => floatTest M Binary64.eq op (Binary64.ofInt n)
  | .string, .str s => stringTest M.host op s
  | ty, val => some (mixedTest M.host ty op val)

/-- A test of the cells of a column, on the rows of a mask. -/
def maskCells (t : ExecTable) (c : Nat) (test : UInt64 → Bool) (mask : List Bool) : List Bool :=
  mask.mapIdx fun i b => b && test (t.cell c i)

/-- A test of rows, on the rows of a mask. -/
def maskRowsM (mask : List Bool) (test : Nat → Exec Bool) : Exec (List Bool) :=
  mask.zipIdx.mapM fun p => if p.1 then test p.2 else pure false

/-- `apply_comparison`. -/
def applyComparison (M : Machine) (t : ExecTable) (op : BinOp2) (c : Nat) (val : Value2)
    (mask : List Bool) : Exec (List Bool) := do
  let ty ← typedColumn t c
  match comparisonTest M ty op val with
  | some test => pure (maskCells t c test mask)
  | none => pure mask

/-! ## Comparisons -/

/-- The value of an outer column in a comparison with an inner one; a string is its hash. -/
def outerValue (o : ExecTable) (c r : Nat) : Exec Value2 := do
  match ← typedColumn o c with
  | .string => pure (.int (signedOf (o.cell c r)))
  | ty => pure (o.value ty c r)

/-- The outer column that one side of a comparison names, if the table has no column of this
name. -/
def outerColumn (H : Host) (outer : Outer) (t : ExecTable) : Expr2 → Option (ExecTable × Nat × Nat)
  | .col name =>
    match outer, t.lookupCol H name with
    | some (o, r), none => (o.lookupShort H name).map fun c => (o, c, r)
    | _, _ => none
  | _ => none

/-- The test of two columns of one table, where their cells can be compared. -/
def columnsTest (t : ExecTable) (op : BinOp2) (l r : Nat) : Option (Nat → Bool) :=
  if t.colTypes[l]? = t.colTypes[r]? ∧ t.colTypes[l]? ≠ some .float then
    match op with
    | .eq => some fun i => t.cell l i == t.cell r i
    | .ne => some fun i => t.cell l i != t.cell r i
    | _ => none
  else none

/-- The last resort: both sides row by row. -/
def compareRows (M : Machine) (ev : Evaluator) (t : ExecTable) (op : BinOp2) (left right : Expr2)
    (mask : List Bool) : Exec (List Bool) :=
  maskRowsM mask fun i => do
    let lv ← ev left t i
    let rv ← ev right t i
    pure (lv.binop M op rv).truthy

/-- `eval_comparison_vec`. -/
def evalComparisonVec (M : Machine) (ev : Evaluator) (outer : Outer) (t : ExecTable) (op : BinOp2)
    (left right : Expr2) (mask : List Bool) : Exec (List Bool) :=
  match t.colIn M.host left, right.hasCol, t.colIn M.host right, left.hasCol with
  | some c, false, _, _ => do
    let val ← evalConst ev t right
    applyComparison M t op c val mask
  | _, _, some c, false => do
    let val ← evalConst ev t left
    applyComparison M t op.swap c val mask
  | l, _, r, _ =>
    match l, outerColumn M.host outer t right, r, outerColumn M.host outer t left with
    | some c, some (o, oc, orow), _, _ => do
      let val ← outerValue o oc orow
      applyComparison M t op c val mask
    | _, _, some c, some (o, oc, orow) => do
      let val ← outerValue o oc orow
      applyComparison M t op.swap c val mask
    | some lc, _, some rc, _ =>
      match columnsTest t op lc rc with
      | some test => pure (mask.mapIdx fun i b => b && test i)
      | none => compareRows M ev t op left right mask
    | _, _, _, _ => compareRows M ev t op left right mask

/-! ## Pairs of strings -/

/-- `extract_col_str_eq`. -/
def colStrEq : Expr2 → Option (String × String)
  | .binOp .eq (.col c) (.str s) | .binOp .eq (.str s) (.col c) => some (c, s)
  | _ => none

/-- The two columns found so far, and the hashes they have in this branch. -/
structure PairState where
  colA : Option Nat
  colB : Option Nat
  hashA : Option UInt64
  hashB : Option UInt64

/-- One equality of a branch; a third column, or the first one twice, is not supported. -/
def PairState.step (H : Host) (t : ExecTable) (s : PairState)
    (conj : Expr2) : Option PairState := do
  let (name, text) ← colStrEq conj
  let c ← t.lookupCol H name
  if t.colTypes[c]? ≠ some .string then none
  else
    let h := H.xxh3 text
    match s.colA, s.colB with
    | none, _ => some { s with colA := some c, hashA := some h }
    | some a, none => if c = a then none else some { s with colB := some c, hashB := some h }
    | some a, some b =>
      if c = a then some { s with hashA := some h }
      else if c = b then some { s with hashB := some h }
      else none

/-- The branches of an OR, as pairs of hashes of the same two columns. -/
def pairBranches (H : Host) (t : ExecTable) :
    PairState → List (UInt64 × UInt64) → List Expr2 → Option (Nat × Nat × List (UInt64 × UInt64))
  | s, pairs, [] => do
    let a ← s.colA
    let b ← s.colB
    pure (a, b, pairs)
  | s, pairs, branch :: rest => do
    let s ← branch.conjuncts.foldlM (PairState.step H t) { s with hashA := none, hashB := none }
    let ha ← s.hashA
    let hb ← s.hashB
    pairBranches H t s (pairs ++ [(ha, hb)]) rest

/-- `try_nation_pair_or_lut`, as a test of rows. -/
def nationPairTest (H : Host) (t : ExecTable) (e : Expr2) : Option (Nat → Bool) :=
  (pairBranches H t ⟨none, none, none, none⟩ [] e.disjuncts).map fun p i =>
    p.2.2.any fun pair => t.cell p.1 i == pair.1 && t.cell p.2.1 i == pair.2

/-! ## BETWEEN, IN and LIKE -/

/-- The range test of a column by its type. The bounds of a string column are numbers. -/
def rangeTest (H : Host) (ty : ColType) (lo hi : Value2) (negated : Bool) (c : UInt64) : Bool :=
  match ty with
  | .int =>
    let lo := lo.asI64.getD (-(2 ^ 63))
    let hi := hi.asI64.getD (2 ^ 63 - 1)
    if negated then decide (signedOf c < lo) || decide (hi < signedOf c)
    else decide (lo ≤ signedOf c) && decide (signedOf c ≤ hi)
  | .date | .string =>
    let lo := (lo.asU64.getD 0).toNat
    let hi := (hi.asU64.getD 0xFFFFFFFFFFFFFFFF).toNat
    if negated then decide (c.toNat < lo) || decide (hi < c.toNat)
    else decide (lo ≤ c.toNat) && decide (c.toNat ≤ hi)
  | .float =>
    let lo := (lo.asF64 H).getD 0xFFF0000000000000
    let hi := (hi.asF64 H).getD 0x7FF0000000000000
    if negated then Binary64.lt c lo || Binary64.lt hi c
    else (Binary64.lt lo c || Binary64.eq lo c) && (Binary64.lt c hi || Binary64.eq c hi)

def betweenMask (M : Machine) (ev : Evaluator) (t : ExecTable) (expr low high : Expr2)
    (negated : Bool) (mask : List Bool) : Exec (List Bool) :=
  match t.colIn M.host expr with
  | some c => do
    let lo ← evalConst ev t low
    let hi ← evalConst ev t high
    let ty ← typedColumn t c
    pure (maskCells t c (rangeTest M.host ty lo hi negated) mask)
  | none =>
    maskRowsM mask fun i => do
      let v ← ev expr t i
      let lo ← ev low t i
      let hi ← ev high t i
      pure (negated != (lo.cmpLe M.host v && v.cmpLe M.host hi))

/-- The value of an item of an IN list: of a column, the one in the first row. -/
def listCell (M : Machine) (ev : Evaluator) (t : ExecTable) (item : Expr2) : Exec (Option UInt64) :=
  match t.colIn M.host item with
  | some c => if t.rowCount = 0 then throw .panic else pure (some (t.cell c 0))
  | none => do
    let v ← attempt (evalConst ev t item)
    pure (v.map (Value2.toU64 M.host))

/-- Whether a value is among the values of the items, from the left. -/
def anyEqual (M : Machine) (ev : Evaluator) (t : ExecTable) (row : Nat) (v : Value2) :
    List Expr2 → Exec Bool
  | [] => pure false
  | item :: rest => do
    let iv ← ev item t row
    if v.cmpEq M.host iv then pure true else anyEqual M ev t row v rest

def inListMask (M : Machine) (ev : Evaluator) (t : ExecTable) (expr : Expr2) (list : List Expr2)
    (negated : Bool) (mask : List Bool) : Exec (List Bool) :=
  match t.colIn M.host expr with
  | some c => do
    let cells ← list.mapM (listCell M ev t)
    pure (maskCells t c (fun v => negated != cells.contains (some v)) mask)
  | none =>
    maskRowsM mask fun i => do
      let v ← ev expr t i
      let found ← anyEqual M ev t i v list
      pure (negated != found)

/-- `like_mask` for one text. -/
def likeText (pattern text : String) : Bool :=
  let cs := pattern.toList
  if cs.head? = some '%' ∧ !(cs.drop 1).contains '%' ∧ !cs.contains '_' then
    endsWith text (String.ofList (cs.drop 1))
  else if !cs.contains '%' ∧ !cs.contains '_' then text == pattern
  else like text pattern

/-- The pattern of a LIKE on a column. -/
def likePattern (ev : Evaluator) (t : ExecTable) : Expr2 → Exec String
  | .str s => pure s
  | pattern => do
    let v ← attempt (ev pattern t 0)
    pure ((v.bind Value2.asStr).getD "")

def likeRows (ev : Evaluator) (t : ExecTable) (expr pattern : Expr2) (negated : Bool)
    (mask : List Bool) : Exec (List Bool) :=
  maskRowsM mask fun i => do
    let v ← ev expr t i
    let p ← ev pattern t i
    let r := match v, p with
      | .str s, .str p => like s p
      | _, _ => false
    pure (negated != r)

/-- LIKE on the texts of a column, or else row by row. -/
def likeColumnMask (M : Machine) (ev : Evaluator) (t : ExecTable) (expr pattern : Expr2)
    (negated : Bool) (mask : List Bool) : Exec (List Bool) :=
  match (t.colIn M.host expr).bind fun c => (t.stringColumns[c]?).join with
  | none => likeRows ev t expr pattern negated mask
  | some texts => do
    let p ← likePattern ev t pattern
    if p ≠ "" ∧ t.rowCount ≤ texts.length then
      pure (mask.mapIdx fun i b => b && (likeText p (texts.getD i "") != negated))
    else likeRows ev t expr pattern negated mask

/-! ## Conditions -/

/-- `eval_bool_mask_vec`. -/
def evalBoolMaskVec (M : Machine) (ev : Evaluator) (outer : Outer) (t : ExecTable) :
    Expr2 → List Bool → Exec (List Bool)
  | .binOp .and left right, mask => do
    let mask ← evalBoolMaskVec M ev outer t left mask
    evalBoolMaskVec M ev outer t right mask
  | .binOp .or left right, mask =>
    match nationPairTest M.host t (.binOp .or left right) with
    | some test => pure (mask.mapIdx fun i b => b && test i)
    | none => do
      let l ← evalBoolMaskVec M ev outer t left (List.replicate t.rowCount true)
      let r ← evalBoolMaskVec M ev outer t right (List.replicate t.rowCount true)
      pure (List.zipWith (· && ·) mask (List.zipWith (· || ·) l r))
  | .binOp op left right, mask => evalComparisonVec M ev outer t op left right mask
  | .between expr low high negated, mask => betweenMask M ev t expr low high negated mask
  | .inList expr list negated, mask => inListMask M ev t expr list negated mask
  | .like expr pattern negated, mask => likeColumnMask M ev t expr pattern negated mask
  | e, mask => maskRowsM mask fun i => do
    let v ← ev e t i
    pure v.truthy

/-- `build_mask`. -/
def buildMask (M : Machine) (ev : Evaluator) (outer : Outer) (t : ExecTable) (e : Expr2) :
    Exec (List Bool) :=
  evalBoolMaskVec M ev outer t e (List.replicate t.rowCount true)

/-- The rows of a mask. -/
def maskIndices (mask : List Bool) : List Nat :=
  (List.range mask.length).filter fun i => mask.getD i false

end TensorVault.Tpch
