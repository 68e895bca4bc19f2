import TensorVault.Engine.Where
import TensorVault.Sql.Select

/-!
# The WHERE clause of SELECT

SELECT evaluates a predicate to a mask with one flag per row. What the dispatcher
(`evalPredicateMask`) cannot evaluate goes to `filterRowsMask`, which lets every row pass where it
does not know better. The basic executor first turns the clause into a `WhereClause`. A NULL is the
cell 0 to all of them.
-/

namespace TensorVault

open Text Sql

/-! ## Literals -/

/-- The little-endian number of the bytes; from the ninth on they wrap around. -/
def hexCell (bytes : List UInt8) : UInt64 :=
  bytes.zipIdx.foldl (fun acc p => acc ||| (p.1.toUInt64 <<< UInt64.ofNat (8 * p.2))) 0

/-- `value_to_u64`, and the cell `eval_predicate_mask` compares with: a text that looks like a
number is one. -/
def literalCell (H : Host) : Value → UInt64
  | .int n => cellOfInt n
  | .float bits => bits
  | .string s =>
    match parseU64 s with
    | some n => n
    | none =>
      match parseI64 s with
      | some n => cellOfInt n
      | none => H.xxh3 s
  | .hex bytes => hexCell bytes

/-- The number a text looks like. -/
def numberText (s : String) : Option UInt64 :=
  match parseU64 s with
  | some n => some n
  | none => (parseI64 s).map cellOfInt

theorem literalCell_string {H : Host} {s : String} :
    literalCell H (.string s) = (numberText s).getD (H.xxh3 s) := by
  simp only [literalCell, numberText]
  cases parseU64 s with
  | some n => rfl
  | none => cases parseI64 s <;> rfl

/-- `literal_to_u64` of the basic executor and `literal_to_cell` of the index lookup, which only
know signed numbers. -/
def signedLiteralCell (H : Host) : Value → UInt64
  | .string s =>
    match parseI64 s with
    | some n => cellOfInt n
    | none => H.xxh3 s
  | v => literalCell H v

/-! ## Columns -/

/-- The part of a name behind its first dot, up to the next one. -/
def bareName (name : String) : Option String := (splitOn '.' name.toList)[1]?.map String.ofList

def endsWith (s suffix : String) : Bool := suffix.toList.isSuffixOf s.toList

/-- `resolve_col_name`. -/
def resolveColName (t : Table) (name : String) : Option Nat :=
  match t.columnIdx name with
  | some idx => some idx
  | none =>
    match (bareName name).bind t.columnIdx with
    | some idx => some idx
    | none => t.columnNames.findIdx? fun col =>
        col == name || bareName col == some name || endsWith col ("." ++ name)

/-- `resolve_name` of the vectorized filter, which also takes the number of a column. -/
def resolveName (columnNames : List String) (name : String) : Option Nat :=
  match columnNames.findIdx? (· == name) with
  | some idx => some idx
  | none =>
    match (bareName name).bind fun bare => columnNames.findIdx? (· == bare) with
    | some idx => some idx
    | none => (parseU64 name).map UInt64.toNat

/-- A column and a literal, in either order. -/
def columnAndLiteral : Expr → Expr → Option (String × Value)
  | .column name, .literal v => some (name, v)
  | .literal v, .column name => some (name, v)
  | _, _ => none

/-! ## LIKE -/

/-- `build_like_mask` for one text. A wildcard inside the pattern makes it a search for the other
characters. -/
def likeMatches (pattern : String) (text : String) : Bool :=
  let cs := pattern.toList
  let startsWild := cs.head? == some '%'
  let endsWild := cs.getLast? == some '%'
  let middle := trimMatches (· == '%') cs
  let innerWild := middle.any fun c => c == '%' || c == '_'
  let needle := middle.filter fun c => c != '%' && c != '_'
  if middle.isEmpty || needle.isEmpty then true
  else
    match startsWild, endsWild with
    | true, true => contains text (String.ofList needle)
    | false, true => startsWith text (String.ofList middle)
    | true, false => endsWith text (String.ofList middle)
    | false, false =>
      if innerWild then contains text (String.ofList needle)
      else text == String.ofList middle

/-- LIKE on the sidecar of a column, as one flag per text of the sidecar. -/
def likeMask (t : Table) (left right : Expr) (negate : Bool) : Option (List Bool) :=
  match columnAndLiteral left right with
  | some (name, .string pattern) =>
    ((resolveColName t name).bind t.sidecar).map fun texts =>
      texts.map fun text => likeMatches pattern text != negate
  | _ => none

/-! ## The dispatcher -/

def CmpOp.isOrder : CmpOp → Bool
  | .eq | .ne => false
  | .lt | .gt | .le | .ge => true

/-- A comparison of a column with a literal. It is not turned around when the literal comes
first. -/
def comparisonMask (H : Host) (t : Table) (left : Expr) (op : CmpOp) (right : Expr) :
    Option (List Bool) := do
  let (name, v) ← columnAndLiteral left right
  let c ← resolveColName t name
  let col ← t.columns[c]?
  match op.isOrder, v, t.sidecar c with
  | true, .string s, some texts =>
    pure ((List.range t.rowCount).map fun i => op.texts (texts.getD i "") s)
  | _, _, _ => pure (col.map fun cell => op.cells cell (literalCell H v))

/-- `eval_predicate_mask`. -/
def evalPredicateMask (H : Host) (t : Table) : Expr → Option (List Bool)
  | .binary left op right =>
    match op with
    | .like => likeMask t left right false
    | .notLike => likeMask t left right true
    | .and => do
      let l ← evalPredicateMask H t left
      let r ← evalPredicateMask H t right
      pure (List.zipWith (· && ·) l r)
    | .or => do
      let l ← evalPredicateMask H t left
      let r ← evalPredicateMask H t right
      pure (List.zipWith (· || ·) l r)
    | .cmp op => comparisonMask H t left op right
    | _ => none
  | _ => none

/-- `try_string_like_filter`. The two functions call each other; this one leaves comparisons
alone. -/
def tryStringLikeFilter (H : Host) (t : Table) : Expr → Option (List Bool)
  | .binary _ (.cmp _) _ => none
  | e => evalPredicateMask H t e

/-! ## The vectorized filter -/

/-- The flags of a column over the first flags of a mask. A column longer than the mask is an index
out of range. -/
def overwriteMask (mask tests : List Bool) : Option (List Bool) :=
  if tests.length ≤ mask.length then some (tests ++ mask.drop tests.length) else none

/-- `eval_where`. A predicate without a column and a literal, or with an operator that is no
comparison, leaves the mask as it is: LIKE gets past the first test only when the second one fails
as well. -/
def evalWhere (H : Host) (columns : List (List UInt64)) (columnNames : List String) (n : Nat) :
    Expr → List Bool → Option (List Bool)
  | .binary left op right, mask =>
    match op with
    | .and => do
      let l ← evalWhere H columns columnNames n left mask
      let r ← evalWhere H columns columnNames n right (List.replicate n true)
      pure (List.zipWith (· && ·) l r)
    | .or => do
      let l ← evalWhere H columns columnNames n left (List.replicate n true)
      let r ← evalWhere H columns columnNames n right (List.replicate n true)
      pure (List.zipWith (· || ·) l r)
    | op =>
      match columnAndLiteral left right with
      | none => some mask
      | some (name, v) =>
        match resolveName columnNames name with
        | none => some mask
        | some c => do
          let col ← columns[c]?
          match op with
          | .cmp op => overwriteMask mask (col.map fun cell => op.cells cell (literalCell H v))
          | _ => some mask
  | _, mask => some mask

/-- `filter_rows`, as the mask it reads the rows from. -/
def filterRowsMask (H : Host) (t : Table) (e : Expr) : Option (List Bool) :=
  evalWhere H t.columns t.columnNames t.rowCount e (List.replicate t.rowCount true)

/-- `build_filter_mask`. -/
def buildFilterMask (H : Host) (t : Table) : Option Expr → Option (List Bool)
  | none => some (List.replicate t.rowCount true)
  | some e =>
    match tryStringLikeFilter H t e with
    | some mask => some mask
    | none =>
      match evalPredicateMask H t e with
      | some mask => some mask
      | none => filterRowsMask H t e

/-- The rows of a mask; a mask with fewer flags than there are rows is an index out of range. -/
def selectedRows (n : Nat) (mask : List Bool) : Option (List Nat) :=
  if n ≤ mask.length then some ((List.range n).filter fun i => mask.getD i false) else none

/-- The first rows of a mask. The search for them stops at the limit. -/
def firstRows (n limit : Nat) (mask : List Bool) : Option (List Nat) :=
  let rows := (List.range n).filter fun i => mask.getD i false
  if limit ≤ rows.length ∨ n ≤ mask.length then some (rows.take limit) else none

/-! ## The basic executor -/

/-- A compiled clause of the basic executor. -/
inductive WhereClause where
  | all
  | single (colIdx : Nat) (op : CmpOp) (value : UInt64)
  | and (l r : WhereClause)
  | or (l r : WhereClause)
  deriving DecidableEq, Repr

def Sql.BinOp.text : BinOp → String
  | .cmp .eq => "="
  | .cmp .ne => "!="
  | .cmp .lt => "<"
  | .cmp .gt => ">"
  | .cmp .le => "<="
  | .cmp .ge => ">="
  | .add => "+"
  | .sub => "-"
  | .mul => "*"
  | .div => "/"
  | .and => "AND"
  | .or => "OR"
  | .like => "LIKE"
  | .notLike => "NOT LIKE"

/-- `parse_expr` of the basic executor, with the `Debug` texts of expressions. -/
def compileWhere (H : Host) (debugExpr : Expr → String)
    (t : Table) : Expr → Except Error WhereClause
  | .binary left op right =>
    match op with
    | .and => do
      let l ← compileWhere H debugExpr t left
      let r ← compileWhere H debugExpr t right
      pure (.and l r)
    | .or => do
      let l ← compileWhere H debugExpr t left
      let r ← compileWhere H debugExpr t right
      pure (.or l r)
    | .cmp op =>
      match columnAndLiteral left right with
      | some (name, v) =>
        match t.columnIdx name with
        | some c => .ok (.single c op (signedLiteralCell H v))
        | none => .error (.notFound ("column '" ++ name ++ "'"))
      | none => .error (.other ("WHERE clause must be col OP literal, got: " ++ debugExpr left ++
          " OP " ++ debugExpr right))
    | op => .error (.other ("unsupported operator in WHERE: " ++ op.text))
  | e => .error (.other ("unsupported WHERE expression: " ++ debugExpr e))

/-- `parse_where`. -/
def parseWhere (H : Host) (debugExpr : Expr → String) (t : Table) :
    Option Expr → Except Error WhereClause
  | none => .ok .all
  | some e => compileWhere H debugExpr t e

/-- The `as i64` cast. -/
def signedOf (cell : UInt64) : Int :=
  if cell.toNat < 2 ^ 63 then cell.toNat else cell.toNat - 2 ^ 64

/-- `where_clause_to_expr`: the column is written as its number. -/
def WhereClause.toExpr : WhereClause → Expr
  | .all => .literal (.int 1)
  | .single c op value => .binary (.column (toString c)) (.cmp op)
    (.literal (.int (signedOf value)))
  | .and l r => .binary l.toExpr .and r.toExpr
  | .or l r => .binary l.toExpr .or r.toExpr

/-- `filter_indices`. -/
def filterIndices (H : Host) (t : Table) : WhereClause → Option (List Nat)
  | .all => some (List.range t.rowCount)
  | w => (filterRowsMask H t w.toExpr).bind (selectedRows t.rowCount)

end TensorVault
