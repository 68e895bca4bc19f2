import TensorVault.Tpch.Join

/-!
# Which columns of a nested query are outer columns

A nested query is correlated if it reads columns of the enclosing row. The source decides this by
names, and not everywhere in the same way: `findCorrelationCols` and `corrNames` look only at the
part behind the last dot, the others first at the qualifier.
-/

namespace TensorVault.Tpch

open Text ExecTable

variable (H : Host) (cat : Catalog)

/-- The columns of the tables a nested query reads. -/
def innerCols (q : SelectQuery2) : List String :=
  q.source.flatMap fun
    | .table name _ =>
      match cat.get name with
      | some t => t.columnNames.map H.toLowercase
      | none => []
    | .derived .. => []

/-- The names and aliases of the tables a nested query reads. -/
def innerAliases (q : SelectQuery2) : List String :=
  q.source.flatMap fun
    | .table name asName => H.toLowercase name :: (asName.map H.toLowercase).toList
    | .derived .. => []

/-- The part of a name that counts for `inner_cols`. -/
def shortOr (name : String) : String := (shortName name).getD name

/-! ## By the short name -/

/-- The outer column that a name stands for, if its short name is no inner column. -/
def corrColumn (inner : List String) (outer : ExecTable) (name : String) : Option Nat :=
  if inner.contains (H.toLowercase (shortOr name)) then none
  else
    match outer.lookupCol H name with
    | some c => some c
    | none => outer.lookupCol H (shortOr name)

/-- Elements in the order of their first appearance. -/
def firsts {α : Type} [BEq α] (l : List α) : List α :=
  l.foldl (fun acc a => if acc.contains a then acc else acc ++ [a]) []

/-- `find_correlation_cols`: in the conditions and in the select list. -/
def findCorrelationCols (q : SelectQuery2) (outer : ExecTable) : List Nat :=
  let exprs := q.whereClause.toList ++ q.having.toList ++ q.select.map SelectItem2.expr
  firsts ((exprs.flatMap Expr2.columns).filterMap (corrColumn H (innerCols H cat q) outer))

/-- `collect_corr_names` on the condition: the names as they are written. -/
def corrNames (q : SelectQuery2) (outer : ExecTable) : List String :=
  let names := (q.whereClause.toList.flatMap Expr2.columns).filter fun name =>
    (corrColumn H (innerCols H cat q) outer name).isSome
  names.foldl (fun acc name =>
    if (acc.map H.toLowercase).contains (H.toLowercase name) then acc else acc ++ [name]) []

/-! ## By the qualifier -/

/-- `col_is_inner`. -/
def colIsInner (aliases inner : List String) (name : String) : Bool :=
  match qualifier name with
  | some q => aliases.contains (H.toLowercase q)
  | none => inner.contains (H.toLowercase name)

/-- `is_conjunct_correlated_wrt_inner`. -/
def isCorrelatedWrtInner (aliases inner : List String) (e : Expr2) : Bool :=
  e.hasNested || e.columns.any fun name => !colIsInner H aliases inner name

/-- `collect_corr_names_qualified` on the condition. -/
def corrNamesQualified (q : SelectQuery2) (outer : ExecTable) : List String :=
  let names := (q.whereClause.toList.flatMap Expr2.columns).filter fun name =>
    !colIsInner H (innerAliases H q) (innerCols H cat q) name &&
      ((outer.lookupCol H name).isSome || (outer.lookupCol H (shortOr name)).isSome)
  names.foldl (fun acc name =>
    if (acc.map H.toLowercase).contains (H.toLowercase name) then acc else acc ++ [name]) []

/-! ## By the joined table -/

/-- `qualifier_matches_base`. -/
def qualifierMatchesBase (q : String) (base : ExecTable) : Bool :=
  base.colMap.any fun entry => startsWith entry.1 (q ++ ".")

/-- `is_conjunct_correlated`. -/
def isConjunctCorrelated (base : ExecTable) (e : Expr2) : Bool :=
  e.hasNested || e.columns.any fun name =>
    match qualifier name with
    | some q => (base.lookupCol H name).isNone && !qualifierMatchesBase (H.toLowercase q) base
    | none => (base.lookupCol H name).isNone

/-! ## Equalities and inequalities between an inner and an outer column -/

/-- `resolve_inner_col_idx`. -/
def resolveInnerColIdx (q : SelectQuery2) (name : String) : Option Nat :=
  q.source.findSome? fun
    | .table tableName asName =>
      (cat.get tableName).bind fun t => (fromCatalog H t (asName.getD tableName)).lookupCol H name
    | .derived .. => none

/-- A name without the characters before its first letter or digit. -/
def trimName (name : String) : List Char := name.toList.dropWhile fun c => !H.isAlphanumeric c

/-- `find_equi_join_inner`: the first conjunct `inner = outer`. -/
def findEquiJoinInner (q : SelectQuery2) (outerName : String) : Expr2 → Option Nat
  | .binOp .eq (.col ln) (.col rn) =>
    let isInner (name : String) := (innerCols H cat q).contains (H.toLowercase (shortOr name))
    let isOuter (name : String) :=
      eqIgnoreAsciiCase (shortOr name) (String.ofList (trimName H outerName))
    if isInner ln && isOuter rn then resolveInnerColIdx H cat q ln
    else if isInner rn && isOuter ln then resolveInnerColIdx H cat q rn
    else none
  | .binOp .and left right =>
    match findEquiJoinInner q outerName left with
    | some c => some c
    | none => findEquiJoinInner q outerName right
  | _ => none

/-- `find_exists_equi_join`: the outer and the inner column, if there is one outer column. -/
def findExistsEquiJoin (q : SelectQuery2) (outer : ExecTable) : Option (Nat × Nat) := do
  match corrNames H cat q outer with
  | [name] =>
    let outerIdx ← outer.lookupShort H name
    let w ← q.whereClause
    let innerIdx ← findEquiJoinInner H cat q name w
    pure (outerIdx, innerIdx)
  | _ => none

/-- The outer and the inner column of a comparison between an outer and an inner column. `some none`
is a comparison of other columns, `none` one whose columns are not found. -/
def crossColumns (q : SelectQuery2) (outer : ExecTable) (op : BinOp2) : Expr2 →
    Option (Option (Nat × Nat))
  | .binOp op' (.col ln) (.col rn) =>
    let isInner := colIsInner H (innerAliases H q) (innerCols H cat q)
    if op' = op ∧ isInner ln ≠ isInner rn then do
      let (innerName, outerName) := if isInner ln then (ln, rn) else (rn, ln)
      let outerIdx ←
        match outer.lookupCol H outerName with
        | some c => some c
        | none => outer.lookupCol H (H.toLowercase (shortOr outerName))
      let innerIdx ← resolveInnerColIdx H cat q innerName
      pure (some (outerIdx, innerIdx))
    else some none
  | _ => some none

/-- The first comparison of the kind among the conjuncts. -/
def firstCross (q : SelectQuery2) (outer : ExecTable) (op : BinOp2) (conjuncts : List Expr2) :
    Option (Nat × Nat) :=
  conjuncts.findSome? fun conj => (crossColumns H cat q outer op conj).join

/-- `find_exists_multi_col`: the outer and inner columns of the equality and of the inequality, if
there are two outer columns. -/
def findExistsMultiCol (q : SelectQuery2) (outer : ExecTable) :
    Option ((Nat × Nat) × (Nat × Nat)) := do
  let conjuncts := Expr2.splitConjuncts q.whereClause
  if (corrNamesQualified H cat q outer).length ≠ 2 then none
  else if conjuncts.any fun c => (crossColumns H cat q outer .eq c).isNone ||
      (crossColumns H cat q outer .ne c).isNone then none
  else
    let eqPair ← firstCross H cat q outer .eq conjuncts
    let nePair ← firstCross H cat q outer .ne conjuncts
    pure (eqPair, nePair)

/-- The pairs of an outer and an inner column of `try_decorrelate_subquery`: one per outer column,
from the equalities whose columns are found. -/
def corrToInner (q : SelectQuery2) (outer : ExecTable)
    (conjuncts : List Expr2) : List (Nat × Nat) :=
  (conjuncts.filterMap fun conj => (crossColumns H cat q outer .eq conj).join).foldl (fun acc p =>
    if acc.any fun p' => p'.1 == p.1 then acc else acc ++ [p]) []

/-- `h * 0x517cc1b727220a95 + v` along the cells. -/
def keyHash (cells : List UInt64) : UInt64 := cells.foldl (fun h v => h * 0x517cc1b727220a95 + v) 0

/-- The hash of the given columns of a row. -/
def corrHash (t : ExecTable) (cols : List Nat) (row : Nat) : UInt64 := keyHash (keyCells t cols row)

end TensorVault.Tpch
