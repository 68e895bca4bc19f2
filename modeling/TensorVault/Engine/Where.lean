import TensorVault.Engine.Value

/-!
# The WHERE clause of UPDATE and DELETE

`eval_simple_where` reads the clause as `<column> <operator> <literal>` predicates joined by `AND`
and `OR`, evaluates each to a row mask and folds the masks from the left. There is no precedence and
there are no parentheses.
-/

namespace TensorVault

open Text Sql List

/-! ## Predicates -/

def CmpOp.cells : CmpOp → UInt64 → UInt64 → Bool
  | .eq, a, b => a == b
  | .ne, a, b => a != b
  | .lt, a, b => decide (a < b)
  | .gt, a, b => decide (b < a)
  | .le, a, b => decide (a ≤ b)
  | .ge, a, b => decide (b ≤ a)

/-- The order of `str` is the order of the code points. -/
def CmpOp.texts : CmpOp → String → String → Bool
  | .eq, a, b => a == b
  | .ne, a, b => a != b
  | .lt, a, b => decide (a < b)
  | .gt, a, b => decide (b < a)
  | .le, a, b => !decide (b < a)
  | .ge, a, b => !decide (a < b)

structure Pred where
  colIdx : Nat
  op : CmpOp
  cell : UInt64
  rawString : Option String
  deriving DecidableEq, Repr

/-! ## Reading the clause -/

def isKeyword (k : String) : Token → Bool
  | .keyword k' => eqIgnoreAsciiCase k' k
  | _ => false

/-- The literal of a predicate: its cell, and its text when the column has a sidecar. -/
def predValue (H : Host) (t : Table) (colIdx : Nat) :
    Token → Except Error (Option UInt64 × Option String)
  | .string s =>
    if (t.sidecar colIdx).isSome then .ok (some 0, some s)
    else .ok (parseValueCell H ("'" ++ s ++ "'"), none)
  | .int n => .ok (some (cellOfInt n), none)
  | .float bits => .ok (some bits, none)
  | .hex bytes => .ok (some (leCell bytes), none)
  | .keyword k =>
    if eqIgnoreAsciiCase k "NULL" then .ok (some 0, none)
    else .error (.other ("expected literal value in WHERE clause, got " ++
      (Token.keyword k).debug H))
  | tok => .error (.other ("expected literal value in WHERE clause, got " ++ tok.debug H))

/-- One `<column> <operator> <literal>`. -/
def parsePred (H : Host) (t : Table) (colName : String) (opTok valTok : Token) : Outcome Pred :=
  match opTok with
  | .op opText =>
    match CmpOp.ofText opText with
    | none => .err (.other ("unsupported WHERE operator '" ++ opText ++ "' in DML WHERE"))
    | some op =>
      match t.columnIdx colName with
      | none => .err (.notFound ("column \"" ++ colName ++ "\""))
      | some colIdx =>
        match predValue H t colIdx valTok with
        | .error e => .err e
        | .ok (none, _) => .panic
        | .ok (some cell, rawString) => .ok { colIdx, op, cell, rawString }
  | tok => .err (.other ("expected comparison operator after '" ++ colName ++ "', got " ++
      tok.debug H))

/-- The predicates of a clause and the operators between them (`true` for `AND`). -/
def parsePreds (H : Host) (t : Table) : List Token → Outcome (List Pred × List Bool)
  | [] => .ok ([], [])
  | tok :: rest =>
    if isKeyword "AND" tok then do
      let (ps, ops) ← parsePreds H t rest
      pure (ps, true :: ops)
    else if isKeyword "OR" tok then do
      let (ps, ops) ← parsePreds H t rest
      pure (ps, false :: ops)
    else match tok with
      | .lparen => .err (.other ("parenthesised expressions are not supported in DML WHERE; " ++
          "use SELECT WHERE instead"))
      | .ident colName | .keyword colName =>
        match rest with
        | opTok :: valTok :: rest' => do
          let p ← parsePred H t colName opTok valTok
          let (ps, ops) ← parsePreds H t rest'
          pure (p :: ps, ops)
        | _ => .err (.other ("incomplete WHERE predicate near '" ++ colName ++ "'"))
      | _ => .err (.other ("expected column name in WHERE clause, got " ++ tok.debug H))

/-! ## Evaluating it -/

/-- The mask of one predicate. A predicate on a string literal compares the sidecar of the
column when there is one, every other predicate compares cells. -/
def predMask (t : Table) (p : Pred) : Option (List Bool) :=
  match t.columns[p.colIdx]? with
  | none => none
  | some col =>
    match p.rawString, t.sidecar p.colIdx with
    | some s, some sc =>
      some ((List.range t.rowCount).map fun i => p.op.texts (sc.getD i "") s)
    | _, _ => some (col.map fun c => p.op.cells c p.cell)

/-- One step of the left fold, for the first `n` flags. The flag of the mask is read only where the
result does not decide. -/
def combineMask (n : Nat) (isAnd : Bool) (result mask : List Bool) : Option (List Bool) :=
  ((List.range n).mapM fun j => result[j]?.bind fun a => if a = isAnd then mask[j]? else some a).map
    (· ++ result.drop n)

/-- The left fold; a missing operator counts as `AND`. -/
def combineMasks (n : Nat) : List Bool → List (List Bool) → List Bool → Option (List Bool)
  | result, [], _ => some result
  | result, mask :: masks, ops =>
    match combineMask n (ops.headD true) result mask with
    | some result' => combineMasks n result' masks ops.tail
    | none => none

/-- `eval_simple_where`: one flag per row. -/
def evalSimpleWhere (H : Host) (t : Table) (whereStr : String) : Outcome (List Bool) :=
  if t.rowCount = 0 then .ok []
  else
    match tokenize H whereStr with
    | .error e => .err (.parse e)
    | .ok toks =>
      let toks := toks.filter (· != .eof)
      let toks := if toks.head?.any (isKeyword "WHERE") then toks.tail else toks
      match parsePreds H t toks with
      | .err e => .err e
      | .panic => .panic
      | .ok ([], _) => .ok (List.replicate t.rowCount true)
      | .ok (p :: ps, ops) =>
        match predMask t p, ps.mapM (predMask t) with
        | some mask, some masks => Outcome.ofOption (combineMasks t.rowCount mask masks ops)
        | _, _ => .panic

/-! ## The mask has one entry per row -/

variable {t : Table} {mask : List Bool} {n : Nat}

theorem predMask_length (ht : t.Rectangular) {p : Pred}
    (h : predMask t p = some mask) : mask.length = t.rowCount := by
  unfold predMask at h
  split at h
  · cases h
  · next col hcol =>
    split at h
    · cases h
      rw [length_map, length_range]
    · cases h
      rw [length_map]
      exact ht.cells col (mem_of_getElem? hcol)

theorem combineMask_length {isAnd : Bool} {result out : List Bool}
    (hr : result.length = n) (h : combineMask n isAnd result mask = some out) : out.length = n := by
  obtain ⟨flags, hflags, rfl⟩ := Option.map_eq_some_iff.mp h
  have hunits : flags.map (fun _ => ()) = (range n).map fun _ => () :=
    (of_mapM_eq_some hflags).2 fun _ _ _ => rfl
  have hlength := congrArg length hunits
  rw [length_map, length_map, length_range] at hlength
  rw [length_append, length_drop, hr, Nat.sub_self, Nat.add_zero, hlength]

theorem combineMasks_length :
    ∀ {masks : List (List Bool)} {result out : List Bool} {ops : List Bool},
      result.length = n → combineMasks n result masks ops = some out → out.length = n
  | [], _, _, _, hr, h => by
    cases h
    exact hr
  | mask :: masks, result, out, ops, hr, h => by
    unfold combineMasks at h
    split at h
    · next result' hstep =>
      exact combineMasks_length (combineMask_length hr hstep) h
    · cases h

theorem evalSimpleWhere_length {H : Host} {clause : String}
    (ht : t.Rectangular) (h : evalSimpleWhere H t clause = .ok mask) :
    mask.length = t.rowCount := by
  unfold evalSimpleWhere at h
  split at h
  · next hzero =>
    cases h
    exact hzero.symm
  · split at h
    · cases h
    · simp only at h
      split at h
      · cases h
      · cases h
      · cases h
        exact length_replicate
      · split at h
        · next hmask _ =>
          exact combineMasks_length (predMask_length ht hmask) (Outcome.ofOption_eq_ok.mp h)
        · cases h

end TensorVault
