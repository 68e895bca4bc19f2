import TensorVault.Sql.Lexer

/-!
# The SELECT parser

`parse_with_extensions` of `sql/mod.rs`: the extension clauses are taken out of the token stream,
and what is left is parsed by recursive descent. IN and BETWEEN become comparisons, every keyword
without a meaning inside an expression is a column name, and there is no unary operator. A failure
is `none`. The levels from OR down to the factors are parametrised by the parser for primary
expressions; the number of tokens left is enough fuel.
-/

namespace TensorVault.Sql

open Text

/-! ## Queries -/

/-- A literal. A float carries its bit pattern. -/
inductive Value where
  | int (n : Int)
  | float (bits : UInt64)
  | string (s : String)
  | hex (bytes : List UInt8)
  deriving DecidableEq, Repr

inductive BinOp where
  | cmp (op : CmpOp)
  | add
  | sub
  | mul
  | div
  | and
  | or
  | like
  | notLike
  deriving DecidableEq, Repr

inductive Expr where
  | column (name : String)
  | literal (v : Value)
  | binary (left : Expr) (op : BinOp) (right : Expr)
  | caseWhen (whens : List (Expr × Expr)) (otherwise : Option Expr)
  | function (name arg : String)
  | extract (field : String) (e : Expr)
  | cast (e : Expr) (targetType : String)
  deriving Repr

inductive SelectItem where
  | column (name : String)
  | aggregate (func arg : String) (asName : Option String)
  | star
  | literal (v : UInt64)
  | window (func arg overSpec : String) (asName : Option String)
  | expression (e : Expr) (asName : Option String)
  deriving Repr

inductive JoinType where
  | inner
  | left
  | right
  | full
  | cross
  deriving DecidableEq, Repr

structure JoinClause where
  table : String
  on : Expr
  joinType : JoinType
  deriving Repr

structure SelectQuery where
  select : List SelectItem
  source : String
  joins : List JoinClause
  whereClause : Option Expr
  groupBy : List String
  having : Option Expr
  /-- The columns with `true` for ascending. -/
  orderBy : List (String × Bool)
  limit : Option Nat
  distinct : Bool
  deriving Repr

/-! ## Tokens -/

/-- What a parser reads, and the tokens it leaves. -/
abbrev Parser (α : Type) := List Token → Option (α × List Token)

def matchKeyword (k : String) : List Token → Option (List Token)
  | .keyword k' :: rest => if k' = k then some rest else none
  | _ => none

/-- `match_ident`: a word in any case, reserved or not. -/
def matchIdent (name : String) : List Token → Option (List Token)
  | .ident s :: rest => if eqIgnoreAsciiCase s name then some rest else none
  | .keyword k :: rest => if eqIgnoreAsciiCase k name then some rest else none
  | _ => none

def matchRparen : List Token → Option (List Token)
  | .rparen :: rest => some rest
  | _ => none

def matchLparen : List Token → Option (List Token)
  | .lparen :: rest => some rest
  | _ => none

/-! ## Levels of precedence -/

/-- The loop of a level: operands joined by the operators of the level, from the left. -/
def chain (operand : Parser Expr) (op : Token → Option BinOp) : Nat → Expr → Parser Expr
  | 0, left, toks => some (left, toks)
  | _ + 1, left, [] => some (left, [])
  | n + 1, left, tok :: rest =>
    match op tok with
    | none => some (left, tok :: rest)
    | some o => do
      let (right, rest) ← operand rest
      chain operand op n (.binary left o right) rest

def leftAssoc (operand : Parser Expr) (op : Token → Option BinOp) : Parser Expr := fun toks => do
  let (left, rest) ← operand toks
  chain operand op rest.length left rest

def orOp : Token → Option BinOp
  | .keyword "OR" => some .or
  | _ => none

def andOp : Token → Option BinOp
  | .keyword "AND" => some .and
  | _ => none

def addOp : Token → Option BinOp
  | .op "+" => some .add
  | .op "-" => some .sub
  | _ => none

def mulOp : Token → Option BinOp
  | .op "*" => some .mul
  | .op "/" => some .div
  | _ => none

/-- The rest of `BETWEEN low AND high`, as two comparisons. -/
def between (operand : Parser Expr) (left : Expr) (lower : CmpOp) (join : BinOp) (upper : CmpOp) :
    Parser Expr := fun toks => do
  let (low, rest) ← operand toks
  let rest ← matchKeyword "AND" rest
  let (high, rest) ← operand rest
  pure (.binary (.binary left (.cmp lower) low) join (.binary left (.cmp upper) high), rest)

/-- The values of an IN list, as one comparison each. -/
def inValues (operand : Parser Expr) (left : Expr) (cmp : CmpOp) (join : BinOp) :
    Nat → Option Expr → Parser Expr
  | 0, _, _ => none
  | n + 1, acc, toks => do
    let (val, rest) ← operand toks
    let test := .binary left (.cmp cmp) val
    let all := match acc with
      | none => test
      | some e => .binary e join test
    match rest with
    | .comma :: rest => inValues operand left cmp join n (some all) rest
    | .rparen :: rest => pure (all, rest)
    | _ => none

def inList (operand : Parser Expr) (left : Expr) (cmp : CmpOp) (join : BinOp) : Parser Expr :=
  fun toks => do
    let rest ← matchLparen toks
    inValues operand left cmp join rest.length none rest

/-- What follows `NOT` behind an operand; anything else leaves the `NOT` unread. -/
def negated (operand : Parser Expr) (left : Expr) (rest : List Token) : Option
    (Expr × List Token) :=
  match matchIdent "LIKE" rest with
  | some rest => do
    let (right, rest) ← operand rest
    pure (.binary left .notLike right, rest)
  | none =>
    match matchKeyword "BETWEEN" rest with
    | some rest => between operand left .lt .or .gt rest
    | none =>
      match matchKeyword "IN" rest with
      | some rest => inList operand left .ne .and rest
      | none => some (left, .keyword "NOT" :: rest)

/-- `parse_comparison_expr`, with the parser for its operands. -/
def comparison (operand : Parser Expr) : Parser Expr := fun toks => do
  let (left, rest) ← operand toks
  match rest with
  | .op o :: rest' =>
    match CmpOp.ofText o with
    | some op => do
      let (right, rest) ← operand rest'
      pure (.binary left (.cmp op) right, rest)
    | none => pure (left, rest)
  | _ =>
    match matchIdent "LIKE" rest with
    | some rest => do
      let (right, rest) ← operand rest
      pure (.binary left .like right, rest)
    | none =>
      match matchKeyword "NOT" rest with
      | some rest => negated operand left rest
      | none =>
        match matchKeyword "BETWEEN" rest with
        | some rest => between operand left .ge .and .le rest
        | none =>
          match matchKeyword "IN" rest with
          | some rest => inList operand left .eq .or rest
          | none => pure (left, rest)

section Levels

variable (primary : Parser Expr)

def parseMultiplicative : Parser Expr := leftAssoc primary mulOp

def parseAdditive : Parser Expr := leftAssoc (parseMultiplicative primary) addOp

def parseComparison : Parser Expr := comparison (parseAdditive primary)

def parseAnd : Parser Expr := leftAssoc (parseComparison primary) andOp

def parseOr : Parser Expr := leftAssoc (parseAnd primary) orOp

end Levels

/-! ## Primary expressions -/

/-- The texts of an argument up to the parenthesis that closes it. -/
def aggParts (H : Host) (depth : Nat) : List Token → List String × List Token
  | [] => ([], [])
  | tok :: rest =>
    let push (text : String) (p : List String × List Token) := (text :: p.1, p.2)
    match tok with
    | .rparen =>
      match depth with
      | 0 => ([], tok :: rest)
      | depth' + 1 => push ")" (aggParts H depth' rest)
    | .lparen => push "(" (aggParts H (depth + 1) rest)
    | .keyword k =>
      if ["FROM", "WHERE", "GROUP", "ORDER", "HAVING", "LIMIT"].contains k then ([], tok :: rest)
      else push k (aggParts H depth rest)
    | .ident name => push name (aggParts H depth rest)
    | .int i => push (toString i) (aggParts H depth rest)
    | .float bits => push (H.showF64 bits) (aggParts H depth rest)
    | .op o => push o (aggParts H depth rest)
    | _ => ([], tok :: rest)

/-- `parse_agg_arg`. -/
def aggArg (H : Host) : List Token → String × List Token
  | .op "*" :: rest => ("*", rest)
  | toks =>
    let (parts, rest) := aggParts H 0 toks
    (" ".intercalate parts, rest)

section Primary

variable (H : Host) (parseDate : String → Option Int) (expr : Parser Expr)

/-- The WHEN clauses of a CASE. -/
def caseClauses : Nat → List (Expr × Expr) → Parser (List (Expr × Expr))
  | 0, acc, toks => some (acc, toks)
  | n + 1, acc, toks =>
    match matchKeyword "WHEN" toks with
    | none => some (acc, toks)
    | some rest => do
      let (cond, rest) ← expr rest
      let rest ← matchKeyword "THEN" rest
      let (result, rest) ← expr rest
      caseClauses n (acc ++ [(cond, result)]) rest

/-- `parse_case`, after `CASE`. -/
def parseCase : Parser Expr := fun toks => do
  let (whens, rest) ← caseClauses expr toks.length [] toks
  if whens.isEmpty then none
  else
    let (otherwise, rest) ← match matchKeyword "ELSE" rest with
      | some rest => do
        let (e, rest) ← expr rest
        pure (some e, rest)
      | none => pure (none, rest)
    let rest ← matchKeyword "END" rest
    pure (.caseWhen whens otherwise, rest)

/-- A name in upper case; keywords are allowed. -/
def upperName : Parser String
  | .keyword k :: rest => some (H.toUppercase k, rest)
  | .ident s :: rest => some (H.toUppercase s, rest)
  | _ => none

/-- `parse_extract`, after `EXTRACT`. -/
def parseExtract : Parser Expr := fun toks => do
  let rest ← matchLparen toks
  let (field, rest) ← upperName H rest
  let rest ← matchKeyword "FROM" rest
  let (e, rest) ← expr rest
  let rest ← matchRparen rest
  pure (.extract field e, rest)

/-- The tokens behind the parenthesis that is closed next. -/
def skipParens : List Token → List Token
  | .lparen :: rest => (rest.dropWhile fun tok => tok != .rparen && tok != .eof).tail
  | toks => toks

/-- `parse_cast`, after `CAST`. A length behind the type is read over. -/
def parseCast : Parser Expr := fun toks => do
  let rest ← matchLparen toks
  let (e, rest) ← expr rest
  let rest ← matchKeyword "AS" rest
  let (targetType, rest) ← upperName H rest
  let rest ← matchRparen (skipParens rest)
  pure (.cast e targetType, rest)

/-- `parse_primary`, with the parser for the expressions inside it. -/
def primaryStep : Parser Expr
  | .int i :: rest => some (.literal (.int i), rest)
  | .float bits :: rest => some (.literal (.float bits), rest)
  | .string s :: rest => some (.literal (.string s), rest)
  | .hex bytes :: rest => some (.literal (.hex bytes), rest)
  | .keyword kw :: rest =>
    let upper := H.toUppercase kw
    if upper = "DATE" then
      match rest with
      | .string s :: rest =>
        match parseDate s with
        | some days => some (.literal (.int days), rest)
        | none => some (.literal (.string s), rest)
      | _ => some (.column kw, rest)
    else if upper = "CASE" then parseCase expr rest
    else if upper = "EXTRACT" then parseExtract H expr rest
    else if upper = "CAST" then parseCast H expr rest
    else some (.column kw, rest)
  | .ident name :: rest =>
    match rest with
    | .lparen :: rest => do
      let (arg, rest) := aggArg H rest
      let rest ← matchRparen rest
      pure (.function (H.toUppercase name) arg, rest)
    | _ => some (.column name, rest)
  | .lparen :: rest => do
    let (e, rest) ← expr rest
    let rest ← matchRparen rest
    pure (e, rest)
  | _ => none

/-- `parse_primary`; the fuel bounds the depth of parentheses. -/
def parsePrimary : Nat → Parser Expr
  | 0, _ => none
  | n + 1, toks => primaryStep H parseDate (parseOr (parsePrimary n)) toks

/-- `parse_expr`. -/
def parseExpr : Parser Expr := fun toks =>
  parseOr (parsePrimary H parseDate toks.length) toks

end Primary

/-! ## The clauses of SELECT -/

section

variable (H : Host) (parseDate : String → Option Int)

/-- `parse_optional_alias`. -/
def optionalAlias : Parser (Option String)
  | .keyword "AS" :: rest =>
    match rest with
    | .ident name :: rest => some (some name, rest)
    | _ => none
  | toks => some (none, toks)

/-- The texts inside `OVER (...)`, up to the parenthesis that closes it. -/
def overParts (H : Host) (depth : Nat) : List Token → Option (List String × List Token)
  | [] => none
  | tok :: rest => do
    match tok with
    | .rparen =>
      match depth with
      | 0 => pure ([], rest)
      | depth' + 1 =>
        let (parts, rest) ← overParts H depth' rest
        pure (")" :: parts, rest)
    | .lparen =>
      let (parts, rest) ← overParts H (depth + 1) rest
      pure ("(" :: parts, rest)
    | .eof => none
    | _ =>
      let text := String.ofList
        (trimMatches (· == '\'') (trimMatches (· == '"') (tok.debug H).toList))
      let (parts, rest) ← overParts H depth rest
      pure (text :: parts, rest)

/-- The function and the argument of `f(...)`, after the opening parenthesis. -/
def callArg (name : String) (toks : List Token) : Option ((String × String) × List Token) :=
  match matchIdent "DISTINCT" toks with
  | some (.ident col :: rest) => some ((H.toUppercase name ++ "_DISTINCT", col), rest)
  | some _ => none
  | none =>
    let (arg, rest) := aggArg H toks
    some ((H.toUppercase name, arg), rest)

/-- `parse_select_item`. The alias of a column or a number is read over. -/
def parseSelectItem : Parser SelectItem
  | .op "*" :: rest => some (.star, rest)
  | .keyword kw :: rest =>
    if kw = "CASE" ∨ kw = "EXTRACT" ∨ kw = "CAST" then do
      let (e, rest) ← parseExpr H parseDate (.keyword kw :: rest)
      let (asName, rest) ← optionalAlias rest
      pure (.expression e asName, rest)
    else none
  | .int i :: rest =>
    if i < 0 then none
    else do
      let (_, rest) ← optionalAlias rest
      pure (.literal (UInt64.ofNat i.toNat), rest)
  | .ident name :: .lparen :: rest => do
    let ((func, arg), rest) ← callArg H name rest
    let rest ← matchRparen rest
    match matchKeyword "OVER" rest with
    | some rest => do
      let rest ← matchLparen rest
      let (parts, rest) ← overParts H 0 rest
      let (asName, rest) ← optionalAlias rest
      pure (.window func arg (" ".intercalate parts) asName, rest)
    | none => do
      let (asName, rest) ← optionalAlias rest
      pure (.aggregate func arg asName, rest)
  | .ident name :: rest => do
    let (_, rest) ← optionalAlias rest
    pure (.column name, rest)
  | _ => none

/-- One item and then more of them behind commas. -/
def commaSeparated {α : Type} (item : Parser α) : Nat → List α → Parser (List α)
  | 0, _, _ => none
  | n + 1, acc, toks => do
    let (a, rest) ← item toks
    match rest with
    | .comma :: rest => commaSeparated item n (acc ++ [a]) rest
    | _ => pure (acc ++ [a], rest)

def parseSelectList : Parser (List SelectItem) := fun toks =>
  commaSeparated (parseSelectItem H parseDate) toks.length [] toks

/-- The keywords that are no table names. -/
def reservedNames : List String :=
  ["WHERE", "GROUP", "ORDER", "HAVING", "LIMIT", "JOIN", "ON", "LEFT", "RIGHT", "INNER", "OUTER",
   "UNION", "EXCEPT", "INTERSECT"]

/-- `parse_table_name`. -/
def parseTableName : Parser String := fun toks => do
  let (first, rest) ← match toks with
    | .ident name :: rest => some (name, rest)
    | .keyword k :: rest => if reservedNames.contains k then none else some (k, rest)
    | _ => none
  match rest with
  | .op "." :: rest =>
    match rest with
    | .ident name :: rest => pure (first ++ "." ++ name, rest)
    | .keyword k :: rest => pure (first ++ "." ++ k, rest)
    | _ => none
  | _ => pure (first, rest)

/-- The keywords that open a join, with its type; OUTER may follow LEFT, RIGHT and FULL. -/
def joinKeyword : List Token → Option (Option (JoinType × List Token))
  | .keyword "JOIN" :: rest => some (some (.inner, rest))
  | .keyword "INNER" :: rest => (matchKeyword "JOIN" rest).map fun rest => some (.inner, rest)
  | .keyword "LEFT" :: rest => outerJoin .left rest
  | .keyword "RIGHT" :: rest => outerJoin .right rest
  | .keyword "FULL" :: rest => outerJoin .full rest
  | .keyword "CROSS" :: rest => (matchKeyword "JOIN" rest).map fun rest => some (.cross, rest)
  | _ => some none
where
  outerJoin (ty : JoinType) (rest : List Token) : Option (Option (JoinType × List Token)) :=
    (matchKeyword "JOIN" ((matchKeyword "OUTER" rest).getD rest)).map fun rest => some (ty, rest)

/-- `parse_joins`. -/
def parseJoins : Nat → List JoinClause → Parser (List JoinClause)
  | 0, acc, toks => some (acc, toks)
  | n + 1, acc, toks => do
    match ← joinKeyword toks with
    | none => pure (acc, toks)
    | some (ty, rest) =>
      let (table, rest) ← parseTableName rest
      match ty with
      | .cross => parseJoins n (acc ++ [⟨table, .literal (.int 1), .cross⟩]) rest
      | _ =>
        let rest ← matchKeyword "ON" rest
        let (on, rest) ← parseExpr H parseDate rest
        parseJoins n (acc ++ [⟨table, on, ty⟩]) rest

/-- A column of GROUP BY; the number of a column is read over. -/
def groupItem : Parser (Option String)
  | .ident name :: rest => some (some name, rest)
  | .int _ :: rest => some (none, rest)
  | _ => none

def orderItem : Parser (String × Bool)
  | .ident name :: rest =>
    match matchIdent "DESC" rest with
    | some rest => some ((name, false), rest)
    | none => some ((name, true), (matchIdent "ASC" rest).getD rest)
  | _ => none

/-- A clause that opens with a keyword, or its default. -/
def optionalClause {α : Type} (keyword : String) (body : Parser α) (default : α) : Parser α :=
  fun toks =>
    match matchKeyword keyword toks with
    | some rest => body rest
    | none => some (default, toks)

/-- A clause that opens with a keyword and `BY`. -/
def byClause {α : Type} (keyword : String) (item : Parser α) : Parser (List α) :=
  optionalClause keyword (fun toks => do
    let rest ← matchKeyword "BY" toks
    commaSeparated item rest.length [] rest) []

def limitClause : Parser (Option Nat) := fun toks =>
  match matchIdent "LIMIT" toks with
  | some (.int i :: rest) => if i < 0 then none else some (some i.toNat, rest)
  | some _ => none
  | none => some (none, toks)

/-- `parse_select`. A query without FROM is about the table `QueryEngine::new` registers. -/
def parseSelect : Parser SelectQuery := fun toks => do
  let rest ← matchKeyword "SELECT" toks
  let (distinct, rest) := match matchKeyword "DISTINCT" rest with
    | some rest => (true, rest)
    | none => (false, rest)
  let (select, rest) ← parseSelectList H parseDate rest
  let (source, rest) ← optionalClause "FROM" parseTableName "__dummy__" rest
  let (joins, rest) ← parseJoins H parseDate rest.length [] rest
  let optionalExpr : Parser (Option Expr) := fun toks => do
    let (e, rest) ← parseExpr H parseDate toks
    pure (some e, rest)
  let (whereClause, rest) ← optionalClause "WHERE" optionalExpr none rest
  let (groups, rest) ← byClause "GROUP" groupItem rest
  let (having, rest) ← optionalClause "HAVING" optionalExpr none rest
  let (orderBy, rest) ← byClause "ORDER" orderItem rest
  let (limit, rest) ← limitClause rest
  pure ({ select, source, joins, whereClause, groupBy := groups.filterMap id, having,
          orderBy, limit, distinct }, rest)

/-- `parse`: nothing but a semicolon may follow the query. -/
def parseQuery (toks : List Token) : Option SelectQuery := do
  let (q, rest) ← parseSelect H parseDate toks
  match rest with
  | .semicolon :: _ | .eof :: _ => pure q
  | _ => none

end

/-! ## Extensions -/

/-- What `parse_extensions_and_strip` reads that a query without SIMILAR TO uses: the memory
tier. -/
structure QueryExtensions where
  tier : Option String
  deriving DecidableEq, Repr

def isNumberToken : Token → Bool
  | .float _ | .int _ => true
  | _ => false

/-- `parse_extensions_and_strip`: the token stream without the extension clauses. -/
def stripExtensions (H : Host) (ext : QueryExtensions) : List Token →
    Option (QueryExtensions × List Token)
  | [] => some (ext, [])
  | .keyword k :: rest =>
    match k, rest with
    | "APPROXIMATE", .keyword "WITHIN" :: eps :: .keyword "CONFIDENCE" :: conf :: rest =>
      if isNumberToken eps && isNumberToken conf then stripExtensions H ext rest else none
    | "APPROXIMATE", _ => none
    | "TIER", .ident name :: rest => stripExtensions H { tier := some (H.toUppercase name) } rest
    | "TIER", _ => none
    | "SIMILAR", .keyword "TO" :: .hex _ :: .keyword "WITHIN" :: .keyword "HAMMING" ::
        .keyword "DISTANCE" :: .int d :: rest =>
      if d < 0 then none else stripExtensions H ext rest
    | "SIMILAR", .keyword "TO" :: .ident _ :: .hex _ :: .keyword "WITHIN" :: .keyword "HAMMING" ::
        .keyword "DISTANCE" :: .int d :: rest =>
      if d < 0 then none else stripExtensions H ext rest
    | "SIMILAR", _ => none
    | "CONSISTENCY", .ident _ :: rest => stripExtensions H ext rest
    | "CONSISTENCY", _ => none
    | "USING", .ident _ :: rest => stripExtensions H ext rest
    | "USING", _ => none
    | "MEMORY", .keyword "BUDGET" :: .int n :: rest =>
      if n < 0 then none else stripExtensions H ext rest
    | "MEMORY", _ => none
    | "ENERGY", .keyword "BUDGET" :: .int n :: .keyword "JOULES" :: rest =>
      if n < 0 then none else stripExtensions H ext rest
    | "ENERGY", .keyword "BUDGET" :: .int n :: rest =>
      if n < 0 then none else stripExtensions H ext rest
    | "ENERGY", _ => none
    | _, rest => do
      let (ext, stripped) ← stripExtensions H ext rest
      pure (ext, .keyword k :: stripped)
  | tok :: rest => do
    let (ext, stripped) ← stripExtensions H ext rest
    pure (ext, tok :: stripped)

/-- `parse_with_extensions`. -/
def parseWithExtensions (H : Host) (parseDate : String → Option Int) (sql : String) :
    Option (SelectQuery × QueryExtensions) :=
  match tokenize H sql with
  | .error _ => none
  | .ok toks => do
    let (ext, stripped) ← stripExtensions H { tier := none } toks
    let q ← parseQuery H parseDate stripped
    pure (q, ext)

end TensorVault.Sql
