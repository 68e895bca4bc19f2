import TensorVault.Sql.Lexer

/-!
# The DML parser

`parse_dml` of `sql/dml.rs`. The source walks a token slice with a position; here a parser takes
the tokens left and returns those it did not consume. Values and clauses come out as text again:
a string literal is put back between quotes without escaping the quotes inside it.
-/

namespace TensorVault.Sql

/-! ## Tokens as text -/

def hexText (bytes : List UInt8) : String :=
  let digit := fun n : Nat => Char.ofNat (if n < 10 then 0x30 + n else 0x57 + n)
  "x'" ++ String.ofList (bytes.flatMap fun b => [digit (b.toNat / 16), digit (b.toNat % 16)]) ++ "'"

/-- `token_to_value_string`. -/
def valueString (H : Host) : Token → Except String String
  | .int n => .ok (toString n)
  | .float bits => .ok (H.showF64 bits)
  | .string s => .ok ("'" ++ s ++ "'")
  | .hex bytes => .ok (hexText bytes)
  | .keyword k => .ok k
  | .ident s => .ok s
  | .op s => .ok s
  | tok => .error ("unsupported value: " ++ tok.debug H)

/-- The text of a token inside a collected expression. -/
def exprText (H : Host) : Token → String
  | .keyword k => k
  | .ident s => s
  | .int n => toString n
  | .float bits => H.showF64 bits
  | .string s => "'" ++ s ++ "'"
  | .hex bytes => hexText bytes
  | .op s => s
  | .lparen => "("
  | .rparen => ")"
  | .comma => ","
  | .semicolon => ""
  | .eof => ""

/-- `collect_rest`: everything up to `;` or the end. -/
def collectRest (H : Host) (tokens : List Token) : String :=
  " ".intercalate ((tokens.takeWhile fun t => t != .semicolon && t != .eof).map (exprText H))

/-! ## Names -/

/-- A name token; keywords are allowed. -/
def nameToken : Token → Option String
  | .ident s => some s
  | .keyword k => some k
  | _ => none

/-- `parse_qualified_name` of the DML parser: `a` or `a.b`, kept as one name. -/
def dmlName (H : Host) : List Token → Except String (String × List Token)
  | [] => .error "expected table name"
  | tok :: rest =>
    match nameToken tok with
    | none => .error ("expected table name, got " ++ tok.debug H)
    | some first =>
      match rest with
      | .op "." :: rest' =>
        match rest' with
        | [] => .error "expected name after ."
        | tok' :: rest'' =>
          match nameToken tok' with
          | none => .error ("expected name after ., got " ++ tok'.debug H)
          | some second => .ok (first ++ "." ++ second, rest'')
      | _ => .ok (first, rest)

/-- A required keyword, with the messages for the end of input and for any other token. -/
def expectKeyword (H : Host) (k atEnd other : String) : List Token → Except String (List Token)
  | [] => .error atEnd
  | tok :: rest => if tok = .keyword k then .ok rest else .error (other ++ tok.debug H)

/-! ## INSERT -/

/-- The column list after `(`. Commas between names are optional. -/
def columnList (H : Host) (acc : List String) : List Token →
    Except String (List String × List Token)
  | [] => .error "unterminated column list"
  | .rparen :: rest => .ok (acc, rest)
  | .ident _ :: [] => .error "unterminated column list"
  | .ident s :: .comma :: rest => columnList H (acc ++ [s]) rest
  | .ident s :: .rparen :: rest => .ok (acc ++ [s], rest)
  | .ident s :: tok :: rest => columnList H (acc ++ [s]) (tok :: rest)
  | tok :: _ => .error ("expected column or ), got " ++ tok.debug H)

/-- The rows after `VALUES`. `row` is the row being read, or `none` between rows. -/
def valueRows (H : Host) (done : List (List String)) :
    Option (List String) → List Token → Except String (List (List String))
  | none, [] => .error "expected ( after VALUES"
  | none, tok :: rest =>
    match tok with
    | .lparen => valueRows H done (some []) rest
    | .semicolon | .eof => .ok done
    | _ => .error ("expected ( or end, got " ++ tok.debug H)
  | some _, [] => .error "unterminated value list"
  | some row, tok :: rest =>
    match tok with
    | .rparen =>
      match rest with
      | .comma :: rest' => valueRows H (done ++ [row]) none rest'
      | _ => .ok (done ++ [row])
    | .comma => valueRows H done (some row) rest
    | _ =>
      match valueString H tok with
      | .ok v => valueRows H done (some (row ++ [v])) rest
      | .error e => .error e

/-- `parse_insert`, after `INSERT`. -/
def parseInsert (H : Host) (tokens : List Token) : Except String Insert := do
  let tokens ← expectKeyword H "INTO" "expected INTO after INSERT" "expected INTO, got " tokens
  let (table, tokens) ← dmlName H tokens
  let (columns, tokens) ← match tokens with
    | .lparen :: rest => do
      let (cols, rest') ← columnList H [] rest
      pure (some cols, rest')
    | _ => pure (none, tokens)
  let tokens ← expectKeyword H "VALUES" "expected VALUES" "expected VALUES, got " tokens
  let values ← valueRows H [] none tokens
  pure { table, columns, values }

/-! ## UPDATE and DELETE -/

/-- The assignments after `SET`, and the tokens from the one that ended them. `cur` is the
assignment being read: its column and the texts collected for its expression. -/
def assignments (H : Host) (done : List (String × String)) :
    Option (String × List String) → List Token →
      Except String (List (String × String) × List Token)
  | none, [] => .error "expected column name in SET"
  | none, tok :: rest =>
    match tok with
    | .ident col =>
      match rest with
      | [] => .error "expected = after column name"
      | opTok :: rest' =>
        if opTok = .op "=" then assignments H done (some (col, [])) rest'
        else .error ("expected = after column name, got " ++ opTok.debug H)
    | _ => .error ("expected column name in SET, got " ++ tok.debug H)
  | some (col, parts), [] => .ok (done ++ [(col, " ".intercalate parts)], [])
  | some (col, parts), tok :: rest =>
    match tok with
    | .comma => assignments H (done ++ [(col, " ".intercalate parts)]) none rest
    | .semicolon | .eof | .keyword "WHERE" =>
      .ok (done ++ [(col, " ".intercalate parts)], tok :: rest)
    | _ => assignments H done (some (col, parts ++ [exprText H tok])) rest

/-- The optional clause at the end of UPDATE and DELETE. -/
def whereRest (H : Host) : List Token → Option String
  | .keyword "WHERE" :: rest => some (collectRest H rest)
  | _ => none

/-- `parse_update`, after `UPDATE`. -/
def parseUpdate (H : Host) (tokens : List Token) : Except String Update := do
  let (table, tokens) ← dmlName H tokens
  let tokens ← expectKeyword H "SET" "expected SET after table name" "expected SET, got " tokens
  let (assigns, tokens) ← assignments H [] none tokens
  pure { table, assignments := assigns, whereClause := whereRest H tokens }

/-- `parse_delete`, after `DELETE`. -/
def parseDelete (H : Host) (tokens : List Token) : Except String Delete := do
  let tokens ← expectKeyword H "FROM" "expected FROM after DELETE" "expected FROM, got " tokens
  let (table, tokens) ← dmlName H tokens
  pure { table, whereClause := whereRest H tokens }

/-- `parse_dml`: `none` for anything that is not DML. -/
def parseDml (H : Host) (sql : String) : Except String (Option DmlStatement) := do
  let tokens ← tokenize H sql
  match tokens with
  | .keyword "INSERT" :: rest => do pure (some (.insert (← parseInsert H rest)))
  | .keyword "UPDATE" :: rest => do pure (some (.update (← parseUpdate H rest)))
  | .keyword "DELETE" :: rest => do pure (some (.delete (← parseDelete H rest)))
  | _ => pure none

end TensorVault.Sql
