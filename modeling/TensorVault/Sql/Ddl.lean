import TensorVault.Sql.Dml

/-!
# The DDL parser

`parse_ddl` of `sql/ddl.rs`. The constraint loop and the column loop consume at least one token
per turn, so the number of tokens left is enough fuel for them.
-/

namespace TensorVault.Sql

/-! ## Names and types -/

/-- `parse_qualified_name` of the DDL parser: schema and name, with `dbo` for a bare name. -/
def ddlName (H : Host) : List Token → Except String ((String × String) × List Token)
  | [] => .error "expected table name"
  | tok :: rest =>
    match nameToken tok with
    | none => .error ("expected identifier, got " ++ tok.debug H)
    | some first =>
      match rest with
      | .op "." :: rest' =>
        match rest' with
        | [] => .error "expected name after ."
        | tok' :: rest'' =>
          match nameToken tok' with
          | none => .error ("expected name after ., got " ++ tok'.debug H)
          | some second => .ok ((first, second), rest'')
      | _ => .ok (("dbo", first), rest)

/-- The `as u32` cast of an integer token. -/
def toU32 (n : Int) : Nat := (n % 2 ^ 32).toNat

/-- The type a type name with its parameters stands for. -/
def typeOfName (name : String) (len1 len2 : Option Nat) : Except String ColumnType :=
  match name with
  | "INT" | "INTEGER" => .ok .int
  | "BIGINT" => .ok .bigInt
  | "SMALLINT" => .ok .smallInt
  | "TINYINT" => .ok .tinyInt
  | "VARCHAR" => .ok (.varchar len1)
  | "NVARCHAR" => .ok (.nvarchar len1)
  | "TEXT" => .ok .text
  | "FLOAT" | "DOUBLE" => .ok .float
  | "REAL" => .ok .real
  | "DECIMAL" => .ok (.decimal len1 len2)
  | "NUMERIC" => .ok (.numeric len1 len2)
  | "BIT" => .ok .bit
  | "BOOLEAN" | "BOOL" => .ok .boolean
  | "DATE" => .ok .date
  | "TIMESTAMP" | "DATETIME2" | "DATETIME" => .ok .timestamp
  | "JSON" => .ok .json
  | "UUID" => .ok .uuid
  | "BYTEA" | "BINARY" | "VARBINARY" => .ok .bytea
  | "ARRAY" => .ok (.array .text)
  | "ENUM" => .ok (.enum ["placeholder"])
  | other => .error ("unknown type: " ++ other)

/-- The closing parenthesis of the type parameters. -/
def closeParams (H : Host) : List Token → Except String (List Token)
  | [] => .error "expected ) after type params"
  | .rparen :: rest => .ok rest
  | tok :: _ => .error ("expected ), got " ++ tok.debug H)

/-- The optional `(n)` or `(p, s)` of a type. -/
def typeParams (H : Host) : List Token → Except String ((Option Nat × Option Nat) × List Token)
  | .lparen :: rest =>
    match rest with
    | [] => .error "expected number after ("
    | .int n :: rest' =>
      match rest' with
      | .comma :: rest'' =>
        match rest'' with
        | [] => .error "expected scale after ,"
        | .int m :: rest3 => do
          pure ((some (toU32 n), some (toU32 m)), ← closeParams H rest3)
        | tok :: _ => .error ("expected scale, got " ++ tok.debug H)
      | _ => do pure ((some (toU32 n), none), ← closeParams H rest')
    | tok :: _ => .error ("expected number, got " ++ tok.debug H)
  | tokens => .ok ((none, none), tokens)

/-- `parse_type`. -/
def parseType (H : Host) : List Token → Except String (ColumnType × List Token)
  | [] => .error "expected column type"
  | tok :: rest => do
    let name ← match tok with
      | .keyword k => pure k
      | .ident s => pure (H.toUppercase s)
      | _ => .error ("expected type, got " ++ tok.debug H)
    let ((len1, len2), rest') ← typeParams H rest
    pure (← typeOfName name len1 len2, rest')

/-! ## Column definitions -/

/-- `token_to_literal`: the text of a `DEFAULT`. -/
def literalText (H : Host) : Token → Except String String
  | .int n => .ok (toString n)
  | .float bits => .ok (H.showF64 bits)
  | .string s => .ok ("'" ++ s ++ "'")
  | .keyword "NULL" => .ok "NULL"
  | tok => .error ("unsupported default value: " ++ tok.debug H)

/-- The optional `(column)` after `REFERENCES table`. -/
def referencedColumn (H : Host) : List Token → Except String (String × List Token)
  | .lparen :: rest =>
    match rest with
    | [] => .error "expected column after REFERENCES ("
    | .ident c :: rest' =>
      match rest' with
      | [] => .error "expected ) after REFERENCES column"
      | .rparen :: rest'' => .ok (c, rest'')
      | tok :: _ => .error ("expected ), got " ++ tok.debug H)
    | tok :: _ => .error ("expected column, got " ++ tok.debug H)
  | tokens => .ok ("id", tokens)

/-- The optional parameters of `IDENTITY`, skipped up to the first `)`. -/
def skipIdentity : List Token → List Token
  | .lparen :: rest => (rest.dropWhile (· != .rparen)).tail
  | tokens => tokens

/-- The constraints of a column; unknown tokens are skipped. -/
def constraints (H : Host) : Nat → ColumnDef → List Token → Except String (ColumnDef × List Token)
  | 0, col, tokens => .ok (col, tokens)
  | _, col, [] => .ok (col, [])
  | fuel + 1, col, tok :: rest =>
    match tok with
    | .comma | .rparen => .ok (col, tok :: rest)
    | .keyword "NOT" => do
      let rest' ← expectKeyword H "NULL" "expected NULL after NOT"
        "expected NULL after NOT, got " rest
      constraints H fuel { col with notNull := true } rest'
    | .keyword "PRIMARY" => do
      let rest' ← expectKeyword H "KEY" "expected KEY after PRIMARY"
        "expected KEY after PRIMARY, got " rest
      constraints H fuel { col with primaryKey := true, notNull := true } rest'
    | .keyword "DEFAULT" =>
      match rest with
      | [] => .error "expected value after DEFAULT"
      | lit :: rest' => do
        let text ← literalText H lit
        constraints H fuel { col with default := some text } rest'
    | .keyword "IDENTITY" => constraints H fuel { col with identity := true } (skipIdentity rest)
    | .keyword "REFERENCES" => do
      let ((_, refTable), rest') ← ddlName H rest
      let (refCol, rest'') ← referencedColumn H rest'
      constraints H fuel { col with references := some (refTable, refCol) } rest''
    | _ => constraints H fuel col rest

/-- `parse_column_def`. -/
def columnDef (H : Host) : List Token → Except String (ColumnDef × List Token)
  | [] => .error "expected column name"
  | .ident name :: rest => do
    let (colType, rest') ← parseType H rest
    constraints H rest'.length
      { name, colType, notNull := false, primaryKey := false, default := none, identity := false,
        references := none } rest'
  | tok :: _ => .error ("expected column name, got " ++ tok.debug H)

/-- The column definitions after `(`. -/
def columnDefs (H : Host) : Nat → List ColumnDef → List Token → Except String (List ColumnDef)
  | 0, _, _ => .error "unterminated column list"
  | fuel + 1, acc, tokens =>
    match tokens with
    | [] => .error "unterminated column list"
    | .rparen :: _ => .ok acc
    | _ => do
      let (col, rest) ← columnDef H tokens
      match rest with
      | [] => .error "unterminated column list"
      | .comma :: rest' => columnDefs H fuel (acc ++ [col]) rest'
      | .rparen :: _ => .ok (acc ++ [col])
      | tok :: _ => .error ("expected , or ) in column list, got " ++ tok.debug H)

/-! ## Statements -/

/-- The optional `IF NOT EXISTS`. `got` says whether the messages quote the offending token. -/
def ifNotExists (H : Host) (got : Bool) : List Token → Except String (Bool × List Token)
  | .keyword "IF" :: rest => do
    let fail := fun (word after : String) (tok : Token) =>
      if got then "expected " ++ word ++ ", got " ++ tok.debug H
      else "expected " ++ word ++ " after " ++ after
    match rest with
    | [] => .error "expected NOT after IF"
    | .keyword "NOT" :: rest' =>
      match rest' with
      | [] => .error "expected EXISTS after NOT"
      | .keyword "EXISTS" :: rest'' => .ok (true, rest'')
      | tok :: _ => .error (fail "EXISTS" "NOT" tok)
    | tok :: _ => .error (fail "NOT" "IF" tok)
  | tokens => .ok (false, tokens)

/-- The optional `IF EXISTS`. -/
def ifExists (H : Host) (got : Bool) : List Token → Except String (Bool × List Token)
  | .keyword "IF" :: rest =>
    match rest with
    | [] => .error "expected EXISTS after IF"
    | .keyword "EXISTS" :: rest' => .ok (true, rest')
    | tok :: _ =>
      .error (if got then "expected EXISTS, got " ++ tok.debug H else "expected EXISTS after IF")
  | tokens => .ok (false, tokens)

/-- `parse_create_table`, after `CREATE TABLE`. -/
def parseCreateTable (H : Host) (tokens : List Token) : Except String CreateTable := do
  let (notExists, tokens) ← ifNotExists H false tokens
  let ((schema, name), tokens) ← ddlName H tokens
  match tokens with
  | [] => .error "expected ( after table name"
  | .lparen :: rest => do
    let columns ← columnDefs H (rest.length + 1) [] rest
    pure { schema, name, columns, ifNotExists := notExists }
  | tok :: _ => .error ("expected ( after table name, got " ++ tok.debug H)

/-- `parse_create_index`, after `CREATE INDEX`. The schema of the table is dropped. -/
def parseCreateIndex (H : Host) (tokens : List Token) : Except String CreateIndex := do
  let (notExists, tokens) ← ifNotExists H true tokens
  let (indexName, tokens) ← match tokens with
    | [] => .error "expected index name after CREATE INDEX"
    | .ident s :: rest => pure (s, rest)
    | tok :: _ => .error ("expected index name, got " ++ tok.debug H)
  let tokens ← expectKeyword H "ON" "expected ON after index name" "expected ON, got " tokens
  let ((_, table), tokens) ← ddlName H tokens
  match tokens with
  | [] => .error "expected ( after table name"
  | .lparen :: rest =>
    match rest with
    | [] => .error "expected column name"
    | .ident column :: rest' =>
      match rest' with
      | [] => .error "expected ) after column name"
      | .rparen :: _ => .ok { indexName, table, column, ifNotExists := notExists }
      | tok :: _ => .error ("expected ), got " ++ tok.debug H)
    | tok :: _ => .error ("expected column name, got " ++ tok.debug H)
  | tok :: _ => .error ("expected (, got " ++ tok.debug H)

/-- `parse_create`, after `CREATE`. -/
def parseCreate (H : Host) : List Token → Except String DdlStatement
  | [] => .error "expected TABLE, SCHEMA, or INDEX after CREATE"
  | .keyword "TABLE" :: rest => do pure (.create (← parseCreateTable H rest))
  | .keyword "SCHEMA" :: rest =>
    match rest with
    | [] => .error "expected schema name after CREATE SCHEMA"
    | .ident s :: _ => .ok (.createSchema s)
    | _ => .error "expected schema name"
  | .keyword "INDEX" :: rest => do pure (.createIndex (← parseCreateIndex H rest))
  | tok :: _ => .error ("expected TABLE, SCHEMA, or INDEX after CREATE, got " ++ tok.debug H)

/-- `parse_drop`, after `DROP`. -/
def parseDrop (H : Host) : List Token → Except String DdlStatement
  | [] => .error "expected TABLE or INDEX after DROP"
  | .keyword "TABLE" :: rest => do
    let (exists_, rest) ← ifExists H false rest
    let ((schema, name), _) ← ddlName H rest
    pure (.drop { schema, name, ifExists := exists_ })
  | .keyword "INDEX" :: rest => do
    let (exists_, rest) ← ifExists H true rest
    match rest with
    | [] => .error "expected index name after DROP INDEX"
    | tok :: _ =>
      match nameToken tok with
      | some indexName => .ok (.dropIndex { indexName, ifExists := exists_ })
      | none => .error ("expected index name, got " ++ tok.debug H)
  | tok :: _ => .error ("expected TABLE or INDEX after DROP, got " ++ tok.debug H)

/-- The optional `COLUMN` keyword of the ALTER actions. -/
def skipColumn : List Token → List Token
  | .keyword "COLUMN" :: rest => rest
  | tokens => tokens

/-- The action of an `ALTER TABLE`, after the table name. -/
def alterAction (H : Host) : List Token → Except String AlterAction
  | [] => .error "expected ADD / DROP / ALTER after table name"
  | .keyword "ADD" :: rest => do
    let (col, _) ← columnDef H (skipColumn rest)
    pure (.addColumn col)
  | .keyword "DROP" :: rest =>
    match skipColumn rest with
    | [] => .error "expected column name after DROP COLUMN"
    | .ident s :: _ => .ok (.dropColumn s)
    | tok :: _ => .error ("expected column name, got " ++ tok.debug H)
  | .keyword "ALTER" :: rest =>
    match skipColumn rest with
    | [] => .error "expected column name after ALTER COLUMN"
    | .ident s :: rest' => do
      let rest' ← expectKeyword H "TYPE" "expected TYPE after column name"
        "expected TYPE, got " rest'
      let (newType, _) ← parseType H rest'
      pure (.alterColumnType s newType)
    | tok :: _ => .error ("expected column name, got " ++ tok.debug H)
  | tok :: _ => .error ("expected ADD / DROP / ALTER, got " ++ tok.debug H)

/-- `parse_alter`, after `ALTER`. -/
def parseAlter (H : Host) (tokens : List Token) : Except String DdlStatement := do
  let tokens ← expectKeyword H "TABLE" "expected TABLE after ALTER"
    "expected TABLE after ALTER, got " tokens
  let ((schema, name), tokens) ← ddlName H tokens
  let action ← alterAction H tokens
  pure (.alterTable { schema, name, action })

/-- `parse_ddl`: `none` for anything that is not DDL. -/
def parseDdl (H : Host) (sql : String) : Except String (Option DdlStatement) := do
  let tokens ← tokenize H sql
  match tokens with
  | .keyword "CREATE" :: rest => do pure (some (← parseCreate H rest))
  | .keyword "DROP" :: rest => do pure (some (← parseDrop H rest))
  | .keyword "ALTER" :: rest => do pure (some (← parseAlter H rest))
  | _ => pure none

end TensorVault.Sql
