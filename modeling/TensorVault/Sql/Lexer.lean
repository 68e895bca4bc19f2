import TensorVault.Sql.Syntax

/-!
# The SQL tokenizer

`tokenize` of `sql/lexer.rs`. Keywords are matched after upper-casing the whole word,
identifiers keep their case, and `''` inside a quoted string stands for one quote.

The main loop consumes at least one character per turn, so the number of characters left is
enough fuel.
-/

namespace TensorVault.Sql

open Text List

/-- The reserved words. -/
def keywords : List String :=
  ["SELECT", "FROM", "WHERE", "GROUP", "BY", "ORDER", "JOIN", "ON", "LIKE", "DATE", "TIMESTAMP",
   "INTERVAL", "EXTRACT", "CASE", "WHEN", "THEN", "ELSE", "END", "DISTINCT", "INSERT", "UPDATE",
   "DELETE", "BEGIN", "TRANSACTION", "COMMIT", "AND", "OR", "NOT", "AS", "APPROXIMATE", "WITHIN",
   "CONFIDENCE", "TIER", "SIMILAR", "TO", "HAMMING", "DISTANCE", "CONSISTENCY", "SCOPE", "RACK",
   "GLOBAL", "ASYNC", "USING", "MEMORY", "BUDGET", "ENERGY", "JOULES", "CONTINUOUS", "HAVING",
   "OUTER", "LEFT", "INNER", "QUERY", "CREATE", "TABLE", "DROP", "IF", "EXISTS", "INT",
   "INTEGER", "BIGINT", "SMALLINT", "TINYINT", "VARCHAR", "NVARCHAR", "TEXT", "FLOAT", "REAL",
   "DECIMAL", "NUMERIC", "BIT", "BOOLEAN", "JSON", "UUID", "BYTEA", "ENUM", "NULL", "DEFAULT",
   "PRIMARY", "KEY", "REFERENCES", "IDENTITY", "NOT", "SCHEMA", "ALTER", "ROLLBACK", "ADD",
   "COLUMN", "TYPE", "INDEX", "CAST", "YEAR", "MONTH", "DAY", "HOUR", "MINUTE", "SECOND",
   "VALUES", "SET", "INTO", "OUTPUT", "WITH", "UNION", "RECURSIVE", "ALL", "OPTION",
   "MAXRECURSION", "OVER", "PARTITION", "ROWS", "RANGE", "PRECEDING", "FOLLOWING", "CURRENT",
   "ROW", "NUMBER", "BETWEEN", "IN", "IS"]

/-! ## Debug text -/

/-- The derived `Debug` text of a token, which parser errors quote. -/
def Token.debug (H : Host) : Token → String
  | .keyword k => "Keyword(" ++ H.debugStr k ++ ")"
  | .ident s => "Ident(" ++ H.debugStr s ++ ")"
  | .int n => "Int(" ++ toString n ++ ")"
  | .float bits => "Float(" ++ H.debugF64 bits ++ ")"
  | .string s => "String(" ++ H.debugStr s ++ ")"
  | .hex bytes => "Hex([" ++ ", ".intercalate (bytes.map fun b => toString b.toNat) ++ "])"
  | .op s => "Op(" ++ H.debugStr s ++ ")"
  | .lparen => "LParen"
  | .rparen => "RParen"
  | .comma => "Comma"
  | .semicolon => "Semicolon"
  | .eof => "EOF"

/-! ## Words -/

def isIdentChar (H : Host) (c : Char) : Bool := H.isAlphanumeric c || c == '_'

/-- `push_word`: a reserved word in upper case, or an identifier as written. -/
def wordToken (H : Host) (word : String) : Token :=
  let upper := H.toUppercase word
  if keywords.contains upper then .keyword upper else .ident word

/-! ## String and hex literals -/

/-- `read_string_literal`, after the opening quote: the text and what follows it. -/
def readStringLiteral (acc : List Char) : List Char → Except String (String × List Char)
  | [] => .error "unterminated string literal"
  | '\'' :: '\'' :: rest => readStringLiteral (acc ++ ['\'']) rest
  | '\'' :: rest => .ok (String.ofList acc, rest)
  | c :: rest => readStringLiteral (acc ++ [c]) rest

def hexDigit (c : Char) : Option Nat :=
  let n := c.toNat
  if 0x30 ≤ n && n ≤ 0x39 then some (n - 0x30)
  else if 0x61 ≤ n && n ≤ 0x66 then some (n - 0x61 + 10)
  else if 0x41 ≤ n && n ≤ 0x46 then some (n - 0x41 + 10)
  else none

/-- Pairs of hex digits, as bytes. -/
def hexBytes : List Nat → List UInt8
  | hi :: lo :: rest => UInt8.ofNat (16 * hi + lo) :: hexBytes rest
  | _ => []

/-- `read_hex_literal`, after the opening `x'`. -/
def readHexLiteral (H : Host) (acc : List Nat) :
    List Char → Except String (List UInt8 × List Char)
  | [] => .error "unterminated hex literal"
  | c :: rest =>
    if c = '\'' then
      if acc.length % 2 = 0 then .ok (hexBytes acc, rest)
      else .error ("hex literal must have an even number of digits, got " ++ toString acc.length)
    else match hexDigit c with
      | some d => readHexLiteral H (acc ++ [d]) rest
      | none => .error ("invalid hex character: " ++ H.debugStr c.toString)

/-! ## Numbers -/

/-- The exponent part of `read_number`: what is read and what follows. -/
def readExponent : List Char → List Char × List Char
  | e :: rest =>
    if e = 'e' ∨ e = 'E' then
      match rest with
      | s :: rest' =>
        if s = '+' ∨ s = '-' then
          (e :: s :: rest'.takeWhile Char.isDigit, rest'.dropWhile Char.isDigit)
        else (e :: rest.takeWhile Char.isDigit, rest.dropWhile Char.isDigit)
      | [] => ([e], [])
    else ([], e :: rest)
  | [] => ([], [])

/-- `read_number`: a float if the text has a `.` or an exponent. -/
def readNumber (H : Host) (cs : List Char) : Except String (Token × List Char) :=
  let isNumChar := fun c : Char => c.isDigit || c == '.'
  let mantissa := cs.takeWhile isNumChar
  let (exponent, rest) := readExponent (cs.dropWhile isNumChar)
  let s := String.ofList (mantissa ++ exponent)
  if mantissa.contains '.' || !exponent.isEmpty then
    match H.parseF64 s with
    | some bits => .ok (.float bits, rest)
    | none => .error ("invalid float " ++ H.debugStr s ++ ": invalid float literal")
  else
    match parseI64 s with
    | some n => .ok (.int n, rest)
    | none =>
      .error ("invalid integer " ++ H.debugStr s ++ ": number too large to fit in target type")

/-! ## The main loop -/

/-- One turn of the loop: the token that starts at `c`, if any, and the characters left. -/
def nextToken (H : Host) (c : Char) (rest : List Char) : Except String (Option Token × List Char) :=
  if c = ' ' ∨ c = '\t' ∨ c = '\n' ∨ c = '\r' then .ok (none, rest)
  else if c = '(' then .ok (some .lparen, rest)
  else if c = ')' then .ok (some .rparen, rest)
  else if c = ',' then .ok (some .comma, rest)
  else if c = ';' then .ok (some .semicolon, rest)
  else if c = '=' then .ok (some (.op "="), rest)
  else if c = '!' then
    match rest with
    | '=' :: rest' => .ok (some (.op "!="), rest')
    | _ => .error "expected '!=' but found '!' followed by another character"
  else if c = '<' then
    match rest with
    | '=' :: rest' => .ok (some (.op "<="), rest')
    | '>' :: rest' => .ok (some (.op "<>"), rest')
    | _ => .ok (some (.op "<"), rest)
  else if c = '>' then
    match rest with
    | '=' :: rest' => .ok (some (.op ">="), rest')
    | _ => .ok (some (.op ">"), rest)
  else if c = '+' ∨ c = '-' ∨ c = '*' ∨ c = '/' then .ok (some (.op c.toString), rest)
  else if c = '\'' then
    match readStringLiteral [] rest with
    | .ok (s, rest') => .ok (some (.string s), rest')
    | .error e => .error e
  else if c.isDigit then
    match readNumber H (c :: rest) with
    | .ok (tok, rest') => .ok (some tok, rest')
    | .error e => .error e
  else if c = '.' then
    -- `.5` is a number, any other `.` separates the parts of a qualified name
    match rest with
    | d :: _ =>
      if d.isDigit then
        match readNumber H (c :: rest) with
        | .ok (tok, rest') => .ok (some tok, rest')
        | .error e => .error e
      else .ok (some (.op "."), rest)
    | [] => .ok (some (.op "."), rest)
  else if (c = 'x' ∨ c = 'X') ∧ rest.head? = some '\'' then
    match readHexLiteral H [] rest.tail with
    | .ok (bytes, rest') => .ok (some (.hex bytes), rest')
    | .error e => .error e
  else if c.isAlpha || c == '_' then
    .ok (some (wordToken H (String.ofList (c :: rest.takeWhile (isIdentChar H)))),
      rest.dropWhile (isIdentChar H))
  else .error ("unexpected character: " ++ H.debugStr c.toString)

def tokenizeLoop (H : Host) : Nat → List Char → Except String (List Token)
  | _, [] => .ok [.eof]
  | 0, _ :: _ => .ok [.eof]
  | fuel + 1, c :: rest =>
    match nextToken H c rest with
    | .error e => .error e
    | .ok (tok, rest') =>
      match tokenizeLoop H fuel rest' with
      | .error e => .error e
      | .ok toks => .ok (tok.toList ++ toks)

/-- `tokenize`: the tokens of a statement, closed by `EOF`. -/
def tokenize (H : Host) (input : String) : Except String (List Token) :=
  tokenizeLoop H input.length input.toList

/-! ## Blank texts -/

variable {c : Char} {H : Host}

theorem not_isDigit_of_isWhitespace (h : isWhitespace c = true) : c.isDigit = false := by
  simp only [isWhitespace, Char.toNat, Bool.or_eq_true, Bool.and_eq_true, decide_eq_true_eq,
    beq_iff_eq] at h
  simp only [Char.isDigit, UInt32.le_iff_toNat_le, Bool.and_eq_false_iff, decide_eq_false_iff_not,
    ge_iff_le]
  have h0 : '0'.val.toNat = 48 := rfl
  have h9 : '9'.val.toNat = 57 := rfl
  omega

theorem not_isAlpha_of_isWhitespace (h : isWhitespace c = true) : c.isAlpha = false := by
  simp only [isWhitespace, Char.toNat, Bool.or_eq_true, Bool.and_eq_true, decide_eq_true_eq,
    beq_iff_eq] at h
  delta Char.isAlpha Char.isUpper Char.isLower
  simp only [UInt32.le_iff_toNat_le, Bool.or_eq_false_iff, Bool.and_eq_false_iff,
    decide_eq_false_iff_not, ge_iff_le]
  have hA : 'A'.val.toNat = 65 := rfl
  have hZ : 'Z'.val.toNat = 90 := rfl
  have ha : 'a'.val.toNat = 97 := rfl
  have hz : 'z'.val.toNat = 122 := rfl
  omega

/-- The characters that are tokens, or start tokens that are neither numbers nor words. -/
def symbols : List Char := ['(', ')', ',', ';', '=', '!', '<', '>', '+', '-', '*', '/', '\'', '.']

theorem ne_of_mem {p : Char → Bool} (l : List Char) (hc : p c = true)
    (hl : ∀ d ∈ l, p d = false) : ∀ d ∈ l, c ≠ d := by
  rintro d hd rfl
  cases hc.symm.trans (hl c hd)

/-- White space is skipped, or it is an unexpected character. -/
theorem nextToken_of_isWhitespace (h : isWhitespace c = true) {rest : List Char} :
    nextToken H c rest = .ok (none, rest) ∨ ∃ e, nextToken H c rest = .error e := by
  unfold nextToken
  by_cases hskip : c = ' ' ∨ c = '\t' ∨ c = '\n' ∨ c = '\r'
  · rw [if_pos hskip]
    exact .inl rfl
  · have hne := ne_of_mem ('x' :: 'X' :: '_' :: symbols) h (by decide)
    simp only [symbols, forall_mem_cons] at hne
    simp [hskip, hne, not_isDigit_of_isWhitespace h, not_isAlpha_of_isWhitespace h]

theorem tokenizeLoop_of_isWhitespace (H : Host) {cs : List Char}
    (h : ∀ c ∈ cs, isWhitespace c = true) (fuel : Nat) :
    tokenizeLoop H fuel cs = .ok [.eof] ∨ ∃ e, tokenizeLoop H fuel cs = .error e := by
  induction cs generalizing fuel with
  | nil => cases fuel <;> exact .inl rfl
  | cons c cs ih =>
    cases fuel with
    | zero => exact .inl rfl
    | succ fuel =>
      rw [tokenizeLoop]
      rcases nextToken_of_isWhitespace (h c mem_cons_self) with hnext | ⟨e, hnext⟩
      · rw [hnext]
        simp only
        rcases ih (forall_mem_cons.mp h).2 fuel with hrest | ⟨e, hrest⟩
        · rw [hrest]
          exact .inl rfl
        · rw [hrest]
          exact .inr ⟨e, rfl⟩
      · rw [hnext]
        exact .inr ⟨e, rfl⟩

/-- A blank text has no tokens. -/
theorem tokenize_of_trim_eq_empty {sql : String} (h : trim sql = "") :
    tokenize H sql = .ok [.eof] ∨ ∃ e, tokenize H sql = .error e :=
  tokenizeLoop_of_isWhitespace H (isWhitespace_of_trim_eq_empty h) _

end TensorVault.Sql
