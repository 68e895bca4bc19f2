import TensorVault.Engine.Frontend

/-!
# The scanners in front of the parser

`execute_inner` looks for WITH, views, `FOR SYSTEM_TIME AS OF`, UNION ALL, PIVOT and JSON calls in
the raw text: it finds a word in a case-folded copy and cuts the text itself at the byte offset
found there. Every such slice is a `dropBytes`, `takeBytes` or `sliceBytes` here; a slice at an
offset taken from the very text it cuts is a cut of the list. A text with `2 ^ 31` parentheses is
left out.
-/

namespace TensorVault.Scan

open Text

variable (H : Host)

def lower (cs : List Char) : List Char := (H.toLowercase (String.ofList cs)).toList

def upper (cs : List Char) : List Char := (H.toUppercase (String.ofList cs)).toList

/-- The text up to the parenthesis that closes the first one, and the text behind it. -/
def splitClose : Int → List Char → Option (List Char × List Char)
  | _, [] => none
  | depth, c :: cs =>
    if c = ')' ∧ depth - 1 = 0 then some ([], cs)
    else
      let depth := if c = '(' then depth + 1 else if c = ')' then depth - 1 else depth
      (splitClose depth cs).map fun (inside, rest) => (c :: inside, rest)

/-- The text between two quotes or brackets, if it starts and ends with them. -/
def between (first last : Char) (cs : List Char) : Option (List Char) :=
  if cs.head? = some first ∧ cs.getLast? = some last ∧ 2 ≤ byteLength cs then
    some (cs.drop 1).dropLast
  else none

/-- The characters of an alias behind AS. The source counts characters and cuts at bytes. -/
def aliasLength (cs : List Char) : Nat :=
  (cs.takeWhile fun c => H.isAlphanumeric c || c == '_').length

/-! ## WITH -/

/-- `find_top_level_union_all`: a window of nine bytes is cut at every byte outside parentheses,
also at the inner bytes of a longer character. -/
def findTopLevelUnionAll : Int → List Char → Option (Option Nat)
  | _, [] => some none
  | depth, c :: cs =>
    if c = '(' then (findTopLevelUnionAll (depth + 1) cs).map (Option.map (· + 1))
    else if c = ')' then (findTopLevelUnionAll (depth - 1) cs).map (Option.map (· + 1))
    else if depth = 0 ∧ 9 ≤ byteLength (c :: cs) then
      (takeBytes 9 (c :: cs)).bind fun window =>
        if eqIgnoreAsciiCase (String.ofList window) "UNION ALL" then some (some 0)
        else if 1 < utf8Width c ∧ 10 ≤ byteLength (c :: cs) then none
        else (findTopLevelUnionAll depth cs).map (Option.map (· + utf8Width c))
    else (findTopLevelUnionAll depth cs).map (Option.map (· + utf8Width c))

/-- The anchor and the recursive part of a CTE. -/
def splitBody (body : List Char) : Option (List Char × Option (List Char)) := do
  match ← findTopLevelUnionAll 0 (upper H body) with
  | none => return (trimChars body, none)
  | some pos =>
    let anchor ← takeBytes pos body
    let after ← dropBytes pos body
    let part ← dropBytes 9 (trimChars after)
    return (trimChars anchor, some (trimChars part))

/-- One turn of the loop of `parse_with_inner`: a CTE and the text behind it. -/
def parseCte (rest : List Char) : Outcome (CteDef × List Char) :=
  let rest := trimStart rest
  let inName := fun c : Char => !(isWhitespace c || c == '(' || c == ',')
  if rest.all inName then .err (.parse "expected CTE name") else
  let name := String.ofList (trimChars (rest.takeWhile inName))
  let rest := trimStart (rest.dropWhile inName)
  if !"AS".toList.isPrefixOf (upper H rest) then
    .err (.parse ("expected AS after CTE name '" ++ name ++ "'"))
  else
    (Outcome.ofOption (dropBytes 2 rest)).bind fun rest =>
    let rest := trimStart rest
    if rest.head? ≠ some '(' then
      .err (.parse ("expected ( after AS in CTE '" ++ name ++ "'"))
    else
      match splitClose 0 rest with
      | none => .err (.parse ("unterminated ( in CTE '" ++ name ++ "'"))
      | some (inside, rest) =>
        (Outcome.ofOption (splitBody H (inside.drop 1))).bind fun (anchor, recursive) =>
          .ok ({ name, anchor := String.ofList anchor,
                 recursive := recursive.map String.ofList }, rest)

/-- The CTEs of a WITH clause, separated by commas. Each one takes at least its parentheses, so the
length of the text is enough fuel. -/
def parseCtes : Nat → List Char → Outcome (List CteDef × List Char)
  | 0, rest => .ok ([], rest)
  | fuel + 1, rest =>
    (parseCte H rest).bind fun (cte, rest) =>
      match trimStart rest with
      | ',' :: rest => (parseCtes fuel rest).bind fun (ctes, rest) => .ok (cte :: ctes, rest)
      | rest => .ok ([cte], rest)

/-- `str::parse::<u32>` of digits. -/
def parseU32 (cs : List Char) : Option Nat := (parseDigits cs).filter (· < 2 ^ 32)

/-- The outer query without its OPTION clause, and the recursion limit. -/
def splitOption (query : List Char) : Option (List Char × Nat) :=
  match findBytes "OPTION".toList (upper H query) with
  | none => some (query, 100)
  | some optPos =>
    (dropBytes optPos query).bind fun afterOpt =>
      match findBytes "MAXRECURSION".toList (upper H afterOpt) with
      | none => some (query, 100)
      | some mrPos =>
        (dropBytes (mrPos + 12) afterOpt).bind fun afterMr =>
          let digits := (trimStart afterMr).takeWhile fun c => c.isDigit || c == ' '
          (takeBytes optPos query).map fun query =>
            (trimChars query, (parseU32 (trimChars digits)).getD 100)

def parseWithInner (sql : String) : Outcome WithClause :=
  match findBytes "WITH".toList (upper H sql.toList) with
  | none => .err (.parse "expected WITH")
  | some withPos =>
    (Outcome.ofOption (dropBytes (withPos + 4) sql.toList)).bind fun afterWith =>
    let start :=
      if "RECURSIVE ".toList.isPrefixOf (upper H (trimStart afterWith)) then
        dropBytes 10 (trimStart afterWith)
      else some afterWith
    (Outcome.ofOption start).bind fun start =>
    (parseCtes H (start.length + 1) start).bind fun (ctes, rest) =>
    (Outcome.ofOption (splitOption H (trimChars rest))).bind fun (query, maxRecursion) =>
    .ok { ctes, outerQuery := String.ofList query, maxRecursion }

/-- `parse_with`. -/
def parseWith (sql : String) : Option (Outcome WithClause) :=
  if "WITH ".toList.isPrefixOf (upper H (trimStart sql.toList)) then some (parseWithInner H sql)
  else none

/-! ## Views -/

/-- The name of a view: up to `(`, or up to the letters AS wherever they stand. -/
def viewName : List Char → Option (List Char × List Char)
  | [] => some ([], [])
  | c :: cs =>
    let next := (viewName cs).map fun (name, rest) => (c :: name, rest)
    if isWhitespace c || c == '(' || c == 'A' || c == 'a' then
      if 2 ≤ byteLength (c :: cs) then
        (takeBytes 2 (c :: cs)).bind fun nextTwo =>
          if upper H nextTwo = "AS".toList then some ([], c :: cs)
          else if c = '(' then some ([], c :: cs)
          else next
      else if c = '(' then some ([], c :: cs)
      else next
    else next

/-- The text without a clause at its end, wherever the clause stands. -/
def removeClause (clause : List Char) (cs : List Char) : Option (List Char) :=
  match findBytes clause (upper H cs) with
  | none => some cs
  | some i => do
    let before ← takeBytes i cs
    let after ← dropBytes (i + byteLength clause) cs
    return trimChars (before ++ after)

/-- A clause that stands somewhere in the upper-cased text is removed from the SELECT. -/
def removeIfPresent (upperRest : List Char) (clause : String) (select : List Char) :
    Option (List Char) :=
  if contains (String.ofList upperRest) clause then removeClause H clause.toList select
  else some select

/-- The SELECT behind AS, without WITH SCHEMABINDING and WITH CHECK OPTION. -/
def viewSelect (rest : List Char) : Outcome (List Char) :=
  let upperRest := upper H rest
  if !"AS ".toList.isPrefixOf upperRest then .err (.other "expected AS in CREATE VIEW")
  else
    Outcome.ofOption ((dropBytes 3 rest).bind fun select =>
      (removeIfPresent H upperRest "WITH SCHEMABINDING" (trimChars select)).bind
        (removeIfPresent H upperRest "WITH CHECK OPTION"))

/-- The text behind the column aliases of a view, which nothing reads. -/
def skipAliases (rest : List Char) : Outcome (List Char) :=
  if rest.head? = some '(' then
    if ')' ∈ rest then .ok (trimChars ((rest.dropWhile (· != ')')).drop 1))
    else .err (.other "missing ) in view column list")
  else .ok rest

def parseCreateViewInner (sql : String) : Outcome ViewDef :=
  let trimmed := trimChars sql.toList
  let afterCreate :=
    if "CREATE OR ALTER ".toList.isPrefixOf (upper H trimmed) then dropBytes 16 trimmed
    else dropBytes 7 trimmed
  (Outcome.ofOption afterCreate).bind fun afterCreate =>
  if !"VIEW ".toList.isPrefixOf (upper H afterCreate) then
    .err (.other "expected VIEW after CREATE")
  else
    (Outcome.ofOption (dropBytes 5 afterCreate)).bind fun afterView =>
    (Outcome.ofOption (viewName H afterView)).bind fun (name, rest) =>
    (skipAliases (trimChars rest)).bind fun rest =>
    (viewSelect H rest).bind fun select =>
    .ok { name := String.ofList (trimChars name), selectSql := String.ofList select }

/-- `parse_create_view`. -/
def parseCreateView (sql : String) : Option (Outcome ViewDef) :=
  let start := upper H (trimChars sql.toList)
  if "CREATE VIEW ".toList.isPrefixOf start || "CREATE OR ALTER VIEW ".toList.isPrefixOf start then
    some (parseCreateViewInner H sql)
  else none

/-- The name behind DROP VIEW and IF EXISTS. -/
def dropViewName (trimmed : List Char) : Option String :=
  (dropBytes 10 trimmed).bind fun rest =>
    (if "IF EXISTS ".toList.isPrefixOf (upper H rest) then dropBytes 10 rest else some rest).map
      fun rest => String.ofList (trimChars ((trimChars rest).rdropWhile (· == ';')))

/-- `parse_drop_view`. -/
def parseDropView (sql : String) : Option (Outcome String) :=
  let trimmed := trimChars sql.toList
  if "DROP VIEW ".toList.isPrefixOf (upper H trimmed) then
    some (Outcome.ofOption (dropViewName H trimmed))
  else none

/-! ## FOR SYSTEM_TIME AS OF -/

/-- The table named last in front of the clause. -/
def lastFrom (before : List Char) : Option (Option String) :=
  match rfindBytes "from ".toList (lower H before) with
  | none => some none
  | some fromPos =>
    (dropBytes (fromPos + 5) before).map fun afterFrom =>
      (splitWhitespace afterFrom).head?.map String.ofList

/-- `parse_for_system_time`: the table and the timestamp. -/
def parseForSystemTime (sql : String) : Option (Option (String × UInt64)) :=
  match findBytes "for system_time as of".toList (lower H sql.toList) with
  | none => some none
  | some pos =>
    (dropBytes (pos + 21) sql.toList).bind fun after =>
      match parseU64 (String.ofList ((trimStart after).takeWhile Char.isDigit)) with
      | none => some none
      | some timestamp =>
        (takeBytes pos sql.toList).bind fun before =>
          (lastFrom H before).map (Option.map (·, timestamp))

/-- `extract_temporal_table_name`. A name ends at a dot, so `s.t` gives `s`. -/
def temporalTableName (sql : String) : Option (Option String) := do
  let low := lower H sql.toList
  let some pos := findBytes "system_versioning".toList low | return none
  let after := trimStart (← dropBytes (pos + 17) low)
  let after := trimStart (if after.head? = some '=' then after.tail else after)
  if !"on".toList.isPrefixOf after then return none
  let some pos := findBytes "create table".toList low | return none
  let rest := trimStart (← dropBytes (pos + 12) sql.toList)
  let rest ← if "if not exists".toList.isPrefixOf (lower H rest) then
    (dropBytes 13 rest).map trimStart else some rest
  let name := rest.takeWhile fun c => !(isWhitespace c || c == '.' || c == '(')
  return if name = rest ∨ name = [] then none else some (String.ofList name)

/-! ## UNION ALL -/

/-- The depth of the parentheses at the end of a text. -/
def depth (cs : List Char) : Int :=
  cs.foldl (fun d c => if c = '(' then d + 1 else if c = ')' then d - 1 else d) 0

/-- The loop of `split_union_all`. Each turn moves ahead by the nine bytes of the keyword. -/
def splitUnionAllLoop (sql lower : List Char) : Nat → Nat → Option (Option (String × String))
  | 0, _ => some none
  | fuel + 1, searchFrom =>
    (dropBytes searchFrom lower).bind fun tail =>
      match findBytes "union all".toList tail with
      | none => some none
      | some pos =>
        (takeBytes (searchFrom + pos) sql).bind fun before =>
          if depth before = 0 then
            (dropBytes (searchFrom + pos + 9) sql).bind fun after =>
              if trimChars before ≠ [] ∧ trimChars after ≠ [] then
                some (some (String.ofList (trimChars before), String.ofList (trimChars after)))
              else splitUnionAllLoop sql lower fuel (searchFrom + pos + 9)
          else splitUnionAllLoop sql lower fuel (searchFrom + pos + 9)

/-- `split_union_all`. -/
def splitUnionAll (sql : String) : Option (Option (String × String)) :=
  let low := lower H sql.toList
  splitUnionAllLoop sql.toList low (byteLength low + 1) 0

/-! ## PIVOT -/

structure PivotClause where
  agg : String
  valueCol : String
  pivotCol : String
  pivotValues : List String
  deriving DecidableEq, Repr

/-- A value of the IN list without its quotes or brackets. -/
def pivotValue (cs : List Char) : List Char :=
  let cs := trimChars cs
  let cs := (between '\'' '\'' cs).getD cs
  (between '[' ']' cs).getD cs

/-- The function and the column of the aggregate. -/
def pivotAggregate (part : List Char) : Option (Option (List Char × List Char)) :=
  match findBytes ['('] part, rfindBytes [')'] part with
  | some first, some last =>
    (takeBytes first part).bind fun agg =>
      (sliceBytes (first + 1) last part).map fun valueCol =>
        if upper H (trimChars agg) = [] ∨ trimChars valueCol = [] then none
        else some (upper H (trimChars agg), trimChars valueCol)
  | _, _ => some none

/-- The column and the values behind FOR. -/
def pivotColumn (afterFor : List Char) : Option (Option (List Char × List (List Char))) :=
  match findBytes " in ".toList (lower H afterFor) with
  | none => some none
  | some inPos =>
    (takeBytes inPos afterFor).bind fun pivotCol =>
      (dropBytes (inPos + 4) afterFor).map fun afterIn =>
        let afterIn := trimStart afterIn
        if afterIn.head? = some '(' ∧ ')' ∈ afterIn then
          let values :=
            ((splitOn ',' ((afterIn.drop 1).takeWhile (· != ')'))).map pivotValue).filter (· ≠ [])
          if values = [] then none else some (trimChars pivotCol, values)
        else none

/-- What stands between the parentheses of PIVOT. -/
def pivotSpec (inner : List Char) : Option (Option PivotClause) :=
  match findBytes " for ".toList (lower H inner) with
  | none => some none
  | some forPos =>
    (takeBytes forPos inner).bind fun aggPart =>
    (dropBytes (forPos + 5) inner).bind fun afterFor =>
    (pivotColumn H afterFor).bind fun
      | none => some none
      | some (pivotCol, values) =>
        (pivotAggregate H (trimChars aggPart)).map fun agg => agg.map fun (agg, valueCol) =>
          { agg := String.ofList agg, valueCol := String.ofList valueCol,
            pivotCol := String.ofList pivotCol, pivotValues := values.map String.ofList }

/-- `parse_pivot_clause`. -/
def parsePivotClause (sql : String) : Option (Option PivotClause) :=
  match findBytes "pivot ".toList (lower H sql.toList) with
  | none => some none
  | some pivotPos =>
    (dropBytes (pivotPos + 6) sql.toList).bind fun afterPivot =>
      let afterPivot := trimStart afterPivot
      if afterPivot.head? ≠ some '(' then some none
      else
        match splitClose 0 afterPivot with
        | none => some none
        | some (inside, _) => pivotSpec H (inside.drop 1)

/-- The text behind an alias that follows the PIVOT clause. -/
def skipAlias (rest : List Char) : Option (List Char) :=
  let trimmed := trimStart rest
  if "AS ".toList.isPrefixOf (upper H trimmed) then
    (dropBytes 3 trimmed).bind fun afterAs => dropBytes (aliasLength H afterAs) afterAs
  else some rest

/-- `strip_pivot_clause`. -/
def stripPivotClause (sql : String) : Option String :=
  match findBytes "pivot ".toList (lower H sql.toList) with
  | none => some sql
  | some pivotPos =>
    (dropBytes (pivotPos + 6) sql.toList).bind fun afterPivot =>
      match splitClose 0 (trimStart afterPivot) with
      | none => some sql
      | some (_, rest) =>
        (skipAlias H rest).bind fun rest =>
          (takeBytes pivotPos sql.toList).map fun before => String.ofList (before ++ rest)

/-! ## JSON_VALUE and JSON_QUERY -/

structure JsonValueCall where
  start : Nat
  stop : Nat
  colName : String
  path : String
  isQuery : Bool
  aliasName : Option String
  selectPosition : Nat
  deriving DecidableEq, Repr

/-- The next call in a lower-cased text, and whether it is JSON_QUERY. -/
def nextCall (tail : List Char) : Option (Nat × Bool) :=
  match findBytes "json_value(".toList tail, findBytes "json_query(".toList tail with
  | some p, some q => if p ≤ q then some (p, false) else some (q, true)
  | some p, none => some (p, false)
  | none, some q => some (q, true)
  | none, none => none

/-- The text from a byte on, and how many bytes of a character it was cut in are left out. -/
def skipBytes : Nat → List Char → Nat × List Char
  | 0, cs => (0, cs)
  | _ + 1, [] => (0, [])
  | n + 1, c :: cs =>
    if utf8Width c ≤ n + 1 then skipBytes (n + 1 - utf8Width c) cs
    else (utf8Width c - (n + 1), cs)

/-- The offset of the parenthesis that closes a call, outside string literals. -/
def closeOffset : Int → Bool → List Char → Option Nat
  | _, _, [] => none
  | depth, true, c :: cs => (closeOffset depth (c != '\'') cs).map (· + utf8Width c)
  | depth, false, c :: cs =>
    if c = ')' ∧ depth - 1 = 0 then some 0
    else
      let depth := if c = '(' then depth + 1 else if c = ')' then depth - 1 else depth
      (closeOffset depth (c == '\'') cs).map (· + utf8Width c)

/-- `count_top_level_commas`. -/
def countTopLevelCommas : Int → Bool → List Char → Nat
  | _, _, [] => 0
  | depth, true, c :: cs => countTopLevelCommas depth (c != '\'') cs
  | depth, false, c :: cs =>
    let depth := if c = '(' then depth + 1 else if c = ')' then depth - 1 else depth
    (if c = ',' ∧ depth = 0 then 1 else 0) + countTopLevelCommas depth (c == '\'') cs

/-- The text on both sides of the first comma outside string literals. -/
def splitComma : Bool → List Char → Option (List Char × List Char)
  | _, [] => none
  | inStr, c :: cs =>
    if c = ',' ∧ inStr = false then some ([], cs)
    else
      let inStr := if c = '\'' then !inStr else inStr
      (splitComma inStr cs).map fun (left, right) => (c :: left, right)

/-- `parse_json_value_args`: the column and the path. -/
def parseJsonValueArgs (args : List Char) : Option (List Char × List Char) := do
  let (colName, path) ← splitComma false args
  let path ← between '\'' '\'' (trimChars path)
  if trimChars colName = [] ∨ path = [] then none else some (trimChars colName, path)

/-- The alias behind a call that ends at `stop`, and the end of the call with its alias. -/
def callAlias (stop : Nat) (rest : List Char) : Option (Option String × Nat) :=
  let trimmed := trimStart rest
  if "AS ".toList.isPrefixOf (upper H trimmed) then
    (dropBytes 3 trimmed).bind fun afterAs =>
      let len := aliasLength H afterAs
      if 0 < len then
        (takeBytes len afterAs).map fun name =>
          (some (String.ofList name), stop + (byteLength rest - byteLength trimmed) + 3 + len)
      else some (none, stop)
  else some (none, stop)

/-- `SELECT` at the start of the list a call stands in. -/
def selectPos (lower : List Char) : Option Nat :=
  (findBytes "select ".toList lower).or (findBytes "select\n".toList lower)

/-- The place of a call at `pos` in the SELECT list. -/
def selectPosition (lower : List Char) (pos : Nat) : Option Nat :=
  match selectPos lower with
  | none => some 0
  | some sp => (sliceBytes sp pos lower).map (countTopLevelCommas 0 false)

/-- The loop of `extract_json_value_calls`. Each turn moves ahead behind a closing parenthesis. -/
def extractLoop (sql lower : List Char) : Nat → Nat → Option (List JsonValueCall)
  | 0, _ => some []
  | fuel + 1, searchFrom =>
    (dropBytes searchFrom lower).bind fun tail =>
      match nextCall tail with
      | none => some []
      | some (p, isQuery) =>
        -- both names are ten characters long, and the parenthesis belongs to the pattern
        let pos := p + searchFrom
        let (part, scanned) := skipBytes (pos + 11) sql
        match closeOffset 1 false scanned with
        | none => some []
        | some offset =>
          let close := pos + 11 + part + offset
          (sliceBytes (pos + 11) close sql).bind fun args =>
            match parseJsonValueArgs args with
            | none => extractLoop sql lower fuel (close + 1)
            | some (colName, path) =>
              (dropBytes (close + 1) sql).bind fun rest =>
              (callAlias H (close + 1) rest).bind fun (aliasName, stop) =>
              (selectPosition lower pos).bind fun position =>
              (extractLoop sql lower fuel stop).map fun calls =>
                { start := pos, stop, colName := String.ofList colName, path := String.ofList path,
                  isQuery, aliasName, selectPosition := position } :: calls

/-- `extract_json_value_calls`. -/
def extractJsonValueCalls (sql : String) : Option (List JsonValueCall) :=
  extractLoop H sql.toList (lower H sql.toList) (byteLength sql.toList + 1) 0

/-- The text with each call replaced by its column. -/
def rewriteCalls (sql : List Char) : Nat → List JsonValueCall → Option (List Char)
  | lastEnd, [] => dropBytes lastEnd sql
  | lastEnd, call :: calls =>
    (sliceBytes lastEnd call.start sql).bind fun before =>
      (rewriteCalls sql call.stop calls).map fun rest => before ++ call.colName.toList ++ rest

/-! ## The scanners as a frontend -/

/-- What the scanners leave to the rest of the engine: `apply_pivot` for a clause, and what is made
of the result for the JSON calls. -/
structure Transforms where
  pivot : PivotClause → QueryResult → QueryResult
  json : List JsonValueCall → QueryResult → QueryResult

/-- The frontend with the scanners of this file; procedures, MERGE, EXPLAIN and SELECT are those of
the given one. -/
def frontend (T : Transforms) (F : Frontend) : Frontend :=
  { F with
    forSystemTime := parseForSystemTime H
    temporalTableName := temporalTableName H
    withClause := parseWithInner H
    createView := parseCreateViewInner H
    dropView := fun sql => Outcome.ofOption (dropViewName H (trimChars sql.toList))
    unionAll := splitUnionAll H
    pivot := fun sql =>
      (parsePivotClause H sql).bind fun
        | none => some none
        | some clause => (stripPivotClause H sql).map fun stripped =>
          some (stripped, T.pivot clause)
    jsonValue := fun sql =>
      (extractJsonValueCalls H sql).bind fun calls =>
        (rewriteCalls sql.toList 0 calls).map fun rewritten =>
          (String.ofList rewritten, T.json calls) }

end TensorVault.Scan
