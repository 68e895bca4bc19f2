import TensorVault.Engine.Execute

/-!
# Statements that reach the DDL and DML parsers

`execute_inner` makes a dozen tests on the raw text before it parses a statement. `Unclaimed` says
that none of the tests for a phrase inside the text takes the statement, and `innerRoute_plain` that
it then goes to the parsers, provided it starts with a word that the other tests do not look for.
-/

namespace TensorVault

open Text Sql List

variable {H : Host} {F : Frontend}

/-! ## Phrases inside the text -/

/-- No phrase inside the text is taken for a clause. -/
structure Unclaimed (H : Host) (F : Frontend) (sql : String) : Prop where
  asOf : (if contains (H.toLowercase sql) "for system_time as of" then F.forSystemTime sql
    else some none) = some none
  unionAll : (if contains (H.toLowercase sql) "union all" then F.unionAll sql else some none) =
    some none
  pivot : (if contains (H.toLowercase sql) "pivot " then F.pivot sql else some none) = some none
  json : (contains (H.toLowercase sql) "json_value(" ||
    contains (H.toLowercase sql) "json_query(") = false

/-- None of the phrases occurs. -/
structure Quiet (H : Host) (sql : String) : Prop where
  asOf : contains (H.toLowercase sql) "for system_time as of" = false
  unionAll : contains (H.toLowercase sql) "union all" = false
  pivot : contains (H.toLowercase sql) "pivot " = false
  jsonValue : contains (H.toLowercase sql) "json_value(" = false
  jsonQuery : contains (H.toLowercase sql) "json_query(" = false

theorem Quiet.unclaimed {sql : String} (h : Quiet H sql) : Unclaimed H F sql where
  asOf := by simp [h.asOf]
  unionAll := by simp [h.unionAll]
  pivot := by simp [h.pivot]
  json := by simp [h.jsonValue, h.jsonQuery]

theorem clauseKind_of_unclaimed {sql : String} (h : Unclaimed H F sql) :
    clauseKind H F sql = tableKind H F sql := by
  simp only [clauseKind, h.unionAll, h.pivot, Kind.ofOption, h.json, Bool.false_eq_true, if_false]

/-! ## Words at the start -/

/-- Neither of two texts goes on from the other. -/
def differ (a b : List Char) : Bool := !a.isPrefixOf b && !b.isPrefixOf a

theorem startsWith_of_differ {s word : String} {start : List Char} (h : start <+: s.toList)
    (hdiffer : differ start word.toList = true) : startsWith s word = false := by
  simp only [differ, Bool.and_eq_true, Bool.not_eq_true'] at hdiffer
  by_contra hstarts
  rw [Bool.not_eq_false, startsWith, isPrefixOf_iff_prefix] at hstarts
  rcases prefix_or_prefix_of_prefix h hstarts with hpre | hpre
  · exact Bool.false_ne_true <| hdiffer.1.symm.trans <| isPrefixOf_iff_prefix.mpr hpre
  · exact Bool.false_ne_true <| hdiffer.2.symm.trans <| isPrefixOf_iff_prefix.mpr hpre

/-- The words `execute_inner` looks for in the lower-cased text, and in the upper-cased one. -/
def lowerWords : List String := ["savepoint ", "rollback to ", "release "]

def upperWords : List String :=
  ["WITH ", "CREATE VIEW ", "CREATE OR ALTER VIEW ", "DROP VIEW ", "CREATE PROCEDURE ",
   "CREATE OR ALTER PROCEDURE ", "CREATE FUNCTION ", "CREATE OR ALTER FUNCTION ", "EXEC ",
   "EXECUTE ", "MERGE "]

/-- The words `execute` looks for in the lower-cased text. -/
def outerWords : List String :=
  ["explain ", "analyze ", "vacuum", "copy ", "checkpoint", "begin", "start transaction", "commit",
   "rollback"]

/-- `execute` hands a text on that none of its words begins, but for ROLLBACK TO. -/
theorem outerRoute_of_words {sql : String}
    (hwords : ∀ word ∈ outerWords.dropLast, startsWith (H.toLowercase (trim sql)) word = false)
    (hrollback : (startsWith (H.toLowercase (trim sql)) "rollback" &&
      !startsWith (H.toLowercase (trim sql)) "rollback to ") = false) :
    outerRoute H sql = .inner := by
  unfold outerRoute
  simp only [hwords "explain " (by decide), hwords "analyze " (by decide),
    hwords "vacuum" (by decide), hwords "copy " (by decide), hwords "checkpoint" (by decide),
    hwords "begin" (by decide), hwords "start transaction" (by decide), hwords "commit" (by decide),
    hrollback, Bool.false_eq_true, if_false, Bool.or_self]

/-- The start of a statement that none of the words begins. -/
structure PlainStart (start : List Char) : Prop where
  ascii : ∀ c ∈ start, c.toNat < 128
  head : start.head?.all (!isWhitespace ·) = true
  last : start.getLast?.all (!isWhitespace ·) = true
  lower : ∀ word ∈ lowerWords, differ (start.map Char.toLower) word.toList = true
  upper : ∀ word ∈ upperWords, differ (start.map Char.toUpper) word.toList = true

section Start

variable (hcases : H.CasesAsciiStart) {start : List Char} (hstart : PlainStart start)
  (rest : List Char)
include hcases hstart

theorem startsWith_lower_trim {word : String}
    (hword : differ (start.map Char.toLower) word.toList = true) :
    startsWith (H.toLowercase (trim (String.ofList (start ++ rest)))) word = false := by
  obtain ⟨rest', hrest⟩ := prefix_trimChars hstart.head hstart.last
  refine startsWith_of_differ ?_ hword
  rw [trim, String.toList_ofList, ← hrest]
  exact hcases.lower start rest' hstart.ascii

theorem startsWith_upper_trim (word : String) (hword : word ∈ upperWords) :
    startsWith (H.toUppercase (trim (String.ofList (start ++ rest)))) word = false := by
  obtain ⟨rest', hrest⟩ := prefix_trimChars hstart.head hstart.last
  refine startsWith_of_differ ?_ (hstart.upper word hword)
  rw [trim, String.toList_ofList, ← hrest]
  exact hcases.upper start rest' hstart.ascii

/-- The test for WITH is made on the text without the white space in front of it only. -/
theorem startsWith_upper_trimStart (word : String) (hword : word ∈ upperWords) (hne : start ≠ []) :
    startsWith (H.toUppercase (String.ofList
      ((String.ofList (start ++ rest)).toList.dropWhile isWhitespace))) word = false := by
  obtain ⟨c, start', rfl⟩ := exists_cons_of_ne_nil hne
  have hc : isWhitespace c = false := by simpa using hstart.head
  refine startsWith_of_differ ?_ (hstart.upper word hword)
  rw [String.toList_ofList, cons_append, dropWhile_cons_of_neg (by simp [hc]), ← cons_append]
  exact hcases.upper _ rest hstart.ascii

/-- The statement is none of those that a word at the start tells. -/
theorem kindOf_start (hne : start ≠ []) :
    kindOf H F (String.ofList (start ++ rest)) =
      clauseKind H F (String.ofList (start ++ rest)) := by
  have hupper := startsWith_upper_trim hcases hstart rest
  unfold kindOf
  simp only [startsWith_upper_trimStart hcases hstart rest "WITH " (by decide) hne,
    hupper "CREATE VIEW " (by decide), hupper "CREATE OR ALTER VIEW " (by decide),
    hupper "DROP VIEW " (by decide), hupper "CREATE PROCEDURE " (by decide),
    hupper "CREATE OR ALTER PROCEDURE " (by decide), hupper "CREATE FUNCTION " (by decide),
    hupper "CREATE OR ALTER FUNCTION " (by decide), hupper "EXEC " (by decide),
    hupper "EXECUTE " (by decide), hupper "MERGE " (by decide), Bool.or_self, Bool.false_eq_true,
    if_false]

/-- The start of the text is not about savepoints, and it has no AS OF clause that counts. -/
theorem innerRoute_start (hne : start ≠ [])
    (hasOf : (if contains (H.toLowercase (String.ofList (start ++ rest)))
      "for system_time as of" then
      F.forSystemTime (String.ofList (start ++ rest)) else some none) = some none) :
    innerRoute H F (String.ofList (start ++ rest)) =
      .statement none (clauseKind H F (String.ofList (start ++ rest))) := by
  have hlower := fun word hword => startsWith_lower_trim hcases hstart rest
    (hstart.lower word hword)
  unfold innerRoute
  simp only [hlower "savepoint " (by decide), hlower "rollback to " (by decide),
    hlower "release " (by decide), Bool.false_eq_true, if_false, hasOf,
    kindOf_start hcases hstart rest hne]

/-- **A plain statement goes to the parsers.** -/
theorem innerRoute_plain (hne : start ≠ []) (h : Unclaimed H F (String.ofList (start ++ rest))) :
    innerRoute H F (String.ofList (start ++ rest)) =
      .statement none (tableKind H F (String.ofList (start ++ rest))) := by
  rw [innerRoute_start hcases hstart rest hne h.asOf, clauseKind_of_unclaimed h]

/-- A statement that none of the words of `execute` begins goes to `execute_inner`. -/
theorem outerRoute_plain
    (h : ∀ word ∈ outerWords, differ (start.map Char.toLower) word.toList = true) :
    outerRoute H (String.ofList (start ++ rest)) = .inner := by
  have hlower := fun word hword => startsWith_lower_trim hcases hstart rest (h word hword)
  refine outerRoute_of_words (fun word hword => hlower word (mem_of_mem_dropLast hword)) ?_
  rw [hlower "rollback" (by decide), Bool.false_and]

end Start

/-! ## What the parsers make of it -/

namespace QueryEngine

variable {n : Nat} {e : QueryEngine} {sql : String} {txnId : Option UInt64}

theorem executeInner_dml {d : DmlStatement} (h : innerRoute H F sql = .statement none (.dml d)) :
    executeInner H F n e sql txnId = executeDmlStmt H e sql txnId d := by
  obtain ⟨exec, inner, hstep⟩ := executeInner_eq_step H F n
  rw [hstep, executeInnerStep, h]
  rfl

theorem executeInner_ddl {d : DdlStatement} {temporal : Option (Option String)}
    (h : innerRoute H F sql = .statement none (.ddl d temporal)) :
    executeInner H F n e sql txnId = executeDdlStmt H e sql txnId d temporal := by
  obtain ⟨exec, inner, hstep⟩ := executeInner_eq_step H F n
  rw [hstep, executeInnerStep, h]
  rfl

/-- Outside a transaction `execute` hands a plain statement on. -/
theorem execute_plain (houter : outerRoute H sql = .inner) (hactive : e.txnManager.active = none) :
    execute H F n e sql = executeInner H F n e sql none := by
  simp only [execute, executeStep, houter, executeRouted, hactive]

theorem executeInner_fail {err : Error} (h : innerRoute H F sql = .statement none (.fail err)) :
    executeInner H F n e sql txnId = e.fail err := by
  obtain ⟨exec, inner, hstep⟩ := executeInner_eq_step H F n
  rw [hstep, executeInnerStep, h]
  rfl

end QueryEngine

end TensorVault
