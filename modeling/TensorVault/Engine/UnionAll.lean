import TensorVault.Engine.FastPath
import TensorVault.Engine.ScannerSafety

/-!
# UNION ALL

The text is cut at the first UNION ALL outside parentheses, and what is right of it is executed like
any other statement. `split_union_all` knows no literals: `CutsAt` says what it needs to cut a text
between two parts. `concatenate_results` appends the cells of the right result. It appends texts
only to texts, fills up with empty ones, and leaves the NULL mask of the left result as it is:
`unionAll_iff` says for which results no text and no NULL flag is lost.
-/

namespace TensorVault

/-! ## Rows one below the other -/

namespace ResultColumn

/-- The texts of the first rows; a column without strings has none. -/
def texts (c : ResultColumn) (n : Nat) : List (Option String) :=
  (List.range n).map fun r => c.stringValues.bind (·[r]?)

def flags (c : ResultColumn) (n : Nat) : List Bool := (List.range n).map (nullFlagAt c.nullMask)

end ResultColumn

namespace QueryResult

def column (q : QueryResult) (i : Nat) : ResultColumn :=
  q.columns.getD i
    { name := "", values := [], stringValues := none, typeOid := 0, nullMask := none }

def texts (q : QueryResult) (i : Nat) : List (Option String) := (q.column i).texts q.rowCount

def flags (q : QueryResult) (i : Nat) : List Bool := (q.column i).flags q.rowCount

def Exact (q : QueryResult) : Prop := ∀ i < q.columns.length, (q.column i).Exact q.rowCount

/-- A result that has the rows of the others, one below the other. -/
structure Stacks (res : QueryResult) (width : Nat) (qs : List QueryResult) : Prop where
  rowCount : res.rowCount = (qs.map rowCount).sum
  columns : res.columns.length = width
  lengths : res.Exact
  values : ∀ i < width, (res.column i).values = qs.flatMap fun q => (q.column i).values
  texts : ∀ i < width, res.texts i = qs.flatMap (·.texts i)
  flags : ∀ i < width, res.flags i = qs.flatMap (·.flags i)

end QueryResult

open QueryResult List

/-- What the UNION ALL of some results is executed to. -/
def unionResult : QueryResult → List QueryResult → QueryResult
  | q, [] => q
  | q, p :: qs => concatenateResults q (unionResult p qs)

/-- The texts of the column, below a result that has strings: those behind the first result without
strings are all empty. -/
def TextsKept (i : Nat) : List QueryResult → Prop
  | [] => True
  | q :: qs =>
    match (q.column i).stringValues with
    | some _ => TextsKept i qs
    | none => ∀ p ∈ q :: qs, ∀ text ∈ p.texts i, text = some ""

/-- Nothing of the column is lost: the first result has no NULL mask unless it has all the rows, the
others have no NULLs, and they have strings if and only if it has. -/
structure Stackable (i : Nat) (q : QueryResult) (qs : List QueryResult) : Prop where
  mask : (q.column i).nullMask = none ∨ ∀ p ∈ qs, p.rowCount = 0
  flags : ∀ p ∈ qs, ∀ flag ∈ p.flags i, flag = false
  texts : match (q.column i).stringValues with
    | some _ => TextsKept i qs
    | none => ∀ p ∈ qs, ∀ text ∈ p.texts i, text = none

/-- The strings that come to stand below those of a result in front. -/
def belowStrings (i : Nat) : List QueryResult → List String
  | [] => []
  | q :: qs =>
    match (q.column i).stringValues with
    | some ts => ts ++ belowStrings i qs
    | none => List.replicate ((q :: qs).map rowCount).sum ""

section Columns

variable {i width : Nat} {q p : QueryResult} {qs : List QueryResult} {c : ResultColumn}
  {ts : List String}

theorem texts_of_strings (h : c.stringValues = some ts) : c.texts ts.length = ts.map some := by
  refine ext_getElem (by simp [ResultColumn.texts]) fun r hr _ => ?_
  have hlt : r < ts.length := by simpa [ResultColumn.texts] using hr
  simp [ResultColumn.texts, h, hlt]

theorem flags_of_le {m n : Nat} (h : ∀ fs, c.nullMask = some fs → fs.length = m)
    (hle : m ≤ n) : c.flags n = c.flags m ++ List.replicate (n - m) false := by
  obtain ⟨k, rfl⟩ := Nat.exists_eq_add_of_le hle
  rw [ResultColumn.flags, range_add, map_append, Nat.add_sub_cancel_left]
  congr 1
  refine eq_replicate_iff.mpr ⟨by simp, fun flag hflag => ?_⟩
  obtain ⟨r, hr, rfl⟩ := mem_map.mp hflag
  obtain ⟨j, -, rfl⟩ := mem_map.mp hr
  cases hmask : c.nullMask with
  | none => rfl
  | some fs => simp [nullFlagAt, h fs hmask]

theorem rowCount_union (q : QueryResult) (qs : List QueryResult) :
    (unionResult q qs).rowCount = ((q :: qs).map rowCount).sum := by
  induction qs generalizing q with
  | nil => simp [unionResult]
  | cons p qs ih => simp [unionResult, concatenateResults, ih p]

theorem length_union : (unionResult q qs).columns.length = q.columns.length := by
  cases qs <;> simp [unionResult, concatenateResults]

/-- The columns of a UNION ALL. -/
theorem column_union (h : ∀ r ∈ q :: qs, r.columns.length = width) (hi : i < width) :
    (unionResult q qs).column i =
      { q.column i with
        values := (q :: qs).flatMap fun r => (r.column i).values
        stringValues := (q.column i).stringValues.map (· ++ belowStrings i qs) } := by
  induction qs generalizing q with
  | nil => simp [unionResult, belowStrings]
  | cons p qs ih =>
    have hq : i < q.columns.length := h q mem_cons_self ▸ hi
    have hp : i < (unionResult p qs).columns.length := by
      rwa [length_union, h p (by simp)]
    have ih := ih (forall_mem_cons.mp h).2
    have hvalues : ((unionResult p qs).column i).values =
        (p :: qs).flatMap fun r => (r.column i).values := by rw [ih]
    have hbelow : ((unionResult p qs).column i).stringValues.getD
        (List.replicate (unionResult p qs).rowCount "") = belowStrings i (p :: qs) := by
      rw [ih, rowCount_union, belowStrings]
      cases (p.column i).stringValues <;> rfl
    rw [← hbelow, flatMap_cons, ← hvalues]
    simp [column, unionResult, concatenateResults, getD_eq_getElem?_getD, hq, hp]

/-- A result of this width that has all its cells. -/
def Regular (width : Nat) (q : QueryResult) : Prop := q.columns.length = width ∧ q.Exact

theorem Regular.exact (h : Regular width q) (hi : i < width) : (q.column i).Exact q.rowCount :=
  h.2 i (h.1 ▸ hi)

theorem length_texts (i : Nat) (qs : List QueryResult) :
    (qs.flatMap (·.texts i)).length = (qs.map rowCount).sum := by
  simp [length_flatMap, QueryResult.texts, ResultColumn.texts]

theorem texts_eq_map_some (h : Regular width q) (hi : i < width)
    (hts : (q.column i).stringValues = some ts) : q.texts i = ts.map some := by
  rw [QueryResult.texts, ← (h.exact hi).texts ts hts, texts_of_strings hts]

theorem belowStrings_iff (h : ∀ r ∈ qs, Regular width r) (hi : i < width) :
    (belowStrings i qs).length = (qs.map rowCount).sum ∧
      ((belowStrings i qs).map some = qs.flatMap (·.texts i) ↔ TextsKept i qs) := by
  induction qs with
  | nil => simp [belowStrings, TextsKept]
  | cons q qs ih =>
    obtain ⟨hlen, hiff⟩ := ih (forall_mem_cons.mp h).2
    have hq := h q mem_cons_self
    rw [belowStrings, TextsKept]
    cases hs : (q.column i).stringValues with
    | none =>
      rw [length_replicate, map_replicate, ← length_texts i (q :: qs)]
      refine ⟨rfl, eq_comm.trans (eq_replicate_iff.trans ?_)⟩
      simp only [true_and, forall_mem_flatMap]
    | some ts =>
      rw [length_append, hlen, (hq.exact hi).texts ts hs, map_append, flatMap_cons,
        texts_eq_map_some hq hi hs, append_cancel_left_eq, hiff]
      simp

theorem texts_iff (h : ∀ r ∈ q :: qs, Regular width r) (hi : i < width) :
    (unionResult q qs).texts i = (q :: qs).flatMap (·.texts i) ↔
      match (q.column i).stringValues with
      | some _ => TextsKept i qs
      | none => ∀ p ∈ qs, ∀ text ∈ p.texts i, text = none := by
  have hq := h q mem_cons_self
  obtain ⟨hlen, hiff⟩ := belowStrings_iff (forall_mem_cons.mp h).2 hi
  rw [QueryResult.texts, column_union (fun r hr => (h r hr).1) hi, rowCount_union]
  cases hs : (q.column i).stringValues with
  | none =>
    have htexts : ∀ n (c : ResultColumn), c.stringValues = none →
        c.texts n = List.replicate n none := fun n c hc => by
      simp [ResultColumn.texts, hc, map_const']
    rw [htexts _ _ rfl, ← length_texts i (q :: qs), eq_comm, eq_replicate_iff]
    simp only [true_and, forall_mem_flatMap, forall_mem_cons, and_iff_right_iff_imp]
    intro _ text htext
    rw [QueryResult.texts, htexts _ _ hs] at htext
    exact eq_of_mem_replicate htext
  | some ts =>
    have hsum : ((q :: qs).map rowCount).sum = (ts ++ belowStrings i qs).length := by
      rw [length_append, hlen, (hq.exact hi).texts ts hs, map_cons, sum_cons]
    rw [hsum, texts_of_strings rfl, map_append, flatMap_cons, texts_eq_map_some hq hi hs,
      append_cancel_left_eq, hiff]

theorem flags_iff (h : ∀ r ∈ q :: qs, Regular width r) (hi : i < width) :
    (unionResult q qs).flags i = (q :: qs).flatMap (·.flags i) ↔
      ∀ p ∈ qs, ∀ flag ∈ p.flags i, flag = false := by
  have hcount : (unionResult q qs).rowCount = q.rowCount + (qs.flatMap (·.flags i)).length := by
    simp [rowCount_union, length_flatMap, QueryResult.flags, ResultColumn.flags]
  have hflags : (unionResult q qs).flags i = (q.column i).flags (unionResult q qs).rowCount := by
    rw [QueryResult.flags, column_union (fun r hr => (h r hr).1) hi]
    rfl
  rw [hflags, flags_of_le ((h q mem_cons_self).exact hi).flags (by omega), flatMap_cons,
    ← QueryResult.flags, append_cancel_left_eq, hcount, Nat.add_sub_cancel_left, eq_comm,
    eq_replicate_iff]
  simp only [true_and, forall_mem_flatMap]

theorem exact_iff (h : ∀ r ∈ q :: qs, Regular width r) (hi : i < width) :
    ((unionResult q qs).column i).Exact (unionResult q qs).rowCount ↔
      ((q.column i).nullMask = none ∨ ∀ p ∈ qs, p.rowCount = 0) := by
  have hq := (h q mem_cons_self).exact hi
  rw [column_union (fun r hr => (h r hr).1) hi, rowCount_union]
  have hvalues : ((q :: qs).flatMap fun r => (r.column i).values).length =
      ((q :: qs).map rowCount).sum := by
    rw [length_flatMap]
    exact congrArg List.sum (map_congr_left fun r hr => ((h r hr).exact hi).values)
  have htexts : ∀ ts, (q.column i).stringValues.map (· ++ belowStrings i qs) = some ts →
      ts.length = ((q :: qs).map rowCount).sum := by
    intro ts hts
    obtain ⟨own, hown, rfl⟩ := Option.map_eq_some_iff.mp hts
    rw [length_append, hq.texts own hown, map_cons, sum_cons,
      (belowStrings_iff (forall_mem_cons.mp h).2 hi).1]
  have hmask : (∀ fs, (q.column i).nullMask = some fs →
      fs.length = ((q :: qs).map rowCount).sum) ↔
      ((q.column i).nullMask = none ∨ ∀ p ∈ qs, p.rowCount = 0) := by
    have hsum : (∀ p ∈ qs, p.rowCount = 0) ↔ (qs.map rowCount).sum = 0 := by
      rw [List.sum_eq_zero_iff_forall_eq_nat, forall_mem_map]
    rw [hsum, map_cons, sum_cons]
    cases hfs : (q.column i).nullMask with
    | none => simp
    | some fs => simp [hq.flags fs hfs]
  exact ⟨fun hexact => hmask.mp hexact.flags, fun h => ⟨hvalues, htexts, hmask.mpr h⟩⟩

/-- **The rows of a UNION ALL.** -/
theorem stacks_iff (h : ∀ r ∈ q :: qs, Regular width r) :
    (unionResult q qs).Stacks width (q :: qs) ↔ ∀ i < width, Stackable i q qs := by
  have hlength : (unionResult q qs).columns.length = width :=
    length_union.trans (h q (by simp)).1
  constructor
  · intro hstacks i hi
    exact ⟨(exact_iff h hi).mp (hstacks.lengths i (hlength ▸ hi)),
      (flags_iff h hi).mp (hstacks.flags i hi), (texts_iff h hi).mp (hstacks.texts i hi)⟩
  · intro hkept
    exact ⟨rowCount_union q qs, hlength,
      fun i hi => (exact_iff h (hlength ▸ hi)).mpr (hkept i (hlength ▸ hi)).mask,
      fun i hi => by rw [column_union (fun r hr => (h r hr).1) hi],
        fun i hi => (texts_iff h hi).mpr (hkept i hi).texts,
      fun i hi => (flags_iff h hi).mpr (hkept i hi).flags⟩

end Columns

/-! ## Cutting the text -/

section

open Text Scan

/-- `q UNION ALL rest`. -/
def unionText (left right : String) : String := left ++ " UNION ALL " ++ right

/-- `split_union_all` cuts the text between the two parts: folding the case keeps the widths, the
parts are trimmed, and of the keywords outside parentheses, those in literals included, the one
between the parts is the first. -/
structure CutsAt (H : Host) (left right : String) : Prop where
  widths : KeepsWidths H (unionText left right).toList
  keyword : "union all".toList <+: (lower H (unionText left right).toList).drop
    (left.toList.length + 1)
  first : ∀ i ≤ left.toList.length,
    "union all".toList <+: (lower H (unionText left right).toList).drop i →
    depth (left.toList.take i) ≠ 0
  balanced : depth left.toList = 0
  left : trimChars left.toList = left.toList ∧ left ≠ ""
  right : trimChars right.toList = right.toList ∧ right ≠ ""

/-- Two places of the keyword do not overlap: it has its first letter only once. -/
theorem add_nine_le {low : List Char} {i j : Nat} (hi : "union all".toList <+: low.drop i)
    (hj : "union all".toList <+: low.drop j) (hlt : i < j) : i + 9 ≤ j := by
  by_contra hle
  obtain ⟨d, rfl⟩ := Nat.exists_eq_add_of_le hlt.le
  obtain ⟨rest, hrest⟩ := hi
  obtain ⟨rest', hrest'⟩ := hj
  rw [← drop_drop, ← hrest] at hrest'
  have hu : ∀ d < 9, 0 < d → ("union all".toList.drop d).head?.all (· ≠ 'u') = true ∧
      "union all".toList.drop d ≠ [] := by decide
  obtain ⟨hhead, hne⟩ := hu d (by omega) (by omega)
  obtain ⟨c, tail, htail⟩ := exists_cons_of_ne_nil hne
  rw [drop_append_of_le_length (by simp; omega), htail] at hrest'
  rw [htail] at hhead
  rw [← (List.cons.inj hrest').1] at hhead
  cases hhead

theorem depth_append_space (cs : List Char) : depth (cs ++ [' ']) = depth cs := by
  simp [depth]

theorem trimChars_append_space {cs : List Char} (h : trimChars cs = cs) (hne : cs ≠ []) :
    trimChars (cs ++ [' ']) = cs := by
  have hdrop : cs.dropWhile isWhitespace ≠ [] := by
    intro hnil
    rw [trimChars, hnil] at h
    exact hne h.symm
  rw [trimChars, dropWhile_append, if_neg (by simpa using hdrop), rdropWhile_concat_pos _ _ _ rfl]
  exact h

variable {H : Host} {left right : String}

theorem toList_unionText : (unionText left right).toList =
    (left.toList ++ [' ']) ++ ("UNION ALL".toList ++ (' ' :: right.toList)) := by
  simp [unionText]

/-- The loop goes past the keywords inside parentheses and cuts between the parts. -/
theorem CutsAt.splitUnionAllLoop (h : CutsAt H left right) {fuel k : Nat}
    (hk : k ≤ left.toList.length + 1) (hfuel : left.toList.length + 1 < k + fuel) :
    splitUnionAllLoop (unionText left right).toList (lower H (unionText left right).toList) fuel
      (byteLength ((lower H (unionText left right).toList).take k)) =
        some (some (left, right)) := by
  have hlen : (left.toList ++ [' ']).length = left.toList.length + 1 := by simp
  have htake : ∀ i ≤ left.toList.length,
      (unionText left right).toList.take i = left.toList.take i := by
    intro i hi
    rw [toList_unionText, append_assoc, take_append_of_le_length (by simpa using hi)]
  induction fuel generalizing k with
  | zero => omega
  | succ fuel ih =>
    rcases splitUnionAllLoop_eq h.widths k with ⟨-, hnone⟩ | ⟨j, hat, hbefore, hloop⟩
    · exact absurd h.keyword
        (by simpa [Nat.add_sub_cancel' hk] using hnone (left.toList.length + 1 - k))
    · have hle : k + j ≤ left.toList.length + 1 := by
        by_contra hlt
        refine hbefore (left.toList.length + 1 - k) (by omega) ?_
        rw [Nat.add_sub_cancel' hk]
        exact h.keyword
      rw [hloop]
      rcases Nat.lt_or_eq_of_le hle with hlt | heq
      · rw [if_neg fun hcut => h.first _ (Nat.le_of_lt_succ hlt) hat
          (htake _ (Nat.le_of_lt_succ hlt) ▸ hcut.1)]
        exact ih (add_nine_le hat h.keyword hlt) (by omega)
      · have hcut : (unionText left right).toList.take (k + j) = left.toList ++ [' '] := by
          rw [toList_unionText, heq, ← hlen, take_left]
        have hrest : (unionText left right).toList.drop (k + j + 9) = ' ' :: right.toList := by
          rw [toList_unionText, heq, ← drop_drop, ← hlen, drop_left]
          rfl
        have hne : ∀ {s : String}, s ≠ "" → s.toList ≠ [] := fun hs hnil =>
          hs (String.toList_inj.mp hnil)
        have htrim : trimChars (' ' :: right.toList) = right.toList := h.right.1
        rw [hcut, hrest, depth_append_space, trimChars_append_space h.left.1 (hne h.left.2), htrim,
          if_pos ⟨h.balanced, hne h.left.2, hne h.right.2⟩, String.ofList_toList,
          String.ofList_toList]

theorem CutsAt.splitUnionAll (h : CutsAt H left right) :
    Scan.splitUnionAll H (unionText left right) = some (some (left, right)) := by
  refine h.splitUnionAllLoop (k := 0) (Nat.zero_le _) ?_
  have hlen := add_length_le_of_prefix_drop (by decide) h.keyword
  have hbytes := length_le_byteLength (lower H (unionText left right).toList)
  omega

end

/-! ## Execution -/

namespace QueryEngine

/-- The parts in one text: `split_union_all` cuts behind each part but the last, the text starts
with a word that sends it on to that test (SELECT is one), and it has no AS OF clause. -/
inductive UnionText (H : Host) : String → List String → Prop
  | whole {sql} : UnionText H sql [sql]
  | cut {left right texts} (start rest : List Char) (hcut : CutsAt H left right)
    (hstart : PlainStart start) (hne : start ≠ []) (hleft : left.toList = start ++ rest)
    (hasOf : Text.contains (H.toLowercase (unionText left right)) "for system_time as of" = false)
    (hright : UnionText H right texts) : UnionText H (unionText left right) (left :: texts)

/-- The parts answer, executed one after the other. -/
inductive InTurn (H : Host) (F : Frontend) (txnId : Option UInt64) :
    Nat → QueryEngine → List String → QueryEngine → List QueryResult → Prop
  | last {n e sql e' q} (h : executeInner H F n e sql txnId = some (e', .ok q)) :
    InTurn H F txnId n e [sql] e' [q]
  | next {n e sql u q texts e' qs} (h : executeInner H F n e sql txnId = some (u, .ok q))
    (hrest : InTurn H F txnId n u texts e' qs) :
    InTurn H F txnId (n + 1) e (sql :: texts) e' (q :: qs)

variable {H : Host} {F : Frontend} {txnId : Option UInt64} {n : Nat} {e e' : QueryEngine}
  {sql : String} {texts : List String} {q : QueryResult} {qs : List QueryResult} {null : Bool}

theorem innerRoute_unionText (hcases : H.CasesAsciiStart)
    (hunion : F.unionAll = Scan.splitUnionAll H)
    {left right : String} (hcut : CutsAt H left right) {start rest : List Char}
    (hstart : PlainStart start) (hne : start ≠ []) (hleft : left.toList = start ++ rest)
    (hasOf : Text.contains (H.toLowercase (unionText left right)) "for system_time as of" = false) :
    innerRoute H F (unionText left right) = .statement none (.unionAll left right) := by
  have hsql : unionText left right =
      String.ofList (start ++ (rest ++ " UNION ALL ".toList ++ right.toList)) := by
    apply String.toList_inj.mp
    simp [unionText, hleft]
  have hcontains : Text.contains (H.toLowercase (unionText left right)) "union all" = true := by
    have hlower : Scan.lower H (unionText left right).toList =
        (H.toLowercase (unionText left right)).toList := by rw [Scan.lower, String.ofList_toList]
    rw [Text.contains_iff, ← hlower]
    exact hcut.keyword.isInfix.trans (drop_suffix _ _).isInfix
  rw [hsql, innerRoute_start hcases hstart _ hne (by rw [← hsql, hasOf]; rfl), ← hsql, clauseKind]
  simp only [hcontains, if_true, hunion, hcut.splitUnionAll]
  rfl

theorem executeInner_unionText (hcases : H.CasesAsciiStart)
    (hunion : F.unionAll = Scan.splitUnionAll H) (hsql : UnionText H sql texts)
    (hrun : InTurn H F txnId n e texts e' (q :: qs)) :
    executeInner H F n e sql txnId = some (e', .ok (unionResult q qs)) := by
  induction hsql generalizing n e q qs with
  | whole =>
    cases hrun with
    | last h => exact h
    | next _ hrest => cases hrest
  | cut start rest hcut hstart hne hleft hasOf hright ih =>
    cases hrun with
    | last => cases hright
    | @next n _ _ u _ _ _ _ h hrest =>
      obtain ⟨p, qs, rfl⟩ : ∃ p rest, qs = p :: rest := by cases hrest <;> exact ⟨_, _, rfl⟩
      rw [executeInner, executeInnerStep,
        innerRoute_unionText hcases hunion hcut hstart hne hleft hasOf]
      simp only [asOfRows, Option.bind_none, executeKind, executeUnionAll, h, Reply.andThen,
        ih hrest]
      rfl

/-- The tables `t` and `u` with one column each; the row of `u` is NULL or not. -/
def withNull (null : Bool) : QueryEngine :=
  { QueryEngine.new with
    catalog := (Catalog.empty.register (numbers "t" [1, 2])).register
      { numbers "u" [7] with nullBitmaps := if null then [some [true]] else [] } }

def nullable (null : Bool) : QueryResult :=
  { columns := [⟨"a", [7], none, 0, if null then some [true] else none⟩], rowCount := 1 }

def unionSql : String := unionText "SELECT a FROM t" "SELECT a FROM u"

theorem unionAll_frontendOver {K : Kernels} :
    (frontendOver K).unionAll = Scan.splitUnionAll Host.ascii := by
  rw [frontendOver, Scan.frontend]

theorem unionText_unionSql : UnionText Host.ascii unionSql
    ["SELECT a FROM t", "SELECT a FROM u"] :=
  .cut "SELECT".toList " a FROM t".toList
    ⟨by decide +kernel, by decide +kernel, by decide +kernel, by decide +kernel, by decide +kernel,
      by decide +kernel⟩
    ⟨by decide, by decide, by decide, by decide, by decide⟩ (by decide) (by decide)
    (by decide +kernel) .whole

theorem executeInner_withNull
    (hroute : (innerRoute Host.ascii (frontendOver .unsupported) sql).isSelect = true)
    (hselect : selectPath Host.ascii .unsupported (withNull null).catalog .new sql = .ok q) :
    executeInner Host.ascii (frontendOver .unsupported) n (withNull null) sql none =
      some (withNull null, .ok q) := by
  have hanswer : (frontendOver .unsupported).select (withNull null).catalog
      (withNull null).indexManager sql = .ok q := hselect
  rw [executeInner_viewless (InnerRoute.eq_of_isSelect hroute) rfl rfl, hanswer]
  rfl

theorem inTurn_withNull : InTurn Host.ascii (frontendOver .unsupported) none 1
    (withNull null) ["SELECT a FROM t", "SELECT a FROM u"] (withNull null)
    [shows [1, 2], nullable null] :=
  .next (executeInner_withNull (by decide +kernel) (by cases null <;> decide +kernel))
    (.last (executeInner_withNull (by decide +kernel) (by cases null <;> decide +kernel)))

end QueryEngine

end TensorVault
