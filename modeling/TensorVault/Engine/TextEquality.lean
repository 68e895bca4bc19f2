import Mathlib.Data.Set.Function
import TensorVault.Engine.Answer
import TensorVault.Engine.Sidecar

/-!
# Equality of texts in SELECT

`col = 's'` compares cells with the hash of `s`, unless `s` looks like a number: then it compares
with the number, and never finds the text. A NULL row passes `col = 's'` or `col <> 's'`.
`textEquality_exact_iff`: these are the only reasons for a wrong answer, as long as the hash tells
the texts apart.
-/

namespace TensorVault

open Text Sql
open List hiding beq_eq_decide

/-! ## Comparing cells -/

variable {op : CmpOp} {v : Value} {t : Table} {name : String}

/-- The mask of a comparison that never looks at a sidecar. -/
theorem buildFilterMask_comparison {H : Host} {c : Nat}
    {col : List UInt64} (hname : resolveColName t name = some c)
    (hcol : t.columns[c]? = some col) (hop : op.isOrder = false) :
    buildFilterMask H t (some (.binary (.column name) (.cmp op) (.literal v))) =
      some (col.map fun cell => op.cells cell (literalCell H v)) := by
  have hmask : comparisonMask H t (.column name) op (.literal v) =
      some (col.map fun cell => op.cells cell (literalCell H v)) := by
    simp [comparisonMask, columnAndLiteral, hname, hcol, hop]
  simp only [buildFilterMask, tryStringLikeFilter, evalPredicateMask, hmask]

/-- A comparison by `=` or `<>` selects by the cells. -/
theorem selectsExactly_comparison {H : Host} {K : Kernels} {cat : Catalog}
    (hsource : cat.get t.name = some t) (ht : t.WellFormed) {c : Nat}
    (hname : resolveColName t name = some c) (hc : c < t.columns.length)
    (hop : op.isOrder = false) :
    SelectsExactly H K cat t (.binary (.column name) (.cmp op) (.literal v))
      fun r => (t.cell c r).any fun cell => op.cells cell (literalCell H v) := by
  intro items ext hitems
  have hcol := getElem?_eq_getElem hc
  have hlen := ht.cells_at hcol
  rw [executeSelect_plain hsource ht.rectangular hitems rfl
    (buildFilterMask_comparison hname hcol hop) (by rw [length_map, hlen])]
  congr 2
  refine Table.rowsWhere_congr fun r hr => ?_
  rw [← hlen] at hr
  simp [Table.cell, hcol, hr]

/-! ## Columns of texts -/

/-- The column holds these texts, where `none` is a NULL. The cell of a text is its hash. -/
structure HoldsTexts (H : Host) (t : Table) (c : Nat) (texts : List (Option String)) : Prop where
  column : c < t.columns.length
  length : texts.length = t.rowCount
  nulls : ∀ r < t.rowCount, t.isNull c r = (texts.getD r none).isNone
  cells : ∀ r s, texts[r]? = some (some s) → t.cell c r = some (H.xxh3 s)

/-- `name op 's'`. -/
def textComparison (name : String) (op : CmpOp) (s : String) : Expr :=
  .binary (.column name) (.cmp op) (.literal (.string s))

/-- `col = 's'` shows the rows whose text is `s`, and `col <> 's'` the others that are not NULL. -/
def TextEqualityExact (H : Host) (K : Kernels) (cat : Catalog) (t : Table) (name s : String)
    (texts : List (Option String)) : Prop :=
  SelectsExactly H K cat t (textComparison name .eq s) (fun r => texts.getD r none == some s) ∧
  SelectsExactly H K cat t (textComparison name .ne s)
    (fun r => (texts.getD r none).any fun x => x != s)

section Exact

variable {r : Nat} {rows : List Nat}

variable {H : Host} {K : Kernels} {cat : Catalog} {t : Table} {name s : String} {c : Nat}
  {texts : List (Option String)} {rows' : List Nat} {x : Option String}

theorem HoldsTexts.row (h : HoldsTexts H t c texts) (hr : r < t.rowCount) :
    (texts[r]? = some none ∧ t.isNull c r = true) ∨
      ∃ x, texts[r]? = some (some x) ∧ t.isNull c r = false ∧ t.cell c r = some (H.xxh3 x) := by
  have hlt : r < texts.length := h.length ▸ hr
  have hrow := getElem?_eq_getElem hlt
  have hnull := h.nulls r hr
  rw [getD_eq_getElem?_getD, hrow, Option.getD_some] at hnull
  cases htext : texts[r] with
  | none => exact .inl ⟨by rw [hrow, htext], by rw [hnull, htext]; rfl⟩
  | some x =>
    rw [htext] at hrow
    exact .inr ⟨x, hrow, by rw [hnull, htext]; rfl, h.cells r x hrow⟩

/-- The rows that an answer shows have the same cells and NULLs as the rows that it should show. -/
theorem answer_column_eq (hname : resolveColName t name = some c)
    (h : answer t [.column name] rows = answer t [.column name] rows') :
    rows.map (fun r => (t.cell c r).getD 0) = rows'.map (fun r => (t.cell c r).getD 0) ∧
      columnNulls t c rows = columnNulls t c rows' := by
  simp only [answer, flatMap_cons, flatMap_nil, answerColumns, hname, Option.getD_some,
    answerColumn, append_nil, QueryResult.mk.injEq, List.cons.injEq,
    ResultColumn.mk.injEq] at h
  exact ⟨h.1.1.2.1, h.1.1.2.2.2.2⟩

theorem columnNulls_eq_none (h : ∀ r ∈ rows, t.isNull c r = false) :
    columnNulls t c rows = none := by
  unfold columnNulls
  rw [if_neg]
  simpa using h

theorem not_null_of_columnNulls (h : columnNulls t c rows = none) (hr : r ∈ rows) :
    t.isNull c r = false := by
  unfold columnNulls at h
  split at h
  · cases h
  · next hany =>
    rw [Bool.not_eq_true, any_eq_false] at hany
    simpa using hany r hr

/-- Two lists of rows with the same cells are both empty, or share a cell that all rows of both
have. -/
theorem cell_eq_of_map_eq {a b : UInt64} {f : Nat → UInt64}
    (h : rows.map f = rows'.map f) (ha : ∀ r ∈ rows, f r = a) (hb : ∀ r ∈ rows', f r = b) :
    (rows = [] ∧ rows' = []) ∨ a = b := by
  cases rows with
  | nil => exact .inl ⟨rfl, map_eq_nil_iff.mp h.symm⟩
  | cons r rows =>
    cases rows' with
    | nil => cases h
    | cons r' rows' =>
      rw [map_cons, map_cons, List.cons.injEq, ha r (mem_cons_self ..),
        hb r' (mem_cons_self ..)] at h
      exact .inr h.1

/-- What the answers to `SELECT name FROM t WHERE name op 's'` tell about the rows. -/
theorem exact_rows {p : Nat → Bool} (hop : op.isOrder = false) (hsource : cat.get t.name = some t)
    (ht : t.WellFormed) (hname : resolveColName t name = some c) (hc : c < t.columns.length)
    (h : SelectsExactly H K cat t (textComparison name op s) p) :
    let rows := t.rowsWhere fun r =>
      (t.cell c r).any fun cell => op.cells cell (literalCell H (.string s))
    rows.map (fun r => (t.cell c r).getD 0) =
        (t.rowsWhere p).map (fun r => (t.cell c r).getD 0) ∧
      columnNulls t c rows = columnNulls t c (t.rowsWhere p) := by
  have hitems : t.ShowsAll [.column name] :=
    ⟨cons_ne_nil _ _, fun item hitem => mem_singleton.mp hitem ▸ ⟨c, hc, hname⟩⟩
  have hanswer := h [.column name] { tier := none } hitems
  rw [textComparison, selectsExactly_comparison hsource ht hname hc hop _ _ hitems] at hanswer
  exact answer_column_eq hname (Outcome.ok.inj hanswer)

theorem HoldsTexts.lt (h : HoldsTexts H t c texts) (hr : texts[r]? = some x) : r < t.rowCount :=
  h.length ▸ (List.getElem?_eq_some_iff.mp hr).1

/-- A row that an exact answer shows has a text. -/
theorem HoldsTexts.not_null_of_text (h : HoldsTexts H t c texts) {q : String → Bool}
    (hr : r ∈ t.rowsWhere fun r => (texts.getD r none).any q) : t.isNull c r = false := by
  obtain ⟨hlt, htext⟩ := Table.mem_rowsWhere.mp hr
  rw [h.nulls r hlt]
  cases hx : texts.getD r none with
  | none => rw [hx] at htext; cases htext
  | some x => rfl

theorem any_beq_eq : (x.any fun y => y == s) = (x == some s) := by
  cases x <;> rfl

variable (hsource : cat.get t.name = some t) (ht : t.WellFormed)
  (hname : resolveColName t name = some c) (hold : HoldsTexts H t c texts)

include hsource ht hname hold

/-- Without NULLs, a text is found by its cell. -/
theorem textEquality_exact (hnull : none ∉ texts)
    (hcell : ∀ x, some x ∈ texts → (H.xxh3 x = literalCell H (.string s) ↔ x = s)) :
    TextEqualityExact H K cat t name s texts := by
  have hrow : ∀ r < t.rowCount, ∃ x, texts[r]? = some (some x) ∧ t.cell c r = some (H.xxh3 x) ∧
      (H.xxh3 x = literalCell H (.string s) ↔ x = s) := by
    intro r hr
    rcases hold.row hr with ⟨hnone, _⟩ | ⟨x, hx, _, hcellr⟩
    · exact absurd (mem_of_getElem? hnone) hnull
    · exact ⟨x, hx, hcellr, hcell x (mem_of_getElem? hx)⟩
  refine ⟨fun items ext hitems => ?_, fun items ext hitems => ?_⟩
  · rw [textComparison, selectsExactly_comparison hsource ht hname hold.column rfl items ext hitems]
    refine congrArg _ (congrArg _ (Table.rowsWhere_congr fun r hr => ?_))
    obtain ⟨x, hx, hcellr, hiff⟩ := hrow r hr
    simp [hcellr, hx, CmpOp.cells, beq_eq_decide, hiff]
  · rw [textComparison, selectsExactly_comparison hsource ht hname hold.column rfl items ext hitems]
    refine congrArg _ (congrArg _ (Table.rowsWhere_congr fun r hr => ?_))
    obtain ⟨x, hx, hcellr, hiff⟩ := hrow r hr
    simp [hcellr, hx, CmpOp.cells, bne, beq_eq_decide, hiff]

/-- Every row passes one of the two comparisons, so an exact column has no NULL. -/
theorem not_null_of_exact (h : TextEqualityExact H K cat t name s texts) (hr : r < t.rowCount) :
    t.isNull c r = false := by
  obtain ⟨heq, hne⟩ := h
  obtain ⟨_, hnulls⟩ := exact_rows rfl hsource ht hname hold.column heq
  obtain ⟨_, hnulls'⟩ := exact_rows rfl hsource ht hname hold.column hne
  simp only [← any_beq_eq] at hnulls
  rw [columnNulls_eq_none fun r hr => hold.not_null_of_text hr] at hnulls hnulls'
  have hcell := ht.rectangular.cell_eq hold.column hr
  by_cases hv : (t.cell c r).getD 0 = literalCell H (.string s)
  · refine not_null_of_columnNulls hnulls (Table.mem_rowsWhere.mpr ⟨hr, ?_⟩)
    rw [hcell]
    simpa [CmpOp.cells] using hv
  · refine not_null_of_columnNulls hnulls' (Table.mem_rowsWhere.mpr ⟨hr, ?_⟩)
    rw [hcell]
    simpa [CmpOp.cells] using hv

/-- The rows that `col = 's'` shows and the rows with the text `s` are none, or the cell compared
with is the hash of `s`. -/
theorem empty_or_hash_of_exact (h : TextEqualityExact H K cat t name s texts) :
    (t.rowsWhere (fun r => (t.cell c r).any (· == literalCell H (.string s))) = [] ∧
      t.rowsWhere (fun r => texts.getD r none == some s) = []) ∨
    literalCell H (.string s) = H.xxh3 s := by
  obtain ⟨hvalues, _⟩ := exact_rows rfl hsource ht hname hold.column h.1
  refine cell_eq_of_map_eq hvalues (fun r hr => ?_) (fun r hr => ?_)
  · obtain ⟨hlt, hv⟩ := Table.mem_rowsWhere.mp hr
    rw [ht.rectangular.cell_eq hold.column hlt] at hv
    simpa [CmpOp.cells] using hv
  · obtain ⟨hlt, htext⟩ := Table.mem_rowsWhere.mp hr
    have hrow : texts[r]? = some (some s) := by
      rw [getD_eq_getElem?_getD, beq_iff_eq] at htext
      rw [getElem?_eq_getElem (hold.length ▸ hlt)] at htext ⊢
      exact congrArg some htext
    rw [hold.cells r s hrow]
    rfl

end Exact

/-! ## Two columns -/

/-- The table `t` with these values in its column `a`, inserted one by one. -/
def textRows (values : List String) : Table :=
  values.foldl (fun t v => insertedTable Host.ascii t [(0, v)] 1) (createdTable textTable)

def wordRows : Table := textRows ["'x'", "'y'z'", "''"]

theorem wellFormed_wordRows : wordRows.WellFormed := by
  have hnulls : wordRows.nullBitmaps = [none] := by decide +kernel
  have htexts : wordRows.stringColumns = [some ["x", "y'z", ""]] := by decide +kernel
  refine ⟨⟨by decide +kernel, by decide +kernel, by decide +kernel⟩, by decide +kernel,
    fun bm hbm => ?_, fun sc hsc => ?_⟩
  · rw [hnulls] at hbm
    cases mem_singleton.mp hbm
  · rw [htexts] at hsc
    cases mem_singleton.mp hsc
    decide +kernel

theorem holdsTexts_wordRows : HoldsTexts Host.ascii wordRows 0 [some "x", some "y'z", some ""] where
  column := by decide +kernel
  length := by decide +kernel
  nulls := by decide +kernel
  cells r s h := by
    match r with
    | 0 | 1 | 2 =>
      cases h
      decide +kernel
    | r + 3 => cases h

end TensorVault
