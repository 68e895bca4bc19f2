import TensorVault.Engine.Select

/-!
# SELECT DISTINCT

`deduplicate_rows` compares the raw cells of the rows, and the cell of a NULL is 0. It keeps the
first of equal rows, with all that belongs to it, exactly where raw cells repeat just when rows do
(`deduplicateRows_exact_iff`).
-/

namespace TensorVault

open List

/-! ## First occurrences -/

section

variable {β : Type} [BEq β] {key : Nat → β} {n r : Nat}

/-- The rows without an earlier row of the same key. -/
def firstOf (key : Nat → β) (n : Nat) : List Nat :=
  (List.range n).filter fun r => !(List.range r).any fun r' => key r' == key r

theorem mem_firstOf [LawfulBEq β] : r ∈ firstOf key n ↔ r < n ∧ ¬ ∃ r' < r, key r' = key r := by
  simp [firstOf]

/-- Where nothing is dropped, all rows are kept. -/
theorem firstOf_eq_range (h : n ≤ 1 ∨ (firstOf key n).length = n) :
    firstOf key n = List.range n := by
  rcases h with h | h
  · refine filter_eq_self.mpr fun r hr => ?_
    obtain rfl : r = 0 := by
      have := mem_range.mp hr
      omega
    rfl
  · exact filter_sublist.eq_of_length (h.trans length_range.symm)

end

/-! ## Rows -/

namespace QueryResult

variable {qr : QueryResult} {rows : List Nat} {i : Nat}

/-- A row as it is shown, with its NULLs. -/
def entries (qr : QueryResult) (r : Nat) : List (Option UInt64) := qr.columns.map (·.entry r)

/-- The given rows of a result, with their cells, texts and NULL flags. -/
def pick (qr : QueryResult) (rows : List Nat) : QueryResult where
  columns := qr.columns.map fun c =>
    { c with
      values := rows.map fun r => c.values.getD r 0
      stringValues := c.stringValues.map fun texts => rows.map fun r => texts.getD r ""
      nullMask := c.nullMask.map fun mask => rows.map fun r => mask.getD r false }
  rowCount := rows.length

theorem map_getD_range {α : Type} {l : List α} {n : Nat} (h : l.length = n) {d : α} :
    (List.range n).map (fun r => l.getD r d) = l := by
  refine ext_getElem (by simp [h]) fun r _ hr => ?_
  simp [hr]

theorem pick_range (h : ∀ c ∈ qr.columns, c.Exact qr.rowCount) :
    qr.pick (List.range qr.rowCount) = qr := by
  have hcolumns : (qr.pick (List.range qr.rowCount)).columns = qr.columns.map id := by
    refine map_congr_left fun c hc => ?_
    obtain ⟨hvalues, htexts, hflags⟩ := h c hc
    obtain ⟨name, values, texts, oid, mask⟩ := c
    cases texts <;> cases mask <;>
      simp only [Option.map_some, Option.map_none, map_getD_range, htexts, hvalues, hflags, id]
  rw [map_id] at hcolumns
  exact congrArg₂ QueryResult.mk hcolumns length_range

theorem row_pick (hi : i < rows.length) : (qr.pick rows).row i = qr.row rows[i] := by
  simp [row, pick, hi]

theorem entries_pick (hi : i < rows.length) : (qr.pick rows).entries i = qr.entries rows[i] := by
  simp only [entries, pick, map_map]
  refine map_congr_left fun c _ => ?_
  cases hmask : c.nullMask <;> simp [ResultColumn.entry, nullFlagAt, hmask, hi]

/-- The row in one place is the first with its cells and the first with its entries. -/
theorem firstOf_eq_of_pick {n : Nat}
    (h : qr.pick (firstOf qr.row n) = qr.pick (firstOf qr.entries n)) :
    firstOf qr.row n = firstOf qr.entries n := by
  refine ext_getElem (congrArg rowCount h) fun i hi hi' => ?_
  have hrow : qr.row (firstOf qr.row n)[i] = qr.row (firstOf qr.entries n)[i] := by
    rw [← row_pick hi, h, row_pick hi']
  have hentries : qr.entries (firstOf qr.row n)[i] = qr.entries (firstOf qr.entries n)[i] := by
    rw [← entries_pick hi, h, entries_pick hi']
  rcases Nat.lt_trichotomy (firstOf qr.row n)[i] (firstOf qr.entries n)[i] with hlt | heq | hlt
  · exact ((mem_firstOf.mp (getElem_mem hi')).2 ⟨_, hlt, hentries⟩).elim
  · exact heq
  · exact ((mem_firstOf.mp (getElem_mem hi)).2 ⟨_, hlt, hrow.symm⟩).elim

end QueryResult

open QueryResult

theorem deduplicateRows_eq {qr : QueryResult} (h : ∀ c ∈ qr.columns, c.Exact qr.rowCount) :
    deduplicateRows qr = qr.pick (firstOf qr.row qr.rowCount) := by
  have hdef : deduplicateRows qr =
      if qr.rowCount ≤ 1 ∨ (firstOf qr.row qr.rowCount).length = qr.rowCount then qr
      else qr.pick (firstOf qr.row qr.rowCount) := rfl
  rw [hdef]
  split
  · next hall => rw [firstOf_eq_range hall, pick_range h]
  · rfl

/-- **DISTINCT.** The first of equal rows are kept, in their order and with their cells, texts and
NULL flags, exactly if a row repeats the cells of an earlier row just when it is equal to one. -/
theorem deduplicateRows_exact_iff (qr : QueryResult) (h : ∀ c ∈ qr.columns, c.Exact qr.rowCount) :
    deduplicateRows qr = qr.pick (firstOf qr.entries qr.rowCount) ↔
      ∀ r < qr.rowCount, (∃ r' < r, qr.row r' = qr.row r) ↔
        ∃ r' < r, qr.entries r' = qr.entries r := by
  rw [deduplicateRows_eq h]
  constructor
  · intro hpick r hr
    have hmem : r ∈ firstOf qr.row qr.rowCount ↔ r ∈ firstOf qr.entries qr.rowCount := by
      rw [firstOf_eq_of_pick hpick]
    rw [mem_firstOf, mem_firstOf, and_congr_right_iff] at hmem
    exact not_iff_not.mp (hmem hr)
  · intro hrepeats
    refine congrArg _ (filter_congr fun r hr => ?_)
    have hr := not_congr (hrepeats r (mem_range.mp hr))
    rw [Bool.eq_iff_iff]
    simpa using hr

/-- A column of NULLs and numbers. -/
def nullable (values : List UInt64) (nulls : List Bool) : QueryResult where
  columns := [{ name := "a", values, stringValues := none, typeOid := 0, nullMask := some nulls }]
  rowCount := values.length

theorem deduplicateRows_nulls : deduplicateRows (nullable [0, 0, 7] [true, true, false]) =
    (nullable [0, 0, 7] [true, true, false]).pick [0, 2] :=
  (deduplicateRows_exact_iff (nullable [0, 0, 7] [true, true, false])
    (by simp [nullable]; exact ⟨rfl, nofun, by simp⟩)).mpr (by decide)

/-- NULL and 0 are taken for one row. -/
theorem deduplicateRows_drops_zero :
    (deduplicateRows (nullable [0, 0] [true, false])).rowCount = 1 ∧
      (nullable [0, 0] [true, false]).entries 0 ≠ (nullable [0, 0] [true, false]).entries 1 := by
  decide

end TensorVault
